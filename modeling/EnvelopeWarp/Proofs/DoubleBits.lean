import Mathlib
import EnvelopeWarp.Scalar.Double

/-! The bits of a double. A word is its sign, its exponent and its mantissa put together again, so a double
is known from its sign and its magnitude, and the finite ones are those with a magnitude below infinity.
Doubles that are numbers are equal when they have the same bits or are both zero. -/

namespace EnvelopeWarp
namespace Double

open Float.Model.UnpackedFloat

private theorem infinity_eq : infinity = 2047 * 2 ^ 52 := rfl

private theorem signBit_eq : signBit = 2 ^ 63 := rfl

private theorem unpackSign_packComponents {format : Float.Model.Format} (sign : Sign)
    (exponent : BitVec format.exponentBits) (mantissa : BitVec format.mantissaBitsWithoutImplicit) :
    Sign.ofBitVec (unpackSign (packComponents format sign exponent mantissa)) = sign := by
  have bit : unpackSign (packComponents format sign exponent mantissa) = sign.toBitVec := by
    ext i inside
    obtain rfl : i = 0 := by omega
    simp [unpackSign, packComponents, BitVec.getLsbD_append, BitVec.getElem_append]
  rw [bit]
  cases sign <;> rfl

section Word
variable (sign : Sign) (exponent : BitVec 11) (mantissa : BitVec 52)

private abbrev word : BitVec Float.Model.Format.binary64.numBits :=
  packComponents .binary64 sign exponent mantissa

private theorem word_split (bits : BitVec 64) : ∃ sign exponent mantissa, bits = word sign exponent mantissa := by
  refine ⟨.ofBitVec (bits.extractLsb' 63 1), bits.extractLsb' 52 11, bits.extractLsb' 0 52, ?_⟩
  have sign : (Sign.ofBitVec (bits.extractLsb' 63 1)).toBitVec = bits.extractLsb' 63 1 := by
    rcases BitVec.eq_zero_or_eq_one (bits.extractLsb' 63 1) with zero | one
    · rw [zero]
      rfl
    · rw [one]
      rfl
  rw [word, packComponents, sign]
  ext i inside
  grind

private theorem word_toNat : (word sign exponent mantissa).toNat =
    sign.toBitVec.toNat * 2 ^ 63 + (exponent.toNat * 2 ^ 52 + mantissa.toNat) := by
  have inner : (sign.toBitVec ++ exponent).toNat = sign.toBitVec.toNat * 2 ^ 11 + exponent.toNat := by
    rw [BitVec.toNat_append, ← Nat.shiftLeft_add_eq_or_of_lt exponent.isLt, Nat.shiftLeft_eq]
  have outer : (word sign exponent mantissa).toNat =
      (sign.toBitVec ++ exponent).toNat * 2 ^ 52 + mantissa.toNat := by
    rw [word, packComponents, BitVec.toNat_append, ← Nat.shiftLeft_add_eq_or_of_lt mantissa.isLt, Nat.shiftLeft_eq]
  rw [outer, inner]
  ring

private theorem unpack_last : unpack .binary64 (word sign (-1#11) mantissa) =
    if mantissa = 0#52 then .infinity sign else .notANumber := by
  simp only [unpack, unpackMantissa_packComponents, unpackExponent_packComponents, unpackSign_packComponents]
  rw [if_pos trivial]

private theorem unpack_least : unpack .binary64 (word sign 0#11 mantissa) =
    if empty : mantissa = 0#52 then .zero sign
    else .finite sign mantissa.toNat (-1074) (Nat.pos_of_ne_zero fun zero => empty (BitVec.eq_of_toNat_eq zero)) := by
  simp only [unpack, unpackMantissa_packComponents, unpackExponent_packComponents, unpackSign_packComponents]
  rw [if_neg (by decide), if_pos trivial]
  rfl

private theorem unpack_full (some_bit : exponent ≠ 0#11) (finite : exponent ≠ -1#11) :
    unpack .binary64 (word sign exponent mantissa) =
      .finite sign (2 ^ 52 + mantissa.toNat) (exponent.toNat - 1075) (by omega) := by
  have implicit : (1#1 ++ mantissa).toNat = 2 ^ 52 + mantissa.toNat := by
    rw [BitVec.toNat_append, ← Nat.shiftLeft_add_eq_or_of_lt mantissa.isLt]
    rfl
  simp only [unpack, unpackMantissa_packComponents, unpackExponent_packComponents, unpackSign_packComponents]
  rw [if_neg finite, if_neg some_bit]
  simp only [implicit]
  rfl

end Word

private theorem pack_unpack {bits : BitVec 64} (valid : Float.Model.Format.binary64.Valid bits) :
    pack .binary64 (unpack .binary64 bits) = bits := by
  obtain ⟨sign, exponent, mantissa, rfl⟩ := word_split bits
  have width : Float.Model.Format.binary64.mantissaBits = 53 := rfl
  by_cases last : exponent = -1#11
  · subst last
    rw [unpack_last]
    split
    · next empty =>
      subst empty
      rfl
    · next filled =>
      exact (valid.eq_packedNaN (unpackExponent_packComponents ..)
        (by rwa [unpackMantissa_packComponents])).symm
  by_cases least : exponent = 0#11
  · subst least
    rw [unpack_least]
    split
    · next empty =>
      subst empty
      rfl
    · next filled =>
      have small : mantissa.toNat.log2 + 1 ≠ 53 := by
        intro large
        have := (Nat.le_log2 (fun zero => filled (BitVec.eq_of_toNat_eq zero))).mp (show 52 ≤ _ by omega)
        have := mantissa.isLt
        omega
      rw [pack, width, if_neg (by decide), if_neg small, BitVec.ofNat_toNat, BitVec.setWidth_eq]
  · rw [unpack_full sign exponent mantissa least last]
    have full : (2 ^ 52 + mantissa.toNat).log2 + 1 = 53 := by
      have := mantissa.isLt
      have low := (Nat.le_log2 (show 2 ^ 52 + mantissa.toNat ≠ 0 by omega)).mpr (show 2 ^ 52 ≤ _ by omega)
      have high := (Nat.log2_lt (show 2 ^ 52 + mantissa.toNat ≠ 0 by omega)).mpr (show _ < 2 ^ 53 by omega)
      omega
    have biased : ((exponent.toNat : Int) - 1075 + Float.Model.Format.binary64.exponentBias + (52 : Nat)).toNat = exponent.toNat := by
      change ((exponent.toNat : Int) - 1075 + (1023 : Nat) + (52 : Nat)).toNat = _
      omega
    have below : exponent.toNat ≠ 2 ^ 11 - 1 := fun top => last (BitVec.eq_of_toNat_eq top)
    have room : ¬2 ^ 11 ≤ exponent.toNat + 1 := by
      have := exponent.isLt
      omega
    have clear : BitVec.ofNat 52 (2 ^ 52 + mantissa.toNat) = mantissa := by
      apply BitVec.eq_of_toNat_eq
      rw [BitVec.toNat_ofNat, Nat.add_mod_left, Nat.mod_eq_of_lt mantissa.isLt]
    simp only [pack, biased, width]
    rw [if_neg room, if_pos full, clear, BitVec.ofNat_toNat, BitVec.setWidth_eq]

/-- A double is known from its bits. -/
theorem ofBits_toBits (x : Float) : Float.ofBits x.toBits = x := by
  obtain ⟨bits, valid⟩ := x
  have same := pack_unpack valid
  simp only [Float.ofBits, Float.toBits, Float.Model.ofBits, Float.Model.pack, same]

/-- A double is known from its sign and its magnitude. -/
theorem ofPattern_self (x : Float) : ofPattern (negative x) (magnitude x) = x := by
  have split : (if negative x then signBit + magnitude x else magnitude x) = x.toBits.toNat := by
    have inside := x.toBits.toNat_lt
    simp only [negative, magnitude, decide_eq_true_eq]
    rw [signBit_eq]
    split <;> omega
  rw [ofPattern, split, UInt64.ofNat_toNat, ofBits_toBits]

/-- The finite doubles are those with a magnitude below infinity. -/
theorem isFinite_iff (x : Float) : x.isFinite = true ↔ magnitude x < infinity := by
  obtain ⟨bits, valid⟩ := x
  obtain ⟨sign, exponent, mantissa, same⟩ := word_split bits.toBitVec
  have value : magnitude ⟨bits, valid⟩ = exponent.toNat * 2 ^ 52 + mantissa.toNat := by
    have nat : bits.toNat = (word sign exponent mantissa).toNat := congrArg BitVec.toNat same
    have exponentBound := exponent.isLt
    have mantissaBound := mantissa.isLt
    change bits.toNat % 2 ^ 63 = _
    rw [nat, word_toNat, Nat.mul_add_mod', Nat.mod_eq_of_lt (by omega)]
  have unpacked : (⟨bits, valid⟩ : Float).isFinite = (unpack .binary64 (word sign exponent mantissa)).isFinite := by
    rw [← same]
    rfl
  rw [unpacked, value, infinity_eq]
  by_cases last : exponent = -1#11
  · subst last
    rw [unpack_last]
    have full : (-1#11).toNat = 2047 := rfl
    rw [full]
    split <;> simp [isFinite]
  · have below : exponent.toNat ≠ 2047 := fun top => last (BitVec.eq_of_toNat_eq top)
    have exponentBound := exponent.isLt
    have mantissaBound := mantissa.isLt
    have finite : (unpack .binary64 (word sign exponent mantissa)).isFinite = true := by
      by_cases least : exponent = 0#11
      · subst least
        rw [unpack_least]
        split <;> rfl
      · rw [unpack_full sign exponent mantissa least last]
        rfl
    simp only [finite, true_iff]
    omega

private def unsigned : Float.Model.UnpackedFloat → Float.Model.UnpackedFloat
  | .zero _ => .zero .positive
  | other => other

private theorem compare_eq_iff (u v : Float.Model.UnpackedFloat) :
    u.compare v = some .eq ↔ u.isNaN = false ∧ unsigned u = unsigned v := by
  have signs : ∀ s t : Sign, compare s t = .eq ↔ s = t := by
    intro s t
    constructor
    · intro equal
      cases s <;> cases t <;> first | rfl | cases equal
    · rintro rfl
      cases s <;> rfl
  cases u with
  | notANumber => simp [Float.Model.UnpackedFloat.compare, isNaN]
  | infinity s => cases v <;> cases s <;> simp [Float.Model.UnpackedFloat.compare, isNaN, unsigned, signs]
  | zero s =>
    cases v with
    | finite t => cases t <;> simp [Float.Model.UnpackedFloat.compare, isNaN, unsigned]
    | infinity t => cases t <;> simp [Float.Model.UnpackedFloat.compare, isNaN, unsigned]
    | _ => simp [Float.Model.UnpackedFloat.compare, isNaN, unsigned]
  | finite s m e positive =>
    cases v with
    | finite t =>
      cases s <;> cases t <;> simp [Float.Model.UnpackedFloat.compare, isNaN, unsigned, and_comm]
    | infinity t => cases s <;> cases t <;> simp [Float.Model.UnpackedFloat.compare, isNaN, unsigned]
    | _ => cases s <;> simp [Float.Model.UnpackedFloat.compare, isNaN, unsigned]

private theorem eq_iff (x y : Float) : (x == y) = true ↔
    x.isNaN = false ∧ unsigned x.toModel.unpack = unsigned y.toModel.unpack := by
  change (Float.Model.UnpackedFloat.compare x.toModel.unpack y.toModel.unpack == some .eq) = true ↔ _
  rw [beq_iff_eq, compare_eq_iff]
  rfl

private theorem isNaN_unsigned (u : Float.Model.UnpackedFloat) : (unsigned u).isNaN = u.isNaN := by
  cases u <;> rfl

theorem eq_symm {x y : Float} (same : (x == y) = true) : (y == x) = true := by
  obtain ⟨number, bits⟩ := (eq_iff x y).mp same
  have other : y.isNaN = x.isNaN := by
    change y.toModel.unpack.isNaN = x.toModel.unpack.isNaN
    rw [← isNaN_unsigned, ← bits, isNaN_unsigned]
  exact (eq_iff y x).mpr ⟨other.trans number, bits.symm⟩

theorem eq_trans {x y z : Float} (first : (x == y) = true) (second : (y == z) = true) : (x == z) = true := by
  obtain ⟨number, before⟩ := (eq_iff x y).mp first
  obtain ⟨_, after⟩ := (eq_iff y z).mp second
  exact (eq_iff x z).mpr ⟨number, before.trans after⟩

theorem eq_self_of_finite {x : Float} (finite : x.isFinite = true) : (x == x) = true := by
  refine (eq_iff x x).mpr ⟨?_, rfl⟩
  change x.toModel.unpack.isFinite = true at finite
  change x.toModel.unpack.isNaN = false
  cases shape : x.toModel.unpack with
  | notANumber => rw [shape] at finite; cases finite
  | _ => rfl

private theorem pack_toModel (x : Float) : Float.ofModel (.pack x.toModel.unpack) = x :=
  ofBits_toBits x

private theorem eq_or_zero {x y : Float} (equal : (x == y) = true) :
    x = y ∨ ∃ s t, x.toModel.unpack = .zero s ∧ y.toModel.unpack = .zero t := by
  have same := ((eq_iff x y).mp equal).2
  by_cases unpacked : x.toModel.unpack = y.toModel.unpack
  · left
    rw [← pack_toModel x, ← pack_toModel y, unpacked]
  · right
    cases first : x.toModel.unpack with
    | zero s =>
      cases second : y.toModel.unpack with
      | zero t => exact ⟨s, t, rfl, rfl⟩
      | _ => rw [first, second] at same; cases same
    | _ =>
      rw [first] at same unpacked
      cases second : y.toModel.unpack with
      | zero t => rw [second] at same; cases same
      | _ => rw [second] at same unpacked; exact absurd same unpacked

/-- All doubles that are no numbers are the same. -/
theorem eq_of_infinity_lt {x : Float} (above : infinity < magnitude x) : x = ofPattern false (infinity + hidden / 2) := by
  have unpacked : x.toModel.unpack = .notANumber := by
    have unbounded : ¬x.isFinite = true := fun finite => Nat.lt_asymm above ((isFinite_iff x).mp finite)
    change ¬x.toModel.unpack.isFinite = true at unbounded
    cases shape : x.toModel.unpack with
    | notANumber => rfl
    | infinity sign =>
      rw [← pack_toModel x, shape] at above
      cases sign <;> exact absurd above (by decide)
    | _ =>
      rw [shape] at unbounded
      exact absurd rfl unbounded
  rw [← pack_toModel x, unpacked]
  rfl

private theorem magnitude_of_zero {x : Float} {s : Sign} (zero : x.toModel.unpack = .zero s) : magnitude x = 0 := by
  rw [← pack_toModel x, zero]
  cases s <;> rfl

/-- Doubles that compare equal are the same, or both are zero. -/
theorem eq_cases {x y : Float} (equal : (x == y) = true) : x = y ∨ magnitude x = 0 ∧ magnitude y = 0 := by
  rcases eq_or_zero equal with same | ⟨s, t, first, second⟩
  · exact .inl same
  · exact .inr ⟨magnitude_of_zero first, magnitude_of_zero second⟩

/-- The sign of a zero does not change a distance. -/
theorem abs_sub_congr {x y : Float} (equal : (x == y) = true) (z : Float) : (x - z).abs = (y - z).abs := by
  rcases eq_or_zero equal with rfl | ⟨s, t, first, second⟩
  · rfl
  have difference : ∀ (w : Float) (sign : Sign), w.toModel.unpack = .zero sign →
      w - z = Float.ofModel (.pack (sub .binary64 (.zero sign) z.toModel.unpack)) := by
    intro w sign zero
    rw [← zero]
    rfl
  rw [difference x s first, difference y t second]
  cases z.toModel.unpack with
  | zero sign => cases s <;> cases t <;> cases sign <;> rfl
  | _ => cases s <;> cases t <;> rfl

private theorem unpack_ofBits {bits : UInt64} (valid : Float.Model.Format.binary64.Valid bits.toBitVec) :
    (Float.ofBits bits).toModel.unpack = unpack .binary64 bits.toBitVec := by
  change unpack .binary64 (pack .binary64 (unpack .binary64 bits.toBitVec)) = _
  rw [pack_unpack valid]

private theorem pattern_word {pattern : Nat} (bounded : pattern ≤ infinity) (sign : Bool) : ∃ s exponent mantissa,
    (UInt64.ofNat (if sign then signBit + pattern else pattern)).toBitVec = word s exponent mantissa ∧
      (exponent = -1#11 → mantissa = 0#52) ∧ Float.Model.Format.binary64.Valid (word s exponent mantissa) := by
  have top := infinity_eq
  have bit := signBit_eq
  obtain ⟨s, exponent, mantissa, same⟩ := word_split (UInt64.ofNat (if sign then signBit + pattern else pattern)).toBitVec
  have small : exponent = -1#11 → mantissa = 0#52 := by
    rintro rfl
    have value := (congrArg BitVec.toNat same).trans (word_toNat s (-1#11) mantissa)
    have full : (-1#11).toNat = 2047 := rfl
    have low := mantissa.isLt
    have high := s.toBitVec.isLt
    apply BitVec.eq_of_toNat_eq
    change (UInt64.ofNat _).toNat = _ at value
    rw [UInt64.toNat_ofNat', full] at value
    rw [BitVec.toNat_ofNat]
    split at value <;> omega
  refine ⟨s, exponent, mantissa, same, small, ⟨fun last filled => absurd ?_ filled⟩⟩
  rw [unpackExponent_packComponents] at last
  rw [unpackMantissa_packComponents]
  exact small last

/-- A pattern up to infinity is a number. -/
theorem eq_self_ofPattern {pattern : Nat} (bounded : pattern ≤ infinity) (sign : Bool) :
    (ofPattern sign pattern == ofPattern sign pattern) = true := by
  obtain ⟨s, exponent, mantissa, same, small, valid⟩ := pattern_word bounded sign
  refine (eq_iff _ _).mpr ⟨?_, rfl⟩
  change (ofPattern sign pattern).toModel.unpack.isNaN = false
  rw [ofPattern, unpack_ofBits (same ▸ valid), same]
  by_cases last : exponent = -1#11
  · rw [last, unpack_last, if_pos (small last)]
    rfl
  by_cases least : exponent = 0#11
  · rw [least, unpack_least]
    split <;> rfl
  · rw [unpack_full s exponent mantissa least last]
    rfl

private theorem toBits_ofPattern {pattern : Nat} (bounded : pattern ≤ infinity) (sign : Bool) :
    (ofPattern sign pattern).toBits.toNat = if sign then signBit + pattern else pattern := by
  obtain ⟨s, exponent, mantissa, same, _, valid⟩ := pattern_word bounded sign
  have kept : (ofPattern sign pattern).toBits = UInt64.ofNat (if sign then signBit + pattern else pattern) :=
    congrArg UInt64.ofBitVec (pack_unpack (same ▸ valid))
  have top := infinity_eq
  have bit := signBit_eq
  rw [kept, UInt64.toNat_ofNat', Nat.mod_eq_of_lt]
  split <;> omega

/-- A pattern up to infinity is the magnitude of the double that it stands for. -/
theorem magnitude_ofPattern {pattern : Nat} (bounded : pattern ≤ infinity) (sign : Bool) :
    magnitude (ofPattern sign pattern) = pattern := by
  have top := infinity_eq
  have bit := signBit_eq
  rw [magnitude, toBits_ofPattern bounded, bit]
  split <;> omega

theorem negative_ofPattern {pattern : Nat} (bounded : pattern ≤ infinity) (sign : Bool) :
    negative (ofPattern sign pattern) = sign := by
  have top := infinity_eq
  have bit := signBit_eq
  rw [negative, toBits_ofPattern bounded]
  cases sign
  · exact decide_eq_false (by rw [if_neg Bool.false_ne_true]; omega)
  · exact decide_eq_true (by rw [if_pos rfl]; omega)

/-- A decimal is read as a number. -/
theorem eq_self_ofDecimal (value : Decimal) : (ofDecimal value == ofDecimal value) = true := by
  apply eq_self_ofPattern
  unfold nearestDecimal
  split
  · exact Nat.zero_le _
  split
  · exact le_rfl
  split
  · exact Nat.zero_le _
  · exact min_le_left _ _

theorem zero_eq (first second : Bool) : (ofPattern first 0 == ofPattern second 0) = true := by
  cases first <;> cases second <;> decide

end Double
end EnvelopeWarp
