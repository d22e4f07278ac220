import EnvelopeWarp.Proofs.ClosestDouble
import EnvelopeWarp.Proofs.ExactScalar
import EnvelopeWarp.Proofs.RereadPaths

/-! Coordinates that are written with a fixed number of places and read again. The decimal that is written is at most half a
unit of its last place away from the coordinate, and the double that it reads as is no farther away from it than the
coordinate was, so it is rounded to the same decimal and written with the same text. -/

namespace EnvelopeWarp

/-- A whole number that a number is rounded to: at most half away, and halfway only if it is even. -/
structure Rounds (q : ℚ) (whole : Nat) : Prop where
  near : 2 * |q - whole| ≤ 1
  odd : whole % 2 = 1 → 2 * |q - whole| < 1

/-- A number that is no farther away is rounded alike. -/
theorem Rounds.of_closer {q other : ℚ} {whole : Nat} (rounds : Rounds q whole) (closer : |other - whole| ≤ |q - whole|) :
    Rounds other whole :=
  ⟨by linarith [rounds.near], fun parity => by linarith [rounds.odd parity]⟩

private theorem roundDiv_bounds (num : Nat) {den : Nat} (positive : 0 < den) :
    2 * roundDiv num den * den ≤ 2 * num + den ∧ 2 * num ≤ (2 * roundDiv num den + 1) * den ∧
      (roundDiv num den % 2 = 1 → 2 * roundDiv num den * den < 2 * num + den ∧
        2 * num < (2 * roundDiv num den + 1) * den) := by
  have split := Nat.div_add_mod num den
  have small := Nat.mod_lt num positive
  unfold roundDiv
  generalize num / den = quotient at *
  generalize num % den = rest at *
  have lower : 2 * quotient * den = 2 * (den * quotient) := by ring
  have middle : (2 * quotient + 1) * den = 2 * (den * quotient) + den := by ring
  have upper : 2 * (quotient + 1) * den = 2 * (den * quotient) + 2 * den := by ring
  have beyond : (2 * (quotient + 1) + 1) * den = 2 * (den * quotient) + 3 * den := by ring
  simp only
  split_ifs <;> simp only [lower, middle, upper, beyond] <;> omega

/-- Two numbers compare as the sign of what lies between them says, whatever unit it is measured in. -/
theorem compare_of_gap {first second : Nat} {gap unit : ℚ} (positive : 0 < unit)
    (apart : (second : ℚ) - first = gap * unit) : (first ≤ second ↔ 0 ≤ gap) ∧ (first < second ↔ 0 < gap) := by
  constructor
  · rw [← Nat.cast_le (α := ℚ), ← sub_nonneg, apart, mul_nonneg_iff_of_pos_right positive]
  · rw [← Nat.cast_lt (α := ℚ), ← sub_pos, apart, mul_pos_iff_of_pos_right positive]

private theorem roundDiv_eq_iff {num den whole : Nat} {q : ℚ} (positive : 0 < den) (quotient : (num : ℚ) = q * den) :
    roundDiv num den = whole ↔ Rounds q whole := by
  have unit : (0 : ℚ) < den := by exact_mod_cast positive
  have up (whole : Nat) : (((2 * whole + 1) * den : Nat) : ℚ) - (2 * num : Nat) = (1 - 2 * (q - whole)) * den := by
    push_cast
    rw [quotient]
    ring
  have down (whole : Nat) : ((2 * num + den : Nat) : ℚ) - (2 * whole * den : Nat) = (1 - 2 * (whole - q)) * den := by
    push_cast
    rw [quotient]
    ring
  constructor
  · rintro rfl
    obtain ⟨first, second, strict⟩ := roundDiv_bounds num positive
    rw [(compare_of_gap unit (up _)).1] at second
    rw [(compare_of_gap unit (down _)).1] at first
    rw [(compare_of_gap unit (up _)).2, (compare_of_gap unit (down _)).2] at strict
    refine ⟨?_, fun parity => ?_⟩
    · rcases abs_cases (q - (roundDiv num den : ℚ)) with ⟨same, _⟩ | ⟨same, _⟩ <;> rw [same] <;> linarith
    · obtain ⟨first, second⟩ := strict parity
      rcases abs_cases (q - (roundDiv num den : ℚ)) with ⟨same, _⟩ | ⟨same, _⟩ <;> rw [same] <;> linarith
  · intro rounds
    have first := le_abs_self (q - whole)
    have second := neg_le_abs (q - whole)
    obtain ⟨above, strictly_above⟩ := compare_of_gap unit (up whole)
    obtain ⟨below, strictly_below⟩ := compare_of_gap unit (down whole)
    refine roundDiv_eq positive (below.mpr ?_) (above.mpr ?_) fun parity => ⟨strictly_below.mpr ?_, strictly_above.mpr ?_⟩
    · linarith [rounds.near]
    · linarith [rounds.near]
    · linarith [rounds.odd parity]
    · linarith [rounds.odd parity]

namespace Double

/-- The digits of a magnitude that is written with a fixed number of places. -/
def fixedDigits (places pattern : Nat) : Nat :=
  roundDiv ((dyadic pattern).mantissa * powerUp 2 (dyadic pattern).exponent * Nat.pow 10 places)
    (powerDown 2 (dyadic pattern).exponent)

private theorem fixedDigits_eq_iff {places pattern whole : Nat} :
    fixedDigits places pattern = whole ↔ Rounds ((dyadic pattern).number * 10 ^ places) whole := by
  apply roundDiv_eq_iff (powerDown_pos (by decide) _)
  have up := powerUp_eq 2 (by decide) (dyadic pattern).exponent
  push_cast at up
  push_cast [Nat.pow_eq]
  rw [up, Dyadic.number]
  ring

private theorem fixedDigits_zero (places : Nat) : fixedDigits places 0 = 0 := by
  rw [fixedDigits_eq_iff, number_zero]
  exact ⟨by norm_num, by norm_num⟩

/-- The decimal that a finite magnitude is written as reads as a finite magnitude that is written alike. -/
theorem fixedDigits_nearestDecimal {places pattern digits : Nat} {exponent : Int} (finite : pattern < infinity)
    (value : (digits : ℚ) * 10 ^ exponent * 10 ^ places = fixedDigits places pattern) :
    nearestDecimal digits exponent < infinity ∧
      fixedDigits places (nearestDecimal digits exponent) = fixedDigits places pattern := by
  have ten : (0 : ℚ) < 10 ^ places := by positivity
  have unit : (1 : ℚ) ≤ 10 ^ places := one_le_pow₀ (by norm_num)
  have rounds : Rounds _ _ := fixedDigits_eq_iff.mp (Eq.refl (fixedDigits places pattern))
  have near := rounds.near
  have scaled (other : Nat) : |(dyadic other).number * 10 ^ places - fixedDigits places pattern| =
      |(dyadic other).number - digits * 10 ^ exponent| * 10 ^ places := by
    rw [← value, ← sub_mul, abs_mul, abs_of_pos ten]
  have nonneg : (0 : ℚ) ≤ digits * 10 ^ exponent := by positivity
  obtain ⟨closest, reads, least⟩ := exists_closest nonneg
  have inside : closest < infinity := by
    apply closest_finite (least pattern) finite
    rw [scaled] at near
    nlinarith [abs_nonneg ((dyadic pattern).number - digits * 10 ^ exponent)]
  have alike : fixedDigits places closest = fixedDigits places pattern := by
    refine fixedDigits_eq_iff.mpr (rounds.of_closer ?_)
    rw [scaled, scaled]
    exact mul_le_mul_of_nonneg_right (least pattern) ten.le
  rcases Nat.eq_zero_or_pos digits with rfl | some_digit
  · have none_left : fixedDigits places pattern = 0 := by
      rw [Nat.cast_zero, zero_mul, zero_mul] at value
      exact_mod_cast value.symm
    have zero : nearestDecimal 0 exponent = 0 := if_pos rfl
    rw [zero, none_left]
    exact ⟨by decide, fixedDigits_zero places⟩
  · have some_bit : 0 < (dyadic closest).mantissa := by
      refine Nat.pos_of_ne_zero fun empty => ?_
      have written : fixedDigits places pattern = 0 := by
        rw [← alike, fixedDigits_eq_iff, Dyadic.number, empty]
        exact ⟨by norm_num, by norm_num⟩
      have positive : (0 : ℚ) < digits * 10 ^ exponent * 10 ^ places := by positivity
      rw [value, written, Nat.cast_zero] at positive
      exact lt_irrefl _ positive
    have found : nearestDecimal digits exponent = closest := by
      have own := pattern_dyadic closest
      rw [nearestDecimal_eq (dyadic_normal closest) reads some_bit (own.symm ▸ inside), own]
    rw [found]
    exact ⟨inside, alike⟩

end Double

namespace Positional

private theorem value_literal (number : Positional) (negative : Bool) : (number.literal negative).value =
    ⟨negative, digitsValue (number.whole ++ number.fraction), -(number.fraction.length : Int)⟩ := by
  rw [Literal.value, literal_fraction]
  cases negative <;> simp [literal]

private theorem exists_zeros (number : Positional) :
    ∃ zeros, number.fraction = number.trimmed.fraction ++ List.replicate zeros '0' := by
  have split := List.takeWhile_append_dropWhile (p := (· == '0')) (l := number.fraction.reverse)
  obtain ⟨count, zeros⟩ : ∃ count, number.fraction.reverse.takeWhile (· == '0') = List.replicate count '0' :=
    ⟨_, List.eq_replicate_of_mem fun c member => beq_iff_eq.mp (List.all_eq_true.mp List.all_takeWhile c member)⟩
  refine ⟨count, ?_⟩
  rw [zeros] at split
  rw [← List.reverse_reverse number.fraction, ← split, List.reverse_append, List.reverse_replicate]
  rfl

/-- The zeros at the end of a fraction are worth nothing. -/
theorem trimmed_value (number : Positional) (negative : Bool) : ∃ digits exponent,
    (number.trimmed.literal negative).value = ⟨negative, digits, exponent⟩ ∧ (digits : ℚ) * 10 ^ exponent =
      digitsValue (number.whole ++ number.fraction) * 10 ^ (-(number.fraction.length : Int)) := by
  obtain ⟨zeros, split⟩ := number.exists_zeros
  have power : (10 : ℚ) ^ (-(number.trimmed.fraction.length : Int)) =
      10 ^ zeros * 10 ^ (-((number.trimmed.fraction.length + zeros : Nat) : Int)) := by
    rw [← zpow_natCast, ← zpow_add₀ (by norm_num)]
    congr 1
    omega
  have whole : number.trimmed.whole = number.whole := rfl
  refine ⟨_, _, value_literal _ _, ?_⟩
  rw [split, ← List.append_assoc, digitsValue_append (number.whole ++ _), digitsValue_zeros, List.length_append,
    List.length_replicate, power, whole]
  push_cast
  ring

end Positional

namespace Path

/-- The digits of a coordinate with a fixed number of places. -/
def fixedNumber (places : Nat) (x : Float) : Positional :=
  Positional.ofDigits (Double.fixedDigits places (Double.magnitude x)) (-(places : Int))

/-- A coordinate that is rounded to zero has no sign. -/
def fixedNegative (places : Nat) (x : Float) : Bool :=
  Double.negative x && Double.fixedDigits places (Double.magnitude x) != 0

theorem sound_fixedNumber (places : Nat) (x : Float) : (fixedNumber places x).Sound :=
  Positional.sound_ofDigits _ _

/-- With or without the zeros at its end, what is written is the rounded coordinate. -/
theorem fixedNumber_value (places : Nat) (x : Float) (negative : Bool) : ∃ digits exponent,
    ((fixedNumber places x).trimmed.literal negative).value = ⟨negative, digits, exponent⟩ ∧
      (digits : ℚ) * 10 ^ exponent = Double.fixedDigits places (Double.magnitude x) * 10 ^ (-(places : Int)) := by
  obtain ⟨digits, exponent, written, value⟩ := (fixedNumber places x).trimmed_value negative
  refine ⟨digits, exponent, written, ?_⟩
  have length := Positional.length_fraction_ofDigits (Double.fixedDigits places (Double.magnitude x)) (-(places : Int))
  have whole := Positional.digitsValue_ofDigits (Double.fixedDigits places (Double.magnitude x)) (-(places : Int))
  have none_written : (-(places : Int)).toNat = 0 := by omega
  rw [none_written, Nat.pow_zero, Nat.mul_one] at whole
  rw [value, fixedNumber, whole, length]
  congr 2
  omega

private theorem rounds_to_zero {places : Nat} {x : Float} (negative : Bool)
    (zero : ((fixedNumber places x).trimmed.literal negative).value.digits = 0) :
    Double.fixedDigits places (Double.magnitude x) = 0 := by
  obtain ⟨digits, exponent, written, value⟩ := fixedNumber_value places x negative
  have ten : (10 : ℚ) ^ (-(places : Int)) ≠ 0 := zpow_ne_zero _ (by norm_num)
  obtain rfl : digits = 0 := by rwa [written] at zero
  rw [Nat.cast_zero, zero_mul] at value
  exact_mod_cast (mul_eq_zero.mp value.symm).resolve_right ten

section Fixed
variable {x : Float} (finite : x.isFinite = true) (places : Nat)
include finite

private theorem fixed_eq :
    (Layout.fixed places).text x = ((fixedNumber places x).literal (Double.negative x)).text := by
  have inside := (Double.isFinite_iff x).mp finite
  rw [Layout.text, if_neg (by omega), if_neg (by omega), Positional.literal_text]
  rfl

theorem coordinate_fixed :
    coordinate (some places) x = ((fixedNumber places x).trimmed.literal (fixedNegative places x)).text := by
  have sound := sound_fixedNumber places x
  rw [coordinate]
  simp only [fixed_eq finite, Positional.literal_text, sound.dropZeros]
  by_cases zero : Double.fixedDigits places (Double.magnitude x) = 0
  · have shape : (fixedNumber places x).trimmed = ⟨['0'], []⟩ := by
      rw [fixedNumber, zero, Positional.trimmed_zero]
    have unsigned : fixedNegative places x = false := by simp [fixedNegative, zero]
    rw [shape, unsigned]
    cases Double.negative x <;> rfl
  · have signed : fixedNegative places x = Double.negative x := by simp [fixedNegative, zero]
    rw [signed, if_neg]
    intro zero_text
    have scanned := Literal.scan?_text (sound.trimmed.literal (Double.negative x)) (Free.nil _)
    rw [Positional.literal_text, List.append_nil, zero_text] at scanned
    have only : some ((⟨some '-', ['0'], none, none⟩ : Literal), []) =
      some ((fixedNumber places x).trimmed.literal (Double.negative x), []) := scanned
    refine zero (rounds_to_zero (Double.negative x) ?_)
    rw [← (Prod.mk.inj (Option.some.inj only)).1]
    rfl

private theorem rounded_fixed :
    rounded (some places) x = ((fixedNumber places x).trimmed.literal (fixedNegative places x)).value := by
  have scanned := Literal.scan?_text ((sound_fixedNumber places x).trimmed.literal (fixedNegative places x)) (Free.nil _)
  rw [List.append_nil] at scanned
  rw [rounded, coordinate_fixed finite, scanned]

/-- A coordinate that is written and read is written as before. -/
theorem coordinate_reread : coordinate (some places) (reread (some places) x) = coordinate (some places) x := by
  obtain ⟨digits, exponent, written, value⟩ := fixedNumber_value places x (fixedNegative places x)
  have inside := (Double.isFinite_iff x).mp finite
  have scaled : (digits : ℚ) * 10 ^ exponent * 10 ^ places = Double.fixedDigits places (Double.magnitude x) := by
    rw [value, zpow_neg, zpow_natCast, inv_mul_cancel_right₀ (by positivity)]
  obtain ⟨again, alike⟩ := Double.fixedDigits_nearestDecimal inside scaled
  have read : reread (some places) x =
      Double.ofPattern (fixedNegative places x) (Double.nearestDecimal digits exponent) := by
    rw [reread, rounded_fixed finite, written, Double.ofDecimal]
  have magnitude := Double.magnitude_ofPattern again.le (fixedNegative places x)
  have negative := Double.negative_ofPattern again.le (fixedNegative places x)
  rw [← read] at magnitude negative
  have number : fixedNumber places (reread (some places) x) = fixedNumber places x := by
    rw [fixedNumber, fixedNumber, magnitude, alike]
  have sign : fixedNegative places (reread (some places) x) = fixedNegative places x := by
    rw [fixedNegative, magnitude, negative, alike, fixedNegative, Bool.and_assoc, Bool.and_self]
  rw [← magnitude, ← Double.isFinite_iff] at again
  rw [coordinate_fixed again, coordinate_fixed finite, number, sign]

/-- With the zeros at its end and without them a coordinate is the same decimal. -/
theorem spells_fixed : ∃ written exact : Decimal, Spells (coordinate (some places) x) written ∧
    Spells ((Layout.fixed places).text x) exact ∧ (Scalar.ofDecimal written : ℝ) = Scalar.ofDecimal exact := by
  have sound := sound_fixedNumber places x
  obtain ⟨digits, exponent, trimmed, value⟩ := fixedNumber_value places x (fixedNegative places x)
  refine ⟨_, _, ⟨_, sound.trimmed.literal _, (coordinate_fixed finite places).symm, trimmed⟩,
    ⟨_, sound.literal _, (fixed_eq finite places).symm, Positional.literal_value _ _ _⟩, ?_⟩
  have none_written : (-(places : Int)).toNat = 0 := by omega
  have least : min (-(places : Int)) 0 = -(places : Int) := by omega
  have real := congrArg (Rat.cast : ℚ → ℝ) value
  push_cast at real
  simp only [Scalar.ofDecimal, none_written, least, Nat.pow_zero, Nat.mul_one, mul_assoc, real]
  by_cases zero : Double.fixedDigits places (Double.magnitude x) = 0
  · rw [zero, Nat.cast_zero, zero_mul, mul_zero, mul_zero]
  · have signed : fixedNegative places x = Double.negative x := by simp [fixedNegative, zero]
    rw [signed]

end Fixed

/-- At most so many digits behind a point, and the last of them not zero; and zero has no sign. -/
structure Tidy (places : Nat) (text : List Char) : Prop where
  fraction : ∀ whole fraction, text = whole ++ '.' :: fraction →
    fraction ≠ [] ∧ fraction.length ≤ places ∧ fraction.getLast? ≠ some '0'
  unsigned : text ≠ ['-', '0']

theorem tidy_coordinate {x : Float} (finite : x.isFinite = true) (places : Nat) :
    Tidy places (coordinate (some places) x) := by
  have sound := (sound_fixedNumber places x).trimmed
  have no_point := sound.point_not_mem (fixedNegative places x)
  obtain ⟨zeros, padded⟩ := (fixedNumber places x).exists_zeros
  have length : ((fixedNumber places x).fraction.length : Int) = _ := Positional.length_fraction_ofDigits _ _
  rw [padded, List.length_append] at length
  have last : (fixedNumber places x).trimmed.fraction.getLast? ≠ some '0' := by
    rw [Positional.trimmed, List.getLast?_reverse]
    intro zero
    exact absurd (free_dropWhile (· == '0') _ '0' zero) (by decide)
  constructor
  · intro whole fraction split
    rw [coordinate_fixed finite, Positional.literal_text, Positional.text] at split
    split at split
    · exact absurd (split ▸ List.mem_append_right _ (.head _)) no_point
    · next some_digit =>
      have no_other : '.' ∉ (fixedNumber places x).trimmed.fraction := fun member =>
        absurd (sound.fraction '.' member) (by decide)
      rw [← List.append_assoc] at split
      obtain ⟨_, _, rfl⟩ := (List.append_cons_inj_of_notMem no_point no_other).mp split
      exact ⟨mt List.isEmpty_iff.mpr some_digit, by omega, last⟩
  · unfold coordinate
    simp only
    split
    · decide
    · next other => exact other

end Path
end EnvelopeWarp
