import EnvelopeWarp.Proofs.DoubleBits
import EnvelopeWarp.Proofs.PositionalText
import EnvelopeWarp.Proofs.ShortestDecimal
import EnvelopeWarp.Path.Text

/-! The plain text of a finite double is a decimal literal that reads back to the same double; a coordinate,
whose text drops the sign of zero, reads back to an equal one. -/

namespace EnvelopeWarp

namespace Shortest

private theorem ofDecimal_decimal (tie : Tie) {x : Float} (finite : x.isFinite = true) {digits : Nat} {exponent : Int}
    (same : (digits : ℚ) * 10 ^ exponent = (decimal tie x).digits * 10 ^ (decimal tie x).exponent) :
    Double.ofDecimal ⟨(decimal tie x).negative, digits, exponent⟩ = x := by
  have inside := (Double.isFinite_iff x).mp finite
  have bits := Double.ofPattern_self x
  unfold decimal at same ⊢
  split at same
  · next zero =>
    have none_left : digits = 0 := by
      have power : (10 : ℚ) ^ exponent ≠ 0 := zpow_ne_zero _ (by norm_num)
      simpa [power] using same
    rw [if_pos zero, none_left]
    rwa [zero] at bits
  · next positive =>
    rw [if_neg positive]
    simp only [Double.ofDecimal]
    rw [nearestDecimal_shortest tie positive inside same, bits]

end Shortest

/-- To write out a power of ten as far as it is positive does not change a number. -/
theorem Positional.literal_number (digits : Nat) (exponent : Int) :
    ((digits * 10 ^ exponent.toNat : Nat) : ℚ) * 10 ^ min exponent 0 = digits * 10 ^ exponent := by
  rcases le_total 0 exponent with whole | fraction
  · obtain ⟨places, rfl⟩ := Int.eq_ofNat_of_zero_le whole
    simp
  · have places : exponent.toNat = 0 := by omega
    simp [places, min_eq_left fraction]

namespace Layout

def plainLiteral (x : Float) : Literal :=
  (Positional.ofDigits (Shortest.decimal .up x).digits (Shortest.decimal .up x).exponent).literal
    (Shortest.decimal .up x).negative

theorem plainLiteral_sound (x : Float) : (plainLiteral x).Sound :=
  Positional.literal_sound _ _ _

theorem plain_text {x : Float} (finite : x.isFinite = true) : plain.text x = (plainLiteral x).text := by
  have inside := (Double.isFinite_iff x).mp finite
  rw [text, if_neg (by omega), if_neg (by omega), plainLiteral, Positional.literal_text]
  rfl

theorem ofDecimal_plainLiteral {x : Float} (finite : x.isFinite = true) :
    Double.ofDecimal (plainLiteral x).value = x := by
  rw [plainLiteral, Positional.literal_value]
  exact Shortest.ofDecimal_decimal .up finite (Positional.literal_number _ _)

theorem ofDecimal_pointed {x : Float} (finite : x.isFinite = true) :
    Double.ofDecimal ((Positional.ofDigits (Shortest.decimal .up x).digits
      (Shortest.decimal .up x).exponent).pointedLiteral (Shortest.decimal .up x).negative).value = x := by
  obtain ⟨digits, exponent, written, value⟩ := Positional.pointedLiteral_value (Shortest.decimal .up x).negative
    (Positional.ofDigits (Shortest.decimal .up x).digits (Shortest.decimal .up x).exponent)
  rw [Positional.literal_value] at value
  rw [written]
  exact Shortest.ofDecimal_decimal .up finite (value.trans (Positional.literal_number _ _))

end Layout

/-- The text of a finite coordinate spells a decimal that reads as an equal double. -/
theorem Path.coordinate_spells {x : Float} (finite : x.isFinite = true) :
    ∃ value, Spells (coordinate none x) value ∧ (Double.ofDecimal value == x) = true := by
  have reads := Layout.ofDecimal_plainLiteral finite
  unfold coordinate
  simp only
  split
  · next zero =>
    have scanned := Literal.scan?_text (Layout.plainLiteral_sound x) (Free.nil _)
    rw [← Layout.plain_text finite, List.append_nil, zero] at scanned
    have only : some ((⟨some '-', ['0'], none, none⟩ : Literal), []) = some (Layout.plainLiteral x, []) := scanned
    rw [← (Prod.mk.inj (Option.some.inj only)).1] at reads
    refine ⟨⟨false, 0, 0⟩, ⟨⟨none, ['0'], none, none⟩, ?_, rfl, rfl⟩, ?_⟩
    · exact ⟨by simp, by simp, by simp, by simp, by simp⟩
    · rw [← reads]
      exact Double.zero_eq false true
  · refine ⟨_, ⟨Layout.plainLiteral x, Layout.plainLiteral_sound x, (Layout.plain_text finite).symm, rfl⟩, ?_⟩
    rw [reads]
    exact Double.eq_self_of_finite finite

end EnvelopeWarp
