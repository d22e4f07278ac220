import EnvelopeWarp.Proofs.NearestDouble
import EnvelopeWarp.Decimal.Shortest

/-! The digits that are chosen for a double read back to it, whichever grid they were found on. On a grid
the value and its neighbours are whole numbers of one small unit, and what the search compares are their
distances in that unit. -/

namespace EnvelopeWarp

theorem Double.reads_of_eq {value : Dyadic} {q : ℚ} (same : q = value.number) : Reads value q := by
  have unit : (0 : ℚ) < 2 ^ value.exponent := by positivity
  have none_left : value.number - q = 0 := sub_eq_zero.mpr same.symm
  have none_right : q - value.number = 0 := sub_eq_zero.mpr same
  exact ⟨by simp [none_right, unit.le], by simp [none_left, unit.le], fun _ _ => by simp [none_left, unit.le],
    fun _ => by simp [none_left, none_right, unit]⟩

namespace Shortest
namespace Position

private theorem scaled (value : Dyadic) (grid : Int) :
    ∃ scale : ℚ, 0 < scale ∧ (2 : ℚ) ^ value.exponent * scale = (ofDyadic value grid).unit ∧
      (10 : ℚ) ^ grid * scale = (ofDyadic value grid).step := by
  have two : (0 : ℚ) < powerDown 2 value.exponent := by exact_mod_cast powerDown_pos (by decide) value.exponent
  have ten : (0 : ℚ) < powerDown 10 grid := by exact_mod_cast powerDown_pos (by decide) grid
  have double := powerUp_eq 2 (by decide) value.exponent
  have decimal := powerUp_eq 10 (by decide) grid
  refine ⟨powerDown 2 value.exponent * powerDown 10 grid, mul_pos two ten, ?_, ?_⟩
  · simp only [ofDyadic]
    push_cast at double ⊢
    rw [double]
    ring
  · simp only [ofDyadic]
    push_cast at decimal ⊢
    rw [decimal]
    ring

section Grid
variable {value : Dyadic} {grid : Int}

private theorem step_pos : 0 < (ofDyadic value grid).step :=
  Nat.mul_pos (powerDown_pos (by decide) _) (Nat.pow_pos (by decide))

/-- A distance that passes is at most the step to the next double, and less for an odd mantissa. -/
private theorem within_iff (distance : Nat) :
    (ofDyadic value grid).within distance = true ↔
      distance ≤ (ofDyadic value grid).unit ∧
        (value.mantissa % 2 = 1 → distance < (ofDyadic value grid).unit) := by
  unfold within
  change (if value.mantissa % 2 = 0 then decide _ else decide _) = true ↔ _
  split
  · next even => simp [even]
  · next odd =>
    rw [decide_eq_true_iff]
    exact ⟨fun less => ⟨less.le, fun _ => less⟩, fun both => both.2 (by omega)⟩

private theorem above_scaled {scale : ℚ} (unit : (2 : ℚ) ^ value.exponent * scale = (ofDyadic value grid).unit)
    (step : (10 : ℚ) ^ grid * scale = (ofDyadic value grid).step) :
    (value.number - (ofDyadic value grid).floor * 10 ^ grid) * scale = (ofDyadic value grid).above := by
  have split : ((ofDyadic value grid).step * (ofDyadic value grid).floor + (ofDyadic value grid).above : ℚ) =
      value.mantissa * (ofDyadic value grid).unit := by
    exact_mod_cast Nat.div_add_mod (value.mantissa * (ofDyadic value grid).unit) (ofDyadic value grid).step
  rw [Dyadic.number]
  linear_combination value.mantissa * unit - (ofDyadic value grid).floor * step - split

private theorem reads_floor (back : (ofDyadic value grid).floorReadsBack = true) :
    Double.Reads value ((ofDyadic value grid).floor * 10 ^ grid) := by
  obtain ⟨scale, positive, unit, step⟩ := scaled value grid
  have apart := above_scaled unit step
  have forward : 0 ≤ value.number - (ofDyadic value grid).floor * 10 ^ grid := by
    apply le_of_mul_le_mul_right _ positive
    rw [zero_mul, apart]
    positivity
  have width : (0 : ℚ) < 2 ^ value.exponent := by positivity
  rw [floorReadsBack, within_iff] at back
  have double : 2 * (ofDyadic value grid).above ≤ (if (ofDyadic value grid).narrowBelow then 4 else 2) *
      (ofDyadic value grid).above := by
    apply Nat.mul_le_mul_right
    split <;> decide
  refine ⟨by linarith, ?_, ?_, ?_⟩
  · have bound : (2 * (ofDyadic value grid).above : ℚ) ≤ (ofDyadic value grid).unit := by
      exact_mod_cast double.trans back.1
    apply le_of_mul_le_mul_right _ positive
    rw [mul_assoc, apart, unit]
    exact bound
  · intro power reach
    have narrow : (ofDyadic value grid).narrowBelow = true := by simp [ofDyadic, power, reach]
    rw [if_pos narrow] at back
    have bound : (4 * (ofDyadic value grid).above : ℚ) ≤ (ofDyadic value grid).unit := by exact_mod_cast back.1
    apply le_of_mul_le_mul_right _ positive
    rw [mul_assoc, apart, unit]
    exact bound
  · intro odd
    have bound : (2 * (ofDyadic value grid).above : ℚ) < (ofDyadic value grid).unit := by
      exact_mod_cast double.trans_lt (back.2 odd)
    refine ⟨by linarith, lt_of_mul_lt_mul_right ?_ positive.le⟩
    rw [mul_assoc, apart, unit]
    exact bound

private theorem reads_ceiling (back : (ofDyadic value grid).ceilingReadsBack = true) :
    Double.Reads value (((ofDyadic value grid).floor + 1 : Nat) * 10 ^ grid) := by
  obtain ⟨scale, positive, unit, step⟩ := scaled value grid
  have small : (ofDyadic value grid).above < (ofDyadic value grid).step := Nat.mod_lt _ step_pos
  have apart : (((ofDyadic value grid).floor + 1 : Nat) * 10 ^ grid - value.number) * scale =
      ((ofDyadic value grid).step - (ofDyadic value grid).above : Nat) := by
    have above := above_scaled unit step
    rw [Nat.cast_sub small.le]
    push_cast
    linear_combination step - above
  have forward : 0 ≤ ((ofDyadic value grid).floor + 1 : Nat) * 10 ^ grid - value.number := by
    apply le_of_mul_le_mul_right _ positive
    rw [zero_mul, apart]
    positivity
  have width : (0 : ℚ) < 2 ^ value.exponent := by positivity
  rw [ceilingReadsBack, within_iff] at back
  refine ⟨?_, by linarith, fun _ _ => by linarith, ?_⟩
  · apply le_of_mul_le_mul_right _ positive
    rw [mul_assoc, apart, unit]
    exact_mod_cast back.1
  · intro odd
    refine ⟨lt_of_mul_lt_mul_right ?_ positive.le, by linarith⟩
    rw [mul_assoc, apart, unit]
    exact_mod_cast back.2 odd

private theorem neighbour?_reads {tie : Tie} {digits : Nat}
    (found : (ofDyadic value grid).neighbour? tie = some digits) :
    Double.Reads value (digits * 10 ^ grid) := by
  unfold neighbour? at found
  split at found
  · cases found
  · next low _ =>
    cases found
    exact reads_floor low
  · next _ high =>
    cases found
    exact reads_ceiling high
  · next low high =>
    split at found
    · cases found
      exact reads_floor low
    · split at found
      · cases found
        exact reads_ceiling high
      · cases tie with
        | up =>
          cases found
          exact reads_ceiling high
        | even =>
          cases found
          rcases Nat.mod_two_eq_zero_or_one (ofDyadic value grid).floor with even | odd
          · rw [even]
            exact reads_floor low
          · rw [odd]
            exact reads_ceiling high

end Grid
end Position

private theorem dropZeros_value (digits : Nat) (exponent : Int) :
    ((dropZeros digits exponent).1 : ℚ) * 10 ^ (dropZeros digits exponent).2 = digits * 10 ^ exponent := by
  fun_induction dropZeros digits exponent with
  | case1 digits exponent many ih =>
    have whole : (digits : ℚ) = 10 * (digits / 10 : Nat) := by
      exact_mod_cast (Nat.mul_div_cancel' (Nat.dvd_of_mod_eq_zero many.2)).symm
    rw [ih, whole, zpow_add_one₀ (by norm_num)]
    ring
  | case2 => rfl

private theorem exact_value (value : Dyadic) : ((exact value).1 : ℚ) * 10 ^ (exact value).2 = value.number := by
  unfold exact Dyadic.number
  split
  · next whole =>
    obtain ⟨places, same⟩ := Int.eq_ofNat_of_zero_le whole
    rw [same]
    simp [powerUp]
  · next fraction =>
    obtain ⟨places, same⟩ : ∃ places : Nat, value.exponent = -places := ⟨value.exponent.natAbs, by omega⟩
    rw [same]
    simp only [powerDown, neg_neg, Int.toNat_natCast, Nat.pow_eq, Nat.cast_mul, Nat.cast_pow, zpow_neg, zpow_natCast]
    have split : (10 : ℚ) ^ places = 2 ^ places * 5 ^ places := by
      rw [← mul_pow]
      norm_num
    rw [split]
    push_cast
    field_simp

/-- The digits that are written for a value read back to it. -/
theorem ofDyadic_reads (tie : Tie) (value : Dyadic) :
    Double.Reads value ((ofDyadic tie value).1 * 10 ^ (ofDyadic tie value).2) := by
  unfold ofDyadic
  simp only
  rw [dropZeros_value]
  cases search : (List.range 17).findSome? _ with
  | none => exact Double.reads_of_eq (exact_value value)
  | some chosen =>
    obtain ⟨count, _, taken⟩ := List.exists_of_findSome?_eq_some search
    obtain ⟨digits, found, same⟩ := Option.map_eq_some_iff.mp taken
    cases same
    exact Position.neighbour?_reads found

/-- The shortest decimal of a positive finite magnitude, however its value is written, is rounded to that
magnitude. -/
theorem nearestDecimal_shortest (tie : Tie) {magnitude : Nat} (positive : magnitude ≠ 0)
    (finite : magnitude < Double.infinity) {digits : Nat} {exponent : Int}
    (same : (digits : ℚ) * 10 ^ exponent = (ofDyadic tie (Double.dyadic magnitude)).1 *
      10 ^ (ofDyadic tie (Double.dyadic magnitude)).2) :
    Double.nearestDecimal digits exponent = magnitude := by
  have some_bit : 0 < (Double.dyadic magnitude).mantissa := by
    unfold Double.dyadic
    split
    · exact Nat.pos_of_ne_zero positive
    · exact Nat.add_pos_left (by decide) _
  have pattern := Double.pattern_dyadic magnitude
  have reads := ofDyadic_reads tie (Double.dyadic magnitude)
  rw [← same] at reads
  rw [Double.nearestDecimal_eq (Double.dyadic_normal magnitude) reads some_bit (pattern.symm ▸ finite), pattern]

end Shortest
end EnvelopeWarp
