import Mathlib
import EnvelopeWarp.Decimal.Double

/-! Which decimals read as a given double: those at most half a step away, where the step below a power
of two is half as long and a decimal halfway between two doubles reads as the one with the even mantissa.
Rounding happens on the grid of the binade that the decimal itself lies in, so a decimal just below a
power of two is rounded on the finer grid and carries into the next binade. -/

namespace EnvelopeWarp

theorem powerDown_pos {base : Nat} (positive : 0 < base) (exponent : Int) : 0 < powerDown base exponent :=
  Nat.pow_pos positive

theorem powerUp_eq (base : Nat) (positive : 0 < base) (exponent : Int) :
    (powerUp base exponent : ℚ) = (base : ℚ) ^ exponent * powerDown base exponent := by
  have nonzero : (base : ℚ) ≠ 0 := by positivity
  have up : (powerUp base exponent : ℚ) = (base : ℚ) ^ (exponent.toNat : Int) := by
    rw [zpow_natCast]
    exact Nat.cast_pow base exponent.toNat
  have down : (powerDown base exponent : ℚ) = (base : ℚ) ^ ((-exponent).toNat : Int) := by
    rw [zpow_natCast]
    exact Nat.cast_pow base (-exponent).toNat
  rw [up, down, ← zpow_add₀ nonzero]
  congr 1
  omega

/-- A quotient at most half away from a whole number is rounded to it; halfway, if it is even. -/
theorem roundDiv_eq {num den whole : Nat} (positive : 0 < den) (below : 2 * whole * den ≤ 2 * num + den)
    (above : 2 * num ≤ (2 * whole + 1) * den)
    (odd : whole % 2 = 1 → 2 * whole * den < 2 * num + den ∧ 2 * num < (2 * whole + 1) * den) :
    roundDiv num den = whole := by
  unfold roundDiv
  have split := Nat.div_add_mod num den
  have small := Nat.mod_lt num positive
  generalize num / den = quotient at *
  generalize num % den = rest at *
  have low : quotient ≤ whole := by
    have bound : 2 * quotient * den < (2 * whole + 2) * den := by nlinarith
    have := Nat.lt_of_mul_lt_mul_right bound
    omega
  have high : whole ≤ quotient + 1 := by
    have bound : 2 * whole * den < (2 * quotient + 3) * den := by nlinarith
    have := Nat.lt_of_mul_lt_mul_right bound
    omega
  rcases Nat.lt_or_ge quotient whole with less | same
  · have next : whole = quotient + 1 := by omega
    subst next
    have left : den ≤ 2 * rest := by nlinarith
    have tie : 2 * rest = den → quotient % 2 = 1 := by
      intro half
      by_contra even
      have strict := (odd (by omega)).1
      nlinarith
    simp only
    split_ifs <;> omega
  · have next : whole = quotient := by omega
    subst next
    have left : 2 * rest ≤ den := by nlinarith
    have tie : 2 * rest = den → whole % 2 = 0 := by
      intro half
      by_contra even
      have strict := (odd (by omega)).2
      nlinarith
    simp only
    split_ifs <;> omega

def Dyadic.number (value : Dyadic) : ℚ :=
  value.mantissa * 2 ^ value.exponent

namespace Double

private theorem hidden_eq : hidden = 2 ^ 52 := rfl

/-- The mantissa fills its bits, or the exponent is the least one. -/
structure Normal (value : Dyadic) : Prop where
  mantissa : value.mantissa < 2 * hidden
  exponent : -1074 ≤ value.exponent
  full : hidden ≤ value.mantissa ∨ value.exponent = -1074

private theorem binade_cast (magnitude : Nat) :
    (magnitude : Int) / hidden = ((magnitude / hidden : Nat) : Int) :=
  (Int.natCast_ediv magnitude hidden).symm

theorem dyadic_normal (magnitude : Nat) : Normal (dyadic magnitude) := by
  have positive : 0 < hidden := by decide
  unfold dyadic
  rw [binade_cast]
  split
  · next least =>
    have small := Nat.lt_of_div_eq_zero positive least
    exact ⟨by simp only; omega, by simp, .inr rfl⟩
  · next more =>
    have small := Nat.mod_lt magnitude positive
    obtain ⟨binade, step⟩ := Nat.exists_eq_add_one_of_ne_zero more
    rw [step]
    exact ⟨by simp only; omega, by simp only; omega, .inl (by simp)⟩

theorem pattern_dyadic (magnitude : Nat) : pattern (dyadic magnitude) = magnitude := by
  have split := Nat.div_add_mod magnitude hidden
  unfold dyadic pattern
  rw [binade_cast]
  split
  · simp
  · next more =>
    obtain ⟨binade, step⟩ := Nat.exists_eq_add_one_of_ne_zero more
    have exponent : (((magnitude / hidden : Nat) : Int) - 1075 + 1074).toNat = binade := by omega
    rw [step] at split
    simp only [exponent]
    nlinarith

/-- A number reads as a double when it is at most half a step away from it. -/
structure Reads (value : Dyadic) (q : ℚ) : Prop where
  above : 2 * (q - value.number) ≤ 2 ^ value.exponent
  below : 2 * (value.number - q) ≤ 2 ^ value.exponent
  narrow : value.mantissa = hidden → -1074 < value.exponent → 4 * (value.number - q) ≤ 2 ^ value.exponent
  odd : value.mantissa % 2 = 1 →
    2 * (q - value.number) < 2 ^ value.exponent ∧ 2 * (value.number - q) < 2 ^ value.exponent

/-- The scale on which a quotient fills a mantissa is the only one with that property. -/
theorem scale_unique {q : ℚ} {first second : Int} (one : 2 ^ 52 * 2 ^ first ≤ q ∧ q < 2 ^ 53 * 2 ^ first)
    (other : 2 ^ 52 * 2 ^ second ≤ q ∧ q < 2 ^ 53 * 2 ^ second) : first = second := by
  have apart : ∀ {low high : Int}, 2 ^ 52 * 2 ^ low ≤ q → q < 2 ^ 53 * 2 ^ high → low ≤ high := by
    intro low high least greatest
    have step : (2 : ℚ) ^ low < 2 ^ (high + 1) := by
      rw [zpow_add_one₀ (by norm_num)]
      nlinarith
    have := (zpow_lt_zpow_iff_right₀ (by norm_num : (1 : ℚ) < 2)).mp step
    omega
  exact le_antisymm (apart one.1 other.2) (apart other.1 one.2)

private theorem roundDiv_scaled {num den : Nat} (denominator : 0 < den) {exponent : Int} {whole : Nat}
    (above : 2 * (num / den - whole * (2 : ℚ) ^ exponent) ≤ 2 ^ exponent)
    (below : 2 * (whole * (2 : ℚ) ^ exponent - num / den) ≤ 2 ^ exponent)
    (odd : whole % 2 = 1 → 2 * (num / den - whole * (2 : ℚ) ^ exponent) < 2 ^ exponent ∧
      2 * (whole * (2 : ℚ) ^ exponent - num / den) < 2 ^ exponent) :
    roundDiv (num * powerDown 2 exponent) (den * powerUp 2 exponent) = whole := by
  have d : (0 : ℚ) < den := by positivity
  have down : (0 : ℚ) < powerDown 2 exponent := by exact_mod_cast powerDown_pos (by decide) exponent
  have up := powerUp_eq 2 (by decide) exponent
  push_cast at up
  have unit : (0 : ℚ) < den * powerDown 2 exponent := mul_pos d down
  have quotient : (num / den : ℚ) * (den * powerDown 2 exponent) = num * powerDown 2 exponent := by
    rw [← mul_assoc, div_mul_cancel₀ _ d.ne']
  have positive : 0 < den * powerUp 2 exponent := by
    have : (0 : ℚ) < den * powerUp 2 exponent := by
      rw [up]
      positivity
    exact_mod_cast this
  apply roundDiv_eq positive
  · rw [← Nat.cast_le (α := ℚ)]
    push_cast
    rw [up]
    nlinarith [mul_le_mul_of_nonneg_right below unit.le]
  · rw [← Nat.cast_le (α := ℚ)]
    push_cast
    rw [up]
    nlinarith [mul_le_mul_of_nonneg_right above unit.le]
  · intro parity
    obtain ⟨above, below⟩ := odd parity
    rw [← Nat.cast_lt (α := ℚ), ← Nat.cast_lt (α := ℚ)]
    push_cast
    rw [up]
    constructor
    · nlinarith [mul_lt_mul_of_pos_right below unit]
    · nlinarith [mul_lt_mul_of_pos_right above unit]

private theorem pattern_carry {exponent : Int} (high : -1074 < exponent) :
    pattern ⟨2 * hidden, exponent - 1⟩ = pattern ⟨hidden, exponent⟩ := by
  obtain ⟨count, places⟩ : ∃ count : Nat, exponent = count + 1 - 1074 := ⟨(exponent + 1073).toNat, by omega⟩
  have less : (exponent - 1 + 1074).toNat = count := by omega
  have more : (exponent + 1074).toNat = count + 1 := by omega
  simp only [pattern, less, more]
  ring

section Quotient
variable {num den : Nat} (numerator : 0 < num) (denominator : 0 < den)
include numerator denominator

private theorem fullExponent_fills :
    2 ^ 52 * (2 : ℚ) ^ fullExponent num den ≤ num / den ∧ (num / den : ℚ) < 2 ^ 53 * 2 ^ fullExponent num den := by
  have two : (2 : ℚ) ≠ 0 := by norm_num
  have d : (0 : ℚ) < den := by positivity
  have numLow : (2 : ℚ) ^ (num.log2 : Int) ≤ num := by
    rw [zpow_natCast]
    exact_mod_cast Nat.log2_self_le numerator.ne'
  have numHigh : (num : ℚ) < 2 ^ (num.log2 : Int) * 2 := by
    rw [zpow_natCast, ← pow_succ]
    exact_mod_cast Nat.lt_log2_self
  have denLow : (2 : ℚ) ^ (den.log2 : Int) ≤ den := by
    rw [zpow_natCast]
    exact_mod_cast Nat.log2_self_le denominator.ne'
  have denHigh : (den : ℚ) < 2 ^ (den.log2 : Int) * 2 := by
    rw [zpow_natCast, ← pow_succ]
    exact_mod_cast Nat.lt_log2_self
  have place : (2 : ℚ) ^ (num.log2 : Int) = 2 ^ ((num.log2 : Int) - den.log2) * 2 ^ (den.log2 : Int) := by
    rw [← zpow_add₀ two]
    congr 1
    omega
  unfold fullExponent
  generalize (num.log2 : Int) - den.log2 = estimate at *
  have unit : (0 : ℚ) < 2 ^ estimate := by positivity
  have down : (0 : ℚ) < powerDown 2 estimate := by exact_mod_cast powerDown_pos (by decide) estimate
  have reaches : den * powerUp 2 estimate ≤ num * powerDown 2 estimate ↔ (2 : ℚ) ^ estimate ≤ num / den := by
    have up := powerUp_eq 2 (by decide) estimate
    rw [le_div_iff₀ d, ← Nat.cast_le (α := ℚ)]
    push_cast at up ⊢
    rw [up, ← mul_assoc, mul_le_mul_iff_left₀ down, mul_comm]
  simp only
  split
  · next high =>
    have low := reaches.mp high
    rw [zpow_sub₀ two, div_lt_iff₀ d]
    refine ⟨by norm_num at low ⊢; linarith, ?_⟩
    norm_num
    nlinarith
  · next high =>
    have low := not_le.mp (mt reaches.mpr high)
    rw [zpow_sub₀ two, le_div_iff₀ d]
    refine ⟨?_, by norm_num at low ⊢; linarith⟩
    norm_num
    nlinarith

/-- Just below a power of two the grid is finer, and rounding carries over to the power. -/
private theorem nearest_below_power {exponent : Int} (high : -1074 < exponent)
    (close : 4 * (hidden * 2 ^ exponent - num / den) ≤ (2 : ℚ) ^ exponent)
    (short : (num / den : ℚ) < 2 ^ 52 * 2 ^ exponent) (finite : pattern ⟨hidden, exponent⟩ < infinity) :
    nearest num den = pattern ⟨hidden, exponent⟩ := by
  have half : (2 : ℚ) ^ exponent = 2 * 2 ^ (exponent - 1) := by
    rw [zpow_sub_one₀ (by norm_num)]
    ring
  have whole : ((hidden : Nat) : ℚ) = 2 ^ 52 := by norm_num [hidden_eq]
  rw [whole, half] at close
  rw [half] at short
  have unit : (0 : ℚ) < 2 ^ (exponent - 1) := by positivity
  have finer : fullExponent num den = exponent - 1 :=
    scale_unique (fullExponent_fills numerator denominator)
      ⟨by linarith only [close, unit], by linarith only [short]⟩
  have rounded : roundDiv (num * powerDown 2 (exponent - 1)) (den * powerUp 2 (exponent - 1)) = 2 * hidden := by
    apply roundDiv_scaled denominator
    · push_cast [whole]
      linarith only [short, unit]
    · push_cast [whole]
      linarith only [close]
    · intro parity
      omega
  have floor : max (-1074) (exponent - 1) = exponent - 1 := by omega
  unfold nearest
  simp only [finer, floor, rounded, pattern_carry high]
  exact min_eq_right finite.le

private theorem nearest_eq {value : Dyadic} (normal : Normal value) (finite : pattern value < infinity)
    (reads : Reads value (num / den)) : nearest num den = pattern value := by
  obtain ⟨least, greatest⟩ := fullExponent_fills numerator denominator
  obtain ⟨mantissa, exponent⟩ := value
  obtain ⟨above, below, narrow, odd⟩ := reads
  obtain ⟨fits, reach, full⟩ := normal
  simp only [Dyadic.number] at above below narrow odd fits reach full
  have unit : (0 : ℚ) < 2 ^ exponent := by positivity
  have width : (mantissa : ℚ) + 1 ≤ 2 ^ 53 := by
    have : mantissa + 1 ≤ 2 ^ 53 := by rw [hidden_eq] at fits; omega
    exact_mod_cast this
  have under : (num / den : ℚ) < 2 ^ 53 * 2 ^ exponent := by nlinarith
  by_cases inside : 2 ^ 52 * 2 ^ exponent ≤ (num / den : ℚ)
  · unfold nearest
    rw [scale_unique ⟨least, greatest⟩ ⟨inside, under⟩, max_eq_right reach]
    simp only [roundDiv_scaled denominator above below odd]
    exact min_eq_right finite.le
  · have short : (num / den : ℚ) < 2 ^ 52 * 2 ^ exponent := not_le.mp inside
    have lower : fullExponent num den < exponent := by
      have step : (2 : ℚ) ^ fullExponent num den < 2 ^ exponent := by nlinarith
      exact (zpow_lt_zpow_iff_right₀ (by norm_num : (1 : ℚ) < 2)).mp step
    rcases eq_or_lt_of_le reach with bottom | high
    · have floor : max (-1074) (fullExponent num den) = exponent := by omega
      unfold nearest
      simp only [floor, roundDiv_scaled denominator above below odd]
      exact min_eq_right finite.le
    · have filled : hidden ≤ mantissa := by omega
      have power : mantissa = hidden := by
        have : (mantissa : ℚ) < 2 ^ 52 + 1 := by nlinarith
        have : mantissa < 2 ^ 52 + 1 := by exact_mod_cast this
        rw [hidden_eq] at filled ⊢
        omega
      subst power
      exact nearest_below_power numerator denominator high (narrow rfl high) short finite

end Quotient

private theorem beyond : (2 : ℚ) ^ (1026 : Int) ≤ 10 ^ (401 : Int) := by
  rw [zpow_ofNat, zpow_ofNat]
  exact_mod_cast (by decide +kernel : 2 ^ 1026 ≤ 10 ^ 401)

private theorem beneath : 2 * (10 : ℚ) ^ (-400 : Int) < 2 ^ (-1074 : Int) := by
  rw [zpow_neg, zpow_neg, zpow_ofNat, zpow_ofNat, ← div_eq_mul_inv, div_lt_iff₀ (by positivity),
    inv_mul_eq_div, lt_div_iff₀ (by positivity)]
  exact_mod_cast (by decide +kernel : 2 * 2 ^ 1074 < 10 ^ 400)

section Decimal
variable {value : Dyadic} {digits : Nat} {exponent : Int} (normal : Normal value)
  (reads : Reads value (digits * 10 ^ exponent))
include normal reads

private theorem decimal_least (positive : 0 < value.mantissa) :
    (2 : ℚ) ^ (-1074 : Int) ≤ 2 * (digits * 10 ^ exponent) := by
  have least : (2 : ℚ) ^ (-1074 : Int) ≤ 2 ^ value.exponent :=
    zpow_le_zpow_right₀ (by norm_num) normal.exponent
  have unit : (0 : ℚ) < 2 ^ value.exponent := by positivity
  have one : (1 : ℚ) ≤ value.mantissa := by exact_mod_cast positive
  have below := reads.below
  rw [Dyadic.number] at below
  nlinarith

private theorem decimal_greatest (finite : pattern value < infinity) :
    (digits : ℚ) * 10 ^ exponent < 2 ^ (1026 : Int) := by
  have reach : value.exponent ≤ 972 := by
    simp only [pattern, infinity] at finite
    have bound := Nat.lt_of_mul_lt_mul_right (lt_of_le_of_lt (Nat.le_add_right _ _) finite)
    omega
  have greatest : (2 : ℚ) ^ value.exponent ≤ 2 ^ (972 : Int) := zpow_le_zpow_right₀ (by norm_num) reach
  have unit : (0 : ℚ) < 2 ^ value.exponent := by positivity
  have width : (value.mantissa : ℚ) + 1 ≤ 2 ^ 53 := by
    have fits := normal.mantissa
    have : value.mantissa + 1 ≤ 2 ^ 53 := by rw [hidden_eq] at fits; omega
    exact_mod_cast this
  have above := reads.above
  rw [Dyadic.number] at above
  have split : (2 : ℚ) ^ (1026 : Int) = 2 ^ (54 : Int) * 2 ^ (972 : Int) := by
    rw [← zpow_add₀ (by norm_num)]
    rfl
  rw [split]
  generalize (2 : ℚ) ^ (972 : Int) = top at *
  have filled := mul_le_mul_of_nonneg_right width unit.le
  norm_num at filled ⊢
  linarith only [above, filled, greatest, unit]

/-- A decimal that reads as a positive finite double is rounded to it. -/
theorem nearestDecimal_eq (positive : 0 < value.mantissa) (finite : pattern value < infinity) :
    nearestDecimal digits exponent = pattern value := by
  have least := decimal_least normal reads positive
  have greatest := decimal_greatest normal reads finite
  have some_digit : digits ≠ 0 := by
    rintro rfl
    rw [Nat.cast_zero, zero_mul, mul_zero] at least
    exact absurd least (not_le.mpr (by positivity))
  have one : (1 : ℚ) ≤ digits := by exact_mod_cast Nat.pos_of_ne_zero some_digit
  have small : ¬400 < exponent := by
    intro large
    have power : (10 : ℚ) ^ (401 : Int) ≤ 10 ^ exponent := zpow_le_zpow_right₀ (by norm_num) (by omega)
    have product := mul_le_mul one power (by positivity) (by positivity)
    rw [one_mul] at product
    exact absurd greatest (not_lt.mpr (beyond.trans product))
  have big : ¬exponent < -(400 + (digits.log2 : Int)) := by
    intro tiny
    have width : (digits : ℚ) ≤ 2 ^ ((digits.log2 : Int) + 1) := by
      have : digits ≤ 2 ^ (digits.log2 + 1) := Nat.lt_log2_self.le
      exact_mod_cast this
    have wider : (2 : ℚ) ^ ((digits.log2 : Int) + 1) ≤ 10 ^ ((digits.log2 : Int) + 1) :=
      zpow_le_zpow_left₀ (by omega) (by norm_num) (by norm_num)
    have power : (10 : ℚ) ^ exponent ≤ 10 ^ (-(digits.log2 : Int) - 401) :=
      zpow_le_zpow_right₀ (by norm_num) (by omega)
    have product : (digits : ℚ) * 10 ^ exponent ≤ 10 ^ (-400 : Int) := by
      calc (digits : ℚ) * 10 ^ exponent
          ≤ 10 ^ ((digits.log2 : Int) + 1) * 10 ^ (-(digits.log2 : Int) - 401) := by gcongr; exact width.trans wider
        _ = 10 ^ (-400 : Int) := by rw [← zpow_add₀ (by norm_num)]; congr 1; omega
    have doubled : 2 * ((digits : ℚ) * 10 ^ exponent) ≤ 2 * 10 ^ (-400 : Int) := by gcongr
    exact absurd beneath (not_lt.mpr (least.trans doubled))
  have denominator : 0 < powerDown 10 exponent := powerDown_pos (by decide) exponent
  have up := powerUp_eq 10 (by decide) exponent
  push_cast at up
  have numerator : 0 < digits * powerUp 10 exponent :=
    Nat.mul_pos (Nat.pos_of_ne_zero some_digit) (Nat.pow_pos (by decide))
  have quotient : ((digits * powerUp 10 exponent : Nat) : ℚ) / powerDown 10 exponent = digits * 10 ^ exponent := by
    have down : (powerDown 10 exponent : ℚ) ≠ 0 := by exact_mod_cast denominator.ne'
    push_cast
    rw [up, ← mul_assoc, mul_div_cancel_right₀ _ down]
  unfold nearestDecimal
  rw [if_neg some_digit, if_neg small, if_neg big]
  exact nearest_eq numerator denominator normal finite (quotient ▸ reads)

end Decimal
end Double
end EnvelopeWarp
