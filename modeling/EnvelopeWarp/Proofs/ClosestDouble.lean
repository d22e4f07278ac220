import EnvelopeWarp.Proofs.NearestDouble

/-! The double closest to a number. The magnitudes in the order of their patterns lie a step apart that is as long as the
unit of the lower one, so every number lies between two neighbours, and the nearer one is the one that it reads as. -/

namespace EnvelopeWarp
namespace Double

private theorem dyadic_least {pattern : Nat} (least : pattern < hidden) : dyadic pattern = ⟨pattern, -1074⟩ :=
  if_pos (Nat.div_eq_of_lt least)

private theorem dyadic_full (binade : Nat) {place : Nat} (inside : place < hidden) :
    dyadic ((binade + 1) * hidden + place) = ⟨hidden + place, (binade : Int) - 1074⟩ := by
  have positive : 0 < hidden := by decide
  have quotient : ((binade + 1) * hidden + place) / hidden = binade + 1 := by
    rw [Nat.mul_comm, Nat.mul_add_div positive, Nat.div_eq_of_lt inside, Nat.add_zero]
  have rest : ((binade + 1) * hidden + place) % hidden = place := by
    rw [Nat.mul_comm, Nat.mul_add_mod, Nat.mod_eq_of_lt inside]
  rw [dyadic, ← Int.natCast_ediv, quotient, rest, if_neg (Nat.succ_ne_zero _)]
  congr 1
  push_cast
  ring

/-- The pattern after a pattern has the next mantissa, or the least one of the next binade. -/
theorem dyadic_succ (pattern : Nat) :
    dyadic (pattern + 1) = ⟨(dyadic pattern).mantissa + 1, (dyadic pattern).exponent⟩ ∨
      (dyadic pattern).mantissa + 1 = 2 * hidden ∧ dyadic (pattern + 1) = ⟨hidden, (dyadic pattern).exponent + 1⟩ := by
  have positive : 0 < hidden := by decide
  rcases Nat.lt_or_ge pattern hidden with least | more
  · left
    rw [dyadic_least least]
    rcases Nat.lt_or_eq_of_le least with inside | full
    · exact dyadic_least inside
    · have first := dyadic_full 0 positive
      rw [Nat.zero_add, Nat.one_mul, Nat.add_zero] at first
      have full : pattern + 1 = hidden := full
      rw [full, first, Dyadic.mk.injEq]
      exact ⟨rfl, rfl⟩
  · obtain ⟨binade, place, inside, rfl⟩ : ∃ binade place, place < hidden ∧ pattern = (binade + 1) * hidden + place := by
      have some_binade : 1 ≤ pattern / hidden := (Nat.one_le_div_iff positive).mpr more
      refine ⟨pattern / hidden - 1, pattern % hidden, Nat.mod_lt _ positive, ?_⟩
      rw [Nat.sub_add_cancel some_binade, Nat.mul_comm, Nat.div_add_mod]
    rw [dyadic_full binade inside]
    rcases Nat.lt_or_eq_of_le inside with next | full
    · left
      rw [Nat.add_assoc, dyadic_full binade next, Nat.add_assoc]
    · have first := dyadic_full (binade + 1) positive
      have full : place + 1 = hidden := full
      refine .inr ⟨by rw [Nat.add_assoc, full, Nat.two_mul], ?_⟩
      rw [Nat.add_assoc, full, ← Nat.succ_mul, ← Nat.add_zero (_ * hidden), first, Dyadic.mk.injEq]
      exact ⟨rfl, by push_cast; ring⟩

private theorem number_succ (pattern : Nat) :
    (dyadic (pattern + 1)).number = (dyadic pattern).number + 2 ^ (dyadic pattern).exponent := by
  rcases dyadic_succ pattern with next | ⟨full, next⟩
  · rw [next, Dyadic.number, Dyadic.number]
    push_cast
    ring
  · have mantissa : ((dyadic pattern).mantissa : ℚ) + 1 = 2 * hidden := by exact_mod_cast full
    rw [next, Dyadic.number, Dyadic.number, zpow_add_one₀ (by norm_num)]
    linear_combination -(2 : ℚ) ^ (dyadic pattern).exponent * mantissa

private theorem number_mono : StrictMono fun pattern => (dyadic pattern).number := by
  refine strictMono_nat_of_lt_succ fun pattern => ?_
  rw [number_succ]
  exact lt_add_of_pos_right _ (by positivity)

theorem number_zero : (dyadic 0).number = 0 := by simp [dyadic, Dyadic.number]

/-- Every number that is not negative lies between a magnitude and the next one. -/
theorem exists_between {q : ℚ} (nonneg : 0 ≤ q) :
    ∃ pattern, (dyadic pattern).number ≤ q ∧ q < (dyadic (pattern + 1)).number := by
  obtain ⟨unit, positive, least⟩ : ∃ unit : ℚ, 0 < unit ∧ ∀ pattern, unit ≤ 2 ^ (dyadic pattern).exponent :=
    ⟨2 ^ (-1074 : Int), by positivity, fun pattern => zpow_le_zpow_right₀ (by norm_num) (dyadic_normal pattern).exponent⟩
  have grows (pattern : Nat) : pattern * unit ≤ (dyadic pattern).number := by
    induction pattern with
    | zero => simp [number_zero]
    | succ pattern ih =>
      rw [number_succ]
      push_cast
      linarith only [ih, least pattern]
  have above : ∃ pattern, q < (dyadic pattern).number := by
    obtain ⟨pattern, more⟩ := exists_nat_gt (q / unit)
    exact ⟨pattern, ((div_lt_iff₀ positive).mp more).trans_le (grows pattern)⟩
  classical
  have found := Nat.find_spec above
  cases first : Nat.find above with
  | zero =>
    rw [first, number_zero] at found
    exact absurd nonneg (not_le.mpr found)
  | succ pattern =>
    rw [first] at found
    exact ⟨pattern, not_lt.mp (Nat.find_min above (by omega)), found⟩

section Between
variable {pattern : Nat} {q : ℚ}

private theorem reads_lower (above : (dyadic pattern).number ≤ q)
    (near : 2 * (q - (dyadic pattern).number) ≤ 2 ^ (dyadic pattern).exponent)
    (odd : (dyadic pattern).mantissa % 2 = 1 → 2 * (q - (dyadic pattern).number) < 2 ^ (dyadic pattern).exponent) :
    Reads (dyadic pattern) q := by
  have unit : (0 : ℚ) < 2 ^ (dyadic pattern).exponent := by positivity
  exact ⟨near, by linarith, fun _ _ => by linarith, fun parity => ⟨odd parity, by linarith⟩⟩

/-- A power of two is reached from below by a step half as long as its own. -/
theorem reads_upper (below : q ≤ (dyadic (pattern + 1)).number)
    (near : 2 * ((dyadic (pattern + 1)).number - q) ≤ 2 ^ (dyadic pattern).exponent)
    (odd : (dyadic pattern).mantissa % 2 = 0 → 2 * ((dyadic (pattern + 1)).number - q) < 2 ^ (dyadic pattern).exponent) :
    Reads (dyadic (pattern + 1)) q := by
  have unit : (0 : ℚ) < 2 ^ (dyadic pattern).exponent := by positivity
  rcases dyadic_succ pattern with next | ⟨full, next⟩
  · have exponent : (dyadic (pattern + 1)).exponent = (dyadic pattern).exponent := by rw [next]
    have mantissa : (dyadic (pattern + 1)).mantissa = (dyadic pattern).mantissa + 1 := by rw [next]
    rw [← exponent] at near odd unit
    refine ⟨by linarith, near, fun power reach => ?_, fun parity => ⟨by linarith, odd (by omega)⟩⟩
    have least := (dyadic_normal pattern).full
    omega
  · have exponent : (2 : ℚ) ^ (dyadic (pattern + 1)).exponent = 2 * 2 ^ (dyadic pattern).exponent := by
      rw [next, zpow_add_one₀ (by norm_num)]
      ring
    have even : (dyadic (pattern + 1)).mantissa % 2 = 0 := by
      rw [next]
      exact (by decide : hidden % 2 = 0)
    refine ⟨by linarith, by linarith, fun _ _ => by linarith, fun parity => ?_⟩
    omega

end Between

/-- Some magnitude is what a number reads as, and no other one is closer. -/
theorem exists_closest {q : ℚ} (nonneg : 0 ≤ q) : ∃ pattern, Reads (dyadic pattern) q ∧
    ∀ other, |(dyadic pattern).number - q| ≤ |(dyadic other).number - q| := by
  obtain ⟨pattern, above, below⟩ := exists_between nonneg
  have step := number_succ pattern
  have farther {bound : ℚ} (lower : bound ≤ q - (dyadic pattern).number)
      (upper : bound ≤ (dyadic (pattern + 1)).number - q) (other : Nat) : bound ≤ |(dyadic other).number - q| := by
    rcases Nat.lt_or_ge pattern other with more | less
    · exact (upper.trans (sub_le_sub_right (number_mono.monotone more) q)).trans (le_abs_self _)
    · rw [abs_sub_comm]
      exact (lower.trans (sub_le_sub_left (number_mono.monotone less) q)).trans (le_abs_self _)
  by_cases lower : 2 * (q - (dyadic pattern).number) < 2 ^ (dyadic pattern).exponent ∨
      2 * (q - (dyadic pattern).number) = 2 ^ (dyadic pattern).exponent ∧ (dyadic pattern).mantissa % 2 = 0
  · have near : 2 * (q - (dyadic pattern).number) ≤ 2 ^ (dyadic pattern).exponent :=
      lower.elim le_of_lt fun tie => tie.1.le
    refine ⟨pattern, reads_lower above near fun odd => ?_, ?_⟩
    · exact lower.resolve_right fun tie => by omega
    · rw [abs_sub_comm, abs_of_nonneg (sub_nonneg.mpr above)]
      exact farther le_rfl (by linarith)
  · obtain ⟨near, tie⟩ := not_or.mp lower
    have near := not_lt.mp near
    refine ⟨pattern + 1, reads_upper below.le (by linarith) fun even => ?_, ?_⟩
    · have strict := lt_of_le_of_ne near fun same => tie ⟨same.symm, even⟩
      linarith
    · rw [abs_of_nonneg (sub_nonneg.mpr below.le)]
      exact farther (by linarith) le_rfl

/-- The last finite magnitudes lie so far apart that a number near one of them does not read as infinity. -/
theorem closest_finite {pattern other : Nat} {q : ℚ}
    (closest : |(dyadic pattern).number - q| ≤ |(dyadic other).number - q|) (finite : other < infinity)
    (near : 2 * |(dyadic other).number - q| ≤ 1) : pattern < infinity := by
  by_contra infinite
  have last : dyadic (infinity - 1) = ⟨hidden + (hidden - 1), (2045 : Nat) - 1074⟩ :=
    dyadic_full 2045 (Nat.sub_one_lt (by decide))
  have wide : (2 : ℚ) ≤ 2 ^ (dyadic (infinity - 1)).exponent := by
    rw [last]
    exact (zpow_one (2 : ℚ)).ge.trans (zpow_le_zpow_right₀ (by norm_num) (by norm_num))
  have below : (dyadic other).number ≤ (dyadic (infinity - 1)).number := number_mono.monotone (by omega)
  have step := number_succ (infinity - 1)
  rw [Nat.sub_add_cancel (by decide)] at step
  have above : (dyadic infinity).number ≤ (dyadic pattern).number := number_mono.monotone (not_lt.mp infinite)
  have far := (le_abs_self _).trans closest
  have close := abs_le.mp (show |(dyadic other).number - q| ≤ 1 / 2 by linarith)
  linarith

end Double
end EnvelopeWarp
