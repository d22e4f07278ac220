import EnvelopeWarp.Proofs.ExactScalar
import EnvelopeWarp.Path.Extent

/-! The search for the extreme value of a cubic on the unit interval. The best value of a continuous
function there is taken at an end or where the derivative vanishes; the search looks at both ends and
at every root of the derivative inside, unless the cubic is constant. Smallest and greatest value
differ only in what counts as better. -/

namespace EnvelopeWarp
namespace Cubic
open Set

/-- A strict preference between numbers: the best value of a continuous function on the unit interval
exists, and inside the interval the derivative vanishes where it is taken. -/
structure Preference (better : ℝ → ℝ → Bool) : Prop where
  irrefl : ∀ x, better x x = false
  trans : ∀ {x y z}, better x y = false → better y z = false → better x z = false
  asymm : ∀ {x y}, better x y = true → better y x = false
  best : ∀ f : ℝ → ℝ, Continuous f →
    ∃ t ∈ Icc (0 : ℝ) 1, ∀ s ∈ Icc (0 : ℝ) 1, better (f s) (f t) = false
  critical : ∀ (f : ℝ → ℝ) (t : ℝ), t ∈ Ioo (0 : ℝ) 1 →
    (∀ s ∈ Icc (0 : ℝ) 1, better (f s) (f t) = false) → deriv f t = 0

private theorem preference_least : Preference Scalar.lt where
  irrefl := by simp
  trans := by
    intro x y z first second
    simp only [Scalar.lt_eq_false_iff] at first second ⊢
    exact second.trans first
  asymm := by
    intro x y less
    simp only [Scalar.lt_iff, Scalar.lt_eq_false_iff] at less ⊢
    exact less.le
  best f smooth := by
    obtain ⟨t, inside, least⟩ := isCompact_Icc.exists_isMinOn (nonempty_Icc.mpr zero_le_one)
      (smooth.continuousOn (s := Icc (0 : ℝ) 1))
    exact ⟨t, inside, fun s member => (Scalar.lt_eq_false_iff _ _).mpr (least member)⟩
  critical f t inside least := by
    have least : IsMinOn f (Icc (0 : ℝ) 1) t := fun s member => (Scalar.lt_eq_false_iff _ _).mp (least s member)
    exact (least.isLocalMin (Icc_mem_nhds inside.1 inside.2)).deriv_eq_zero

private theorem preference_greatest : Preference fun a b => Scalar.lt b a where
  irrefl := by simp
  trans := by
    intro x y z first second
    simp only [Scalar.lt_eq_false_iff] at first second ⊢
    exact first.trans second
  asymm := by
    intro x y less
    simp only [Scalar.lt_iff, Scalar.lt_eq_false_iff] at less ⊢
    exact less.le
  best f smooth := by
    obtain ⟨t, inside, greatest⟩ := isCompact_Icc.exists_isMaxOn (nonempty_Icc.mpr zero_le_one)
      (smooth.continuousOn (s := Icc (0 : ℝ) 1))
    exact ⟨t, inside, fun s member => (Scalar.lt_eq_false_iff _ _).mpr (greatest member)⟩
  critical f t inside greatest := by
    have greatest : IsMaxOn f (Icc (0 : ℝ) 1) t :=
      fun s member => (Scalar.lt_eq_false_iff _ _).mp (greatest s member)
    exact (greatest.isLocalMax (Icc_mem_nhds inside.1 inside.2)).deriv_eq_zero

theorem eval_eq (c : Cubic ℝ) (t : ℝ) : c.eval t =
    (1 - t) ^ 3 * c.p0 + 3 * (1 - t) ^ 2 * t * c.p1 + 3 * (1 - t) * t ^ 2 * c.p2 + t ^ 3 * c.p3 := by
  simp only [eval, Scalar.one_eq, Scalar.three_eq]
  ring

@[simp] theorem eval_zero (c : Cubic ℝ) : c.eval 0 = c.p0 := by
  rw [eval_eq]
  ring

@[simp] theorem eval_one (c : Cubic ℝ) : c.eval 1 = c.p3 := by
  rw [eval_eq]
  ring

private theorem eval_continuous (c : Cubic ℝ) : Continuous c.eval := by
  rw [funext c.eval_eq]
  fun_prop

private theorem deriv_eval (c : Cubic ℝ) (t : ℝ) : deriv c.eval t =
    3 * (c.p3 + 3 * (c.p1 - c.p2) - c.p0) * (t * t) + 6 * (c.p2 - 2 * c.p1 + c.p0) * t +
      3 * (c.p1 - c.p0) := by
  have up := hasDerivAt_id t
  have down := up.const_sub 1
  have slope := ((((down.pow 3).mul_const c.p0).add
    ((((down.pow 2).const_mul 3).mul up).mul_const c.p1)).add
      (((down.const_mul 3).mul (up.pow 2)).mul_const c.p2)).add ((up.pow 3).mul_const c.p3)
  rw [funext c.eval_eq]
  refine (slope.congr_deriv ?_).deriv
  simp only [id_eq, Pi.pow_apply]
  ring

private theorem mem_roots {a b d t : ℝ} (root : a * (t * t) + b * t + d = 0) :
    t ∈ roots a b d ∨ a = 0 ∧ b = 0 ∧ d = 0 := by
  unfold roots
  by_cases quadratic : a = 0
  · by_cases linear : b = 0
    · subst quadratic linear
      right
      simpa using root
    · left
      have place : t = -d / b := by
        rw [eq_div_iff linear]
        rw [quadratic] at root
        linarith
      simp [quadratic, linear, place]
  · left
    have real : 0 ≤ b * b - 4 * a * d := by
      have square : b * b - 4 * a * d = (2 * a * t + b) ^ 2 := by linear_combination (-4 * a) * root
      rw [square]
      positivity
    have both : t = (-b + Real.sqrt (b * b - 4 * a * d)) / (2 * a) ∨
        t = (-b - Real.sqrt (b * b - 4 * a * d)) / (2 * a) := by
      apply (quadratic_eq_zero_iff quadratic ?_ t).mp root
      rw [Real.mul_self_sqrt real, discrim]
      ring
    simp only [Scalar.eq_iff, Scalar.lt_iff, Scalar.zero_eq, Scalar.two_eq, Scalar.four_eq,
      Scalar.sqrt_eq, if_neg quadratic, if_neg (not_lt.mpr real)]
    by_cases double : b * b - 4 * a * d = 0
    · rw [if_pos double]
      simpa [double] using both
    · rw [if_neg double]
      split <;> simp [both, or_comm]

/-- Inside the interval a place where the derivative vanishes is one of the extrema, unless the cubic
does not change at all. -/
theorem mem_extrema {c : Cubic ℝ} {t : ℝ} (inside : t ∈ Ioo (0 : ℝ) 1) (flat : deriv c.eval t = 0) :
    t ∈ c.extrema ∨ ∀ s, c.eval s = c.p0 := by
  rw [deriv_eval] at flat
  rcases mem_roots flat with found | ⟨cubic, quadratic, linear⟩
  · left
    have within : 0 < t ∧ t < 1 := inside
    simpa [extrema, within] using found
  · right
    intro s
    have first : c.p1 = c.p0 := by linarith
    have second : c.p2 = c.p0 := by linarith
    have third : c.p3 = c.p0 := by linarith
    rw [eval_eq, first, second, third]
    ring

private theorem extrema_inside {c : Cubic ℝ} {t : ℝ} (found : t ∈ c.extrema) : t ∈ Ioo (0 : ℝ) 1 := by
  simp only [extrema, List.mem_filter, Bool.and_eq_true, Scalar.lt_iff, Scalar.zero_eq, Scalar.one_eq] at found
  exact found.2

structure Candidate (better : ℝ → ℝ → Bool) (c : Cubic ℝ) (bound : ℝ) (best : ℝ × ℝ) : Prop where
  inside : best.1 ∈ Icc (0 : ℝ) 1
  value : best.2 = c.eval best.1
  kept : better bound best.2 = false

section Search
variable {better : ℝ → ℝ → Bool} (preference : Preference better) {c : Cubic ℝ}
include preference

/-- A step keeps what the place before was as good as, and the new place is as good as the one looked
at. -/
theorem candidate_improve {bound t : ℝ} {best : ℝ × ℝ} (candidate : Candidate better c bound best)
    (inside : t ∈ Icc (0 : ℝ) 1) :
    Candidate better c bound (improve better c best t) ∧
      Candidate better c (c.eval t) (improve better c best t) := by
  unfold improve
  split
  next wins =>
    have kept := preference.trans candidate.kept (preference.asymm wins)
    exact ⟨⟨inside, rfl, kept⟩, ⟨inside, rfl, preference.irrefl _⟩⟩
  next loses =>
    exact ⟨candidate, ⟨candidate.inside, candidate.value, by simpa using loses⟩⟩

private theorem candidate_foldl {bound : ℝ} {best : ℝ × ℝ} {places : List ℝ}
    (candidate : Candidate better c bound best) (inside : ∀ t ∈ places, t ∈ Icc (0 : ℝ) 1) :
    Candidate better c bound (places.foldl (improve better c) best) ∧
      ∀ t ∈ places, Candidate better c (c.eval t) (places.foldl (improve better c) best) := by
  induction places generalizing best bound with
  | nil => exact ⟨candidate, by simp⟩
  | cons t rest ih =>
    obtain ⟨kept, seen⟩ := candidate_improve preference candidate (inside t (by simp))
    have later : ∀ s ∈ rest, s ∈ Icc (0 : ℝ) 1 := fun s member => inside s (by simp [member])
    refine ⟨(ih kept later).1, ?_⟩
    intro s member
    rcases List.mem_cons.mp member with rfl | member
    · exact (ih seen later).1
    · exact (ih kept later).2 s member

private theorem candidate_ends :
    let ends := if better c.p3 c.p0 then (Scalar.one, c.p3) else (Scalar.zero, c.p0)
    Candidate better c c.p0 ends ∧ Candidate better c c.p3 ends := by
  intro ends
  by_cases wins : better c.p3 c.p0 = true
  · have same : ends = (1, c.p3) := by simp [ends, wins]
    rw [same]
    exact ⟨⟨by simp, by simp, preference.asymm wins⟩, ⟨by simp, by simp, preference.irrefl _⟩⟩
  · have same : ends = (0, c.p0) := by simp [ends, wins]
    rw [same]
    exact ⟨⟨by simp, by simp, preference.irrefl _⟩, ⟨by simp, by simp, by simpa using wins⟩⟩

/-- What the search finds is the value at a place of the interval, and no value there is better. -/
theorem extreme_best :
    ∃ t ∈ Icc (0 : ℝ) 1, c.extreme better = c.eval t ∧
      ∀ s ∈ Icc (0 : ℝ) 1, better (c.eval s) (c.eval t) = false := by
  obtain ⟨start, finish⟩ := candidate_ends preference (c := c)
  have within : ∀ t ∈ c.extrema, t ∈ Icc (0 : ℝ) 1 := fun t found => Ioo_subset_Icc_self (extrema_inside found)
  have first := candidate_foldl preference start within
  have last := candidate_foldl preference finish within
  refine ⟨_, first.1.inside, rfl, ?_⟩
  obtain ⟨t, inside, best⟩ := preference.best c.eval c.eval_continuous
  intro s member
  apply preference.trans (best s member)
  rw [← first.1.value]
  by_cases low : t = 0
  · simpa [low] using first.1.kept
  by_cases high : t = 1
  · simpa [high] using last.1.kept
  have strictly : t ∈ Ioo (0 : ℝ) 1 := ⟨lt_of_le_of_ne inside.1 (Ne.symm low), lt_of_le_of_ne inside.2 high⟩
  rcases mem_extrema strictly (preference.critical _ _ strictly best) with found | constant
  · exact (first.2 t found).kept
  · rw [constant t]
    exact first.1.kept

end Search

theorem minimum_isLeast (c : Cubic ℝ) : IsLeast (c.eval '' Icc 0 1) c.minimum := by
  obtain ⟨t, inside, found, least⟩ := extreme_best preference_least (c := c)
  rw [minimum, found]
  refine ⟨mem_image_of_mem _ inside, ?_⟩
  rintro _ ⟨s, member, rfl⟩
  exact (Scalar.lt_eq_false_iff _ _).mp (least s member)

theorem maximum_isGreatest (c : Cubic ℝ) : IsGreatest (c.eval '' Icc 0 1) c.maximum := by
  obtain ⟨t, inside, found, greatest⟩ := extreme_best preference_greatest (c := c)
  rw [maximum, found]
  refine ⟨mem_image_of_mem _ inside, ?_⟩
  rintro _ ⟨s, member, rfl⟩
  exact (Scalar.lt_eq_false_iff _ _).mp (greatest s member)

/-- A cubic whose control values lie in an interval stays in it: its value is a weighted mean of them. -/
theorem eval_mem_Icc {c : Cubic ℝ} {low high t : ℝ} (p0 : c.p0 ∈ Icc low high) (p1 : c.p1 ∈ Icc low high)
    (p2 : c.p2 ∈ Icc low high) (p3 : c.p3 ∈ Icc low high) (inside : t ∈ Icc (0 : ℝ) 1) :
    c.eval t ∈ Icc low high := by
  obtain ⟨start, finish⟩ := inside
  have up : 0 ≤ 1 - t := sub_nonneg.mpr finish
  have w0 : 0 ≤ (1 - t) ^ 3 := by positivity
  have w1 : 0 ≤ 3 * (1 - t) ^ 2 * t := by positivity
  have w2 : 0 ≤ 3 * (1 - t) * t ^ 2 := by positivity
  have w3 : 0 ≤ t ^ 3 := by positivity
  have whole : (1 - t) ^ 3 + 3 * (1 - t) ^ 2 * t + 3 * (1 - t) * t ^ 2 + t ^ 3 = 1 := by ring
  rw [eval_eq]
  constructor
  · calc low = (1 - t) ^ 3 * low + 3 * (1 - t) ^ 2 * t * low + 3 * (1 - t) * t ^ 2 * low + t ^ 3 * low := by
          rw [← add_mul, ← add_mul, ← add_mul, whole, one_mul]
      _ ≤ _ := by gcongr <;> first | exact p0.1 | exact p1.1 | exact p2.1 | exact p3.1
  · calc _ ≤ (1 - t) ^ 3 * high + 3 * (1 - t) ^ 2 * t * high + 3 * (1 - t) * t ^ 2 * high + t ^ 3 * high := by
          gcongr <;> first | exact p0.2 | exact p1.2 | exact p2.2 | exact p3.2
      _ = high := by rw [← add_mul, ← add_mul, ← add_mul, whole, one_mul]

theorem eval_of_not_bulges {c : Cubic ℝ} (level : c.bulges = false) {t : ℝ} (inside : t ∈ Icc (0 : ℝ) 1) :
    c.eval t ∈ Icc (min c.p0 c.p3) (max c.p0 c.p3) := by
  simp only [bulges, Scalar.min_eq, Scalar.max_eq, Bool.or_eq_false_iff, Scalar.lt_eq_false_iff] at level
  obtain ⟨⟨⟨low1, high1⟩, low2⟩, high2⟩ := level
  exact eval_mem_Icc ⟨min_le_left _ _, le_max_left _ _⟩ ⟨low1, high1⟩ ⟨low2, high2⟩
    ⟨min_le_right _ _, le_max_right _ _⟩ inside

end Cubic
end EnvelopeWarp
