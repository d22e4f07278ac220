import EnvelopeWarp.Proofs.MeetingChords

/-! Strictly convex envelopes. The cross product of a row and a column is a mean of the turns at the four corners, so
it has their sign and is at least as far from zero as the least of them. When no turn is within the tolerance for the
longest edges, all rows and columns meet and every point of the box has an image. Without this condition a point may
have none, but those that have one are kept apart: two places are as far apart as a row and a column that cross. -/

namespace EnvelopeWarp
open Set

namespace Quad

/-- The cross products of the two edges that meet at each corner. -/
noncomputable def turns (quad : Quad ℝ) : List ℝ :=
  [quad.top.cross quad.left, quad.top.cross quad.right, quad.bottom.cross quad.right, quad.bottom.cross quad.left]

/-- On the way around the quadrilateral all corners turn to the same side, and none of them is straight. -/
def StrictlyConvex (quad : Quad ℝ) : Prop :=
  (∀ turn ∈ quad.turns, 0 < turn) ∨ ∀ turn ∈ quad.turns, turn < 0

/-- Up to here a cross product may count as zero for chords that are as long as the longest edges. -/
noncomputable def tolerance (quad : Quad ℝ) : ℝ :=
  Scalar.epsilon * (max quad.top.length quad.bottom.length * max quad.left.length quad.right.length)

def diagonal (quad : Quad ℝ) : Segment ℝ :=
  ⟨quad.first, quad.third⟩

def otherDiagonal (quad : Quad ℝ) : Segment ℝ :=
  ⟨quad.second, quad.fourth⟩

variable {quad : Quad ℝ}

private theorem forall_turns {P : ℝ → Prop} : (∀ turn ∈ quad.turns, P turn) ↔
    P (quad.top.cross quad.left) ∧ P (quad.top.cross quad.right) ∧ P (quad.bottom.cross quad.right) ∧
      P (quad.bottom.cross quad.left) := by
  simp [turns]

/-- Diagonals that have a point in common divide the area into four turns in the ratios of this point. -/
theorem turns_of_common {s t : ℝ} (common : quad.diagonal.pointAt s = quad.otherDiagonal.pointAt t) :
    let area := quad.diagonal.cross quad.otherDiagonal
    quad.top.cross quad.left = s * area ∧ quad.top.cross quad.right = t * area ∧
      quad.bottom.cross quad.right = (1 - s) * area ∧ quad.bottom.cross quad.left = (1 - t) * area := by
  have x := congrArg Point.x common
  have y := congrArg Point.y common
  simp only [diagonal, otherDiagonal, top, left, right, bottom, Segment.pointAt, Segment.cross, Segment.deltaX,
    Segment.deltaY] at x y ⊢
  refine ⟨?_, ?_, ?_, ?_⟩
  · linear_combination (quad.fourth.x - quad.second.x) * y - (quad.fourth.y - quad.second.y) * x
  · linear_combination (quad.third.x - quad.first.x) * y - (quad.third.y - quad.first.y) * x
  · linear_combination (quad.fourth.y - quad.second.y) * x - (quad.fourth.x - quad.second.x) * y
  · linear_combination (quad.third.y - quad.first.y) * x - (quad.third.x - quad.first.x) * y

private theorem diagonals_common (proper : quad.diagonal.cross quad.otherDiagonal ≠ 0) :
    quad.diagonal.pointAt (quad.top.cross quad.left / quad.diagonal.cross quad.otherDiagonal) =
      quad.otherDiagonal.pointAt (quad.top.cross quad.right / quad.diagonal.cross quad.otherDiagonal) := by
  rw [Segment.pointAt, Segment.pointAt, Point.mk.injEq]
  constructor
  all_goals
    apply mul_right_cancel₀ proper
    rw [div_mul_eq_mul_div, div_mul_eq_mul_div, add_mul, add_mul, div_mul_cancel₀ _ proper, div_mul_cancel₀ _ proper]
    simp only [diagonal, otherDiagonal, top, left, right, Segment.cross, Segment.deltaX, Segment.deltaY]
    ring

private theorem diagonal_cross (quad : Quad ℝ) : quad.diagonal.cross quad.otherDiagonal =
      quad.top.cross quad.left + quad.bottom.cross quad.right ∧
    quad.diagonal.cross quad.otherDiagonal = quad.top.cross quad.right + quad.bottom.cross quad.left := by
  simp only [diagonal, otherDiagonal, top, left, right, bottom, Segment.cross, Segment.deltaX, Segment.deltaY]
  constructor <;> ring

/-- Strictly convex quadrilaterals are those whose diagonals cross within both. -/
theorem strictlyConvex_iff_diagonals : quad.StrictlyConvex ↔
    quad.diagonal.cross quad.otherDiagonal ≠ 0 ∧
      ∃ s ∈ Ioo (0 : ℝ) 1, ∃ t ∈ Ioo (0 : ℝ) 1, quad.diagonal.pointAt s = quad.otherDiagonal.pointAt t := by
  have share_of_pos : ∀ {a b sum : ℝ}, 0 < a → 0 < b → sum = a + b → a / sum ∈ Ioo (0 : ℝ) 1 := by
    rintro a b _ first second rfl
    exact ⟨div_pos first (add_pos first second), (div_lt_one (add_pos first second)).mpr (lt_add_of_pos_right a second)⟩
  have share_of_neg : ∀ {a b sum : ℝ}, a < 0 → b < 0 → sum = a + b → a / sum ∈ Ioo (0 : ℝ) 1 := by
    rintro a b _ first second rfl
    rw [← neg_div_neg_eq]
    exact share_of_pos (neg_pos.mpr first) (neg_pos.mpr second) (neg_add a b)
  obtain ⟨even, odd⟩ := quad.diagonal_cross
  constructor
  · rintro (right | left)
    · obtain ⟨first, second, third, fourth⟩ := forall_turns.mp right
      have proper : quad.diagonal.cross quad.otherDiagonal ≠ 0 := even.trans_ne (add_pos first third).ne'
      exact ⟨proper, _, share_of_pos first third even, _, share_of_pos second fourth odd, diagonals_common proper⟩
    · obtain ⟨first, second, third, fourth⟩ := forall_turns.mp left
      have proper : quad.diagonal.cross quad.otherDiagonal ≠ 0 := even.trans_ne (add_neg first third).ne
      exact ⟨proper, _, share_of_neg first third even, _, share_of_neg second fourth odd, diagonals_common proper⟩
  · rintro ⟨proper, s, ⟨sPos, sLt⟩, t, ⟨tPos, tLt⟩, common⟩
    obtain ⟨first, second, third, fourth⟩ := turns_of_common common
    rcases lt_or_gt_of_ne proper with negative | positive
    · refine .inr (forall_turns.mpr ?_)
      rw [first, second, third, fourth]
      exact ⟨mul_neg_of_pos_of_neg sPos negative, mul_neg_of_pos_of_neg tPos negative,
        mul_neg_of_pos_of_neg (sub_pos.mpr sLt) negative, mul_neg_of_pos_of_neg (sub_pos.mpr tLt) negative⟩
    · refine .inl (forall_turns.mpr ?_)
      rw [first, second, third, fourth]
      exact ⟨mul_pos sPos positive, mul_pos tPos positive, mul_pos (sub_pos.mpr sLt) positive,
        mul_pos (sub_pos.mpr tLt) positive⟩

/-- A convex set that has all turns has the cross products of all rows and columns. -/
theorem cross_mem {s : Set ℝ} (convex : Convex ℝ s) (turns : ∀ turn ∈ quad.turns, turn ∈ s) {u v : ℝ}
    (across : u ∈ Icc (0 : ℝ) 1) (along : v ∈ Icc (0 : ℝ) 1) : (quad.row v).cross (quad.column u) ∈ s := by
  obtain ⟨first, second, third, fourth⟩ := forall_turns.mp turns
  have top := convex first second (sub_nonneg.mpr across.2) across.1 (sub_add_cancel 1 u)
  have bottom := convex fourth third (sub_nonneg.mpr across.2) across.1 (sub_add_cancel 1 u)
  have between := convex top bottom (sub_nonneg.mpr along.2) along.1 (sub_add_cancel 1 v)
  rwa [row_cross_column]

theorem StrictlyConvex.cross_ne_zero (convex : quad.StrictlyConvex) {u v : ℝ} (across : u ∈ Icc (0 : ℝ) 1)
    (along : v ∈ Icc (0 : ℝ) 1) : (quad.row v).cross (quad.column u) ≠ 0 := by
  obtain right | left := convex
  · exact (cross_mem (convex_Ioi 0) right across along).ne'
  · exact (cross_mem (convex_Iio 0) left across along).ne

theorem StrictlyConvex.meets (convex : quad.StrictlyConvex) (clear : ∀ turn ∈ quad.turns, quad.tolerance < |turn|) :
    quad.Meets := by
  intro u across v along row column
  have clearance : quad.tolerance < |(quad.row v).cross (quad.column u)| := by
    obtain right | left := convex
    · have above : ∀ turn ∈ quad.turns, turn ∈ Ioi quad.tolerance := fun turn member =>
        (clear turn member).trans_eq (abs_of_pos (right turn member))
      exact (cross_mem (convex_Ioi _) above across along).trans_le (le_abs_self _)
    · have below : ∀ turn ∈ quad.turns, turn ∈ Iio (-quad.tolerance) := fun turn member =>
        lt_neg_of_lt_neg ((clear turn member).trans_eq (abs_of_neg (left turn member)))
      exact (lt_neg_of_lt_neg (cross_mem (convex_Iio _) below across along)).trans_le (neg_le_abs _)
  have lengths : (quad.row v).length * (quad.column u).length ≤
      1 * (max quad.top.length quad.bottom.length * max quad.left.length quad.right.length) := by
    rw [one_mul]
    exact mul_le_mul (quad.row_length_le_max along) (quad.column_length_le_max across) (quad.column u).length_nonneg
      (le_max_of_le_left quad.top.length_nonneg)
  exact Segment.apart_of_area zero_le_one lengths (one_mul _).symm clearance row column

end Quad

/-- Two directions with a cross product are independent. -/
theorem Segment.eq_zero_of_cross_ne_zero {a b : Segment ℝ} (crossing : a.cross b ≠ 0) {s t : ℝ}
    (x : s * a.deltaX + t * b.deltaX = 0) (y : s * a.deltaY + t * b.deltaY = 0) : s = 0 ∧ t = 0 := by
  constructor
  · refine (mul_eq_zero.mp ?_).resolve_right crossing
    rw [cross]
    linear_combination b.deltaY * x - b.deltaX * y
  · refine (mul_eq_zero.mp ?_).resolve_right crossing
    rw [cross]
    linear_combination a.deltaX * y - a.deltaY * x

/-- Different places of a strictly convex quadrilateral are different points. -/
theorem Quad.StrictlyConvex.blend_injective {quad : Quad ℝ} (convex : quad.StrictlyConvex) {u v u' v' : ℝ}
    (across : u ∈ Icc (0 : ℝ) 1) (along : v ∈ Icc (0 : ℝ) 1) (across' : u' ∈ Icc (0 : ℝ) 1) (along' : v' ∈ Icc (0 : ℝ) 1)
    (same : quad.blend u v = quad.blend u' v') : u = u' ∧ v = v' := by
  have middle : ∀ {a b : ℝ}, a ∈ Icc (0 : ℝ) 1 → b ∈ Icc (0 : ℝ) 1 → (a + b) / 2 ∈ Icc (0 : ℝ) 1 := by
    rintro a b ⟨_, _⟩ ⟨_, _⟩
    constructor <;> linarith
  have x := congrArg Point.x same
  have y := congrArg Point.y same
  have crossing := convex.cross_ne_zero (middle across across') (middle along along')
  obtain ⟨left, right⟩ : u - u' = 0 ∧ v - v' = 0 := by
    apply Segment.eq_zero_of_cross_ne_zero crossing
    · simp only [row, column, blend, Segment.deltaX] at x ⊢
      linear_combination x
    · simp only [row, column, blend, Segment.deltaY] at y ⊢
      linear_combination y
  exact ⟨sub_eq_zero.mp left, sub_eq_zero.mp right⟩

/-- A trapezoid with legs of length five. -/
theorem Quad.strictlyConvex_trapezoid : (⟨⟨3, 0⟩, ⟨9, 0⟩, ⟨12, 4⟩, ⟨0, 4⟩⟩ : Quad ℝ).StrictlyConvex := by
  refine .inl (forall_turns.mpr ?_)
  norm_num [top, left, right, bottom, Segment.cross, Segment.deltaX, Segment.deltaY]

namespace Warp
variable {source : Box ℝ} {target : Quad ℝ} {warp : Warp ℝ}

/-- Over a strictly convex quadrilateral no turn of which is within the tolerance for its longest edges, every point of
a closed box has an image. -/
theorem exists_apply_of_convex (wide : 0 < source.width) (high : 0 < source.height) (convex : target.StrictlyConvex)
    (clear : ∀ turn ∈ target.turns, target.tolerance < |turn|) :
    ∃ warp, ofBox source target = .ok warp ∧ ∀ p, source.Contains p → ∃ r, warp.apply p = .ok r := by
  have made : ofBox source target = .ok ⟨source, target⟩ := ofBox_eq_ok.mpr ⟨wide.ne', high.ne', rfl⟩
  exact ⟨_, made, fun p inside => exists_apply_of_meets made wide high (convex.meets clear) inside⟩

theorem exists_apply_of_convex_trapezoid :
    let source : Box ℝ := ⟨1, 2, 10, 10⟩
    let target : Quad ℝ := ⟨⟨3, 0⟩, ⟨9, 0⟩, ⟨12, 4⟩, ⟨0, 4⟩⟩
    target.StrictlyConvex ∧ (∀ turn ∈ target.turns, target.tolerance < |turn|) ∧
      ∃ warp, ofBox source target = .ok warp ∧ ∀ p, source.Contains p → ∃ r, warp.apply p = .ok r := by
  intro source target
  have convex : target.StrictlyConvex := Quad.strictlyConvex_trapezoid
  have clear : ∀ turn ∈ target.turns, target.tolerance < |turn| := by
    refine Quad.forall_turns.mpr ?_
    norm_num [target, Quad.tolerance, Quad.top, Quad.left, Quad.right, Quad.bottom, Segment.cross, Segment.deltaX,
      Segment.deltaY, Segment.length]
  exact ⟨convex, clear, exists_apply_of_convex (by norm_num [source]) (by norm_num [source]) convex clear⟩

/-- Over a strictly convex quadrilateral the warp does not fold a closed box: points with the same image are the same. -/
theorem apply_injective_of_convex (made : ofBox source target = .ok warp) (wide : 0 < source.width)
    (high : 0 < source.height) (convex : target.StrictlyConvex) :
    ∀ p q, source.Contains p → source.Contains q → ∀ r, warp.apply p = .ok r → warp.apply q = .ok r → p = q := by
  intro p q inside inside' r met met'
  obtain ⟨u, across, v, along, rfl⟩ := (Box.contains_iff_place wide high).mp inside
  obtain ⟨u', across', v', along', rfl⟩ := (Box.contains_iff_place wide high).mp inside'
  have image := apply_place_of_positive made wide high across.1 along.1 met
  have image' := apply_place_of_positive made wide high across'.1 along'.1 met'
  obtain ⟨rfl, rfl⟩ := convex.blend_injective across along across' along' (image.symm.trans image')
  rfl

/-- Only the middle of the box goes to the mean of the corners of the trapezoid. -/
theorem apply_injective_of_convex_trapezoid :
    let source : Box ℝ := ⟨1, 2, 10, 10⟩
    let target : Quad ℝ := ⟨⟨3, 0⟩, ⟨9, 0⟩, ⟨12, 4⟩, ⟨0, 4⟩⟩
    let warp : Warp ℝ := ⟨source, target⟩
    ofBox source target = .ok warp ∧ target.StrictlyConvex ∧ warp.apply ⟨6, 7⟩ = .ok ⟨6, 2⟩ ∧
      ∀ p, source.Contains p → warp.apply p = .ok ⟨6, 2⟩ → p = ⟨6, 7⟩ := by
  intro source target warp
  have made : ofBox source target = .ok warp :=
    ofBox_eq_ok.mpr ⟨by norm_num [source], by norm_num [source], rfl⟩
  have middle : warp.apply ⟨6, 7⟩ = .ok ⟨6, 2⟩ := by
    have mean : target.blend (1 / 2) (1 / 2) = ⟨6, 2⟩ := by norm_num [target, Quad.blend]
    rw [← mean]
    apply apply_of_apart
    · norm_num [warp, source]
    · norm_num [warp, source]
    · apply Segment.not_aligned_of_lt
      norm_num [warp, target, Quad.row, Quad.column, Quad.blend, Segment.cross, Segment.deltaX, Segment.deltaY]
  have convex : target.StrictlyConvex := Quad.strictlyConvex_trapezoid
  refine ⟨made, convex, middle, ?_⟩
  intro p inside met
  exact apply_injective_of_convex made (by norm_num [source]) (by norm_num [source]) convex p ⟨6, 7⟩ inside
    (by norm_num [Box.Contains, source]) _ met middle

end Warp
end EnvelopeWarp
