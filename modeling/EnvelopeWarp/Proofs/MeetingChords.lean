import EnvelopeWarp.Proofs.PlacedCorners

/-! When the chords of a quadrilateral meet. A row is the mean of the top and the bottom edge, a column that of the left
and the right one, so neither is longer than the mean of two lengths, and their cross product is the mean of the cross
products at the corners. A row and a column are apart when the area that they span is large against their lengths. Where
all of them are, the warp sends every place of a box to the same place of the quadrilateral. -/

namespace EnvelopeWarp
open Set

namespace Segment

private theorem length_eq_norm (s : Segment ℝ) : s.length = ‖(⟨s.deltaX, s.deltaY⟩ : ℂ)‖ := by
  rw [length, Scalar.hypot_eq, Complex.norm_eq_sqrt_sq_add_sq]

/-- The mean of two directions is no longer than the mean of the lengths. -/
theorem length_le_mean {a b mean : Segment ℝ} {t : ℝ} (between : t ∈ Icc (0 : ℝ) 1)
    (x : mean.deltaX = (1 - t) * a.deltaX + t * b.deltaX) (y : mean.deltaY = (1 - t) * a.deltaY + t * b.deltaY) :
    mean.length ≤ (1 - t) * a.length + t * b.length := by
  obtain ⟨least, most⟩ := between
  have split : (⟨mean.deltaX, mean.deltaY⟩ : ℂ) = (1 - t) • ⟨a.deltaX, a.deltaY⟩ + t • ⟨b.deltaX, b.deltaY⟩ := by
    apply Complex.ext
    · simpa using x
    · simpa using y
  rw [length_eq_norm, length_eq_norm, length_eq_norm, split]
  calc _ ≤ _ := norm_add_le _ _
    _ = _ := by rw [norm_smul_of_nonneg (sub_nonneg.mpr most), norm_smul_of_nonneg least]

/-- Segments that shrink together stay apart: their cross product shrinks by the same factor as the bound on their
lengths. -/
theorem apart_of_area {a b : Segment ℝ} {factor reach area : ℝ} (shrunk : 0 ≤ factor)
    (bound : a.length * b.length ≤ factor * reach) (cross : |a.cross b| = factor * area)
    (clear : Scalar.epsilon * reach < area) (first : a.length ≠ 0) (second : b.length ≠ 0) : ¬a.Aligned b := by
  have product : 0 < a.length * b.length :=
    mul_pos (a.length_nonneg.lt_of_ne' first) (b.length_nonneg.lt_of_ne' second)
  have proper : 0 < factor := by
    refine shrunk.lt_of_ne' ?_
    rintro rfl
    rw [zero_mul] at bound
    exact absurd product (not_lt.mpr bound)
  rw [Aligned, ← cross_eq, cross, not_le]
  calc Scalar.epsilon * (a.length * b.length) ≤ Scalar.epsilon * (factor * reach) :=
        mul_le_mul_of_nonneg_left bound Scalar.epsilon_nonneg
    _ = factor * (Scalar.epsilon * reach) := mul_left_comm _ _ _
    _ < factor * area := mul_lt_mul_of_pos_left clear proper

end Segment

namespace Quad
variable {u v : ℝ}

private theorem row_delta (quad : Quad ℝ) (v : ℝ) :
    (quad.row v).deltaX = (1 - v) * quad.top.deltaX + v * quad.bottom.deltaX ∧
      (quad.row v).deltaY = (1 - v) * quad.top.deltaY + v * quad.bottom.deltaY := by
  simp only [row, blend, top, bottom, Segment.deltaX, Segment.deltaY]
  constructor <;> ring

private theorem column_delta (quad : Quad ℝ) (u : ℝ) :
    (quad.column u).deltaX = (1 - u) * quad.left.deltaX + u * quad.right.deltaX ∧
      (quad.column u).deltaY = (1 - u) * quad.left.deltaY + u * quad.right.deltaY := by
  simp only [column, blend, left, right, Segment.deltaX, Segment.deltaY]
  constructor <;> ring

theorem row_length_le (quad : Quad ℝ) (along : v ∈ Icc (0 : ℝ) 1) :
    (quad.row v).length ≤ (1 - v) * quad.top.length + v * quad.bottom.length :=
  Segment.length_le_mean along (quad.row_delta v).1 (quad.row_delta v).2

theorem column_length_le (quad : Quad ℝ) (across : u ∈ Icc (0 : ℝ) 1) :
    (quad.column u).length ≤ (1 - u) * quad.left.length + u * quad.right.length :=
  Segment.length_le_mean across (quad.column_delta u).1 (quad.column_delta u).2

theorem row_length_le_max (quad : Quad ℝ) (along : v ∈ Icc (0 : ℝ) 1) :
    (quad.row v).length ≤ max quad.top.length quad.bottom.length :=
  (quad.row_length_le along).trans (Convex.combo_le_max _ _ (sub_nonneg.mpr along.2) along.1 (sub_add_cancel 1 v))

theorem column_length_le_max (quad : Quad ℝ) (across : u ∈ Icc (0 : ℝ) 1) :
    (quad.column u).length ≤ max quad.left.length quad.right.length :=
  (quad.column_length_le across).trans (Convex.combo_le_max _ _ (sub_nonneg.mpr across.2) across.1 (sub_add_cancel 1 u))

theorem row_cross_column (quad : Quad ℝ) (u v : ℝ) : (quad.row v).cross (quad.column u) =
    (1 - v) * ((1 - u) * quad.top.cross quad.left + u * quad.top.cross quad.right) +
      v * ((1 - u) * quad.bottom.cross quad.left + u * quad.bottom.cross quad.right) := by
  obtain ⟨rowX, rowY⟩ := quad.row_delta v
  obtain ⟨columnX, columnY⟩ := quad.column_delta u
  simp only [Segment.cross, rowX, rowY, columnX, columnY]
  ring

/-- Every row and every column of the quadrilateral that have a direction can be told apart. -/
def Meets (quad : Quad ℝ) : Prop :=
  ∀ u ∈ Icc (0 : ℝ) 1, ∀ v ∈ Icc (0 : ℝ) 1, (quad.row v).length ≠ 0 → (quad.column u).length ≠ 0 →
    ¬(quad.row v).Aligned (quad.column u)

end Quad

namespace Warp
variable {source : Box ℝ} {target : Quad ℝ} {warp : Warp ℝ}

theorem apply_place_of_meets (made : ofBox source target = .ok warp) (wide : 0 < source.width) (high : 0 < source.height)
    (meets : target.Meets) {u v : ℝ} (across : u ∈ Icc (0 : ℝ) 1) (along : v ∈ Icc (0 : ℝ) 1) :
    warp.apply (source.quad.blend u v) = .ok (target.blend u v) := by
  have ratios := ratios_place made across.1 along.1
  rw [Real.sign_of_pos wide, Real.sign_of_pos high, mul_one, mul_one] at ratios
  have chords : warp.apply (source.quad.blend u v) = (target.row v).intersect (target.column u) := by
    rw [apply, ratios, acrossX_eq_column, acrossY_eq_row, (ofBox_eq_ok.mp made).2.2]
  cases met : warp.apply (source.quad.blend u v) with
  | ok r => rw [apply_place_of_positive made wide high across.1 along.1 met]
  | error fault =>
    obtain ⟨row, column, aligned⟩ := (Segment.intersect_error_iff _ _).mp ⟨fault, chords.symm.trans met⟩
    exact absurd aligned (meets u across v along row column)

/-- Over a quadrilateral whose chords meet, every point of a closed box has an image. -/
theorem exists_apply_of_meets (made : ofBox source target = .ok warp) (wide : 0 < source.width)
    (high : 0 < source.height) (meets : target.Meets) {p : Point ℝ} (inside : source.Contains p) :
    ∃ r, warp.apply p = .ok r := by
  obtain ⟨u, across, v, along, rfl⟩ := (Box.contains_iff_place wide high).mp inside
  exact ⟨_, apply_place_of_meets made wide high meets across along⟩

end Warp
end EnvelopeWarp
