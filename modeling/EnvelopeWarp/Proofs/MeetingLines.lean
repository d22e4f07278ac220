import EnvelopeWarp.Proofs.BilinearWarp

/-! Where the lines through two segments meet. The answer does not depend on which segment is asked, although it is
measured along that segment alone: to swap the two segments swaps the two offsets and changes signs. To move or to
scale the plane multiplies the cross products and the tolerance by one positive factor, so each comparison comes out
as before. -/

namespace EnvelopeWarp
namespace Segment

/-- The points of the infinite line through a segment. -/
def line (s : Segment ℝ) : Set (Point ℝ) :=
  Set.range s.pointAt

def image (f : Point ℝ → Point ℝ) (s : Segment ℝ) : Segment ℝ :=
  ⟨f s.start, f s.finish⟩

variable {a b : Segment ℝ}

private theorem cross_swap (a b : Segment ℝ) : b.cross a = -a.cross b := by
  simp only [cross]
  ring

private theorem offset_swap (a b : Segment ℝ) : b.offset a = -a.selfOffset b := by
  simp only [offset, selfOffset]
  ring

private theorem tolerance_swap (a b : Segment ℝ) : b.tolerance a = a.tolerance b := by
  rw [tolerance_eq, tolerance_eq, mul_comm b.length]

/-- The answer for two segments that have a direction. -/
theorem intersect_eq (first : a.length ≠ 0) (second : b.length ≠ 0) : a.intersect b =
    if |a.cross b| ≤ a.tolerance b then
      if |a.offset b| ≤ a.tolerance b ∧ |a.selfOffset b| ≤ a.tolerance b then .error .coincident
      else .error .parallel
    else .ok (a.pointAt (a.offset b / a.cross b)) := by
  rw [intersect, if_neg (mt degenerate_iff.mp first), if_neg (mt degenerate_iff.mp second)]
  simp only [Scalar.le_iff, Scalar.abs_eq, Bool.and_eq_true]
  rfl

/-- The place on the first line and the place on the second one are the same point. -/
theorem pointAt_offset (crossing : a.cross b ≠ 0) :
    a.pointAt (a.offset b / a.cross b) = b.pointAt (b.offset a / b.cross a) := by
  have swapped : b.offset a / b.cross a = a.selfOffset b / a.cross b := by
    rw [cross_swap, offset_swap, neg_div_neg_eq]
  have cleared (offset way : ℝ) : offset / a.cross b * way * a.cross b = offset * way := by
    rw [mul_right_comm, div_mul_cancel₀ _ crossing]
  rw [swapped, pointAt, pointAt, Point.mk.injEq]
  constructor
  all_goals
    apply mul_right_cancel₀ crossing
    rw [add_mul, add_mul, cleared, cleared]
    simp only [cross, offset, selfOffset]
    ring

private theorem line_inter_line {p : Point ℝ} (first : a.length ≠ 0) (second : b.length ≠ 0)
    (met : a.intersect b = .ok p) : a.line ∩ b.line = {p} := by
  ext q
  rw [Set.mem_singleton_iff]
  constructor
  · rintro ⟨⟨u, rfl⟩, v, common⟩
    exact (intersect_eq_common common.symm met).symm
  · rintro rfl
    obtain ⟨flat, _⟩ | ⟨_, flat, _⟩ | ⟨_, _, _, fault, failed⟩ | ⟨apart, found⟩ := intersect_cases a b
    · exact absurd flat first
    · exact absurd flat second
    · cases failed.symm.trans met
    · cases found.symm.trans met
      exact ⟨⟨_, rfl⟩, _, (pointAt_offset (cross_ne_zero apart)).symm⟩

private theorem intersect_swap (first : a.length ≠ 0) (second : b.length ≠ 0) : b.intersect a = a.intersect b := by
  have self : |b.selfOffset a| = |a.offset b| := by rw [offset_swap b a, abs_neg]
  have other : |b.offset a| = |a.selfOffset b| := by rw [offset_swap a b, abs_neg]
  rw [intersect_eq second first, intersect_eq first second, tolerance_swap, self, other, cross_swap a b, abs_neg]
  by_cases aligned : |a.cross b| ≤ a.tolerance b
  · rw [if_pos aligned, if_pos aligned]
    simp only [and_comm]
  · have apart : ¬a.Aligned b := fun close => aligned (by simpa using aligned_iff.mpr close)
    rw [if_neg aligned, if_neg aligned, ← cross_swap, pointAt_offset (cross_ne_zero apart)]

/-- Scaled about the origin and then moved. -/
noncomputable def moved (factor : ℝ) (way p : Point ℝ) : Point ℝ :=
  p.scale factor + way

section Moved
variable (factor : ℝ) (way : Point ℝ) (a b : Segment ℝ)

private theorem start_moved :
    (a.image (moved factor way)).start = ⟨a.start.x * factor + way.x, a.start.y * factor + way.y⟩ :=
  rfl

private theorem deltaX_moved : (a.image (moved factor way)).deltaX = factor * a.deltaX := by
  change a.finish.x * factor + way.x - (a.start.x * factor + way.x) = factor * (a.finish.x - a.start.x)
  ring

private theorem deltaY_moved : (a.image (moved factor way)).deltaY = factor * a.deltaY := by
  change a.finish.y * factor + way.y - (a.start.y * factor + way.y) = factor * (a.finish.y - a.start.y)
  ring

private theorem length_moved : (a.image (moved factor way)).length = |factor| * a.length := by
  rw [length, length, deltaX_moved, deltaY_moved, Scalar.hypot_eq, Scalar.hypot_eq, ← Real.sqrt_sq_eq_abs,
    ← Real.sqrt_mul (sq_nonneg factor)]
  ring_nf

private theorem cross_moved :
    (a.image (moved factor way)).cross (b.image (moved factor way)) = factor ^ 2 * a.cross b := by
  simp only [cross, deltaX_moved, deltaY_moved]
  ring

private theorem offset_moved :
    (a.image (moved factor way)).offset (b.image (moved factor way)) = factor ^ 2 * a.offset b := by
  simp only [offset, deltaX_moved, deltaY_moved, start_moved]
  ring

private theorem selfOffset_moved :
    (a.image (moved factor way)).selfOffset (b.image (moved factor way)) = factor ^ 2 * a.selfOffset b := by
  simp only [selfOffset, deltaX_moved, deltaY_moved, start_moved]
  ring

private theorem tolerance_moved :
    (a.image (moved factor way)).tolerance (b.image (moved factor way)) = factor ^ 2 * a.tolerance b := by
  rw [tolerance_eq, tolerance_eq, length_moved, length_moved, ← sq_abs]
  ring

private theorem pointAt_moved (u : ℝ) : (a.image (moved factor way)).pointAt u = moved factor way (a.pointAt u) := by
  change _ = (⟨(a.start.x + u * a.deltaX) * factor + way.x, (a.start.y + u * a.deltaY) * factor + way.y⟩ : Point ℝ)
  rw [pointAt, deltaX_moved, deltaY_moved, start_moved, Point.mk.injEq]
  constructor <;> ring

end Moved

/-- What is compared grows by one positive factor, so no comparison changes. -/
theorem intersect_moved {factor : ℝ} (proper : factor ≠ 0) (way : Point ℝ) (first : a.length ≠ 0) (second : b.length ≠ 0) :
    (a.image (moved factor way)).intersect (b.image (moved factor way)) = (a.intersect b).map (moved factor way) := by
  have kept : ∀ {s : Segment ℝ}, s.length ≠ 0 → (s.image (moved factor way)).length ≠ 0 := fun {s} long => by
    rw [length_moved]
    exact mul_ne_zero (abs_ne_zero.mpr proper) long
  have growth : 0 < factor ^ 2 := by positivity
  have compare : ∀ x : ℝ, |factor ^ 2 * x| ≤ factor ^ 2 * a.tolerance b ↔ |x| ≤ a.tolerance b := fun x => by
    rw [abs_mul, abs_of_pos growth, mul_le_mul_iff_right₀ growth]
  rw [intersect_eq (kept first) (kept second), intersect_eq first second, cross_moved, offset_moved, selfOffset_moved,
    tolerance_moved, mul_div_mul_left _ _ growth.ne', pointAt_moved]
  simp only [compare]
  split
  · split <;> rfl
  · rfl

/-- Two segments that have a direction meet where the lines through them do, whichever is asked, and moving or scaling
them moves or scales that point; when there is no answer, it is refused for the same reason. -/
theorem intersect_lines (first : a.length ≠ 0) (second : b.length ≠ 0) :
    (∀ p, a.intersect b = .ok p → a.line ∩ b.line = {p}) ∧
      ((∃ p, a.intersect b = .ok p) ↔ ¬a.Aligned b) ∧
      b.intersect a = a.intersect b ∧
      (∀ way, (a.image (· + way)).intersect (b.image (· + way)) = (a.intersect b).map (· + way)) ∧
      ∀ factor, factor ≠ 0 →
        (a.image (·.scale factor)).intersect (b.image (·.scale factor)) = (a.intersect b).map (·.scale factor) := by
  have translation : ∀ way : Point ℝ, moved 1 way = (· + way) := fun way => by
    funext p
    exact congrArg (· + way) (congrArg₂ Point.mk (mul_one p.x) (mul_one p.y))
  have scaling : ∀ factor : ℝ, moved factor ⟨0, 0⟩ = (·.scale factor) := fun factor => by
    funext p
    exact congrArg₂ Point.mk (add_zero _) (add_zero _)
  refine ⟨fun p => line_inter_line first second, ?_, intersect_swap first second, fun way => ?_, fun factor proper => ?_⟩
  · obtain ⟨flat, _⟩ | ⟨_, flat, _⟩ | ⟨_, _, aligned, fault, failed⟩ | ⟨apart, found⟩ := intersect_cases a b
    · exact absurd flat first
    · exact absurd flat second
    · simp [failed, aligned]
    · simp [found, apart]
  · rw [← translation]
    exact intersect_moved one_ne_zero way first second
  · rw [← scaling]
    exact intersect_moved proper ⟨0, 0⟩ first second

/-- The lines meet outside both segments. -/
theorem intersect_lines_apart :
    let a : Segment ℝ := ⟨⟨0, 0⟩, ⟨1, 0⟩⟩
    let b : Segment ℝ := ⟨⟨5, 1⟩, ⟨5, 2⟩⟩
    a.length ≠ 0 ∧ b.length ≠ 0 ∧ a.intersect b = .ok ⟨5, 0⟩ ∧ b.intersect a = .ok ⟨5, 0⟩ := by
  intro a b
  have first : a.length ≠ 0 := by simp [length_eq_zero, a]
  have second : b.length ≠ 0 := by simp [length_eq_zero, b]
  have apart : ¬a.Aligned b := by
    apply not_aligned_of_lt
    norm_num [a, b, cross, deltaX, deltaY]
  have common : (⟨5, 0⟩ : Point ℝ) ∈ a.line ∩ b.line := by
    refine ⟨⟨5, ?_⟩, -1, ?_⟩ <;> norm_num [a, b, pointAt, deltaX, deltaY]
  obtain ⟨only, found, swapped, _⟩ := intersect_lines first second
  obtain ⟨p, met⟩ := found.mpr apart
  rw [only p met] at common
  rw [← Set.mem_singleton_iff.mp common] at met
  exact ⟨first, second, met, swapped.trans met⟩

end Segment
end EnvelopeWarp
