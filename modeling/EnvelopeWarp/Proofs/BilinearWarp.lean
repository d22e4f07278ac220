import EnvelopeWarp.Proofs.ExactScalar
import EnvelopeWarp.Warp

/-! On exact numbers the crossing of the two chords is the bilinear blend of the corners. Each chord
is the blend with one ratio held fixed, so the blend lies on both; when the chords have one crossing
only, it is the blend, and a chord that has shrunk to a point is the blend itself. -/

namespace EnvelopeWarp

/-- The corners weighted by how far a place is from the opposite ones. -/
def Quad.blend (quad : Quad ℝ) (u v : ℝ) : Point ℝ :=
  ⟨(1 - u) * (1 - v) * quad.first.x + u * (1 - v) * quad.second.x + u * v * quad.third.x +
      (1 - u) * v * quad.fourth.x,
    (1 - u) * (1 - v) * quad.first.y + u * (1 - v) * quad.second.y + u * v * quad.third.y +
      (1 - u) * v * quad.fourth.y⟩

/-- The blends at one height, from the left edge to the right one. -/
def Quad.row (quad : Quad ℝ) (v : ℝ) : Segment ℝ :=
  ⟨quad.blend 0 v, quad.blend 1 v⟩

def Quad.column (quad : Quad ℝ) (u : ℝ) : Segment ℝ :=
  ⟨quad.blend u 0, quad.blend u 1⟩

namespace Segment

/-- The directions of two segments cannot be told apart: up to the tolerance of the program, which is `2 ^ -52`,
their cross product is zero. -/
def Aligned (a b : Segment ℝ) : Prop :=
  |(a.finish.x - a.start.x) * (b.finish.y - b.start.y) -
      (a.finish.y - a.start.y) * (b.finish.x - b.start.x)| ≤ Scalar.epsilon * (a.length * b.length)

theorem length_eq_zero {s : Segment ℝ} : s.length = 0 ↔ s.start = s.finish := by
  have positive : 0 ≤ s.deltaX ^ 2 + s.deltaY ^ 2 := by positivity
  rw [length, Scalar.hypot_eq, Real.sqrt_eq_zero positive]
  constructor
  · intro vanishes
    have x : s.deltaX = 0 := by nlinarith [sq_nonneg s.deltaX, sq_nonneg s.deltaY]
    have y : s.deltaY = 0 := by nlinarith [sq_nonneg s.deltaX, sq_nonneg s.deltaY]
    obtain ⟨⟨startX, startY⟩, ⟨finishX, finishY⟩⟩ := s
    simp only [deltaX, deltaY, sub_eq_zero] at x y
    rw [x, y]
  · intro same
    simp [deltaX, deltaY, same]

theorem length_nonneg (s : Segment ℝ) : 0 ≤ s.length := by
  rw [length, Scalar.hypot_eq]
  exact Real.sqrt_nonneg _

theorem degenerate_iff {s : Segment ℝ} : s.degenerate = true ↔ s.length = 0 := by
  rw [length_eq_zero]
  obtain ⟨⟨startX, startY⟩, ⟨finishX, finishY⟩⟩ := s
  simp [degenerate, Point.same]

theorem cross_eq (a b : Segment ℝ) : a.cross b =
    (a.finish.x - a.start.x) * (b.finish.y - b.start.y) -
      (a.finish.y - a.start.y) * (b.finish.x - b.start.x) := by
  simp only [cross, deltaX, deltaY]
  ring

theorem tolerance_eq (a b : Segment ℝ) : a.tolerance b = Scalar.epsilon * (a.length * b.length) := by
  simp only [tolerance, mul_assoc]

theorem aligned_iff {a b : Segment ℝ} :
    Scalar.le (Scalar.abs (a.cross b)) (a.tolerance b) = true ↔ a.Aligned b := by
  rw [Scalar.le_iff, Scalar.abs_eq, cross_eq, tolerance_eq, Aligned]

theorem cross_ne_zero {a b : Segment ℝ} (apart : ¬ a.Aligned b) : a.cross b ≠ 0 := by
  intro vanishes
  apply apart
  rw [cross_eq] at vanishes
  rw [Aligned, vanishes, abs_zero]
  exact mul_nonneg Scalar.epsilon_nonneg (mul_nonneg a.length_nonneg b.length_nonneg)

private theorem length_le (s : Segment ℝ) : s.length ≤ |s.deltaX| + |s.deltaY| := by
  rw [length, Scalar.hypot_eq]
  apply Real.sqrt_le_iff.mpr
  constructor
  · positivity
  · nlinarith [sq_abs s.deltaX, sq_abs s.deltaY, abs_nonneg s.deltaX, abs_nonneg s.deltaY]

theorem not_aligned_of_lt {a b : Segment ℝ}
    (apart : Scalar.epsilon * ((|a.deltaX| + |a.deltaY|) * (|b.deltaX| + |b.deltaY|)) < |a.cross b|) : ¬a.Aligned b := by
  have lengths : a.length * b.length ≤ (|a.deltaX| + |a.deltaY|) * (|b.deltaX| + |b.deltaY|) :=
    mul_le_mul a.length_le b.length_le b.length_nonneg (by positivity)
  intro aligned
  rw [Aligned, ← cross_eq] at aligned
  exact absurd (aligned.trans (mul_le_mul_of_nonneg_left lengths Scalar.epsilon_nonneg)) (not_le.mpr apart)

theorem intersect_cases (a b : Segment ℝ) :
    (a.length = 0 ∧ a.intersect b = .ok a.start) ∨
      (a.length ≠ 0 ∧ b.length = 0 ∧ a.intersect b = .ok b.start) ∨
      (a.length ≠ 0 ∧ b.length ≠ 0 ∧ a.Aligned b ∧ ∃ fault, a.intersect b = .error fault) ∨
      (¬ a.Aligned b ∧ a.intersect b = .ok (a.pointAt (a.offset b / a.cross b))) := by
  unfold intersect
  by_cases first : a.length = 0
  · exact .inl ⟨first, if_pos (degenerate_iff.mpr first)⟩
  rw [if_neg (mt degenerate_iff.mp first)]
  by_cases second : b.length = 0
  · exact .inr (.inl ⟨first, second, if_pos (degenerate_iff.mpr second)⟩)
  rw [if_neg (mt degenerate_iff.mp second)]
  by_cases aligned : a.Aligned b
  · rw [if_pos (aligned_iff.mpr aligned)]
    refine .inr (.inr (.inl ⟨first, second, aligned, ?_⟩))
    split
    · exact ⟨_, rfl⟩
    · exact ⟨_, rfl⟩
  · rw [if_neg (mt aligned_iff.mp aligned)]
    exact .inr (.inr (.inr ⟨aligned, rfl⟩))

/-- Two segments fail to meet exactly when both have a direction and the directions are aligned. -/
theorem intersect_error_iff (a b : Segment ℝ) :
    (∃ fault, a.intersect b = .error fault) ↔ a.length ≠ 0 ∧ b.length ≠ 0 ∧ a.Aligned b := by
  obtain ⟨flat, met⟩ | ⟨_, flat, met⟩ | ⟨first, second, aligned, failed⟩ | ⟨apart, met⟩ := intersect_cases a b
  · simp [met, flat]
  · simp [met, flat]
  · exact iff_of_true failed ⟨first, second, aligned⟩
  · simp [met, apart]

theorem pointAt_of_flat {s : Segment ℝ} (flat : s.length = 0) (ratio : ℝ) : s.pointAt ratio = s.start := by
  have same := length_eq_zero.mp flat
  simp [pointAt, deltaX, deltaY, same]

private theorem offset_eq {a b : Segment ℝ} {u v : ℝ} (common : a.pointAt u = b.pointAt v) :
    a.offset b = u * a.cross b := by
  have x := congrArg Point.x common
  have y := congrArg Point.y common
  simp only [pointAt] at x y
  simp only [offset, cross]
  linear_combination b.deltaX * y - b.deltaY * x

theorem intersect_eq_common {a b : Segment ℝ} {u v : ℝ} {r : Point ℝ}
    (common : a.pointAt u = b.pointAt v) (met : a.intersect b = .ok r) : r = a.pointAt u := by
  obtain ⟨flat, found⟩ | ⟨_, flat, found⟩ | ⟨_, _, _, fault, failed⟩ | ⟨apart, found⟩ := intersect_cases a b
  · cases found.symm.trans met
    exact (pointAt_of_flat flat u).symm
  · cases found.symm.trans met
    rw [common, pointAt_of_flat flat v]
  · cases failed.symm.trans met
  · cases found.symm.trans met
    rw [offset_eq common, mul_div_cancel_right₀ u (cross_ne_zero apart)]

end Segment

namespace Quad
variable (quad : Quad ℝ) (u v : ℝ)

private theorem row_pointAt : (quad.row v).pointAt u = quad.blend u v := by
  simp only [row, blend, Segment.pointAt, Segment.deltaX, Segment.deltaY, Point.mk.injEq]
  constructor <;> ring

private theorem column_pointAt : (quad.column u).pointAt v = quad.blend u v := by
  simp only [column, blend, Segment.pointAt, Segment.deltaX, Segment.deltaY, Point.mk.injEq]
  constructor <;> ring

end Quad

namespace Warp

theorem acrossY_eq_row (warp : Warp ℝ) (v : ℝ) : warp.acrossY v = warp.target.row v := by
  simp only [acrossY, Quad.row, Quad.blend, Quad.left, Quad.right, Segment.pointAt, Segment.deltaX,
    Segment.deltaY, Segment.mk.injEq, Point.mk.injEq]
  refine ⟨⟨?_, ?_⟩, ?_, ?_⟩ <;> ring

theorem acrossX_eq_column (warp : Warp ℝ) (u : ℝ) : warp.acrossX u = warp.target.column u := by
  simp only [acrossX, Quad.column, Quad.blend, Quad.top, Quad.bottom, Segment.pointAt, Segment.deltaX,
    Segment.deltaY, Segment.mk.injEq, Point.mk.injEq]
  refine ⟨⟨?_, ?_⟩, ?_, ?_⟩ <;> ring

private theorem apply_eq_intersect (warp : Warp ℝ) (p : Point ℝ) :
    warp.apply p = (warp.target.row (|p.y - warp.source.y| / warp.source.height)).intersect
      (warp.target.column (|p.x - warp.source.x| / warp.source.width)) := by
  rw [← acrossY_eq_row, ← acrossX_eq_column]
  rfl

theorem apply_eq_blend {warp : Warp ℝ} {p r : Point ℝ} (met : warp.apply p = .ok r) :
    r = warp.target.blend (|p.x - warp.source.x| / warp.source.width) (|p.y - warp.source.y| / warp.source.height) := by
  have common : ∀ u v, (warp.target.row v).pointAt u = (warp.target.column u).pointAt v := fun u v =>
    (Quad.row_pointAt _ u v).trans (Quad.column_pointAt _ u v).symm
  rw [apply_eq_intersect] at met
  rw [← Quad.row_pointAt]
  exact Segment.intersect_eq_common (common _ _) met

/-- Where the directions of row and column can be told apart, the blend is the image. -/
theorem apply_of_apart {warp : Warp ℝ} {p : Point ℝ} {u v : ℝ} (across : |p.x - warp.source.x| / warp.source.width = u)
    (along : |p.y - warp.source.y| / warp.source.height = v)
    (apart : ¬(warp.target.row v).Aligned (warp.target.column u)) : warp.apply p = .ok (warp.target.blend u v) := by
  cases met : warp.apply p with
  | ok r => rw [apply_eq_blend met, across, along]
  | error fault =>
    rw [apply_eq_intersect, across, along] at met
    exact absurd ((Segment.intersect_error_iff _ _).mp ⟨fault, met⟩).2.2 apart

theorem ofBox_eq_ok {source : Box ℝ} {target : Quad ℝ} {warp : Warp ℝ} :
    ofBox source target = .ok warp ↔
      source.width ≠ 0 ∧ source.height ≠ 0 ∧ warp = ⟨source, target⟩ := by
  simp only [ofBox, Box.validate, Box.usable, Scalar.finite_eq, Bool.true_and]
  by_cases flat : source.width = 0 ∨ source.height = 0
  · rcases flat with flat | flat <;> simp [flat, bind, Except.bind]
  · obtain ⟨wide, high⟩ := not_or.mp flat
    simpa [wide, high, bind, Except.bind, pure, Except.pure] using eq_comm

/-- Every warp of an accepted box blends the corners, with ratios counted from the origin of the box
whatever the direction; it has no answer exactly when row and column both have a direction and the two
directions are aligned. -/
theorem apply_blends {source : Box ℝ} {target : Quad ℝ} {warp : Warp ℝ}
    (made : ofBox source target = .ok warp) (p : Point ℝ) :
    let u := |p.x - source.x| / source.width
    let v := |p.y - source.y| / source.height
    (∀ r, warp.apply p = .ok r → r = target.blend u v) ∧
      ((∃ fault, warp.apply p = .error fault) ↔
        (target.row v).length ≠ 0 ∧ (target.column u).length ≠ 0 ∧
          (target.row v).Aligned (target.column u)) := by
  intro u v
  rw [(ofBox_eq_ok.mp made).2.2, apply_eq_intersect]
  constructor
  · intro r met
    have common : (target.row v).pointAt u = (target.column u).pointAt v := by
      rw [Quad.row_pointAt, Quad.column_pointAt]
    rw [← Quad.row_pointAt]
    exact Segment.intersect_eq_common common met
  · exact Segment.intersect_error_iff _ _

/-- A top edge that has shrunk to the apex of a triangle: the row along it is a point, and the middle of
the side goes there. -/
theorem apply_blends_apex :
    let source : Box ℝ := ⟨0, 0, 10, 10⟩
    let target : Quad ℝ := ⟨⟨10, 0⟩, ⟨10, 0⟩, ⟨20, 20⟩, ⟨0, 20⟩⟩
    ofBox source target = .ok ⟨source, target⟩ ∧
      (⟨source, target⟩ : Warp ℝ).apply ⟨5, 0⟩ = .ok ⟨10, 0⟩ := by
  intro source target
  have made : ofBox source target = .ok ⟨source, target⟩ :=
    ofBox_eq_ok.mpr ⟨by norm_num [source], by norm_num [source], rfl⟩
  refine ⟨made, ?_⟩
  obtain ⟨blends, fails⟩ := apply_blends made ⟨5, 0⟩
  cases met : (⟨source, target⟩ : Warp ℝ).apply ⟨5, 0⟩ with
  | error fault =>
    have direction := (fails.mp ⟨fault, met⟩).1
    simp [Segment.length_eq_zero, Quad.row, Quad.blend, source, target] at direction
  | ok r =>
    rw [blends r met]
    norm_num [Quad.blend, source, target]

end Warp
end EnvelopeWarp
