import EnvelopeWarp.Proofs.ConfinedAnchors

/-! An envelope whose control path is the box of the object. Ratios are counted from the left and the top side whatever
the direction, so the plane is folded along these two sides: what is drawn stays in place, and so do handles that reach
out to the right or below, while handles that reach out to the left or above are mirrored. -/

namespace EnvelopeWarp

namespace Box

/-- The corners of a box, in the order in which a control path gives them. -/
def quad (box : Box ℝ) : Quad ℝ :=
  ⟨⟨box.x, box.y⟩, ⟨box.x + box.width, box.y⟩, ⟨box.x + box.width, box.y + box.height⟩, ⟨box.x, box.y + box.height⟩⟩

/-- A point with its distances from the left and the top side of a box, counted away from both. -/
def folded (box : Box ℝ) (p : Point ℝ) : Point ℝ :=
  ⟨box.x + |p.x - box.x|, box.y + |p.y - box.y|⟩

theorem folded_eq_self_iff {box : Box ℝ} {p : Point ℝ} : box.folded p = p ↔ box.x ≤ p.x ∧ box.y ≤ p.y := by
  have side : ∀ start value : ℝ, start + |value - start| = value ↔ start ≤ value := by
    intro start value
    rw [← eq_sub_iff_add_eq', abs_eq_self, sub_nonneg]
  obtain ⟨x, y⟩ := p
  rw [folded, Point.mk.injEq, side, side]

theorem quad_blend {box : Box ℝ} (wide : box.width ≠ 0) (high : box.height ≠ 0) (p : Point ℝ) :
    box.quad.blend (|p.x - box.x| / box.width) (|p.y - box.y| / box.height) = box.folded p := by
  simp only [Quad.blend, quad, folded, Point.mk.injEq]
  constructor
  · field_simp
    ring
  · field_simp
    ring

private theorem quad_apart {box : Box ℝ} (wide : box.width ≠ 0) (high : box.height ≠ 0) (u v : ℝ) :
    ¬(box.quad.row v).Aligned (box.quad.column u) := by
  have row : (box.quad.row v).deltaX = box.width ∧ (box.quad.row v).deltaY = 0 := by
    simp only [Quad.row, Quad.blend, quad, Segment.deltaX, Segment.deltaY]
    constructor <;> ring
  have column : (box.quad.column u).deltaX = 0 ∧ (box.quad.column u).deltaY = box.height := by
    simp only [Quad.column, Quad.blend, quad, Segment.deltaX, Segment.deltaY]
    constructor <;> ring
  apply Segment.not_aligned_of_lt
  have area : 0 < |box.height * box.width| := abs_pos.mpr (mul_ne_zero high wide)
  rw [Segment.cross, row.1, row.2, column.1, column.2, Scalar.epsilon_eq, mul_zero, sub_zero, abs_zero, add_zero,
    zero_add, ← abs_mul, mul_comm box.width]
  exact mul_lt_of_lt_one_left area (by norm_num)

end Box

theorem Warp.apply_congruent {box : Box ℝ} (wide : box.width ≠ 0) (high : box.height ≠ 0) (p : Point ℝ) :
    (⟨box, box.quad⟩ : Warp ℝ).apply p = .ok (box.folded p) := by
  rw [← Box.quad_blend wide high p]
  apply apply_of_apart
  · rfl
  · rfl
  · exact Box.quad_apart wide high _ _

namespace Envelope

/-- The object is drawn in a box that one can divide by, and the control path starts with the corners of this box. -/
structure Congruent (drawing : Drawing) (object control : String) (path : Path ℝ) (box : Box ℝ) : Prop where
  object : Shows drawing object path
  bounds : path.bounds = some box
  wide : box.width ≠ 0
  high : box.height ≠ 0
  control : ∃ frame further, Shows drawing control frame ∧ frame.anchors = box.quad.corners ++ further

variable {drawing : Drawing} {object control : String} {path : Path ℝ} {box : Box ℝ}

private theorem fit_eq_folded (congruent : Congruent drawing object control path box) (unused : List String) :
    Id.run (fit Measure.geometry (object :: control :: unused) drawing) =
      .ok ⟨object, control, box, box.quad, path.onPoints box.folded⟩ := by
  have prepared : Prepared drawing (object :: control :: unused) ⟨object, control, box.quad, path⟩ :=
    ⟨⟨unused, rfl⟩, congruent.object, congruent.control⟩
  have mapped : path.Mapped (fun p q => (⟨box, box.quad⟩ : Warp ℝ).apply p = .ok q) (path.onPoints box.folded) :=
    Path.mapped_onPoints (Warp.apply_congruent congruent.wide congruent.high) path
  have usable : box.validate = .ok () := Box.validate_eq_ok.mpr ⟨congruent.wide, congruent.high⟩
  exact fit_geometry_eq_ok.mpr ⟨path, ⟨prepared, usable, mapped⟩, congruent.bounds⟩

/-- A path whose control path starts with the corners of its own box is fitted, and folded along the left and the top
side of this box, and what is written for it can be set. Folding moves no anchor, and nothing at all exactly when no
handle lies left of the box or above it. -/
theorem fit_congruent (congruent : Congruent drawing object control path box) (unused : List String) :
    ∃ fitted : Fitted ℝ, Id.run (fit Measure.geometry (object :: control :: unused) drawing) = .ok fitted ∧
      fitted.path = path.onPoints box.folded ∧
      (∀ data, ∃ changed, drawing.setPathData fitted.object data = .ok changed) ∧
      (∀ subpath ∈ path.subpaths, ∀ node ∈ subpath.nodes, box.folded node.anchor = node.anchor) ∧
      (fitted.path = path ↔ ∀ p ∈ path.points, box.x ≤ p.x ∧ box.y ≤ p.y) := by
  refine ⟨_, fit_eq_folded congruent unused, rfl, congruent.object.exists_set, ?_, ?_⟩
  · intro subpath listed node member
    obtain ⟨left, _, top, _⟩ := Path.bounds_contains_anchor congruent.bounds listed member
    exact Box.folded_eq_self_iff.mpr ⟨left, top⟩
  · rw [Path.onPoints_eq_self_iff]
    exact forall₂_congr fun _ _ => Box.folded_eq_self_iff

/-- A curve with a handle to the left of its box, and this box as control path. -/
def bowed : Drawing :=
  ⟨"<svg><path id='a' d='M4 0S0 4 8 4L11 4'/><path id='b' d='M3 0L11 0L11 4L3 4'/></svg>",
    [⟨"a", "path", 1, some "M4 0S0 4 8 4L11 4"⟩, ⟨"b", "path", 2, some "M3 0L11 0L11 4L3 4"⟩], [("a", 0), ("b", 1)],
    none, none, []⟩

def bow (handle : ℝ) : Path ℝ :=
  ⟨[⟨[.corner ⟨4, 0⟩, ⟨⟨handle, 4⟩, ⟨8, 4⟩, ⟨8, 4⟩⟩, .corner ⟨11, 4⟩], false⟩]⟩

/-- The corners of a box, joined by straight lines. -/
def frame (box : Box ℝ) : Path ℝ :=
  ⟨[⟨box.quad.corners.map .corner, false⟩]⟩

private theorem parse_bowed : Drawing.parse bowed.source = .ok bowed := by
  decide +kernel

private theorem parse_bow : Path.parse "M4 0S0 4 8 4L11 4" = .ok (bow 0) := by
  let whole (n : Nat) : Decimal := ⟨false, n, 0⟩
  have commands : PathData.commands "M4 0S0 4 8 4L11 4".toList = .ok [.move false ⟨whole 4, whole 0⟩,
    .smoothCubic false ⟨whole 0, whole 4⟩ ⟨whole 8, whole 4⟩, .line false ⟨whole 11, whole 4⟩] := by cbv
  rw [Path.parse_of_commands commands]
  simp [whole, bow, Path.ofCommands, Command.map, Point.map, Scalar.ofDecimal_whole, Pen.draw, Pen.place, Pen.moveTo,
    Pen.lineTo, Pen.cubicTo, Pen.reflected, Pen.blank, Pen.flush, Pen.leave, Pen.resume, Node.corner]

private theorem anchors_frame (box : Box ℝ) : (frame box).anchors = box.quad.corners :=
  List.map_map.trans (List.map_id _)

private theorem parse_frame : Path.parse "M3 0L11 0L11 4L3 4" = .ok (frame ⟨3, 0, 8, 4⟩) := by
  let whole (n : Nat) : Decimal := ⟨false, n, 0⟩
  have commands : PathData.commands "M3 0L11 0L11 4L3 4".toList = .ok (.move false ⟨whole 3, whole 0⟩ ::
    [⟨whole 11, whole 0⟩, ⟨whole 11, whole 4⟩, ⟨whole 3, whole 4⟩].map (.line false)) := by cbv
  rw [Path.parse_lines commands]
  norm_num [whole, frame, Quad.corners, Box.quad, Point.map, Scalar.ofDecimal_whole]

private theorem bounds_bow : (bow 0).bounds = some ⟨3, 0, 8, 4⟩ := by
  norm_num [bow, Node.corner, Path.bounds, Extent.coverSubpath, Extent.cover, Extent.ofPoint, Subpath.curves, Subpath.curvesOf,
    Extent.coverCurve, Span.coverCubic, Cubic.bulges, Span.cover, Extent.box, Box.ofCorners, Cubic.minimum,
    Cubic.maximum, Cubic.extreme, Cubic.extrema, Cubic.roots, Cubic.improve, Cubic.eval_eq, Scalar.lt, Scalar.eq]

private theorem congruent_bow : Congruent bowed "a" "b" (bow 0) ⟨3, 0, 8, 4⟩ where
  object := ⟨_, _, rfl, rfl, rfl, parse_bow⟩
  bounds := bounds_bow
  wide := by norm_num
  high := by norm_num
  control := by
    refine ⟨_, [], ⟨_, _, rfl, rfl, rfl, parse_frame⟩, ?_⟩
    rw [anchors_frame, List.append_nil]

private theorem bow_onPoints : (bow 0).onPoints (Box.folded ⟨3, 0, 8, 4⟩) = bow 6 := by
  norm_num [bow, Node.corner, Path.onPoints, Subpath.onPoints, Node.onPoints, Box.folded]

theorem fit_congruent_bow : Drawing.parse bowed.source = .ok bowed ∧ Congruent bowed "a" "b" (bow 0) ⟨3, 0, 8, 4⟩ ∧
    ∃ fitted : Fitted ℝ, Id.run (fit Measure.geometry ["a", "b"] bowed) = .ok fitted ∧ fitted.path = bow 6 := by
  refine ⟨parse_bowed, congruent_bow, ?_⟩
  obtain ⟨fitted, found, folded, _⟩ := fit_congruent congruent_bow []
  exact ⟨fitted, found, folded.trans bow_onPoints⟩

/-- So not every point stays where it was. -/
theorem not_forall_fit_congruent_unmoved : ¬∀ (drawing : Drawing) (object control : String) (path : Path ℝ) (box : Box ℝ),
    Drawing.parse drawing.source = .ok drawing → Congruent drawing object control path box →
      ∃ fitted : Fitted ℝ, Id.run (fit Measure.geometry [object, control] drawing) = .ok fitted ∧ fitted.path = path := by
  intro unmoved
  obtain ⟨fitted, found, same⟩ := unmoved bowed "a" "b" (bow 0) _ parse_bowed congruent_bow
  have folded := fit_eq_folded congruent_bow []
  rw [found, Except.ok.injEq] at folded
  rw [folded, bow_onPoints] at same
  norm_num [bow] at same

end Envelope
end EnvelopeWarp
