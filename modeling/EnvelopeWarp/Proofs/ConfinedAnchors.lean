import EnvelopeWarp.Proofs.BilinearWarp
import EnvelopeWarp.Proofs.FittedPaths
import EnvelopeWarp.Proofs.TightBounds

/-! Where an envelope puts anchors when it measures an object by what it draws. All anchors are drawn, so the box
contains them and their ratios lie between zero and one. A blend with such ratios is a convex combination of the
corners, whatever the shape of the quadrilateral, and so no anchor leaves their hull. -/

namespace EnvelopeWarp
open Set

def Point.pair (p : Point ℝ) : ℝ × ℝ :=
  (p.x, p.y)

/-- The convex hull of the corners. -/
def Quad.hull (quad : Quad ℝ) : Set (ℝ × ℝ) :=
  convexHull ℝ {q | ∃ corner ∈ quad.corners, q = corner.pair}

theorem Quad.blend_mem_hull (quad : Quad ℝ) {u v : ℝ} (across : u ∈ Icc 0 1) (along : v ∈ Icc 0 1) :
    (quad.blend u v).pair ∈ quad.hull := by
  have convex : Convex ℝ quad.hull := convex_convexHull ℝ _
  have corner : ∀ c ∈ quad.corners, c.pair ∈ quad.hull := fun c member => subset_convexHull ℝ _ ⟨c, member, rfl⟩
  have first := corner quad.first (by simp [corners])
  have second := corner quad.second (by simp [corners])
  have third := corner quad.third (by simp [corners])
  have fourth := corner quad.fourth (by simp [corners])
  have top : (1 - u) • quad.first.pair + u • quad.second.pair ∈ quad.hull :=
    convex first second (sub_nonneg.mpr across.2) across.1 (sub_add_cancel 1 u)
  have bottom : (1 - u) • quad.fourth.pair + u • quad.third.pair ∈ quad.hull :=
    convex fourth third (sub_nonneg.mpr across.2) across.1 (sub_add_cancel 1 u)
  have between := convex top bottom (sub_nonneg.mpr along.2) along.1 (sub_add_cancel 1 v)
  convert between using 1
  simp only [Point.pair, blend, Prod.smul_mk, Prod.mk_add_mk, smul_eq_mul, Prod.mk.injEq]
  constructor <;> ring

theorem ratio_mem_Icc {start extent value : ℝ} (above : start ≤ value) (below : value ≤ start + extent)
    (usable : extent ≠ 0) : |value - start| / extent ∈ Icc 0 1 := by
  have positive : 0 < extent := lt_of_le_of_ne (by linarith) usable.symm
  rw [abs_of_nonneg (sub_nonneg.mpr above)]
  constructor
  · exact div_nonneg (sub_nonneg.mpr above) positive.le
  · rw [div_le_one positive]
    linarith

/-- When a point of the box has an image, the image lies in the hull of the corners. -/
theorem Warp.apply_mem_hull {warp : Warp ℝ} {p r : Point ℝ} (wide : warp.source.width ≠ 0)
    (high : warp.source.height ≠ 0) (inside : warp.source.Contains p) (met : warp.apply p = .ok r) :
    r.pair ∈ warp.target.hull := by
  obtain ⟨left, right, top, bottom⟩ := inside
  rw [apply_eq_blend met]
  exact Quad.blend_mem_hull _ (ratio_mem_Icc left right wide) (ratio_mem_Icc top bottom high)

theorem Subpath.draws_anchor {subpath : Subpath ℝ} {node : Node ℝ} (member : node ∈ subpath.nodes) :
    subpath.Draws node.anchor := by
  obtain ⟨index, here⟩ := List.mem_iff_getElem?.mp member
  cases index with
  | zero => exact .first here
  | succ index =>
    obtain ⟨before, found⟩ : ∃ before, subpath.nodes[index]? = some before := by
      have bound := (List.getElem?_eq_some_iff.mp here).1
      exact ⟨_, List.getElem?_eq_getElem (Nat.lt_of_succ_lt bound)⟩
    have drawn := Draws.curve found here zero_le_one le_rfl
    have finish : Curve.pointAt ⟨before.anchor, before.outgoing, node.incoming, node.anchor⟩ 1 = node.anchor := by
      simp [Curve.pointAt]
    rwa [finish] at drawn

theorem Path.bounds_encloses {path : Path ℝ} {box : Box ℝ} (found : path.bounds = some box) :
    box.Encloses path.drawn := by
  have tight := tight_drawn Extent.covers_coverCurve path
  rw [bounds, Extent.coverSubpath_eq] at found
  obtain ⟨extent, covered, rfl⟩ := Option.map_eq_some_iff.mp found
  rw [covered] at tight
  exact Extent.box_encloses tight

theorem Path.bounds_contains_anchor {path : Path ℝ} {box : Box ℝ} (found : path.bounds = some box)
    {subpath : Subpath ℝ} (listed : subpath ∈ path.subpaths) {node : Node ℝ} (member : node ∈ subpath.nodes) :
    box.Contains node.anchor :=
  (bounds_encloses found).contains _ ⟨subpath, listed, Subpath.draws_anchor member⟩

theorem Box.validate_eq_ok {box : Box ℝ} : box.validate = .ok () ↔ box.width ≠ 0 ∧ box.height ≠ 0 := by
  simp only [validate, usable, Scalar.finite_eq, Bool.true_and, Bool.and_eq_true, Bool.not_eq_true',
    Scalar.eq_eq_false_iff, Scalar.zero_eq]
  split <;> simp_all

namespace Envelope

/-- Every anchor of a path that was fitted from its own bounds lies in the convex hull of the first four anchors of
the control path. -/
theorem fit_confines_anchors {selection : List String} {drawing : Drawing} {fitted : Fitted ℝ}
    (found : Id.run (fit Measure.geometry selection drawing) = .ok fitted) :
    ∃ object control : Path ℝ, ∃ further unused, selection = fitted.object :: fitted.control :: unused ∧
      Shows drawing fitted.object object ∧ fitted.path.shape = object.shape ∧
      Shows drawing fitted.control control ∧ control.anchors = fitted.target.corners ++ further ∧
      ∀ subpath ∈ fitted.path.subpaths, ∀ node ∈ subpath.nodes, node.anchor.pair ∈ fitted.target.hull := by
  obtain ⟨object, fits, bounds⟩ := fit_geometry_eq_ok.mp found
  obtain ⟨unused, selected⟩ := fits.prepared.selected
  obtain ⟨control, further, shown, anchors⟩ := fits.prepared.control
  obtain ⟨wide, high⟩ := Box.validate_eq_ok.mp fits.usable
  refine ⟨object, control, further, unused, selected, fits.prepared.object, fits.mapped.shape_eq, shown, anchors, ?_⟩
  intro subpath listed node inside
  obtain ⟨before, member, origin, within, mapped⟩ := fits.mapped.exists_node listed inside
  exact Warp.apply_mem_hull wide high (Path.bounds_contains_anchor bounds member within) mapped.anchor

theorem fit_confines_anchors_dart :
    let source := "<svg><path id='a' d='M0 0L1 1L2 2'/><path id='b' d='M0 0L4 0L1 1L0 4'/></svg>"
    let drawing : Drawing := ⟨source, [⟨"a", "path", 1, some "M0 0L1 1L2 2"⟩,
      ⟨"b", "path", 2, some "M0 0L4 0L1 1L0 4"⟩], [("a", 0), ("b", 1)], none, none, []⟩
    let dart : Quad ℝ := ⟨⟨0, 0⟩, ⟨4, 0⟩, ⟨1, 1⟩, ⟨0, 4⟩⟩
    Drawing.parse source = .ok drawing ∧
    ∃ fitted : Fitted ℝ, Id.run (fit Measure.geometry ["a", "b"] drawing) = .ok fitted ∧ fitted.target = dart ∧
      fitted.path.anchors = [⟨0, 0⟩, ⟨5 / 4, 5 / 4⟩, ⟨1, 1⟩] ∧ ((5 / 4, 5 / 4) : ℝ × ℝ) ∈ dart.hull := by
  intro source drawing dart
  have parsed : Drawing.parse source = .ok drawing := by decide +kernel
  let object : Path ℝ := ⟨[⟨[.corner ⟨0, 0⟩, .corner ⟨1, 1⟩, .corner ⟨2, 2⟩], false⟩]⟩
  let control : Path ℝ := ⟨[⟨[.corner ⟨0, 0⟩, .corner ⟨4, 0⟩, .corner ⟨1, 1⟩, .corner ⟨0, 4⟩], false⟩]⟩
  let whole (n : Nat) : Decimal := ⟨false, n, 0⟩
  have object_commands : PathData.commands "M0 0L1 1L2 2".toList = .ok (.move false ⟨whole 0, whole 0⟩ ::
    [⟨whole 1, whole 1⟩, ⟨whole 2, whole 2⟩].map (.line false)) := by cbv
  have control_commands : PathData.commands "M0 0L4 0L1 1L0 4".toList = .ok (.move false ⟨whole 0, whole 0⟩ ::
    [⟨whole 4, whole 0⟩, ⟨whole 1, whole 1⟩, ⟨whole 0, whole 4⟩].map (.line false)) := by cbv
  have object_read : Path.parse "M0 0L1 1L2 2" = .ok object := by
    rw [Path.parse_lines object_commands]
    simp [whole, object, Point.map, Scalar.ofDecimal_whole]
  have control_read : Path.parse "M0 0L4 0L1 1L0 4" = .ok control := by
    rw [Path.parse_lines control_commands]
    simp [whole, control, Point.map, Scalar.ofDecimal_whole]
  have bounds : object.bounds = some ⟨0, 0, 2, 2⟩ := by
    norm_num [object, Node.corner, Path.bounds, Extent.coverSubpath, Extent.cover, Extent.ofPoint, Subpath.curves,
      Subpath.curvesOf, Extent.coverCurve, Span.coverCubic, Cubic.bulges, Span.cover, Extent.box, Box.ofCorners, Scalar.lt]
  let warp : Warp ℝ := ⟨⟨0, 0, 2, 2⟩, dart⟩
  have apart : ∀ u, u = 0 ∨ u = 1 / 2 ∨ u = 1 → ¬(dart.row u).Aligned (dart.column u) := by
    rintro u (rfl | rfl | rfl) <;> apply Segment.not_aligned_of_lt <;>
      norm_num [dart, Quad.row, Quad.column, Quad.blend, Segment.cross, Segment.deltaX, Segment.deltaY, abs_of_pos,
        abs_of_neg]
  have image : ∀ p r u, |p.x - 0| / 2 = u → |p.y - 0| / 2 = u → u = 0 ∨ u = 1 / 2 ∨ u = 1 → dart.blend u u = r →
      warp.apply p = .ok r := by
    rintro p r u across along known rfl
    change warp.apply p = .ok (warp.target.blend u u)
    apply Warp.apply_of_apart
    · exact across
    · exact along
    · exact apart u known
  have start : warp.apply ⟨0, 0⟩ = .ok ⟨0, 0⟩ :=
    image ⟨0, 0⟩ ⟨0, 0⟩ 0 (by norm_num) (by norm_num) (.inl rfl) (by norm_num [dart, Quad.blend])
  have middle : warp.apply ⟨1, 1⟩ = .ok ⟨5 / 4, 5 / 4⟩ :=
    image ⟨1, 1⟩ ⟨5 / 4, 5 / 4⟩ (1 / 2) (by norm_num) (by norm_num) (.inr (.inl rfl)) (by norm_num [dart, Quad.blend])
  have finish : warp.apply ⟨2, 2⟩ = .ok ⟨1, 1⟩ :=
    image ⟨2, 2⟩ ⟨1, 1⟩ 1 (by norm_num) (by norm_num) (.inr (.inr rfl)) (by norm_num [dart, Quad.blend])
  let fitted : Fitted ℝ :=
    ⟨"a", "b", warp.source, dart, ⟨[⟨[.corner ⟨0, 0⟩, .corner ⟨5 / 4, 5 / 4⟩, .corner ⟨1, 1⟩], false⟩]⟩⟩
  have found : Id.run (fit Measure.geometry ["a", "b"] drawing) = .ok fitted := by
    refine fit_geometry_eq_ok.mpr ⟨object, ⟨⟨⟨[], rfl⟩, ⟨_, _, rfl, rfl, rfl, object_read⟩, control, [],
      ⟨_, _, rfl, rfl, rfl, control_read⟩, rfl⟩, ?_, ?_⟩, bounds⟩
    · exact Box.validate_eq_ok.mpr ⟨two_ne_zero, two_ne_zero⟩
    · exact .cons ⟨.cons ⟨start, start, start⟩ (.cons ⟨middle, middle, middle⟩ (.cons ⟨finish, finish, finish⟩ .nil)), rfl⟩ .nil
  obtain ⟨_, _, _, _, _, _, _, _, _, confined⟩ := fit_confines_anchors found
  exact ⟨parsed, fitted, found, rfl, rfl, confined _ (.head _) (.corner ⟨5 / 4, 5 / 4⟩) (.tail _ (.head _))⟩

end Envelope
end EnvelopeWarp
