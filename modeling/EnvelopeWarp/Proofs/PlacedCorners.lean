import EnvelopeWarp.Proofs.CongruentEnvelope

/-! Places in a box, given by how far they are along its two sides: the blends of its corners. The distance of a place
from the origin of the box is taken without its sign and the extent it is divided by with its sign. So a box with
positive extents sends each place to the same place of the quadrilateral, and its corners to the corners, whereas a
negative extent sends the places of the box to those on the other side of an edge. -/

namespace EnvelopeWarp
open Set

namespace Box

private theorem quad_place (box : Box ℝ) (u v : ℝ) :
    box.quad.blend u v = ⟨box.x + u * box.width, box.y + v * box.height⟩ := by
  simp only [Quad.blend, quad, Point.mk.injEq]
  constructor <;> ring

/-- The places of a closed box. -/
theorem contains_iff_place {box : Box ℝ} (wide : 0 < box.width) (high : 0 < box.height) {p : Point ℝ} :
    box.Contains p ↔ ∃ u ∈ Icc (0 : ℝ) 1, ∃ v ∈ Icc (0 : ℝ) 1, p = box.quad.blend u v := by
  have within : ∀ {extent ratio : ℝ}, 0 < extent → ratio ∈ Icc (0 : ℝ) 1 → ratio * extent ∈ Icc 0 extent := by
    intro extent ratio positive ⟨least, most⟩
    exact ⟨mul_nonneg least positive.le, mul_le_of_le_one_left positive.le most⟩
  constructor
  · rintro ⟨left, right, top, bottom⟩
    refine ⟨_, ratio_mem_Icc left right wide.ne', _, ratio_mem_Icc top bottom high.ne', ?_⟩
    rw [quad_blend wide.ne' high.ne', folded_eq_self_iff.mpr ⟨left, top⟩]
  · rintro ⟨u, across, v, along, rfl⟩
    obtain ⟨left, right⟩ := within wide across
    obtain ⟨top, bottom⟩ := within high along
    rw [quad_place]
    exact ⟨le_add_of_nonneg_right left, add_le_add_right right _, le_add_of_nonneg_right top, add_le_add_right bottom _⟩

end Box

namespace Quad
variable (quad : Quad ℝ)

theorem corners_eq_blends : quad.corners = [quad.blend 0 0, quad.blend 1 0, quad.blend 1 1, quad.blend 0 1] := by
  simp [corners, blend]

/-- Where the corners of a box are sent: to the corners, but along an axis with a negative extent to the places as far on
the other side of the first corner. -/
noncomputable def facing (box : Box ℝ) : Quad ℝ :=
  let u := box.width.sign
  let v := box.height.sign
  ⟨quad.blend 0 0, quad.blend u 0, quad.blend u v, quad.blend 0 v⟩

private theorem facing_eq_self {box : Box ℝ} (wide : 0 < box.width) (high : 0 < box.height) :
    quad.facing box = quad := by
  simp [facing, blend, Real.sign_of_pos wide, Real.sign_of_pos high]

end Quad

namespace Warp
variable {source : Box ℝ} {target : Quad ℝ} {warp : Warp ℝ}

private theorem ratio_eq_signed (start : ℝ) {extent ratio : ℝ} (usable : extent ≠ 0) (ahead : 0 ≤ ratio) :
    |start + ratio * extent - start| / extent = ratio * extent.sign := by
  rw [add_sub_cancel_left, abs_mul, abs_of_nonneg ahead, mul_div_assoc]
  congr 1
  rcases lt_or_gt_of_ne usable with negative | positive
  · rw [abs_of_neg negative, Real.sign_of_neg negative, neg_div, div_self usable]
  · rw [abs_of_pos positive, Real.sign_of_pos positive, div_self usable]

theorem ratios_place (made : ofBox source target = .ok warp) {u v : ℝ} (across : 0 ≤ u) (along : 0 ≤ v) :
    warp.ratios (source.quad.blend u v) = ⟨u * source.width.sign, v * source.height.sign⟩ := by
  obtain ⟨wide, high, rfl⟩ := ofBox_eq_ok.mp made
  rw [Box.quad_place]
  exact congrArg₂ Point.mk (ratio_eq_signed _ wide across) (ratio_eq_signed _ high along)

/-- Where a place of the box goes, if it goes anywhere. -/
theorem apply_place (made : ofBox source target = .ok warp) {u v : ℝ} (across : 0 ≤ u) (along : 0 ≤ v) {r : Point ℝ}
    (met : warp.apply (source.quad.blend u v) = .ok r) :
    r = target.blend (u * source.width.sign) (v * source.height.sign) := by
  have image : r = warp.target.blend (warp.ratios (source.quad.blend u v)).x (warp.ratios (source.quad.blend u v)).y :=
    apply_eq_blend met
  rwa [ratios_place made across along, (ofBox_eq_ok.mp made).2.2] at image

theorem apply_place_of_positive (made : ofBox source target = .ok warp) (wide : 0 < source.width)
    (high : 0 < source.height) {u v : ℝ} (across : 0 ≤ u) (along : 0 ≤ v) {r : Point ℝ}
    (met : warp.apply (source.quad.blend u v) = .ok r) : r = target.blend u v := by
  have sent := apply_place made across along met
  rwa [Real.sign_of_pos wide, Real.sign_of_pos high, mul_one, mul_one] at sent

/-- Each corner of the box that has an image goes to its own corner of a quadrilateral. -/
def SendsCorners (warp : Warp ℝ) (quad : Quad ℝ) : Prop :=
  List.Forall₂ (fun corner image => ∀ r, warp.apply corner = .ok r → r = image) warp.source.quad.corners quad.corners

private theorem sendsCorners_facing (made : ofBox source target = .ok warp) :
    warp.SendsCorners (target.facing source) := by
  have same : warp.source = source := by rw [(ofBox_eq_ok.mp made).2.2]
  have sent : ∀ u v : ℝ, 0 ≤ u → 0 ≤ v → ∀ r, warp.apply (source.quad.blend u v) = .ok r →
      r = target.blend (u * source.width.sign) (v * source.height.sign) :=
    fun _ _ across along _ met => apply_place made across along met
  rw [SendsCorners, same, Quad.corners_eq_blends]
  refine .cons ?_ (.cons ?_ (.cons ?_ (.cons ?_ .nil)))
  · simpa [Quad.facing] using sent 0 0 le_rfl le_rfl
  · simpa [Quad.facing] using sent 1 0 zero_le_one le_rfl
  · simpa [Quad.facing] using sent 1 1 zero_le_one zero_le_one
  · simpa [Quad.facing] using sent 0 1 le_rfl zero_le_one

/-- Every accepted box sends its corners to those that face it. They are the corners of the target, for every target,
exactly when both extents of the box are positive. -/
theorem sends_corners_iff (usable : source.validate = .ok ()) :
    (∀ target warp, ofBox source target = .ok warp → warp.SendsCorners (target.facing source)) ∧
      ((∀ target warp, ofBox source target = .ok warp → warp.SendsCorners target) ↔
        0 < source.width ∧ 0 < source.height) := by
  obtain ⟨wide, high⟩ := Box.validate_eq_ok.mp usable
  refine ⟨fun target warp made => sendsCorners_facing made, ?_, ?_⟩
  · intro sent
    have held := sent source.quad ⟨source, source.quad⟩ (ofBox_eq_ok.mpr ⟨wide, high, rfl⟩)
    obtain ⟨_, _, third, _⟩ : _ ∧ _ ∧ _ ∧ _ := by simpa only [SendsCorners, Quad.corners, List.forall₂_cons] using held
    obtain ⟨right, below⟩ := Box.folded_eq_self_iff.mp (third _ (apply_congruent wide high source.quad.third))
    exact ⟨((le_add_iff_nonneg_right _).mp right).lt_of_ne' wide, ((le_add_iff_nonneg_right _).mp below).lt_of_ne' high⟩
  · rintro ⟨positiveWidth, positiveHeight⟩ target warp made
    have sent := sendsCorners_facing made
    rwa [Quad.facing_eq_self target positiveWidth positiveHeight] at sent

theorem sends_corners_iff_positive :
    let source : Box ℝ := ⟨1, 2, 4, 3⟩
    source.validate = .ok () ∧
      ∀ target warp, ofBox source target = .ok warp → warp.SendsCorners target := by
  intro source
  have usable : source.validate = .ok () := Box.validate_eq_ok.mpr ⟨by norm_num [source], by norm_num [source]⟩
  exact ⟨usable, (sends_corners_iff usable).2.mpr ⟨by norm_num [source], by norm_num [source]⟩⟩

/-- A box that reaches to the left of its origin, over itself: the corner on the left goes to the far right. -/
theorem not_forall_sends_corners : ¬∀ (source : Box ℝ) (target : Quad ℝ) (warp : Warp ℝ),
    ofBox source target = .ok warp → warp.SendsCorners target := by
  intro sent
  let source : Box ℝ := ⟨10, 0, -10, 10⟩
  have wide : source.width ≠ 0 := by norm_num [source]
  have high : source.height ≠ 0 := by norm_num [source]
  have held := sent source source.quad ⟨source, source.quad⟩ (ofBox_eq_ok.mpr ⟨wide, high, rfl⟩)
  obtain ⟨_, second, _⟩ : _ ∧ _ ∧ _ := by simpa only [SendsCorners, Quad.corners, List.forall₂_cons] using held
  have moved := second _ (apply_congruent wide high source.quad.second)
  norm_num [source, Box.quad, Box.folded] at moved

end Warp
end EnvelopeWarp
