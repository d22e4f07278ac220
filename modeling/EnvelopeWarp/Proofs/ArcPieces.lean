import EnvelopeWarp.Proofs.ArcCentres
import EnvelopeWarp.Proofs.CommandCourse

/-! What an arc draws, in exact numbers. The angle between the directions of its ends is less than half a turn to one side,
the side on which the centre lies decides to which, and the turn that is asked for goes on around the ellipse if it must.
So the arc starts and ends where it should, turns as it should, by more than half a turn exactly when the large arc is
asked for, and is cut at points of the ellipse into at most four pieces. -/

namespace EnvelopeWarp
open Real (pi)
namespace Arc

private theorem angleBetween_eq (u v : Point ℝ) :
    angleBetween u v = Complex.arg ⟨u.x * v.x + u.y * v.y, u.x * v.y - u.y * v.x⟩ :=
  rfl

/-- The angle between unit vectors, by its cosine and sine. -/
theorem cos_sin_angleBetween {u v : Point ℝ} (first : squared u = 1) (last : squared v = 1) :
    Real.cos (angleBetween u v) = u.x * v.x + u.y * v.y ∧ Real.sin (angleBetween u v) = u.x * v.y - u.y * v.x := by
  have unit : ‖(⟨u.x * v.x + u.y * v.y, u.x * v.y - u.y * v.x⟩ : ℂ)‖ = 1 := by
    rw [Complex.norm_def, Real.sqrt_eq_one, Complex.normSq_mk]
    simp only [squared] at first last
    linear_combination (v.x * v.x + v.y * v.y) * first + last
  have some_way : (⟨u.x * v.x + u.y * v.y, u.x * v.y - u.y * v.x⟩ : ℂ) ≠ 0 := norm_ne_zero_iff.mp (unit ▸ one_ne_zero)
  rw [angleBetween_eq, Complex.cos_arg some_way, Complex.sin_arg, unit, div_one, div_one]
  exact ⟨rfl, rfl⟩

section
variable (sweep : Bool) (t : ℝ)

private theorem directedTurn_true : directedTurn true t = if t < 0 then t + 2 * pi else t := by
  simp [directedTurn]

private theorem directedTurn_false : directedTurn false t = if 0 < t then t - 2 * pi else t := by
  simp [directedTurn]

/-- Another turn around leads to the same point. -/
theorem cos_sin_directedTurn : Real.cos (directedTurn sweep t) = Real.cos t ∧ Real.sin (directedTurn sweep t) = Real.sin t := by
  cases sweep
  · rw [directedTurn_false]
    split
    · exact ⟨Real.cos_sub_two_pi t, Real.sin_sub_two_pi t⟩
    · exact ⟨rfl, rfl⟩
  · rw [directedTurn_true]
    split
    · exact ⟨Real.cos_add_two_pi t, Real.sin_add_two_pi t⟩
    · exact ⟨rfl, rfl⟩

end

section
variable {sweep : Bool} {t : ℝ} (above : -pi < t) (below : t ≤ pi) (turns : t ≠ 0)
include above below turns

private theorem directedTurn_pos : 0 < directedTurn true t ∧ directedTurn true t < 2 * pi := by
  have half := Real.pi_pos
  rw [directedTurn_true]
  split
  · constructor <;> linarith
  · next ahead => exact ⟨lt_of_le_of_ne (not_lt.mp ahead) turns.symm, by linarith⟩

private theorem directedTurn_neg : directedTurn false t < 0 ∧ -(2 * pi) < directedTurn false t := by
  have half := Real.pi_pos
  rw [directedTurn_false]
  split
  · constructor <;> linarith
  · next back => exact ⟨lt_of_le_of_ne (not_lt.mp back) turns, by linarith⟩

private theorem abs_directedTurn_lt : |directedTurn sweep t| < 2 * pi := by
  cases sweep
  · obtain ⟨back, short⟩ := directedTurn_neg above below turns
    rw [abs_of_neg back]
    linarith
  · obtain ⟨ahead, short⟩ := directedTurn_pos above below turns
    rwa [abs_of_pos ahead]

/-- A turn goes on beyond half a turn exactly when the angle leads to the other side. -/
theorem pi_lt_abs_directedTurn (aside : t ≠ pi) : pi < |directedTurn sweep t| ↔ (0 < t ↔ sweep = false) := by
  have short : t < pi := lt_of_le_of_ne below aside
  cases sweep
  · obtain ⟨back, _⟩ := directedTurn_neg above below turns
    rw [abs_of_neg back, directedTurn_false]
    by_cases ahead : 0 < t
    · rw [if_pos ahead]
      exact iff_of_true (by linarith) (iff_of_true ahead rfl)
    · rw [if_neg ahead]
      exact iff_of_false (by linarith) fun same => ahead (same.mpr rfl)
  · obtain ⟨ahead, _⟩ := directedTurn_pos above below turns
    rw [abs_of_pos ahead, directedTurn_true]
    by_cases back : t < 0
    · rw [if_pos back]
      exact iff_of_true (by linarith) (iff_of_false back.not_gt nofun)
    · rw [if_neg back]
      exact iff_of_false short.not_gt fun same => nomatch same.mp (lt_of_le_of_ne (not_lt.mp back) turns.symm)

end

section
variable (half : Point ℝ) (k : ℝ)

private theorem dot_sights :
    (startSight half k).x * (finishSight half k).x + (startSight half k).y * (finishSight half k).y =
    squared half * (k ^ 2 - 1) := by
  simp only [startSight, finishSight, squared]
  ring

private theorem cross_sights :
    (startSight half k).x * (finishSight half k).y - (startSight half k).y * (finishSight half k).x =
    2 * squared half * k := by
  simp only [startSight, finishSight, squared]
  ring

variable {half k} (long : 0 < squared half)
include long

private theorem angleBetween_sights_ne_zero : angleBetween (startSight half k) (finishSight half k) ≠ 0 := by
  rw [angleBetween_eq, dot_sights, cross_sights, ne_eq, Complex.arg_eq_zero_iff]
  rintro ⟨ahead, level⟩
  have middle : k = 0 := (mul_eq_zero.mp level).resolve_left (mul_ne_zero two_ne_zero long.ne')
  rw [middle] at ahead
  simp only at ahead
  linarith

private theorem angleBetween_sights_ne_pi (aside : k ≠ 0) : angleBetween (startSight half k)
    (finishSight half k) ≠ pi := by
  rw [angleBetween_eq, dot_sights, cross_sights, ne_eq, Complex.arg_eq_pi_iff]
  rintro ⟨_, level⟩
  exact mul_ne_zero (mul_ne_zero two_ne_zero long.ne') aside level

private theorem angleBetween_sights_pos (aside : k ≠ 0) : 0 < angleBetween (startSight half k)
    (finishSight half k) ↔ 0 < k := by
  have turns := angleBetween_sights_ne_zero long (k := k)
  rw [lt_iff_le_and_ne, and_iff_left turns.symm, angleBetween_eq, dot_sights, cross_sights, Complex.arg_nonneg_iff]
  rw [mul_nonneg_iff_of_pos_left (mul_pos two_pos long), lt_iff_le_and_ne, and_iff_left aside.symm]

end

/-- The centre lies on the side that the flags ask for. -/
theorem lift_pos {half : Point ℝ} {large sweep : Bool} (aside : lift half large sweep ≠ 0) :
    0 < lift half large sweep ↔ large ≠ sweep := by
  have root : 0 < √((1 - squared half) / squared half) :=
    lt_of_le_of_ne (Real.sqrt_nonneg _) fun none => aside (by rw [lift, ← none, mul_zero])
  by_cases same : large = sweep
  · simp [lift, same, root.le]
  · simp [lift, same, root]

/-- The pieces end where equal turns lead, and the last one at the end point. -/
theorem piecesFrom_finish (e : Ellipse ℝ) (finish : Point ℝ) (step reach : ℝ) {count i : Nat} {angle : ℝ}
    {piece : ArcPiece ℝ}
    (listed : (piecesFrom e finish step reach count angle)[i]? = some piece) :
    piece.finish = if i + 1 = count then finish else e.atAngle (angle + (i + 1) * step) := by
  induction count generalizing i angle with
  | zero => cases listed
  | succ count ih =>
    cases i with
    | zero =>
      cases listed
      simp [Ellipse.atAngle]
    | succ i =>
      rw [ih listed]
      simp only [Nat.add_right_cancel_iff]
      congr 2
      push_cast
      ring

private theorem length_piecesFrom (e : Ellipse ℝ) (finish : Point ℝ) (step reach : ℝ) (count : Nat) (angle : ℝ) :
    (piecesFrom e finish step reach count angle).length = count := by
  induction count generalizing angle with
  | zero => rfl
  | succ count ih => exact congrArg (· + 1) (ih _)

theorem one_le_pieceCount (turn : ℝ) : 1 ≤ pieceCount turn :=
  Nat.le_max_left _ _

/-- Less than a full turn is cut into quarters. -/
theorem pieceCount_le_four {turn : ℝ} (short : |turn| < 2 * pi) : pieceCount turn ≤ 4 := by
  refine Nat.max_le.mpr ⟨by decide, ?_⟩
  rw [Scalar.ceil_eq, Nat.ceil_le]
  have quarters : |turn| / (pi / 2) ≤ 4 := by
    rw [div_le_iff₀ (by positivity)]
    linarith
  have slack : (0 : ℝ) ≤ Scalar.ofDecimal ⟨false, 1, -9⟩ := by
    norm_num [Scalar.ofDecimal]
  simp only [Scalar.abs_eq, Scalar.pi_eq, Scalar.two_eq]
  push_cast
  linarith

end Arc

/-- An arc runs from one point to another as the flags ask for. -/
structure Sweep.Joins (arc : Sweep ℝ) (start finish : Point ℝ) (large sweep : Bool) : Prop where
  proper : arc.ellipse.Proper
  starts : arc.ellipse.atAngle arc.start = start
  ends : arc.ellipse.atAngle (arc.start + arc.turn) = finish
  sense : if sweep then 0 < arc.turn else arc.turn < 0
  short : |arc.turn| < 2 * pi
  large : arc.ellipse.centre ≠ Arc.middle start finish → (pi < |arc.turn| ↔ large = true)

namespace Sweep.Joins
variable {arc : Sweep ℝ} {start finish : Point ℝ} {large sweep : Bool} (joins : arc.Joins start finish large sweep)
include joins

private theorem carries_start : arc.ellipse.Carries start := by
  rw [← joins.starts]
  exact Ellipse.carries_atAngle joins.proper _

private theorem carries_finish : arc.ellipse.Carries finish := by
  rw [← joins.ends]
  exact Ellipse.carries_atAngle joins.proper _

/-- Equal parts of the turn lead from piece to piece. -/
theorem junction {i : Nat} {piece : ArcPiece ℝ} (listed : (Arc.Sweep.pieces arc finish)[i]? = some piece) :
    piece.finish = arc.ellipse.atAngle (arc.start + (i + 1) * (arc.turn / (Arc.pieceCount arc.turn))) := by
  rw [Arc.piecesFrom_finish _ _ _ _ listed]
  split
  · next last =>
    have some_piece : (Arc.pieceCount arc.turn : ℝ) ≠ 0 :=
      Nat.cast_ne_zero.mpr (Nat.ne_of_gt (Arc.one_le_pieceCount arc.turn))
    have whole : ((i : ℝ) + 1) * (arc.turn / Arc.pieceCount arc.turn) = arc.turn := by
      rw [← Nat.cast_add_one, last, mul_div_cancel₀ _ some_piece]
    rw [whole, joins.ends]
  · rfl

end Sweep.Joins

namespace Arc
variable {start finish radii : Point ℝ} {rotation : ℝ} {large sweep : Bool}

theorem joins_sweepOf (curved : Curved start finish radii rotation) (large sweep : Bool) :
    (sweepOf start finish radii rotation large sweep).Joins start finish large sweep := by
  let h := half start finish radii rotation
  let k := lift h large sweep
  let t := angleBetween (startSight h k) (finishSight h k)
  have proper := proper_sweepOf large sweep curved
  obtain ⟨seen, seen_last⟩ := framed_sweepOf large sweep curved
  have unit := squared_lift large sweep curved.long (squared_half_le start finish radii rotation)
  have first : squared (startSight h k) = 1 := (squared_startSight h k).trans unit
  have last : squared (finishSight h k) = 1 := (squared_finishSight h k).trans unit
  have turns : t ≠ 0 := angleBetween_sights_ne_zero curved.long
  have above : -pi < t := Complex.neg_pi_lt_arg _
  have below : t ≤ pi := Complex.arg_le_pi _
  obtain ⟨cosine, sine⟩ := cos_sin_angleBetween (u := ⟨1, 0⟩) (by norm_num [squared]) first
  simp only [one_mul, zero_mul, add_zero, sub_zero] at cosine sine
  obtain ⟨cosine_turn, sine_turn⟩ := cos_sin_angleBetween first last
  obtain ⟨same_cosine, same_sine⟩ := cos_sin_directedTurn sweep t
  refine ⟨proper, ?_, ?_, ?_, abs_directedTurn_lt above below turns, fun aside => ?_⟩
  · refine Eq.trans ?_ (Ellipse.pointAt_framed proper start)
    rw [seen]
    exact congrArg₂ (Ellipse.pointAt _) cosine sine
  · refine Eq.trans ?_ (Ellipse.pointAt_framed proper finish)
    rw [seen_last]
    refine congrArg₂ (Ellipse.pointAt _) ?_ ?_
    · show Real.cos (angleBetween ⟨1, 0⟩ (startSight h k) + directedTurn sweep t) = (finishSight h k).x
      rw [Real.cos_add, cosine, sine, same_cosine, same_sine, cosine_turn, sine_turn]
      simp only [squared] at first
      linear_combination (finishSight h k).x * first
    · show Real.sin (angleBetween ⟨1, 0⟩ (startSight h k) + directedTurn sweep t) = (finishSight h k).y
      rw [Real.sin_add, cosine, sine, same_cosine, same_sine, cosine_turn, sine_turn]
      simp only [squared] at first
      linear_combination (finishSight h k).y * first
  · cases sweep
    · exact (directedTurn_neg above below turns).1
    · exact (directedTurn_pos above below turns).1
  · have lifted : k ≠ 0 := by
      intro level
      apply aside
      change lift (half start finish radii rotation) large sweep = 0 at level
      simp [sweepOf, middle, level]
    rw [← show directedTurn sweep t = (sweepOf start finish radii rotation large sweep).turn from rfl,
      pi_lt_abs_directedTurn above below turns (angleBetween_sights_ne_pi curved.long lifted),
      angleBetween_sights_pos curved.long lifted, lift_pos lifted]
    cases large <;> cases sweep <;> decide

/-- Ends that an ellipse carries are seen from its centre at distance one, so they are no further apart than two. -/
theorem squared_chord_le {e : Ellipse ℝ} (cosine : e.cosine = Real.cos (Scalar.radians rotation))
    (sine : e.sine = Real.sin (Scalar.radians rotation)) (at_start : e.Carries start) (at_finish : e.Carries finish) :
    squared (inUnits ⟨e.radiusX, e.radiusY⟩ (chord start finish rotation)) ≤ 1 := by
  let u := e.framed start
  let v := e.framed finish
  have apart : inUnits ⟨e.radiusX, e.radiusY⟩ (chord start finish rotation) = ⟨(u.x - v.x) / 2, (u.y - v.y) / 2⟩ := by
    simp only [inUnits, chord, halfChord, u, v, Ellipse.framed, cosine, sine, Scalar.two_eq, Point.mk.injEq]
    constructor <;> ring
  have first : u.x ^ 2 + u.y ^ 2 = 1 := at_start
  have last : v.x ^ 2 + v.y ^ 2 = 1 := at_finish
  rw [apart, squared]
  linarith [sq_nonneg (u.x + v.x), sq_nonneg (u.y + v.y)]

/-- The radii are enlarged only if no ellipse with them carries both ends. -/
theorem stretch_eq_one_iff (joins : (sweepOf start finish radii rotation large sweep).Joins start finish large sweep) :
    stretch start finish radii rotation = 1 ↔ ∃ e : Ellipse ℝ, e.radiusX = |radii.x| ∧ e.radiusY = |radii.y| ∧
      e.cosine = Real.cos (Scalar.radians rotation) ∧ e.sine = Real.sin (Scalar.radians rotation) ∧
      e.Carries start ∧ e.Carries finish := by
  constructor
  · intro same
    refine ⟨(sweepOf start finish radii rotation large sweep).ellipse, ?_, ?_, rfl, rfl, joins.carries_start,
      joins.carries_finish⟩
    · exact (congrArg (|radii.x| * ·) same).trans (mul_one _)
    · exact (congrArg (|radii.y| * ·) same).trans (mul_one _)
  · rintro ⟨e, wide, high, cosine, sine, at_start, at_finish⟩
    have reaches := squared_chord_le cosine sine at_start at_finish
    rw [wide, high] at reaches
    rw [stretch, max_eq_left_iff, Real.sqrt_le_one]
    exact reaches

/-- An arc that is drawn in pieces runs from its start to its end along an ellipse with the radii and the rotation that
are asked for, where only radii that do not reach are enlarged, and turns as the flags ask. -/
theorem pieces_elliptical {pieces : List (ArcPiece ℝ)}
    (found : pieces? start finish radii rotation large sweep = some pieces) :
    ∃ arc : Sweep ℝ, sweep? start finish radii rotation large sweep = some arc ∧
      arc.ellipse.cosine = Real.cos (Scalar.radians rotation) ∧ arc.ellipse.sine = Real.sin (Scalar.radians rotation) ∧
      (∃ factor ≥ 1, arc.ellipse.radiusX = |radii.x| * factor ∧ arc.ellipse.radiusY = |radii.y| * factor ∧
        (factor = 1 ↔ ∃ e : Ellipse ℝ, e.radiusX = |radii.x| ∧ e.radiusY = |radii.y| ∧
          e.cosine = Real.cos (Scalar.radians rotation) ∧ e.sine = Real.sin (Scalar.radians rotation) ∧
          e.Carries start ∧ e.Carries finish)) ∧
      arc.ellipse.Carries start ∧ arc.ellipse.Carries finish ∧
      arc.ellipse.atAngle arc.start = start ∧ arc.ellipse.atAngle (arc.start + arc.turn) = finish ∧
      (∀ piece ∈ pieces, arc.ellipse.Carries piece.finish) ∧
      (∃ before last, pieces = before ++ [last] ∧ last.finish = finish) ∧
      (if sweep then 0 < arc.turn else arc.turn < 0) ∧
      (arc.ellipse.centre ≠ middle start finish → (pi < |arc.turn| ↔ large = true)) ∧
      1 ≤ pieces.length ∧ pieces.length ≤ 4 := by
  have ended := pieces_end found
  obtain ⟨arc, swept, rfl⟩ := Option.map_eq_some_iff.mp found
  obtain ⟨_, none⟩ | ⟨bent, some⟩ := sweep?_cases start finish radii rotation large sweep
  · cases none.symm.trans swept
  cases some.symm.trans swept
  have joins := joins_sweepOf (curved_of_not_flat bent) large sweep
  refine ⟨_, swept, rfl, rfl, ⟨_, one_le_stretch start finish radii rotation, rfl, rfl, stretch_eq_one_iff joins⟩,
    joins.carries_start, joins.carries_finish, joins.starts, joins.ends, ?_, ended, joins.sense, joins.large, ?_⟩
  · intro piece listed
    obtain ⟨i, at_i⟩ := List.getElem?_of_mem listed
    rw [joins.junction at_i]
    exact Ellipse.carries_atAngle joins.proper _
  · rw [Sweep.pieces, length_piecesFrom]
    exact ⟨one_le_pieceCount _, pieceCount_le_four joins.short⟩

/-- The large arc around a centre that lies off the chord, along an ellipse that stands upright. -/
theorem pieces_elliptical_large : ∃ pieces arc,
    pieces? (⟨0, 0⟩ : Point ℝ) ⟨6, 0⟩ ⟨10, 5⟩ 90 true false = some pieces ∧
    sweep? (⟨0, 0⟩ : Point ℝ) ⟨6, 0⟩ ⟨10, 5⟩ 90 true false = some arc ∧ arc.ellipse.centre = ⟨3, 8⟩ ∧
    arc.ellipse.atAngle arc.start = ⟨0, 0⟩ ∧ arc.ellipse.atAngle (arc.start + arc.turn) = ⟨6, 0⟩ ∧
    arc.turn < 0 ∧ pi < |arc.turn| ∧ pieces.length ≤ 4 := by
  have quarter : Scalar.radians (90 : ℝ) = pi / 2 := by
    rw [Scalar.radians, Scalar.pi_eq, Scalar.ofNat_eq]
    ring
  have turned : chord (⟨0, 0⟩ : Point ℝ) ⟨6, 0⟩ 90 = ⟨0, 3⟩ := by
    simp only [chord, quarter, Real.cos_pi_div_two, Real.sin_pi_div_two, halfChord, Scalar.two_eq, Point.mk.injEq]
    norm_num
  have reaching : stretch (⟨0, 0⟩ : Point ℝ) ⟨6, 0⟩ ⟨10, 5⟩ 90 = 1 := by
    rw [stretch, turned, max_eq_left_iff, Real.sqrt_le_one]
    norm_num [squared, inUnits]
  have radii : drawnRadii (⟨0, 0⟩ : Point ℝ) ⟨6, 0⟩ ⟨10, 5⟩ 90 = ⟨10, 5⟩ := by
    simp [drawnRadii, reaching]
  have bent : ¬Flat (⟨0, 0⟩ : Point ℝ) ⟨6, 0⟩ ⟨10, 5⟩ 90 := by
    norm_num [Flat, radii, turned, spread]
  have aside : lift (half (⟨0, 0⟩ : Point ℝ) ⟨6, 0⟩ ⟨10, 5⟩ 90) true false = 4 / 3 := by
    have ratio : (1 - (3 / 5 * (3 / 5) : ℝ)) / (3 / 5 * (3 / 5)) = (4 / 3) ^ 2 := by norm_num
    have root : √((4 / 3 : ℝ) ^ 2) = 4 / 3 := Real.sqrt_sq (by norm_num)
    simp [lift, half, inUnits, squared, radii, turned, ratio, root]
  have centred : (sweepOf (⟨0, 0⟩ : Point ℝ) ⟨6, 0⟩ ⟨10, 5⟩ 90 true false).ellipse.centre = ⟨3, 8⟩ := by
    simp only [sweepOf, quarter, Real.cos_pi_div_two, Real.sin_pi_div_two, radii, turned, aside, Point.mk.injEq]
    norm_num
  have swept := (sweep?_cases (⟨0, 0⟩ : Point ℝ) ⟨6, 0⟩ ⟨10, 5⟩ 90 true false).resolve_left fun flat => bent flat.1
  have drawn : pieces? (⟨0, 0⟩ : Point ℝ) ⟨6, 0⟩ ⟨10, 5⟩ 90 true false = some _ := congrArg (Option.map _) swept.2
  obtain ⟨arc, found, _, _, _, _, _, starts, ends, _, _, sense, large, _, few⟩ := pieces_elliptical drawn
  cases swept.2.symm.trans found
  refine ⟨_, _, drawn, swept.2, centred, starts, ends, sense, (large ?_).mpr rfl, few⟩
  rw [centred]
  norm_num [middle]

end Arc
end EnvelopeWarp
