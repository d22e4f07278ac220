import EnvelopeWarp.Proofs.ExactScalar
import EnvelopeWarp.Path.Arc

/-! Arcs by their centres, in exact numbers. In the frame of its ellipse, with the radii as units, an arc lies on the circle
around the centre with radius one. There half the chord decides everything: radii that do not reach are stretched until
half the chord has length one, the centre lies on one of the two points at distance one from both ends, and the ends are
seen from it in directions that depend on half the chord and the flags alone. -/

namespace EnvelopeWarp

namespace Ellipse
variable (e : Ellipse ℝ)

structure Proper : Prop where
  wide : 0 < e.radiusX
  high : 0 < e.radiusY
  turned : e.cosine ^ 2 + e.sine ^ 2 = 1

/-- A point in the frame of the ellipse: seen from the centre, turned back and with the radii as units. -/
noncomputable def framed (p : Point ℝ) : Point ℝ :=
  ⟨(e.cosine * (p.x - e.centre.x) + e.sine * (p.y - e.centre.y)) / e.radiusX,
    (-e.sine * (p.x - e.centre.x) + e.cosine * (p.y - e.centre.y)) / e.radiusY⟩

/-- The point lies on the ellipse. -/
def Carries (p : Point ℝ) : Prop :=
  (e.framed p).x ^ 2 + (e.framed p).y ^ 2 = 1

noncomputable def atAngle (angle : ℝ) : Point ℝ :=
  Arc.Ellipse.pointAt e (Real.cos angle) (Real.sin angle)

variable {e}

theorem framed_pointAt (proper : e.Proper) (x y : ℝ) : e.framed (Arc.Ellipse.pointAt e x y) = ⟨x, y⟩ := by
  have wide := proper.wide.ne'
  have high := proper.high.ne'
  simp only [framed, Arc.Ellipse.pointAt, Point.mk.injEq]
  constructor
  · rw [div_eq_iff wide]
    linear_combination e.radiusX * x * proper.turned
  · rw [div_eq_iff high]
    linear_combination e.radiusY * y * proper.turned

theorem pointAt_framed (proper : e.Proper) (p : Point ℝ) : Arc.Ellipse.pointAt e (e.framed p).x (e.framed p).y = p := by
  obtain ⟨x, y⟩ := p
  simp only [framed, Arc.Ellipse.pointAt, Point.mk.injEq, mul_assoc, mul_div_cancel₀ _ proper.wide.ne',
    mul_div_cancel₀ _ proper.high.ne']
  constructor
  · linear_combination (x - e.centre.x) * proper.turned
  · linear_combination (y - e.centre.y) * proper.turned

/-- Points are seen from a centre that is given by its way from another point, turned back. -/
theorem framed_of_centre (turned : e.cosine ^ 2 + e.sine ^ 2 = 1) (middle way : Point ℝ) (centre : e.centre =
      ⟨e.cosine * way.x - e.sine * way.y + middle.x, e.sine * way.x + e.cosine * way.y + middle.y⟩) (p : Point ℝ) :
    e.framed p = ⟨(e.cosine * (p.x - middle.x) + e.sine * (p.y - middle.y) - way.x) / e.radiusX,
      (-e.sine * (p.x - middle.x) + e.cosine * (p.y - middle.y) - way.y) / e.radiusY⟩ := by
  simp only [framed, centre, Point.mk.injEq]
  constructor
  · congr 1
    linear_combination -way.x * turned
  · congr 1
    linear_combination -way.y * turned

theorem framed_atAngle (proper : e.Proper) (angle : ℝ) : e.framed (e.atAngle angle) = ⟨Real.cos angle, Real.sin angle⟩ :=
  framed_pointAt proper _ _

theorem carries_atAngle (proper : e.Proper) (angle : ℝ) : e.Carries (e.atAngle angle) := by
  rw [Carries, framed_atAngle proper]
  exact Real.cos_sq_add_sin_sq angle

end Ellipse

namespace Arc

def squared (p : Point ℝ) : ℝ :=
  p.x * p.x + p.y * p.y

noncomputable def middle (start finish : Point ℝ) : Point ℝ :=
  ⟨(start.x + finish.x) / Scalar.two, (start.y + finish.y) / Scalar.two⟩

/-- A vector in the frame of an ellipse, with the radii as units. -/
noncomputable def inUnits (radii p : Point ℝ) : Point ℝ :=
  ⟨p.x / radii.x, p.y / radii.y⟩

/-- What the program divides by, for half a chord in the frame of the ellipse. -/
def spread (radii p : Point ℝ) : ℝ :=
  (radii.x * p.y) ^ 2 + (radii.y * p.x) ^ 2

private theorem spread_nonneg (radii p : Point ℝ) : 0 ≤ spread radii p :=
  add_nonneg (sq_nonneg _) (sq_nonneg _)

private theorem spread_eq {radii : Point ℝ} (wide : radii.x ≠ 0) (high : radii.y ≠ 0) (p : Point ℝ) :
    spread radii p = (radii.x * radii.y) ^ 2 * squared (inUnits radii p) := by
  simp only [spread, squared, inUnits]
  field_simp
  ring

section
variable (start finish radii : Point ℝ) (rotation : ℝ)

/-- Half the chord, turned into the frame of the ellipse. -/
noncomputable def chord : Point ℝ :=
  halfChord start finish (Real.cos (Scalar.radians rotation)) (Real.sin (Scalar.radians rotation))

/-- The factor that enlarges radii which do not reach. -/
noncomputable def stretch : ℝ :=
  max 1 √(squared (inUnits ⟨|radii.x|, |radii.y|⟩ (chord start finish rotation)))

/-- The radii that the arc is drawn with. -/
noncomputable def drawnRadii : Point ℝ :=
  ⟨|radii.x| * stretch start finish radii rotation, |radii.y| * stretch start finish radii rotation⟩

/-- Half the chord, with the radii that the arc is drawn with as units. -/
noncomputable def half : Point ℝ :=
  inUnits (drawnRadii start finish radii rotation) (chord start finish rotation)

/-- The arc counts as a straight line. -/
def Flat : Prop :=
  |radii.x| < Scalar.epsilon ∨ |radii.y| < Scalar.epsilon ∨
    spread (drawnRadii start finish radii rotation) (chord start finish rotation) < Scalar.epsilon

theorem one_le_stretch : 1 ≤ stretch start finish radii rotation :=
  le_max_left _ _

private theorem reachingRadii_eq : reachingRadii (chord start finish rotation) ⟨|radii.x|, |radii.y|⟩ =
    drawnRadii start finish radii rotation := by
  have lack : (chord start finish rotation).x * (chord start finish rotation).x / (|radii.x| * |radii.x|) +
      (chord start finish rotation).y * (chord start finish rotation).y / (|radii.y| * |radii.y|) =
      squared (inUnits ⟨|radii.x|, |radii.y|⟩ (chord start finish rotation)) := by
    rw [squared, inUnits, div_mul_div_comm, div_mul_div_comm]
  simp only [reachingRadii, lack, Scalar.lt_iff, Scalar.one_eq, Scalar.sqrt_eq, drawnRadii, stretch]
  split
  · next far => rw [max_eq_right (Real.one_le_sqrt.mpr far.le), Point.scale]
  · next near => rw [max_eq_left (Real.sqrt_le_one.mpr (not_lt.mp near)), mul_one, mul_one]

/-- To enlarge the radii is to shorten half the chord. -/
theorem squared_half : squared (half start finish radii rotation) =
    squared (inUnits ⟨|radii.x|, |radii.y|⟩ (chord start finish rotation)) / stretch start finish radii rotation ^ 2 := by
  simp only [half, drawnRadii, inUnits, squared, ← div_div]
  ring

theorem squared_half_le : squared (half start finish radii rotation) ≤ 1 := by
  have positive : 0 < stretch start finish radii rotation := one_pos.trans_le (one_le_stretch _ _ _ _)
  rw [squared_half, div_le_one (pow_pos positive 2), ← Real.sqrt_le_left positive.le]
  exact le_max_right 1 _

variable {start finish radii rotation}

/-- An arc that does not count as a straight line. -/
structure Curved (start finish radii : Point ℝ) (rotation : ℝ) : Prop where
  wide : 0 < (drawnRadii start finish radii rotation).x
  high : 0 < (drawnRadii start finish radii rotation).y
  long : 0 < squared (half start finish radii rotation)

theorem curved_of_not_flat (curved : ¬Flat start finish radii rotation) : Curved start finish radii rotation := by
  simp only [Flat, not_or, not_lt] at curved
  obtain ⟨wide, high, spreads⟩ := curved
  have stretched : 0 < stretch start finish radii rotation := one_pos.trans_le (one_le_stretch _ _ _ _)
  have x : 0 < (drawnRadii start finish radii rotation).x := mul_pos (Scalar.epsilon_pos.trans_le wide) stretched
  have y : 0 < (drawnRadii start finish radii rotation).y := mul_pos (Scalar.epsilon_pos.trans_le high) stretched
  refine ⟨x, y, ?_⟩
  have positive := Scalar.epsilon_pos.trans_le spreads
  rw [spread_eq x.ne' y.ne'] at positive
  exact pos_of_mul_pos_right positive (sq_nonneg _)

end

/-- How far the centre lies from the middle of the chord, in half chords and to the side that the flags ask for. -/
noncomputable def lift (half : Point ℝ) (large sweep : Bool) : ℝ :=
  (if large == sweep then -1 else 1) * √((1 - squared half) / squared half)

/-- Where the centre sees the start, with half the chord as `half` and its own place as `lift`. -/
def startSight (half : Point ℝ) (lift : ℝ) : Point ℝ :=
  ⟨half.x - lift * half.y, half.y + lift * half.x⟩

def finishSight (half : Point ℝ) (lift : ℝ) : Point ℝ :=
  ⟨-half.x - lift * half.y, -half.y + lift * half.x⟩

section
variable {radii p : Point ℝ} (wide : 0 < radii.x) (high : 0 < radii.y)
include wide high

/-- The quotient whose root is taken depends on half the chord alone. -/
theorem quotient_eq (reaches : squared (inUnits radii p) ≤ 1) :
    max (radii.x * radii.x * (radii.y * radii.y) - radii.x * radii.x * p.y * p.y - radii.y * radii.y * p.x * p.x) 0 /
      (radii.x * radii.x * p.y * p.y + radii.y * radii.y * p.x * p.x) =
    (1 - squared (inUnits radii p)) / squared (inUnits radii p) := by
  have area : 0 < (radii.x * radii.y) ^ 2 := pow_pos (mul_pos wide high) 2
  have below : radii.x * radii.x * p.y * p.y + radii.y * radii.y * p.x * p.x =
      (radii.x * radii.y) ^ 2 * squared (inUnits radii p) := by
    rw [← spread_eq wide.ne' high.ne', spread]
    ring
  have above : radii.x * radii.x * (radii.y * radii.y) - radii.x * radii.x * p.y * p.y - radii.y * radii.y * p.x * p.x =
      (radii.x * radii.y) ^ 2 * (1 - squared (inUnits radii p)) := by
    linear_combination -below
  rw [above, below, max_eq_left (mul_nonneg area.le (sub_nonneg.mpr reaches)), mul_div_mul_left _ _ area.ne']

private theorem sights_eq (k : ℝ) :
    (⟨(p.x - k * (radii.x * p.y / radii.y)) / radii.x, (p.y - k * (-radii.y * p.x / radii.x)) / radii.y⟩ : Point ℝ) =
      startSight (inUnits radii p) k ∧
    (⟨(-p.x - k * (radii.x * p.y / radii.y)) / radii.x, (-p.y - k * (-radii.y * p.x / radii.x)) / radii.y⟩ : Point ℝ) =
      finishSight (inUnits radii p) k := by
  simp only [startSight, finishSight, inUnits, Point.mk.injEq]
  refine ⟨⟨?_, ?_⟩, ?_, ?_⟩
  · field_simp
  · field_simp
    ring
  · field_simp
  · field_simp
    ring

end

section
variable (start finish radii : Point ℝ) (rotation : ℝ) (large sweep : Bool)

/-- The sweep of an arc, by half its chord. -/
noncomputable def sweepOf : Sweep ℝ :=
  let cosine := Real.cos (Scalar.radians rotation)
  let sine := Real.sin (Scalar.radians rotation)
  let r := drawnRadii start finish radii rotation
  let c := chord start finish rotation
  let h := half start finish radii rotation
  let k := lift h large sweep
  { ellipse :=
      { centre :=
          ⟨cosine * (k * (r.x * c.y / r.y)) - sine * (k * (-r.y * c.x / r.x)) + (start.x + finish.x) / Scalar.two,
            sine * (k * (r.x * c.y / r.y)) + cosine * (k * (-r.y * c.x / r.x)) + (start.y + finish.y) / Scalar.two⟩
        radiusX := r.x
        radiusY := r.y
        cosine := cosine
        sine := sine }
    start := angleBetween ⟨1, 0⟩ (startSight h k)
    turn := directedTurn sweep (angleBetween (startSight h k) (finishSight h k)) }

/-- An arc has a sweep unless it counts as a straight line. -/
theorem sweep?_cases : (Flat start finish radii rotation ∧ sweep? start finish radii rotation large sweep = none) ∨
    (¬Flat start finish radii rotation ∧
      sweep? start finish radii rotation large sweep = some (sweepOf start finish radii rotation large sweep)) := by
  have turned : halfChord start finish (Scalar.cos (Scalar.radians rotation)) (Scalar.sin (Scalar.radians rotation)) =
      chord start finish rotation := rfl
  have divisor (r c : Point ℝ) : |r.x * r.x * c.y * c.y + r.y * r.y * c.x * c.x| = spread r c := by
    rw [← abs_of_nonneg (spread_nonneg r c), spread]
    congr 1
    ring
  simp only [sweep?, Scalar.abs_eq, turned, reachingRadii_eq, divisor]
  by_cases narrow : |radii.x| < Scalar.epsilon ∨ |radii.y| < Scalar.epsilon
  · refine .inl ⟨narrow.elim .inl fun low => .inr (.inl low), if_pos ?_⟩
    simpa using narrow
  rw [if_neg (by simpa using narrow)]
  by_cases small : spread (drawnRadii start finish radii rotation) (chord start finish rotation) < Scalar.epsilon
  · exact .inl ⟨.inr (.inr small), if_pos (by simpa using small)⟩
  have bent : ¬Flat start finish radii rotation := by
    rintro (low | low | low)
    · exact narrow (.inl low)
    · exact narrow (.inr low)
    · exact small low
  obtain ⟨wide, high, _⟩ := curved_of_not_flat bent
  have reaches := squared_half_le start finish radii rotation
  refine .inr ⟨bent, ?_⟩
  rw [if_neg (by simpa using small)]
  simp only [Scalar.sqrt_eq, Scalar.max_eq, Scalar.zero_eq, Scalar.one_eq, quotient_eq wide high reaches,
    (sights_eq wide high _).1, (sights_eq wide high _).2]
  rfl

variable {start finish radii rotation} (curved : Curved start finish radii rotation)

section
variable (half : Point ℝ) (k : ℝ)

theorem squared_startSight : squared (startSight half k) = squared half * (1 + k ^ 2) := by
  simp only [squared, startSight]
  ring

theorem squared_finishSight : squared (finishSight half k) = squared half * (1 + k ^ 2) := by
  simp only [squared, finishSight]
  ring

end

theorem squared_lift {half : Point ℝ} (long : 0 < squared half) (reaches : squared half ≤ 1) :
    squared half * (1 + lift half large sweep ^ 2) = 1 := by
  have root : lift half large sweep ^ 2 = (1 - squared half) / squared half := by
    rw [lift, mul_pow, Real.sq_sqrt (div_nonneg (sub_nonneg.mpr reaches) long.le)]
    split <;> ring
  rw [root]
  field_simp
  ring

include curved

theorem proper_sweepOf : (sweepOf start finish radii rotation large sweep).ellipse.Proper :=
  ⟨curved.wide, curved.high, Real.cos_sq_add_sin_sq _⟩

/-- The centre sees both ends where it should. -/
theorem framed_sweepOf : (sweepOf start finish radii rotation large sweep).ellipse.framed start =
      startSight (half start finish radii rotation) (lift (half start finish radii rotation) large sweep) ∧
    (sweepOf start finish radii rotation large sweep).ellipse.framed finish =
      finishSight (half start finish radii rotation) (lift (half start finish radii rotation) large sweep) := by
  let r := drawnRadii start finish radii rotation
  let c := chord start finish rotation
  let k := lift (half start finish radii rotation) large sweep
  let e := (sweepOf start finish radii rotation large sweep).ellipse
  let m := middle start finish
  have seen := Ellipse.framed_of_centre (proper_sweepOf large sweep curved).turned m
    ⟨k * (r.x * c.y / r.y), k * (-r.y * c.x / r.x)⟩ rfl
  obtain ⟨first, last⟩ := sights_eq (p := c) curved.wide curved.high k
  have ahead : e.cosine * (start.x - m.x) + e.sine * (start.y - m.y) = c.x ∧
      -e.sine * (start.x - m.x) + e.cosine * (start.y - m.y) = c.y := by
    simp only [e, m, c, sweepOf, chord, halfChord, middle, Scalar.two_eq]
    constructor <;> ring
  have back : e.cosine * (finish.x - m.x) + e.sine * (finish.y - m.y) = -c.x ∧
      -e.sine * (finish.x - m.x) + e.cosine * (finish.y - m.y) = -c.y := by
    simp only [e, m, c, sweepOf, chord, halfChord, middle, Scalar.two_eq]
    constructor <;> ring
  rw [seen start, seen finish, ahead.1, ahead.2, back.1, back.2]
  exact ⟨first, last⟩

end
end Arc
end EnvelopeWarp
