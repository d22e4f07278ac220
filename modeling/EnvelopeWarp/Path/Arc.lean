import EnvelopeWarp.Geometry.Point

/-! Elliptical arcs as cubic curves. An arc is given by its end points, so its centre is found
first: in the frame of the ellipse the half chord decides how far the centre lies from it. The
sweep is then cut into equal pieces of at most a quarter turn. -/

namespace EnvelopeWarp

/-- An ellipse with its rotation given by cosine and sine. -/
structure Ellipse (α : Type) where
  centre : Point α
  radiusX : α
  radiusY : α
  cosine : α
  sine : α

/-- The part of an ellipse that starts at one angle and turns by another. -/
structure Sweep (α : Type) where
  ellipse : Ellipse α
  start : α
  turn : α

/-- A piece of an arc: two handles and an end point. -/
structure ArcPiece (α : Type) where
  first : Point α
  second : Point α
  finish : Point α

namespace Arc
variable {α : Type} [Scalar α]

/-- The angle from one direction to another. -/
def angleBetween (u v : Point α) : α :=
  Scalar.atan2 (u.x * v.y - u.y * v.x) (u.x * v.x + u.y * v.y)

/-- The point of the unit circle in the frame of the ellipse, moved onto the ellipse. -/
def Ellipse.pointAt (e : Ellipse α) (x y : α) : Point α :=
  ⟨e.centre.x + e.cosine * e.radiusX * x - e.sine * e.radiusY * y,
    e.centre.y + e.sine * e.radiusX * x + e.cosine * e.radiusY * y⟩

/-- Half the chord, in the frame of the ellipse. -/
def halfChord (start finish : Point α) (cosine sine : α) : Point α :=
  let x := (start.x - finish.x) / Scalar.two
  let y := (start.y - finish.y) / Scalar.two
  ⟨cosine * x + sine * y, -sine * x + cosine * y⟩

/-- Radii too small to reach both end points are enlarged together. -/
def reachingRadii (chord radii : Point α) : Point α :=
  let lack := chord.x * chord.x / (radii.x * radii.x) + chord.y * chord.y / (radii.y * radii.y)
  if Scalar.lt Scalar.one lack then radii.scale (Scalar.sqrt lack) else radii

/-- The turn between two directions, in the direction that is asked for. -/
def directedTurn (sweep : Bool) (turn : α) : α :=
  if !sweep && Scalar.lt Scalar.zero turn then turn - Scalar.two * Scalar.pi
  else if sweep && Scalar.lt turn Scalar.zero then turn + Scalar.two * Scalar.pi
  else turn

/-- The sweep of an arc, unless the arc counts as a straight line. -/
def sweep? (start finish radii : Point α) (rotation : α) (large sweep : Bool) : Option (Sweep α) :=
  let given : Point α := ⟨Scalar.abs radii.x, Scalar.abs radii.y⟩
  if Scalar.lt given.x Scalar.epsilon || Scalar.lt given.y Scalar.epsilon then none
  else
    let sine := Scalar.sin (Scalar.radians rotation)
    let cosine := Scalar.cos (Scalar.radians rotation)
    let chord := halfChord start finish cosine sine
    let r := reachingRadii chord given
    let rx2 := r.x * r.x
    let ry2 := r.y * r.y
    let denominator := rx2 * chord.y * chord.y + ry2 * chord.x * chord.x
    if Scalar.lt (Scalar.abs denominator) Scalar.epsilon then none
    else
      let numerator :=
        Scalar.max (rx2 * ry2 - rx2 * chord.y * chord.y - ry2 * chord.x * chord.x) Scalar.zero
      let side : α := if large == sweep then -Scalar.one else Scalar.one
      let distance := side * Scalar.sqrt (numerator / denominator)
      let offset : Point α := ⟨distance * (r.x * chord.y / r.y), distance * (-r.y * chord.x / r.x)⟩
      let centre : Point α :=
        ⟨cosine * offset.x - sine * offset.y + (start.x + finish.x) / Scalar.two,
          sine * offset.x + cosine * offset.y + (start.y + finish.y) / Scalar.two⟩
      let u : Point α := ⟨(chord.x - offset.x) / r.x, (chord.y - offset.y) / r.y⟩
      let v : Point α := ⟨(-chord.x - offset.x) / r.x, (-chord.y - offset.y) / r.y⟩
      some ⟨⟨centre, r.x, r.y, cosine, sine⟩, angleBetween ⟨Scalar.one, Scalar.zero⟩ u,
        directedTurn sweep (angleBetween u v)⟩

/-- The number of pieces. The slack keeps a half turn at two pieces when it is rounded up. -/
def pieceCount (turn : α) : Nat :=
  Nat.max 1
    (Scalar.ceil (Scalar.abs turn / (Scalar.pi / Scalar.two) - Scalar.ofDecimal ⟨false, 1, -9⟩))

/-- Pieces of equal turn from an angle on. The last one ends exactly at the end point. -/
def piecesFrom (e : Ellipse α) (finish : Point α) (step reach : α) : Nat → α → List (ArcPiece α)
  | 0, _ => []
  | count + 1, angle =>
    let next := angle + step
    let s0 := Scalar.sin angle
    let c0 := Scalar.cos angle
    let s1 := Scalar.sin next
    let c1 := Scalar.cos next
    ⟨Ellipse.pointAt e (c0 - reach * s0) (s0 + reach * c0),
      Ellipse.pointAt e (c1 + reach * s1) (s1 - reach * c1),
      if count = 0 then finish else Ellipse.pointAt e c1 s1⟩ ::
        piecesFrom e finish step reach count next

def Sweep.pieces (arc : Sweep α) (finish : Point α) : List (ArcPiece α) :=
  let count := pieceCount arc.turn
  let step := arc.turn / Scalar.ofNat count
  let reach := Scalar.four / Scalar.three * Scalar.tan (step / Scalar.four)
  piecesFrom arc.ellipse finish step reach count arc.start

/-- The cubic curves of an arc, unless it counts as a straight line. -/
def pieces? (start finish radii : Point α) (rotation : α) (large sweep : Bool) :
    Option (List (ArcPiece α)) :=
  (sweep? start finish radii rotation large sweep).map fun arc => Sweep.pieces arc finish

end Arc
end EnvelopeWarp
