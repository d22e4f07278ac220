import EnvelopeWarp.Geometry.Point

/-! Directed segments and the meeting point of the lines through them. -/

namespace EnvelopeWarp

structure Segment (α : Type) where
  start : Point α
  finish : Point α

namespace Segment
variable {α : Type} [Scalar α]

def deltaX (s : Segment α) : α :=
  s.finish.x - s.start.x

def deltaY (s : Segment α) : α :=
  s.finish.y - s.start.y

def length (s : Segment α) : α :=
  Scalar.hypot s.deltaX s.deltaY

/-- The point at a ratio of the way: the start at zero, the finish at one. -/
def pointAt (s : Segment α) (ratio : α) : Point α :=
  ⟨s.start.x + ratio * s.deltaX, s.start.y + ratio * s.deltaY⟩

/-- Both ends are the same point. -/
def degenerate (s : Segment α) : Bool :=
  s.start.same s.finish

/-- The cross product of the two directions. -/
def cross (a b : Segment α) : α :=
  b.deltaY * a.deltaX - b.deltaX * a.deltaY

/-- The cross product of the direction of `b` with the way from its start to that of `a`. -/
def offset (a b : Segment α) : α :=
  b.deltaX * (a.start.y - b.start.y) - b.deltaY * (a.start.x - b.start.x)

/-- The cross product of the direction of `a` with the same way. -/
def selfOffset (a b : Segment α) : α :=
  a.deltaX * (a.start.y - b.start.y) - a.deltaY * (a.start.x - b.start.x)

/-- Cross products this small, for segments of these lengths, count as zero. -/
def tolerance (a b : Segment α) : α :=
  Scalar.epsilon * a.length * b.length

/-- Where the lines through two segments meet, measured along the first. A segment without a
direction stands for its own point. -/
def intersect (a b : Segment α) : Except (GeometryError α) (Point α) :=
  if a.degenerate then .ok a.start
  else if b.degenerate then .ok b.start
  else if Scalar.le (Scalar.abs (a.cross b)) (a.tolerance b) then
    if Scalar.le (Scalar.abs (a.offset b)) (a.tolerance b)
        && Scalar.le (Scalar.abs (a.selfOffset b)) (a.tolerance b) then
      .error .coincident
    else .error .parallel
  else
    let u := a.offset b / a.cross b
    .ok ⟨a.start.x + u * a.deltaX, a.start.y + u * a.deltaY⟩

end Segment
end EnvelopeWarp
