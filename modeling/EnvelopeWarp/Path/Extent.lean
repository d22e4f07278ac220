import EnvelopeWarp.Path.Basic

/-! The smallest box around a path. Along each axis a curve reaches its extremes at its ends or
where its derivative vanishes; the derivative is consulted only when a control point lies outside
the span of the ends. -/

namespace EnvelopeWarp

/-- A cubic polynomial on the unit interval by its four control values. -/
structure Cubic (α : Type) where
  p0 : α
  p1 : α
  p2 : α
  p3 : α

namespace Cubic
variable {α : Type} [Scalar α]

def eval (c : Cubic α) (t : α) : α :=
  let t2 := t * t
  let t3 := t2 * t
  let u := Scalar.one - t
  let u2 := u * u
  let u3 := u2 * u
  c.p0 * u3 + c.p1 * Scalar.three * u2 * t + c.p2 * Scalar.three * u * t2 + c.p3 * t3

/-- The roots of `a * t ^ 2 + b * t + c` as far as they are single points, the smaller first. -/
def roots (a b c : α) : List α :=
  if Scalar.eq a Scalar.zero then
    if Scalar.eq b Scalar.zero then [] else [-c / b]
  else
    let discriminant := b * b - Scalar.four * a * c
    if Scalar.lt discriminant Scalar.zero then []
    else if Scalar.eq discriminant Scalar.zero then [-b / (Scalar.two * a)]
    else
      let root := Scalar.sqrt discriminant
      let first := (-b - root) / (Scalar.two * a)
      let second := (-b + root) / (Scalar.two * a)
      if Scalar.lt second first then [second, first] else [first, second]

/-- The places inside the interval where the derivative vanishes. -/
def extrema (c : Cubic α) : List α :=
  let a := Scalar.three * (c.p3 + Scalar.three * (c.p1 - c.p2) - c.p0)
  let b := Scalar.ofNat 6 * (c.p2 - Scalar.two * c.p1 + c.p0)
  let d := Scalar.three * (c.p1 - c.p0)
  (roots a b d).filter fun t => Scalar.lt Scalar.zero t && Scalar.lt t Scalar.one

/-- The best place so far and its value; a place with a better value replaces it. -/
def improve (better : α → α → Bool) (c : Cubic α) (best : α × α) (t : α) : α × α :=
  if better (c.eval t) best.2 then (t, c.eval t) else best

/-- The value at the best place among the ends and the extrema. -/
def extreme (better : α → α → Bool) (c : Cubic α) : α :=
  let ends := if better c.p3 c.p0 then (Scalar.one, c.p3) else (Scalar.zero, c.p0)
  c.eval ((c.extrema.foldl (improve better c) ends).1)

def minimum (c : Cubic α) : α :=
  c.extreme Scalar.lt

def maximum (c : Cubic α) : α :=
  c.extreme fun a b => Scalar.lt b a

/-- A control value lies outside the span of the ends. -/
def bulges (c : Cubic α) : Bool :=
  let low := Scalar.min c.p0 c.p3
  let high := Scalar.max c.p0 c.p3
  Scalar.lt c.p1 low || Scalar.lt high c.p1 || Scalar.lt c.p2 low || Scalar.lt high c.p2

end Cubic

/-- The interval covered so far along an axis. -/
structure Span (α : Type) where
  low : α
  high : α

namespace Span
variable {α : Type} [Scalar α]

def cover (span : Span α) (value : α) : Span α :=
  ⟨Scalar.min span.low value, Scalar.max span.high value⟩

def coverCubic (span : Span α) (c : Cubic α) : Span α :=
  let ended := span.cover c.p3
  if c.bulges then ⟨Scalar.min ended.low c.minimum, Scalar.max ended.high c.maximum⟩ else ended

end Span

/-- The intervals covered so far along both axes. -/
structure Extent (α : Type) where
  horizontal : Span α
  vertical : Span α

namespace Extent
variable {α : Type} [Scalar α]

def ofPoint (p : Point α) : Extent α :=
  ⟨⟨p.x, p.x⟩, ⟨p.y, p.y⟩⟩

def cover (extent : Extent α) (p : Point α) : Extent α :=
  ⟨extent.horizontal.cover p.x, extent.vertical.cover p.y⟩

def coverCurve (extent : Extent α) (curve : Curve α) : Extent α :=
  ⟨extent.horizontal.coverCubic ⟨curve.start.x, curve.first.x, curve.second.x, curve.finish.x⟩,
    extent.vertical.coverCubic ⟨curve.start.y, curve.first.y, curve.second.y, curve.finish.y⟩⟩

def coverSubpath (extent : Option (Extent α)) (subpath : Subpath α) : Option (Extent α) :=
  match subpath.nodes with
  | [] => extent
  | first :: _ =>
    let started := (extent.getD (ofPoint first.anchor)).cover first.anchor
    some (subpath.curves.foldl coverCurve started)

def box (extent : Extent α) : Box α :=
  Box.ofCorners extent.horizontal.low extent.vertical.low extent.horizontal.high extent.vertical.high

end Extent

/-- The smallest box around what is drawn; a path without nodes has none. -/
def Path.bounds {α : Type} [Scalar α] (path : Path α) : Option (Box α) :=
  (path.subpaths.foldl Extent.coverSubpath none).map Extent.box

end EnvelopeWarp
