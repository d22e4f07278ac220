import EnvelopeWarp.Decimal.Layout
import EnvelopeWarp.Scalar.Basic

/-! Points of the plane, in user units, and what can go wrong between boxes, lines and points. -/

namespace EnvelopeWarp

structure Point (α : Type) where
  x : α
  y : α

namespace Point
variable {α : Type} [Scalar α]

instance : Add (Point α) where
  add p q := ⟨p.x + q.x, p.y + q.y⟩

instance : Sub (Point α) where
  sub p q := ⟨p.x - q.x, p.y - q.y⟩

def origin : Point α :=
  ⟨Scalar.zero, Scalar.zero⟩

def scale (p : Point α) (factor : α) : Point α :=
  ⟨p.x * factor, p.y * factor⟩

/-- Equal coordinates. -/
def same (p q : Point α) : Bool :=
  Scalar.eq p.x q.x && Scalar.eq p.y q.y

/-- Both coordinates differ by at most the tolerance. -/
def near (p q : Point α) (tolerance : α) : Bool :=
  Scalar.le (Scalar.abs (p.x - q.x)) tolerance && Scalar.le (Scalar.abs (p.y - q.y)) tolerance

def text (p : Point Float) : String :=
  "(" ++ plainText p.x ++ ", " ++ plainText p.y ++ ")"

end Point

inductive GeometryError (α : Type) where
  | degenerateBox (width height : α)
  | parallel
  | coincident

def GeometryError.message : GeometryError Float → String
  | degenerateBox width height =>
    "Degenerate source box: width " ++ plainText width ++ ", height " ++ plainText height
  | parallel => "Segments are parallel and do not intersect"
  | coincident => "Segments are coincident; intersection is not a single point"

end EnvelopeWarp
