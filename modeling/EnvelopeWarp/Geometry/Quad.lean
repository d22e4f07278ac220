import EnvelopeWarp.Geometry.Segment

/-! Quadrilaterals given by their corners in the order in which a path runs through them. -/

namespace EnvelopeWarp

structure Quad (α : Type) where
  first : Point α
  second : Point α
  third : Point α
  fourth : Point α

namespace Quad
variable {α : Type}

/-- The first four points; further ones are ignored. -/
def ofPoints? : List (Point α) → Option (Quad α)
  | a :: b :: c :: d :: _ => some ⟨a, b, c, d⟩
  | _ => none

def corners (quad : Quad α) : List (Point α) :=
  [quad.first, quad.second, quad.third, quad.fourth]

def top (quad : Quad α) : Segment α :=
  ⟨quad.first, quad.second⟩

def right (quad : Quad α) : Segment α :=
  ⟨quad.second, quad.third⟩

/-- Runs the same way as the top edge. -/
def bottom (quad : Quad α) : Segment α :=
  ⟨quad.fourth, quad.third⟩

/-- Runs the same way as the right edge. -/
def left (quad : Quad α) : Segment α :=
  ⟨quad.first, quad.fourth⟩

end Quad
end EnvelopeWarp
