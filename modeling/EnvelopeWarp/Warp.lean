import EnvelopeWarp.Geometry.Quad
import EnvelopeWarp.Path.Basic

/-! The warp of a box onto a quadrilateral. The position of a point in the box is measured along
both axes; the same ratios along opposite edges of the quadrilateral give two chords, and the point
goes where they cross. -/

namespace EnvelopeWarp

/-- A box that can be divided by, and the quadrilateral it is mapped to. -/
structure Warp (α : Type) where
  source : Box α
  target : Quad α

namespace Warp
variable {α : Type} [Scalar α]

def ofBox (source : Box α) (target : Quad α) : Except (GeometryError α) (Warp α) := do
  source.validate
  return ⟨source, target⟩

/-- Distances from the origin of the box in units of its extent, whatever the direction. -/
def ratios (warp : Warp α) (p : Point α) : Point α :=
  let way : Segment α := ⟨warp.source.origin, p⟩
  ⟨Scalar.abs way.deltaX / warp.source.width, Scalar.abs way.deltaY / warp.source.height⟩

/-- The chord from the top edge to the bottom edge. -/
def acrossX (warp : Warp α) (ratio : α) : Segment α :=
  ⟨warp.target.top.pointAt ratio, warp.target.bottom.pointAt ratio⟩

/-- The chord from the left edge to the right edge. -/
def acrossY (warp : Warp α) (ratio : α) : Segment α :=
  ⟨warp.target.left.pointAt ratio, warp.target.right.pointAt ratio⟩

def apply (warp : Warp α) (p : Point α) : Except (GeometryError α) (Point α) :=
  let ratio := warp.ratios p
  (warp.acrossY ratio.y).intersect (warp.acrossX ratio.x)

def applyPath (warp : Warp α) (path : Path α) : Except (GeometryError α) (Path α) :=
  path.mapPoints warp.apply

/-- Puts the image of a path in its place. A path that has none stays. -/
def replacePath (warp : Warp α) : ExceptT (GeometryError α) (StateM (Path α)) Unit := do
  let image ← warp.applyPath (← get)
  set image

end Warp
end EnvelopeWarp
