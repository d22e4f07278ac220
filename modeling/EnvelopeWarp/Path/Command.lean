import EnvelopeWarp.Geometry.Point

/-! The commands of path data. A relative command counts its points from the current one. -/

namespace EnvelopeWarp

inductive Command (α : Type) where
  | move (relative : Bool) (finish : Point α)
  | line (relative : Bool) (finish : Point α)
  | horizontal (relative : Bool) (x : α)
  | vertical (relative : Bool) (y : α)
  | cubic (relative : Bool) (first second finish : Point α)
  | smoothCubic (relative : Bool) (second finish : Point α)
  | quadratic (relative : Bool) (control finish : Point α)
  | smoothQuadratic (relative : Bool) (finish : Point α)
  | arc (relative : Bool) (radii : Point α) (rotation : α) (large sweep : Bool) (finish : Point α)
  | close

def Point.map {α β : Type} (f : α → β) (p : Point α) : Point β :=
  ⟨f p.x, f p.y⟩

/-- The same command with its numbers read in another way. -/
def Command.map {α β : Type} (f : α → β) : Command α → Command β
  | .move relative p => .move relative (p.map f)
  | .line relative p => .line relative (p.map f)
  | .horizontal relative x => .horizontal relative (f x)
  | .vertical relative y => .vertical relative (f y)
  | .cubic relative c d p => .cubic relative (c.map f) (d.map f) (p.map f)
  | .smoothCubic relative d p => .smoothCubic relative (d.map f) (p.map f)
  | .quadratic relative q p => .quadratic relative (q.map f) (p.map f)
  | .smoothQuadratic relative p => .smoothQuadratic relative (p.map f)
  | .arc relative radii rotation large sweep p =>
    .arc relative (radii.map f) (f rotation) large sweep (p.map f)
  | .close => .close

end EnvelopeWarp
