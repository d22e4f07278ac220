import EnvelopeWarp.Geometry.Point
import EnvelopeWarp.Text.Match

/-! Boxes with sides along the axes, and the direction in which the frame they were measured in
counts its second coordinate. -/

namespace EnvelopeWarp

structure Box (α : Type) where
  x : α
  y : α
  width : α
  height : α

namespace Box
variable {α : Type} [Scalar α]

/-- The box between its least and its greatest corner. -/
def ofCorners (minX minY maxX maxY : α) : Box α :=
  ⟨minX, minY, maxX - minX, maxY - minY⟩

def origin (box : Box α) : Point α :=
  ⟨box.x, box.y⟩

/-- The same box with the second coordinate counted from the other edge of the document. -/
def flipped (box : Box α) (documentHeight : α) : Box α :=
  { box with y := documentHeight - box.y - box.height }

/-- One can divide by the extent. -/
def usable (extent : α) : Bool :=
  Scalar.finite extent && !Scalar.eq extent Scalar.zero

def validate (box : Box α) : Except (GeometryError α) Unit :=
  if usable box.width && usable box.height then .ok ()
  else .error (.degenerateBox box.width box.height)

def text (box : Box Float) : String :=
  plainText box.width ++ "x" ++ plainText box.height ++
    " at (" ++ plainText box.x ++ ", " ++ plainText box.y ++ ")"

end Box

inductive Orientation where
  | topDown
  | bottomUp
deriving Repr, DecidableEq

namespace Orientation

def name : Orientation → String
  | topDown => "top_down"
  | bottomUp => "bottom_up"

/-- The name in any case, with hyphens or underscores. -/
def parse? (text : String) : Option Orientation :=
  let spelled := text.map fun c => if c == '-' then '_' else c
  if Text.names "top_down" spelled then some topDown
  else if Text.names "bottom_up" spelled then some bottomUp
  else none

def unknownMessage (text : String) : String :=
  "Unknown axis orientation: " ++ text

/-- The frame of a document counts downwards. -/
def standard : Orientation :=
  topDown

end Orientation
end EnvelopeWarp
