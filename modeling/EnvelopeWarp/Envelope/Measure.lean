import EnvelopeWarp.Host.Error
import EnvelopeWarp.Path.Extent

/-! Boxes of elements and where they come from. -/

namespace EnvelopeWarp

/-- A box and the frame it was measured in. -/
structure Measured (α : Type) where
  box : Box α
  orientation : Orientation

/-- The sides of a box that a program is asked for. -/
inductive Dimension where
  | x
  | y
  | width
  | height
deriving Repr, DecidableEq

def Dimension.name : Dimension → String
  | x => "x"
  | y => "y"
  | width => "width"
  | height => "height"

/-- Why an element could not be measured. -/
inductive MeasureError where
  | spawn (program : String) (error : SystemError)
  | status (program : String) (dimension : Dimension) (code : Nat) (words : String)
  | notNumber (dimension : Dimension) (output : String)
  | emptyGeometry (id : String)
  | missingFixedBox
deriving Repr, DecidableEq

def MeasureError.message : MeasureError → String
  | spawn program error => "Failed to run '" ++ program ++ "': " ++ error.message
  | status program dimension code words =>
    "'" ++ program ++ "' exited with exit status: " ++ toString code ++ " while querying " ++
      dimension.name ++ ": " ++ words
  | notNumber dimension output =>
    "Could not parse " ++ dimension.name ++ " from query output '" ++ output ++ "'"
  | emptyGeometry id => "Element '" ++ id ++ "' has no geometry to measure"
  | missingFixedBox => "No fixed bounding box configured"

def MeasureError.causes : MeasureError → List String
  | spawn _ error => [error.message]
  | _ => []

/-- Answers the box of an element, given its id and its path. -/
def Measure (m : Type → Type) (α : Type) : Type :=
  String → Path α → m (Except MeasureError (Measured α))

namespace Measure
variable {m : Type → Type} [Monad m] {α : Type}

/-- The box around what is drawn, in the frame of the path itself. -/
def geometry [Scalar α] : Measure m α := fun id path =>
  match path.bounds with
  | some box => pure (.ok ⟨box, .topDown⟩)
  | none => pure (.error (.emptyGeometry id))

/-- The same box for every element. -/
def fixed (measured : Measured α) : Measure m α := fun _ _ =>
  pure (.ok measured)

end Measure
end EnvelopeWarp
