import EnvelopeWarp.Drawing.Error
import EnvelopeWarp.Envelope.Measure
import EnvelopeWarp.Length
import EnvelopeWarp.Path.Reader

/-! Why an envelope could not be applied. -/

namespace EnvelopeWarp

inductive EnvelopeError (α : Type) where
  | selection
  | missingElement (id : String)
  | notPath (id tag : String)
  | missingPathData (id : String)
  | tooFewCorners (id : String) (found : Nat)
  | missingHeight
  | path (id : String) (error : PathError)
  | geometry (error : GeometryError α)
  | length (error : LengthError)
  | measure (error : MeasureError)
  | drawing (error : DrawingError)

namespace EnvelopeError

def message : EnvelopeError Float → String
  | selection => "Requires two selected paths. The second must be exactly four nodes long."
  | missingElement id => "No element with id '" ++ id ++ "'"
  | notPath id tag => "Element '" ++ id ++ "' is a <" ++ tag ++ ">, not a <path>"
  | missingPathData id => "Path '" ++ id ++ "' has no path data"
  | tooFewCorners id found =>
    "Control path '" ++ id ++ "' has " ++ toString found ++ " nodes, at least 4 are required"
  | missingHeight => "Document has no height attribute"
  | path id error => "Invalid path data in '" ++ id ++ "': " ++ error.message
  | geometry error => error.message
  | length error => error.message
  | measure error => error.message
  | drawing error => error.message

/-- What lies behind an error, the nearest first. Errors of the parts speak for themselves. -/
def causes {α : Type} : EnvelopeError α → List String
  | path _ error => [error.message]
  | measure error => error.causes
  | drawing error => error.causes
  | _ => []

/-- The selection is at fault, not the drawing or the system. -/
def isRejection {α : Type} : EnvelopeError α → Bool
  | selection => true
  | missingElement _ => true
  | notPath _ _ => true
  | tooFewCorners _ _ => true
  | _ => false

end EnvelopeError
end EnvelopeWarp
