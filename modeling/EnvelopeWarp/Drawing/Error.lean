import EnvelopeWarp.Host.Error
import EnvelopeWarp.Markup.Scan

/-! Why a text is not a drawing, or a drawing cannot be changed or stored. -/

namespace EnvelopeWarp

inductive DrawingError where
  | markup (fault : MarkupFault)
  | reference (fault : ReferenceFault)
  | attributes (fault : AttributeFault)
  | missingRoot
  | unknownElement (id : String)
  | system (error : SystemError)
deriving Repr, DecidableEq

def DrawingError.message : DrawingError → String
  | markup fault => "XML error: " ++ fault.message
  | reference fault => "XML error: " ++ fault.message
  | attributes fault => "Attribute error: " ++ fault.message
  | missingRoot => "Document has no <svg> root element"
  | unknownElement id => "No element with id '" ++ id ++ "' to rewrite"
  | system error => "I/O error: " ++ error.message

/-- What lies behind an error, the nearest first. -/
def DrawingError.causes : DrawingError → List String
  | markup fault => [fault.message, fault.detail]
  | reference fault => fault.message :: fault.message :: fault.causes
  | attributes fault => [fault.message]
  | missingRoot => []
  | unknownElement _ => []
  | system error => [error.message]

end EnvelopeWarp
