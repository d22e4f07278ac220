import EnvelopeWarp.Decimal.Reading
import EnvelopeWarp.Envelope.Measure
import EnvelopeWarp.Host.Basic
import EnvelopeWarp.Scalar.Double
import EnvelopeWarp.Text.Blank

/-! Asking another program for the box of an element. It is run once for each side of the box and
answers with a number; the first answer that is none ends the queries. -/

namespace EnvelopeWarp

/-- Whom to ask, about which document, and the frame of the answers. -/
structure Query where
  program : String
  document : String
  orientation : Orientation
deriving Repr, DecidableEq

namespace Query

/-- The program measures in a frame that counts upwards. -/
def standard (program document : String) : Query :=
  ⟨program, document, .bottomUp⟩

def arguments (query : Query) (id : String) (dimension : Dimension) : List String :=
  ["--query-" ++ dimension.name, "--query-id=" ++ id, query.document]

/-- An answer is one finite number with blanks around it. -/
def readAnswer (dimension : Dimension) (output : String) : Except MeasureError Float :=
  match (readDouble? (Text.trim output.toList)).filter Scalar.finite with
  | some value => .ok value
  | none => .error (.notNumber dimension (Text.trimmed output))

def readExit (query : Query) (dimension : Dimension) :
    Except SystemError Exit → Except MeasureError Float
  | .error error => .error (.spawn query.program error)
  | .ok exit =>
    if exit.code = 0 then readAnswer dimension exit.output
    else .error (.status query.program dimension exit.code (Text.trimmed exit.complaints))

variable {m : Type → Type} [Monad m] [Host m]

def ask (query : Query) (id : String) (dimension : Dimension) : ExceptT MeasureError m Float :=
  ExceptT.mk do
    return query.readExit dimension (← Host.runProgram query.program (query.arguments id dimension))

def measure (query : Query) : Measure m Float := fun id _ => ExceptT.run do
  let x ← query.ask id .x
  let y ← query.ask id .y
  let width ← query.ask id .width
  let height ← query.ask id .height
  return ⟨⟨x, y, width, height⟩, query.orientation⟩

end Query
end EnvelopeWarp
