import EnvelopeWarp.CommandLine.Arguments
import EnvelopeWarp.CommandLine.Failure
import EnvelopeWarp.Drawing.Render
import EnvelopeWarp.Envelope.Basic
import EnvelopeWarp.Envelope.Query

/-! Running the program with its arguments. When the selection cannot be used the drawing is written
all the same, as it was read, so whoever asked for the change still has a drawing. -/

namespace EnvelopeWarp

/-- How a run ends when nothing fails. -/
inductive Outcome where
  | applied (report : Report)
  | rejected (error : EnvelopeError Float)

namespace Arguments

/-- Arguments take precedence over what a file sets. -/
def override (arguments : Arguments) (settings : Settings) : Settings where
  bounds := { settings.bounds with
    source := arguments.bounds.getD settings.bounds.source
    program := arguments.inkscape.getD settings.bounds.program }
  precision := arguments.precision.or settings.precision
  logging := { settings.logging with
    format := arguments.logFormat.getD settings.logging.format }

/-- The settings of a file with the arguments in their place, if they can be used. -/
def overrideChecked (arguments : Arguments) (settings : Settings) : Except Failure Settings :=
  match (arguments.override settings).checked with
  | .ok settings => .ok settings
  | .error error => .error (.settings error)

def envelope (arguments : Arguments) (settings : Settings) : Envelope :=
  ⟨arguments.ids, settings.precision⟩

variable {m : Type → Type} [Monad m] [Host m]

/-- The settings of the given file, or else of the user. -/
def loadSettings (arguments : Arguments) : m (Except Failure Settings) :=
  match arguments.config with
  | some path => do
    match ← Settings.load path with
    | .error error => return .error (.config path error)
    | .ok settings => return arguments.overrideChecked settings
  | none => do
    match ← Settings.loadUser with
    | .error error => return .error (.settings error)
    | .ok settings => return arguments.overrideChecked settings

/-- How the object is measured. A fixed box is in the frame of the drawing. -/
def measure (arguments : Arguments) (settings : Settings) : Except MeasureError (Measure m Float) :=
  match settings.bounds.source with
  | .geometry => .ok Measure.geometry
  | .inkscape =>
    .ok (Query.measure ⟨settings.bounds.program, arguments.document, settings.bounds.orientation⟩)
  | .fixed =>
    match settings.bounds.fixed with
    | some box => .ok (Measure.fixed ⟨box, .topDown⟩)
    | none => .error .missingFixedBox

/-- Writes a drawing where the arguments say. -/
def writeDrawing (arguments : Arguments) (drawing : Drawing) : m (Except Failure Unit) :=
  match drawing.render with
  | .error error => pure (.error (.render error))
  | .ok text =>
    match arguments.output with
    | none => do
      Host.putOutput text
      return .ok ()
    | some path => do
      match ← Host.writeText path text with
      | .error error => return .error (.write path error)
      | .ok _ => return .ok ()

/-- Writes a drawing and ends with an outcome. -/
def conclude (arguments : Arguments) (drawing : Drawing) (outcome : Outcome) :
    m (Except Failure Outcome) := do
  match ← arguments.writeDrawing drawing with
  | .error failure => return .error failure
  | .ok _ => return .ok outcome

/-- Measures, warps and writes a drawing that was read. -/
def runOn (arguments : Arguments) (settings : Settings) (drawing : Drawing) :
    m (Except Failure Outcome) :=
  match arguments.measure settings with
  | .error error => pure (.error (.measure error))
  | .ok measure => do
    let result ← (arguments.envelope settings).run measure drawing
    match result.1 with
    | .ok report => arguments.conclude result.2 (.applied report)
    | .error error =>
      if error.isRejection then arguments.conclude result.2 (.rejected error)
      else return .error (.envelope error)

def run (arguments : Arguments) (settings : Settings) : m (Except Failure Outcome) := do
  match ← Drawing.load arguments.document with
  | .error error => return .error (.read arguments.document error)
  | .ok drawing => arguments.runOn settings drawing

end Arguments
end EnvelopeWarp
