import EnvelopeWarp.Drawing.Basic
import EnvelopeWarp.Envelope.Error
import EnvelopeWarp.Path.Text
import EnvelopeWarp.Scalar.Double
import EnvelopeWarp.Warp

/-! The envelope. The first selected path is warped so that its box lands on the quadrilateral of
the first four nodes of the second. All checks come before the drawing is changed. -/

namespace EnvelopeWarp

/-- What is selected, the object first and then the control path, and how many digits are written
after the point. -/
structure Envelope where
  selection : List String
  precision : Option Nat
deriving Repr, DecidableEq

/-- The object and the quadrilateral it is to be fitted to. -/
structure Fitting (α : Type) where
  object : String
  control : String
  target : Quad α
  path : Path α

/-- A path that was fitted to a quadrilateral. -/
structure Fitted (α : Type) where
  object : String
  control : String
  source : Box α
  target : Quad α
  path : Path α

/-- An account of an envelope that was applied. -/
structure Report where
  object : String
  control : String
  source : Box Float
  target : Quad Float
  nodes : Nat

namespace Envelope
variable {α : Type}

/-- The data of the path with an id. -/
def pathData (drawing : Drawing) (id : String) : Except (EnvelopeError α) String :=
  match drawing.element? id with
  | none => .error (.missingElement id)
  | some element =>
    if element.isPath then
      match element.pathData with
      | some data => .ok data
      | none => .error (.missingPathData id)
    else .error (.notPath id element.tag)

variable [Scalar α]

def parsePath (id data : String) : Except (EnvelopeError α) (Path α) :=
  match Path.parse data with
  | .ok path => .ok path
  | .error error => .error (.path id error)

/-- The corners of a control path. -/
def corners (id : String) (path : Path α) : Except (EnvelopeError α) (Quad α) :=
  match Quad.ofPoints? path.anchors with
  | some quad => .ok quad
  | none => .error (.tooFewCorners id path.anchors.length)

/-- Everything that can be known before the object is measured. -/
def prepare (drawing : Drawing) : List String → Except (EnvelopeError α) (Fitting α)
  | object :: control :: _ => do
    let objectData ← pathData drawing object
    let controlData ← pathData drawing control
    let target ← corners control (← parsePath control controlData)
    let path ← parsePath object objectData
    return ⟨object, control, target, path⟩
  | _ => .error .selection

/-- The box in the frame of the drawing. -/
def sourceBox (drawing : Drawing) (measured : Measured α) : Except (EnvelopeError α) (Box α) :=
  match measured.orientation with
  | .topDown => .ok measured.box
  | .bottomUp =>
    match drawing.height with
    | none => .error .missingHeight
    | some height =>
      match Length.parse height with
      | .ok length => .ok (measured.box.flipped length.userUnits)
      | .error error => .error (.length error)

def warpPath (source : Box α) (fitting : Fitting α) : Except (EnvelopeError α) (Path α) :=
  match Warp.ofBox source fitting.target with
  | .error error => .error (.geometry error)
  | .ok warp =>
    match warp.applyPath fitting.path with
    | .ok path => .ok path
    | .error error => .error (.geometry error)

def finish (drawing : Drawing) (fitting : Fitting α) :
    Except MeasureError (Measured α) → Except (EnvelopeError α) (Fitted α)
  | .error error => .error (.measure error)
  | .ok measured => do
    let source ← sourceBox drawing measured
    let path ← warpPath source fitting
    return ⟨fitting.object, fitting.control, source, fitting.target, path⟩

/-- Fits the object of a selection to its control path. -/
def fit {m : Type → Type} [Monad m] (measure : Measure m α) (selection : List String)
    (drawing : Drawing) : m (Except (EnvelopeError α) (Fitted α)) :=
  match prepare drawing selection with
  | .error error => pure (.error error)
  | .ok fitting => do
    let measured ← measure fitting.object fitting.path
    return finish drawing fitting measured

def report (fitted : Fitted Float) : Report :=
  ⟨fitted.object, fitted.control, fitted.source, fitted.target, fitted.path.nodeCount⟩

/-- Puts a fitted path into the drawing, which stays as it was after an error. -/
def install (envelope : Envelope) (drawing : Drawing) :
    Except (EnvelopeError Float) (Fitted Float) → Except (EnvelopeError Float) Report × Drawing
  | .error error => (.error error, drawing)
  | .ok fitted =>
    match drawing.setPathData fitted.object (fitted.path.data envelope.precision) with
    | .ok changed => (.ok (report fitted), changed)
    | .error error => (.error (.drawing error), drawing)

/-- Applies the envelope to a drawing. -/
def run {m : Type → Type} [Monad m] (envelope : Envelope) (measure : Measure m Float)
    (drawing : Drawing) : m (Except (EnvelopeError Float) Report × Drawing) := do
  let fitted ← fit measure envelope.selection drawing
  return envelope.install drawing fitted

end Envelope
end EnvelopeWarp
