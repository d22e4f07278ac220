import EnvelopeWarp.Drawing.Basic
import EnvelopeWarp.Host.Basic

/-! Writing drawings, and drawings in files. A drawing without changes is its source. Otherwise the events of the source are
written one after the other, and only the tags whose path data was replaced are written anew. -/

namespace EnvelopeWarp
namespace Drawing

/-- The attribute that holds path data. -/
def dataKey : List Char :=
  "d".toList

/-- The attributes with path data in the place of the old, or at the end. -/
def withData (data : List Char) (items : List Attribute) : List Attribute :=
  if items.any fun item => item.key == dataKey then
    items.map fun item => if item.key == dataKey then Attribute.ofValue dataKey data else item
  else items ++ [Attribute.ofValue dataKey data]

def tagWithData (data : List Char) (tag : Tag) : Except DrawingError Tag :=
  match tag.attributes.all with
  | .ok items => .ok (Tag.ofAttributes tag.name (withData data items))
  | .error fault => .error (.attributes fault)

/-- The path data to be written, by the places of the tags. -/
def edits (drawing : Drawing) : List (Nat × List Char) :=
  drawing.rewrites.map fun entry => (entry.1, entry.2.toList)

/-- An event whose tag, if it has one, stands at the given place. -/
def editEvent (edits : List (Nat × List Char)) (place : Nat) (event : Event) :
    Except DrawingError Event :=
  match event.tag?, edits.lookup place with
  | some tag, some data => do return event.withTag (← tagWithData data tag)
  | _, _ => .ok event

def editFrom (edits : List (Nat × List Char)) : Nat → List Event → Except DrawingError (List Event)
  | _, [] => .ok []
  | place, event :: rest => do
    let first ← editEvent edits place event
    let others ← editFrom edits (if event.tag?.isSome then place + 1 else place) rest
    return first :: others

/-- The events of a drawing with every change applied. -/
def events (drawing : Drawing) : Except DrawingError (List Event) :=
  match (Event.scan drawing.source.toList).all with
  | .ok found => editFrom drawing.edits 0 found
  | .error fault => .error (.markup fault)

def render (drawing : Drawing) : Except DrawingError String :=
  if drawing.isModified then do
    return String.ofList ((← drawing.events).flatMap Event.write)
  else .ok drawing.source

variable {m : Type → Type} [Monad m] [Host m]

def load (path : String) : m (Except DrawingError Drawing) := do
  match ← Host.readText path with
  | .error error => return .error (.system error)
  | .ok source => return parse source

def save (drawing : Drawing) (path : String) : m (Except DrawingError Unit) :=
  match drawing.render with
  | .error error => pure (.error error)
  | .ok text => do
    match ← Host.writeText path text with
    | .error error => return .error (.system error)
    | .ok _ => return .ok ()

end Drawing
end EnvelopeWarp

