import EnvelopeWarp.Decimal.Double

/-! Data as settings files hold it, whatever they are written in. Values of known types are taken out
of such trees; what is not asked for may be anything. -/

namespace EnvelopeWarp

inductive Data where
  | nothing
  | flag (value : Bool)
  | whole (value : Int)
  | real (value : Float)
  | text (value : String)
  /-- A date or a time, which no setting holds. -/
  | moment
  | list (items : List Data)
  | record (fields : List (String × Data))
  /-- A value that is well written and stands for nothing. -/
  | void
deriving Inhabited

/-- The ways of writing data. -/
inductive Format where
  | json
  | toml
deriving Repr, DecidableEq

namespace Data

/-- The value of a field that may be missing and must not be repeated. -/
def single? (name : String) (fields : List (String × Data)) : Option (Option Data) :=
  match fields.filter fun field => field.1 == name with
  | [] => some none
  | [field] => some (some field.2)
  | _ => none

/-- Items by position, as long as they last. -/
def positions : List String → List Data → List (Option Data)
  | [], _ => []
  | _ :: names, [] => none :: positions names []
  | _ :: names, item :: items => some item :: positions names items

/-- Items beyond the last field are refused in one format and overlooked in the other. -/
def admits (format : Format) (names : List String) (items : List Data) : Bool :=
  match format with
  | .json => items.length ≤ names.length
  | .toml => true

/-- The values of the named fields. Fields may also be given as a list in the order of the names;
other fields do not matter. -/
def fields? (format : Format) (names : List String) : Data → Option (List (Option Data))
  | record fields => names.mapM fun name => single? name fields
  | list items => if admits format names items then some (positions names items) else none
  | moment => some (names.map fun _ => none)
  | _ => none

/-- What may stand beside a name that is written as the only field of a record. -/
def isUnit (format : Format) (content : Data) : Bool :=
  match format, content with
  | .json, nothing => true
  | .toml, list [] => true
  | .toml, record [] => true
  | _, _ => false

/-- A name out of a fixed set, which may also be the only field of a record. -/
def name? (format : Format) : Data → Option String
  | text name => some name
  | record [(name, content)] => if isUnit format content then some name else none
  | _ => none

def text? : Data → Option String
  | text value => some value
  | _ => none

def ofInt (value : Int) : Float :=
  Double.ofDecimal ⟨decide (value < 0), value.natAbs, 0⟩

def real? : Data → Option Float
  | whole value => some (ofInt value)
  | real value => some value
  | _ => none

def natural? : Data → Option Nat
  | whole value => if 0 ≤ value then some value.toNat else none
  | _ => none

/-- A value that may be given as nothing. -/
def optional? {β : Type} (read : Data → Option β) : Data → Option (Option β)
  | nothing => some none
  | data => (read data).map some

/-- A field that keeps a given value when it is missing. -/
def orKeep {β : Type} (read : Data → Option β) (kept : β) : Option Data → Option β
  | none => some kept
  | some data => read data

end Data
end EnvelopeWarp
