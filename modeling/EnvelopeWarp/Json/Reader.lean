import EnvelopeWarp.Json.Token

/-! Reading structured text. Tokens are taken one by one into the lists and records that are still
open, so no token is looked at twice and the depth of the data is bounded only by its length. -/

namespace EnvelopeWarp
namespace Json

/-- A field with its name, which may stand for nothing. -/
abbrev Field : Type :=
  Option String × Data

/-- A list or a record that is not closed yet; the latest part comes first. -/
inductive Frame where
  | items (before : List Data)
  | fields (before : List Field) (name : Option String)

/-- What was read, and what may come next. -/
inductive State where
  /-- A value. -/
  | wantsValue (outer : List Frame)
  /-- The first value of a list or its end. -/
  | firstItem (outer : List Frame)
  /-- The first name of a record or its end. -/
  | firstName (outer : List Frame)
  | wantsName (before : List Field) (outer : List Frame)
  | wantsColon (before : List Field) (name : Option String) (outer : List Frame)
  /-- More items or the end of the list. -/
  | moreItems (before : List Data) (outer : List Frame)
  /-- More fields or the end of the record. -/
  | moreFields (before : List Field) (outer : List Frame)
  | done (data : Data)

namespace State

/-- A value has been read. -/
def put (data : Data) : List Frame → State
  | [] => done data
  | .items before :: outer => moreItems (data :: before) outer
  | .fields before name :: outer => moreFields ((name, data) :: before) outer

def textData (pieces : List Piece) : Data :=
  match characters? pieces with
  | some characters => .text (String.ofList characters)
  | none => .void

def nameOf (pieces : List Piece) : Option String :=
  (characters? pieces).map String.ofList

/-- A record in which some name stands for nothing stands for nothing. -/
def recordData (before : List Field) : Data :=
  match before.reverse.mapM fun field => field.1.map fun name => (name, field.2) with
  | some fields => .record fields
  | none => .void

/-- A value starts. -/
def start (outer : List Frame) : Token → Option State
  | .openList => some (firstItem outer)
  | .openRecord => some (firstName outer)
  | .nothing => some (put .nothing outer)
  | .flag value => some (put (.flag value) outer)
  | .number literal => some (put (Json.number literal) outer)
  | .text pieces => some (put (textData pieces) outer)
  | _ => none

def step (state : State) (token : Token) : Option State :=
  match state, token with
  | wantsValue outer, _ => start outer token
  | firstItem outer, .closeList => some (put (.list []) outer)
  | firstItem outer, _ => start (.items [] :: outer) token
  | firstName outer, .closeRecord => some (put (.record []) outer)
  | firstName outer, .text pieces => some (wantsColon [] (nameOf pieces) outer)
  | wantsName before outer, .text pieces => some (wantsColon before (nameOf pieces) outer)
  | wantsColon before name outer, .colon => some (wantsValue (.fields before name :: outer))
  | moreItems before outer, .comma => some (wantsValue (.items before :: outer))
  | moreItems before outer, .closeList => some (put (.list before.reverse) outer)
  | moreFields before outer, .comma => some (wantsName before outer)
  | moreFields before outer, .closeRecord => some (put (recordData before) outer)
  | _, _ => none

end State

/-- The data that a text holds, with nothing before or after it. -/
def read? (text : List Char) : Option Data := do
  match ← (← Token.all? text).foldlM State.step (.wantsValue []) with
  | .done data => return data
  | _ => none

end Json
end EnvelopeWarp
