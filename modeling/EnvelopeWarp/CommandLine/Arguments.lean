import EnvelopeWarp.Settings.Basic
import EnvelopeWarp.Text.Digit

/-! The arguments of the program. Options with a long name take their value from the same word,
behind an equals sign, or from the next; the one with a short name may have it attached. The value
of an option is looked at when the next option or the document comes, or at the end. -/

namespace EnvelopeWarp

structure Arguments where
  ids : List String
  config : Option String
  bounds : Option BoundsSource
  inkscape : Option String
  precision : Option Nat
  output : Option String
  logFormat : Option LogFormat
  document : String
deriving Repr, DecidableEq

/-- Why the program does not run with its arguments. -/
inductive UsageError where
  | help
  | version
  | unknownArgument
  | noValue
  | badValue
  | repeated
  | needlessValue
  | missingDocument
deriving Repr, DecidableEq

/-- What a value can be given to. -/
inductive Slot where
  | id
  | config
  | bounds
  | inkscape
  | precision
  | output
  | logFormat
  | document
deriving Repr, DecidableEq

def Slot.ofLongName? : String → Option Slot
  | "id" => some .id
  | "config" => some .config
  | "bounds" => some .bounds
  | "inkscape" => some .inkscape
  | "precision" => some .precision
  | "output" => some .output
  | "log-format" => some .logFormat
  | _ => none

namespace Arguments

/-- The values that were accepted so far. -/
structure Draft where
  ids : List String
  config : Option String
  bounds : Option BoundsSource
  inkscape : Option String
  precision : Option Nat
  output : Option String
  logFormat : Option LogFormat
  document : Option String
deriving Repr, DecidableEq

namespace Draft

def empty : Draft :=
  ⟨[], none, none, none, none, none, none, none⟩

/-- The slot has its value. Any number of ids may be given. -/
def isTaken (draft : Draft) : Slot → Bool
  | .id => false
  | .config => draft.config.isSome
  | .bounds => draft.bounds.isSome
  | .inkscape => draft.inkscape.isSome
  | .precision => draft.precision.isSome
  | .output => draft.output.isSome
  | .logFormat => draft.logFormat.isSome
  | .document => draft.document.isSome

/-- The name of a file has at least one character. -/
def fileName (value : String) : Except UsageError String :=
  if value = "" then .error .noValue else .ok value

def valid {β : Type} : Option β → Except UsageError β
  | some value => .ok value
  | none => .error .badValue

def put (draft : Draft) (slot : Slot) (value : String) : Except UsageError Draft :=
  match slot with
  | .id => return { draft with ids := draft.ids ++ [value] }
  | .config => return { draft with config := some (← fileName value) }
  | .bounds => return { draft with bounds := some (← valid (BoundsSource.parse? value)) }
  | .inkscape => return { draft with inkscape := some value }
  | .precision => return { draft with precision := some (← valid (Text.count? value.toList)) }
  | .output => return { draft with output := some (← fileName value) }
  | .logFormat => return { draft with logFormat := some (← valid (LogFormat.parse? value)) }
  | .document => return { draft with document := some (← fileName value) }

/-- Gives a value to a slot. That it was given twice counts before what it is. -/
def give (draft : Draft) (slot : Slot) (value : Option String) : Except UsageError Draft :=
  match value with
  | none => .error .noValue
  | some value => if draft.isTaken slot then .error .repeated else draft.put slot value

def finish (draft : Draft) : Except UsageError Arguments :=
  match draft.document with
  | none => .error .missingDocument
  | some document => .ok ⟨draft.ids, draft.config, draft.bounds, draft.inkscape, draft.precision,
      draft.output, draft.logFormat, document⟩

end Draft

/-- A slot whose value is not looked at yet; an option may still wait for it. -/
structure Pending where
  slot : Slot
  value : Option String
deriving Repr, DecidableEq

structure State where
  draft : Draft
  pending : Option Pending
  /-- Two hyphens were seen, after which nothing is an option. -/
  ended : Bool
  /-- The document was seen. -/
  documented : Bool
deriving Repr, DecidableEq

namespace State

def start : State :=
  ⟨.empty, none, false, false⟩

/-- Looks at the value that is pending. -/
def settle (state : State) : Except UsageError State :=
  match state.pending with
  | none => .ok state
  | some pending => do
    return { state with draft := ← state.draft.give pending.slot pending.value, pending := none }

/-- An option with its value, or one that waits for it. -/
def option (state : State) (slot : Slot) (value : Option String) : Except UsageError State := do
  let settled ← state.settle
  match value with
  | some value => return { settled with draft := ← settled.draft.give slot (some value) }
  | none => return { settled with pending := some ⟨slot, none⟩ }

/-- An option that ends the program, once what came before it is in order. -/
def stop (state : State) (reason : UsageError) : Except UsageError State := do
  let _ ← state.settle
  throw reason

def positional (state : State) (word : String) : Except UsageError State :=
  if state.documented then .error .unknownArgument
  else do
    let settled ← state.settle
    return { settled with pending := some ⟨.document, some word⟩, documented := true }

/-- A word without hyphens goes to the option that waits for a value. -/
def plain (state : State) (word : String) : Except UsageError State :=
  match state.pending with
  | some ⟨slot, none⟩ => .ok { state with pending := some ⟨slot, some word⟩ }
  | _ => state.positional word

/-- A word with two hyphens, split at its first equals sign. -/
def long (state : State) (name : String) (value : Option String) : Except UsageError State :=
  match Slot.ofLongName? name with
  | some slot => state.option slot value
  | none =>
    if name = "help" ∨ name = "version" then
      if value.isSome then .error .needlessValue
      else state.stop (if name = "help" then .help else .version)
    else .error .unknownArgument

/-- The value that is attached to a short option, with an equals sign or without. -/
def attached : List Char → Option String
  | [] => none
  | '=' :: value => some (String.ofList value)
  | value => some (String.ofList value)

/-- A word with one hyphen. -/
def short (state : State) (letter : Char) (rest : List Char) : Except UsageError State :=
  match letter with
  | 'o' => state.option .output (attached rest)
  | 'h' => state.stop .help
  | 'V' => state.stop .version
  | _ => .error .unknownArgument

/-- The name and the value of a long option. -/
def splitLong (word : List Char) : String × Option String :=
  (String.ofList (word.takeWhile (· != '=')),
    match word.dropWhile (· != '=') with
    | [] => none
    | _ :: value => some (String.ofList value))

def step (state : State) (word : String) : Except UsageError State :=
  if state.ended then state.positional word
  else
    match word.toList with
    | ['-', '-'] => .ok { state with ended := true }
    | '-' :: '-' :: rest => state.long (splitLong rest).1 (splitLong rest).2
    | '-' :: letter :: rest => state.short letter rest
    | _ => state.plain word

end State

def parse (words : List String) : Except UsageError Arguments := do
  let state ← words.foldlM State.step State.start
  (← state.settle).draft.finish

end Arguments
end EnvelopeWarp
