import EnvelopeWarp.Toml.Value

/-! Reading settings tables line by line. A header opens the table that the entries after it go
into. -/

namespace EnvelopeWarp
namespace Toml

inductive Statement where
  | table (key : Key)
  | tables (key : Key)
  | entry (key : Key) (data : Data)

/-- A comment may stand at the end of a line. -/
def skipComment (text : List Char) : List Char :=
  match text.dropWhile isBlank with
  | '#' :: rest => rest.dropWhile isPrinted
  | rest => rest

/-- What follows the end of a line. -/
def lineEnd? (text : List Char) : Option (List Char) :=
  match skipComment text with
  | [] => some []
  | rest => newLine? rest

/-- A header from behind its first bracket on. -/
def header? (text : List Char) : Option (Statement × List Char) :=
  match text with
  | '[' :: rest =>
    match Key.take? rest with
    | some (key, ']' :: ']' :: after) => some (.tables key, after)
    | _ => none
  | _ =>
    match Key.take? text with
    | some (key, ']' :: after) => some (.table key, after)
    | _ => none

def entry? (text : List Char) : Option (Statement × List Char) :=
  (pair? (value? depthLimit) text).map fun found => (.entry found.1.1 found.1.2, found.2)

def statement? (text : List Char) : Option (Statement × List Char) :=
  match text with
  | '[' :: rest => header? rest
  | _ => entry? text

/-- The statements of a text, each on a line of its own. -/
def statements? (text : List Char) : Option (List Statement) :=
  match text.dropWhile isBlank with
  | [] => some []
  | c :: rest =>
    if c == '#' || c == '\n' || c == '\r' then
      match lineEnd? (c :: rest) with
      | none => none
      | some after => if _shorter : after.length < text.length then statements? after else none
    else
      match statement? (c :: rest) with
      | none => none
      | some (found, tail) =>
        match lineEnd? tail with
        | none => none
        | some after =>
          if _shorter : after.length < text.length then (statements? after).map (found :: ·) else none
termination_by text.length

/-- The tables so far and the path to the one that is open. -/
structure Sheet where
  entries : Entries
  current : List String

namespace Sheet

def add (sheet : Sheet) : Statement → Option Sheet
  | .table key =>
    (Entries.under key.outer (Entries.openTable key.name) sheet.entries).map fun entries =>
      ⟨entries, key.path⟩
  | .tables key =>
    (Entries.under key.outer (Entries.addTable key.name) sheet.entries).map fun entries =>
      ⟨entries, key.path⟩
  | .entry key data =>
    (Entries.under sheet.current (Entries.insert key.outer key.name data) sheet.entries).map
      fun entries => { sheet with entries }

end Sheet

/-- A mark of the byte order at the start is no part of the text. -/
def dropOrderMark : List Char → List Char
  | c :: rest => if c = '\ufeff' then rest else c :: rest
  | [] => []

/-- The record that a text holds. -/
def read? (text : List Char) : Option Data := do
  let sheet ← (← statements? (dropOrderMark text)).foldlM Sheet.add ⟨[], []⟩
  return .record (entriesData sheet.entries)

end Toml
end EnvelopeWarp
