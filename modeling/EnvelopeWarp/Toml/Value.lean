import EnvelopeWarp.Toml.Scalar
import EnvelopeWarp.Toml.Table

/-! Keys and values in settings tables. Lists may run over several lines with comments in them;
tables within a line may not. -/

namespace EnvelopeWarp
namespace Toml

/-- Takes something off the front of a text. -/
abbrev Take (β : Type) : Type :=
  List Char → Option (β × List Char)

/-- Lists and tables may not be nested deeper than this, nor keys have more parts. -/
def depthLimit : Nat := 79

/-- The names on the way to an entry, and its own. -/
structure Key where
  outer : List String
  name : String
deriving Repr, DecidableEq

namespace Key

def path (key : Key) : List String :=
  key.outer ++ [key.name]

def isBareChar (c : Char) : Bool :=
  c.isAlphanum || c == '-' || c == '_'

def name? (text : List Char) : Option (List Char × List Char) :=
  match text with
  | '\x22' :: rest => basic? rest
  | '\x27' :: rest => literal? rest
  | _ =>
    if (text.takeWhile isBareChar).isEmpty then none
    else some (text.takeWhile isBareChar, text.dropWhile isBareChar)

/-- The names of a key with points between them and blanks around them. -/
def names? (text : List Char) : Option (Key × List Char) :=
  match name? (text.dropWhile isBlank) with
  | none => none
  | some (name, after) =>
    match after.dropWhile isBlank with
    | '.' :: rest =>
      if _shorter : rest.length < text.length then
        (names? rest).map fun found => (⟨String.ofList name :: found.1.outer, found.1.name⟩, found.2)
      else none
    | rest => some (⟨[], String.ofList name⟩, rest)
termination_by text.length

def take? (text : List Char) : Option (Key × List Char) :=
  (names? text).filter fun found => found.1.outer.length < depthLimit

end Key

theorem length_dropWhile_le (p : Char → Bool) (text : List Char) :
    (text.dropWhile p).length ≤ text.length :=
  (List.dropWhile_sublist p).length_le

/-- Drops blanks, line breaks and comments. -/
def skipTrivia (text : List Char) : List Char :=
  match text with
  | [] => []
  | c :: rest =>
    if isBlank c then skipTrivia rest
    else if c = '#' then skipTrivia (rest.dropWhile isPrinted)
    else
      match _line : newLine? (c :: rest) with
      | some after => skipTrivia after
      | none => c :: rest
termination_by text.length
decreasing_by
  · simp
  · exact Nat.lt_succ_of_le (length_dropWhile_le isPrinted rest)
  · exact newLine?_shorter _line

/-- The items of a list from behind its bracket or a comma on. -/
def items? (value : Take Data) (text : List Char) : Option (List Data × List Char) :=
  match skipTrivia text with
  | ']' :: rest => some ([], rest)
  | inner =>
    match value inner with
    | none => none
    | some (item, after) =>
      match skipTrivia after with
      | ']' :: rest => some ([item], rest)
      | ',' :: rest =>
        if _shorter : rest.length < text.length then
          (items? value rest).map fun found => (item :: found.1, found.2)
        else none
      | _ => none
termination_by text.length

/-- A key, an equals sign and a value. -/
def pair? (value : Take Data) (text : List Char) : Option ((Key × Data) × List Char) :=
  match Key.take? text with
  | some (key, '=' :: rest) =>
    (value (rest.dropWhile isBlank)).map fun found => ((key, found.1), found.2)
  | _ => none

/-- The entries of a table within a line from behind its bracket or a comma on. -/
def pairs? (value : Take Data) (text : List Char) : Option (List (Key × Data) × List Char) :=
  match pair? value text with
  | none => none
  | some (pair, after) =>
    match after.dropWhile isBlank with
    | '\x7d' :: rest => some ([pair], rest)
    | ',' :: rest =>
      if _shorter : rest.length < text.length then
        (pairs? value rest).map fun found => (pair :: found.1, found.2)
      else none
    | _ => none
termination_by text.length

/-- The table that entries within a line make up. -/
def inlineTable? (pairs : List (Key × Data)) : Option Data :=
  let entries : Option Entries :=
    pairs.foldlM (fun entries pair => Entries.insert pair.1.outer pair.1.name pair.2 entries) []
  entries.map fun entries => .record (entriesData entries)

def inline? (value : Take Data) (text : List Char) : Option (Data × List Char) :=
  match text.dropWhile isBlank with
  | '\x7d' :: rest => some (.record [], rest)
  | _ => do
    let found ← pairs? value text
    return (← inlineTable? found.1, found.2)

/-- A value in which lists and tables are nested at most so deep. -/
def value? : Nat → Take Data
  | 0, text => scalar? text
  | depth + 1, text =>
    match text with
    | '[' :: rest => (items? (value? depth) rest).map fun found => (.list found.1, found.2)
    | '\x7b' :: rest => inline? (value? depth) rest
    | _ => scalar? text

end Toml
end EnvelopeWarp
