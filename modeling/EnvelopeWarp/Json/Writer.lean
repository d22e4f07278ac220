import EnvelopeWarp.Data.Basic
import EnvelopeWarp.Decimal.Layout
import EnvelopeWarp.Json.Text

/-! Writing structured text, on one line or with a line for every part. Values for which there is no
notation are written as nothing. -/

namespace EnvelopeWarp
namespace Json

def wholeText (value : Int) : List Char :=
  signText (value < 0) ++ decimalDigits value.natAbs

def nothingText : List Char :=
  "null".toList

def flagText (value : Bool) : List Char :=
  if value then "true".toList else "false".toList

mutual

def compact : Data → List Char
  | .flag value => flagText value
  | .whole value => wholeText value
  | .real value => Layout.structured.text value
  | .text value => quote value.toList
  | .list items => '[' :: compactItems items ++ [']']
  | .record fields => '\x7b' :: compactFields fields ++ ['\x7d']
  | _ => nothingText

def compactItems : List Data → List Char
  | [] => []
  | [item] => compact item
  | item :: rest => compact item ++ ',' :: compactItems rest

def compactFields : List (String × Data) → List Char
  | [] => []
  | [(name, data)] => quote name.toList ++ ':' :: compact data
  | (name, data) :: rest => quote name.toList ++ ':' :: compact data ++ ',' :: compactFields rest

end

/-- The end of a line and the start of the next at a depth. -/
def newLine (depth : Nat) : List Char :=
  '\n' :: List.replicate (2 * depth) ' '

mutual

/-- Data at a depth; lists and records without parts take no lines. -/
def pretty (depth : Nat) : Data → List Char
  | .flag value => flagText value
  | .whole value => wholeText value
  | .real value => Layout.structured.text value
  | .text value => quote value.toList
  | .list [] => ['[', ']']
  | .list items => '[' :: prettyItems (depth + 1) items ++ newLine depth ++ [']']
  | .record [] => ['\x7b', '\x7d']
  | .record fields => '\x7b' :: prettyFields (depth + 1) fields ++ newLine depth ++ ['\x7d']
  | _ => nothingText

def prettyItems (depth : Nat) : List Data → List Char
  | [] => []
  | [item] => newLine depth ++ pretty depth item
  | item :: rest => newLine depth ++ pretty depth item ++ ',' :: prettyItems depth rest

def prettyFields (depth : Nat) : List (String × Data) → List Char
  | [] => []
  | [(name, data)] => newLine depth ++ quote name.toList ++ ':' :: ' ' :: pretty depth data
  | (name, data) :: rest =>
    newLine depth ++ quote name.toList ++ ':' :: ' ' :: pretty depth data ++
      ',' :: prettyFields depth rest

end

end Json
end EnvelopeWarp
