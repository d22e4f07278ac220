import EnvelopeWarp.Pattern.Fault

/-! Showing a fault in a pattern. The pattern is written out with carets below the faulty places. A
pattern of several lines stands between dividers with its lines numbered, and places that are not in
one line are told in words. -/

namespace EnvelopeWarp
namespace Pattern

/-- The lines of a text. A break ends a line and does not start another; the carriage return before
it belongs to it. -/
def lines (text : List Char) : List (List Char) :=
  let pieces := text.splitOn '\n'
  let ended := pieces.dropLast.map fun line =>
    if line.getLast? = some '\r' then line.dropLast else line
  ended ++ (pieces.getLast?.filter fun line => !line.isEmpty).toList

/-- Carets below spans in a line from a column on. A span without characters has one caret too. -/
def carets : Nat → List Span → List Char
  | _, [] => []
  | column, span :: rest =>
    let width := max 1 (span.finish.column - span.start.column)
    List.replicate (span.start.column - column) ' ' ++ List.replicate width '^' ++
      carets (max column span.start.column + width) rest

/-- A number behind blanks, so that it ends in the given column. -/
def padded (width number : Nat) : List Char :=
  let digits := (toString number).toList
  List.replicate (width - digits.length) ' ' ++ digits

/-- What stands before a line: its number if there are several lines, for which there are so many
columns. -/
def margin (numberWidth number : Nat) : List Char :=
  if numberWidth = 0 then List.replicate 4 ' ' else padded numberWidth number ++ [':', ' ']

/-- The columns for the numbers of the lines; a line may begin at the very end of a text. -/
def numberWidth (text : List Char) : Nat :=
  let pieces := (text.splitOn '\n').length
  if pieces ≤ 1 then 0 else (toString pieces).length

/-- A line and, if anything in it is faulty, the carets below it. -/
def markedLine (numberWidth number : Nat) (marks : List Span) (line : List Char) : List (List Char) :=
  let before := margin numberWidth number
  match marks.filter fun span => span.isInOneLine && span.start.line == number with
  | [] => [before ++ line]
  | here => [before ++ line, List.replicate before.length ' ' ++ carets 1 here]

def markedLines (numberWidth : Nat) (marks : List Span) : Nat → List (List Char) → List (List Char)
  | _, [] => []
  | number, line :: rest =>
    markedLine numberWidth number marks line ++ markedLines numberWidth marks (number + 1) rest

def placeText (place : Place) : String :=
  "line " ++ toString place.line ++ " (column " ++ toString place.column ++ ")"

/-- A span in words; its last column is the one before its end. -/
def spanText (span : Span) : String :=
  "on " ++ placeText span.start ++ " through " ++
    placeText { span.finish with column := span.finish.column - 1 }

namespace Error

/-- The faulty places in the order of the text. -/
def marks (error : Error) : List Span :=
  error.earlier.toList ++ [error.span]

def report (error : Error) (text : List Char) : String :=
  let width := numberWidth text
  let shown := (markedLines width error.marks 1 (lines text)).map String.ofList
  let divider := String.ofList (List.replicate 79 '~')
  let framed := if width = 0 then shown else divider :: shown ++ [divider]
  let told := (error.marks.filter fun span => !span.isInOneLine).map spanText
  "\n".intercalate ("regex parse error:" :: framed ++ told ++ ["error: " ++ error.fault.message])

end Error
end Pattern
end EnvelopeWarp
