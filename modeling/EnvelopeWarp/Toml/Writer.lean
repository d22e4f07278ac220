import EnvelopeWarp.Data.Basic
import EnvelopeWarp.Decimal.Layout

/-! Writing settings tables: sections with a header and one entry a line. Texts are written in the
first of several notations that can hold them as they are. -/

namespace EnvelopeWarp
namespace Toml

/-- A control character that is neither a tab nor a line break. -/
def isControl (c : Char) : Bool :=
  (c.toNat < 0x20 && c != '\t' && c != '\n') || c.toNat == 0x7f

/-- The length of the longest run of a character, given the length of the run that is open. -/
def longestRun (c : Char) : Nat → List Char → Nat
  | run, [] => run
  | run, d :: rest => if d = c then longestRun c (run + 1) rest else max run (longestRun c 0 rest)

/-- The notations of a text, on one line or as a block of lines, with escapes or without. -/
inductive Quoting where
  | basic
  | literal
  | block
  | literalBlock
deriving Repr, DecidableEq

namespace Quoting

/-- The first notation that can hold a text without escapes, tabs apart. If there is none, escapes
are needed. -/
def ofText (text : List Char) : Quoting :=
  let lines := text.contains '\n'
  let control := text.any isControl
  let escaped := control || text.contains '\x5c'
  let double := longestRun '\x22' 0 text
  let single := longestRun '\x27' 0 text
  if !escaped && double = 0 && !lines then basic
  else if !control && single = 0 && !lines then literal
  else if !escaped && double ≤ 2 then block
  else if !control && single ≤ 2 then literalBlock
  else if lines then block
  else basic

def mark : Quoting → List Char
  | basic => "\x22".toList
  | literal => "'".toList
  | block => "\x22\x22\x22".toList
  | literalBlock => "'''".toList

end Quoting

/-- Four upper-case hexadecimal digits of a number below `16 ^ 4`. -/
def codeDigits (value : Nat) : List Char :=
  let digits := (Nat.toDigits 16 value).map Char.toUpper
  List.replicate (4 - digits.length) '0' ++ digits

/-- The escape of a character, for those that need one wherever they stand. -/
def escapeOf? (c : Char) : Option (List Char) :=
  match c with
  | '\x08' => some ['\x5c', 'b']
  | '\t' => some ['\x5c', 't']
  | '\x0c' => some ['\x5c', 'f']
  | '\r' => some ['\x5c', 'r']
  | '\x5c' => some ['\x5c', '\x5c']
  | c => if isControl c then some ('\x5c' :: 'u' :: codeDigits c.toNat) else none

/-- A text with escapes, after a run of double quotes. In a block line breaks are kept, and so are
two double quotes in a row. -/
def escapeFrom (inBlock : Bool) : Nat → List Char → List Char
  | _, [] => []
  | run, c :: rest =>
    if c = '\x22' then
      if inBlock ∧ run < 2 then c :: escapeFrom inBlock (run + 1) rest
      else '\x5c' :: c :: escapeFrom inBlock 0 rest
    else if c = '\n' then
      if inBlock then c :: escapeFrom inBlock 0 rest else '\x5c' :: 'n' :: escapeFrom inBlock 0 rest
    else (escapeOf? c).getD [c] ++ escapeFrom inBlock 0 rest

/-- A text between the marks of a notation. A block with several lines starts on a new one. -/
def quoteAs (quoting : Quoting) (text : List Char) : List Char :=
  let lead := if text.contains '\n' then ['\n'] else []
  match quoting with
  | .basic => quoting.mark ++ escapeFrom false 0 text ++ quoting.mark
  | .literal => quoting.mark ++ text ++ quoting.mark
  | .block => quoting.mark ++ lead ++ escapeFrom true 0 text ++ quoting.mark
  | .literalBlock => quoting.mark ++ lead ++ text ++ quoting.mark

def quote (text : List Char) : List Char :=
  quoteAs (Quoting.ofText text) text

/-- A value that fits into an entry. -/
inductive Scalar where
  | text (value : String)
  | natural (value : Nat)
  | real (value : Float)

def Scalar.write : Scalar → List Char
  | text value => quote value.toList
  | natural value => decimalDigits value
  | real value => Layout.tabular.text value

/-- A table under a header. -/
structure Section where
  header : String
  entries : List (String × Scalar)

namespace Section

def entryText (entry : String × Scalar) : List Char :=
  entry.1.toList ++ " = ".toList ++ entry.2.write ++ ['\n']

def write (part : Section) : List Char :=
  '[' :: part.header.toList ++ "]\n".toList ++ part.entries.flatMap entryText

/-- Sections with an empty line between each two. -/
def writeAll : List Section → List Char
  | [] => []
  | [part] => part.write
  | part :: rest => part.write ++ '\n' :: writeAll rest

end Section
end Toml
end EnvelopeWarp
