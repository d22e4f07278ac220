import EnvelopeWarp.Pattern.Reader
import EnvelopeWarp.Pattern.Tree
import EnvelopeWarp.Text.Digit

/-! Escapes: what a backslash announces. Braces are never closed in a pattern, because the closing
brace ends the field that the pattern belongs to; what would have to stand in them is read as far as
it goes. -/

namespace EnvelopeWarp
namespace Pattern

/-- The characters with a meaning of their own. -/
def metaCharacters : List Char :=
  "\\.+*?()|[]\x7b\x7d^$#&-~".toList

/-- A backslash takes its meaning from a character. Letters and digits, and the two angles, are kept
for other uses. -/
def isEscapable (c : Char) : Bool :=
  metaCharacters.contains c || (c.toNat < 0x80 && !c.isAlphanum && c != '<' && c != '>')

/-- The characters that are written with a letter. -/
def control? (c : Char) : Option Char :=
  [('a', '\x07'), ('f', '\x0c'), ('t', '\t'), ('n', '\n'), ('r', '\r'), ('v', '\x0b')].lookup c

/-- How many hexadecimal digits a letter announces. -/
def digitCount? (c : Char) : Option Nat :=
  [('x', 2), ('u', 4), ('U', 8)].lookup c

/-- The letters for places between characters, and whether words start or end there. -/
def edge? (c : Char) : Option Bool :=
  [('A', false), ('z', false), ('b', true), ('B', true), ('<', true), ('>', true)].lookup c

/-- The letters for digits, blanks and the characters of words; capitals are for all others. -/
def shorthand? (c : Char) : Option Bool :=
  if ['d', 's', 'w'].contains c then some false
  else if ['D', 'S', 'W'].contains c then some true
  else none

def isHexadecimal (c : Char) : Bool :=
  Text.isDigitOf 16 c

/-- A letter or a hyphen, as in the names of edges. -/
def isEdgeLetter (c : Char) : Bool :=
  c.isAlpha || c == '-'

/-- So many hexadecimal digits. -/
def hexadecimals : Nat → Reader (List Char)
  | 0 => return []
  | count + 1 => do
    match ← Reader.next? with
    | none => Reader.fail .openEscape (.empty (← Reader.here))
    | some c =>
      if isHexadecimal c then
        Reader.drop 1
        Reader.skip
        return c :: (← hexadecimals count)
      else Reader.fail .notHexadecimal (.ofChar (← Reader.here) c)

/-- Hexadecimal digits in a brace, which is never closed. -/
def openHexadecimals : Reader Atom := do
  let brace ← Reader.here
  Reader.drop 1
  Reader.skip
  discard (Reader.run isHexadecimal)
  match ← Reader.next? with
  | none => Reader.fail .openEscape (← Reader.spanFrom brace)
  | some c => Reader.fail .notHexadecimal (.ofChar (← Reader.here) c)

/-- A character given by its number. -/
def character (start : Place) (count : Nat) : Reader Atom := do
  Reader.skip
  if (← Reader.next?) = some '\x7b' then openHexadecimals
  else
    let here ← Reader.here
    let number := Text.valueOf 16 (← hexadecimals count)
    if number.isValidChar then
      return .literal ⟨← Reader.spanFrom start, Char.ofNat number, count == 2⟩
    else Reader.fail .noCharacter (← Reader.spanFrom here)

/-- A property given by a letter; one in braces is never closed. -/
def property (start : Place) : Reader Atom := do
  Reader.skip
  match ← Reader.next? with
  | none => Reader.fail .openEscape (.empty (← Reader.here))
  | some '\x7b' =>
    Reader.drop (← Reader.ahead).length
    Reader.fail .openEscape (.empty (← Reader.here))
  | some '\\' => Reader.fail .invalidProperty (.ofChar (← Reader.here) '\\')
  | some _ =>
    Reader.drop 1
    Reader.skip
    return .property (← Reader.spanFrom start)

/-- Behind the letter for the edges of words a brace begins the name of an edge, which is never closed,
or a count for the edge, which is left to be read. -/
def braceBehindEdge (start : Place) : Reader Unit :=
  Reader.peek do
    let brace ← Reader.here
    Reader.drop 1
    Reader.skip
    match ← Reader.next? with
    | none => Reader.fail .openEdgeOrCount (← Reader.spanFrom start)
    | some c =>
      if isEdgeLetter c then
        discard (Reader.run isEdgeLetter)
        Reader.fail .openEdge (← Reader.spanFrom brace)

/-- What a backslash at a place means together with the character behind it. -/
def escapeOf (start : Place) (c : Char) : Reader Atom := do
  let span ← Reader.spanFrom start
  if c.isDigit then Reader.fail .backreference span
  else if let some count := digitCount? c then character start count
  else if c = 'p' ∨ c = 'P' then property start
  else if let some isNegated := shorthand? c then return .shorthand span isNegated
  else if isEscapable c then return .literal ⟨span, c, false⟩
  else if let some control := control? c then return .literal ⟨span, control, false⟩
  else if let some isOfWord := edge? c then
    if c = 'b' ∧ (← Reader.next?) = some '\x7b' then braceBehindEdge start
    return .edge span isOfWord
  else Reader.fail .unknownEscape span

/-- Reads what follows a backslash. -/
def escape (start : Place) : Reader Atom := do
  match ← Reader.take? with
  | none => Reader.fail .openEscape (← Reader.spanFrom start)
  | some c => escapeOf start c

end Pattern
end EnvelopeWarp
