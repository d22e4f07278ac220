import EnvelopeWarp.Decimal.Reading
import EnvelopeWarp.Json.Number
import EnvelopeWarp.Json.Text
import EnvelopeWarp.Text.Blank
import EnvelopeWarp.Text.Match

/-! The tokens of structured text: marks, and values without parts. -/

namespace EnvelopeWarp
namespace Json

inductive Token where
  | openList
  | closeList
  | openRecord
  | closeRecord
  | colon
  | comma
  | nothing
  | flag (value : Bool)
  | number (literal : Literal)
  | text (pieces : List Piece)
deriving Repr, DecidableEq

namespace Token

/-- A word and what follows it. -/
def word? (word : String) (token : Token) (text : List Char) : Option (Token × List Char) :=
  (Text.dropFront? word.toList text).map fun after => (token, after)

def number? (text : List Char) : Option (Token × List Char) :=
  match Literal.scan? text with
  | some (literal, after) => if isNumber literal then some (number literal, after) else none
  | none => none

/-- The token that starts with a character, and what follows it. -/
def take? (first : Char) (rest : List Char) : Option (Token × List Char) :=
  match first with
  | '[' => some (openList, rest)
  | ']' => some (closeList, rest)
  | '\x7b' => some (openRecord, rest)
  | '\x7d' => some (closeRecord, rest)
  | ':' => some (colon, rest)
  | ',' => some (comma, rest)
  | '\x22' => (pieces? rest).map fun found => (text found.1, found.2)
  | 'n' => word? "ull" nothing rest
  | 't' => word? "rue" (flag true) rest
  | 'f' => word? "alse" (flag false) rest
  | c => if c.isDigit || c == '-' then number? (c :: rest) else none

private theorem word?_length {word : String} {token found : Token} {text after : List Char}
    (step : word? word token text = some (found, after)) : after.length ≤ text.length := by
  obtain ⟨rest, inner, same⟩ := Option.map_eq_some_iff.1 step
  cases same
  exact Text.dropFront?_length inner

private theorem number?_shorter {token : Token} {text after : List Char}
    (found : number? text = some (token, after)) : after.length < text.length := by
  simp only [number?] at found
  split at found
  · next step =>
    split at found
    · cases found; exact Literal.scan?_shorter step
    · cases found
  · cases found

/-- A token takes at least its first character. -/
theorem take?_shorter {first : Char} {rest after : List Char} {token : Token}
    (found : take? first rest = some (token, after)) : after.length < (first :: rest).length := by
  unfold take? at found
  split at found
  iterate 6 cases found; exact Nat.lt_succ_self _
  · obtain ⟨⟨pieces, last⟩, step, same⟩ := Option.map_eq_some_iff.1 found
    cases same
    exact Nat.lt_succ_of_lt (pieces?_shorter step)
  iterate 3 exact Nat.lt_succ_of_le (word?_length found)
  · split at found
    · exact number?_shorter found
    · cases found

theorem length_skipBlanks_le (text : List Char) :
    (text.dropWhile Text.isMarkupBlank).length ≤ text.length :=
  (List.dropWhile_sublist _).length_le

/-- The tokens of a text, with blanks anywhere between them. -/
def all? (text : List Char) : Option (List Token) :=
  match _ahead : text.dropWhile Text.isMarkupBlank with
  | [] => some []
  | first :: rest =>
    match _step : take? first rest with
    | none => none
    | some (token, after) => (all? after).map (token :: ·)
termination_by text.length
decreasing_by
  have shorter := take?_shorter _step
  have skipped := length_skipBlanks_le text
  rw [_ahead] at skipped
  omega

end Token
end Json
end EnvelopeWarp
