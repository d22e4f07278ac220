import EnvelopeWarp.Data.Basic
import EnvelopeWarp.Decimal.Reading
import EnvelopeWarp.Toml.Text

/-! Numbers, truth values, dates and times in settings tables. All of them are words without blanks,
but a date and its time may have one between them. -/

namespace EnvelopeWarp
namespace Toml

def isWordChar (c : Char) : Bool :=
  c.isAlphanum || c == '+' || c == '-' || c == '_' || c == '.' || c == ':'

/-- Digits without the single underscores that may stand between them. -/
def digits? (isDigit : Char → Bool) : List Char → Option (List Char)
  | [] => none
  | [c] => if isDigit c then some [c] else none
  | c :: '_' :: rest => if isDigit c then (digits? isDigit rest).map (c :: ·) else none
  | c :: rest => if isDigit c then (digits? isDigit rest).map (c :: ·) else none

/-- Decimal digits with no needless zero in front. -/
def whole? (text : List Char) : Option (List Char) :=
  if text.head? = some '0' ∧ 1 < text.length then none else digits? Char.isDigit text

/-- The first number that does not fit into eight bytes with a sign. -/
def wholeLimit : Nat := Nat.pow 2 63

/-- A number that fits into eight bytes with a sign. -/
def bounded? (value : Int) : Option Data :=
  if -wholeLimit ≤ value ∧ value < wholeLimit then some (.whole value) else none

def based? (base : Nat) (text : List Char) : Option Data :=
  (digits? (Text.isDigitOf base) text).bind fun digits => bounded? (Text.valueOf base digits)

/-- A whole number; only decimal ones may have a sign. -/
def integer? (word : List Char) : Option Data :=
  match word with
  | '0' :: 'x' :: rest => based? 16 rest
  | '0' :: 'o' :: rest => based? 8 rest
  | '0' :: 'b' :: rest => based? 2 rest
  | _ =>
    (whole? (takeSign word).2).bind fun digits =>
      bounded? (if (takeSign word).1 = some '-' then -(digitsValue digits : Int) else digitsValue digits)

def isDigitChar (c : Char) : Bool :=
  c.isDigit || c == '_'

def power? : List Char → Option Power
  | mark :: rest =>
    if mark == 'e' || mark == 'E' then
      (digits? Char.isDigit (takeSign rest).2).map fun digits => ⟨mark, (takeSign rest).1, digits⟩
    else none
  | [] => none

/-- What follows the whole part of a number: a fraction, a power or both. -/
def tail? (sign : Option Char) (whole : List Char) : List Char → Option Literal
  | '.' :: rest => do
    let fraction ← digits? Char.isDigit (rest.takeWhile isDigitChar)
    match rest.dropWhile isDigitChar with
    | [] => return ⟨sign, whole, some fraction, none⟩
    | power => return ⟨sign, whole, some fraction, ← power? power⟩
  | power => do return ⟨sign, whole, none, ← power? power⟩

/-- A number with a fraction or a power. One too large is refused; one too small is not. -/
def real? (word : List Char) : Option Data := do
  let body := (takeSign word).2
  let whole ← whole? (body.takeWhile isDigitChar)
  let literal ← tail? (takeSign word).1 whole (body.dropWhile isDigitChar)
  let value := Double.ofDecimal literal.value
  if Double.magnitude value = Double.infinity ∧ !Double.negative value then none else return .real value

/-- The words for numbers that are not finite. -/
def notFinite? (word : List Char) : Option Data :=
  let negative := (takeSign word).1 == some '-'
  if (takeSign word).2 = "inf".toList then some (.real (Double.ofPattern negative Double.infinity))
  else if (takeSign word).2 = "nan".toList then
    some (.real (Double.ofPattern negative (Double.infinity + Double.hidden / 2)))
  else none

/-- Two digits that write a number within limits, and what follows them. -/
def two? (low high : Nat) : List Char → Option (Nat × List Char)
  | a :: b :: rest =>
    if a.isDigit ∧ b.isDigit then
      let value := digitsValue [a, b]
      if low ≤ value ∧ value ≤ high then some (value, rest) else none
    else none
  | _ => none

def mark? (mark : Char) : List Char → Option (List Char)
  | c :: rest => if c = mark then some rest else none
  | [] => none

def isLeap (year : Nat) : Bool :=
  year % 4 == 0 && (year % 100 != 0 || year % 400 == 0)

def daysIn (year month : Nat) : Nat :=
  if month = 2 then if isLeap year then 29 else 28
  else if month = 4 ∨ month = 6 ∨ month = 9 ∨ month = 11 then 30
  else 31

/-- What follows a date. -/
def date? (text : List Char) : Option (List Char) := do
  let year := text.take 4
  if year.length = 4 ∧ year.all Char.isDigit then
    let (month, rest) ← two? 1 12 (← mark? '-' (text.drop 4))
    let (_, rest) ← two? 1 (daysIn (digitsValue year) month) (← mark? '-' rest)
    return rest
  else none

/-- What follows a time of day. -/
def time? (text : List Char) : Option (List Char) := do
  let (_, rest) ← two? 0 23 text
  let (_, rest) ← two? 0 59 (← mark? ':' rest)
  let (_, rest) ← two? 0 60 (← mark? ':' rest)
  match rest with
  | '.' :: rest => if (rest.takeWhile Char.isDigit).isEmpty then none else return rest.dropWhile Char.isDigit
  | rest => return rest

/-- The distance of a time zone, and nothing else. -/
def isZone : List Char → Bool
  | [] => true
  | [c] => c == 'Z' || c == 'z'
  | c :: rest =>
    isSign c && (do
      let (_, rest) ← two? 0 23 rest
      let (_, rest) ← two? 0 59 (← mark? ':' rest)
      return rest) == some []

def isZonedTime (text : List Char) : Bool :=
  (time? text).any isZone

def isDate (word : List Char) : Bool :=
  date? word == some []

def isMoment (word : List Char) : Bool :=
  match date? word with
  | some [] => true
  | some (c :: rest) => (c == 'T' || c == 't') && isZonedTime rest
  | none => time? word == some []

def flag? (word : List Char) : Option Data :=
  if word = "true".toList then some (.flag true)
  else if word = "false".toList then some (.flag false)
  else none

def ofWord? (word : List Char) : Option Data :=
  if isMoment word then some .moment
  else ((real? word).orElse fun _ => integer? word).orElse fun _ =>
    (notFinite? word).orElse fun _ => flag? word

/-- A word that is a value, and what follows it. -/
def word? (text : List Char) : Option (Data × List Char) :=
  let word := text.takeWhile isWordChar
  let after := text.dropWhile isWordChar
  match isDate word, after with
  | true, ' ' :: more =>
    let clock := more.takeWhile isWordChar
    if clock.isEmpty then some (.moment, after)
    else if isZonedTime clock then some (.moment, more.dropWhile isWordChar)
    else none
  | _, _ => (ofWord? word).map fun data => (data, after)

/-- A value without parts, and what follows it. -/
def scalar? (text : List Char) : Option (Data × List Char) :=
  match text with
  | '\x22' :: _ => (text? text).map fun found => (.text (String.ofList found.1), found.2)
  | '\x27' :: _ => (text? text).map fun found => (.text (String.ofList found.1), found.2)
  | _ => word? text

end Toml
end EnvelopeWarp
