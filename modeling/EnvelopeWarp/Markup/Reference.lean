import EnvelopeWarp.Text.Bytes
import EnvelopeWarp.Text.Digit

/-! References in attribute values. Five names and the numbers of characters stand for characters;
writing replaces exactly the five characters that have names. -/

namespace EnvelopeWarp

/-- Why the number of a character is not accepted. -/
inductive NumberFault where
  | sign
  | empty
  | digit
  | overflow
  | nullCharacter
  | notCharacter (number : Nat)
deriving Repr, DecidableEq

def NumberFault.message : NumberFault → String
  | sign => "unexpected number sign"
  | empty => "cannot parse integer from empty string"
  | digit => "invalid digit found in string"
  | overflow => "number too large to fit in target type"
  | nullCharacter => "0x0 character is not permitted in XML"
  | notCharacter number => "\x60" ++ toString number ++ "\x60 is not a valid codepoint"

/-- Why a reference is not accepted. Places are distances in bytes from the start of the value. -/
inductive ReferenceFault where
  | unknown (start finish : Nat) (name : List Char)
  | unterminated (start finish : Nat)
  | number (fault : NumberFault)
deriving Repr, DecidableEq

/-- A stretch of a text, in bytes. -/
def rangeText (start finish : Nat) : String :=
  toString start ++ ".." ++ toString finish

def ReferenceFault.message : ReferenceFault → String
  | unknown start finish name =>
    "at " ++ rangeText start finish ++ ": unrecognized entity \x60" ++ String.ofList name ++ "\x60"
  | unterminated start finish =>
    "Error while escaping character at range " ++ rangeText start finish ++ ": Cannot find ';' after '&'"
  | number fault => "invalid character reference: " ++ fault.message

/-- The number in a reference does not even write a number. -/
def NumberFault.isUnreadable : NumberFault → Bool
  | empty => true
  | digit => true
  | overflow => true
  | _ => false

/-- What lies behind a fault, the nearest first. -/
def ReferenceFault.causes : ReferenceFault → List String
  | number fault => if fault.isUnreadable then [fault.message, fault.message] else [fault.message]
  | _ => []

namespace Reference

/-- The name that stands for a character, for the characters that are not written as they are. -/
def name? : Char → Option (List Char)
  | '<' => some "lt".toList
  | '>' => some "gt".toList
  | '&' => some "amp".toList
  | '\x27' => some "apos".toList
  | '\x22' => some "quot".toList
  | _ => none

def named? (name : List Char) : Option Char :=
  ['<', '>', '&', '\x27', '\x22'].find? fun c => name? c == some name

def escapeChar (c : Char) : List Char :=
  match name? c with
  | some name => '&' :: name ++ [';']
  | none => [c]

def escape (text : List Char) : List Char :=
  text.flatMap escapeChar

/-- The first number that does not fit into four bytes. -/
def numberLimit : Nat := Nat.pow 2 32

/-- Reads digits from left to right; the first character that breaks a rule decides. -/
def digitsFrom (base : Nat) : Nat → List Char → Except NumberFault Nat
  | value, [] => .ok value
  | value, c :: rest =>
    match Text.digit? base c with
    | none => .error .digit
    | some digit =>
      if base * value + digit < numberLimit then digitsFrom base (base * value + digit) rest
      else .error .overflow

def unsigned (base : Nat) (text : List Char) : Except NumberFault Nat :=
  match text with
  | [] => .error .empty
  | c :: _ => if c == '+' || c == '-' then .error .sign else digitsFrom base 0 text

def ofNumber (number : Nat) : Except NumberFault Char :=
  if number = 0 then .error .nullCharacter
  else if number.isValidChar then .ok (Char.ofNat number)
  else .error (.notCharacter number)

/-- The character with a number, in base sixteen after an `x`. -/
def numbered (text : List Char) : Except NumberFault Char :=
  match text with
  | 'x' :: digits => do ofNumber (← unsigned 16 digits)
  | digits => do ofNumber (← unsigned 10 digits)

/-- The character that a reference stands for, given what is written between its marks and where
that starts. -/
def resolve (start : Nat) (name : List Char) : Except ReferenceFault Char :=
  match name with
  | '#' :: number =>
    match numbered number with
    | .ok c => .ok c
    | .error fault => .error (.number fault)
  | _ =>
    match named? name with
    | some c => .ok c
    | none => .error (.unknown start (start + Text.byteLength name) name)

def isMark (c : Char) : Bool :=
  c == '&' || c == ';'

theorem length_drop_le (text : List Char) :
    (text.dropWhile fun c => !isMark c).length ≤ text.length :=
  (List.dropWhile_sublist _).length_le

/-- Replaces the references of the end of a value that is `total` bytes long. -/
def unescapeFrom (total : Nat) (text : List Char) : Except ReferenceFault (List Char) :=
  match text with
  | [] => .ok []
  | c :: rest =>
    if c = '&' then
      let start := total - Text.byteLength (c :: rest)
      match _ahead : rest.dropWhile fun c => !isMark c with
      | ';' :: after => do
        let found ← resolve (start + 1) (rest.takeWhile fun c => !isMark c)
        return found :: (← unescapeFrom total after)
      | _ => .error (.unterminated start total)
    else do
      return c :: (← unescapeFrom total rest)
termination_by text.length
decreasing_by
  · have shorter := length_drop_le rest
    rw [_ahead] at shorter
    simp only [List.length_cons] at shorter ⊢
    omega
  · simp

def unescape (value : List Char) : Except ReferenceFault (List Char) :=
  unescapeFrom (Text.byteLength value) value

end Reference
end EnvelopeWarp
