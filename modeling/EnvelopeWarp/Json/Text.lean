import EnvelopeWarp.Text.Digit

/-! Texts between double quotes. Characters may be written as they are, by a letter behind a
backslash or by four hexadecimal digits, where characters beyond the first plane take two such
numbers that belong together. -/

namespace EnvelopeWarp
namespace Json

/-- A part of a text as written. -/
inductive Piece where
  | char (c : Char)
  /-- A number of sixteen bits, written with four digits. -/
  | unit (value : Nat)
deriving Repr, DecidableEq

def isHigh (unit : Nat) : Bool :=
  0xd800 ≤ unit && unit < 0xdc00

def isLow (unit : Nat) : Bool :=
  0xdc00 ≤ unit && unit < 0xe000

/-- The character that two numbers stand for together. -/
def pair (high low : Nat) : Char :=
  Char.ofNat (0x10000 + (high - 0xd800) * 0x400 + (low - 0xdc00))

/-- The characters of a text. A number that needs a partner and has none stands for nothing. -/
def characters? : List Piece → Option (List Char)
  | [] => some []
  | .char c :: rest => (characters? rest).map (c :: ·)
  | .unit high :: .unit low :: rest =>
    if isHigh high then
      if isLow low then (characters? rest).map (pair high low :: ·) else none
    else if isLow high then none
    else (characters? (.unit low :: rest)).map (Char.ofNat high :: ·)
  | .unit value :: rest =>
    if isHigh value || isLow value then none
    else (characters? rest).map (Char.ofNat value :: ·)

/-- The character that a letter behind a backslash stands for. -/
def letter? : Char → Option Char
  | '\x22' => some '\x22'
  | '\x5c' => some '\x5c'
  | '/' => some '/'
  | 'b' => some '\x08'
  | 'f' => some '\x0c'
  | 'n' => some '\n'
  | 'r' => some '\r'
  | 't' => some '\t'
  | _ => none

/-- Four hexadecimal digits as a number. -/
def unit? (digits : List Char) : Option Nat :=
  if digits.all (Text.isDigitOf 16) then some (Text.valueOf 16 digits) else none

/-- The pieces of a text up to its closing quote, and what follows it. -/
def pieces? : List Char → Option (List Piece × List Char)
  | [] => none
  | '\x22' :: rest => some ([], rest)
  | '\x5c' :: 'u' :: a :: b :: c :: d :: rest =>
    match unit? [a, b, c, d], pieces? rest with
    | some value, some (pieces, after) => some (.unit value :: pieces, after)
    | _, _ => none
  | '\x5c' :: c :: rest =>
    match letter? c, pieces? rest with
    | some meant, some (pieces, after) => some (.char meant :: pieces, after)
    | _, _ => none
  | c :: rest =>
    if c.toNat < 0x20 || c == '\x5c' then none
    else (pieces? rest).map fun found => (.char c :: found.1, found.2)

theorem pieces?_shorter {text after : List Char} {pieces : List Piece}
    (found : pieces? text = some (pieces, after)) : after.length < text.length := by
  fun_induction pieces? text generalizing pieces with
  | case1 => cases found
  | case2 rest => cases found; simp
  | case3 a b c d rest value pieces after step _ ih =>
    cases found
    have shorter := ih step
    simp only [List.length_cons]
    omega
  | case4 => cases found
  | case5 c rest _ meant pieces after step _ ih =>
    cases found
    have shorter := ih step
    simp only [List.length_cons]
    omega
  | case6 => cases found
  | case7 => cases found
  | case8 c rest _ _ _ _ ih =>
    obtain ⟨⟨inner, last⟩, step, same⟩ := Option.map_eq_some_iff.1 found
    cases same
    exact Nat.lt_succ_of_lt (ih step)

/-- Four lower-case hexadecimal digits of a number below `16 ^ 4`. -/
def unitDigits (value : Nat) : List Char :=
  let digits := Nat.toDigits 16 value
  List.replicate (4 - digits.length) '0' ++ digits

/-- A character in a quoted text. -/
def quoteChar (c : Char) : List Char :=
  match c with
  | '\x22' => ['\x5c', '\x22']
  | '\x5c' => ['\x5c', '\x5c']
  | '\x08' => ['\x5c', 'b']
  | '\x0c' => ['\x5c', 'f']
  | '\n' => ['\x5c', 'n']
  | '\r' => ['\x5c', 'r']
  | '\t' => ['\x5c', 't']
  | c => if c.toNat < 0x20 then '\x5c' :: 'u' :: unitDigits c.toNat else [c]

def quote (text : List Char) : List Char :=
  '\x22' :: text.flatMap quoteChar ++ ['\x22']

end Json
end EnvelopeWarp
