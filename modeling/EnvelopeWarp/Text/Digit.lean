/-! Digits of positional number systems. -/

namespace EnvelopeWarp
namespace Text

/-- The value of a digit or a basic Latin letter, which counts on from ten in either case. -/
def digitValue? (c : Char) : Option Nat :=
  if c.isDigit then some (c.toNat - '0'.toNat)
  else if c.isLower then some (c.toNat - 'a'.toNat + 10)
  else if c.isUpper then some (c.toNat - 'A'.toNat + 10)
  else none

/-- The value of a digit of the given base. -/
def digit? (base : Nat) (c : Char) : Option Nat :=
  (digitValue? c).filter (· < base)

/-- A digit of the base. -/
def isDigitOf (base : Nat) (c : Char) : Bool :=
  (digit? base c).isSome

/-- The number that a run of digits writes; other characters count as zero. -/
def valueOf (base : Nat) (digits : List Char) : Nat :=
  digits.foldl (fun value c => base * value + (digit? base c).getD 0) 0

/-- A number of eight bytes in decimal digits, with a plus or without. -/
def count? (text : List Char) : Option Nat :=
  let digits := match text with
    | '+' :: rest => rest
    | rest => rest
  if digits.isEmpty || !digits.all Char.isDigit then none
  else (some (valueOf 10 digits)).filter (· < Nat.pow 2 64)

end Text
end EnvelopeWarp
