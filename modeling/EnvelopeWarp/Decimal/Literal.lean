/-! Decimal number literals: an optional sign, digits with an optional point, and an optional
power of ten. -/

namespace EnvelopeWarp

/-- The exact value `digits * 10 ^ exponent`, negated when `negative` is set. A negative zero is
kept apart from zero. -/
structure Decimal where
  negative : Bool
  digits : Nat
  exponent : Int
deriving Repr, DecidableEq, Inhabited

/-- The number that a run of decimal digits writes. -/
def digitsValue (digits : List Char) : Nat :=
  digits.foldl (fun value digit => 10 * value + (digit.toNat - 48)) 0

/-- The decimal digits of a number, most significant first; zero has one digit. -/
def decimalDigits (value : Nat) : List Char :=
  Nat.toDigits 10 value

/-- The power of ten of a literal as written: its letter, its sign and its digits. -/
structure Power where
  mark : Char
  sign : Option Char
  digits : List Char
deriving Repr, DecidableEq

namespace Power

def text (power : Power) : List Char :=
  power.mark :: power.sign.toList ++ power.digits

def value (power : Power) : Int :=
  if power.sign = some '-' then -(digitsValue power.digits : Int) else digitsValue power.digits

end Power

/-- A literal as written. `fraction` holds the digits after the point, and is absent when there
is no point. -/
structure Literal where
  sign : Option Char
  whole : List Char
  fraction : Option (List Char)
  power : Option Power
deriving Repr, DecidableEq

namespace Literal

def fractionText : Option (List Char) → List Char
  | none => []
  | some digits => '.' :: digits

def text (literal : Literal) : List Char :=
  literal.sign.toList ++ literal.whole ++ fractionText literal.fraction ++
    (literal.power.map Power.text).getD []

def value (literal : Literal) : Decimal :=
  let fraction := literal.fraction.getD []
  { negative := literal.sign = some '-'
    digits := digitsValue (literal.whole ++ fraction)
    exponent := (literal.power.map Power.value).getD 0 - fraction.length }

end Literal
end EnvelopeWarp
