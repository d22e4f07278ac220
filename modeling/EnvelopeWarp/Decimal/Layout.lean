import EnvelopeWarp.Decimal.Shortest

/-! How doubles are written. All texts start from a decimal (the shortest one, or the value rounded
to a fixed number of places) and differ in where digits, point and power of ten go. -/

namespace EnvelopeWarp

/-- Digits before and after the point. -/
structure Positional where
  whole : List Char
  fraction : List Char
deriving Repr, DecidableEq

namespace Positional

/-- The digits of `digits * 10 ^ exponent`, with at least one before the point. -/
def ofDigits (digits : Nat) (exponent : Int) : Positional :=
  let written := decimalDigits digits
  let places := (-exponent).toNat
  if 0 ≤ exponent then
    ⟨if digits = 0 then written else written ++ List.replicate exponent.toNat '0', []⟩
  else
    let padded := List.replicate (places + 1 - written.length) '0' ++ written
    ⟨padded.take (padded.length - places), padded.drop (padded.length - places)⟩

/-- No point is written without digits after it. -/
def text (number : Positional) : List Char :=
  if number.fraction.isEmpty then number.whole else number.whole ++ '.' :: number.fraction

/-- At least one digit is written after the point. -/
def pointed (number : Positional) : List Char :=
  number.whole ++ '.' :: (if number.fraction.isEmpty then ['0'] else number.fraction)

end Positional

def signText (negative : Bool) : List Char :=
  if negative then ['-'] else []

/-- A layout decides how finite values are written and what stands for the others. -/
structure Layout where
  finite : Float → List Char
  infinite : Bool → List Char
  notNumber : List Char

def Layout.text (layout : Layout) (x : Float) : List Char :=
  if Double.infinity < Double.magnitude x then layout.notNumber
  else if Double.magnitude x = Double.infinity then layout.infinite (Double.negative x)
  else layout.finite x

namespace Layout

/-- The shortest digits, never with a power of ten: `0.1`, `100`, `-0`. -/
def plain : Layout where
  finite x :=
    let value := Shortest.decimal .up x
    signText value.negative ++ (Positional.ofDigits value.digits value.exponent).text
  infinite negative := signText negative ++ "inf".toList
  notNumber := "NaN".toList

/-- Exactly `places` digits after the point, from the exact value; a half goes to the even
neighbour and a negative zero keeps its sign. -/
def fixed (places : Nat) : Layout where
  finite x :=
    let value := Double.dyadic (Double.magnitude x)
    let digits := roundDiv (value.mantissa * powerUp 2 value.exponent * Nat.pow 10 places)
      (powerDown 2 value.exponent)
    signText (Double.negative x) ++ (Positional.ofDigits digits (-(places : Int))).text
  infinite := plain.infinite
  notNumber := plain.notNumber

/-- Settings tables always write a point, and name the values that are not finite. -/
def tabular : Layout where
  finite x :=
    let value := Shortest.decimal .up x
    signText value.negative ++ (Positional.ofDigits value.digits value.exponent).pointed
  infinite := plain.infinite
  notNumber := "nan".toList

/-- One digit before the point and the power of ten with its sign: `1e-7`, `1.5e+300`. -/
def scientific (digits : Nat) (leading : Int) : List Char :=
  let mantissa := match decimalDigits digits with
    | [] => []
    | [digit] => [digit]
    | digit :: rest => digit :: '.' :: rest
  mantissa ++ 'e' :: (if leading < 0 then '-' else '+') :: decimalDigits leading.natAbs

/-- Structured text writes leading digits from `10 ^ -5` to `10 ^ 15` with a point and all others
with a power of ten; it has no word for a value that is not finite. -/
def structured : Layout where
  finite x :=
    let value := Shortest.decimal .even x
    let leading := (decimalDigits value.digits).length + value.exponent - 1
    signText value.negative ++
      if value.digits = 0 ∨ (-5 ≤ leading ∧ leading ≤ 15) then
        (Positional.ofDigits value.digits value.exponent).pointed
      else scientific value.digits leading
  infinite _ := "null".toList
  notNumber := "null".toList

end Layout

/-- The text of a double with the fewest digits. -/
def plainText (x : Float) : String :=
  String.ofList (Layout.plain.text x)

end EnvelopeWarp
