import EnvelopeWarp.Data.Basic

/-! Numbers in structured text. A number without point and power that fits into eight bytes is whole.
Any other is read by its leading digits and one multiplication or division by a power of ten, so it
is near what is written without always being the nearest; what lies beyond the doubles is refused. -/

namespace EnvelopeWarp
namespace Json

/-- Numbers have at least one digit on either side of a point, no needless zero in front and no sign
but a minus. -/
def isNumber (literal : Literal) : Bool :=
  literal.sign != some '+' &&
  (match literal.whole with
    | [] => false
    | '0' :: rest => rest.isEmpty
    | _ => true) &&
  literal.fraction != some []

/-- The first number that does not fit into eight bytes. -/
def wordLimit : Nat := Nat.pow 2 64

/-- Takes digits into a number as long as it fits into eight bytes; returns those that are left. -/
def absorb (value : Nat) : List Char → Nat × List Char
  | [] => (value, [])
  | c :: rest =>
    let next := 10 * value + (c.toNat - '0'.toNat)
    if next < wordLimit then absorb next rest else (value, c :: rest)

def powerOfTen (exponent : Nat) : Float :=
  Double.ofDecimal ⟨false, 1, exponent⟩

/-- Division by a power of ten, in steps that are doubles. -/
def shrink (x : Float) (exponent : Nat) : Float :=
  if exponent ≤ 308 then x / powerOfTen exponent
  else if x == 0.0 then x
  else shrink (x / powerOfTen 308) (exponent - 308)
termination_by exponent

def scale (x : Float) (exponent : Int) : Option Float :=
  if exponent < 0 then some (shrink x exponent.natAbs)
  else if x == 0.0 then some x
  else if exponent ≤ 308 then some (x * powerOfTen exponent.toNat) |>.filter Float.isFinite
  else none

/-- The first power that does not fit into four bytes; such a power is not added to anything. -/
def powerLimit : Nat := Nat.pow 2 31

def unsignedReal? (literal : Literal) : Option Float :=
  let whole := absorb 0 literal.whole
  let fraction := literal.fraction.getD []
  let significand := absorb whole.1 fraction
  let x := Double.ofDecimal ⟨false, significand.1, 0⟩
  let start : Int := (whole.2.length : Int) - (fraction.length - significand.2.length : Nat)
  match literal.power with
  | none => scale x start
  | some power =>
    if power.value.natAbs < powerLimit then scale x (start + power.value)
    else if significand.1 = 0 ∨ power.value < 0 then some 0.0
    else none

def real (literal : Literal) : Data :=
  match unsignedReal? literal with
  | some x => .real (if literal.sign = some '-' then -x else x)
  | none => .void

/-- The value of a number. Minus zero is not whole. -/
def number (literal : Literal) : Data :=
  let value := digitsValue literal.whole
  if literal.fraction.isNone && literal.power.isNone then
    if literal.sign.isNone then
      if value < wordLimit then .whole value else real literal
    else if 0 < value ∧ 2 * value ≤ wordLimit then .whole (-value)
    else real literal
  else real literal

end Json
end EnvelopeWarp
