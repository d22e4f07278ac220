import EnvelopeWarp.Decimal.Double

/-! The fewest decimal digits that read back to a given double. The value is compared with its two
neighbours on the grid of one digit, two digits and so on; the first grid with a neighbour that
reads back wins, and of two such neighbours the nearer one. -/

namespace EnvelopeWarp

/-- Which neighbour is written when both read back and are equally near. -/
inductive Tie where
  | up
  | even
deriving Repr, DecidableEq

namespace Shortest

/-- The least power of ten above `num / den`, for a positive value. -/
def decimalScale (num den : Nat) : Int :=
  if den ≤ num then (decimalDigits (num / den)).length
  else 1 - ((decimalDigits ((den - 1) / num)).length : Int)

/-- A value on a decimal grid: it is `mantissa * unit / step` grid lines above zero, and `unit`
is as far as the next double, so half of it is how far a decimal may be off. The doubles below a
power of two are only half as far away. -/
structure Position where
  mantissa : Nat
  unit : Nat
  step : Nat
  narrowBelow : Bool

namespace Position

def ofDyadic (value : Dyadic) (grid : Int) : Position where
  mantissa := value.mantissa
  unit := powerUp 2 value.exponent * powerDown 10 grid
  step := powerDown 2 value.exponent * powerUp 10 grid
  narrowBelow := decide (value.mantissa = Double.hidden ∧ -1074 < value.exponent)

/-- The grid line at or below the value. -/
def floor (position : Position) : Nat :=
  position.mantissa * position.unit / position.step

/-- How far the value lies above its grid line. -/
def above (position : Position) : Nat :=
  position.mantissa * position.unit % position.step

/-- Halfway between two doubles reads as the one with the even mantissa. -/
def within (position : Position) (distance : Nat) : Bool :=
  if position.mantissa % 2 = 0 then distance ≤ position.unit else distance < position.unit

def floorReadsBack (position : Position) : Bool :=
  position.within ((if position.narrowBelow then 4 else 2) * position.above)

def ceilingReadsBack (position : Position) : Bool :=
  position.within (2 * (position.step - position.above))

/-- The neighbour on the grid that reads back, if there is one. -/
def neighbour? (position : Position) (tie : Tie) : Option Nat :=
  match position.floorReadsBack, position.ceilingReadsBack with
  | false, false => none
  | true, false => some position.floor
  | false, true => some (position.floor + 1)
  | true, true =>
    if 2 * position.above < position.step then some position.floor
    else if position.step < 2 * position.above then some (position.floor + 1)
    else match tie with
      | .up => some (position.floor + 1)
      | .even => some (position.floor + position.floor % 2)

end Position

/-- Moves the zeros at the end of the digits into the power of ten. -/
def dropZeros (digits : Nat) (exponent : Int) : Nat × Int :=
  if _many : digits ≠ 0 ∧ digits % 10 = 0 then dropZeros (digits / 10) (exponent + 1)
  else (digits, exponent)
termination_by digits

/-- The value in full, for want of a shorter text. -/
def exact (value : Dyadic) : Nat × Int :=
  if 0 ≤ value.exponent then (value.mantissa * powerUp 2 value.exponent, 0)
  else (value.mantissa * powerDown 5 value.exponent, value.exponent)

/-- The digits and the power of ten that write a positive value. -/
def ofDyadic (tie : Tie) (value : Dyadic) : Nat × Int :=
  let scale := decimalScale (value.mantissa * powerUp 2 value.exponent) (powerDown 2 value.exponent)
  let found := (List.range 17).findSome? fun (count : Nat) =>
    let grid := scale - ((count : Int) + 1)
    ((Position.ofDyadic value grid).neighbour? tie).map fun digits => (digits, grid)
  let chosen := found.getD (exact value)
  dropZeros chosen.1 chosen.2

/-- The shortest decimal of a finite double. -/
def decimal (tie : Tie) (x : Float) : Decimal :=
  if Double.magnitude x = 0 then ⟨Double.negative x, 0, 0⟩
  else
    let chosen := ofDyadic tie (Double.dyadic (Double.magnitude x))
    ⟨Double.negative x, chosen.1, chosen.2⟩

end Shortest
end EnvelopeWarp
