import EnvelopeWarp.Decimal.Literal

/-! Double-precision numbers as exact values. The sixty-three bits below the sign, read as a
number, run through the magnitudes in increasing order, so rounding a decimal is rounding its
value to a mantissa and adding it to the pattern of its binade. Everything here is arithmetic on
naturals; `Float` enters only through its bits. -/

namespace EnvelopeWarp

/-- The exact value `mantissa * 2 ^ exponent`. -/
structure Dyadic where
  mantissa : Nat
  exponent : Int
deriving Repr, DecidableEq

/-- The power `base ^ exponent` when the exponent is not negative, otherwise one. -/
def powerUp (base : Nat) (exponent : Int) : Nat :=
  Nat.pow base exponent.toNat

/-- The power `base ^ (-exponent)` when the exponent is negative, otherwise one. -/
def powerDown (base : Nat) (exponent : Int) : Nat :=
  Nat.pow base (-exponent).toNat

/-- The whole number nearest to `num / den`; a half goes to the even neighbour. -/
def roundDiv (num den : Nat) : Nat :=
  let quotient := num / den
  let twice := 2 * (num % den)
  if twice < den then quotient
  else if den < twice then quotient + 1
  else if quotient % 2 = 0 then quotient else quotient + 1

namespace Double

/-- The mantissa of a full binade starts here. -/
def hidden : Nat := Nat.pow 2 52

/-- The pattern of infinity, just above the largest finite magnitude. -/
def infinity : Nat := 2047 * hidden

/-- The value of a finite magnitude pattern. -/
def dyadic (pattern : Nat) : Dyadic :=
  if pattern / hidden = 0 then ⟨pattern, -1074⟩
  else ⟨hidden + pattern % hidden, (pattern / hidden : Int) - 1075⟩

/-- The pattern of `mantissa * 2 ^ exponent`, where the mantissa fills its fifty-three bits or the
exponent is the least one. A mantissa that was rounded up to `2 ^ 53` carries into the exponent. -/
def pattern (value : Dyadic) : Nat :=
  (value.exponent + 1074).toNat * hidden + value.mantissa

/-- The exponent at which `num / den` has a mantissa of fifty-three bits. -/
def fullExponent (num den : Nat) : Int :=
  let estimate : Int := (num.log2 : Int) - den.log2
  if den * powerUp 2 estimate ≤ num * powerDown 2 estimate then estimate - 52 else estimate - 53

/-- The pattern nearest to `num / den`. -/
def nearest (num den : Nat) : Nat :=
  let exponent := max (-1074) (fullExponent num den)
  let mantissa := roundDiv (num * powerDown 2 exponent) (den * powerUp 2 exponent)
  min infinity (pattern ⟨mantissa, exponent⟩)

/-- The pattern nearest to `digits * 10 ^ exponent`. Powers of ten far outside the range of doubles
are decided without being computed. -/
def nearestDecimal (digits : Nat) (exponent : Int) : Nat :=
  if digits = 0 then 0
  else if 400 < exponent then infinity
  else if exponent < -(400 + (digits.log2 : Int)) then 0
  else nearest (digits * powerUp 10 exponent) (powerDown 10 exponent)

def signBit : Nat := Nat.pow 2 63

def ofPattern (negative : Bool) (pattern : Nat) : Float :=
  Float.ofBits (UInt64.ofNat (if negative then signBit + pattern else pattern))

/-- The double nearest to a decimal. Values beyond the range become infinite. -/
def ofDecimal (value : Decimal) : Float :=
  ofPattern value.negative (nearestDecimal value.digits value.exponent)

/-- The sign bit of a double. -/
def negative (x : Float) : Bool :=
  decide (signBit ≤ x.toBits.toNat)

/-- The magnitude pattern of a double. -/
def magnitude (x : Float) : Nat :=
  x.toBits.toNat % signBit

end Double
end EnvelopeWarp
