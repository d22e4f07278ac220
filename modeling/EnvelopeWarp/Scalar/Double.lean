import EnvelopeWarp.Decimal.Double
import EnvelopeWarp.Scalar.Basic

/-! Doubles as scalars. The length of a vector is computed from the rounded root and one step that
corrects it, with both coordinates scaled when their squares would leave the range. -/

namespace EnvelopeWarp

namespace Double

def powerOfTwo (exponent : Int) : Float :=
  ofPattern false (pattern ⟨hidden, exponent - 52⟩)

/-- The root of `large ^ 2 + small ^ 2`, for `large ≥ small ≥ 0`, less its estimated error. -/
def correctedRoot (large small : Float) : Float :=
  let root := Float.sqrt (large * large + small * small)
  let error :=
    if root ≤ 2 * small then
      let excess := root - small
      large * (2 * excess - large) + (excess - 2 * (large - small)) * excess
    else
      let excess := root - large
      2 * excess * (large - 2 * small) + ((4 * excess - small) * small + excess * excess)
  root - error / (2 * root)

/-- The length of a vector with finite coordinates. A coordinate too small to matter is only
added. -/
def finiteLength (large small : Float) : Float :=
  if powerOfTwo 511 < large then
    if small ≤ large * powerOfTwo (-54) then large + small
    else correctedRoot (large * powerOfTwo (-600)) (small * powerOfTwo (-600)) / powerOfTwo (-600)
  else if small < powerOfTwo (-459) then
    if small / powerOfTwo (-54) ≤ large then large + small
    else correctedRoot (large / powerOfTwo (-600)) (small / powerOfTwo (-600)) * powerOfTwo (-600)
  else if small ≤ large * powerOfTwo (-54) then large + small
  else correctedRoot large small

def length (x y : Float) : Float :=
  if x.isInf || y.isInf then ofPattern false infinity
  else if x.isNaN || y.isNaN then x + y
  else if x.abs < y.abs then finiteLength y.abs x.abs
  else finiteLength x.abs y.abs

end Double

instance : Scalar Float where
  ofNat := Float.ofNat
  ofDecimal := Double.ofDecimal
  lt a b := decide (a < b)
  eq a b := a == b
  finite := Float.isFinite
  abs := Float.abs
  sqrt := Float.sqrt
  hypot := Double.length
  sin := Float.sin
  cos := Float.cos
  tan := Float.tan
  atan2 := Float.atan2
  ceil x := x.ceil.toUInt64.toNat
  pi := Double.ofDecimal ⟨false, 3141592653589793, -15⟩
  epsilon := Double.powerOfTwo (-52)

end EnvelopeWarp
