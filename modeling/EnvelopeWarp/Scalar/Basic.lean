import EnvelopeWarp.Decimal.Literal

/-! Numbers that drawings are computed with. Geometry is written once over these operations, in a
fixed order, so the same definitions run on doubles and can be studied on exact numbers.
Comparisons are Boolean and need not be total: a value may be unequal to itself. -/

namespace EnvelopeWarp

class Scalar (α : Type) extends Add α, Sub α, Mul α, Div α, Neg α where
  ofNat : Nat → α
  ofDecimal : Decimal → α
  lt : α → α → Bool
  eq : α → α → Bool
  finite : α → Bool
  abs : α → α
  sqrt : α → α
  hypot : α → α → α
  sin : α → α
  cos : α → α
  tan : α → α
  /-- The direction of the point whose second and first coordinates are given, in that order. -/
  atan2 : α → α → α
  /-- The least whole number that is not below a value; zero for negative values. -/
  ceil : α → Nat
  pi : α
  /-- The distance from one to the next double. -/
  epsilon : α

namespace Scalar
variable {α : Type} [Scalar α]

def le (a b : α) : Bool :=
  lt a b || eq a b

def zero : α :=
  ofNat 0

def one : α :=
  ofNat 1

def two : α :=
  ofNat 2

def three : α :=
  ofNat 3

def four : α :=
  ofNat 4

/-- The smaller of two values; one that is unequal to itself gives way to the other. -/
def min (a b : α) : α :=
  if lt b a then b else if eq a a then a else b

/-- The larger of two values; one that is unequal to itself gives way to the other. -/
def max (a b : α) : α :=
  if lt a b then b else if eq a a then a else b

/-- Degrees in radians. -/
def radians (degrees : α) : α :=
  degrees * (pi / ofNat 180)

end Scalar
end EnvelopeWarp
