import EnvelopeWarp.Decimal.Layout
import EnvelopeWarp.Decimal.Reading
import EnvelopeWarp.Scalar.Basic
import EnvelopeWarp.Text.Blank

/-! Lengths as drawings write them: a number and a unit. Ninety user units make an inch. -/

namespace EnvelopeWarp

inductive LengthUnit where
  | inch
  | point
  | pixel
  | millimetre
  | centimetre
  | pica
  | user
deriving Repr, DecidableEq

namespace LengthUnit

/-- The units that are written out. -/
def written : List LengthUnit :=
  [inch, point, pixel, millimetre, centimetre, pica]

def suffix : LengthUnit → String
  | inch => "in"
  | point => "pt"
  | pixel => "px"
  | millimetre => "mm"
  | centimetre => "cm"
  | pica => "pc"
  | user => ""

/-- A length without a unit is in user units. -/
def ofSuffix? : String → Option LengthUnit
  | "" => some user
  | "in" => some inch
  | "pt" => some point
  | "px" => some pixel
  | "mm" => some millimetre
  | "cm" => some centimetre
  | "pc" => some pica
  | _ => none

/-- User units per unit. -/
def factor {α : Type} [Scalar α] : LengthUnit → α
  | inch => Scalar.ofNat 90
  | point => Scalar.ofDecimal ⟨false, 125, -2⟩
  | pixel => Scalar.ofNat 1
  | millimetre => Scalar.ofDecimal ⟨false, 35433070866, -10⟩
  | centimetre => Scalar.ofDecimal ⟨false, 35433070866, -9⟩
  | pica => Scalar.ofNat 15
  | user => Scalar.ofNat 1

def unknownMessage (suffix : String) : String :=
  "Unknown length unit: " ++ suffix

theorem ofSuffix?_suffix (unit : LengthUnit) : ofSuffix? unit.suffix = some unit := by
  cases unit <;> rfl

end LengthUnit

structure Length (α : Type) where
  value : α
  unit : LengthUnit

/-- Why a text is not a length. -/
inductive LengthError where
  | invalidNumber (input : String)
  | unknownUnit (input unit : String)
deriving Repr, DecidableEq

def LengthError.message : LengthError → String
  | invalidNumber input => "Invalid length '" ++ input ++ "': no leading number"
  | unknownUnit input unit => "Unknown unit '" ++ unit ++ "' in length '" ++ input ++ "'"

namespace Length
variable {α : Type} [Scalar α]

def userUnits (length : Length α) : α :=
  length.value * length.unit.factor

/-- A number, the longest there is, and a unit. Blanks may stand around both. -/
def parse (input : String) : Except LengthError (Length α) :=
  match Literal.scan? (Text.trim input.toList) with
  | none => .error (.invalidNumber input)
  | some (literal, rest) =>
    let suffix := String.ofList (Text.trim rest)
    match LengthUnit.ofSuffix? suffix with
    | none => .error (.unknownUnit input suffix)
    | some unit => .ok ⟨Scalar.ofDecimal literal.value, unit⟩

/-- The length in user units. Without a number it is zero, and an unknown unit is ignored. -/
def parseLenient (input : String) : α :=
  match parse input with
  | .ok length => length.userUnits
  | .error (.invalidNumber _) => Scalar.zero
  | .error (.unknownUnit _ _) =>
    match Literal.scan? (Text.trim input.toList) with
    | none => Scalar.zero
    | some (literal, _) => Scalar.ofDecimal literal.value

/-- A length as it is written. -/
def text (length : Length Float) : String :=
  plainText length.value ++ length.unit.suffix

end Length
end EnvelopeWarp
