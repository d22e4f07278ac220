import EnvelopeWarp.Decimal.Double
import EnvelopeWarp.Text.Match

/-! Reading numbers. `Literal.scan?` takes the longest literal off the front of a text, so numbers may
stand next to each other or next to letters without a separator. A whole text is read as a double when
it is a literal with nothing after it, or a word for a value that is not finite, with a sign or without. -/

namespace EnvelopeWarp

def isSign (c : Char) : Bool :=
  c == '+' || c == '-'

/-- A sign at the front of a text, and what follows it. -/
def takeSign : List Char → Option Char × List Char
  | c :: rest => if isSign c then (some c, rest) else (none, c :: rest)
  | [] => (none, [])

namespace Power

/-- A letter `e` counts only when digits follow it, so `1em` is the number one and a unit. -/
def scan : List Char → Option Power × List Char
  | [] => (none, [])
  | c :: rest =>
    if c == 'e' || c == 'E' then
      if ((takeSign rest).2.takeWhile Char.isDigit).isEmpty then (none, c :: rest)
      else
        (some ⟨c, (takeSign rest).1, (takeSign rest).2.takeWhile Char.isDigit⟩,
          (takeSign rest).2.dropWhile Char.isDigit)
    else (none, c :: rest)

end Power

namespace Literal

/-- The digits after a point. A point with no digit on either side is not part of a number. -/
def scanFraction (whole : List Char) : List Char → Option (List Char) × List Char
  | '.' :: rest =>
    if whole.isEmpty && (rest.takeWhile Char.isDigit).isEmpty then (none, '.' :: rest)
    else (some (rest.takeWhile Char.isDigit), rest.dropWhile Char.isDigit)
  | rest => (none, rest)

/-- The longest literal at the front of a text, with the text after it. -/
def scan? (text : List Char) : Option (Literal × List Char) :=
  let signed := takeSign text
  let whole := signed.2.takeWhile Char.isDigit
  let fraction := scanFraction whole (signed.2.dropWhile Char.isDigit)
  if whole.isEmpty && fraction.1.isNone then none
  else
    let power := Power.scan fraction.2
    some (⟨signed.1, whole, fraction.1, power.1⟩, power.2)

end Literal

private theorem takeSign_append (text : List Char) :
    (takeSign text).1.toList ++ (takeSign text).2 = text := by
  unfold takeSign
  split
  · split <;> simp
  · rfl

theorem Power.scan_append (text : List Char) :
    ((Power.scan text).1.map Power.text).getD [] ++ (Power.scan text).2 = text := by
  unfold Power.scan
  split
  · rfl
  · next c rest =>
    split
    · split
      · simp
      · have sign := takeSign_append rest
        have digits := List.takeWhile_append_dropWhile (p := Char.isDigit) (l := (takeSign rest).2)
        simp only [Option.map_some, Option.getD_some, Power.text, List.cons_append, List.append_assoc]
        rw [digits, sign]
    · simp

theorem Literal.scanFraction_append (whole text : List Char) :
    fractionText (scanFraction whole text).1 ++ (scanFraction whole text).2 = text := by
  unfold scanFraction
  split
  · split
    · rfl
    · simp [fractionText, List.takeWhile_append_dropWhile]
  · rfl

/-- A scan splits the text: the literal as written, then the rest. -/
theorem Literal.scan?_append {text rest : List Char} {literal : Literal}
    (found : scan? text = some (literal, rest)) : literal.text ++ rest = text := by
  simp only [scan?] at found
  split at found
  · cases found
  · cases found
    have power := Power.scan_append
      (scanFraction ((takeSign text).2.takeWhile Char.isDigit) ((takeSign text).2.dropWhile Char.isDigit)).2
    have fraction := scanFraction_append ((takeSign text).2.takeWhile Char.isDigit)
      ((takeSign text).2.dropWhile Char.isDigit)
    simp only [Literal.text, List.append_assoc]
    rw [power, fraction, List.takeWhile_append_dropWhile, takeSign_append]

/-- A literal that was scanned has at least one character. -/
theorem Literal.scan?_text_ne_nil {text rest : List Char} {literal : Literal}
    (found : scan? text = some (literal, rest)) : literal.text ≠ [] := by
  simp only [scan?] at found
  split at found
  · cases found
  · next some_digit =>
    cases found
    intro empty
    simp only [Literal.text, List.append_eq_nil_iff] at empty
    apply some_digit
    obtain ⟨⟨⟨_, whole⟩, fraction⟩, _⟩ := empty
    rw [whole] at fraction ⊢
    revert fraction
    generalize (scanFraction [] _).1 = written
    cases written <;> simp [fractionText]

theorem Literal.scan?_shorter {text rest : List Char} {literal : Literal}
    (found : scan? text = some (literal, rest)) : rest.length < text.length := by
  have whole := congrArg List.length (scan?_append found)
  have some_char := List.length_pos_iff.2 (scan?_text_ne_nil found)
  simp only [List.length_append] at whole
  omega

/-- The double that a text without a sign names, if it is a word. -/
def readWord? (text : List Char) : Option Nat :=
  if Text.spells "inf" text || Text.spells "infinity" text then some Double.infinity
  else if Text.spells "nan" text then some (Double.infinity + Double.hidden / 2)
  else none

def readDouble? (text : List Char) : Option Float :=
  match readWord? (takeSign text).2 with
  | some pattern => some (Double.ofPattern ((takeSign text).1 == some '-') pattern)
  | none =>
    match Literal.scan? text with
    | some (literal, []) => some (Double.ofDecimal literal.value)
    | _ => none

end EnvelopeWarp
