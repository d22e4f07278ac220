import Mathlib
import EnvelopeWarp.Proofs.TextRuns
import EnvelopeWarp.Decimal.Reading

/-! A literal that is written down is read back from the front of every text that does not go on like
a literal: its parts have first characters that cannot belong to the part before. -/

namespace EnvelopeWarp

theorem isSign_of_isDigit (c : Char) (digit : c.isDigit = true) : isSign c = false := by
  by_cases sign : c = '+' ∨ c = '-'
  · rcases sign with rfl | rfl <;> cases digit
  · simpa [isSign] using sign

theorem takeSign_toList {sign : Option Char} {text : List Char} (signed : ∀ c ∈ sign, isSign c = true)
    (free : Free isSign text) : takeSign (sign.toList ++ text) = (sign, text) := by
  cases sign with
  | some c => simp [takeSign, signed c rfl]
  | none =>
    cases text with
    | nil => rfl
    | cons c text => simp [takeSign, free c rfl]

structure Power.Sound (power : Power) : Prop where
  mark : power.mark = 'e' ∨ power.mark = 'E'
  sign : ∀ c ∈ power.sign, isSign c = true
  some_digit : power.digits ≠ []
  digits : ∀ c ∈ power.digits, c.isDigit = true

theorem Power.scan_text {power : Power} {rest : List Char} (sound : power.Sound)
    (free : Free Char.isDigit rest) : Power.scan (power.text ++ rest) = (some power, rest) := by
  obtain ⟨mark, sign, digits⟩ := power
  have unsigned : Free isSign (digits ++ rest) := by
    cases digits with
    | nil => exact absurd rfl sound.some_digit
    | cons d digits =>
      intro c head
      cases head
      exact isSign_of_isDigit d (sound.digits d (by simp))
  have signed := takeSign_toList sound.sign unsigned
  have run := takeWhile_of_free sound.digits free
  have after := dropWhile_of_free sound.digits free
  have letter : (mark == 'e' || mark == 'E') = true := by simpa using sound.mark
  simp only at signed run after
  simp [Power.scan, Power.text, letter, signed, run, after, sound.some_digit]

theorem Power.scan_none {rest : List Char} (free : Free (fun c => c == 'e' || c == 'E') rest) :
    Power.scan rest = (none, rest) := by
  cases rest with
  | nil => rfl
  | cons c rest =>
    have other := free c rfl
    simp only at other
    simp [Power.scan, other]

namespace Literal

structure Sound (literal : Literal) : Prop where
  sign : ∀ c ∈ literal.sign, isSign c = true
  whole : ∀ c ∈ literal.whole, c.isDigit = true
  fraction : ∀ digits ∈ literal.fraction, ∀ c ∈ digits, c.isDigit = true
  some_digit : literal.whole ++ literal.fraction.getD [] ≠ []
  power : ∀ power ∈ literal.power, power.Sound

/-- The characters with which a literal may go on after some of it. -/
def goesOn (c : Char) : Bool :=
  c.isDigit || c == '.' || c == 'e' || c == 'E'

theorem Sound.digit_or_point {literal : Literal} (sound : literal.Sound) (rest : List Char) :
    ∃ c tail, literal.whole ++ (fractionText literal.fraction ++ rest) = c :: tail ∧ (c.isDigit = true ∨ c = '.') := by
  cases shape : literal.whole with
  | cons c whole => exact ⟨c, _, rfl, .inl (sound.whole c (by simp [shape]))⟩
  | nil =>
    cases written : literal.fraction with
    | none =>
      have digit := sound.some_digit
      simp [shape, written] at digit
    | some digits => exact ⟨'.', _, rfl, .inr rfl⟩

theorem Sound.unsigned {literal : Literal} (sound : literal.Sound) (rest : List Char) :
    Free isSign (literal.whole ++ (fractionText literal.fraction ++ rest)) := by
  obtain ⟨c, tail, shape, kind⟩ := sound.digit_or_point rest
  rw [shape]
  rcases kind with digit | rfl
  · exact Free.cons (isSign_of_isDigit c digit)
  · exact Free.cons rfl

theorem scanFraction_text {literal : Literal} (sound : literal.Sound) {rest : List Char}
    (free : Free (fun c => c.isDigit || c == '.') rest) :
    scanFraction literal.whole (fractionText literal.fraction ++ rest) = (literal.fraction, rest) := by
  cases written : literal.fraction with
  | none =>
    cases rest with
    | nil => rfl
    | cons c rest =>
      have other := free c rfl
      simp only [Bool.or_eq_false_iff, beq_eq_false_iff_ne] at other
      unfold scanFraction fractionText
      split
      · next dot => cases dot; exact absurd rfl other.2
      · rfl
  | some digits =>
    have all := sound.fraction digits written
    have digitless : Free Char.isDigit rest := fun c head => by
      have other := free c head
      simp only [Bool.or_eq_false_iff] at other
      exact other.1
    have digit := sound.some_digit
    simp only [written, Option.getD_some, ne_eq, List.append_eq_nil_iff] at digit
    simp only [fractionText, List.cons_append, scanFraction, takeWhile_of_free all digitless,
      dropWhile_of_free all digitless]
    split
    · next empty => simp_all
    · rfl

theorem Sound.free_tail {literal : Literal} (sound : literal.Sound) {rest : List Char}
    (free : Free goesOn rest) : Free (fun c => c.isDigit || c == '.')
      ((literal.power.map Power.text).getD [] ++ rest) := by
  intro c head
  cases written : literal.power with
  | none =>
    simp only [written, Option.map_none, Option.getD_none, List.nil_append] at head
    have other := free c head
    simp only [goesOn, Bool.or_eq_false_iff] at other
    simp [other]
  | some power =>
    simp only [written, Option.map_some, Option.getD_some] at head
    cases head
    rcases (sound.power power written).mark with mark | mark <;> rw [mark] <;> rfl

private theorem scan_power {literal : Literal} (sound : literal.Sound) {rest : List Char} (free : Free goesOn rest) :
    Power.scan ((literal.power.map Power.text).getD [] ++ rest) = (literal.power, rest) := by
  cases written : literal.power with
  | none =>
    apply Power.scan_none
    intro c head
    have other := free c head
    simp only [goesOn, Bool.or_eq_false_iff] at other
    simp [other]
  | some power =>
    apply Power.scan_text (sound.power power written)
    intro c head
    have other := free c head
    simp only [goesOn, Bool.or_eq_false_iff] at other
    exact other.1.1.1

/-- A literal is read back from what it writes, whatever follows that does not go on with it. -/
theorem scan?_text {literal : Literal} (sound : literal.Sound) {rest : List Char} (free : Free goesOn rest) :
    scan? (literal.text ++ rest) = some (literal, rest) := by
  have tail := sound.free_tail free
  have digitless : Free Char.isDigit
      (fractionText literal.fraction ++ ((literal.power.map Power.text).getD [] ++ rest)) := by
    intro c head
    cases written : literal.fraction with
    | some digits => rw [written] at head; cases head; rfl
    | none =>
      rw [written] at head
      have other := tail c head
      simp only [Bool.or_eq_false_iff] at other
      exact other.1
  have some_digit : (literal.whole.isEmpty && literal.fraction.isNone) = false := by
    have digit := sound.some_digit
    cases whole : literal.whole <;> cases written : literal.fraction <;> simp_all
  simp only [scan?, text, List.append_assoc, takeSign_toList sound.sign (sound.unsigned _),
    takeWhile_of_free sound.whole digitless, dropWhile_of_free sound.whole digitless,
    scanFraction_text sound tail, scan_power sound free, some_digit]
  rfl

theorem text_starts {literal : Literal} (sound : literal.Sound) (rest : List Char) :
    ∃ c tail, literal.text ++ rest = c :: tail ∧ (isSign c = true ∨ c.isDigit = true ∨ c = '.') := by
  cases shape : literal.sign with
  | some c => exact ⟨c, _, by simp only [text, shape]; rfl, .inl (sound.sign c shape)⟩
  | none =>
    obtain ⟨c, tail, same, kind⟩ := sound.digit_or_point ((literal.power.map Power.text).getD [] ++ rest)
    refine ⟨c, tail, ?_, .inr kind⟩
    simp only [text, shape, Option.toList_none, List.nil_append, List.append_assoc, same]

end Literal

/-- A text is a literal with the given value. -/
def Spells (text : List Char) (value : Decimal) : Prop :=
  ∃ literal : Literal, literal.Sound ∧ literal.text = text ∧ literal.value = value

end EnvelopeWarp
