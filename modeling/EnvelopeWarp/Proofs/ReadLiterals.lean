import Mathlib
import EnvelopeWarp.Decimal.Reading
import EnvelopeWarp.Proofs.DataAlphabet
import EnvelopeWarp.Text.Bytes

/-! What a scan takes off the front of a text is read as a double when it stands alone. It is made of characters of one
byte each, so the text is cut between two of its characters. -/

namespace EnvelopeWarp

private theorem toNat_of_isDigit {c : Char} (digit : c.isDigit = true) : 48 ≤ c.toNat ∧ c.toNat ≤ 57 :=
  Char.isDigit_iff_toNat.mp digit

theorem Literal.Part.printable {c : Char} (part : Part c) : 33 ≤ c.toNat ∧ c.toNat < 127 := by
  rcases part with digit | mark
  · obtain ⟨large, small⟩ := toNat_of_isDigit digit
    omega
  · simp only [List.mem_cons, List.not_mem_nil, or_false] at mark
    rcases mark with rfl | rfl | rfl | rfl | rfl <;> decide

theorem Text.byteLength_eq_length {text : List Char} (one_byte : ∀ c ∈ text, c.toNat < 128) :
    byteLength text = text.length := by
  induction text with
  | nil => rfl
  | cons c text ih =>
    obtain ⟨first, others⟩ := List.forall_mem_cons.mp one_byte
    have size : c.utf8Size = 1 := Char.utf8Size_eq_one_iff.mpr (UInt32.le_iff_toNat_le.mpr (Nat.le_of_lt_succ first))
    simp only [byteLength, List.length_cons, size, ih others]
    omega

private theorem readWord?_cons {c : Char} (start : c.isDigit = true ∨ c = '.') (text : List Char) :
    readWord? (c :: text) = none := by
  have small : c.toNat < 65 := by
    rcases start with digit | rfl
    · exact Nat.lt_of_le_of_lt (toNat_of_isDigit digit).2 (by decide)
    · decide
  have kept : c.toLower = c := by
    apply dif_neg
    intro capital
    have large : 65 ≤ c.toNat := UInt32.le_iff_toNat_le.mp capital.1
    omega
  have other {letter : Char} (large : 65 ≤ letter.toNat) : c ≠ letter := by
    intro same
    subst same
    omega
  have infinite : c ≠ 'i' := other (by decide)
  have nameless : c ≠ 'n' := other (by decide)
  simp [readWord?, Text.spells, kept, infinite, nameless]

namespace Literal

theorem readDouble?_text {literal : Literal} (sound : literal.Sound) :
    readDouble? literal.text = some (Double.ofDecimal literal.value) := by
  have signed := sound.takeSign []
  have scanned := scan?_text sound (Free.nil goesOn)
  obtain ⟨c, tail, shape, start⟩ := sound.digit_or_point ((literal.power.map Power.text).getD [] ++ [])
  rw [shape, List.append_nil] at signed
  rw [List.append_nil] at scanned
  simp only [readDouble?, signed, readWord?_cons start, scanned]

theorem scan?_of_longest {core word rest : List Char} {value : Float} (longest : Longest Grammar.literal core word rest)
    (read : readDouble? word = some value) :
    ∃ literal, scan? core = some (literal, rest) ∧ Double.ofDecimal literal.value = value := by
  obtain ⟨literal, scanned, rfl⟩ := scan?_eq_some_iff.mpr longest
  rw [readDouble?_text (scan?_sound scanned)] at read
  exact ⟨literal, scanned, Option.some.inj read⟩

/-- A scan succeeds wherever a literal is at the front of the text. It takes the longest one, which is not empty and of
characters of one byte, leaves the rest, and its value is what this literal is read as when it stands alone. -/
theorem scan?_reads (text : List Char) :
    ((∃ found rest, scan? text = some (found, rest)) ↔ ∃ word ∈ Grammar.literal, word <+: text) ∧
    ∀ found rest, scan? text = some (found, rest) →
      Longest Grammar.literal text found.text rest ∧ found.text ≠ [] ∧ (∀ c ∈ found.text, c.toNat < 128) ∧
      Text.splitBytes? found.text.length text = some (found.text, rest) ∧
      readDouble? found.text = some (Double.ofDecimal found.value) := by
  constructor
  · constructor
    · intro scanned
      obtain ⟨found, rest, scanned⟩ := scanned
      have longest := scan?_eq_some_iff.mp ⟨found, scanned, rfl⟩
      exact ⟨found.text, longest.belongs, rest, longest.split.symm⟩
    · intro front
      obtain ⟨word, belongs, front⟩ := front
      cases scanned : scan? text with
      | none => exact absurd front (scan?_eq_none_iff.mp scanned word belongs)
      | some found => exact ⟨found.1, found.2, rfl⟩
  · intro found rest scanned
    have sound := scan?_sound scanned
    have longest := scan?_eq_some_iff.mp ⟨found, scanned, rfl⟩
    have one_byte : ∀ c ∈ found.text, c.toNat < 128 := by
      intro c member
      exact Nat.lt_trans (sound.part c member).printable.2 (by decide)
    refine ⟨longest, scan?_text_ne_nil scanned, one_byte, ?_, readDouble?_text sound⟩
    rw [← Text.byteLength_eq_length one_byte, longest.split]
    exact Text.splitBytes?_append found.text rest

/-- A letter that no digits follow is no part of the literal. -/
theorem scan?_reads_dangling :
    let word := "-.5e+2".toList
    let found : Literal := ⟨some '-', [], some ['5'], some ⟨'e', some '+', ['2']⟩⟩
    scan? "-.5e+2em".toList = some (found, "em".toList) ∧ Longest Grammar.literal "-.5e+2em".toList word "em".toList ∧
      readDouble? word = some (Double.ofDecimal ⟨true, 5, 1⟩) := by
  intro word found
  have scanned : scan? "-.5e+2em".toList = some (found, "em".toList) := by decide
  obtain ⟨longest, _, _, _, read⟩ := (scan?_reads "-.5e+2em".toList).2 found "em".toList scanned
  exact ⟨scanned, longest, read⟩

end Literal
end EnvelopeWarp
