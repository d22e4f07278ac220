import Mathlib
import EnvelopeWarp.Length
import EnvelopeWarp.Proofs.DoubleText
import EnvelopeWarp.Proofs.ReadLiterals
import EnvelopeWarp.Proofs.TrimmedText

/-! What a text is as a length. Behind its longest literal there is a unit, or no number is at its front, or what is
behind the number is no unit. In the first case the number counts as many user units as the unit is worth. A length that
is written is read as itself: no unit goes on like a literal. -/

namespace EnvelopeWarp
open Text (isBlank trim Trims)

theorem Text.isBlank_of_printable {c : Char} (printable : 33 ≤ c.toNat ∧ c.toNat < 127) : isBlank c = false := by
  obtain ⟨large, small⟩ := printable
  simp only [isBlank, isWithin, blankRanges, List.any_cons, List.any_nil, Bool.or_false, Bool.or_eq_false_iff,
    Bool.and_eq_false_iff, decide_eq_false_iff_not]
  omega

namespace LengthUnit

private theorem ofSuffix?_eq_some {text : String} {unit : LengthUnit} :
    ofSuffix? text = some unit ↔ unit.suffix = text := by
  constructor
  · intro known
    unfold ofSuffix? at known
    split at known <;> cases known <;> rfl
  · intro same
    exact same ▸ ofSuffix?_suffix unit

private theorem ofSuffix?_eq_none {text : String} : ofSuffix? text = none ↔
    ∀ unit : LengthUnit, unit.suffix ≠ text := by
  constructor
  · intro unknown unit same
    have known := ofSuffix?_eq_some.mpr same
    rw [unknown] at known
    cases known
  · intro other
    cases known : ofSuffix? text with
    | none => rfl
    | some unit => exact absurd (ofSuffix?_eq_some.mp known) (other unit)

private theorem suffix_letters (unit : LengthUnit) :
    unit.suffix.toList.all (fun c => !isBlank c && !Literal.goesOn c) = true := by
  cases unit <;> decide

private theorem suffix_plain (unit : LengthUnit) : ∀ c ∈ unit.suffix.toList, isBlank c = false := by
  intro c member
  have letter := List.all_eq_true.mp unit.suffix_letters c member
  exact (Bool.not_eq_true' _).mp (Bool.and_eq_true_iff.mp letter).1

private theorem suffix_free (unit : LengthUnit) : Free Literal.goesOn unit.suffix.toList := by
  intro c head
  have letter := List.all_eq_true.mp unit.suffix_letters c (List.mem_of_head? head)
  exact (Bool.not_eq_true' _).mp (Bool.and_eq_true_iff.mp letter).2

/-- How many user units one of a unit is worth, in digits. -/
def worth : LengthUnit → String
  | inch => "90"
  | point => "1.25"
  | pixel => "1"
  | millimetre => "3.5433070866"
  | centimetre => "35.433070866"
  | pica => "15"
  | user => "1"

private theorem readDouble?_worth (unit : LengthUnit) : readDouble? unit.worth.toList = some unit.factor := by
  cases unit <;> decide +kernel

end LengthUnit

namespace Length

/-- What a text is read as: a length or an error, and the number of user units that stands for it either way. -/
inductive Reads (input : String) : Except LengthError (Length Float) → Float → Prop where
  | length {core word blanks : List Char} {length : Length Float} {worth : Float} (trims : Trims input.toList core)
      (longest : Longest Grammar.literal core word (blanks ++ length.unit.suffix.toList))
      (blank : ∀ c ∈ blanks, isBlank c = true) (value : readDouble? word = some length.value)
      (rate : readDouble? length.unit.worth.toList = some worth) : Reads input (.ok length) (length.value * worth)
  | noNumber {core : List Char} (trims : Trims input.toList core)
      (absent : ∀ word ∈ Grammar.literal, ¬word <+: core) : Reads input (.error (.invalidNumber input)) 0
  | noUnit {core word rest suffix : List Char} {value : Float} (trims : Trims input.toList core)
      (longest : Longest Grammar.literal core word rest) (behind : Trims rest suffix)
      (other : ∀ unit : LengthUnit, unit.suffix ≠ String.ofList suffix) (read : readDouble? word = some value) :
      Reads input (.error (.unknownUnit input (String.ofList suffix))) value

variable {input : String} {strict : Except LengthError (Length Float)} {lenient : Float}

theorem Reads.parses (reads : Reads input strict lenient) : parse input = strict ∧ parseLenient input = lenient := by
  cases reads with
  | @length core word blanks length worth trims longest blank value rate =>
    rw [LengthUnit.readDouble?_worth] at rate
    cases rate
    obtain ⟨literal, scanned, read⟩ := Literal.scan?_of_longest longest value
    have behind := (Trims.of_blanks blank length.unit.suffix_plain).eq_trim
    have parsed : parse input = .ok length := by
      simp only [parse, trims.eq_trim, scanned, behind, String.ofList_toList, LengthUnit.ofSuffix?_suffix]
      exact congrArg Except.ok (congrArg (Length.mk · length.unit) read)
    refine ⟨parsed, ?_⟩
    rw [parseLenient, parsed]
    rfl
  | noNumber trims absent =>
    have parsed : parse (α := Float) input = .error (.invalidNumber input) := by
      simp only [parse, trims.eq_trim, Literal.scan?_eq_none_iff.mpr absent]
    refine ⟨parsed, ?_⟩
    rw [parseLenient, parsed]
    rfl
  | @noUnit core word rest suffix value trims longest behind other read =>
    obtain ⟨literal, scanned, read⟩ := Literal.scan?_of_longest longest read
    have parsed : parse (α := Float) input = .error (.unknownUnit input (String.ofList suffix)) := by
      simp only [parse, trims.eq_trim, scanned, behind.eq_trim, LengthUnit.ofSuffix?_eq_none.mpr other]
    refine ⟨parsed, ?_⟩
    simp only [parseLenient, parsed, trims.eq_trim, scanned]
    exact read

private theorem exists_reads (input : String) : ∃ strict lenient, Reads input strict lenient := by
  have trims := Text.trims_trim input.toList
  cases scanned : Literal.scan? (trim input.toList) with
  | none => exact ⟨_, _, .noNumber trims (Literal.scan?_eq_none_iff.mp scanned)⟩
  | some found =>
    obtain ⟨literal, rest⟩ := found
    have longest := Literal.scan?_eq_some_iff.mp ⟨literal, scanned, rfl⟩
    have value := Literal.readDouble?_text (Literal.scan?_sound scanned)
    have behind := Text.trims_trim rest
    cases known : LengthUnit.ofSuffix? (String.ofList (trim rest)) with
    | none => exact ⟨_, _, .noUnit trims longest behind (LengthUnit.ofSuffix?_eq_none.mp known) value⟩
    | some unit =>
      have ended : Free isBlank rest.reverse := by
        have finish := trims.finish
        rw [longest.split, List.reverse_append] at finish
        exact finish.of_front ⟨_, rfl⟩
      obtain ⟨blanks, front, blank⟩ := behind.leading ended
      have suffix : unit.suffix.toList = trim rest := by
        rw [LengthUnit.ofSuffix?_eq_some.mp known, String.toList_ofList]
      rw [front, ← suffix] at longest
      have reads : Reads input (.ok ⟨_, unit⟩) _ := .length trims longest blank value unit.readDouble?_worth
      exact ⟨_, _, reads⟩

/-- Every text is read in exactly one of the three ways. -/
theorem parse_iff_reads (input : String) (strict : Except LengthError (Length Float)) (lenient : Float) :
    parse input = strict ∧ parseLenient input = lenient ↔ Reads input strict lenient := by
  constructor
  · intro read
    obtain ⟨found, value, reads⟩ := exists_reads input
    obtain ⟨rfl, rfl⟩ := reads.parses
    obtain ⟨rfl, rfl⟩ := read
    exact reads
  · exact Reads.parses

/-- A length is read as what was written: the same double, the sign of a zero as well, and the same unit. -/
theorem parse_text {length : Length Float} (finite : length.value.isFinite = true) : parse length.text = .ok length := by
  have sound := Layout.plainLiteral_sound length.value
  have chars : length.text.toList = (Layout.plainLiteral length.value).text ++ length.unit.suffix.toList := by
    simp only [text, plainText, Layout.plain_text finite, String.toList_append, String.toList_ofList]
  have plain : ∀ c ∈ length.text.toList, isBlank c = false := by
    intro c member
    rw [chars] at member
    rcases List.mem_append.mp member with inside | behind
    · exact Text.isBlank_of_printable (sound.part c inside).printable
    · exact length.unit.suffix_plain c behind
  have scanned := Literal.scan?_text sound length.unit.suffix_free
  have value := Layout.ofDecimal_plainLiteral finite
  have alone : trim length.unit.suffix.toList = length.unit.suffix.toList := Text.trim_self length.unit.suffix_plain
  rw [parse, Text.trim_self plain, chars, scanned]
  simp only [alone, String.ofList_toList, LengthUnit.ofSuffix?_suffix]
  exact congrArg Except.ok (congrArg (Length.mk · length.unit) value)

/-- A zero keeps its sign. -/
theorem parse_text_zero :
    let length : Length Float := ⟨Double.ofPattern true 0, .pica⟩
    length.value.isFinite = true ∧ length.text = "-0pc" ∧ parse "-0pc" = .ok length := by
  intro length
  have finite : length.value.isFinite = true := by decide +kernel
  have written : length.text = "-0pc" := by decide +kernel
  exact ⟨finite, written, written ▸ parse_text finite⟩

end Length
end EnvelopeWarp
