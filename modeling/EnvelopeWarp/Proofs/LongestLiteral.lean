import Mathlib
import EnvelopeWarp.Proofs.LiteralText

/-! The longest literal at the front of a text. Literals are a regular language, and a scan takes the longest prefix of
a text that belongs to it; it finds none only where no prefix does. -/

namespace EnvelopeWarp
open scoped Computability

/-- A word is the longest prefix of a text that belongs to a language, and the rest follows it. -/
structure Longest (language : Language Char) (text word rest : List Char) : Prop where
  belongs : word ∈ language
  split : text = word ++ rest
  longest : ∀ other ∈ language, other <+: text → other.length ≤ word.length

theorem Longest.unique {language : Language Char} {text first second rest after : List Char}
    (one : Longest language text first rest) (other : Longest language text second after) :
    first = second ∧ rest = after := by
  have shorter := other.longest first one.belongs ⟨rest, one.split.symm⟩
  have longer := one.longest second other.belongs ⟨after, other.split.symm⟩
  exact List.append_inj (one.split.symm.trans other.split) (Nat.le_antisymm shorter longer)

namespace Grammar

/-- The words of one of the given characters. -/
def oneOf (chars : List Char) : Language Char :=
  {text | ∃ c ∈ chars, text = [c]}

def optional (language : Language Char) : Language Char :=
  1 + language

def repeated (language : Language Char) : Language Char :=
  language * language∗

def sign : Language Char :=
  oneOf ['+', '-']

def digit : Language Char :=
  oneOf ['0', '1', '2', '3', '4', '5', '6', '7', '8', '9']

/-- Digits with a point behind the first or later, or in front of them all. -/
def mantissa : Language Char :=
  repeated digit * optional (oneOf ['.'] * digit∗) + oneOf ['.'] * repeated digit

def power : Language Char :=
  oneOf ['e', 'E'] * optional sign * repeated digit

def literal : Language Char :=
  optional sign * mantissa * optional power

private theorem mem_optional {language : Language Char} {text : List Char} :
    text ∈ optional language ↔ text = [] ∨ text ∈ language := by
  rw [optional, Language.mem_add, Language.mem_one]

private theorem mem_digit {text : List Char} : text ∈ digit ↔ ∃ c : Char, c.isDigit = true ∧ text = [c] := by
  have digits (c : Char) : c ∈ ['0', '1', '2', '3', '4', '5', '6', '7', '8', '9'] ↔ c.isDigit = true := by
    simp only [List.mem_cons, List.not_mem_nil, or_false, ← Char.toNat_inj, Char.isDigit, Bool.and_eq_true,
      decide_eq_true_eq, ge_iff_le, UInt32.le_iff_toNat_le, Char.toNat_val, Char.reduceToNat]
    omega
  change (∃ c ∈ _, text = [c]) ↔ _
  simp only [digits]

private theorem mem_digits {text : List Char} : text ∈ digit∗ ↔ ∀ c ∈ text, c.isDigit = true := by
  rw [Language.mem_kstar]
  constructor
  · rintro ⟨parts, rfl, digits⟩ c member
    obtain ⟨part, inside, member⟩ := List.mem_flatten.mp member
    obtain ⟨d, digit, rfl⟩ := mem_digit.mp (digits part inside)
    rwa [List.mem_singleton.mp member]
  · intro digits
    refine ⟨text.map fun c => [c], (List.flatMap_singleton' text).symm, fun part member => ?_⟩
    obtain ⟨c, inside, rfl⟩ := List.mem_map.mp member
    exact mem_digit.mpr ⟨c, digits c inside, rfl⟩

private theorem mem_repeated_digit {text : List Char} :
    text ∈ repeated digit ↔ text ≠ [] ∧ ∀ c ∈ text, c.isDigit = true := by
  rw [repeated, Language.mem_mul]
  constructor
  · rintro ⟨first, one, others, many, rfl⟩
    obtain ⟨c, digit, rfl⟩ := mem_digit.mp one
    exact ⟨List.cons_ne_nil _ _, List.forall_mem_cons.mpr ⟨digit, mem_digits.mp many⟩⟩
  · rintro ⟨some_digit, digits⟩
    obtain ⟨c, others, rfl⟩ := List.exists_cons_of_ne_nil some_digit
    obtain ⟨first, many⟩ := List.forall_mem_cons.mp digits
    exact ⟨[c], mem_digit.mpr ⟨c, first, rfl⟩, others, mem_digits.mpr many, rfl⟩

/-- A sign or none. -/
theorem mem_optional_sign {text : List Char} :
    text ∈ optional sign ↔ ∃ mark : Option Char, (∀ c ∈ mark, isSign c = true) ∧ text = mark.toList := by
  have signs (c : Char) : c ∈ ['+', '-'] ↔ isSign c = true := by
    simp only [List.mem_cons, List.not_mem_nil, or_false, isSign, Bool.or_eq_true, beq_iff_eq]
  rw [mem_optional]
  constructor
  · rintro (rfl | ⟨c, member, rfl⟩)
    · exact ⟨none, by simp, rfl⟩
    · exact ⟨some c, fun d same => Option.some.inj same ▸ (signs c).mp member, rfl⟩
  · rintro ⟨_ | c, marks, rfl⟩
    · exact .inl rfl
    · exact .inr ⟨c, (signs c).mpr (marks c rfl), rfl⟩

private theorem mem_mantissa {text : List Char} : text ∈ mantissa ↔ ∃ whole fraction,
    (∀ c ∈ whole, c.isDigit = true) ∧ (∀ digits ∈ fraction, ∀ c ∈ digits, c.isDigit = true) ∧
      whole ++ fraction.getD [] ≠ [] ∧ text = whole ++ Literal.fractionText fraction := by
  rw [mantissa, Language.mem_add, Language.mem_mul, Language.mem_mul]
  constructor
  · rintro (⟨whole, many, after, tail, rfl⟩ | ⟨_, ⟨c, one, rfl⟩, digits, many, rfl⟩)
    · obtain ⟨some_digit, all⟩ := mem_repeated_digit.mp many
      rcases mem_optional.mp tail with rfl | pointed
      · exact ⟨whole, none, all, fun _ absent => (nomatch absent), by simpa using some_digit, rfl⟩
      · obtain ⟨_, ⟨c, one, rfl⟩, digits, run, rfl⟩ := Language.mem_mul.mp pointed
        obtain rfl := List.mem_singleton.mp one
        refine ⟨whole, some digits, all, fun found same => ?_, List.append_ne_nil_of_left_ne_nil some_digit _, rfl⟩
        exact Option.some.inj same ▸ mem_digits.mp run
    · obtain rfl := List.mem_singleton.mp one
      obtain ⟨some_digit, all⟩ := mem_repeated_digit.mp many
      exact ⟨[], some digits, fun _ absent => (nomatch absent), fun found same => Option.some.inj same ▸ all,
        some_digit, rfl⟩
  · rintro ⟨whole, fraction, all, run, some_digit, rfl⟩
    by_cases empty : whole = []
    · subst empty
      cases fraction with
      | none => exact absurd rfl some_digit
      | some digits =>
        exact .inr ⟨['.'], ⟨'.', .head _, rfl⟩, digits, mem_repeated_digit.mpr ⟨some_digit, run digits rfl⟩, rfl⟩
    · refine .inl ⟨whole, mem_repeated_digit.mpr ⟨empty, all⟩, _, mem_optional.mpr ?_, rfl⟩
      cases fraction with
      | none => exact .inl rfl
      | some digits =>
        exact .inr (Language.mem_mul.mpr ⟨['.'], ⟨'.', .head _, rfl⟩, digits, mem_digits.mpr (run digits rfl), rfl⟩)

private theorem mem_optional_power {text : List Char} : text ∈ optional power ↔
    ∃ written : Option Power, (∀ found ∈ written, found.Sound) ∧ text = (written.map Power.text).getD [] := by
  rw [mem_optional]
  constructor
  · rintro (rfl | pow)
    · exact ⟨none, fun _ absent => (nomatch absent), rfl⟩
    · obtain ⟨_, front, digits, many, rfl⟩ := Language.mem_mul.mp pow
      obtain ⟨_, ⟨mark, letter, rfl⟩, _, signed, rfl⟩ := Language.mem_mul.mp front
      obtain ⟨sign, signs, rfl⟩ := mem_optional_sign.mp signed
      obtain ⟨some_digit, all⟩ := mem_repeated_digit.mp many
      refine ⟨some ⟨mark, sign, digits⟩, fun found same => ?_, rfl⟩
      cases same
      exact ⟨by simpa using letter, signs, some_digit, all⟩
  · rintro ⟨_ | found, sound, rfl⟩
    · exact .inl rfl
    · obtain ⟨letter, signs, some_digit, all⟩ := sound found rfl
      refine .inr (Language.mem_mul.mpr ⟨_, Language.mem_mul.mpr ⟨[found.mark], ⟨found.mark, by simpa using letter, rfl⟩,
        found.sign.toList, mem_optional_sign.mpr ⟨_, signs, rfl⟩, rfl⟩, found.digits,
          mem_repeated_digit.mpr ⟨some_digit, all⟩, rfl⟩)

/-- The literals of the grammar are the texts of sound literals. -/
theorem mem_literal {text : List Char} :
    text ∈ literal ↔ ∃ found : Literal, found.Sound ∧ text = found.text := by
  rw [literal, Language.mem_mul]
  constructor
  · rintro ⟨_, front, _, tail, rfl⟩
    obtain ⟨_, signed, _, body, rfl⟩ := Language.mem_mul.mp front
    obtain ⟨sign, signs, rfl⟩ := mem_optional_sign.mp signed
    obtain ⟨whole, fraction, all, run, some_digit, rfl⟩ := mem_mantissa.mp body
    obtain ⟨power, sound, rfl⟩ := mem_optional_power.mp tail
    exact ⟨⟨sign, whole, fraction, power⟩, ⟨signs, all, run, some_digit, sound⟩, by simp [Literal.text]⟩
  · rintro ⟨found, ⟨signs, all, run, some_digit, sound⟩, rfl⟩
    refine ⟨_, Language.mem_mul.mpr ⟨_, mem_optional_sign.mpr ⟨_, signs, rfl⟩, _,
      mem_mantissa.mpr ⟨_, _, all, run, some_digit, rfl⟩, rfl⟩, _, mem_optional_power.mpr ⟨_, sound, rfl⟩, ?_⟩
    simp [Literal.text]

end Grammar

private theorem isSign_of_takeSign {text : List Char} : ∀ c ∈ (takeSign text).1, isSign c = true := by
  intro c taken
  unfold takeSign at taken
  split at taken
  · split at taken
    · next signed =>
      cases taken
      exact signed
    · cases taken
  · cases taken

private theorem isDigit_of_takeWhile {text : List Char} : ∀ c ∈ text.takeWhile Char.isDigit, c.isDigit = true :=
  fun c member => List.all_eq_true.mp List.all_takeWhile c member

theorem Power.scan_sound {text : List Char} : ∀ power ∈ (Power.scan text).1, power.Sound := by
  intro power taken
  unfold Power.scan at taken
  split at taken
  · cases taken
  · split at taken
    · next mark =>
      split at taken
      · cases taken
      · next some_digit =>
        cases taken
        exact ⟨by simpa using mark, isSign_of_takeSign, by simpa using some_digit, isDigit_of_takeWhile⟩
    · cases taken

/-- A scan takes at least any power that the text starts with. -/
theorem Power.scan_covers {power : Power} (sound : power.Sound) (rest : List Char) :
    ∃ found after, Power.scan (power.text ++ rest) = (some found, after) ∧ power.text.length ≤ found.text.length := by
  obtain ⟨mark, sign, digits⟩ := power
  obtain ⟨letter, signs, some_digit, all⟩ := sound
  have run : (digits ++ rest).takeWhile Char.isDigit = digits ++ rest.takeWhile Char.isDigit :=
    List.takeWhile_append_of_pos all
  have unsigned : Free isSign (digits ++ rest) := by
    obtain ⟨d, more, rfl⟩ := List.exists_cons_of_ne_nil some_digit
    exact Free.cons (isSign_of_isDigit d (all d (.head _)))
  have signed := takeSign_toList signs unsigned
  have marked : (mark == 'e' || mark == 'E') = true := by simpa using letter
  refine ⟨⟨mark, sign, digits ++ rest.takeWhile Char.isDigit⟩, (digits ++ rest).dropWhile Char.isDigit, ?_, ?_⟩
  · simp only at some_digit
    simp [Power.scan, Power.text, marked, signed, run, some_digit]
  · simp only [Power.text, List.length_append, List.length_cons]
    omega

namespace Literal

private theorem scanFraction_digits {whole text : List Char} :
    ∀ digits ∈ (scanFraction whole text).1, (∀ c ∈ digits, c.isDigit = true) ∧ whole ++ digits ≠ [] := by
  intro digits taken
  unfold scanFraction at taken
  split at taken
  · split at taken
    · cases taken
    · next some_digit =>
      cases taken
      exact ⟨isDigit_of_takeWhile, by simpa using some_digit⟩
  · cases taken

theorem scan?_sound {text rest : List Char} {literal : Literal} (found : scan? text = some (literal, rest)) :
    literal.Sound := by
  simp only [scan?] at found
  split at found
  · cases found
  · next some_part =>
    cases found
    refine ⟨isSign_of_takeSign, isDigit_of_takeWhile, fun digits taken => (scanFraction_digits digits taken).1, ?_,
      Power.scan_sound⟩
    generalize (takeSign text).2.takeWhile Char.isDigit = whole at some_part ⊢
    cases taken : (scanFraction whole ((takeSign text).2.dropWhile Char.isDigit)).1 with
    | some digits => exact (scanFraction_digits digits taken).2
    | none => simpa [taken] using some_part

/-- A scan by its steps. -/
theorem scan?_of_steps {text whole tail after rest : List Char} {sign : Option Char} {fraction : Option (List Char)}
    {power : Option Power} (signed : takeSign text = (sign, whole ++ tail)) (digits : ∀ c ∈ whole, c.isDigit = true)
    (free : Free Char.isDigit tail) (fractional : scanFraction whole tail = (fraction, after))
    (powered : Power.scan after = (power, rest)) (some_part : whole ≠ [] ∨ fraction ≠ none) :
    scan? text = some (⟨sign, whole, fraction, power⟩, rest) := by
  have part : ¬(whole.isEmpty && fraction.isNone) = true := by
    rw [Bool.and_eq_true, List.isEmpty_iff, Option.isNone_iff_eq_none]
    exact fun none_part => some_part.elim (fun some_digit => some_digit none_part.1) fun some_point => some_point none_part.2
  simp only [scan?, signed, takeWhile_of_free digits free, dropWhile_of_free digits free, fractional, powered, if_neg part]

private theorem length_text (literal : Literal) :
    literal.text.length = literal.sign.toList.length + literal.whole.length +
    (fractionText literal.fraction).length + ((literal.power.map Power.text).getD []).length := by
  simp only [text, List.length_append]

theorem scanFraction_point {whole digits : List Char} (all : ∀ c ∈ digits, c.isDigit = true)
    (some_digit : whole ++ digits ≠ []) (rest : List Char) : scanFraction whole ('.' :: (digits ++ rest)) =
      (some (digits ++ rest.takeWhile Char.isDigit), rest.dropWhile Char.isDigit) := by
  have run : (digits ++ rest).takeWhile Char.isDigit = digits ++ rest.takeWhile Char.isDigit :=
    List.takeWhile_append_of_pos all
  have after : (digits ++ rest).dropWhile Char.isDigit = rest.dropWhile Char.isDigit := List.dropWhile_append_of_pos all
  simp only [scanFraction, run, after]
  rw [if_neg]
  rw [Bool.and_eq_true, List.isEmpty_iff, List.isEmpty_iff, List.append_eq_nil_iff]
  rintro ⟨rfl, rfl, _⟩
  exact some_digit rfl

/-- A scan of a text covers a part at its front. -/
def Covers (text part : List Char) : Prop :=
  ∃ found after, scan? text = some (found, after) ∧ part.length ≤ found.text.length

theorem Sound.takeSign {literal : Literal} (sound : literal.Sound) (rest : List Char) :
    takeSign (literal.text ++ rest) = (literal.sign,
      literal.whole ++ (fractionText literal.fraction ++ ((literal.power.map Power.text).getD [] ++ rest))) := by
  have signed := takeSign_toList sound.sign (sound.unsigned ((literal.power.map Power.text).getD [] ++ rest))
  rw [← signed]
  simp only [text, List.append_assoc]

theorem Sound.some_part {literal : Literal} (sound : literal.Sound) : literal.whole ≠ [] ∨ literal.fraction ≠ none := by
  cases fraction : literal.fraction with
  | none => exact .inl (by simpa [fraction] using sound.some_digit)
  | some digits => exact .inr (Option.some_ne_none _)

/-- The letter of a power ends the digits before it, so a scan gets as far as the power. -/
theorem covers_power {literal : Literal} (sound : literal.Sound) {power : Power} (powered : literal.power = some power)
    (rest : List Char) : Covers (literal.text ++ rest) literal.text := by
  have signed := sound.takeSign rest
  have written := sound.power power powered
  obtain ⟨found, after, scanned, covers⟩ := Power.scan_covers written rest
  have free : Free (fun c => c.isDigit || c == '.') (power.text ++ rest) := by
    rcases written.mark with mark | mark <;> exact Free.cons (by rw [mark]; rfl)
  have digitless : Free Char.isDigit (fractionText literal.fraction ++ (power.text ++ rest)) := by
    cases literal.fraction with
    | none => exact fun c head => (Bool.or_eq_false_iff.mp (free c head)).1
    | some digits => exact Free.cons rfl
  rw [powered] at signed
  refine ⟨_, after, scan?_of_steps signed sound.whole digitless (scanFraction_text sound free) scanned
    sound.some_part, ?_⟩
  simp only [length_text, powered]
  exact Nat.add_le_add_left covers _

private theorem covers_fraction {literal : Literal} (sound : literal.Sound) (powerless : literal.power = none)
    {digits : List Char} (fraction : literal.fraction = some digits) (rest : List Char) :
    Covers (literal.text ++ rest) literal.text := by
  have signed := sound.takeSign rest
  have some_digit := sound.some_digit
  rw [powerless, fraction] at signed
  rw [fraction] at some_digit
  have fractional := scanFraction_point (sound.fraction digits fraction) some_digit rest
  refine ⟨_, _, scan?_of_steps signed sound.whole (Free.cons rfl) fractional rfl (.inr (Option.some_ne_none _)), ?_⟩
  simp only [length_text, powerless, fraction, fractionText, List.length_cons, List.length_append, Option.map_none,
    Option.getD_none, List.length_nil]
  omega

private theorem covers_whole {literal : Literal} (sound : literal.Sound) (powerless : literal.power = none)
    (pointless : literal.fraction = none) (rest : List Char) : Covers (literal.text ++ rest) literal.text := by
  have signed := sound.takeSign rest
  have some_digit := sound.some_digit
  rw [powerless, pointless] at signed
  rw [pointless, Option.getD_none, List.append_nil] at some_digit
  have longer : literal.whole ++ rest =
      (literal.whole ++ rest.takeWhile Char.isDigit) ++ rest.dropWhile Char.isDigit := by
    rw [List.append_assoc, List.takeWhile_append_dropWhile]
  have digits : ∀ c ∈ literal.whole ++ rest.takeWhile Char.isDigit, c.isDigit = true := fun c member =>
    (List.mem_append.mp member).elim (sound.whole c) (isDigit_of_takeWhile c)
  simp only [fractionText, Option.map_none, Option.getD_none, List.nil_append, longer] at signed
  refine ⟨_, _, scan?_of_steps signed digits (free_dropWhile _ rest) rfl rfl
    (.inl (List.append_ne_nil_of_left_ne_nil some_digit _)), ?_⟩
  simp only [length_text, powerless, pointless, fractionText, List.length_append, Option.map_none, Option.getD_none,
    List.length_nil]
  omega

/-- A scan takes at least any literal that the text starts with. -/
theorem covers_literal {literal : Literal} (sound : literal.Sound) (rest : List Char) :
    Covers (literal.text ++ rest) literal.text := by
  cases powered : literal.power with
  | some power => exact covers_power sound powered rest
  | none =>
    cases fraction : literal.fraction with
    | some digits => exact covers_fraction sound powered fraction rest
    | none => exact covers_whole sound powered fraction rest

/-- What a scan takes is the longest literal at the front of the text. -/
theorem scan?_eq_some_iff {text word rest : List Char} :
    (∃ found, scan? text = some (found, rest) ∧ found.text = word) ↔ Longest Grammar.literal text word rest := by
  have longest {found : Literal} {after : List Char} (scanned : scan? text = some (found, after)) :
      Longest Grammar.literal text found.text after := by
    refine ⟨Grammar.mem_literal.mpr ⟨found, scan?_sound scanned, rfl⟩, (scan?_append scanned).symm, ?_⟩
    rintro other member ⟨tail, rfl⟩
    obtain ⟨literal, sound, rfl⟩ := Grammar.mem_literal.mp member
    obtain ⟨again, _, rescanned, covers⟩ := covers_literal sound tail
    rw [scanned] at rescanned
    cases rescanned
    exact covers
  constructor
  · rintro ⟨found, scanned, rfl⟩
    exact longest scanned
  · intro longest_word
    obtain ⟨literal, sound, rfl⟩ := Grammar.mem_literal.mp longest_word.belongs
    obtain ⟨found, after, scanned, _⟩ := covers_literal sound rest
    rw [← longest_word.split] at scanned
    obtain ⟨same, rfl⟩ := (longest scanned).unique longest_word
    exact ⟨found, scanned, same⟩

/-- A scan fails only where no literal is at the front of the text. -/
theorem scan?_eq_none_iff {text : List Char} : scan? text = none ↔ ∀ word ∈ Grammar.literal, ¬word <+: text := by
  constructor
  · intro none_scanned word member front
    obtain ⟨rest, rfl⟩ := front
    obtain ⟨literal, sound, rfl⟩ := Grammar.mem_literal.mp member
    obtain ⟨found, after, scanned, _⟩ := covers_literal sound rest
    rw [none_scanned] at scanned
    cases scanned
  · intro absent
    cases scanned : scan? text with
    | none => rfl
    | some found =>
      have belongs : found.1.text ∈ Grammar.literal := Grammar.mem_literal.mpr ⟨found.1, scan?_sound scanned, rfl⟩
      exact absurd ⟨found.2, scan?_append scanned⟩ (absent _ belongs)

end Literal
end EnvelopeWarp
