import EnvelopeWarp.Proofs.DoubleText
import EnvelopeWarp.Proofs.TomlText
import EnvelopeWarp.Toml.Scalar

/-! Values without parts in settings tables are read back. A number that is written with digits and a point is no date
and no time, and every double has a text that reads as this double. -/

namespace EnvelopeWarp

namespace Toml

private theorem mark?_of_not_mem {mark : Char} {text : List Char} (absent : mark ∉ text) : mark? mark text = none := by
  cases text with
  | nil => rfl
  | cons c text =>
    have other : c ≠ mark := fun same => absent (same ▸ List.mem_cons_self)
    exact if_neg other

/-- A text without the marks between the parts of dates and times is neither. -/
structure Untimed (word : List Char) : Prop where
  colon : ':' ∉ word
  minus : '-' ∉ word.tail

theorem Untimed.date? {word : List Char} (untimed : Untimed word) : date? word = none := by
  have unmarked : mark? '-' (word.drop 4) = none := by
    refine mark?_of_not_mem fun member => untimed.minus ?_
    rw [← List.drop_one]
    exact List.mem_of_mem_drop (i := 3) (by rwa [List.drop_drop])
  unfold Toml.date?
  simp only
  split
  · rw [unmarked]
    rfl
  · rfl

private theorem two?_drop {low high : Nat} {text rest : List Char} {value : Nat}
    (found : two? low high text = some (value, rest)) : rest = text.drop 2 := by
  unfold two? at found
  split at found
  · split at found
    · simp only at found
      split at found
      · cases found
        rfl
      · cases found
    · cases found
  · cases found

theorem Untimed.time? {word : List Char} (untimed : Untimed word) : time? word = none := by
  unfold Toml.time?
  cases hour : two? 0 23 word with
  | none => rfl
  | some found =>
    obtain ⟨value, rest⟩ := found
    have absent : ':' ∉ rest := fun member => untimed.colon (List.mem_of_mem_drop (two?_drop hour ▸ member))
    change ((mark? ':' rest).bind _) = none
    rw [mark?_of_not_mem absent]
    rfl

/-- A word that is neither a date nor a time is read as a number or as one of some names. -/
theorem scalar?_word {word after : List Char} {data : Data} (chars : ∀ c ∈ word, isWordChar c = true)
    (free : Free isWordChar after) (untimed : Untimed word) (found : ofWord? word = some data) :
    scalar? (word ++ after) = some (data, after) := by
  cases word with
  | nil => cases found
  | cons c word =>
    have open_ : isWordChar c = true := chars c (.head _)
    have double : c ≠ '\x22' := by rintro rfl; cases open_
    have single : c ≠ '\x27' := by rintro rfl; cases open_
    have undated : isDate (c :: word) = false := by
      unfold isDate
      rw [untimed.date?]
      rfl
    have read : word? (c :: word ++ after) = some (data, after) := by
      unfold word?
      simp only
      rw [takeWhile_of_free chars free, dropWhile_of_free chars free]
      rw [undated, found]
      rfl
    rw [← read]
    unfold scalar?
    split
    · next same => exact absurd (List.cons.inj same).1 double
    · next same => exact absurd (List.cons.inj same).1 single
    · rfl

private theorem digits?_cons {isDigit : Char → Bool} {c d : Char} (digit : isDigit c = true) (other : d ≠ '_')
    (digits : List Char) : digits? isDigit (c :: d :: digits) = (digits? isDigit (d :: digits)).map (c :: ·) := by
  rw [digits?.eq_4 isDigit c (d :: digits) nofun fun _ same => other (List.cons.inj same).1, if_pos digit]

private theorem digits?_eq {isDigit : Char → Bool} (none_under : isDigit '_' = false) {digits : List Char}
    (some_digit : digits ≠ []) (all : ∀ c ∈ digits, isDigit c = true) : digits? isDigit digits = some digits := by
  induction digits with
  | nil => exact absurd rfl some_digit
  | cons c digits ih =>
    cases digits with
    | nil => exact if_pos (all c (.head _))
    | cons d digits =>
      have other : d ≠ '_' := by
        rintro rfl
        rw [all '_' (.tail _ (.head _))] at none_under
        cases none_under
      rw [digits?_cons (all c (.head _)) other, ih (List.cons_ne_nil _ _) fun e member => all e (.tail _ member)]
      rfl

private theorem whole?_eq {digits : List Char} (some_digit : digits ≠ []) (all : ∀ c ∈ digits, c.isDigit = true)
    (leads : digits.head? = some '0' → digits.length = 1) : whole? digits = some digits := by
  unfold whole?
  rw [if_neg fun both => absurd (leads both.1) (Nat.ne_of_gt both.2)]
  exact digits?_eq (by decide) some_digit all

private theorem isDigitChar_of_isDigit {c : Char} (digit : c.isDigit = true) : isDigitChar c = true :=
  Bool.or_eq_true_iff.mpr (.inl digit)

private theorem isWordChar_of_isDigit {c : Char} (digit : c.isDigit = true) : isWordChar c = true := by
  simp [isWordChar, Char.isAlphanum, digit]

section Real
variable {sign : Option Char} {whole fraction : List Char}

private theorem tail?_fraction (some_digit : fraction ≠ []) (digits : ∀ c ∈ fraction, c.isDigit = true) :
    tail? sign whole ('.' :: fraction) = some ⟨sign, whole, some fraction, none⟩ := by
  have all : ∀ c ∈ fraction, isDigitChar c = true := fun c member => isDigitChar_of_isDigit (digits c member)
  unfold tail?
  simp only
  rw [List.takeWhile_eq_self_iff.mpr all, List.dropWhile_eq_nil_iff.mpr all, digits?_eq (by decide) some_digit digits]
  rfl

/-- A literal with a point is read as the number that it writes, if this is no too large. -/
theorem real?_text (signed : ∀ c ∈ sign, isSign c = true) (some_digit : whole ≠ [])
    (digits : ∀ c ∈ whole, c.isDigit = true) (leads : whole.head? = some '0' → whole.length = 1)
    (some_fraction : fraction ≠ []) (fraction_digits : ∀ c ∈ fraction, c.isDigit = true) {x : Float}
    (value : Double.ofDecimal (⟨sign, whole, some fraction, none⟩ : Literal).value = x)
    (bounded : Double.magnitude x ≠ Double.infinity) :
    real? (sign.toList ++ (whole ++ '.' :: fraction)) = some (.real x) := by
  have unsigned : Free isSign (whole ++ '.' :: fraction) := by
    obtain ⟨c, rest, rfl⟩ := List.exists_cons_of_ne_nil some_digit
    exact .cons (isSign_of_isDigit c (digits c (.head _)))
  have chars : ∀ c ∈ whole, isDigitChar c = true := fun c member => isDigitChar_of_isDigit (digits c member)
  have point : Free isDigitChar ('.' :: fraction) := .cons (by decide)
  unfold real?
  simp only [takeSign_toList signed unsigned, takeWhile_of_free chars point, dropWhile_of_free chars point,
    whole?_eq some_digit digits leads, tail?_fraction some_fraction fraction_digits, Option.bind_eq_bind,
    Option.bind_some, value, bounded, false_and, if_false]
  rfl

end Real

private theorem untimed_of_digits {digits : List Char} (all : ∀ c ∈ digits, c.isDigit = true ∨ c = '.')
    (negative : Bool) : Untimed (signText negative ++ digits) := by
  have absent {mark : Char} (no_digit : mark.isDigit = false) (other : mark ≠ '.') : mark ∉ digits := by
    intro member
    rcases all mark member with digit | point
    · rw [no_digit] at digit
      cases digit
    · exact other point
  have colon : ':' ∉ digits := absent (by decide) (by decide)
  have minus : '-' ∉ digits := absent (by decide) (by decide)
  cases negative with
  | false => exact ⟨colon, fun member => minus (List.mem_of_mem_tail member)⟩
  | true => exact ⟨by simpa [signText] using colon, minus⟩

theorem Untimed.ofWord? {word : List Char} (untimed : Untimed word) : ofWord? word =
    ((real? word).orElse fun _ => integer? word).orElse fun _ => (notFinite? word).orElse fun _ => flag? word := by
  have no_moment : isMoment word = false := by
    unfold isMoment
    rw [untimed.date?, untimed.time?]
    rfl
  unfold Toml.ofWord?
  rw [no_moment]
  rfl

private theorem signText_eq (negative : Bool) : signText negative = (if negative then some '-' else none).toList := by
  cases negative <;> rfl

private theorem isWordChar_of_digits {digits : List Char} (all : ∀ c ∈ digits, c.isDigit = true ∨ c = '.')
    (negative : Bool) : ∀ c ∈ signText negative ++ digits, isWordChar c = true := by
  intro c member
  rcases List.mem_append.mp member with sign | rest
  · cases negative
    · cases sign
    · rw [List.mem_singleton.mp sign]
      rfl
  · rcases all c rest with digit | rfl
    · exact isWordChar_of_isDigit digit
    · rfl

private theorem scalar?_pointed {number : Positional} (sound : number.Sound)
    (leads : number.whole.head? = some '0' → number.whole.length = 1) {negative : Bool} {x : Float}
    (value : Double.ofDecimal (number.pointedLiteral negative).value = x)
    (bounded : Double.magnitude x ≠ Double.infinity) {after : List Char} (free : Free isWordChar after) :
    scalar? (signText negative ++ number.pointed ++ after) = some (.real x, after) := by
  obtain ⟨fraction, some_fraction, fraction_digits, pointed, literal⟩ := sound.exists_pointed
  rw [literal] at value
  have all : ∀ c ∈ number.whole ++ '.' :: fraction, c.isDigit = true ∨ c = '.' := by
    intro c member
    rcases List.mem_append.mp member with whole | rest
    · exact .inl (sound.whole c whole)
    · exact (List.mem_cons.mp rest).symm.imp_left (fraction_digits c)
  have untimed := untimed_of_digits all negative
  have signed : ∀ c ∈ (if negative then some '-' else none), isSign c = true := by
    cases negative <;> simp [isSign]
  rw [pointed]
  refine scalar?_word (isWordChar_of_digits all negative) free untimed ?_
  rw [untimed.ofWord?, signText_eq, real?_text signed sound.some_digit sound.whole leads some_fraction fraction_digits
    value bounded]
  rfl

/-- Every double is read back from its text. -/
theorem scalar?_real (x : Float) {after : List Char} (free : Free isWordChar after) :
    scalar? (Layout.tabular.text x ++ after) = some (.real x, after) := by
  have not_number : Layout.tabular.notNumber = ['n', 'a', 'n'] := rfl
  have infinite (negative : Bool) : Layout.tabular.infinite negative = signText negative ++ ['i', 'n', 'f'] := rfl
  unfold Layout.text
  split
  · next above =>
    rw [Double.eq_of_infinity_lt above, not_number]
    exact scalar?_word (List.all_eq_true.mp rfl) free ⟨by decide, by decide⟩ rfl
  · split
    · next unbounded =>
      have bits := Double.ofPattern_self x
      rw [unbounded] at bits
      rw [← bits, infinite]
      cases Double.negative x
      · exact scalar?_word (List.all_eq_true.mp rfl) free ⟨by decide, by decide⟩ rfl
      · exact scalar?_word (List.all_eq_true.mp rfl) free ⟨by decide, by decide⟩ rfl
    · next bounded unbounded =>
      have finite : x.isFinite = true := (Double.isFinite_iff x).mpr (by omega)
      exact scalar?_pointed (Positional.sound_ofDigits _ _) (Positional.head_ofDigits _ _) (Layout.ofDecimal_pointed finite)
        unbounded free

section Natural
variable {value : Nat}

private theorem whole?_decimalDigits : whole? (decimalDigits value) = some (decimalDigits value) := by
  refine whole?_eq Nat.toDigits_ne_nil (fun c => isDigit_of_mem_decimalDigits) fun zero => ?_
  rcases Nat.eq_zero_or_pos value with rfl | positive
  · rfl
  · exact absurd zero (head_decimalDigits positive)

private theorem takeSign_decimalDigits : takeSign (decimalDigits value) = (none, decimalDigits value) := by
  have unsigned : Free isSign (decimalDigits value) := fun c head =>
    isSign_of_isDigit c (isDigit_of_mem_decimalDigits (List.mem_of_head? head))
  exact @takeSign_toList none _ nofun unsigned

private theorem real?_decimalDigits : real? (decimalDigits value) = none := by
  have chars : ∀ c ∈ decimalDigits value, isDigitChar c = true := fun c member =>
    isDigitChar_of_isDigit (isDigit_of_mem_decimalDigits member)
  unfold real?
  simp only [takeSign_decimalDigits, List.takeWhile_eq_self_iff.mpr chars, List.dropWhile_eq_nil_iff.mpr chars,
    whole?_decimalDigits, Option.bind_eq_bind, Option.bind_some]
  rfl

private theorem bounded?_natural (small : value < wholeLimit) : bounded? value = some (.whole value) := by
  unfold bounded?
  generalize wholeLimit = limit at small ⊢
  rw [if_pos ⟨by omega, by omega⟩]

private theorem integer?_decimalDigits (small : value < wholeLimit) :
    integer? (decimalDigits value) = some (.whole value) := by
  have no_letter {mark : Char} (other : mark.isDigit = false) (rest : List Char) :
      decimalDigits value ≠ '0' :: mark :: rest := by
    intro same
    have member : mark ∈ decimalDigits value := by
      rw [same]
      exact .tail _ (.head _)
    rw [isDigit_of_mem_decimalDigits member] at other
    cases other
  unfold integer?
  split
  · next same => exact absurd same (no_letter (by decide) _)
  · next same => exact absurd same (no_letter (by decide) _)
  · next same => exact absurd same (no_letter (by decide) _)
  · have unsigned : (if (none : Option Char) = some '-' then -(digitsValue (decimalDigits value) : Int)
        else digitsValue (decimalDigits value)) = value := by rw [if_neg nofun, digitsValue_decimalDigits]
    rw [takeSign_decimalDigits, whole?_decimalDigits, Option.bind_some, unsigned, bounded?_natural small]

/-- A number that fits into eight bytes is read back from its digits. -/
theorem scalar?_natural (small : value < wholeLimit) {after : List Char} (free : Free isWordChar after) :
    scalar? (decimalDigits value ++ after) = some (.whole value, after) := by
  have digits : ∀ c ∈ decimalDigits value, c.isDigit = true := fun c => isDigit_of_mem_decimalDigits
  have untimed : Untimed (decimalDigits value) := untimed_of_digits (fun c member => .inl (digits c member)) false
  refine scalar?_word (fun c member => isWordChar_of_isDigit (digits c member)) free untimed ?_
  rw [untimed.ofWord?, real?_decimalDigits, integer?_decimalDigits small]
  rfl

end Natural

/-- A text is read back from between its quotes, where no other quote follows them. -/
theorem scalar?_text (text : String) {after : List Char} (double : after.head? ≠ some '\x22')
    (single : after.head? ≠ some '\x27') : scalar? (quote text.toList ++ after) = some (.text text, after) := by
  have read := text?_quote double single text.toList
  obtain ⟨mark, rest, shape, quotes⟩ : ∃ mark rest, quote text.toList ++ after = mark :: rest ∧
      (mark = '\x22' ∨ mark = '\x27') := by
    unfold quote
    cases Quoting.ofText text.toList
    · exact ⟨_, _, rfl, .inl rfl⟩
    · exact ⟨_, _, rfl, .inr rfl⟩
    · exact ⟨_, _, rfl, .inl rfl⟩
    · exact ⟨_, _, rfl, .inr rfl⟩
  rw [shape] at read ⊢
  unfold scalar?
  rcases quotes with rfl | rfl
  · simp only [read, Option.map_some, String.ofList_toList]
  · simp only [read, Option.map_some, String.ofList_toList]

/-- A value as it is read back. -/
def Scalar.data : Scalar → Data
  | text value => .text value
  | natural value => .whole value
  | real value => .real value

/-- Numbers in tables fit into eight bytes with a sign. -/
def Scalar.Fits : Scalar → Prop
  | natural value => value < wholeLimit
  | _ => True

/-- What is written of a value at the end of a line is read as this value. -/
theorem scalar?_write {value : Scalar} (fits : value.Fits) (after : List Char) :
    scalar? (value.write ++ '\n' :: after) = some (value.data, '\n' :: after) := by
  cases value with
  | text value => exact scalar?_text value (by simp) (by simp)
  | natural value => exact scalar?_natural fits (.cons (by decide))
  | real value => exact scalar?_real value (.cons (by decide))

end Toml
end EnvelopeWarp
