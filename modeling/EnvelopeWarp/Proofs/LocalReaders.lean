import EnvelopeWarp.Proofs.PathGrammar

/-! What a reader of path data takes does not depend on what lies far ahead. The longest literal ends at a character that
no literal goes on with, or at one that this literal cannot go on with, so the text behind it may be replaced by any that
starts in one of these ways. Only the letter of a power is decided by the digits behind it, and no token starts with it. -/

namespace EnvelopeWarp

/-- The letter of a power counts only with digits behind it. -/
def isMark (c : Char) : Bool :=
  c == 'e' || c == 'E'

/-- A text that may take the place of the rest behind a token. -/
def Continues (rest more : List Char) : Prop :=
  ∀ c ∈ more.head?, Literal.goesOn c = true → rest.head? = some c ∧ isMark c = false

theorem continues_of_free {more : List Char} (free : Free Literal.goesOn more) (rest : List Char) : Continues rest more := by
  intro c head goes
  rw [free c head] at goes
  cases goes

/-- A text that starts with a token may be followed by anything instead. -/
theorem Continues.append {rest more : List Char} (continues : Continues rest more) {word : List Char}
    (free : Free isMark word) : Continues (word ++ rest) (word ++ more) := by
  cases word with
  | nil => exact continues
  | cons c word =>
    intro d head _
    cases head
    exact ⟨rfl, free c rfl⟩

namespace Literal

theorem Sound.append_digit {literal : Literal} (sound : literal.Sound) {c : Char} (digit : c.isDigit = true) :
    literal.text ++ [c] ∈ Grammar.literal := by
  have longer : ∀ {digits : List Char}, (∀ d ∈ digits, d.isDigit = true) → ∀ d ∈ digits ++ [c], d.isDigit = true := by
    intro digits all d member
    rcases List.mem_append.mp member with inside | last
    · exact all d inside
    · rwa [List.mem_singleton.mp last]
  obtain ⟨sign, whole, fraction, power⟩ := literal
  obtain ⟨signs, digits, fractional, some_digit, powered⟩ := sound
  refine Grammar.mem_literal.mpr ?_
  cases power with
  | some power =>
    obtain ⟨mark, marks, some_power, all⟩ := powered power rfl
    refine ⟨⟨sign, whole, fraction, some { power with digits := power.digits ++ [c] }⟩,
      ⟨signs, digits, fractional, some_digit, ?_⟩, by simp [text, Power.text]⟩
    intro longer_power same
    cases same
    exact ⟨mark, marks, by simp, longer all⟩
  | none =>
    cases fraction with
    | some tail =>
      refine ⟨⟨sign, whole, some (tail ++ [c]), none⟩, ⟨signs, digits, ?_, by simp, by simp⟩, by simp [text, fractionText]⟩
      intro longer_tail same
      cases same
      exact longer (fractional tail rfl)
    | none =>
      exact ⟨⟨sign, whole ++ [c], none, none⟩, ⟨signs, longer digits, by simp, by simp, by simp⟩,
        by simp [text, fractionText]⟩

theorem Sound.append_point {literal : Literal} (sound : literal.Sound) (pointless : literal.fraction = none)
    (powerless : literal.power = none) : literal.text ++ ['.'] ∈ Grammar.literal := by
  obtain ⟨sign, whole, fraction, power⟩ := literal
  obtain ⟨signs, digits, _, some_digit, _⟩ := sound
  cases pointless
  cases powerless
  refine Grammar.mem_literal.mpr
    ⟨⟨sign, whole, some [], none⟩, ⟨signs, digits, ?_, some_digit, by simp⟩, by simp [text, fractionText]⟩
  intro empty same
  cases same
  exact List.forall_mem_nil _

/-- A literal is read back when it cannot go on with what follows. -/
theorem scan?_text_of_ends {literal : Literal} (sound : literal.Sound) {rest : List Char}
    (digitless : Free Char.isDigit rest) (pointless : literal.fraction = none → literal.power = none → Free (· == '.') rest)
    (markless : literal.power = none → Free isMark rest) : scan? (literal.text ++ rest) = some (literal, rest) := by
  have after : Free Char.isDigit ((literal.power.map Power.text).getD [] ++ rest) := by
    cases powered : literal.power with
    | none => exact digitless
    | some power =>
      refine Free.cons ?_
      rcases (sound.power power powered).mark with mark | mark <;> rw [mark] <;> rfl
  have powered : Power.scan ((literal.power.map Power.text).getD [] ++ rest) = (literal.power, rest) := by
    cases powered : literal.power with
    | none => exact Power.scan_none (markless powered)
    | some power => exact Power.scan_text (sound.power power powered) digitless
  have fractional : scanFraction literal.whole
      (fractionText literal.fraction ++ ((literal.power.map Power.text).getD [] ++ rest)) =
      (literal.fraction, (literal.power.map Power.text).getD [] ++ rest) := by
    cases fraction : literal.fraction with
    | some digits =>
      have some_digit := sound.some_digit
      have none_run : ∀ c ∈ ([] : List Char), c.isDigit = true := fun _ member => nomatch member
      have run : ((literal.power.map Power.text).getD [] ++ rest).takeWhile Char.isDigit = [] :=
        takeWhile_of_free none_run after
      rw [fraction] at some_digit
      rw [fractionText, List.cons_append, scanFraction_point (sound.fraction digits fraction) some_digit, run,
        after.dropWhile, List.append_nil]
    | none =>
      rw [← fraction]
      apply scanFraction_text sound
      intro c head
      refine Bool.or_eq_false_iff.mpr ⟨after c head, ?_⟩
      cases powered : literal.power with
      | none =>
        rw [powered] at head
        exact pointless fraction powered c head
      | some power =>
        rw [powered] at head
        cases head
        rcases (sound.power power powered).mark with mark | mark <;> rw [mark] <;> rfl
  have free : Free Char.isDigit (fractionText literal.fraction ++ ((literal.power.map Power.text).getD [] ++ rest)) := by
    cases literal.fraction with
    | none => exact after
    | some digits => exact Free.cons rfl
  exact scan?_of_steps (sound.takeSign rest) sound.whole free fractional powered sound.some_part

/-- What a scan takes stays the longest literal when the rest is replaced. -/
theorem scan?_replace {literal : Literal} {rest more : List Char}
    (scanned : scan? (literal.text ++ rest) = some (literal, rest)) (continues : Continues rest more) :
    scan? (literal.text ++ more) = some (literal, more) := by
  have sound := scan?_sound scanned
  have longest := (scan?_eq_some_iff.mp ⟨literal, scanned, rfl⟩).longest
  have ended : ∀ {c : Char}, c ∈ more.head? → goesOn c = true → literal.text ++ [c] ∉ Grammar.literal := by
    intro c head goes longer
    obtain ⟨same, _⟩ := continues c head goes
    obtain ⟨tail, rfl⟩ := List.head?_eq_some_iff.mp same
    have shorter := longest _ longer ⟨tail, List.append_assoc _ _ _⟩
    rw [List.length_append, List.length_singleton] at shorter
    omega
  refine scan?_text_of_ends sound (fun c head => ?_) (fun pointless powerless c head => ?_) (fun _ c head => ?_)
  · refine Bool.eq_false_iff.mpr fun digit => ?_
    exact ended head (by simp [goesOn, digit]) (sound.append_digit digit)
  · refine Bool.eq_false_iff.mpr fun point => ?_
    obtain rfl := beq_iff_eq.mp point
    exact ended head rfl (sound.append_point pointless powerless)
  · refine Bool.eq_false_iff.mpr fun mark => ?_
    have goes : goesOn c = true := by
      rcases Bool.or_eq_true_iff.mp mark with letter | letter <;> simp [goesOn, beq_iff_eq.mp letter]
    exact absurd mark (Bool.eq_false_iff.mp (continues c head goes).2)

end Literal

namespace PathData
open Grammar (Separates)

/-- What a reader takes is a word at the front of the text, and it takes it from every text that goes on in the same way. -/
def Local {β : Type} (read : Reader β) : Prop :=
  ∀ text value rest, read text = .ok (value, rest) → ∃ word, text = word ++ rest ∧ Free isMark word ∧
    ∀ more, Continues rest more → read (word ++ more) = .ok (value, more)

private theorem local_pure {β : Type} (value : β) : Local (pure value) := by
  intro text found rest same
  cases same
  exact ⟨[], rfl, Free.nil _, fun more _ => rfl⟩

theorem Local.bind {β γ : Type} {read : Reader β} {next : β → Reader γ} (before : Local read)
    (after : ∀ value, Local (next value)) : Local (read >>= next) := by
  intro text value rest found
  obtain ⟨middle, between, first, second⟩ := Reader.bind_eq_ok.mp found
  obtain ⟨word, rfl, unmarked, again⟩ := before text middle between first
  obtain ⟨more, rfl, later, last⟩ := after middle between value rest second
  refine ⟨word ++ more, (List.append_assoc _ _ _).symm, ?_, fun other continues => ?_⟩
  · cases word with
    | nil => exact later
    | cons c word => exact Free.cons (unmarked c rfl)
  · rw [List.append_assoc]
    exact Reader.bind_eq_ok.mpr ⟨middle, _, again _ (continues.append later), last other continues⟩

/-- A separator in front is no character of a kind to which no separator belongs. -/
theorem free_of_separates {kind : Char → Bool} (apart : ∀ c ∈ Grammar.separators, kind c = false)
    {blanks text : List Char} (separates : Separates blanks) (free : Free kind text) : Free kind (blanks ++ text) := by
  cases blanks with
  | nil => exact free
  | cons c blanks => exact Free.cons (apart c (separates c (.head _)))

private theorem isMark_separators : ∀ c ∈ Grammar.separators, isMark c = false := by simp [Grammar.separators, isMark]

theorem local_number (letter : Char) : Local (number letter) := by
  intro text value rest found
  obtain ⟨blanks, separates, whole⟩ := exists_separates text
  unfold number at found
  split at found
  · next literal tail scanned =>
    cases found
    have sound := Literal.scan?_sound scanned
    have split := Literal.scan?_append scanned
    rw [← split] at scanned whole
    refine ⟨blanks ++ literal.text, by rw [whole, List.append_assoc], ?_, fun more continues => ?_⟩
    · apply free_of_separates isMark_separators separates
      obtain ⟨c, after, shape, kind⟩ := literal.text_starts sound []
      rw [List.append_nil] at shape
      rw [shape]
      refine Free.cons (Bool.eq_false_iff.mpr fun mark => ?_)
      rcases Bool.or_eq_true_iff.mp mark with letter | letter <;> rw [beq_iff_eq.mp letter] at kind <;> revert kind <;> decide
    · rw [List.append_assoc, number, skipSeparators_append separates (free_literal sound more),
        Literal.scan?_replace scanned continues]
  · cases found

theorem local_flag : Local flag := by
  intro text value rest found
  obtain ⟨blanks, separates, whole⟩ := exists_separates text
  have digit : ∀ {c : Char}, skipSeparators text = c :: rest → isSeparator c = false → isMark c = false →
      (∀ more, skipSeparators (blanks ++ c :: more) = c :: more → flag (blanks ++ c :: more) = .ok (value, more)) →
      ∃ word, text = word ++ rest ∧ Free isMark word ∧
        ∀ more, Continues rest more → flag (word ++ more) = .ok (value, more) := by
    intro c ahead other unmarked again
    have front := free_of_separates isMark_separators separates (Free.cons unmarked : Free isMark [c])
    refine ⟨blanks ++ [c], ?_, front, fun more _ => ?_⟩
    · rw [whole, ahead, List.append_assoc]
      rfl
    · rw [List.append_assoc]
      exact again more (skipSeparators_append separates (Free.cons other))
  unfold flag at found
  split at found
  · next ahead =>
    cases found
    exact digit ahead rfl rfl fun more skipped => by simp only [flag, skipped]
  · next ahead =>
    cases found
    exact digit ahead rfl rfl fun more skipped => by simp only [flag, skipped]
  · cases found

theorem local_point (letter : Char) : Local (point letter) :=
  (local_number letter).bind fun _ => (local_number letter).bind fun _ => local_pure _

private theorem local_arc (letter : Char) : Local (arc letter) :=
  (local_point letter).bind fun _ => (local_number letter).bind fun _ => local_flag.bind fun _ =>
    local_flag.bind fun _ => (local_point letter).bind fun _ => local_pure _

theorem local_arguments {letter : Char} {read : Reader (Command Decimal)} (shape : arguments? letter = some read) :
    Local read := by
  have number := local_number letter
  have point := local_point letter
  unfold arguments? at shape
  split at shape <;> first | contradiction | cases shape
  · exact point.bind fun _ => local_pure _
  · exact point.bind fun _ => local_pure _
  · exact number.bind fun _ => local_pure _
  · exact number.bind fun _ => local_pure _
  · exact point.bind fun _ => point.bind fun _ => point.bind fun _ => local_pure _
  · exact point.bind fun _ => point.bind fun _ => local_pure _
  · exact point.bind fun _ => point.bind fun _ => local_pure _
  · exact point.bind fun _ => local_pure _
  · exact local_arc letter
  · exact local_pure _

/-- What a command takes behind its first character, it takes from every text that goes on in the same way. -/
theorem local_command {previous : Option Char} {c letter : Char} {tail rest : List Char} {found : Command Decimal}
    (step : command previous c tail = .ok ((letter, found), rest)) : ∃ words, tail = words ++ rest ∧
      ∀ more, Continues rest more → command previous c (words ++ more) = .ok ((letter, found), more) := by
  have shorter := command_shorter step
  obtain ⟨written, read, start, opening, shape, took⟩ := command_eq_ok.mp step
  obtain ⟨word, split, _, anywhere⟩ := local_arguments shape _ _ _ took
  rcases letterAt_eq_ok.mp start with ⟨_, _, rfl⟩ | ⟨_, _, rfl, _⟩
  · rw [if_pos rfl] at split
    exact ⟨word, split, fun more continues =>
      command_eq_ok.mpr ⟨true, read, start, opening, shape, anywhere more continues⟩⟩
  · rw [if_neg Bool.false_ne_true] at split
    cases word with
    | nil =>
      rw [split, List.nil_append] at shorter
      exact absurd shorter (Nat.lt_irrefl _)
    | cons d words =>
      obtain ⟨rfl, behind⟩ := List.cons.inj split
      exact ⟨words, behind, fun more continues =>
        command_eq_ok.mpr ⟨false, read, start, opening, shape, anywhere more continues⟩⟩

/-- No sentence starts with the letter of a power. -/
theorem free_of_sentence {previous : Option Char} {text : List Char} (sentence : Grammar.Sentence previous text) :
    Free isMark text := by
  have alone {c : Char} (mark : isMark c = true) : c = 'e' ∨ c = 'E' := by
    simpa only [isMark, Bool.or_eq_true, beq_iff_eq] using mark
  cases sentence with
  | finished separates =>
    have free := free_of_separates isMark_separators separates (Free.nil isMark)
    rwa [List.append_nil] at free
  | command separates step others =>
    refine free_of_separates isMark_separators separates ?_
    cases step with
    | lettered shape opening tokens =>
      refine Free.cons (Bool.eq_false_iff.mpr fun mark => ?_)
      rcases alone mark with rfl | rfl <;> cases shape
    | repeated begins again shape tokens =>
      refine Free.cons (Bool.eq_false_iff.mpr fun mark => ?_)
      rcases alone mark with rfl | rfl <;> simp at begins

end PathData
end EnvelopeWarp
