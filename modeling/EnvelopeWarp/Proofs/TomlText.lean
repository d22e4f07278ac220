import EnvelopeWarp.Proofs.TextRuns
import EnvelopeWarp.Toml.Text
import EnvelopeWarp.Toml.Writer

/-! Texts in settings tables are read back. Each of the four notations is read as the text it was written for: with
escapes a character at a time, and without them because the notation is chosen only for texts that it can hold. -/

namespace EnvelopeWarp
namespace Toml

/-- What stands behind a backslash for a character. It starts with a letter or a mark, so no line is joined there. -/
structure Escapes (body : List Char) (c : Char) : Prop where
  read : ∀ rest, escape? (body ++ rest) = some (c, rest)
  starts : ∃ first others, body = first :: others ∧ isBlank first = false ∧ first ≠ '\n' ∧ first ≠ '\r'

private theorem numbered?_codeDigits {c : Char} (control : isControl c = true) (rest : List Char) :
    numbered? 4 (codeDigits c.toNat ++ rest) = some (c, rest) := by
  have codes : ∀ number < 128, (codeDigits number).length = 4 ∧ (codeDigits number).all (Text.isDigitOf 16) = true ∧
      Text.valueOf 16 (codeDigits number) = number := by decide
  have small : c.toNat < 128 := by
    simp only [isControl, Bool.or_eq_true, Bool.and_eq_true, decide_eq_true_eq, beq_iff_eq] at control
    omega
  obtain ⟨length, digits, value⟩ := codes c.toNat small
  have valid : c.toNat.isValidChar := .inl (by omega)
  unfold numbered?
  simp only [List.take_left' length, List.drop_left' length, value, length, digits, valid, Char.ofNat_toNat, and_self,
    if_true]

private theorem isPrinted_of_not_isControl {c : Char} (plain : isControl c = false) (line : c ≠ '\n') :
    isPrinted c = true := by
  by_cases tab : c = '\t'
  · rw [tab]
    decide
  · simp only [isControl, Bool.or_eq_false_iff, Bool.and_eq_false_iff, decide_eq_false_iff_not, bne_eq_false_iff_eq,
      beq_eq_false_iff_ne, tab, line, or_false] at plain
    simp only [isPrinted, Bool.or_eq_true, Bool.and_eq_true, decide_eq_true_eq, bne_iff_ne]
    exact .inr ⟨Nat.not_lt.mp plain.1, plain.2⟩

/-- A character has an escape, or it can be written as it is. -/
theorem escapeOf?_spec (c : Char) : (∃ body, escapeOf? c = some ('\x5c' :: body) ∧ Escapes body c) ∨
    escapeOf? c = none ∧ c ≠ '\x5c' ∧ c ≠ '\r' ∧ (c ≠ '\n' → isPrinted c = true) := by
  unfold escapeOf?
  split
  iterate 5 exact .inl ⟨_, rfl, fun _ => rfl, _, _, rfl, by decide, by decide, by decide⟩
  next _ _ _ other backslash =>
    split
    · next control =>
      refine .inl ⟨_, rfl, fun rest => ?_, _, _, rfl, by decide, by decide, by decide⟩
      exact numbered?_codeDigits control rest
    · next plain =>
      exact .inr ⟨rfl, backslash, other, isPrinted_of_not_isControl (Bool.eq_false_iff.mpr plain)⟩

private theorem escapes_mark : Escapes ['\x22'] '\x22' :=
  ⟨fun _ => rfl, _, _, rfl, by decide, by decide, by decide⟩

private theorem escapes_line : Escapes ['n'] '\n' :=
  ⟨fun _ => rfl, _, _, rfl, by decide, by decide, by decide⟩

theorem Escapes.not_joined {body : List Char} {c : Char} (escapes : Escapes body c) (rest : List Char) :
    joined? (body ++ rest) = none := by
  obtain ⟨first, others, rfl, other, no_line, no_return⟩ := escapes.starts
  have free : Free isBlank (first :: others ++ rest) := .cons other
  unfold joined?
  rw [free.dropWhile, Option.map_eq_none_iff]
  unfold newLine?
  split
  · next same => exact absurd (List.cons.inj same).1 no_line
  · next same => exact absurd (List.cons.inj same).1 no_return
  · rfl

section Line

private theorem basic?_escape {body : List Char} {c : Char} (escapes : Escapes body c) (rest : List Char) :
    basic? ('\x5c' :: (body ++ rest)) = (basic? rest).map fun found => (c :: found.1, found.2) := by
  rw [basic?, if_neg (by decide), if_pos rfl]
  split
  · next step =>
    rw [escapes.read] at step
    cases step
    rfl
  · next failed =>
    rw [escapes.read] at failed
    cases failed

private theorem basic?_char {c : Char} (mark : c ≠ '\x22') (backslash : c ≠ '\x5c') (printed : isPrinted c = true)
    (rest : List Char) : basic? (c :: rest) = (basic? rest).map fun found => (c :: found.1, found.2) := by
  rw [basic?, if_neg mark, if_neg backslash, if_pos printed]

/-- A character is written so that it is read back before anything else is. -/
theorem basic?_piece (c : Char) (run : Nat) (text : List Char) : ∃ first piece,
    escapeFrom false run (c :: text) = first :: piece ++ escapeFrom false 0 text ∧ first ≠ '\x22' ∧
      ∀ rest, basic? (first :: piece ++ rest) = (basic? rest).map fun found => (c :: found.1, found.2) := by
  rw [escapeFrom]
  by_cases mark : c = '\x22'
  · rw [if_pos mark, if_neg (by simp), mark]
    exact ⟨'\x5c', ['\x22'], rfl, by decide, basic?_escape escapes_mark⟩
  · rw [if_neg mark]
    by_cases line : c = '\n'
    · rw [if_pos line, if_neg (by simp), line]
      exact ⟨'\x5c', ['n'], rfl, by decide, basic?_escape escapes_line⟩
    · rw [if_neg line]
      rcases escapeOf?_spec c with ⟨body, escaped, escapes⟩ | ⟨kept, backslash, _, printed⟩
      · rw [escaped]
        exact ⟨'\x5c', body, rfl, by decide, basic?_escape escapes⟩
      · rw [kept]
        exact ⟨c, [], rfl, mark, basic?_char mark backslash (printed line)⟩

private theorem basic?_escapeFrom (text : List Char) (run : Nat) (after : List Char) :
    basic? (escapeFrom false run text ++ '\x22' :: after) = some (text, after) := by
  induction text generalizing run with
  | nil => rw [escapeFrom, List.nil_append, basic?, if_pos rfl]
  | cons c text ih =>
    obtain ⟨first, piece, written, _, read⟩ := basic?_piece c run text
    rw [written, List.append_assoc, read, ih]
    rfl

private theorem literal?_text {text : List Char} (absent : '\x27' ∉ text) (printed : ∀ c ∈ text, isPrinted c = true)
    (after : List Char) : literal? (text ++ '\x27' :: after) = some (text, after) := by
  induction text with
  | nil => rw [List.nil_append, literal?, if_pos rfl]
  | cons c text ih =>
    obtain ⟨other, absent⟩ := not_or.mp (mt List.mem_cons.mpr absent)
    rw [List.cons_append, literal?, if_neg (Ne.symm other), if_pos (printed c (.head _)),
      ih absent fun d member => printed d (.tail _ member)]
    rfl

end Line

section Block

private theorem tripled?_eq_some {quote : Char} {text rest : List Char} :
    tripled? quote text = some rest ↔ text = quote :: quote :: quote :: rest := by
  unfold tripled?
  split
  · next a b c text =>
    constructor
    · intro found
      split at found
      · next all =>
        obtain ⟨rfl, rfl, rfl⟩ := all
        cases found
        rfl
      · cases found
    · intro same
      cases same
      exact if_pos ⟨rfl, rfl, rfl⟩
  · next short => exact ⟨nofun, fun same => absurd same (short _ _ _ _)⟩

private theorem tripled?_eq_none {quote : Char} {text : List Char} :
    tripled? quote text = none ↔ ∀ rest, text ≠ quote :: quote :: quote :: rest := by
  rw [Option.eq_none_iff_forall_ne_some]
  exact forall_congr' fun rest => not_congr tripled?_eq_some

private theorem tripled?_of_ne {quote c : Char} (other : c ≠ quote) (rest : List Char) :
    tripled? quote (c :: rest) = none :=
  tripled?_eq_none.mpr fun _ same => other (List.cons.inj same).1

private theorem tripled?_second {quote d : Char} (other : d ≠ quote) (c : Char) (rest : List Char) :
    tripled? quote (c :: d :: rest) = none := by
  refine tripled?_eq_none.mpr fun _ same => other ?_
  injection same with _ same
  exact (List.cons.inj same).1

private theorem tripled?_third {quote e : Char} (other : e ≠ quote) (c d : Char) (rest : List Char) :
    tripled? quote (c :: d :: e :: rest) = none := by
  refine tripled?_eq_none.mpr fun _ same => other ?_
  injection same with _ same
  injection same with _ same
  exact (List.cons.inj same).1

variable {quote : Char} {after : List Char}

private theorem closing_of_ended (ended : after.head? ≠ some quote) : closing quote after = ([], after) := by
  unfold closing
  split
  · next a b rest => exact if_neg fun same => ended (congrArg some same)
  · next a => exact if_neg fun same => ended (congrArg some same)
  · rfl

private theorem closing_single (ended : after.head? ≠ some quote) :
    closing quote (quote :: after) = ([quote], after) := by
  cases after with
  | nil => exact if_pos rfl
  | cons c after =>
    simp only [closing, if_true]
    exact if_neg fun same => ended (congrArg some same)

private theorem closing_double : closing quote (quote :: quote :: after) = ([quote, quote], after) := by
  simp only [closing, if_true]

private theorem block?_escape {body : List Char} {c : Char} (escapes : Escapes body c) (rest : List Char) :
    block? ('\x5c' :: (body ++ rest)) = (block? rest).map fun found => (c :: found.1, found.2) := by
  rw [block?, tripled?_of_ne (by decide)]
  simp only [if_true]
  split
  · next joined =>
    rw [escapes.not_joined] at joined
    cases joined
  · split
    · next step =>
      rw [escapes.read] at step
      cases step
      rfl
    · next failed =>
      rw [escapes.read] at failed
      cases failed

private theorem block?_char {c : Char} {rest : List Char} (open_ : tripled? '\x22' (c :: rest) = none)
    (backslash : c ≠ '\x5c') (printed : isPrinted c = true) :
    block? (c :: rest) = (block? rest).map fun found => (c :: found.1, found.2) := by
  rw [block?, open_]
  simp only
  rw [if_neg backslash, if_pos printed]

private theorem block?_line (rest : List Char) :
    block? ('\n' :: rest) = (block? rest).map fun found => ('\n' :: found.1, found.2) := by
  rw [block?, tripled?_of_ne (by decide)]
  simp only
  rw [if_neg (by decide), if_neg (by decide)]
  rfl

private theorem block?_closing {text : List Char} :
    block? ('\x22' :: '\x22' :: '\x22' :: text) = some (closing '\x22' text) := by
  rw [block?, tripled?_eq_some.mpr rfl]

/-- A character other than a double quote is written in a block so that it is read back before anything else is. -/
theorem block?_piece {c : Char} (mark : c ≠ '\x22') (run : Nat) (text : List Char) : ∃ first piece,
    escapeFrom true run (c :: text) = first :: piece ++ escapeFrom true 0 text ∧ first ≠ '\x22' ∧
      (first = '\n' → c = '\n') ∧ first ≠ '\r' ∧
      ∀ rest, block? (first :: piece ++ rest) = (block? rest).map fun found => (c :: found.1, found.2) := by
  rw [escapeFrom, if_neg mark]
  by_cases line : c = '\n'
  · rw [if_pos line, if_pos rfl, line]
    exact ⟨'\n', [], rfl, by decide, fun _ => rfl, by decide, block?_line⟩
  · rw [if_neg line]
    rcases escapeOf?_spec c with ⟨body, escaped, escapes⟩ | ⟨kept, backslash, other, printed⟩
    · rw [escaped]
      exact ⟨'\x5c', body, rfl, by decide, nofun, by decide, block?_escape escapes⟩
    · rw [kept]
      refine ⟨c, [], rfl, mark, id, other, fun rest => ?_⟩
      exact block?_char (tripled?_of_ne mark rest) backslash (printed line)

/-- A double quote starts what is written only if fewer than two stand before it. -/
theorem head_escapeFrom {run : Nat} {c : Char} (escaped : c = '\x22' → 2 ≤ run) (text : List Char) :
    ∃ first others, escapeFrom true run (c :: text) = first :: others ∧ first ≠ '\x22' := by
  by_cases mark : c = '\x22'
  · have full : ¬(true = true ∧ run < 2) := fun both => absurd both.2 (Nat.not_lt.mpr (escaped mark))
    rw [escapeFrom, if_pos mark, if_neg full]
    exact ⟨_, _, rfl, by decide⟩
  · obtain ⟨first, piece, written, other, _⟩ := block?_piece mark run text
    exact ⟨first, _, written, other⟩

/-- A quote that is written as it is does not close the block: quotes at the end of a text run into those that close it,
and are told apart from them by their number. -/
theorem block?_quote (ended : after.head? ≠ some '\x22') {run : Nat} {text : List Char}
    (rest : block? (escapeFrom true (run + 1) text ++ '\x22' :: '\x22' :: '\x22' :: after) = some (text, after)) :
    block? ('\x22' :: (escapeFrom true (run + 1) text ++ '\x22' :: '\x22' :: '\x22' :: after)) =
      some ('\x22' :: text, after) := by
  have consumed (open_ : tripled? '\x22' ('\x22' :: (escapeFrom true (run + 1) text ++
      '\x22' :: '\x22' :: '\x22' :: after)) = none) :
      block? ('\x22' :: (escapeFrom true (run + 1) text ++ '\x22' :: '\x22' :: '\x22' :: after)) =
        some ('\x22' :: text, after) := by
    rw [block?_char open_ (by decide) (by decide), rest]
    rfl
  cases text with
  | nil => rw [escapeFrom, List.nil_append, block?_closing, closing_single ended]
  | cons d text =>
    by_cases second : d = '\x22' ∧ run + 1 < 2
    · obtain ⟨rfl, fewer⟩ := second
      cases text with
      | nil =>
        rw [escapeFrom, if_pos rfl, if_pos ⟨rfl, fewer⟩, escapeFrom, List.cons_append, List.nil_append, block?_closing,
          closing_double]
      | cons e text =>
        apply consumed
        obtain ⟨first, others, written, other⟩ :=
          @head_escapeFrom (run + 1 + 1) e (fun _ => Nat.le_add_left 2 run) text
        rw [escapeFrom, if_pos rfl, if_pos ⟨rfl, fewer⟩, written]
        exact tripled?_third other _ _ _
    · apply consumed
      obtain ⟨first, others, written, other⟩ :=
        @head_escapeFrom (run + 1) d (fun same => Nat.not_lt.mp fun less => second ⟨same, less⟩) text
      rw [written]
      exact tripled?_second other _ _

private theorem block?_escapeFrom (ended : after.head? ≠ some '\x22') (text : List Char) (run : Nat) :
    block? (escapeFrom true run text ++ '\x22' :: '\x22' :: '\x22' :: after) = some (text, after) := by
  induction text generalizing run with
  | nil => rw [escapeFrom, List.nil_append, block?_closing, closing_of_ended ended]
  | cons c text ih =>
    by_cases mark : c = '\x22'
    · rw [mark, escapeFrom, if_pos rfl]
      by_cases few : run < 2
      · rw [if_pos ⟨rfl, few⟩, List.cons_append, block?_quote ended (ih (run + 1))]
      · rw [if_neg fun both => few both.2]
        exact (block?_escape escapes_mark _).trans (congrArg (Option.map _) (ih 0))
    · obtain ⟨first, piece, written, _, _, _, read⟩ := block?_piece mark run text
      rw [written, List.append_assoc, read, ih]
      rfl

private theorem literalBlock?_closing {text : List Char} :
    literalBlock? ('\x27' :: '\x27' :: '\x27' :: text) = some (closing '\x27' text) := by
  rw [literalBlock?, tripled?_eq_some.mpr rfl]

private theorem literalBlock?_char {c : Char} {rest : List Char} (open_ : tripled? '\x27' (c :: rest) = none)
    (held : isPrinted c = true ∨ c = '\n') :
    literalBlock? (c :: rest) = (literalBlock? rest).map fun found => (c :: found.1, found.2) := by
  rw [literalBlock?, open_]
  simp only
  rcases held with printed | rfl
  · rw [if_pos printed]
  · rw [if_neg (by decide)]
    rfl

private theorem le_longestRun (c : Char) (run : Nat) (text : List Char) : run ≤ longestRun c run text := by
  induction text generalizing run with
  | nil => exact Nat.le_refl run
  | cons d text ih =>
    unfold longestRun
    split
    · exact Nat.le_trans (Nat.le_succ run) (ih (run + 1))
    · exact Nat.le_max_left _ _

private theorem longestRun_mono (c : Char) {run more : Nat} (le : run ≤ more) (text : List Char) :
    longestRun c run text ≤ longestRun c more text := by
  induction text generalizing run more with
  | nil => exact le
  | cons d text ih =>
    unfold longestRun
    split
    · exact ih (Nat.succ_le_succ le)
    · exact Nat.max_le.mpr ⟨Nat.le_trans le (Nat.le_max_left _ _), Nat.le_max_right _ _⟩

private theorem longestRun_tail (c d : Char) (run : Nat) (text : List Char) :
    longestRun c 0 text ≤ longestRun c run (d :: text) := by
  rw [longestRun]
  split
  · exact longestRun_mono c (Nat.zero_le _) text
  · exact Nat.le_max_right _ _

private theorem longestRun_pos_of_mem {c : Char} {text : List Char} (member : c ∈ text) (run : Nat) :
    0 < longestRun c run text := by
  induction text generalizing run with
  | nil => cases member
  | cons d text ih =>
    rcases List.mem_cons.mp member with rfl | later
    · rw [longestRun, if_pos rfl]
      exact Nat.lt_of_lt_of_le (Nat.succ_pos run) (le_longestRun _ _ _)
    · exact Nat.lt_of_lt_of_le (ih later 0) (longestRun_tail c d run text)

private theorem literalBlock?_text (ended : after.head? ≠ some '\x27') {text : List Char}
    (held : ∀ c ∈ text, isPrinted c = true ∨ c = '\n') (few : longestRun '\x27' 0 text ≤ 2) :
    literalBlock? (text ++ '\x27' :: '\x27' :: '\x27' :: after) = some (text, after) := by
  induction text with
  | nil => rw [List.nil_append, literalBlock?_closing, closing_of_ended ended]
  | cons c text ih =>
    have consumed (open_ : tripled? '\x27' (c :: (text ++ '\x27' :: '\x27' :: '\x27' :: after)) = none) :
        literalBlock? (c :: (text ++ '\x27' :: '\x27' :: '\x27' :: after)) = some (c :: text, after) := by
      have rest := ih (fun d member => held d (.tail _ member)) (Nat.le_trans (longestRun_tail _ _ _ _) few)
      rw [literalBlock?_char open_ (held c (.head _)), rest]
      rfl
    rw [List.cons_append]
    by_cases mark : c = '\x27'
    · subst mark
      cases text with
      | nil => rw [List.nil_append, literalBlock?_closing, closing_single ended]
      | cons d text =>
        by_cases second : d = '\x27'
        · subst second
          cases text with
          | nil => rw [List.cons_append, List.nil_append, literalBlock?_closing, closing_double]
          | cons e text =>
            refine consumed (tripled?_third (fun third => ?_) _ _ _)
            subst third
            have three := le_longestRun '\x27' 3 text
            simp only [longestRun, if_true] at few
            exact absurd (Nat.le_trans three few) (by decide)
        · exact consumed (tripled?_second second _ _)
    · exact consumed (tripled?_of_ne mark _)

end Block

/-- A notation without escapes is chosen only for a text that it can hold. -/
theorem Quoting.ofText_spec (text : List Char) :
    (ofText text = .literal → '\x27' ∉ text ∧ ∀ c ∈ text, isPrinted c = true) ∧
    (ofText text = .literalBlock → longestRun '\x27' 0 text ≤ 2 ∧ ∀ c ∈ text, isControl c = false) := by
  have plain (control : text.any isControl = false) : ∀ c ∈ text, isControl c = false :=
    fun c member => Bool.eq_false_iff.mpr (List.any_eq_false.mp control c member)
  unfold ofText
  simp only
  split
  · exact ⟨nofun, nofun⟩
  split
  · next literal =>
    simp only [Bool.and_eq_true, Bool.not_eq_true', decide_eq_true_eq] at literal
    obtain ⟨⟨control, none_run⟩, lines⟩ := literal
    refine ⟨fun _ => ⟨fun member => ?_, fun c member => ?_⟩, nofun⟩
    · exact absurd none_run (Nat.ne_of_gt (longestRun_pos_of_mem member 0))
    · refine isPrinted_of_not_isControl (plain control c member) fun line => ?_
      rw [List.contains_eq_mem, decide_eq_false_iff_not] at lines
      exact lines (line ▸ member)
  split
  · exact ⟨nofun, nofun⟩
  split
  · next literal =>
    simp only [Bool.and_eq_true, Bool.not_eq_true', decide_eq_true_eq] at literal
    exact ⟨nofun, fun _ => ⟨literal.2, plain literal.1⟩⟩
  · split <;> exact ⟨nofun, nofun⟩

/-- A line break right behind three quotes is dropped, so a text with lines is written behind one. -/
theorem skipNewLine_lead {text body : List Char} (starts : ∀ c ∈ body.head?, c ≠ '\r' ∧ ('\n' ∉ text → c ≠ '\n')) :
    skipNewLine ((if text.contains '\n' then ['\n'] else []) ++ body) = body := by
  by_cases lines : '\n' ∈ text
  · rw [if_pos (by simpa using lines)]
    rfl
  · rw [if_neg (by simpa using lines), List.nil_append]
    unfold skipNewLine newLine?
    split
    · exact absurd rfl ((starts '\n' rfl).2 lines)
    · exact absurd rfl (starts '\r' rfl).1
    · rfl

private theorem text?_basic {rest : List Char} (open_ : tripled? '\x22' ('\x22' :: rest) = none) :
    text? ('\x22' :: rest) = basic? rest := by
  unfold text?
  rw [open_, tripled?_of_ne (by decide)]
  rfl

private theorem text?_literal {rest : List Char} (open_ : tripled? '\x27' ('\x27' :: rest) = none) :
    text? ('\x27' :: rest) = literal? rest := by
  unfold text?
  rw [open_, tripled?_of_ne (by decide)]
  rfl

private theorem text?_block (rest : List Char) :
    text? ('\x22' :: '\x22' :: '\x22' :: rest) = block? (skipNewLine rest) := by
  unfold text?
  rw [tripled?_eq_some.mpr rfl]

private theorem text?_literalBlock (rest : List Char) :
    text? ('\x27' :: '\x27' :: '\x27' :: rest) = literalBlock? (skipNewLine rest) := by
  unfold text?
  rw [tripled?_of_ne (by decide), tripled?_eq_some.mpr rfl]

private theorem tripled?_pair {quote : Char} {after : List Char} (ended : after.head? ≠ some quote) :
    tripled? quote (quote :: quote :: after) = none := by
  cases after with
  | nil => rfl
  | cons c after => exact tripled?_third (fun same => ended (congrArg some same)) _ _ _

section Quote
variable {after : List Char}

private theorem text?_basic_quote (ended : after.head? ≠ some '\x22') (text : List Char) :
    text? (quoteAs .basic text ++ after) = some (text, after) := by
  have shape : quoteAs .basic text ++ after = '\x22' :: (escapeFrom false 0 text ++ '\x22' :: after) := by
    simp [quoteAs, Quoting.mark]
  rw [shape, text?_basic, basic?_escapeFrom]
  cases text with
  | nil => exact tripled?_pair ended
  | cons c text =>
    obtain ⟨first, piece, written, other, _⟩ := basic?_piece c 0 text
    rw [written]
    exact tripled?_second other _ _

private theorem text?_literal_quote (ended : after.head? ≠ some '\x27') {text : List Char} (absent : '\x27' ∉ text)
    (printed : ∀ c ∈ text, isPrinted c = true) : text? (quoteAs .literal text ++ after) = some (text, after) := by
  have shape : quoteAs .literal text ++ after = '\x27' :: (text ++ '\x27' :: after) := by
    simp [quoteAs, Quoting.mark]
  rw [shape, text?_literal, literal?_text absent printed]
  cases text with
  | nil => exact tripled?_pair ended
  | cons c text =>
    have other : c ≠ '\x27' := fun same => absent (same ▸ List.mem_cons_self)
    exact tripled?_second other _ _

private theorem text?_block_quote (ended : after.head? ≠ some '\x22') (text : List Char) :
    text? (quoteAs .block text ++ after) = some (text, after) := by
  have shape : quoteAs .block text ++ after = '\x22' :: '\x22' :: '\x22' ::
      ((if text.contains '\n' then ['\n'] else []) ++
        (escapeFrom true 0 text ++ '\x22' :: '\x22' :: '\x22' :: after)) := by
    simp [quoteAs, Quoting.mark]
  rw [shape, text?_block, skipNewLine_lead, block?_escapeFrom ended]
  intro c head
  cases text with
  | nil =>
    cases head
    decide
  | cons d text =>
    by_cases mark : d = '\x22'
    · rw [escapeFrom, if_pos mark, if_pos (by decide), mark] at head
      cases head
      exact ⟨by decide, fun _ => by decide⟩
    · obtain ⟨first, piece, written, _, line, other, _⟩ := block?_piece mark 0 text
      rw [written] at head
      cases head
      exact ⟨other, fun absent same => absent (line same ▸ .head _)⟩

private theorem text?_literalBlock_quote (ended : after.head? ≠ some '\x27') {text : List Char}
    (few : longestRun '\x27' 0 text ≤ 2) (plain : ∀ c ∈ text, isControl c = false) :
    text? (quoteAs .literalBlock text ++ after) = some (text, after) := by
  have shape : quoteAs .literalBlock text ++ after = '\x27' :: '\x27' :: '\x27' ::
      ((if text.contains '\n' then ['\n'] else []) ++ (text ++ '\x27' :: '\x27' :: '\x27' :: after)) := by
    simp [quoteAs, Quoting.mark]
  have held : ∀ c ∈ text, isPrinted c = true ∨ c = '\n' := fun c member =>
    (Decidable.em (c = '\n')).symm.imp_left (isPrinted_of_not_isControl (plain c member))
  rw [shape, text?_literalBlock, skipNewLine_lead, literalBlock?_text ended held few]
  intro c head
  cases text with
  | nil =>
    cases head
    decide
  | cons d text =>
    obtain rfl : d = c := Option.some.inj head
    refine ⟨fun same => ?_, fun absent same => absent (same ▸ List.mem_cons_self)⟩
    have kept := plain d (.head _)
    rw [same] at kept
    cases kept

/-- Whatever a text holds, it is read back from between the quotes that it is written in. -/
theorem text?_quote (double : after.head? ≠ some '\x22') (single : after.head? ≠ some '\x27') (text : List Char) :
    text? (quote text ++ after) = some (text, after) := by
  obtain ⟨literal, literal_block⟩ := Quoting.ofText_spec text
  unfold quote
  cases chosen : Quoting.ofText text with
  | basic => exact text?_basic_quote double text
  | literal =>
    obtain ⟨absent, printed⟩ := literal chosen
    exact text?_literal_quote single absent printed
  | block => exact text?_block_quote double text
  | literalBlock =>
    obtain ⟨few, plain⟩ := literal_block chosen
    exact text?_literalBlock_quote single few plain

end Quote
end Toml
end EnvelopeWarp
