import EnvelopeWarp.Proofs.LongestLiteral
import EnvelopeWarp.Proofs.WrittenCommands

/-! The language of path data. Tokens need nothing between them: a number is the longest literal at its place, a flag is
one digit, and what a character starts depends on the command before. The reader accepts the sentences of this language
and no other text. -/

namespace EnvelopeWarp
namespace Grammar

/-- The characters that may stand before every token, in any number. -/
def separators : List Char :=
  [' ', '\t', '\n', '\x0c', '\r', ',']

def Separates (text : List Char) : Prop :=
  ∀ c ∈ text, c ∈ separators

inductive Kind where
  | number
  | flag

/-- A token stands at the front of a text, and a rest follows it. -/
inductive Token : Kind → List Char → List Char → Prop
  | number {blanks text word rest : List Char} (separates : Separates blanks)
      (longest : Longest literal text word rest) : Token .number (blanks ++ text) rest
  | flag {blanks rest : List Char} {c : Char} (separates : Separates blanks) (digit : c = '0' ∨ c = '1') :
    Token .flag (blanks ++ c :: rest) rest

inductive Tokens : List Kind → List Char → List Char → Prop
  | nil (text : List Char) : Tokens [] text text
  | cons {kind : Kind} {kinds : List Kind} {text middle rest : List Char} (first : Token kind text middle)
      (others : Tokens kinds middle rest) : Tokens (kind :: kinds) text rest

/-- The arguments that a command letter asks for. -/
def arguments? : Char → Option (List Kind)
  | 'M' | 'm' | 'L' | 'l' | 'T' | 't' => some [.number, .number]
  | 'H' | 'h' | 'V' | 'v' => some [.number]
  | 'C' | 'c' => some [.number, .number, .number, .number, .number, .number]
  | 'S' | 's' | 'Q' | 'q' => some [.number, .number, .number, .number]
  | 'A' | 'a' => some [.number, .number, .number, .flag, .flag, .number, .number]
  | 'Z' | 'z' => some []
  | _ => none

/-- The letter that a command without one repeats. -/
def repeats? : Char → Option Char
  | 'M' => some 'L'
  | 'm' => some 'l'
  | 'Z' | 'z' => none
  | letter => some letter

/-- A command stands at the front of a text, and a rest follows it. The letter of the command before is given; the first
command is a move. -/
inductive Step : Option Char → List Char → Char → List Char → Prop
  | lettered {previous : Option Char} {letter : Char} {kinds : List Kind} {text rest : List Char}
      (shape : arguments? letter = some kinds) (opening : previous = none → letter = 'M' ∨ letter = 'm')
      (tokens : Tokens kinds text rest) : Step previous (letter :: text) letter rest
  | repeated {previous c letter : Char} {kinds : List Kind} {text rest : List Char}
      (begins : c.isDigit = true ∨ c ∈ ['.', '+', '-']) (again : repeats? previous = some letter)
      (shape : arguments? letter = some kinds) (tokens : Tokens kinds (c :: text) rest) :
    Step (some previous) (c :: text) letter rest

/-- A text is a sequence of commands. -/
inductive Sentence : Option Char → List Char → Prop
  | finished {previous : Option Char} {blanks : List Char} (separates : Separates blanks) : Sentence previous blanks
  | command {previous : Option Char} {letter : Char} {blanks text rest : List Char} (separates : Separates blanks)
      (step : Step previous text letter rest) (others : Sentence (some letter) rest) : Sentence previous (blanks ++ text)

private theorem tokens_append {first second : List Kind} {text rest : List Char} :
    Tokens (first ++ second) text rest ↔ ∃ middle, Tokens first text middle ∧ Tokens second middle rest := by
  induction first generalizing text with
  | nil =>
    constructor
    · exact fun tokens => ⟨text, .nil text, tokens⟩
    · rintro ⟨_, ⟨_⟩, tokens⟩
      exact tokens
  | cons kind kinds ih =>
    constructor
    · rintro (_ | ⟨one, others⟩)
      obtain ⟨middle, before, after⟩ := ih.mp others
      exact ⟨middle, .cons one before, after⟩
    · rintro ⟨middle, _ | ⟨one, before⟩, after⟩
      exact .cons one (ih.mpr ⟨middle, before, after⟩)

end Grammar

namespace PathData
open Grammar (Kind Separates Token Tokens Step Sentence)

theorem isSeparator_iff {c : Char} : isSeparator c = true ↔ c ∈ Grammar.separators := by
  simp only [isSeparator, Text.isDataBlank, Grammar.separators, Bool.or_eq_true, beq_iff_eq, List.mem_cons,
    List.not_mem_nil, or_false]
  tauto

theorem exists_separates (text : List Char) : ∃ blanks, Separates blanks ∧ text = blanks ++ skipSeparators text :=
  ⟨text.takeWhile isSeparator, fun c member => isSeparator_iff.mp (List.all_eq_true.mp List.all_takeWhile c member),
    List.takeWhile_append_dropWhile.symm⟩

theorem skipSeparators_append {blanks text : List Char} (separates : Separates blanks) (free : Free isSeparator text) :
    skipSeparators (blanks ++ text) = text :=
  dropWhile_of_free (fun c member => isSeparator_iff.mpr (separates c member)) free

/-- A reader accepts exactly some tokens. -/
def Reads {β : Type} (read : Reader β) (kinds : List Kind) : Prop :=
  ∀ text rest, (∃ value, read text = .ok (value, rest)) ↔ Tokens kinds text rest

private theorem reads_pure {β : Type} (value : β) : Reads (pure value) [] := by
  intro text rest
  constructor
  · rintro ⟨found, same⟩
    cases same
    exact .nil text
  · rintro ⟨_⟩
    exact ⟨value, rfl⟩

theorem Reads.bind {β γ : Type} {read : Reader β} {next : β → Reader γ} {first second : List Kind}
    (before : Reads read first) (after : ∀ value, Reads (next value) second) : Reads (read >>= next) (first ++ second) := by
  intro text rest
  rw [Grammar.tokens_append]
  constructor
  · rintro ⟨value, found⟩
    obtain ⟨middle, between, one, other⟩ := Reader.bind_eq_ok.mp found
    exact ⟨between, (before text between).mp ⟨middle, one⟩, (after middle between rest).mp ⟨value, other⟩⟩
  · rintro ⟨between, one, other⟩
    obtain ⟨middle, first_read⟩ := (before text between).mpr one
    obtain ⟨value, rest_read⟩ := (after middle between rest).mpr other
    exact ⟨value, Reader.bind_eq_ok.mpr ⟨middle, between, first_read, rest_read⟩⟩

private theorem reads_token {β : Type} {read : Reader β} {kind : Kind}
    (token : ∀ text rest, (∃ value, read text = .ok (value, rest)) ↔ Token kind text rest) : Reads read [kind] := by
  intro text rest
  rw [token]
  constructor
  · exact fun first => .cons first (.nil rest)
  · rintro (_ | ⟨first, ⟨_⟩⟩)
    exact first

private theorem reads_number (letter : Char) : Reads (number letter) [.number] := by
  refine reads_token fun text rest => ?_
  constructor
  · rintro ⟨value, found⟩
    obtain ⟨blanks, separates, whole⟩ := exists_separates text
    unfold number at found
    split at found
    · next literal after scanned =>
      cases found
      rw [whole]
      exact .number separates (Literal.scan?_eq_some_iff.mp ⟨literal, scanned, rfl⟩)
    · cases found
  · rintro (⟨separates, longest⟩ | _)
    obtain ⟨literal, scanned, rfl⟩ := Literal.scan?_eq_some_iff.mpr longest
    have free := free_literal (Literal.scan?_sound scanned) rest
    rw [← longest.split] at free
    unfold number
    rw [skipSeparators_append separates free, scanned]
    exact ⟨_, rfl⟩

private theorem reads_flag : Reads flag [.flag] := by
  refine reads_token fun text rest => ?_
  constructor
  · rintro ⟨value, found⟩
    obtain ⟨blanks, separates, whole⟩ := exists_separates text
    rw [whole]
    unfold flag at found
    split at found
    · next ahead =>
      cases found
      rw [ahead]
      exact .flag separates (.inl rfl)
    · next ahead =>
      cases found
      rw [ahead]
      exact .flag separates (.inr rfl)
    · cases found
  · rintro (_ | ⟨separates, digit⟩)
    unfold flag
    rcases digit with rfl | rfl
    · rw [skipSeparators_append separates (Free.cons rfl)]
      exact ⟨_, rfl⟩
    · rw [skipSeparators_append separates (Free.cons rfl)]
      exact ⟨_, rfl⟩

private theorem reads_point (letter : Char) : Reads (point letter) [.number, .number] :=
  (reads_number letter).bind fun _ => (reads_number letter).bind fun _ => reads_pure _

private theorem reads_arc (letter : Char) :
    Reads (arc letter) [.number, .number, .number, .flag, .flag, .number, .number] :=
  (reads_point letter).bind fun _ => (reads_number letter).bind fun _ => reads_flag.bind fun _ =>
    reads_flag.bind fun _ => (reads_point letter).bind fun _ => reads_pure _

private theorem of_toUpper {letter upper : Char} (same : letter.toUpper = upper) :
    letter = upper ∨ letter = upper.toLower := by
  by_cases large : letter.isUpper = true
  · left
    rwa [Char.toUpper_eq_of_not_isLower (Char.not_isLower_of_isUpper large)] at same
  · right
    rw [← same, Char.toLower_toUpper_eq_toLower, Char.toLower_eq_of_not_isUpper large]

private theorem shape_of_toUpper {letter upper : Char} {kinds : Option (List Kind)} (same : letter.toUpper = upper)
    (large : Grammar.arguments? upper = kinds) (small : Grammar.arguments? upper.toLower = kinds) :
    Grammar.arguments? letter = kinds := by
  rcases of_toUpper same with rfl | rfl
  · exact large
  · exact small

theorem reads_arguments {letter : Char} {read : Reader (Command Decimal)} (shape : arguments? letter = some read) :
    ∃ kinds, Grammar.arguments? letter = some kinds ∧ Reads read kinds := by
  have number := reads_number letter
  have point := reads_point letter
  unfold arguments? at shape
  split at shape <;> first | contradiction | cases shape
  · next upper => exact ⟨_, shape_of_toUpper upper rfl rfl, point.bind fun _ => reads_pure _⟩
  · next upper => exact ⟨_, shape_of_toUpper upper rfl rfl, point.bind fun _ => reads_pure _⟩
  · next upper => exact ⟨_, shape_of_toUpper upper rfl rfl, number.bind fun _ => reads_pure _⟩
  · next upper => exact ⟨_, shape_of_toUpper upper rfl rfl, number.bind fun _ => reads_pure _⟩
  · next upper =>
    exact ⟨_, shape_of_toUpper upper rfl rfl, point.bind fun _ => point.bind fun _ => point.bind fun _ => reads_pure _⟩
  · next upper => exact ⟨_, shape_of_toUpper upper rfl rfl, point.bind fun _ => point.bind fun _ => reads_pure _⟩
  · next upper => exact ⟨_, shape_of_toUpper upper rfl rfl, point.bind fun _ => point.bind fun _ => reads_pure _⟩
  · next upper => exact ⟨_, shape_of_toUpper upper rfl rfl, point.bind fun _ => reads_pure _⟩
  · next upper => exact ⟨_, shape_of_toUpper upper rfl rfl, reads_arc letter⟩
  · next upper => exact ⟨_, shape_of_toUpper upper rfl rfl, reads_pure _⟩

theorem exists_reader {letter : Char} {kinds : List Kind} (shape : Grammar.arguments? letter = some kinds) :
    letter.isAlpha = true ∧ ∃ read, arguments? letter = some read ∧ Reads read kinds := by
  have known : letter.isAlpha = true ∧ ∃ read, arguments? letter = some read := by
    unfold Grammar.arguments? at shape
    split at shape <;> first | exact ⟨rfl, _, rfl⟩ | cases shape
  obtain ⟨alpha, read, found⟩ := known
  obtain ⟨others, same, reads⟩ := reads_arguments found
  obtain rfl := Option.some.inj (same.symm.trans shape)
  exact ⟨alpha, read, found, reads⟩

theorem repeats?_eq (letter : Char) : Grammar.repeats? letter = continuation? letter := by
  unfold Grammar.repeats?
  split
  · rfl
  · rfl
  · rfl
  · rfl
  · next no_M no_m no_Z no_z =>
    have open_ : letter.toUpper ≠ 'Z' := fun closing => (of_toUpper closing).elim no_Z no_z
    simp only [continuation?, beq_iff_eq, if_neg no_M, if_neg no_m, if_neg open_]

private theorem begins_iff {c : Char} : startsNumber c = true ↔ c.isDigit = true ∨ c ∈ ['.', '+', '-'] := by
  simp only [startsNumber, Bool.or_eq_true, beq_iff_eq, List.mem_cons, List.not_mem_nil, or_false]
  tauto

private theorem not_alpha_of_begins {c : Char} (begins : c.isDigit = true ∨ c ∈ ['.', '+', '-']) :
    c.isAlpha = false := by
  rcases begins with digit | mark
  · simp only [Char.isDigit, Char.isAlpha, Char.isUpper, Char.isLower, Bool.and_eq_true, Bool.or_eq_false_iff,
      Bool.and_eq_false_iff, decide_eq_true_eq, decide_eq_false_iff_not, ge_iff_le, UInt32.le_iff_toNat_le] at digit ⊢
    simp only [Char.reduceVal, UInt32.reduceToNat] at digit ⊢
    omega
  · simp only [List.mem_cons, List.not_mem_nil, or_false] at mark
    rcases mark with rfl | rfl | rfl <;> rfl

theorem command_iff_step {previous : Option Char} {c letter : Char} {tail rest : List Char} :
    (∃ found, command previous c tail = .ok ((letter, found), rest)) ↔ Step previous (c :: tail) letter rest := by
  constructor
  · rintro ⟨found, step⟩
    obtain ⟨written, read, start, opening, shape, took⟩ := command_eq_ok.mp step
    obtain ⟨kinds, same, reads⟩ := reads_arguments shape
    rcases letterAt_eq_ok.mp start with ⟨alpha, rfl, rfl⟩ | ⟨other, begins, rfl, before, rfl, again⟩
    · exact .lettered same opening ((reads _ _).mp ⟨found, took⟩)
    · exact .repeated (begins_iff.mp begins) ((repeats?_eq before).trans again) same ((reads _ _).mp ⟨found, took⟩)
  · rintro (⟨shape, opening, tokens⟩ | ⟨begins, again, shape, tokens⟩)
    · obtain ⟨alpha, read, found, reads⟩ := exists_reader shape
      obtain ⟨value, took⟩ := (reads _ _).mpr tokens
      exact ⟨value, command_eq_ok.mpr ⟨true, read, letterAt_eq_ok.mpr (.inl ⟨alpha, rfl, rfl⟩), opening, found, took⟩⟩
    · obtain ⟨_, read, found, reads⟩ := exists_reader shape
      obtain ⟨value, took⟩ := (reads _ _).mpr tokens
      have start : letterAt (some _) _ = .ok (letter, false) := letterAt_eq_ok.mpr
        (.inr ⟨not_alpha_of_begins begins, begins_iff.mpr begins, rfl, _, rfl, (repeats?_eq _).symm.trans again⟩)
      exact ⟨value, command_eq_ok.mpr ⟨false, read, start, fun absent => (nomatch absent), found, took⟩⟩

theorem of_isSeparator {c : Char} (separates : isSeparator c = true) : c.isAlpha = false ∧ startsNumber c = false := by
  rw [isSeparator_iff] at separates
  simp only [Grammar.separators, List.mem_cons, List.not_mem_nil, or_false] at separates
  rcases separates with rfl | rfl | rfl | rfl | rfl | rfl <;> exact ⟨rfl, rfl⟩

/-- No command starts with a separator. -/
theorem starts_of_step {previous : Option Char} {letter : Char} {text rest : List Char}
    (step : Step previous text letter rest) : ∃ c tail, text = c :: tail ∧ isSeparator c = false := by
  cases step with
  | lettered shape opening tokens =>
    refine ⟨_, _, rfl, Bool.eq_false_iff.mpr fun separates => ?_⟩
    exact Bool.eq_false_iff.mp (of_isSeparator separates).1 (exists_reader shape).1
  | repeated begins again shape tokens =>
    refine ⟨_, _, rfl, Bool.eq_false_iff.mpr fun separates => ?_⟩
    exact Bool.eq_false_iff.mp (of_isSeparator separates).2 (begins_iff.mpr begins)

theorem commandsAfter_iff_sentence {previous : Option Char} {text : List Char} :
    (∃ found, commandsAfter previous text = .ok found) ↔ Sentence previous text := by
  constructor
  · rintro ⟨found, read⟩
    fun_induction commandsAfter previous text generalizing found with
    | case1 previous text ahead =>
      obtain ⟨blanks, separates, whole⟩ := exists_separates text
      rw [ahead, List.append_nil] at whole
      exact .finished (whole ▸ separates)
    | case2 => cases read
    | case3 => cases read
    | case4 previous text c tail ahead letter command rest step commands others ih =>
      obtain ⟨blanks, separates, whole⟩ := exists_separates text
      rw [whole, ahead]
      exact .command separates (command_iff_step.mp ⟨command, step⟩) (ih commands others)
  · intro sentence
    induction sentence with
    | @finished previous blanks separates =>
      have skipped := skipSeparators_append separates (Free.nil _)
      rw [List.append_nil] at skipped
      exact ⟨_, commandsAfter_nil skipped⟩
    | command separates step others ih =>
      obtain ⟨commands, read⟩ := ih
      obtain ⟨c, tail, rfl, other⟩ := starts_of_step step
      obtain ⟨found, taken⟩ := command_iff_step.mpr step
      exact ⟨_, commandsAfter_eq (skipSeparators_append separates (Free.cons other)) taken read⟩

end PathData

namespace Path
variable {α : Type} [Scalar α]

/-- Path data is read exactly when it is a sentence, and every other text is refused. -/
theorem parse_iff_sentence (data : String) :
    ((∃ path : Path α, parse data = .ok path) ↔ Grammar.Sentence none data.toList) ∧
      ((∃ error, (parse data : Except PathError (Path α)) = .error error) ↔ ¬Grammar.Sentence none data.toList) := by
  rw [← PathData.commandsAfter_iff_sentence]
  unfold parse ofData PathData.commands
  cases PathData.commandsAfter none data.toList with
  | ok commands => simp
  | error stop => simp

end Path
end EnvelopeWarp
