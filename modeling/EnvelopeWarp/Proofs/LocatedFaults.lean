import EnvelopeWarp.Path.Text
import EnvelopeWarp.Proofs.LocalReaders
import EnvelopeWarp.Scalar.Double

/-! Where path data goes wrong. A fault has its place between two characters of the text or at its end. A character that
is reported stands right there, and the text in front of it is path data of its own: cutting a text behind a command
changes no token before the cut. A token that is missed has no beginning at its place, and no separator stands there
behind which it could still come. -/

namespace EnvelopeWarp

/-- What a fault says about the text before its place and the text from there on. -/
def PathFault.At (accepted : List Char → Prop) (before rest : List Char) : PathFault → Prop
  | .missingMove found => rest.head? = some found ∧ accepted before
  | .unexpected found => rest.head? = some found ∧ accepted before
  | .expectedNumber _ => (∀ word ∈ Grammar.literal, ¬word <+: rest) ∧ ∀ c ∈ rest.head?, c ∉ Grammar.separators
  | .expectedFlag => (∀ c ∈ rest.head?, c ≠ '0' ∧ c ≠ '1') ∧ ∀ c ∈ rest.head?, c ∉ Grammar.separators

theorem PathFault.At.imp {first second : List Char → Prop} {before after rest : List Char}
    (implies : first before → second after) {fault : PathFault} (there : fault.At first before rest) :
    fault.At second after rest := by
  cases fault with
  | missingMove found => exact ⟨there.1, implies there.2⟩
  | unexpected found => exact ⟨there.1, implies there.2⟩
  | expectedNumber command => exact there
  | expectedFlag => exact there

namespace PathData
open Grammar (Separates Sentence)

private theorem head_skipSeparators (text : List Char) : ∀ c ∈ (skipSeparators text).head?, c ∉ Grammar.separators := by
  intro c head separator
  have other := free_dropWhile isSeparator text c head
  rw [isSeparator_iff.mpr separator] at other
  cases other

private theorem skipSeparators_suffix (text : List Char) : skipSeparators text <:+ text :=
  List.dropWhile_suffix isSeparator

theorem Reader.bind_eq_error {β γ : Type} {read : Reader β} {next : β → Reader γ} {text : List Char} {stop : Stop} :
    (read >>= next) text = .error stop ↔
      read text = .error stop ∨ ∃ middle between, read text = .ok (middle, between) ∧ next middle between = .error stop := by
  cases first : read text with
  | error other =>
    have failed : (read >>= next) text = .error other := by
      simp only [bind, first]
    simp [failed]
  | ok found =>
    have went_on : (read >>= next) text = next found.1 found.2 := by
      simp only [bind, first]
    rw [went_on]
    constructor
    · exact fun last => .inr ⟨found.1, found.2, rfl, last⟩
    · rintro (failed | ⟨middle, between, same, last⟩)
      · cases failed
      · cases same
        exact last

/-- A reader stops where a token is missing, on the way through the text that it was given. -/
def Stops {β : Type} (read : Reader β) : Prop :=
  ∀ text stop, read text = .error stop →
    stop.rest <:+ text ∧ ∀ accepted before, stop.fault.At accepted before stop.rest

private theorem stops_pure {β : Type} (value : β) : Stops (pure value) := by
  intro text stop failed
  cases failed

theorem Stops.bind {β γ : Type} {read : Reader β} {next : β → Reader γ} (before : Stops read) (local_ : Local read)
    (after : ∀ value, Stops (next value)) : Stops (read >>= next) := by
  intro text stop failed
  rcases Reader.bind_eq_error.mp failed with first | ⟨middle, between, first, second⟩
  · exact before text stop first
  · obtain ⟨word, rfl, _⟩ := local_ text middle between first
    obtain ⟨suffix, missing⟩ := after middle between stop second
    exact ⟨suffix.trans (List.suffix_append word between), missing⟩

private theorem stops_number (letter : Char) : Stops (number letter) := by
  intro text stop failed
  unfold number at failed
  split at failed
  · cases failed
  · next none_scanned =>
    cases failed
    exact ⟨skipSeparators_suffix text, fun _ _ => ⟨Literal.scan?_eq_none_iff.mp none_scanned, head_skipSeparators text⟩⟩

private theorem stops_flag : Stops flag := by
  intro text stop failed
  unfold flag at failed
  split at failed
  · cases failed
  · cases failed
  · next no_zero no_one =>
    cases failed
    refine ⟨skipSeparators_suffix text, fun _ _ => ⟨fun c head => ?_, head_skipSeparators text⟩⟩
    obtain ⟨tail, ahead⟩ := List.head?_eq_some_iff.mp head
    constructor
    · rintro rfl
      exact no_zero tail ahead
    · rintro rfl
      exact no_one tail ahead

private theorem stops_point (letter : Char) : Stops (point letter) :=
  (stops_number letter).bind (local_number letter) fun _ =>
    (stops_number letter).bind (local_number letter) fun _ => stops_pure _

private theorem stops_arc (letter : Char) : Stops (arc letter) :=
  (stops_point letter).bind (local_point letter) fun _ => (stops_number letter).bind (local_number letter) fun _ =>
    stops_flag.bind local_flag fun _ => stops_flag.bind local_flag fun _ =>
      (stops_point letter).bind (local_point letter) fun _ => stops_pure _

private theorem stops_arguments {letter : Char} {read : Reader (Command Decimal)}
    (shape : arguments? letter = some read) : Stops read := by
  have number {γ : Type} {next : Decimal → Reader γ} (after : ∀ value, Stops (next value)) :
      Stops (number letter >>= next) :=
    (stops_number letter).bind (local_number letter) after
  have point {γ : Type} {next : Point Decimal → Reader γ} (after : ∀ value, Stops (next value)) :
      Stops (point letter >>= next) :=
    (stops_point letter).bind (local_point letter) after
  unfold arguments? at shape
  split at shape <;> first | contradiction | cases shape
  · exact point fun _ => stops_pure _
  · exact point fun _ => stops_pure _
  · exact number fun _ => stops_pure _
  · exact number fun _ => stops_pure _
  · exact point fun _ => point fun _ => point fun _ => stops_pure _
  · exact point fun _ => point fun _ => stops_pure _
  · exact point fun _ => point fun _ => stops_pure _
  · exact point fun _ => stops_pure _
  · exact stops_arc letter
  · exact stops_pure _

private theorem arguments?_continuation {previous letter : Char} (known : (arguments? previous).isSome = true)
    (again : continuation? previous = some letter) : (arguments? letter).isSome = true := by
  unfold continuation? at again
  split at again
  · cases again
    rfl
  split at again
  · cases again
    rfl
  split at again
  · cases again
  · cases again
    exact known

private theorem letterAt_error {previous : Option Char} {c : Char} {fault : PathFault}
    (refused : letterAt previous c = .error fault) : fault = .missingMove c ∨ fault = .unexpected c := by
  unfold letterAt at refused
  split at refused
  · cases refused
  split at refused
  · split at refused
    · cases refused
      exact .inl rfl
    split at refused
    · cases refused
    · cases refused
      exact .inr rfl
  · cases refused
    exact .inr rfl

/-- A command is refused at its first character, or for a token that it misses later on. -/
theorem command_error {previous : Option Char} {c : Char} {tail : List Char} {stop : Stop}
    (known : ∀ letter ∈ previous, (arguments? letter).isSome = true) (failed : command previous c tail = .error stop) :
    stop = ⟨.missingMove c, c :: tail⟩ ∨ stop = ⟨.unexpected c, c :: tail⟩ ∨
      stop.rest <:+ c :: tail ∧ ∀ accepted before, stop.fault.At accepted before stop.rest := by
  unfold command at failed
  split at failed
  · next fault refused =>
    cases failed
    rcases letterAt_error refused with rfl | rfl
    · exact .inl rfl
    · exact .inr (.inl rfl)
  next letter written start =>
  have first : letter = c ∨ previous.isNone = false ∧ (arguments? letter).isSome = true := by
    rcases letterAt_eq_ok.mp start with ⟨_, rfl, _⟩ | ⟨_, _, _, before, rfl, again⟩
    · exact .inl rfl
    · exact .inr ⟨rfl, arguments?_continuation (known before rfl) again⟩
  split at failed
  · next opening =>
    cases failed
    rcases first with rfl | ⟨follows, _⟩
    · exact .inl rfl
    · simp [follows] at opening
  split at failed
  · next unknown =>
    cases failed
    rcases first with rfl | ⟨_, shape⟩
    · exact .inr (.inl rfl)
    · simp [unknown] at shape
  next read shape =>
  split at failed
  · next other refused =>
    cases failed
    obtain ⟨suffix, missing⟩ := stops_arguments shape _ _ refused
    refine .inr (.inr ⟨suffix.trans ?_, missing⟩)
    cases written
    · exact List.suffix_refl _
    · exact List.suffix_cons c tail
  · cases failed

theorem commandsAfter_error {previous : Option Char} {text : List Char} {stop : Stop}
    (known : ∀ letter ∈ previous, (arguments? letter).isSome = true) (failed : commandsAfter previous text = .error stop) :
    ∃ before, text = before ++ stop.rest ∧ stop.fault.At (Sentence previous) before stop.rest := by
  fun_induction commandsAfter previous text with
  | case1 => cases failed
  | case2 previous text c tail ahead other refused =>
    cases failed
    obtain ⟨blanks, separates, whole⟩ := exists_separates text
    rw [ahead] at whole
    rcases command_error known refused with rfl | rfl | ⟨⟨word, split⟩, missing⟩
    · exact ⟨blanks, whole, rfl, .finished separates⟩
    · exact ⟨blanks, whole, rfl, .finished separates⟩
    · exact ⟨blanks ++ word, by rw [whole, ← split, List.append_assoc], missing _ _⟩
  | case3 previous text c tail ahead letter command rest step other refused ih =>
    cases failed
    obtain ⟨blanks, separates, whole⟩ := exists_separates text
    obtain ⟨words, rfl, anywhere⟩ := local_command step
    have shape : (arguments? letter).isSome = true := by
      obtain ⟨_, _, _, _, shape, _⟩ := command_eq_ok.mp step
      exact Option.isSome_of_mem shape
    obtain ⟨before, rfl, there⟩ := ih (fun _ same => Option.some.inj same ▸ shape) refused
    refine ⟨blanks ++ c :: (words ++ before), by rw [whole, ahead]; simp, there.imp fun sentence => ?_⟩
    have continues : Continues (before ++ stop.rest) before := by
      intro d head _
      obtain ⟨tail, rfl⟩ := List.head?_eq_some_iff.mp head
      exact ⟨rfl, free_of_sentence sentence d rfl⟩
    exact .command separates (command_iff_step.mp ⟨_, anywhere before continues⟩) sentence
  | case4 => cases failed

end PathData

namespace Path
variable {α : Type} [Scalar α]

/-- Path data that is refused is refused at a place of the text, for what stands there. -/
theorem parse_error_located {data : String} {error : PathError}
    (rejected : (parse data : Except PathError (Path α)) = .error error) :
    ∃ before rest, Text.splitBytes? error.position data.toList = some (before, rest) ∧
      error.fault.At (fun text => ∃ path : Path α, parse (String.ofList text) = .ok path) before rest := by
  unfold parse ofData at rejected
  split at rejected
  · cases rejected
  next failed =>
  cases rejected
  unfold PathData.commands at failed
  split at failed
  · cases failed
  next stop refused =>
  cases failed
  obtain ⟨before, split, there⟩ := PathData.commandsAfter_error (by nofun) refused
  refine ⟨before, stop.rest, ?_, there.imp fun sentence => ?_⟩
  · rw [split, Text.byteLength_append, Nat.add_sub_cancel_right]
    exact Text.splitBytes?_append before stop.rest
  · obtain ⟨commands, read⟩ := PathData.commandsAfter_iff_sentence.mpr sentence
    exact ⟨_, by rw [parse, ofData, String.toList_ofList, PathData.commands, read]⟩

/-- The letter of a power without digits is reported behind the number before it. -/
theorem parse_error_located_mark : ∃ error, (parse "M0 0 1 1e-" : Except PathError (Path Float)) = .error error ∧
    error = ⟨.unexpected 'e', 8⟩ ∧ ∃ path : Path Float, parse "M0 0 1 1" = .ok path := by
  have refused : PathData.commands "M0 0 1 1e-".toList = .error ⟨.unexpected 'e', 8⟩ := by cbv
  have rejected : (parse "M0 0 1 1e-" : Except PathError (Path Float)) = .error ⟨.unexpected 'e', 8⟩ := by
    rw [parse, ofData, refused]
  obtain ⟨before, rest, cut, _, accepted⟩ := parse_error_located rejected
  have parts : Text.splitBytes? 8 "M0 0 1 1e-".toList = some ("M0 0 1 1".toList, ['e', '-']) := by decide
  cases cut.symm.trans parts
  exact ⟨_, rejected, rfl, accepted⟩

end Path
end EnvelopeWarp
