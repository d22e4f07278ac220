import EnvelopeWarp.Proofs.LocatedFaults

/-! Path data behind path data. A move to an absolute point forgets all that the data before it has left: the reader forgets
the last letter, and the pen keeps nothing but the subpaths that are finished. So what starts with such a move is read and
drawn, or refused, as it would be alone, only farther behind. -/

namespace EnvelopeWarp
variable {α : Type}

namespace PathData
open Grammar (Separates)

/-- The commands of a text, without the proof that the reader ends. -/
theorem commandsAfter_skipped (previous : Option Char) (text : List Char) : commandsAfter previous text =
    match skipSeparators text with
    | [] => .ok []
    | c :: tail =>
      match command previous c tail with
      | .error stop => .error stop
      | .ok ((letter, found), rest) => (commandsAfter (some letter) rest).map (found :: ·) := by
  rw [commandsAfter]
  split
  · next ahead => rw [ahead]
  next c tail ahead =>
  rw [ahead]
  split
  · next stop step => simp only [step]
  next letter found rest step =>
  simp only [step]
  cases commandsAfter (some letter) rest <;> rfl

/-- Commands that are read are read alike in front of a text that does not go on with their last number, and the text is
read behind them. -/
theorem commandsAfter_append {previous : Option Char} {before : List Char} {commands : List (Command Decimal)}
    (accepted : commandsAfter previous before = .ok commands) : ∃ last, ∀ rest, Free Literal.goesOn rest →
      commandsAfter previous (before ++ rest) = (commandsAfter last rest).map (commands ++ ·) := by
  fun_induction commandsAfter previous before generalizing commands with
  | case1 previous text ahead =>
    cases accepted
    refine ⟨previous, fun rest _ => ?_⟩
    obtain ⟨blanks, separates, whole⟩ := exists_separates text
    rw [ahead, List.append_nil] at whole
    have skipped : skipSeparators (text ++ rest) = skipSeparators rest := by
      rw [whole]
      exact List.dropWhile_append_of_pos fun c member => isSeparator_iff.mpr (separates c member)
    rw [commandsAfter_skipped, skipped, ← commandsAfter_skipped]
    cases commandsAfter previous rest <;> rfl
  | case2 => cases accepted
  | case3 => cases accepted
  | case4 previous text c tail ahead letter found rest step others after ih =>
    cases accepted
    obtain ⟨last, again⟩ := ih after
    refine ⟨last, fun more free => ?_⟩
    obtain ⟨blanks, separates, whole⟩ := exists_separates text
    obtain ⟨words, rfl, anywhere⟩ := local_command step
    have continues : Continues rest (rest ++ more) := by
      intro d head goes
      cases rest with
      | nil => simp [free d head] at goes
      | cons e rest =>
        cases head
        exact ⟨rfl, free_of_sentence (commandsAfter_iff_sentence.mp ⟨others, after⟩) d rfl⟩
    have skipped : skipSeparators (text ++ more) = c :: (words ++ (rest ++ more)) := by
      have other : isSeparator c = false := free_dropWhile isSeparator text c (by
        change (skipSeparators text).head? = some c
        rw [ahead]
        rfl)
      rw [whole, ahead, List.append_assoc, List.cons_append, List.append_assoc]
      exact skipSeparators_append separates (Free.cons other)
    rw [commandsAfter_skipped, skipped]
    simp only [anywhere _ continues, again more free]
    cases commandsAfter last more <;> rfl

/-- What starts with an absolute move is read alike behind every command. -/
theorem commandsAfter_move {text : List Char} (starts : (skipSeparators text).head? = some 'M') (previous : Option Char) :
    commandsAfter previous text = commandsAfter none text := by
  obtain ⟨tail, ahead⟩ := List.head?_eq_some_iff.mp starts
  have first : command previous 'M' tail = command none 'M' tail := by
    simp [command, letterAt, isMove]
  rw [commandsAfter_skipped, commandsAfter_skipped none, ahead]
  simp only [first]

/-- Behind commands and a space, what starts with an absolute move is read as it would be alone. -/
theorem commandsAfter_joined {first second : List Char} {commands : List (Command Decimal)}
    (read : commandsAfter none first = .ok commands) (starts : (skipSeparators second).head? = some 'M') :
    commandsAfter none (first ++ ' ' :: second) = (commandsAfter none second).map (commands ++ ·) := by
  obtain ⟨last, joined⟩ := commandsAfter_append read
  have skipped : skipSeparators (' ' :: second) = skipSeparators second := rfl
  rw [joined _ (Free.cons rfl), commandsAfter_move (skipped ▸ starts), commandsAfter_skipped, skipped, ← commandsAfter_skipped]

private theorem first_move {text : List Char} (starts : (skipSeparators text).head? = some 'M')
    {commands : List (Command Decimal)} (read : commandsAfter none text = .ok commands) :
    ∃ p others, commands = .move false p :: others := by
  obtain ⟨tail, ahead⟩ := List.head?_eq_some_iff.mp starts
  rw [commandsAfter_skipped, ahead] at read
  cases step : command none 'M' tail with
  | error stop => simp [step] at read
  | ok taken =>
    obtain ⟨⟨letter, found⟩, rest⟩ := taken
    obtain ⟨written, reader, start, _, shape, took⟩ := command_eq_ok.mp step
    obtain ⟨_, rfl, _⟩ | ⟨other, _⟩ := letterAt_eq_ok.mp start
    · cases shape
      obtain ⟨p, _, _, same⟩ := Reader.bind_eq_ok.mp took
      cases same
      simp only [step] at read
      cases after : commandsAfter (some 'M') rest with
      | error stop => simp [after, Except.map] at read
      | ok others =>
        rw [after] at read
        cases read
        exact ⟨p, others, rfl⟩
    · cases other

end PathData

namespace Pen

/-- The pen with subpaths that were finished earlier. -/
def behind (before : List (Subpath α)) (pen : Pen α) : Pen α :=
  { pen with finished := before ++ pen.finished }

section
variable (before : List (Subpath α)) (pen : Pen α)

private theorem flush_behind : (pen.behind before).flush = pen.flush.behind before := by
  obtain ⟨_, _ | nodes, _⟩ := pen
  · rfl
  · simp [flush, leave, behind]

private theorem resume_behind : (pen.behind before).resume = pen.resume.behind before := by
  obtain ⟨_, _ | nodes, _⟩ := pen <;> rfl

private theorem moveTo_behind (p : Point α) : (pen.behind before).moveTo p = (pen.moveTo p).behind before := by
  unfold moveTo
  rw [flush_behind]
  rfl

private theorem lineTo_behind (p : Point α) : (pen.behind before).lineTo p = (pen.lineTo p).behind before := by
  unfold lineTo
  rw [resume_behind]
  rfl

private theorem cubicTo_behind (first second p : Point α) :
    (pen.behind before).cubicTo first second p = (pen.cubicTo first second p).behind before := by
  unfold cubicTo
  rw [resume_behind]
  rfl

private theorem drawPieces_behind (pieces : List (ArcPiece α)) :
    pieces.foldl drawPiece (pen.behind before) = (pieces.foldl drawPiece pen).behind before := by
  induction pieces generalizing pen with
  | nil => rfl
  | cons piece pieces ih =>
    rw [List.foldl_cons, drawPiece, cubicTo_behind]
    exact ih _

variable [Scalar α]

private theorem quadraticTo_behind (control p : Point α) :
    (pen.behind before).quadraticTo control p = (pen.quadraticTo control p).behind before := by
  unfold quadraticTo
  rw [cubicTo_behind]
  rfl

private theorem arcTo_behind (radii : Point α) (rotation : α) (large sweep : Bool) (p : Point α) :
    (pen.behind before).arcTo radii rotation large sweep p = (pen.arcTo radii rotation large sweep p).behind before := by
  have there : (pen.behind before).current = pen.current := rfl
  unfold arcTo
  rw [there]
  split
  · rfl
  · cases Arc.pieces? pen.current p radii rotation large sweep with
    | some pieces =>
      simp only [drawPieces_behind]
      rfl
    | none =>
      simp only [lineTo_behind]
      rfl

private theorem close_behind : (pen.behind before).close = pen.close.behind before := by
  obtain ⟨_, _ | nodes, _⟩ := pen
  · rfl
  · simp only [close, leave, behind, Option.map_some, List.append_assoc]
    rfl

/-- What a command draws does not depend on the subpaths that are finished. -/
theorem draw_behind (command : Command α) : (pen.behind before).draw command = (pen.draw command).behind before := by
  cases command with
  | move relative p => exact moveTo_behind before pen _
  | line relative p => exact lineTo_behind before pen _
  | horizontal relative x => exact lineTo_behind before pen _
  | vertical relative y => exact lineTo_behind before pen _
  | cubic relative first second p => exact cubicTo_behind before pen _ _ _
  | smoothCubic relative second p => exact cubicTo_behind before pen _ _ _
  | quadratic relative control p => exact quadraticTo_behind before pen _ _
  | smoothQuadratic relative p => exact quadraticTo_behind before pen _ _
  | arc relative radii rotation large sweep p => exact arcTo_behind before pen radii rotation large sweep _
  | close => exact close_behind before pen

private theorem drawAll_behind (commands : List (Command α)) :
    commands.foldl draw (pen.behind before) = (commands.foldl draw pen).behind before := by
  induction commands generalizing pen with
  | nil => rfl
  | cons command commands ih =>
    rw [List.foldl_cons, draw_behind]
    exact ih _

/-- A move to an absolute point sets everything else anew. -/
theorem moveTo_blank (p : Point α) : pen.moveTo p = (blank.moveTo p).behind pen.flush.finished := by
  simp only [moveTo, behind, flush, leave, blank, Option.map_none, List.append_nil]

end
end Pen

namespace Path

private theorem ofCommands_append_move [Scalar α] (first : List (Command α)) (p : Point α) (second : List (Command α)) :
    ofCommands (first ++ .move false p :: second) =
      ⟨(ofCommands first).subpaths ++ (ofCommands (.move false p :: second)).subpaths⟩ := by
  have isolated (pen : Pen α) : pen.draw (.move false p) = (Pen.blank.draw (.move false p)).behind pen.flush.finished :=
    pen.moveTo_blank p
  simp only [ofCommands, List.foldl_append, List.foldl_cons]
  rw [isolated, Pen.drawAll_behind, Pen.flush_behind]
  rfl

private theorem spaced_eq (texts : List (List Char)) : spaced texts = [' '].intercalate texts := by
  induction texts with
  | nil => rfl
  | cons text texts ih =>
    cases texts with
    | nil => simp [spaced]
    | cons next texts =>
      change text ++ ' ' :: spaced (next :: texts) = _
      rw [ih, List.intercalate_cons_cons, List.append_assoc]
      rfl

section Joining
variable (separator : List Char)

private theorem intercalate_eq_nil_iff {texts : List (List Char)} (filled : ∀ text ∈ texts, text ≠ []) :
    separator.intercalate texts = [] ↔ texts = [] := by
  refine ⟨fun joined => ?_, fun none_joined => none_joined ▸ List.intercalate_nil⟩
  match texts with
  | [] => rfl
  | text :: others =>
    obtain ⟨c, text, rfl⟩ := List.exists_cons_of_ne_nil (filled text (.head _))
    rw [List.intercalate_cons_cons_left] at joined
    cases joined

private theorem intercalate_append {first second : List (List Char)} (some_first : first ≠ [])
    (some_second : second ≠ []) :
    separator.intercalate (first ++ second) = separator.intercalate first ++ separator ++ separator.intercalate second := by
  induction first with
  | nil => exact absurd rfl some_first
  | cons text first ih =>
    by_cases last : first = []
    · rw [last, List.singleton_append, List.intercalate_cons_of_ne_nil some_second, List.intercalate_singleton]
    · rw [List.cons_append, List.intercalate_cons_of_ne_nil (List.append_ne_nil_of_left_ne_nil last _), ih last,
        List.intercalate_cons_of_ne_nil last]
      simp only [List.append_assoc]

/-- Texts in several lists may be joined list by list; a list without texts adds no separator. -/
theorem intercalate_flatten {lists : List (List (List Char))} (filled : ∀ texts ∈ lists, ∀ text ∈ texts, text ≠ []) :
    separator.intercalate lists.flatten =
      separator.intercalate ((lists.map separator.intercalate).filter (· ≠ [])) := by
  induction lists with
  | nil => rfl
  | cons texts lists ih =>
    obtain ⟨first, others⟩ := List.forall_mem_cons.mp filled
    have later := ih others
    by_cases none_here : texts = []
    · subst none_here
      simpa using later
    have kept : separator.intercalate texts ≠ [] := mt (intercalate_eq_nil_iff separator first).mp none_here
    rw [List.flatten_cons, List.map_cons, List.filter_cons_of_pos (by simpa using kept)]
    have rest : lists.flatten = [] ↔ (lists.map separator.intercalate).filter (· ≠ []) = [] := by
      rw [← intercalate_eq_nil_iff separator fun text member => ?_, later, intercalate_eq_nil_iff separator fun text member => ?_]
      · simpa using (List.mem_filter.mp member).2
      · obtain ⟨texts, listed, inside⟩ := List.mem_flatten.mp member
        exact others texts listed text inside
    by_cases none_left : lists.flatten = []
    · rw [rest.mp none_left, none_left, List.append_nil, List.intercalate_singleton]
    · rw [intercalate_append separator none_here none_left, List.intercalate_cons_of_ne_nil (mt rest.mpr none_left), later]

end Joining

private theorem writeSubpath_filled (number : α → List Char) (subpath : Subpath α) :
    ∀ text ∈ writeSubpath number subpath, text ≠ [] := by
  intro text member
  unfold writeSubpath at member
  split at member
  · cases member
  · simp only [List.cons_append, List.mem_cons, List.mem_append, List.mem_map] at member
    rcases member with rfl | ⟨curve, _, rfl⟩ | closing
    · exact List.cons_ne_nil _ _
    · exact List.cons_ne_nil _ _
    · split at closing
      · rw [List.mem_singleton.mp closing]
        exact List.cons_ne_nil _ _
      · cases closing

/-- The data of subpaths in several lists is the data of each list, with a space between those that are not empty. -/
theorem data_flatten (precision : Option Nat) (lists : List (List (Subpath Float))) : data precision ⟨lists.flatten⟩ =
    " ".intercalate ((lists.map fun subpaths => data precision ⟨subpaths⟩).filter (· ≠ "")) := by
  let texts (subpaths : List (Subpath Float)) : List (List Char) := subpaths.flatMap (writeSubpath (coordinate precision))
  have written (subpaths : List (Subpath Float)) : (data precision ⟨subpaths⟩).toList = [' '].intercalate (texts subpaths) := by
    rw [data, String.toList_ofList, write, spaced_eq]
  have filled : ∀ listed ∈ lists.map texts, ∀ text ∈ listed, text ≠ [] := by
    intro listed member text inside
    obtain ⟨subpaths, _, rfl⟩ := List.mem_map.mp member
    obtain ⟨subpath, _, inside⟩ := List.mem_flatMap.mp inside
    exact writeSubpath_filled _ subpath text inside
  have flat : texts lists.flatten = (lists.map texts).flatten := by
    simp only [texts, ← List.flatMap_id, List.flatMap_assoc, List.flatMap_map, id]
  apply String.toList_inj.mp
  rw [written, flat, intercalate_flatten _ filled, String.toList_intercalate, List.map_map, List.filter_map, List.filter_map,
    List.map_map]
  congr 1
  simp only [Function.comp_def, written, ← String.toList_eq_nil_iff, ne_eq]

/-- Behind accepted data and a space, data that starts with an absolute move adds its subpaths to those of the data before,
or is refused with the same fault at the place moved behind it; and data is written subpath by subpath. -/
theorem parse_joined [Scalar α] :
    (∀ (first second : String) (path : Path α), parse first = .ok path →
      (PathData.skipSeparators second.toList).head? = some 'M' →
        (∀ more : Path α, parse second = .ok more →
          parse (first ++ " " ++ second) = .ok (⟨path.subpaths ++ more.subpaths⟩ : Path α)) ∧
        ∀ error, (parse second : Except PathError (Path α)) = .error error →
          (parse (first ++ " " ++ second) : Except PathError (Path α)) =
            .error ⟨error.fault, Text.byteLength first.toList + 1 + error.position⟩) ∧
      ∀ (precision : Option Nat) (lists : List (List (Subpath Float))), data precision ⟨lists.flatten⟩ =
        " ".intercalate ((lists.map fun subpaths => data precision ⟨subpaths⟩).filter (· ≠ "")) := by
  refine ⟨fun first second path accepted starts => ?_, data_flatten⟩
  unfold parse ofData PathData.commands at accepted ⊢
  cases read : PathData.commandsAfter none first.toList with
  | error stop => simp [read] at accepted
  | ok commands =>
    simp only [read, Except.ok.injEq] at accepted
    subst accepted
    have behind : PathData.commandsAfter none (first ++ " " ++ second).toList =
        (PathData.commandsAfter none second.toList).map (commands ++ ·) := by
      rw [String.toList_append, String.toList_append, List.append_assoc]
      exact PathData.commandsAfter_joined read starts
    rw [behind]
    cases again : PathData.commandsAfter none second.toList with
    | ok others =>
      obtain ⟨p, others, rfl⟩ := PathData.first_move starts again
      simp only [Except.map, List.map_append, List.map_cons, Command.map]
      rw [ofCommands_append_move]
      refine ⟨fun more same => ?_, fun error refused => ?_⟩
      · cases same
        rfl
      · cases refused
    | error stop =>
      obtain ⟨before, split, _⟩ :=
        PathData.commandsAfter_error (fun _ none_before => absurd none_before (Option.not_mem_none _)) again
      refine ⟨fun more accepted => ?_, fun error same => ?_⟩
      · cases accepted
      · cases same
        simp only [Except.map, String.toList_append, Text.byteLength_append, split, Except.error.injEq, PathError.mk.injEq,
          true_and]
        have space : Text.byteLength " ".toList = 1 := rfl
        omega

/-- The place of a number that is missing is counted from the start of the joined text. -/
theorem parse_joined_refused : ∃ path : Path Float, parse "M0 0h4" = .ok path ∧
    (PathData.skipSeparators ",M5 5 6".toList).head? = some 'M' ∧
      (parse ("M0 0h4" ++ " " ++ ",M5 5 6") : Except PathError (Path Float)) = .error ⟨.expectedNumber 'L', 14⟩ := by
  have first : ∃ commands, PathData.commands "M0 0h4".toList = .ok commands := ⟨_, by cbv⟩
  obtain ⟨commands, read⟩ := first
  have accepted : parse "M0 0h4" = .ok (ofCommands (commands.map (Command.map Scalar.ofDecimal)) : Path Float) := by
    rw [parse, ofData, read]
  have refused : PathData.commands ",M5 5 6".toList = .error ⟨.expectedNumber 'L', 7⟩ := by cbv
  have rejected : (parse ",M5 5 6" : Except PathError (Path Float)) = .error ⟨.expectedNumber 'L', 7⟩ := by
    rw [parse, ofData, refused]
  exact ⟨_, accepted, rfl, (parse_joined.1 "M0 0h4" ",M5 5 6" _ accepted rfl).2 _ rejected⟩

end Path
end EnvelopeWarp
