import EnvelopeWarp.Proofs.CommandCourse
import EnvelopeWarp.Proofs.DoubleText
import EnvelopeWarp.Proofs.LocalReaders

/-! Short forms of path data and the long forms they stand for. A command may leave out the letter that the command
before implies, count its points from the current one or name a single coordinate. With every letter written, every
point absolute and every axis line a line, the same commands are read and the same path is drawn; and written out in
this form, path data is read as that path. -/

namespace EnvelopeWarp
variable {α : Type}

/-- The command counts from nothing and names whole points. -/
def Command.IsExplicit : Command α → Prop
  | .move relative _ => relative = false
  | .line relative _ => relative = false
  | .horizontal _ _ => False
  | .vertical _ _ => False
  | .cubic relative _ _ _ => relative = false
  | .smoothCubic relative _ _ => relative = false
  | .quadratic relative _ _ => relative = false
  | .smoothQuadratic relative _ => relative = false
  | .arc relative _ _ _ _ _ => relative = false
  | .close => True

namespace Course
variable [Scalar α]

/-- The command that says the same without the current point; only the points of an arc are placed. -/
def explicit (course : Course α) : Command α → Command α
  | .move relative p => .move false (course.place relative p)
  | .line relative p => .line false (course.place relative p)
  | .horizontal relative x => .line false ⟨if relative then course.current.x + x else x, course.current.y⟩
  | .vertical relative y => .line false ⟨course.current.x, if relative then course.current.y + y else y⟩
  | .cubic relative first second p =>
    .cubic false (course.place relative first) (course.place relative second) (course.place relative p)
  | .smoothCubic relative second p => .smoothCubic false (course.place relative second) (course.place relative p)
  | .quadratic relative control p => .quadratic false (course.place relative control) (course.place relative p)
  | .smoothQuadratic relative p => .smoothQuadratic false (course.place relative p)
  | .arc relative radii rotation large sweep p => .arc false radii rotation large sweep (course.place relative p)
  | .close => .close

/-- Commands one after the other, each made explicit where the given commands before it lead. -/
def explicits (course : Course α) : List (Command α) → List (Command α)
  | [] => []
  | command :: commands => course.explicit command :: (course.after command).explicits commands

private theorem isExplicit_explicit (course : Course α) (command : Command α) :
    (course.explicit command).IsExplicit := by
  cases command <;> trivial

private theorem isExplicit_explicits (course : Course α) (commands : List (Command α)) :
    ∀ command ∈ course.explicits commands, command.IsExplicit := by
  induction commands generalizing course with
  | nil => nofun
  | cons command commands ih => exact List.forall_mem_cons.mpr ⟨course.isExplicit_explicit command, ih _⟩

end Course

namespace Pen
variable [Scalar α] {pen : Pen α} {course : Course α}

private theorem draw_explicit (keeps : Keeps pen course) (command : Command α) :
    pen.draw (course.explicit command) = pen.draw command := by
  cases command <;> simp only [Course.explicit, draw, keeps.place, keeps.current] <;> rfl

private theorem draw_explicits (keeps : Keeps pen course) (commands : List (Command α)) :
    (course.explicits commands).foldl draw pen = commands.foldl draw pen := by
  induction commands generalizing pen course with
  | nil => rfl
  | cons command commands ih =>
    rw [Course.explicits, List.foldl_cons, List.foldl_cons, draw_explicit keeps]
    exact ih (keeps_draw keeps command)

end Pen

theorem Path.ofCommands_explicits [Scalar α] (commands : List (Command α)) :
    ofCommands (Course.blank.explicits commands) = ofCommands commands := by
  rw [ofCommands, ofCommands, Pen.draw_explicits Pen.keeps_blank]

namespace Grammar

/-- A text with the letters that its commands leave out, and with nothing else changed. -/
inductive Completes : Option Char → List Char → List Char → Prop
  | finished {previous : Option Char} {blanks : List Char} (separates : Separates blanks) : Completes previous blanks blanks
  | lettered {previous : Option Char} {letter : Char} {kinds : List Kind} {blanks words rest full : List Char}
      (separates : Separates blanks) (shape : arguments? letter = some kinds) (tokens : Tokens kinds (words ++ rest) rest)
      (others : Completes (some letter) rest full) :
    Completes previous (blanks ++ letter :: (words ++ rest)) (blanks ++ letter :: (words ++ full))
  | repeated {previous letter : Char} {kinds : List Kind} {blanks words rest full : List Char}
      (separates : Separates blanks) (again : repeats? previous = some letter) (shape : arguments? letter = some kinds)
      (tokens : Tokens kinds (words ++ rest) rest) (others : Completes (some letter) rest full) :
    Completes (some previous) (blanks ++ (words ++ rest)) (blanks ++ letter :: (words ++ full))

end Grammar

namespace PathData
open Grammar (Separates Completes)

private theorem letter_ends {letter : Char} {kinds : List Grammar.Kind}
    (shape : Grammar.arguments? letter = some kinds) : Literal.goesOn letter = false := by
  unfold Grammar.arguments? at shape
  split at shape <;> first | rfl | cases shape

/-- A text with all its letters ends whatever literal stands before it. -/
theorem free_of_completes {previous : Option Char} {text full : List Char} (completes : Completes previous text full) :
    Free Literal.goesOn full := by
  have apart : ∀ c ∈ Grammar.separators, Literal.goesOn c = false := by
    simp [Grammar.separators, Literal.goesOn]
  cases completes with
  | finished separates =>
    have free := free_of_separates apart separates (Free.nil _)
    rwa [List.append_nil] at free
  | lettered separates shape tokens others => exact free_of_separates apart separates (Free.cons (letter_ends shape))
  | repeated separates again shape tokens others => exact free_of_separates apart separates (Free.cons (letter_ends shape))

private theorem commandsAfter_completes {previous : Option Char} {text : List Char} {commands : List (Command Decimal)}
    (read : commandsAfter previous text = .ok commands) :
    ∃ full, Completes previous text full ∧ commandsAfter previous full = .ok commands := by
  fun_induction commandsAfter previous text generalizing commands with
  | case1 previous text ahead =>
    obtain ⟨blanks, separates, whole⟩ := exists_separates text
    rw [ahead, List.append_nil] at whole
    cases read
    exact ⟨text, .finished (whole ▸ separates), commandsAfter_nil ahead⟩
  | case2 => cases read
  | case3 => cases read
  | case4 previous text c tail ahead letter command rest step others after ih =>
    cases read
    obtain ⟨full, completes, again⟩ := ih after
    obtain ⟨blanks, separates, whole⟩ := exists_separates text
    obtain ⟨written, reader, start, opening, shape, took⟩ := command_eq_ok.mp step
    obtain ⟨kinds, same, reads⟩ := reads_arguments shape
    obtain ⟨alpha, _⟩ := exists_reader same
    have free : isSeparator letter = false := Bool.eq_false_iff.mpr fun separates =>
      Bool.eq_false_iff.mp (of_isSeparator separates).1 alpha
    have tokens := (reads _ _).mp ⟨_, took⟩
    obtain ⟨words, split, _, anywhere⟩ := local_arguments shape _ _ _ took
    have retook := anywhere full (continues_of_free (free_of_completes completes) rest)
    have lettered : letterAt previous letter = .ok (letter, true) := letterAt_eq_ok.mpr (.inl ⟨alpha, rfl, rfl⟩)
    have reread := commandsAfter_eq (skipSeparators_append separates (Free.cons free))
      (command_eq_ok.mpr ⟨true, reader, lettered, opening, shape, retook⟩) again
    rw [split] at tokens
    refine ⟨_, ?_, reread⟩
    rw [whole, ahead]
    rcases letterAt_eq_ok.mp start with ⟨_, rfl, rfl⟩ | ⟨_, _, rfl, before, rfl, repeats⟩
    · rw [if_pos rfl] at split
      rw [split]
      exact .lettered separates same tokens completes
    · rw [if_neg Bool.false_ne_true] at split
      rw [split]
      exact .repeated separates ((repeats?_eq before).trans repeats) same tokens completes

private theorem exists_move_of_command {c letter : Char} {tail rest : List Char} {found : Command Decimal}
    (step : command none c tail = .ok ((letter, found), rest)) : ∃ relative p, found = .move relative p := by
  obtain ⟨_, read, _, opening, shape, took⟩ := command_eq_ok.mp step
  rcases opening rfl with rfl | rfl
  all_goals
    cases shape
    obtain ⟨p, _, _, same⟩ := Reader.bind_eq_ok.mp took
    cases same
    exact ⟨_, _, rfl⟩

/-- The first command is a move. -/
theorem exists_move {text : List Char} {commands : List (Command Decimal)} (read : commandsAfter none text = .ok commands) :
    ∀ command ∈ commands.head?, ∃ relative p, command = .move relative p := by
  unfold commandsAfter at read
  split at read
  · cases read
    intro command head
    cases head
  split at read
  · cases read
  next letter found rest step =>
  split at read
  · cases read
  cases read
  intro command head
  cases head
  exact exists_move_of_command step

end PathData

theorem Command.Every.imp {property other : α → Prop} (implies : ∀ x, property x → other x) {command : Command α}
    (every : command.Every property) : command.Every other := by
  have point {p : Point α} (both : p.Every property) : p.Every other := ⟨implies _ both.1, implies _ both.2⟩
  cases command with
  | move relative p => exact point every
  | line relative p => exact point every
  | horizontal relative x => exact implies _ every
  | vertical relative y => exact implies _ every
  | cubic relative first second p => exact ⟨point every.1, point every.2.1, point every.2.2⟩
  | smoothCubic relative second p => exact ⟨point every.1, point every.2⟩
  | quadratic relative control p => exact ⟨point every.1, point every.2⟩
  | smoothQuadratic relative p => exact point every
  | arc relative radii rotation large sweep p => exact ⟨point every.1, implies _ every.2.1, point every.2.2⟩
  | close => trivial

namespace Path
open Grammar (Completes)

/-- Commands with finite numbers, written with the shortest digits of each, are read as themselves. -/
theorem parse_spaced {commands : List (Command Float)}
    (finite : ∀ command ∈ commands, command.Every fun x => x.isFinite = true)
    (starts : ∀ command ∈ commands.head?, ∃ p, command = .move false p) :
    parse (String.ofList (spaced (commands.map (Command.write Layout.plain.text)))) = .ok (ofCommands commands) := by
  have spelled : ∀ x : Float, x.isFinite = true → Spells (Layout.plain.text x) (Layout.plainLiteral x).value :=
    fun x finite => ⟨_, Layout.plainLiteral_sound x, (Layout.plain_text finite).symm, rfl⟩
  have read := PathData.commands_spaced (fun command listed => (finite command listed).imp spelled) starts
  have numbers : (commands.map (Command.map fun x => (Layout.plainLiteral x).value)).map (Command.map Scalar.ofDecimal) =
      commands := by
    rw [List.map_map, List.map_congr_left, List.map_id]
    intro command listed
    rw [Function.comp_apply, Command.map_map]
    exact Command.map_eq_self ((finite command listed).imp fun x finite => Layout.ofDecimal_plainLiteral finite)
  rw [parse, ofData, String.toList_ofList, read]
  simp only [numbers]

/-- Accepted path data reads alike when the letters that it leaves out are written, and draws the same path when every
command is made explicit at the current point; written out in full it is read as that path. The current point is where
the command before ended: the start of the subpath behind a closing, and the origin before the first move. An arc to the
current point ends there, so the point stays, even where its coordinates and those of the arc are zeros of different
sign. Only numbers can be written, so a point that has left the range of doubles is in no text. -/
theorem parse_explicit {text : String} {path : Path Float} (accepted : parse text = .ok path) :
    ∃ (full : List Char) (commands : List (Command Decimal)) (explicit : List (Command Float)),
      Completes none text.toList full ∧ PathData.commands text.toList = .ok commands ∧
      PathData.commands full = .ok commands ∧
      explicit = Course.blank.explicits (commands.map (Command.map Scalar.ofDecimal)) ∧
      (∀ command ∈ explicit, command.IsExplicit) ∧ ofCommands explicit = path ∧
      ((∀ command ∈ explicit, command.Every fun x => x.isFinite = true) →
        parse (String.ofList (spaced (explicit.map (Command.write Layout.plain.text)))) = .ok path) ∧
      ∀ (course : Course Float) (command : Command Float), (course.after command).current = course.finish command ∨
        (course.after command).current = course.current ∧ course.current.same (course.finish command) = true := by
  unfold parse ofData at accepted
  split at accepted
  · next commands given =>
    cases accepted
    have read : PathData.commandsAfter none text.toList = .ok commands := by
      unfold PathData.commands at given
      split at given
      · cases given
        assumption
      · cases given
    obtain ⟨full, completes, reread⟩ := PathData.commandsAfter_completes read
    have moves := PathData.exists_move read
    refine ⟨full, commands, _, completes, given, by rw [PathData.commands, reread], rfl, ?_, ?_, fun finite => ?_, ?_⟩
    · exact Course.isExplicit_explicits _ _
    · exact ofCommands_explicits _
    · rw [parse_spaced finite, ofCommands_explicits]
      intro command head
      cases commands with
      | nil => cases head
      | cons first commands =>
        obtain ⟨relative, p, rfl⟩ := moves first rfl
        cases head
        exact ⟨_, rfl⟩
    · exact Course.after_current
  · cases accepted

theorem parse_explicit_short : ∃ (path : Path Float) (explicit : List (Command Float)),
    parse "m1,1 2 0 0 2h-2v-1a2 2 0 0 1 0 0zl1 1" = .ok path ∧ (∀ command ∈ explicit, command.IsExplicit) ∧
      ofCommands explicit = path ∧
      parse (String.ofList (spaced (explicit.map (Command.write Layout.plain.text)))) = .ok path := by
  let whole (n : Nat) : Decimal := ⟨false, n, 0⟩
  let commands : List (Command Decimal) := [.move true ⟨whole 1, whole 1⟩, .line true ⟨whole 2, whole 0⟩,
    .line true ⟨whole 0, whole 2⟩, .horizontal true ⟨true, 2, 0⟩, .vertical true ⟨true, 1, 0⟩,
    .arc true ⟨whole 2, whole 2⟩ (whole 0) false true ⟨whole 0, whole 0⟩, .close, .line true ⟨whole 1, whole 1⟩]
  have listed : PathData.commands "m1,1 2 0 0 2h-2v-1a2 2 0 0 1 0 0zl1 1".toList = .ok commands := by cbv
  have read : parse "m1,1 2 0 0 2h-2v-1a2 2 0 0 1 0 0zl1 1" =
      .ok (ofCommands (commands.map (Command.map Scalar.ofDecimal)) : Path Float) := by
    rw [parse, ofData, listed]
  have finite : ∀ command ∈ (Course.blank : Course Float).explicits (commands.map (Command.map Scalar.ofDecimal)),
      command.Every fun x => x.isFinite = true := by
    decide +kernel
  obtain ⟨_, _, explicit, _, given, _, rfl, long, drawn, written, _⟩ := parse_explicit read
  rw [listed] at given
  cases given
  exact ⟨_, _, read, long, drawn, written finite⟩

end Path
end EnvelopeWarp
