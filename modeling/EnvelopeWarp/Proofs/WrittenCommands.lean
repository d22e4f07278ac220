import EnvelopeWarp.Proofs.LiteralText
import EnvelopeWarp.Proofs.RedrawnPaths
import EnvelopeWarp.Path.Text

/-! Commands that are written read as the same commands, when each of their numbers is written as a literal: a comma or a
blank ends a literal, and every command has its letter. Path data is its commands, written one after the other. -/

namespace EnvelopeWarp

namespace Command
variable {α : Type}

/-- All numbers of a command have a property. -/
def Every (property : α → Prop) : Command α → Prop
  | .move _ p => p.Every property
  | .line _ p => p.Every property
  | .horizontal _ x => property x
  | .vertical _ y => property y
  | .cubic _ first second p => first.Every property ∧ second.Every property ∧ p.Every property
  | .smoothCubic _ second p => second.Every property ∧ p.Every property
  | .quadratic _ control p => control.Every property ∧ p.Every property
  | .smoothQuadratic _ p => p.Every property
  | .arc _ radii rotation _ _ p => radii.Every property ∧ property rotation ∧ p.Every property
  | .close => True

instance (property : α → Prop) [DecidablePred property] (command : Command α) : Decidable (command.Every property) :=
  match command with
  | .move _ p => inferInstanceAs (Decidable (p.Every property))
  | .line _ p => inferInstanceAs (Decidable (p.Every property))
  | .horizontal _ x => inferInstanceAs (Decidable (property x))
  | .vertical _ y => inferInstanceAs (Decidable (property y))
  | .cubic _ first second p =>
    inferInstanceAs (Decidable (first.Every property ∧ second.Every property ∧ p.Every property))
  | .smoothCubic _ second p => inferInstanceAs (Decidable (second.Every property ∧ p.Every property))
  | .quadratic _ control p => inferInstanceAs (Decidable (control.Every property ∧ p.Every property))
  | .smoothQuadratic _ p => inferInstanceAs (Decidable (p.Every property))
  | .arc _ radii rotation _ _ p =>
    inferInstanceAs (Decidable (radii.Every property ∧ property rotation ∧ p.Every property))
  | .close => inferInstanceAs (Decidable True)

def flagText (flag : Bool) : List Char :=
  if flag then ['1'] else ['0']

/-- A letter with its arguments, each behind a blank. -/
def lettered (relative : Bool) (letter : Char) (arguments : List (List Char)) : List Char :=
  (if relative then letter.toLower else letter) :: arguments.flatMap (' ' :: ·)

/-- The text of a command, with its letter. -/
def write (number : α → List Char) : Command α → List Char
  | .move relative p => lettered relative 'M' [Path.writePoint number p]
  | .line relative p => lettered relative 'L' [Path.writePoint number p]
  | .horizontal relative x => lettered relative 'H' [number x]
  | .vertical relative y => lettered relative 'V' [number y]
  | .cubic relative first second p =>
    lettered relative 'C' [Path.writePoint number first, Path.writePoint number second, Path.writePoint number p]
  | .smoothCubic relative second p => lettered relative 'S' [Path.writePoint number second, Path.writePoint number p]
  | .quadratic relative control p => lettered relative 'Q' [Path.writePoint number control, Path.writePoint number p]
  | .smoothQuadratic relative p => lettered relative 'T' [Path.writePoint number p]
  | .arc relative radii rotation large sweep p => lettered relative 'A'
    [Path.writePoint number radii, number rotation, flagText large, flagText sweep, Path.writePoint number p]
  | .close => lettered false 'Z' []

theorem write_map {β : Type} (f : α → β) (number : β → List Char) (command : Command α) :
    (command.map f).write number = command.write fun x => number (f x) := by
  cases command <;> rfl

private theorem map_congr {β : Type} {f g : α → β} {command : Command α} (same : command.Every fun x => f x = g x) :
    command.map f = command.map g := by
  have point {p : Point α} (both : p.Every fun x => f x = g x) : p.map f = p.map g := congrArg₂ Point.mk both.1 both.2
  cases command with
  | move relative p => rw [map, map, point same]
  | line relative p => rw [map, map, point same]
  | horizontal relative x => exact congrArg (Command.horizontal relative) same
  | vertical relative y => exact congrArg (Command.vertical relative) same
  | cubic relative first second p => rw [map, map, point same.1, point same.2.1, point same.2.2]
  | smoothCubic relative second p => rw [map, map, point same.1, point same.2]
  | quadratic relative control p => rw [map, map, point same.1, point same.2]
  | smoothQuadratic relative p => rw [map, map, point same]
  | arc relative radii rotation large sweep p => rw [map, map, point same.1, same.2.1, point same.2.2]
  | close => rfl

theorem map_eq_self {f : α → α} {command : Command α} (fixed : command.Every fun x => f x = x) :
    command.map f = command :=
  (map_congr fixed).trans (by cases command <;> rfl)

/-- Commands whose numbers have the same texts have the same text. -/
theorem write_congr {first second : α → List Char} {command : Command α}
    (same : command.Every fun x => first x = second x) : command.write first = command.write second :=
  calc command.write first = (command.map first).write id := (write_map first id command).symm
    _ = (command.map second).write id := by rw [map_congr same]
    _ = command.write second := write_map second id command

end Command

namespace PathData

def Ended (text : List Char) : Prop :=
  ∀ c ∈ text.head?, isSeparator c = true

theorem Ended.free {text : List Char} (ended : Ended text) : Free Literal.goesOn text := by
  intro c head
  have separates := ended c head
  simp only [isSeparator, Text.isDataBlank, Bool.or_eq_true, beq_iff_eq] at separates
  rcases separates with ((((rfl | rfl) | rfl) | rfl) | rfl) | rfl <;> rfl

private theorem ended_cons {separator : Char} (separates : isSeparator separator = true) (text : List Char) :
    Ended (separator :: text) := by
  intro c head
  cases head
  exact separates

private theorem separates_one {separator : Char} (separates : isSeparator separator = true) :
    ∀ c ∈ [separator], isSeparator c = true := by
  intro c member
  obtain rfl := List.mem_singleton.mp member
  exact separates

theorem free_literal {literal : Literal} (sound : literal.Sound) (rest : List Char) :
    Free isSeparator (literal.text ++ rest) := by
  obtain ⟨c, tail, shape, kind⟩ := literal.text_starts sound rest
  rw [shape]
  refine Free.cons (Bool.eq_false_iff.mpr fun separates => ?_)
  simp only [isSeparator, Text.isDataBlank, Bool.or_eq_true, beq_iff_eq] at separates
  rcases separates with ((((rfl | rfl) | rfl) | rfl) | rfl) | rfl <;> revert kind <;> decide

/-- A reader takes exactly this text off the front and returns this value. -/
def Recovers {β : Type} (read : Reader β) (text : List Char) (value : β) : Prop :=
  ∀ rest, Ended rest → read (text ++ rest) = .ok (value, rest)

private theorem recovers_pure {β : Type} (value : β) : Recovers (pure value) [] value :=
  fun _ _ => rfl

theorem Recovers.bind {β γ : Type} {read : Reader β} {next : β → Reader γ} {first second : List Char}
    {middle : β} {value : γ} (before : Recovers read first middle) (after : Recovers (next middle) second value)
    (apart : ∀ rest, Ended rest → Ended (second ++ rest)) : Recovers (read >>= next) (first ++ second) value := by
  intro rest ended
  rw [List.append_assoc]
  exact Reader.bind_eq_ok.mpr ⟨middle, _, before _ (apart rest ended), after rest ended⟩

theorem Recovers.last {β γ : Type} {read : Reader β} {text : List Char} {value : β} (whole : β → γ)
    (before : Recovers read text value) : Recovers (read >>= fun found => pure (whole found)) text (whole value) := by
  intro rest ended
  exact Reader.bind_eq_ok.mpr ⟨value, rest, before rest ended, rfl⟩

private theorem recovers_number {text : List Char} {value : Decimal} (spells : Spells text value) (letter : Char)
    {separators : List Char} (blank : ∀ c ∈ separators, isSeparator c = true) :
    Recovers (number letter) (separators ++ text) value := by
  obtain ⟨literal, sound, rfl, rfl⟩ := spells
  intro rest ended
  have skipped : skipSeparators (separators ++ (literal.text ++ rest)) = literal.text ++ rest :=
    dropWhile_of_free blank (free_literal sound rest)
  simp only [number, List.append_assoc, skipped, Literal.scan?_text sound ended.free]

section Commands
variable {α : Type} {number : α → List Char} {value : α → Decimal}

private theorem recovers_point {p : Point α} (written : p.Every fun x => Spells (number x) (value x)) (letter : Char)
    {separators : List Char} (blank : ∀ c ∈ separators, isSeparator c = true) :
    Recovers (point letter) (separators ++ Path.writePoint number p) (p.map value) := by
  have comma : ∀ c ∈ [','], isSeparator c = true := separates_one rfl
  have second := recovers_number written.2 letter comma
  have chained : Recovers (point letter) ((separators ++ number p.x) ++ ([','] ++ number p.y)) (p.map value) :=
    (recovers_number written.1 letter blank).bind (second.last fun found => (⟨value p.x, found⟩ : Point Decimal))
      fun rest _ => ended_cons rfl _
  rw [List.append_assoc] at chained
  exact chained

private theorem recovers_flag (flag : Bool) {separators : List Char} (blank : ∀ c ∈ separators, isSeparator c = true) :
    Recovers PathData.flag (separators ++ Command.flagText flag) flag := by
  intro rest ended
  have skipped : skipSeparators (separators ++ (Command.flagText flag ++ rest)) = Command.flagText flag ++ rest := by
    apply dropWhile_of_free blank
    cases flag <;> exact Free.cons rfl
  rw [List.append_assoc, PathData.flag, skipped]
  cases flag <;> rfl

/-- A text starts with a letter, and behind it stands what this letter asks for. -/
def Lettered (text : List Char) (found : Command Decimal) : Prop :=
  ∃ letter arguments, text = letter :: arguments ∧ letter.isAlpha = true ∧
    ∃ read, arguments? letter = some read ∧ Recovers read arguments found

private theorem lettered_write {command : Command α} (written : command.Every fun x => Spells (number x) (value x)) :
    Lettered (command.write number) (command.map value) := by
  have blank : ∀ c ∈ [' '], isSeparator c = true := separates_one rfl
  have between {second : List Char} : ∀ rest, Ended rest → Ended (([' '] ++ second) ++ rest) := fun _ _ => ended_cons rfl _
  have last : ∀ rest, Ended rest → Ended ([] ++ rest) := fun _ ended => ended
  cases command with
  | move relative p =>
    cases relative <;>
      exact ⟨_, _, rfl, rfl, _, rfl, (recovers_point written _ blank).bind (recovers_pure _) last⟩
  | line relative p =>
    cases relative <;>
      exact ⟨_, _, rfl, rfl, _, rfl, (recovers_point written _ blank).bind (recovers_pure _) last⟩
  | horizontal relative x =>
    cases relative <;>
      exact ⟨_, _, rfl, rfl, _, rfl, (recovers_number written _ blank).bind (recovers_pure _) last⟩
  | vertical relative y =>
    cases relative <;>
      exact ⟨_, _, rfl, rfl, _, rfl, (recovers_number written _ blank).bind (recovers_pure _) last⟩
  | cubic relative first second p =>
    obtain ⟨one, two, three⟩ := written
    cases relative <;>
      exact ⟨_, _, rfl, rfl, _, rfl, (recovers_point one _ blank).bind ((recovers_point two _ blank).bind
        ((recovers_point three _ blank).bind (recovers_pure _) last) between) between⟩
  | smoothCubic relative second p =>
    cases relative <;>
      exact ⟨_, _, rfl, rfl, _, rfl, (recovers_point written.1 _ blank).bind
        ((recovers_point written.2 _ blank).bind (recovers_pure _) last) between⟩
  | quadratic relative control p =>
    cases relative <;>
      exact ⟨_, _, rfl, rfl, _, rfl, (recovers_point written.1 _ blank).bind
        ((recovers_point written.2 _ blank).bind (recovers_pure _) last) between⟩
  | smoothQuadratic relative p =>
    cases relative <;>
      exact ⟨_, _, rfl, rfl, _, rfl, (recovers_point written _ blank).bind (recovers_pure _) last⟩
  | arc relative radii rotation large sweep p =>
    obtain ⟨one, two, three⟩ := written
    cases relative <;>
      exact ⟨_, _, rfl, rfl, _, rfl, (recovers_point one _ blank).bind ((recovers_number two _ blank).bind
        ((recovers_flag large blank).bind ((recovers_flag sweep blank).bind
          ((recovers_point three _ blank).bind (recovers_pure _) last) between) between) between) between⟩
  | close => exact ⟨_, _, rfl, rfl, _, rfl, recovers_pure _⟩

end Commands

theorem Lettered.command {text : List Char} {found : Command Decimal} (lettered : Lettered text found)
    {previous : Option Char} (starts : previous = none → text.head? = some 'M') {rest : List Char} (ended : Ended rest) :
    ∃ letter tail, text ++ rest = letter :: tail ∧ isSeparator letter = false ∧
      command previous letter tail = .ok ((letter, found), rest) := by
  obtain ⟨letter, arguments, rfl, alpha, read, shape, recovers⟩ := lettered
  have start : letterAt previous letter = .ok (letter, true) := letterAt_eq_ok.mpr (.inl ⟨alpha, rfl, rfl⟩)
  refine ⟨letter, arguments ++ rest, rfl, Bool.eq_false_iff.mpr fun separates => ?_, ?_⟩
  · simp only [isSeparator, Text.isDataBlank, Bool.or_eq_true, beq_iff_eq] at separates
    rcases separates with ((((rfl | rfl) | rfl) | rfl) | rfl) | rfl <;> cases alpha
  · have opening : previous = none → letter = 'M' ∨ letter = 'm' := fun absent => .inl (Option.some.inj (starts absent))
    exact command_eq_ok.mpr ⟨true, read, start, opening, shape, recovers rest ended⟩

theorem commandsAfter_nil {previous : Option Char} {text : List Char} (ahead : skipSeparators text = []) :
    commandsAfter previous text = .ok [] := by
  rw [commandsAfter]
  split
  · rfl
  · next same =>
    rw [ahead] at same
    cases same

theorem commandsAfter_eq {previous : Option Char} {text tail rest : List Char} {c letter : Char}
    {found : Command Decimal} {commands : List (Command Decimal)} (ahead : skipSeparators text = c :: tail)
    (step : command previous c tail = .ok ((letter, found), rest))
    (after : commandsAfter (some letter) rest = .ok commands) :
    commandsAfter previous text = .ok (found :: commands) := by
  rw [commandsAfter]
  split
  · next none_left =>
    rw [ahead] at none_left
    cases none_left
  · next d more same =>
    rw [ahead] at same
    cases same
    split
    · next stop failed =>
      rw [step] at failed
      cases failed
    · next letter_ found_ rest_ same =>
      rw [step] at same
      cases same
      rw [after]

private def gap : List (List Char) → List Char
  | [] => []
  | _ => [' ']

private theorem spaced_cons (text : List Char) (texts : List (List Char)) :
    Path.spaced (text :: texts) = text ++ (gap texts ++ Path.spaced texts) := by
  cases texts with
  | nil => simp [Path.spaced, gap]
  | cons next texts => simp [Path.spaced, gap]

/-- Commands with a blank between each two are read one by one. -/
theorem commandsAfter_spaced {texts : List (List Char)} {commands : List (Command Decimal)}
    (written : List.Forall₂ Lettered texts commands) {previous : Option Char}
    (starts : previous = none → ∀ text ∈ texts.head?, text.head? = some 'M') {separators : List Char}
    (blank : ∀ c ∈ separators, isSeparator c = true) :
    commandsAfter previous (separators ++ Path.spaced texts) = .ok commands := by
  induction written generalizing previous separators with
  | nil =>
    have skipped : skipSeparators (separators ++ Path.spaced []) = [] := dropWhile_of_free blank (Free.nil _)
    exact commandsAfter_nil skipped
  | @cons text found texts commands first rest ih =>
    have ended : Ended (gap texts ++ Path.spaced texts) := by
      cases texts with
      | nil =>
        intro c head
        cases head
      | cons next texts => exact ended_cons rfl _
    have between : ∀ c ∈ gap texts, isSeparator c = true := by
      cases texts with
      | nil =>
        intro c member
        cases member
      | cons next texts => exact separates_one rfl
    obtain ⟨letter, tail, shape, other, step⟩ := first.command (fun absent => starts absent text rfl) ended
    have ahead : skipSeparators (separators ++ Path.spaced (text :: texts)) = letter :: tail := by
      rw [spaced_cons, shape]
      exact dropWhile_of_free blank (Free.cons other)
    have later : commandsAfter (some letter) (gap texts ++ Path.spaced texts) = .ok commands := by
      apply ih _ between
      intro absent
      cases absent
    exact commandsAfter_eq ahead step later

section Commands
variable {α : Type} {number : α → List Char} {value : α → Decimal}

/-- Commands that start with a move are read as they are written. -/
theorem commands_spaced {given : List (Command α)}
    (every : ∀ command ∈ given, command.Every fun x => Spells (number x) (value x))
    (starts : ∀ command ∈ given.head?, ∃ p, command = .move false p) :
    commands (Path.spaced (given.map (Command.write number))) = .ok (given.map (Command.map value)) := by
  have lettered : List.Forall₂ Lettered (given.map (Command.write number)) (given.map (Command.map value)) := by
    rw [List.forall₂_map_left_iff, List.forall₂_map_right_iff, List.forall₂_same]
    exact fun command member => lettered_write (every command member)
  have opening : ∀ text ∈ (given.map (Command.write number)).head?, text.head? = some 'M' := by
    intro text head
    rw [List.head?_map] at head
    obtain ⟨command, first, rfl⟩ := Option.map_eq_some_iff.mp head
    obtain ⟨p, rfl⟩ := starts command first
    rfl
  have blank : ∀ c ∈ ([] : List Char), isSeparator c = true := fun _ member => nomatch member
  have read := commandsAfter_spaced lettered (fun _ : none = none => opening) blank
  rw [List.nil_append] at read
  rw [commands, read]

theorem every_curvesOf {property : α → Prop} {nodes : List (Node α)} (every : ∀ node ∈ nodes, node.Every property) :
    ∀ curve ∈ Subpath.curvesOf nodes,
      curve.first.Every property ∧ curve.second.Every property ∧ curve.finish.Every property := by
  induction nodes with
  | nil => exact fun _ member => nomatch member
  | cons first rest ih =>
    cases rest with
    | nil => exact fun _ member => nomatch member
    | cons second rest =>
      intro curve member
      have one := every first (.head _)
      have other := every second (.tail _ (.head _))
      rcases List.mem_cons.mp member with rfl | later
      · exact ⟨one.2.2, other.1, other.2.1⟩
      · exact ih (fun node inside => every node (.tail _ inside)) curve later

private theorem flatMap_blank (text : List Char) (texts : List (List Char)) :
    (text :: texts).flatMap (' ' :: ·) = ' ' :: Path.spaced (text :: texts) := by
  induction texts generalizing text with
  | nil => exact congrArg (List.cons ' ') (List.append_nil text)
  | cons next texts ih =>
    rw [List.flatMap_cons, ih]
    rfl

private theorem writeSubpath_commands (subpath : Subpath α) :
    Path.writeSubpath number subpath = subpath.commands.map (Command.write number) := by
  have curve (curve : Curve α) : Path.writeCurve number curve = curve.command.write number :=
    congrArg (List.cons 'C') (flatMap_blank _ _).symm
  unfold Path.writeSubpath Subpath.commands
  cases subpath.nodes with
  | nil => rfl
  | cons first rest =>
    have start : 'M' :: ' ' :: Path.writePoint number first.anchor = (Command.move false first.anchor).write number :=
      congrArg (List.cons 'M') (flatMap_blank _ []).symm
    rw [List.map_append, List.map_cons, List.map_map]
    refine congrArg₂ (· ++ ·) (congrArg₂ List.cons start (List.map_congr_left fun other _ => curve other)) ?_
    cases subpath.closed <;> rfl

/-- Path data is written as the commands of the path are. -/
theorem write_commands (path : Path α) :
    path.write number = Path.spaced (path.commands.map (Command.write number)) := by
  rw [Path.write, Path.commands, List.map_flatMap]
  exact congrArg Path.spaced (List.flatMap_congr fun subpath _ => writeSubpath_commands subpath)

private theorem every_subpath_commands {property : α → Prop} {subpath : Subpath α}
    (every : ∀ node ∈ subpath.nodes, node.Every property) : ∀ command ∈ subpath.commands, command.Every property := by
  have curves := every_curvesOf every
  unfold Subpath.commands Subpath.curves
  cases shape : subpath.nodes with
  | nil => exact fun _ member => nomatch member
  | cons first rest =>
    rw [shape] at every curves
    refine List.forall_mem_append.mpr ⟨List.forall_mem_cons.mpr ⟨(every first (.head _)).2.1, ?_⟩, ?_⟩
    · exact List.forall_mem_map.mpr curves
    · cases subpath.closed with
      | false => exact fun _ member => nomatch member
      | true => exact List.forall_mem_singleton.mpr trivial

theorem every_commands {property : α → Prop} {path : Path α} (every : path.Every property) :
    ∀ command ∈ path.commands, command.Every property :=
  List.forall_mem_flatMap.mpr fun subpath listed => every_subpath_commands (every subpath listed)

/-- What is written of a path with nodes in every subpath reads as the commands of the path. -/
theorem commands_write {path : Path α} (every : path.Every fun x => Spells (number x) (value x))
    (some_node : ∀ subpath ∈ path.subpaths, subpath.nodes ≠ []) :
    commands (path.write number) = .ok (path.commands.map (Command.map value)) := by
  rw [write_commands]
  apply commands_spaced
  · exact every_commands every
  · intro command head
    obtain ⟨subpaths⟩ := path
    cases subpaths with
    | nil => cases head
    | cons subpath subpaths =>
      obtain ⟨first, rest, shape⟩ := List.exists_cons_of_ne_nil (some_node subpath (.head _))
      rw [Path.commands, List.flatMap_cons, Subpath.commands, shape] at head
      cases head
      exact ⟨_, rfl⟩

end Commands
end PathData
end EnvelopeWarp
