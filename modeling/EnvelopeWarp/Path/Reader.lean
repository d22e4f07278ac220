import EnvelopeWarp.Decimal.Reading
import EnvelopeWarp.Path.Command
import EnvelopeWarp.Text.Blank
import EnvelopeWarp.Text.Bytes

/-! Reading path data into commands. Blanks and commas may stand before every token and are needed
nowhere: a number is the longest literal there is, a flag is a single digit, and a command letter
may be left out where a number follows another command. A reader works on the text still ahead, so
an error is known by the text at which it arose. -/

namespace EnvelopeWarp

/-- Why path data is not accepted. -/
inductive PathFault where
  | missingMove (found : Char)
  | unexpected (found : Char)
  | expectedNumber (command : Char)
  | expectedFlag
deriving Repr, DecidableEq

/-- A fault and its distance in bytes from the start of the data. -/
structure PathError where
  fault : PathFault
  position : Nat
deriving Repr, DecidableEq

def PathError.message (error : PathError) : String :=
  let place := " at " ++ toString error.position
  match error.fault with
  | .missingMove found =>
    "Path data must begin with a moveto command, found '" ++ found.toString ++ "'" ++ place
  | .unexpected found => "Unexpected character '" ++ found.toString ++ "'" ++ place
  | .expectedNumber command => "Command '" ++ command.toString ++ "' expects a number" ++ place
  | .expectedFlag => "Arc flag must be 0 or 1" ++ place

namespace PathData

/-- A fault and the text at which it arose. -/
structure Stop where
  fault : PathFault
  rest : List Char
deriving Repr, DecidableEq

/-- Takes something off the front of a text. -/
def Reader (β : Type) : Type :=
  List Char → Except Stop (β × List Char)

instance : Monad Reader where
  pure value text := .ok (value, text)
  bind read next text := match read text with
    | .ok (value, rest) => next value rest
    | .error stop => .error stop

def isSeparator (c : Char) : Bool :=
  Text.isDataBlank c || c == ','

def skipSeparators (text : List Char) : List Char :=
  text.dropWhile isSeparator

def startsNumber (c : Char) : Bool :=
  c.isDigit || c == '.' || c == '-' || c == '+'

def number (command : Char) : Reader Decimal := fun text =>
  match Literal.scan? (skipSeparators text) with
  | some (literal, rest) => .ok (literal.value, rest)
  | none => .error ⟨.expectedNumber command, skipSeparators text⟩

def point (command : Char) : Reader (Point Decimal) := do
  let x ← number command
  let y ← number command
  return ⟨x, y⟩

def flag : Reader Bool := fun text =>
  match skipSeparators text with
  | '0' :: rest => .ok (false, rest)
  | '1' :: rest => .ok (true, rest)
  | rest => .error ⟨.expectedFlag, rest⟩

def arc (command : Char) : Reader (Command Decimal) := do
  let radii ← point command
  let rotation ← number command
  let large ← flag
  let sweep ← flag
  let finish ← point command
  return .arc command.isLower radii rotation large sweep finish

/-- The reader of the arguments that follow a command letter. -/
def arguments? (letter : Char) : Option (Reader (Command Decimal)) :=
  match letter.toUpper with
  | 'M' => some do return .move letter.isLower (← point letter)
  | 'L' => some do return .line letter.isLower (← point letter)
  | 'H' => some do return .horizontal letter.isLower (← number letter)
  | 'V' => some do return .vertical letter.isLower (← number letter)
  | 'C' => some do
    return .cubic letter.isLower (← point letter) (← point letter) (← point letter)
  | 'S' => some do return .smoothCubic letter.isLower (← point letter) (← point letter)
  | 'Q' => some do return .quadratic letter.isLower (← point letter) (← point letter)
  | 'T' => some do return .smoothQuadratic letter.isLower (← point letter)
  | 'A' => some (arc letter)
  | 'Z' => some (pure .close)
  | _ => none

/-- The letter that repeats a command: a move is continued by lines, and nothing continues a closed
subpath. -/
def continuation? (previous : Char) : Option Char :=
  if previous == 'M' then some 'L'
  else if previous == 'm' then some 'l'
  else if previous.toUpper == 'Z' then none
  else some previous

/-- The command letter that a character starts, and whether the character is that letter. -/
def letterAt (previous : Option Char) (c : Char) : Except PathFault (Char × Bool) :=
  if c.isAlpha then .ok (c, true)
  else if startsNumber c then
    match previous with
    | none => .error (.missingMove c)
    | some letter =>
      match continuation? letter with
      | some next => .ok (next, false)
      | none => .error (.unexpected c)
  else .error (.unexpected c)

def isMove (letter : Char) : Bool :=
  letter == 'M' || letter == 'm'

/-- One command from its first character on, with its letter. The first command is a move. -/
def command (previous : Option Char) (c : Char) (tail : List Char) :
    Except Stop ((Char × Command Decimal) × List Char) :=
  match letterAt previous c with
  | .error fault => .error ⟨fault, c :: tail⟩
  | .ok (letter, written) =>
    if previous.isNone && !isMove letter then .error ⟨.missingMove letter, c :: tail⟩
    else
      match arguments? letter with
      | none => .error ⟨.unexpected letter, c :: tail⟩
      | some read =>
        match read (if written then tail else c :: tail) with
        | .error stop => .error stop
        | .ok (found, rest) => .ok ((letter, found), rest)

/-- A reader that leaves no more text than it was given. -/
private def Keeps {β : Type} (read : Reader β) : Prop :=
  ∀ text value rest, read text = .ok (value, rest) → rest.length ≤ text.length

/-- A reader that takes at least one character. -/
private def Takes {β : Type} (read : Reader β) : Prop :=
  ∀ text value rest, read text = .ok (value, rest) → rest.length < text.length

private theorem Takes.keeps {β : Type} {read : Reader β} (takes : Takes read) : Keeps read :=
  fun text value rest found => Nat.le_of_lt (takes text value rest found)

private theorem keeps_pure {β : Type} (value : β) : Keeps (pure value : Reader β) := by
  intro text found rest same
  cases same
  exact Nat.le_refl _

theorem Reader.bind_eq_ok {β γ : Type} {read : Reader β} {next : β → Reader γ} {text : List Char}
    {result : γ × List Char} : (read >>= next) text = .ok result ↔
      ∃ middle between, read text = .ok (middle, between) ∧ next middle between = .ok result := by
  change (match read text with
    | .ok (value, rest) => next value rest
    | .error stop => .error stop) = _ ↔ _
  cases read text with
  | error stop => simp
  | ok found =>
    constructor
    · exact fun last => ⟨found.1, found.2, rfl, last⟩
    · rintro ⟨middle, between, same, last⟩
      cases same
      exact last

private theorem Keeps.bind {β γ : Type} {read : Reader β} {next : β → Reader γ}
    (first : Keeps read) (last : ∀ value, Keeps (next value)) : Keeps (read >>= next) := by
  intro text value rest found
  obtain ⟨middle, between, before, after⟩ := Reader.bind_eq_ok.mp found
  exact Nat.le_trans (last middle between value rest after) (first text middle between before)

private theorem Takes.bind {β γ : Type} {read : Reader β} {next : β → Reader γ}
    (first : Takes read) (last : ∀ value, Keeps (next value)) : Takes (read >>= next) := by
  intro text value rest found
  obtain ⟨middle, between, before, after⟩ := Reader.bind_eq_ok.mp found
  exact Nat.lt_of_le_of_lt (last middle between value rest after) (first text middle between before)

theorem length_skipSeparators_le (text : List Char) : (skipSeparators text).length ≤ text.length :=
  (List.dropWhile_sublist isSeparator).length_le

private theorem takes_number (letter : Char) : Takes (number letter) := by
  intro text value rest found
  simp only [number] at found
  split at found
  · next literal tail scanned =>
    cases found
    exact Nat.lt_of_lt_of_le (Literal.scan?_shorter scanned) (length_skipSeparators_le text)
  · cases found

private theorem takes_point (letter : Char) : Takes (point letter) :=
  (takes_number letter).bind fun _ => (takes_number letter).keeps.bind fun _ => keeps_pure _

private theorem keeps_flag : Keeps flag := by
  intro text value rest found
  have shorter := length_skipSeparators_le text
  simp only [flag] at found
  split at found
  · next same => cases found; simp only [same, List.length_cons] at shorter; omega
  · next same => cases found; simp only [same, List.length_cons] at shorter; omega
  · cases found

private theorem takes_arc (letter : Char) : Takes (arc letter) :=
  (takes_point letter).bind fun _ => (takes_number letter).keeps.bind fun _ =>
    keeps_flag.bind fun _ => keeps_flag.bind fun _ =>
      (takes_point letter).keeps.bind fun _ => keeps_pure _

private theorem takes_arguments {letter : Char} {read : Reader (Command Decimal)}
    (found : arguments? letter = some read) (open_ : letter.toUpper ≠ 'Z') : Takes read := by
  have number := takes_number letter
  have point := takes_point letter
  unfold arguments? at found
  split at found <;> first | contradiction | cases found
  · exact point.bind fun _ => keeps_pure _
  · exact point.bind fun _ => keeps_pure _
  · exact number.bind fun _ => keeps_pure _
  · exact number.bind fun _ => keeps_pure _
  · exact point.bind fun _ => point.keeps.bind fun _ => point.keeps.bind fun _ => keeps_pure _
  · exact point.bind fun _ => point.keeps.bind fun _ => keeps_pure _
  · exact point.bind fun _ => point.keeps.bind fun _ => keeps_pure _
  · exact point.bind fun _ => keeps_pure _
  · exact takes_arc letter

private theorem keeps_arguments {letter : Char} {read : Reader (Command Decimal)}
    (found : arguments? letter = some read) : Keeps read := by
  by_cases closing : letter.toUpper = 'Z'
  · simp only [arguments?, closing, Option.some.injEq] at found
    subst found
    exact keeps_pure _
  · exact (takes_arguments found closing).keeps

private theorem continuation_open {previous next : Char} (found : continuation? previous = some next) :
    next.toUpper ≠ 'Z' := by
  unfold continuation? at found
  split at found
  · cases found; decide
  · split at found
    · cases found; decide
    · split at found
      · cases found
      · next other => cases found; simpa using other

theorem letterAt_eq_ok {previous : Option Char} {c letter : Char} {written : Bool} :
    letterAt previous c = .ok (letter, written) ↔ (c.isAlpha = true ∧ letter = c ∧ written = true) ∨
      (c.isAlpha = false ∧ startsNumber c = true ∧ written = false ∧
        ∃ before, previous = some before ∧ continuation? before = some letter) := by
  constructor
  · intro start
    unfold letterAt at start
    split at start
    · next alpha =>
      cases start
      exact .inl ⟨alpha, rfl, rfl⟩
    split at start
    · next other begins =>
      split at start
      · cases start
      · next before =>
        split at start
        · next again =>
          cases start
          exact .inr ⟨by simpa using other, begins, rfl, before, rfl, again⟩
        · cases start
    · cases start
  · rintro (⟨alpha, rfl, rfl⟩ | ⟨other, begins, rfl, before, rfl, again⟩)
    · simp only [letterAt, alpha, if_true]
    · simp only [letterAt, other, begins, again, Bool.false_eq_true, if_false, if_true]

theorem command_eq_ok {previous : Option Char} {c letter : Char} {tail rest : List Char} {found : Command Decimal} :
    command previous c tail = .ok ((letter, found), rest) ↔ ∃ written read, letterAt previous c = .ok (letter, written) ∧
      (previous = none → letter = 'M' ∨ letter = 'm') ∧ arguments? letter = some read ∧
        read (if written then tail else c :: tail) = .ok (found, rest) := by
  have opens : (previous.isNone && !isMove letter) = true ↔ ¬(previous = none → letter = 'M' ∨ letter = 'm') := by
    cases previous <;> simp [isMove]
  constructor
  · intro read
    unfold command at read
    split at read
    · cases read
    next name written start =>
    split at read
    · cases read
    next opening =>
    split at read
    · cases read
    next reader shape =>
    split at read
    · cases read
    next taken =>
    cases read
    exact ⟨written, reader, start, Classical.not_not.mp (mt opens.mpr opening), shape, taken⟩
  · rintro ⟨written, read, start, opening, shape, taken⟩
    simp only [command, start, if_neg (mt opens.mp (Classical.not_not.mpr opening)), shape, taken]

/-- A command takes at least its letter or a number. -/
theorem command_shorter {previous : Option Char} {c letter : Char} {tail rest : List Char}
    {found : Command Decimal} (read : command previous c tail = .ok ((letter, found), rest)) :
    rest.length < (c :: tail).length := by
  obtain ⟨written, reader, start, _, shape, step⟩ := command_eq_ok.mp read
  rcases letterAt_eq_ok.mp start with ⟨_, rfl, rfl⟩ | ⟨_, _, rfl, before, _, follows⟩
  · exact Nat.lt_succ_of_le (keeps_arguments shape _ _ _ step)
  · exact takes_arguments shape (continuation_open follows) _ _ _ step

/-- The commands of a text that follows a command with the given letter. -/
def commandsAfter (previous : Option Char) (text : List Char) :
    Except Stop (List (Command Decimal)) :=
  match _ahead : skipSeparators text with
  | [] => .ok []
  | c :: tail =>
    match _step : command previous c tail with
    | .error stop => .error stop
    | .ok ((letter, found), rest) =>
      match commandsAfter (some letter) rest with
      | .error stop => .error stop
      | .ok commands => .ok (found :: commands)
termination_by text.length
decreasing_by
  have shorter := command_shorter _step
  have skipped := length_skipSeparators_le text
  rw [_ahead] at skipped
  omega

/-- The commands of path data. -/
def commands (text : List Char) : Except PathError (List (Command Decimal)) :=
  match commandsAfter none text with
  | .ok found => .ok found
  | .error stop => .error ⟨stop.fault, Text.byteLength text - Text.byteLength stop.rest⟩

end PathData
end EnvelopeWarp
