import EnvelopeWarp.Pattern.Fault
import EnvelopeWarp.Text.Blank

/-! Reading a pattern from its front. A reader comes with the proof that it puts nothing back, so what
is repeated for each character comes to an end. -/

namespace EnvelopeWarp
namespace Pattern

/-- The text ahead and its place. In a spaced pattern blanks and comments count for nothing. -/
structure Cursor where
  place : Place
  rest : List Char
  isSpaced : Bool
deriving Repr, DecidableEq

/-- Takes a character, if there is one. -/
def Cursor.take? (cursor : Cursor) : Option Char × Cursor :=
  match cursor.rest with
  | [] => (none, cursor)
  | c :: rest => (some c, { cursor with place := cursor.place.after c, rest := rest })

theorem Cursor.length_take?_le (cursor : Cursor) :
    cursor.take?.2.rest.length ≤ cursor.rest.length := by
  unfold Cursor.take?
  split
  · exact Nat.le_refl _
  · next ahead => simp [ahead]

/-- The characters of a kind in a row, each with its place, and what follows. Blanks and comments between
them are left out if the pattern is spaced; a comment goes from its sign to the end of the line. -/
def scanRun (accepts : Char → Bool) (isSpaced inComment : Bool) (place : Place) :
    List Char → List (Place × Char) × Place × List Char
  | [] => ([], place, [])
  | c :: rest =>
    if inComment then scanRun accepts isSpaced (c != '\n') (place.after c) rest
    else if isSpaced && Text.isBlank c then scanRun accepts isSpaced false (place.after c) rest
    else if isSpaced && c == '#' then scanRun accepts isSpaced true (place.after c) rest
    else if accepts c then
      let found := scanRun accepts isSpaced false (place.after c) rest
      ((place, c) :: found.1, found.2)
    else ([], place, c :: rest)

theorem length_scanRun_le (accepts : Char → Bool) (isSpaced inComment : Bool) (place : Place)
    (text : List Char) :
    (scanRun accepts isSpaced inComment place text).2.2.length ≤ text.length := by
  fun_induction scanRun accepts isSpaced inComment place text <;> grind

/-- Takes something off the front of a text. -/
structure Reader (α : Type) where
  read : Cursor → Except Error (α × Cursor)
  keeps : ∀ {before value after}, read before = .ok (value, after) →
    after.rest.length ≤ before.rest.length

namespace Reader

instance : Monad Reader where
  pure value := ⟨fun cursor => .ok (value, cursor), by
    intro before value after found
    cases found
    exact Nat.le_refl _⟩
  bind first next := ⟨fun cursor =>
    match first.read cursor with
    | .ok (value, after) => (next value).read after
    | .error error => .error error, by
      intro before value after found
      split at found
      · next middle read => exact Nat.le_trans ((next _).keeps found) (first.keeps read)
      · contradiction⟩

def failWith {α : Type} (error : Error) : Reader α :=
  ⟨fun _ => .error error, by simp⟩

def fail {α : Type} (fault : Fault) (span : Span) : Reader α :=
  failWith (.ofFault fault span)

/-- The cursor as it is. -/
def cursor : Reader Cursor :=
  ⟨fun cursor => .ok (cursor, cursor), by
    intro before value after found
    cases found
    exact Nat.le_refl _⟩

def here : Reader Place :=
  return (← cursor).place

/-- The text ahead. -/
def ahead : Reader (List Char) :=
  return (← cursor).rest

/-- What lies between a place and this one. -/
def spanFrom (start : Place) : Reader Span :=
  return ⟨start, ← here⟩

/-- Takes the characters of a kind in a row. -/
def run (accepts : Char → Bool) : Reader (List (Place × Char)) :=
  ⟨fun cursor =>
    let found := scanRun accepts cursor.isSpaced false cursor.place cursor.rest
    .ok (found.1, { cursor with place := found.2.1, rest := found.2.2 }), by
    intro before value after found
    cases found
    exact length_scanRun_le ..⟩

/-- Drops what counts for nothing. -/
def skip : Reader Unit := do
  discard (run fun _ => false)

def take? : Reader (Option Char) :=
  ⟨fun cursor => .ok cursor.take?, by
    intro before value after found
    have shorter := before.length_take?_le
    rwa [Except.ok.inj found] at shorter⟩

/-- Drops so many characters. -/
def drop : Nat → Reader Unit
  | 0 => return ()
  | count + 1 => do
    discard take?
    drop count

/-- Reads ahead and stays where it is. -/
def peek {α : Type} (reader : Reader α) : Reader α :=
  ⟨fun cursor =>
    match reader.read cursor with
    | .ok (value, _) => .ok (value, cursor)
    | .error error => .error error, by
      intro before value after found
      split at found
      · cases found
        exact Nat.le_refl _
      · contradiction⟩

/-- The character ahead. -/
def next? : Reader (Option Char) :=
  peek take?

/-- From here on blanks and comments count for nothing, or count again. -/
def setSpaced (isSpaced : Bool) : Reader Unit :=
  ⟨fun cursor => .ok ((), { cursor with isSpaced := isSpaced }), by
    intro before value after found
    cases found
    exact Nat.le_refl _⟩

end Reader

/-- What a step leads to: another one, or the end. -/
inductive Turn (σ α : Type) where
  | again (state : σ)
  | done (value : α)

/-- Takes a step for the character ahead, then for the one after what this step has taken, and so on. -/
def iterateFrom {σ α : Type} (step : Place → Char → σ → Reader (Turn σ α)) (finish : σ → Reader α)
    (state : σ) (cursor : Cursor) : Except Error (α × Cursor) :=
  match _ahead : cursor.rest with
  | [] => (finish state).read cursor
  | c :: rest =>
    match _taken : (step cursor.place c state).read
        { cursor with place := cursor.place.after c, rest := rest } with
    | .error error => .error error
    | .ok (.again next, after) => iterateFrom step finish next after
    | .ok (.done value, after) => .ok (value, after)
termination_by cursor.rest.length
decreasing_by
  have := (step cursor.place c state).keeps _taken
  grind

theorem iterateFrom_keeps {σ α : Type} (step : Place → Char → σ → Reader (Turn σ α))
    (finish : σ → Reader α) (state : σ) (before : Cursor) {value : α} {after : Cursor}
    (found : iterateFrom step finish state before = .ok (value, after)) :
    after.rest.length ≤ before.rest.length := by
  fun_induction iterateFrom step finish state before with
  | case1 state cursor => exact (finish state).keeps found
  | case2 => contradiction
  | case3 state cursor c rest ahead next middle taken ih =>
    have := (step cursor.place c state).keeps taken
    grind
  | case4 state cursor c rest ahead last middle taken =>
    have := (step cursor.place c state).keeps taken
    grind

namespace Reader

/-- Takes a step for each character until one is the last; when the text ends first, there is another
way to finish. -/
def iterate {σ α : Type} (step : Place → Char → σ → Reader (Turn σ α)) (finish : σ → Reader α)
    (state : σ) : Reader α :=
  ⟨iterateFrom step finish state, iterateFrom_keeps step finish state _⟩

/-- Takes a step for each character that counts. -/
def iterateSpaced {σ α : Type} (step : Place → Char → σ → Reader (Turn σ α)) (finish : σ → Reader α)
    (state : σ) : Reader α := do
  skip
  iterate (fun place c state => do
    let turn ← step place c state
    skip
    return turn) finish state

end Reader
end Pattern
end EnvelopeWarp
