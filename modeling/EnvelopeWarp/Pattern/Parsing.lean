import EnvelopeWarp.Pattern.Bracket
import EnvelopeWarp.Pattern.Group

/-! Reading a text as a pattern. What has been read of each group that is still open is kept from the
inside out. -/

namespace EnvelopeWarp
namespace Pattern

/-- What has been read of a group. -/
structure GroupParts where
  /-- Where the group starts. -/
  start : Place
  /-- The alternatives that are over, the latest first. -/
  choices : List Tree
  /-- Where the alternative starts that is not over. -/
  current : Place
  /-- Its parts, the latest first. -/
  parts : List Tree
deriving Repr

namespace GroupParts

def empty (place : Place) : GroupParts :=
  ⟨place, [], place, []⟩

def push (group : GroupParts) (part : Tree) : GroupParts :=
  { group with parts := part :: group.parts }

/-- The alternative that ends at a place. -/
def alternative (group : GroupParts) (finish : Place) : Tree :=
  .ofParts ⟨group.current, finish⟩ group.parts.reverse

/-- The group that ends at a place. -/
def tree (group : GroupParts) (finish : Place) : Tree :=
  match group.choices with
  | [] => group.alternative finish
  | _ => .choice ⟨group.start, finish⟩ (group.alternative finish :: group.choices).reverse

end GroupParts

/-- A group that has been opened. -/
structure OpenGroup where
  /-- What has been read of the group around it. -/
  outer : GroupParts
  parenthesis : Span
  flags : Flags
  /-- Whether the group around it is spaced. -/
  wasSpaced : Bool
deriving Repr

structure State where
  current : GroupParts
  opened : List OpenGroup
  names : List Name
deriving Repr

namespace State

def initial : State :=
  ⟨.empty .first, [], []⟩

def push (state : State) (part : Tree) : State :=
  { state with current := state.current.push part }

/-- The part to be repeated, and the state without it. -/
def takeLast? (state : State) : Option ((Span × Tree) × State) :=
  match state.current.parts with
  | [] => none
  | part :: rest =>
    part.repeatable?.map fun span =>
      ((span, part), { state with current := { state.current with parts := rest } })

end State

/-- Reads what a parenthesis begins. -/
def openParenthesis (place : Place) (state : State) : Reader State := do
  let wasSpaced := (← Reader.cursor).isSpaced
  match ← opening place state.names with
  | .flags flags =>
    Reader.setSpaced (flags.apply 'x' wasSpaced)
    return state.push (.flags (← Reader.spanFrom place) flags)
  | .group flags name =>
    Reader.setSpaced (flags.apply 'x' wasSpaced)
    return {
      current := .empty (← Reader.here)
      opened := ⟨state.current, .ofChar place '(', flags, wasSpaced⟩ :: state.opened
      names := name.toList ++ state.names }

def closeParenthesis (place : Place) (state : State) : Reader State := do
  match state.opened with
  | [] => Reader.fail .unopenedGroup (.ofChar place ')')
  | group :: opened =>
    Reader.setSpaced group.wasSpaced
    let part := .group (← Reader.spanFrom group.parenthesis.start) group.flags (state.current.tree place)
    return { state with current := group.outer.push part, opened := opened }

/-- The next alternative starts. -/
def alternate (place : Place) (state : State) : Reader State := do
  let group := state.current
  return { state with
    current := { group with
      choices := group.alternative place :: group.choices
      current := ← Reader.here
      parts := [] } }

/-- A sign behind a part, which may be repeated then. Another sign makes it as short as can be. -/
def repeated (place : Place) (state : State) : Reader State := do
  match state.takeLast? with
  | none => Reader.fail .nothingToRepeat (.empty place)
  | some ((span, part), state) =>
    if (← Reader.next?) = some '?' then Reader.drop 1
    return state.push (.repetition ⟨span.start, ← Reader.here⟩ part)

/-- Counts are numbers of four bytes. -/
def countLimit : Nat :=
  Nat.pow 2 32

/-- The fault of a count that begins at a place: there is a number that is no count, or no end. -/
def countFault (brace : Place) : Reader Error := do
  discard (Reader.run Text.isBlank)
  let start ← Reader.here
  let digits := (← Reader.run Char.isDigit).map Prod.snd
  let written ← Reader.spanFrom start
  discard (Reader.run Text.isBlank)
  let isOver := (← Reader.ahead).isEmpty
  let whole ← Reader.spanFrom brace
  if !isOver && digits.isEmpty then return .ofFault .noCount written
  else if !isOver && countLimit ≤ Text.valueOf 10 digits then return .ofFault .countTooLarge written
  else return .ofFault .openCount whole

/-- A brace behind a part begins a count, which is never closed. -/
def count (place : Place) (state : State) : Reader State := do
  if state.takeLast?.isNone then Reader.fail .nothingToRepeat (.empty place)
  Reader.skip
  if (← Reader.ahead).isEmpty then Reader.fail .openCount (← Reader.spanFrom place)
  Reader.failWith (← countFault place)

/-- Reads a part that is about one character or one place. -/
def leaf (place : Place) (c : Char) : Reader Leaf := do
  match c with
  | '[' => bracket place
  | '.' => return .dot (.ofChar place c)
  | '^' => return .atom (.edge (.ofChar place c) false)
  | '$' => return .atom (.edge (.ofChar place c) false)
  | _ => return .atom (← member place c)

def step (place : Place) (c : Char) (state : State) : Reader State := do
  match c with
  | '(' => openParenthesis place state
  | ')' => closeParenthesis place state
  | '|' => alternate place state
  | '?' => repeated place state
  | '*' => repeated place state
  | '+' => repeated place state
  | '\x7b' => count place state
  | _ => return state.push (.leaf (← leaf place c))

/-- All groups must be closed at the end. -/
def finish (state : State) : Reader Tree := do
  match state.opened with
  | [] => return state.current.tree (← Reader.here)
  | group :: _ => Reader.fail .openGroup group.parenthesis

def tree : Reader Tree :=
  Reader.iterateSpaced (fun place c state => return .again (← step place c state)) finish .initial

def Tree.parse (text : List Char) : Except Error Tree :=
  (tree.read ⟨.first, text, false⟩).map Prod.fst

end Pattern
end EnvelopeWarp
