import EnvelopeWarp.Pattern.Escape

/-! Classes in brackets: characters, ranges, classes with a name and classes within classes, with signs
for operations between them. A closing bracket that comes first stands for itself, and so does a
hyphen that is not between two characters. -/

namespace EnvelopeWarp
namespace Pattern

/-- The names of classes of basic Latin characters. -/
def classNames : List String :=
  ["alnum", "alpha", "ascii", "blank", "cntrl", "digit", "graph", "lower", "print", "punct", "space",
    "upper", "word", "xdigit"]

/-- A class that has been opened. -/
structure OpenClass where
  /-- The bracket and the signs that belong to it. -/
  opening : Span
  isNegated : Bool
  /-- What stands before the sign for an operation. -/
  before : Option ItemSet
  /-- Where the items start. -/
  start : Place
  /-- The items, the latest first. -/
  items : List Item
deriving Repr

namespace OpenClass

def set (current : OpenClass) : ItemSet :=
  let items := ItemSet.ofItems current.start current.items.reverse
  match current.before with
  | none => items
  | some before => .operation before items

def push (current : OpenClass) (item : Item) : OpenClass :=
  { current with items := item :: current.items }

/-- An operation follows, and then other items from a place on. -/
def operate (current : OpenClass) (place : Place) : OpenClass :=
  { current with before := some current.set, start := place, items := [] }

end OpenClass

/-- The class that is open, and those around it from the inside out. -/
structure OpenClasses where
  current : OpenClass
  outer : List OpenClass
deriving Repr

def OpenClasses.push (classes : OpenClasses) (item : Item) : OpenClasses :=
  { classes with current := classes.current.push item }

def verbatim (place : Place) (c : Char) : Literal :=
  ⟨.ofChar place c, c, false⟩

/-- Reads the signs that belong to an opening bracket, and the items that stand for themselves only
because they come first. -/
def openBracket (start : Place) : Reader OpenClass := do
  Reader.skip
  let isNegated := (← Reader.next?) == some '^'
  if isNegated then
    Reader.drop 1
    Reader.skip
  let first ← Reader.here
  if (← Reader.next?).isNone then Reader.fail .openClass (← Reader.spanFrom start)
  let hyphens ← Reader.run (· == '-')
  let isClosing := hyphens.isEmpty && (← Reader.next?) == some ']'
  if isClosing then
    Reader.drop 1
    Reader.skip
  if (← Reader.next?).isNone then
    if isClosing then Reader.fail .openClass (← Reader.spanFrom start)
    else Reader.fail .openClass (.empty start)
  let own := if isClosing then [(first, ']')] else hyphens
  let items := own.reverse.map fun sign => Item.literal (verbatim sign.1 sign.2)
  return ⟨← Reader.spanFrom start, isNegated, none, first, items⟩

/-- How long a name with a colon and a bracket behind it is, if there is such a class. -/
def nameLength? (text : List Char) : Option Nat :=
  let name := text.takeWhile (· != ':')
  if classNames.contains (String.ofList name) && (text.drop name.length).take 2 == [':', ']'] then
    some (name.length + 2)
  else none

/-- Whether a class with a name is negated and how long it is, from behind its bracket on. -/
def named? : List Char → Option (Bool × Nat)
  | ':' :: '^' :: text => (nameLength? text).map fun length => (true, length + 2)
  | ':' :: text => (nameLength? text).map fun length => (false, length + 1)
  | _ => none

/-- Reads what a character in a class stands for. -/
def member (place : Place) (c : Char) : Reader Atom :=
  if c = '\\' then escape place else return .literal (verbatim place c)

/-- A character of its own, or one of several. Places between characters are none. -/
def asItem : Atom → Reader Item
  | .literal sign => return .literal sign
  | .shorthand span isNegated => return .shorthand span isNegated
  | .property span => return .property span
  | .edge span _ => Reader.fail .edgeInClass span

/-- A range goes from one character to another. -/
def asBound : Atom → Reader Literal
  | .literal sign => return sign
  | atom => Reader.fail .boundNotCharacter atom.span

/-- The next character that counts; in a spaced pattern neither blanks nor the first sign for a comment
do. -/
def nextCounting? (isSpaced : Bool) (text : List Char) : Option Char :=
  if isSpaced then
    match text.dropWhile Text.isBlank with
    | '#' :: rest => (rest.dropWhile Text.isBlank).head?
    | rest => rest.head?
  else text.head?

/-- A hyphen makes a range unless another one or the end of the class follows. -/
def startsRange (isSpaced : Bool) : List Char → Bool
  | '-' :: rest => nextCounting? isSpaced rest != some ']' && nextCounting? isSpaced rest != some '-'
  | _ => false

/-- Reads the other end of a range, whose first end has been read. -/
def rangeFrom (first : Atom) (place : Place) (c : Char) : Reader Item := do
  let last ← member place c
  let low ← asBound first
  let high ← asBound last
  if high.char < low.char then Reader.fail .reversedRange (low.span.through high.span)
  return .range low high

/-- Reads a character or a range, within a class that was opened there. -/
def item (opening : Span) (place : Place) (c : Char) : Reader Item := do
  let first ← member place c
  Reader.skip
  let after ← Reader.cursor
  if after.rest.isEmpty then Reader.fail .openClass opening
  if startsRange after.isSpaced after.rest then
    Reader.drop 1
    Reader.skip
    let place ← Reader.here
    match ← Reader.take? with
    | none => Reader.fail .openClass opening
    | some c => rangeFrom first place c
  else asItem first

/-- Closes the class that is open; the outermost one is done then. -/
def close (classes : OpenClasses) : Reader (Turn OpenClasses Leaf) := do
  let current := classes.current
  let span ← Reader.spanFrom current.opening.start
  match classes.outer with
  | [] => return .done (.bracket span current.isNegated current.set)
  | parent :: outer =>
    return .again ⟨parent.push (.bracket span current.isNegated current.set), outer⟩

/-- The signs that stand for an operation when they are doubled: what two sets have in common, what the
first has and the second has not, and what only one of them has. -/
def operations : List Char :=
  ['&', '-', '~']

def classStep (place : Place) (c : Char) (classes : OpenClasses) :
    Reader (Turn OpenClasses Leaf) := do
  if c = '[' then
    match named? (← Reader.ahead) with
    | some (isNegated, length) =>
      Reader.drop length
      return .again (classes.push (.named (← Reader.spanFrom place) isNegated))
    | none => return .again ⟨← openBracket place, classes.current :: classes.outer⟩
  else if c = ']' then close classes
  else if operations.contains c && (← Reader.next?) == some c then
    Reader.drop 1
    return .again { classes with current := classes.current.operate (← Reader.here) }
  else return .again (classes.push (← item classes.current.opening place c))

/-- Reads a class from behind its bracket on. -/
def bracket (start : Place) : Reader Leaf := do
  let first ← openBracket start
  Reader.iterateSpaced classStep (fun classes => Reader.fail .openClass classes.current.opening)
    ⟨first, []⟩

end Pattern
end EnvelopeWarp
