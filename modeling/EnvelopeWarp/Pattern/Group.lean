import EnvelopeWarp.Pattern.Reader
import EnvelopeWarp.Pattern.Tree
import EnvelopeWarp.Text.Match
import EnvelopeWarp.Text.Number

/-! What stands behind an opening parenthesis: a name for the group, flags for it, or flags for what
follows in the group around. -/

namespace EnvelopeWarp
namespace Pattern

/-- The name of a group. -/
structure Name where
  text : List Char
  span : Span
deriving Repr, DecidableEq

/-- What a parenthesis begins. -/
inductive Opening where
  | flags (flags : Flags)
  | group (flags : Flags) (name : Option Name)
deriving Repr, DecidableEq

/-- The letters of flags: any case, several lines, line breaks for a dot, greed, whole characters,
carriage returns and spaces. -/
def flagLetters : List Char :=
  ['i', 'm', 's', 'U', 'u', 'R', 'x']

/-- The signs of flags that have been read, with their places, the latest first. -/
abbrev FlagSigns : Type :=
  List (Char × Span)

/-- The flags before the hyphen are on and those behind it off. -/
def flagsOf (signs : FlagSigns) : Flags :=
  let letters := signs.reverse.map Prod.fst
  ⟨letters.takeWhile (· != '-'), (letters.dropWhile (· != '-')).drop 1⟩

/-- The fault of a sign that was there before. -/
def repeatedSign (c : Char) : Fault :=
  if c = '-' then .repeatedNegation else .repeatedFlag

def flagSign (place : Place) (c : Char) (signs : FlagSigns) : Reader FlagSigns := do
  let span := Span.ofChar place c
  if c != '-' && !flagLetters.contains c then Reader.fail .unknownFlag span
  match signs.lookup c with
  | some earlier => Reader.failWith ⟨repeatedSign c, span, some earlier⟩
  | none =>
    if (← Reader.ahead).isEmpty then Reader.fail .openFlags (.empty (← Reader.here))
    return (c, span) :: signs

/-- A colon or a parenthesis ends the flags, and so tells for what they are meant. -/
def endFlags (c : Char) (signs : FlagSigns) : Reader (Turn FlagSigns (FlagSigns × Char)) :=
  match signs with
  | ('-', span) :: _ => Reader.fail .danglingNegation span
  | _ => return .done (signs, c)

def flagStep (place : Place) (c : Char) (signs : FlagSigns) :
    Reader (Turn FlagSigns (FlagSigns × Char)) := do
  if c = ':' ∨ c = ')' then endFlags c signs else return .again (← flagSign place c signs)

/-- Reads flags for a group that was opened there; the place is the one behind the parenthesis. -/
def flags (opening : Span) (inner : Place) : Reader Opening := do
  let found ← Reader.iterate flagStep (fun _ => Reader.fail .openGroup opening) []
  if found.2 = ':' then return .group (flagsOf found.1) none
  else if found.1.isEmpty then Reader.fail .nothingToRepeat (.empty inner)
  else return .flags (flagsOf found.1)

/-- A name starts with a letter or an underscore; further on there may be numbers, points and square
brackets. -/
def isNameChar (isFirst : Bool) (c : Char) : Bool :=
  c == '_' || if isFirst then Text.isLetter c else
    c == '.' || c == '[' || c == ']' || Text.isLetterOrNumber c

/-- The name so far, the latest character first. -/
def nameStep (start place : Place) (c : Char) (name : List Char) : Reader (Turn (List Char) Name) := do
  if c = '>' then
    if name.isEmpty then Reader.fail .emptyName (.empty start)
    return .done ⟨name.reverse, ⟨start, place⟩⟩
  else if isNameChar name.isEmpty c then return .again (c :: name)
  else Reader.fail .invalidName (.ofChar place c)

/-- Reads a name that no group before has. -/
def name (earlier : List Name) : Reader Name := do
  let name ← Reader.iterate (nameStep (← Reader.here))
    (fun _ => do Reader.fail .openName (.empty (← Reader.here))) []
  match earlier.find? fun other => other.text == name.text with
  | some other => Reader.failWith ⟨.repeatedName, name.span, some other.span⟩
  | none => return name

/-- The signs for looking ahead and behind, which are told from names by what follows. -/
def lookAroundSigns : List String :=
  ["?=", "?!", "?<=", "?<!"]

/-- The length of the first sign that a text starts with. -/
def signLength? (signs : List String) (text : List Char) : Option Nat :=
  (signs.find? fun sign => (Text.dropFront? sign.toList text).isSome).map String.length

/-- Reads what a parenthesis begins, given the names that are taken. -/
def opening (start : Place) (earlier : List Name) : Reader Opening := do
  let parenthesis := Span.ofChar start '('
  Reader.skip
  let inner ← Reader.cursor
  if let some length := signLength? lookAroundSigns inner.rest then
    Reader.drop length
    Reader.fail .lookAround (← Reader.spanFrom start)
  else if let some length := signLength? ["?P<", "?<"] inner.rest then
    Reader.drop length
    return .group .none (some (← name earlier))
  else if inner.rest.head? = some '?' then
    Reader.drop 1
    flags parenthesis inner.place
  else return .group .none none

end Pattern
end EnvelopeWarp
