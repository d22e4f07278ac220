/-! Places in a pattern, and what lies between two of them. -/

namespace EnvelopeWarp
namespace Pattern

/-- A line and a column, both counted from one. -/
structure Place where
  line : Nat
  column : Nat
deriving Repr, DecidableEq

def Place.first : Place :=
  ⟨1, 1⟩

/-- The place behind a character. -/
def Place.after (place : Place) (c : Char) : Place :=
  if c = '\n' then ⟨place.line + 1, 1⟩ else ⟨place.line, place.column + 1⟩

structure Span where
  start : Place
  finish : Place
deriving Repr, DecidableEq

namespace Span

/-- Nothing at all. -/
def empty (place : Place) : Span :=
  ⟨place, place⟩

def ofChar (place : Place) (c : Char) : Span :=
  ⟨place, place.after c⟩

/-- From the start of one span to the end of another. -/
def through (first last : Span) : Span :=
  ⟨first.start, last.finish⟩

def isInOneLine (span : Span) : Bool :=
  span.start.line == span.finish.line

end Span
end Pattern
end EnvelopeWarp
