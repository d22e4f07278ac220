import EnvelopeWarp.Pattern.Fault

/-! The parts of a pattern. A class is a set of items in brackets, on which operations may work; all
else are groups, repetitions, alternatives and sequences of single parts. No part remembers how
often it may be repeated or under which name a group is kept, for neither decides whether a
pattern can be used. -/

namespace EnvelopeWarp
namespace Pattern

structure Literal where
  span : Span
  char : Char
  /-- It is written with two hexadecimal digits, so it may stand for a byte. -/
  isByte : Bool
deriving Repr, DecidableEq

/-- What a character stands for, or a backslash with what follows it. -/
inductive Atom where
  | literal (sign : Literal)
  /-- A place between characters, where a word may start or end. -/
  | edge (span : Span) (isOfWord : Bool)
  /-- The digits, the blanks or the characters of words, or all others. -/
  | shorthand (span : Span) (isNegated : Bool)
  | property (span : Span)
deriving Repr, DecidableEq

def Atom.span : Atom → Span
  | literal sign => sign.span
  | edge span _ => span
  | shorthand span _ => span
  | property span => span

mutual
/-- A part of a class. -/
inductive Item where
  | literal (sign : Literal)
  | range (first last : Literal)
  /-- A class of basic Latin characters with a name. -/
  | named (span : Span) (isNegated : Bool)
  | shorthand (span : Span) (isNegated : Bool)
  | property (span : Span)
  | bracket (span : Span) (isNegated : Bool) (set : ItemSet)
deriving Repr

/-- Items beside each other, or what an operation makes of two sets. -/
inductive ItemSet where
  | union (span : Span) (items : List Item)
  | operation (first second : ItemSet)
deriving Repr
end

def Item.span : Item → Span
  | literal sign => sign.span
  | range first last => first.span.through last.span
  | named span _ => span
  | shorthand span _ => span
  | property span => span
  | bracket span _ _ => span

def ItemSet.span : ItemSet → Span
  | union span _ => span
  | operation first second => first.span.through second.span

/-- Items that stand together at a place; there may be none. -/
def ItemSet.ofItems (place : Place) (items : List Item) : ItemSet :=
  match items.head?, items.getLast? with
  | some first, some last => .union (first.span.through last.span) items
  | _, _ => .union (.empty place) items

/-- A part that is about one character or one place. -/
inductive Leaf where
  | atom (sign : Atom)
  | dot (span : Span)
  | bracket (span : Span) (isNegated : Bool) (set : ItemSet)
deriving Repr

def Leaf.span : Leaf → Span
  | atom sign => sign.span
  | dot span => span
  | bracket span _ _ => span

/-- The flags that are switched on and those that are switched off. -/
structure Flags where
  on : List Char
  off : List Char
deriving Repr, DecidableEq

namespace Flags

def none : Flags :=
  ⟨[], []⟩

/-- What becomes of a flag. -/
def apply (flags : Flags) (flag : Char) (before : Bool) : Bool :=
  if flags.on.contains flag then true else if flags.off.contains flag then false else before

end Flags

inductive Tree where
  | nothing
  | leaf (sign : Leaf)
  /-- Flags that hold up to the end of the group. -/
  | flags (span : Span) (flags : Flags)
  | repetition (span : Span) (part : Tree)
  | group (span : Span) (flags : Flags) (part : Tree)
  | sequence (span : Span) (parts : List Tree)
  | choice (span : Span) (parts : List Tree)
deriving Repr

namespace Tree

/-- Where a part is, if there is something that could be repeated. -/
def repeatable? : Tree → Option Span
  | nothing => none
  | leaf sign => some sign.span
  | flags _ _ => none
  | repetition span _ => some span
  | group span _ _ => some span
  | sequence span _ => some span
  | choice span _ => some span

/-- Parts one after the other. A single part is not wrapped. -/
def ofParts (span : Span) : List Tree → Tree
  | [] => nothing
  | [part] => part
  | parts => sequence span parts

end Tree
end Pattern
end EnvelopeWarp
