import EnvelopeWarp.Pattern.Tree

/-! How deep the parts of a pattern are nested. Groups, repetitions, classes, and whatever holds several
parts count; single characters do not. -/

namespace EnvelopeWarp
namespace Pattern

/-- A part may be nested if there is a level left for it, and then what is in it has one level less. -/
def nested (span : Span) (inner : Nat → Option Span) : Nat → Option Span
  | 0 => some span
  | levels + 1 => inner levels

mutual
/-- The first part of an item for which there is no level left. -/
def Item.tooDeep? (item : Item) (levels : Nat) : Option Span :=
  match item with
  | .bracket span _ set => nested span (fun levels => set.tooDeep? levels) levels
  | .literal _ => none
  | .range _ _ => none
  | .named _ _ => none
  | .shorthand _ _ => none
  | .property _ => none

def ItemSet.tooDeep? (set : ItemSet) (levels : Nat) : Option Span :=
  match set with
  | .operation first second =>
    nested (first.span.through second.span)
      (fun levels => (first.tooDeep? levels).or (second.tooDeep? levels)) levels
  | .union span items =>
    if items.length ≤ 1 then tooDeepItem? items levels
    else nested span (fun levels => tooDeepItem? items levels) levels

def tooDeepItem? (items : List Item) (levels : Nat) : Option Span :=
  match items with
  | [] => none
  | item :: rest => (item.tooDeep? levels).or (tooDeepItem? rest levels)
end

def Leaf.tooDeep? (leaf : Leaf) (levels : Nat) : Option Span :=
  match leaf with
  | .bracket span _ set => nested span (fun levels => set.tooDeep? levels) levels
  | _ => none

mutual
/-- The first part of a pattern for which there is no level left. -/
def Tree.tooDeep? (tree : Tree) (levels : Nat) : Option Span :=
  match tree with
  | .nothing => none
  | .leaf sign => sign.tooDeep? levels
  | .flags _ _ => none
  | .repetition span part => nested span (fun levels => part.tooDeep? levels) levels
  | .group span _ part => nested span (fun levels => part.tooDeep? levels) levels
  | .sequence span parts => nested span (fun levels => tooDeepPart? parts levels) levels
  | .choice span parts => nested span (fun levels => tooDeepPart? parts levels) levels

def tooDeepPart? (parts : List Tree) (levels : Nat) : Option Span :=
  match parts with
  | [] => none
  | part :: rest => (part.tooDeep? levels).or (tooDeepPart? rest levels)
end

end Pattern
end EnvelopeWarp
