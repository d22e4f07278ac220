import EnvelopeWarp.Pattern.Tree

/-! What the parts of a pattern mean. Flags tell whether a part is about characters or bytes, and
whether case counts. There are no tables of properties and of cases for characters, so parts that
need them are faulty; parts about bytes are faulty where they stand for more than basic Latin. -/

namespace EnvelopeWarp
namespace Pattern

structure Mode where
  ignoresCase : Bool
  /-- The pattern is about whole characters, and not about bytes. -/
  isWhole : Bool
deriving Repr, DecidableEq

def Mode.standard : Mode :=
  ⟨false, true⟩

def Mode.apply (mode : Mode) (flags : Flags) : Mode :=
  ⟨flags.apply 'i' mode.ignoresCase, flags.apply 'u' mode.isWhole⟩

mutual
/-- The mode behind a part, and the single parts in it with their modes. -/
def Tree.leaves (tree : Tree) (mode : Mode) : Mode × List (Mode × Leaf) :=
  match tree with
  | .nothing => (mode, [])
  | .leaf sign => (mode, [(mode, sign)])
  | .flags _ flags => (mode.apply flags, [])
  | .repetition _ part => part.leaves mode
  | .group _ flags part => (mode, (part.leaves (mode.apply flags)).2)
  | .sequence _ parts => leavesOf parts mode
  | .choice _ parts => leavesOf parts mode

def leavesOf (parts : List Tree) (mode : Mode) : Mode × List (Mode × Leaf) :=
  match parts with
  | [] => (mode, [])
  | part :: rest =>
    let first := part.leaves mode
    let others := leavesOf rest first.1
    (others.1, first.2 ++ others.2)
end

/-- Bytes beyond this stand for no character of their own. -/
def lastBasic : Nat := 0x7f

namespace Mode

def checkShorthand (mode : Mode) (span : Span) (isNegated : Bool) : Except Error Unit :=
  if mode.isWhole then .error (.ofFault .unknownShorthand span)
  else if isNegated then .error (.ofFault .notText span)
  else .ok ()

def checkProperty (mode : Mode) (span : Span) : Except Error Unit :=
  .error (.ofFault (if mode.isWhole then .unknownProperty else .characterInBytes) span)

def checkByte (sign : Literal) : Except Error Unit :=
  if sign.isByte && lastBasic < sign.char.toNat then .error (.ofFault .notText sign.span) else .ok ()

/-- A character outside classes. -/
def checkLiteral (mode : Mode) (sign : Literal) : Except Error Unit :=
  if !mode.isWhole then checkByte sign
  else if mode.ignoresCase then .error (.ofFault .unknownCase sign.span)
  else .ok ()

/-- A character in a class. -/
def checkMember (mode : Mode) (sign : Literal) : Except Error Unit :=
  if mode.isWhole then .ok ()
  else do
    checkByte sign
    if lastBasic < sign.char.toNat then throw (.ofFault .characterInBytes sign.span)

/-- What becomes of a set: characters in other cases are added, and then perhaps all others are taken
instead. -/
def checkSet (mode : Mode) (span : Span) (lacksCases isNegated : Bool) : Except Error Unit :=
  if mode.isWhole then
    if mode.ignoresCase && lacksCases then .error (.ofFault .unknownCase span) else .ok ()
  else if isNegated then .error (.ofFault .notText span)
  else .ok ()

end Mode

/-- Only characters and ranges still lack their other cases; any other item has them already. -/
def Item.lacksCases : Item → Bool
  | literal _ => true
  | range _ _ => true
  | _ => false

/-- What an operation makes of two sets has the other cases already. -/
def ItemSet.lacksCases : ItemSet → Bool
  | union _ items => items.any Item.lacksCases
  | operation _ _ => false

mutual
def Item.check (item : Item) (mode : Mode) : Except Error Unit :=
  match item with
  | .literal sign => mode.checkMember sign
  | .range first last => do
    mode.checkMember first
    mode.checkMember last
  | .named span isNegated => mode.checkSet span true isNegated
  | .shorthand span isNegated => mode.checkShorthand span isNegated
  | .property span => mode.checkProperty span
  | .bracket span isNegated set => do
    set.check mode
    mode.checkSet span set.lacksCases isNegated

def ItemSet.check (set : ItemSet) (mode : Mode) : Except Error Unit :=
  match set with
  | .union _ items => checkItems items mode
  | .operation first second => do
    first.check mode
    second.check mode
    mode.checkSet second.span second.lacksCases false
    mode.checkSet first.span first.lacksCases false

def checkItems (items : List Item) (mode : Mode) : Except Error Unit :=
  match items with
  | [] => .ok ()
  | item :: rest => do
    item.check mode
    checkItems rest mode
end

def Leaf.check (mode : Mode) : Leaf → Except Error Unit
  | atom (.literal sign) => mode.checkLiteral sign
  | atom (.edge _ _) => .ok ()
  | atom (.shorthand span isNegated) => mode.checkShorthand span isNegated
  | atom (.property span) => mode.checkProperty span
  | dot span => if mode.isWhole then .ok () else .error (.ofFault .notText span)
  | bracket span isNegated set => do
    set.check mode
    mode.checkSet span set.lacksCases isNegated

/-- Where words start and end among whole characters cannot be told beforehand. -/
def Leaf.isWordEdge (mode : Mode) : Leaf → Bool
  | atom (.edge _ isOfWord) => isOfWord && mode.isWhole
  | _ => false

end Pattern
end EnvelopeWarp
