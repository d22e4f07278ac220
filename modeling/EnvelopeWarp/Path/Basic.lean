import EnvelopeWarp.Geometry.Box

/-! Paths as chains of cubic curves. A node holds the handle that leads into its anchor, the anchor
and the handle that leads out of it, so a map of points acts on a path point by point. -/

namespace EnvelopeWarp

structure Node (α : Type) where
  incoming : Point α
  anchor : Point α
  outgoing : Point α

structure Subpath (α : Type) where
  nodes : List (Node α)
  closed : Bool

structure Path (α : Type) where
  subpaths : List (Subpath α)

/-- A cubic curve from one point to another. -/
structure Curve (α : Type) where
  start : Point α
  first : Point α
  second : Point α
  finish : Point α

namespace Node
variable {α β ε : Type}

/-- Both handles lie on the anchor. -/
def corner (anchor : Point α) : Node α :=
  ⟨anchor, anchor, anchor⟩

def mapPoints (f : Point α → Except ε (Point β)) (node : Node α) : Except ε (Node β) := do
  let incoming ← f node.incoming
  let anchor ← f node.anchor
  let outgoing ← f node.outgoing
  return ⟨incoming, anchor, outgoing⟩

def same [Scalar α] (a b : Node α) : Bool :=
  a.incoming.same b.incoming && a.anchor.same b.anchor && a.outgoing.same b.outgoing

end Node

/-- Two lists agree item by item. -/
def sameItems {α : Type} (same : α → α → Bool) : List α → List α → Bool
  | [], [] => true
  | a :: as, b :: bs => same a b && sameItems same as bs
  | _, _ => false

namespace Subpath
variable {α β ε : Type}

def mapPoints (f : Point α → Except ε (Point β)) (subpath : Subpath α) : Except ε (Subpath β) := do
  let nodes ← subpath.nodes.mapM (Node.mapPoints f)
  return ⟨nodes, subpath.closed⟩

/-- The curves between consecutive nodes. -/
def curvesOf : List (Node α) → List (Curve α)
  | a :: b :: rest => ⟨a.anchor, a.outgoing, b.incoming, b.anchor⟩ :: curvesOf (b :: rest)
  | _ => []

def curves (subpath : Subpath α) : List (Curve α) :=
  curvesOf subpath.nodes

def same [Scalar α] (a b : Subpath α) : Bool :=
  sameItems Node.same a.nodes b.nodes && a.closed == b.closed

end Subpath

namespace Path
variable {α β ε : Type}

/-- Maps every point of every node, in order; the first failure is the result. -/
def mapPoints (f : Point α → Except ε (Point β)) (path : Path α) : Except ε (Path β) := do
  let subpaths ← path.subpaths.mapM (Subpath.mapPoints f)
  return ⟨subpaths⟩

def nodeCount (path : Path α) : Nat :=
  (path.subpaths.flatMap Subpath.nodes).length

def isEmpty (path : Path α) : Bool :=
  path.nodeCount == 0

/-- The anchors of the first subpath, in order. -/
def anchors (path : Path α) : List (Point α) :=
  match path.subpaths with
  | [] => []
  | subpath :: _ => subpath.nodes.map Node.anchor

/-- Node count and closedness of each subpath. -/
def shape (path : Path α) : List (Nat × Bool) :=
  path.subpaths.map fun subpath => (subpath.nodes.length, subpath.closed)

/-- Equal subpaths, node by node, where coordinates are compared as numbers. -/
def same [Scalar α] (a b : Path α) : Bool :=
  sameItems Subpath.same a.subpaths b.subpaths

end Path
end EnvelopeWarp
