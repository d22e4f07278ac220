import Mathlib.Data.List.Forall2
import EnvelopeWarp.Path.Basic
import EnvelopeWarp.Proofs.Readings

/-! What a map of points makes of a path. Every subpath has its image, every node of it too, and the three points of
a node go to the three points of its image. So a map that goes through changes no shape, and it goes through exactly
when every point has an image. -/

namespace EnvelopeWarp
variable {α β ε : Type}

/-- The three points of a node are related to those of its image. -/
structure Node.Mapped (related : Point α → Point β → Prop) (node : Node α) (image : Node β) : Prop where
  incoming : related node.incoming image.incoming
  anchor : related node.anchor image.anchor
  outgoing : related node.outgoing image.outgoing

structure Subpath.Mapped (related : Point α → Point β → Prop) (subpath : Subpath α) (image : Subpath β) : Prop where
  nodes : List.Forall₂ (Node.Mapped related) subpath.nodes image.nodes
  closed : image.closed = subpath.closed

def Path.Mapped (related : Point α → Point β → Prop) (path : Path α) (image : Path β) : Prop :=
  List.Forall₂ (Subpath.Mapped related) path.subpaths image.subpaths

private theorem mapM_eq_ok {f : α → Except ε β} {items : List α} {images : List β} :
    items.mapM f = .ok images ↔ List.Forall₂ (fun item image => f item = .ok image) items images := by
  induction items generalizing images with
  | nil =>
    rw [List.forall₂_nil_left_iff]
    exact ⟨fun same => (Except.ok.inj same).symm, fun none_left => none_left ▸ rfl⟩
  | cons item items ih =>
    rw [List.mapM_cons]
    constructor
    · intro mapped
      obtain ⟨image, first, rest⟩ := bind_eq_ok.mp mapped
      obtain ⟨others, later, same⟩ := bind_eq_ok.mp rest
      cases same
      exact .cons first (ih.mp later)
    · intro mapped
      cases mapped with
      | cons first later => exact bind_eq_ok.mpr ⟨_, first, bind_eq_ok.mpr ⟨_, ih.mpr later, rfl⟩⟩

variable {f : Point α → Except ε (Point β)}

theorem Node.mapPoints_eq_ok {node : Node α} {image : Node β} :
    node.mapPoints f = .ok image ↔ node.Mapped (fun p q => f p = .ok q) image := by
  constructor
  · intro mapped
    obtain ⟨incoming, first, rest⟩ := bind_eq_ok.mp mapped
    obtain ⟨anchor, second, rest⟩ := bind_eq_ok.mp rest
    obtain ⟨outgoing, third, same⟩ := bind_eq_ok.mp rest
    cases same
    exact ⟨first, second, third⟩
  · intro mapped
    exact bind_eq_ok.mpr ⟨_, mapped.incoming, bind_eq_ok.mpr ⟨_, mapped.anchor, bind_eq_ok.mpr ⟨_, mapped.outgoing, rfl⟩⟩⟩

theorem Subpath.mapPoints_eq_ok {subpath : Subpath α} {image : Subpath β} :
    subpath.mapPoints f = .ok image ↔ subpath.Mapped (fun p q => f p = .ok q) image := by
  constructor
  · intro mapped
    obtain ⟨nodes, found, same⟩ := bind_eq_ok.mp mapped
    cases same
    exact ⟨(mapM_eq_ok.mp found).imp fun _ _ => Node.mapPoints_eq_ok.mp, rfl⟩
  · intro mapped
    obtain ⟨nodes, closed⟩ := image
    obtain ⟨found, rfl⟩ := mapped
    exact bind_eq_ok.mpr ⟨nodes, mapM_eq_ok.mpr (found.imp fun _ _ => Node.mapPoints_eq_ok.mpr), rfl⟩

/-- A map goes through when each point has an image, and the images make the new path. -/
theorem Path.mapPoints_eq_ok {path : Path α} {image : Path β} :
    path.mapPoints f = .ok image ↔ path.Mapped (fun p q => f p = .ok q) image := by
  constructor
  · intro mapped
    obtain ⟨subpaths, found, same⟩ := bind_eq_ok.mp mapped
    cases same
    exact (mapM_eq_ok.mp found).imp fun _ _ => Subpath.mapPoints_eq_ok.mp
  · intro mapped
    exact bind_eq_ok.mpr ⟨image.subpaths, mapM_eq_ok.mpr (mapped.imp fun _ _ => Subpath.mapPoints_eq_ok.mpr), rfl⟩

variable {related other : Point α → Point β → Prop} {path : Path α} {image : Path β}

theorem Path.Mapped.shape_eq (mapped : path.Mapped related image) : image.shape = path.shape := by
  obtain ⟨subpaths⟩ := path
  obtain ⟨images⟩ := image
  change List.Forall₂ (Subpath.Mapped related) subpaths images at mapped
  induction mapped with
  | nil => rfl
  | cons first _ ih => exact congrArg₂ List.cons (Prod.ext first.nodes.length_eq.symm first.closed) ih

theorem exists_mem_of_forall₂ {related : α → β → Prop} {items : List α} {images : List β}
    (pairs : List.Forall₂ related items images) {image : β} (member : image ∈ images) :
    ∃ item ∈ items, related item image := by
  induction pairs with
  | nil => cases member
  | cons first _ ih =>
    rcases List.mem_cons.mp member with rfl | later
    · exact ⟨_, .head _, first⟩
    · obtain ⟨item, inside, pair⟩ := ih later
      exact ⟨item, .tail _ inside, pair⟩

theorem Path.Mapped.exists_node (mapped : path.Mapped related image) {subpath : Subpath β}
    (listed : subpath ∈ image.subpaths) {node : Node β} (inside : node ∈ subpath.nodes) :
    ∃ before ∈ path.subpaths, ∃ origin ∈ before.nodes, Node.Mapped related origin node := by
  obtain ⟨before, member, pair⟩ := exists_mem_of_forall₂ mapped listed
  obtain ⟨origin, within, own⟩ := exists_mem_of_forall₂ pair.nodes inside
  exact ⟨before, member, origin, within, own⟩

def Node.points (node : Node α) : List (Point α) :=
  [node.incoming, node.anchor, node.outgoing]

/-- The points of a path, in the order in which a map goes through them. -/
def Path.points (path : Path α) : List (Point α) :=
  path.subpaths.flatMap fun subpath => subpath.nodes.flatMap Node.points

def Node.onPoints (f : Point α → Point β) (node : Node α) : Node β :=
  ⟨f node.incoming, f node.anchor, f node.outgoing⟩

def Subpath.onPoints (f : Point α → Point β) (subpath : Subpath α) : Subpath β :=
  ⟨subpath.nodes.map (Node.onPoints f), subpath.closed⟩

/-- The image of a path under a map that goes through everywhere. -/
def Path.onPoints (f : Point α → Point β) (path : Path α) : Path β :=
  ⟨path.subpaths.map (Subpath.onPoints f)⟩

theorem Path.mapped_onPoints {f : Point α → Point β} (each : ∀ p, related p (f p)) (path : Path α) :
    path.Mapped related (path.onPoints f) := by
  have node : ∀ node : Node α, node.Mapped related (node.onPoints f) := fun _ => ⟨each _, each _, each _⟩
  have subpath : ∀ subpath : Subpath α, subpath.Mapped related (subpath.onPoints f) := by
    intro subpath
    refine ⟨?_, rfl⟩
    exact List.forall₂_map_right_iff.mpr (List.forall₂_same.mpr fun _ _ => node _)
  exact List.forall₂_map_right_iff.mpr (List.forall₂_same.mpr fun _ _ => subpath _)

private theorem map_eq_self_iff {f : α → α} {items : List α} : items.map f = items ↔ ∀ item ∈ items, f item = item := by
  simpa using List.map_inj_left (l := items) (f := f) (g := id)

theorem Path.onPoints_eq_self_iff {f : Point α → Point α} {path : Path α} :
    path.onPoints f = path ↔ ∀ p ∈ path.points, f p = p := by
  obtain ⟨subpaths⟩ := path
  simp only [onPoints, points, Path.mk.injEq, map_eq_self_iff, List.forall_mem_flatMap]
  refine forall₂_congr fun ⟨nodes, closed⟩ _ => ?_
  simp only [Subpath.onPoints, Subpath.mk.injEq, and_true, map_eq_self_iff]
  refine forall₂_congr fun ⟨incoming, anchor, outgoing⟩ _ => ?_
  simp [Node.onPoints, Node.points]

theorem Path.nodeCount_of_shape {path : Path α} {other : Path β} (same : path.shape = other.shape) :
    path.nodeCount = other.nodeCount := by
  have lengths : path.subpaths.map (·.nodes.length) = other.subpaths.map (·.nodes.length) := by
    simpa [shape, Function.comp_def] using congrArg (List.map Prod.fst) same
  rw [nodeCount, nodeCount, List.length_flatMap, List.length_flatMap, lengths]

end EnvelopeWarp
