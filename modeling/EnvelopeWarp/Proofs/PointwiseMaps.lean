import EnvelopeWarp.Proofs.MappedPaths
import EnvelopeWarp.Scalar.Double
import EnvelopeWarp.Warp

/-! Where a map of points stops. It goes through subpaths and nodes as through one list of points: the first point without
an image stops it, with the fault of that point. So a second map of what the first one made stops where both in turn do,
and a path is replaced by its whole image or stays. -/

namespace EnvelopeWarp
variable {α β γ δ ε ζ : Type}

/-- What stopped a computation. -/
def fault? : Except ε α → Option ε
  | .ok _ => none
  | .error fault => some fault

private theorem fault?_eq_none {outcome : Except ε α} : fault? outcome = none ↔ ∃ value, outcome = .ok value := by
  cases outcome <;> simp [fault?]

private theorem fault?_eq_some {outcome : Except ε α} {fault : ε} :
    fault? outcome = some fault ↔ outcome = .error fault := by
  cases outcome <;> simp [fault?]

private theorem fault?_bind {first : Except ε α} {next : α → Except ε β} {later : Option ε}
    (rest : ∀ value, fault? (next value) = later) : fault? (first >>= next) = (fault? first).or later := by
  cases first with
  | error fault => rfl
  | ok value => exact rest value

private theorem fault?_bind_pure {first : Except ε α} {value : α → β} :
    fault? (first >>= fun found => pure (value found)) = fault? first := by
  cases first <;> rfl

private theorem findSome?_cons_or {f : α → Option β} {item : α} {items : List α} :
    (item :: items).findSome? f = (f item).or (items.findSome? f) := by
  rw [List.findSome?_cons]
  cases f item <;> rfl

private theorem findSome?_flatMap {f : β → Option γ} {parts : α → List β} {items : List α} :
    (items.flatMap parts).findSome? f = items.findSome? fun item => (parts item).findSome? f := by
  induction items with
  | nil => rfl
  | cons item items ih => rw [List.flatMap_cons, List.findSome?_append, findSome?_cons_or, ih]

private theorem fault?_mapM {f : α → Except ε β} {items : List α} :
    fault? (items.mapM f) = items.findSome? fun item => fault? (f item) := by
  induction items with
  | nil => rfl
  | cons item items ih =>
    rw [List.mapM_cons, findSome?_cons_or, ← ih]
    apply fault?_bind
    intro image
    exact fault?_bind_pure

section
variable {f : Point α → Except ε (Point β)}

theorem Node.fault?_mapPoints (node : Node α) :
    fault? (node.mapPoints f) = node.points.findSome? fun p => fault? (f p) := by
  rw [points, findSome?_cons_or, findSome?_cons_or, findSome?_cons_or, List.findSome?_nil, Option.or_none]
  apply fault?_bind
  intro incoming
  apply fault?_bind
  intro anchor
  exact fault?_bind_pure

theorem Subpath.fault?_mapPoints (subpath : Subpath α) :
    fault? (subpath.mapPoints f) = (subpath.nodes.flatMap Node.points).findSome? fun p => fault? (f p) := by
  rw [mapPoints, fault?_bind_pure, fault?_mapM, findSome?_flatMap]
  exact congrArg subpath.nodes.findSome? (funext Node.fault?_mapPoints)

theorem Path.fault?_mapPoints (path : Path α) :
    fault? (path.mapPoints f) = path.points.findSome? fun p => fault? (f p) := by
  rw [mapPoints, fault?_bind_pure, fault?_mapM, points, findSome?_flatMap]
  exact congrArg path.subpaths.findSome? (funext Subpath.fault?_mapPoints)

theorem Path.exists_mapPoints_eq_ok {path : Path α} :
    (∃ image, path.mapPoints f = .ok image) ↔ ∀ p ∈ path.points, ∃ q, f p = .ok q := by
  rw [← fault?_eq_none, fault?_mapPoints, List.findSome?_eq_none_iff]
  exact forall₂_congr fun _ _ => fault?_eq_none

theorem Path.mapPoints_eq_error {path : Path α} {fault : ε} :
    path.mapPoints f = .error fault ↔ ∃ before p after, path.points = before ++ p :: after ∧
      (∀ q ∈ before, ∃ image, f q = .ok image) ∧ f p = .error fault := by
  rw [← fault?_eq_some, fault?_mapPoints, List.findSome?_eq_some_iff]
  simp only [fault?_eq_some, fault?_eq_none, and_comm (a := f _ = _)]

end

section
variable {late : δ → ζ}

@[simp] theorem mapError_pure {value : α} : (pure value : Except δ α).mapError late = pure value :=
  rfl

private theorem mapError_bind {first : Except δ α} {next : α → Except δ β} :
    (first >>= next).mapError late = first.mapError late >>= fun value => (next value).mapError late := by
  cases first <;> rfl

private theorem mapM_of_forall₂ {related : α → β → Prop} {whole : α → Except ζ γ} {second : β → Except δ γ}
    (same : ∀ item image, related item image → whole item = (second image).mapError late) {items : List α} {images : List β}
    (pairs : List.Forall₂ related items images) : items.mapM whole = (images.mapM second).mapError late := by
  induction pairs with
  | nil => rfl
  | cons first _ ih => simp only [List.mapM_cons, mapError_bind, mapError_pure, same _ _ first, ih]

variable {related : Point α → Point β → Prop} {whole : Point α → Except ζ (Point γ)} {second : Point β → Except δ (Point γ)}
  (same : ∀ p q, related p q → whole p = (second q).mapError late)
include same

theorem Node.Mapped.mapPoints_eq (node : Node α) (image : Node β) (mapped : node.Mapped related image) :
    node.mapPoints whole = (image.mapPoints second).mapError late := by
  simp only [mapPoints, mapError_bind, mapError_pure, same _ _ mapped.incoming, same _ _ mapped.anchor,
    same _ _ mapped.outgoing]

theorem Subpath.Mapped.mapPoints_eq (subpath : Subpath α) (image : Subpath β) (mapped : subpath.Mapped related image) :
    subpath.mapPoints whole = (image.mapPoints second).mapError late := by
  have nodes := mapM_of_forall₂ (Node.Mapped.mapPoints_eq same) mapped.nodes
  simp only [mapPoints, mapError_bind, mapError_pure, nodes, mapped.closed]

/-- What a map makes of a path is what a second map makes of its image, when it is so for each point. -/
theorem Path.Mapped.mapPoints_eq {path : Path α} {image : Path β} (mapped : path.Mapped related image) :
    path.mapPoints whole = (image.mapPoints second).mapError late := by
  have subpaths := mapM_of_forall₂ (Subpath.Mapped.mapPoints_eq same) mapped
  simp only [mapPoints, mapError_bind, mapError_pure, subpaths]

end

/-- One map after another, with the faults of both as faults of one kind. -/
def inTurn (first : α → Except ε β) (early : ε → ζ) (second : β → Except δ γ) (late : δ → ζ) (item : α) : Except ζ γ := do
  let image ← (first item).mapError early
  (second image).mapError late

private theorem inTurn_of_ok {first : α → Except ε β} {early : ε → ζ} {second : β → Except δ γ} {late : δ → ζ}
    {item : α} {image : β}
    (went : first item = .ok image) : inTurn first early second late item = (second image).mapError late := by
  rw [inTurn, went]
  rfl

theorem Warp.run_replacePath [Scalar α] (warp : Warp α) (path : Path α) : warp.replacePath.run.run path =
    match path.mapPoints warp.apply with
    | .ok image => (.ok (), image)
    | .error fault => (.error fault, path) := by
  let replace : ExceptT (GeometryError α) (StateM (Path α)) Unit := do set (← path.mapPoints warp.apply)
  change replace.run.run path = _
  unfold replace
  cases path.mapPoints warp.apply <;> rfl

/-- A map of points goes through exactly when every point has an image. Then the images make a path of the same shape; else
the first point without one, subpath by subpath and node by node, stops the map with its fault. What a second map makes of
the image is what both in turn make of the path, and a warp either puts the whole image in the place of a path or leaves
the path. -/
theorem Path.mapPoints_pointwise [Scalar α] (f : Point α → Except ε (Point β)) (early : ε → ζ)
    (g : Point β → Except δ (Point γ)) (late : δ → ζ) (warp : Warp α) (path : Path α) :
    ((∃ image, path.mapPoints f = .ok image) ↔ ∀ p ∈ path.points, ∃ q, f p = .ok q) ∧
    (∀ image, path.mapPoints f = .ok image ↔ path.Mapped (fun p q => f p = .ok q) image) ∧
    (∀ fault, path.mapPoints f = .error fault ↔ ∃ before p after, path.points = before ++ p :: after ∧
      (∀ q ∈ before, ∃ image, f q = .ok image) ∧ f p = .error fault) ∧
    (∀ image, path.mapPoints f = .ok image →
      path.mapPoints (inTurn f early g late) = (image.mapPoints g).mapError late) ∧
    (∀ image, path.mapPoints warp.apply = .ok image → warp.replacePath.run.run path = (.ok (), image)) ∧
    ∀ fault, path.mapPoints warp.apply = .error fault → warp.replacePath.run.run path = (.error fault, path) := by
  refine ⟨exists_mapPoints_eq_ok, fun _ => mapPoints_eq_ok, fun _ => mapPoints_eq_error, ?_, ?_, ?_⟩
  · intro image went
    have same : ∀ p q, f p = .ok q → inTurn f early g late p = (g q).mapError late := fun _ _ => inTurn_of_ok
    exact Mapped.mapPoints_eq same (mapPoints_eq_ok.mp went)
  · intro image went
    rw [Warp.run_replacePath, went]
  · intro fault stopped
    rw [Warp.run_replacePath, stopped]

/-- Where two edges of a quadrilateral lie on one line, the corner between them has no image. A path that ends there is kept,
though all points before have one. -/
theorem Path.mapPoints_pointwise_flat :
    let corner (x y : Nat) : Point Float := ⟨Scalar.ofNat x, Scalar.ofNat y⟩
    let warp : Warp Float := ⟨⟨Scalar.zero, Scalar.zero, Scalar.one, Scalar.one⟩,
      ⟨corner 0 0, corner 1 0, corner 2 0, corner 0 2⟩⟩
    let path : Path Float := ⟨[⟨[.corner (corner 0 0)], true⟩, ⟨[⟨corner 0 0, corner 0 0, corner 0 1⟩], false⟩]⟩
    let swap (p : Point Float) : Except Unit (Point Float) := .ok ⟨p.y, p.x⟩
    ∃ image fault, path.mapPoints swap = .ok image ∧ image.mapPoints warp.apply = .error fault ∧
      path.mapPoints (inTurn swap Sum.inl warp.apply Sum.inr) = .error (.inr fault) ∧
      warp.replacePath.run.run image = (.error fault, image) := by
  intro corner warp path swap
  let image : Path Float := ⟨[⟨[.corner (corner 0 0)], true⟩, ⟨[⟨corner 0 0, corner 0 0, corner 1 0⟩], false⟩]⟩
  have swapped : path.mapPoints swap = .ok image := rfl
  have start : ∃ place, warp.apply (corner 0 0) = .ok place := fault?_eq_none.mp (by decide +kernel)
  have refused : fault? (warp.apply (corner 1 0)) ≠ none := by decide +kernel
  obtain ⟨fault, stop⟩ := Option.ne_none_iff_exists'.mp refused
  obtain ⟨_, _, stops, _, _, kept⟩ := mapPoints_pointwise warp.apply Sum.inl warp.apply Sum.inr warp image
  have stopped : image.mapPoints warp.apply = .error fault := by
    refine (stops fault).mpr ⟨List.replicate 5 (corner 0 0), corner 1 0, [], rfl, ?_, fault?_eq_some.mp stop⟩
    intro q member
    exact List.eq_of_mem_replicate member ▸ start
  obtain ⟨_, _, _, inOrder, _⟩ := mapPoints_pointwise swap Sum.inl warp.apply Sum.inr warp path
  refine ⟨image, fault, swapped, stopped, ?_, kept fault stopped⟩
  rw [inOrder image swapped, stopped]
  rfl

end EnvelopeWarp
