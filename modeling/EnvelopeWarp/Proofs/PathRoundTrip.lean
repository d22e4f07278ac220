import EnvelopeWarp.Proofs.DoubleText
import EnvelopeWarp.Proofs.WrittenCommands

/-! A path that was read is written and read again as an equal path. Every path that a pen draws can be redrawn,
and equality of the two ends of a closed subpath survives when each coordinate is replaced by an equal one. -/

namespace EnvelopeWarp

section Equal
variable {α : Type} [Scalar α]

private theorem sameItems_map {β : Type} {same : β → β → Bool} {f : β → β} {items : List β}
    (each : ∀ item ∈ items, same (f item) item = true) : sameItems same (items.map f) items = true := by
  induction items with
  | nil => rfl
  | cons item items ih =>
    rw [List.map_cons, sameItems, each item (.head _), ih fun other member => each other (.tail _ member)]
    rfl

theorem Path.map_same {f : α → α} {path : Path α} (every : path.Every fun x => Scalar.eq (f x) x = true) :
    (path.map f).same path = true := by
  have point : ∀ p : Point α, (p.Every fun x => Scalar.eq (f x) x = true) → (p.map f).same p = true := by
    intro p equal
    simp only [Point.same, Point.map, equal.1, equal.2, Bool.and_self]
  apply sameItems_map
  intro subpath listed
  have nodes : sameItems Node.same (subpath.nodes.map (Node.map f)) subpath.nodes = true := by
    apply sameItems_map
    intro node inside
    have equal := every subpath listed node inside
    simp only [Node.same, Node.map, point _ equal.1, point _ equal.2.1, point _ equal.2.2, Bool.and_self]
  simp only [Subpath.same, Subpath.map, nodes, beq_self_eq_true, Bool.and_self]

/-- Coordinates that stay equal to themselves and to each other leave a drawn subpath one that can be redrawn. -/
theorem Subpath.redrawable_map {f : α → α} {property : α → Prop}
    (self : ∀ x, property x → Scalar.eq (f x) (f x) = true)
    (both : ∀ x y, property x → property y → Scalar.eq x y = true → Scalar.eq (f x) (f y) = true)
    {subpath : Subpath α} (drawn : subpath.Drawn) (every : ∀ node ∈ subpath.nodes, node.Every property) :
    (subpath.map f).Redrawable := by
  obtain ⟨some_node, starts, ends, closes⟩ := drawn
  have head : ∀ first ∈ (subpath.map f).nodes.head?, ∃ node ∈ subpath.nodes.head?, node.map f = first := by
    intro first head
    rw [map, List.head?_map] at head
    exact Option.map_eq_some_iff.mp head
  have final : ∀ last ∈ (subpath.map f).nodes.getLast?, ∃ node ∈ subpath.nodes.getLast?, node.map f = last := by
    intro last final
    rw [map, List.getLast?_map] at final
    exact Option.map_eq_some_iff.mp final
  refine ⟨by simpa [map] using some_node, ?_, ?_, ?_⟩
  · intro first inside
    obtain ⟨node, first_, rfl⟩ := head first inside
    exact congrArg (Point.map f) (starts node first_)
  · intro last inside
    obtain ⟨node, last_, rfl⟩ := final last inside
    exact congrArg (Point.map f) (ends node last_)
  · intro closed first inside last outside
    obtain ⟨one, first_, rfl⟩ := head first inside
    obtain ⟨other, last_, rfl⟩ := final last outside
    have start := (every one (List.mem_of_head? first_)).2.1
    have stop := (every other (List.mem_of_getLast? last_)).2.1
    simp only [Node.map, Point.same, Point.map, Bool.and_eq_true]
    rcases closes closed one first_ other last_ with equal | same
    · rw [equal]
      exact ⟨self _ start.1, self _ start.2⟩
    · simp only [Point.same, Bool.and_eq_true] at same
      exact ⟨both _ _ stop.1 start.1 same.1, both _ _ stop.2 start.2 same.2⟩

end Equal

namespace Path

theorem Every.imp {α : Type} {property other : α → Prop} (implies : ∀ x, property x → other x) {path : Path α}
    (every : path.Every property) : path.Every other := by
  have point : ∀ p : Point α, p.Every property → p.Every other := fun p both => ⟨implies _ both.1, implies _ both.2⟩
  intro subpath listed node inside
  obtain ⟨incoming, anchor, outgoing⟩ := every subpath listed node inside
  exact ⟨point _ incoming, point _ anchor, point _ outgoing⟩

theorem drawn_of_parse {α : Type} [Scalar α] {text : String} {path : Path α} (read : parse text = .ok path) :
    ∀ subpath ∈ path.subpaths, subpath.Drawn := by
  unfold parse ofData at read
  split at read
  · cases read
    exact drawn_ofCommands _
  · cases read

/-- A path is read with the coordinates that its text spells, if it can be redrawn with these. -/
theorem parse_data_of_spells {precision : Option Nat} {value : Float → Decimal} {path : Path Float}
    (drawn : ∀ subpath ∈ path.subpaths, subpath.Drawn)
    (spells : path.Every fun x => Spells (coordinate precision x) (value x))
    (redrawable : ∀ subpath ∈ (path.map fun x => Double.ofDecimal (value x)).subpaths, subpath.Redrawable) :
    parse (path.data precision) = .ok (path.map fun x => Double.ofDecimal (value x)) := by
  have commands := PathData.commands_write spells fun subpath listed => (drawn subpath listed).some_node
  have drawn_again := ofCommands_commands redrawable
  rw [commands_map] at drawn_again
  have numbers : (path.commands.map (Command.map value)).map (Command.map Scalar.ofDecimal) =
      path.commands.map (Command.map fun x => Double.ofDecimal (value x)) := by
    rw [List.map_map]
    exact List.map_congr_left fun command _ => Command.map_map value Scalar.ofDecimal command
  simp only [parse, data, String.toList_ofList, ofData, commands, numbers, drawn_again]

/-- Path data that was read as a path with finite coordinates is written so that it reads as an equal path. -/
theorem parse_data {text : String} {path : Path Float} (read : parse text = .ok path)
    (finite : path.Every fun x => x.isFinite = true) :
    ∃ again, parse (path.data none) = .ok again ∧ again.same path = true := by
  have drawn := drawn_of_parse read
  have spelled : ∀ x : Float, ∃ value, x.isFinite = true →
      Spells (coordinate none x) value ∧ (Double.ofDecimal value == x) = true := by
    intro x
    by_cases finite : x.isFinite = true
    · obtain ⟨value, spells, same⟩ := coordinate_spells finite
      exact ⟨value, fun _ => ⟨spells, same⟩⟩
    · exact ⟨default, fun also => absurd also finite⟩
  choose value spells using spelled
  have equal : ∀ x : Float, x.isFinite = true → (Double.ofDecimal (value x) == x) = true := fun x finite =>
    (spells x finite).2
  have redrawable : ∀ subpath ∈ (path.map fun x => Double.ofDecimal (value x)).subpaths, subpath.Redrawable := by
    intro subpath member
    obtain ⟨before, listed, rfl⟩ := List.mem_map.mp member
    refine Subpath.redrawable_map (fun x finite => ?_) (fun x y first second same => ?_) (drawn before listed)
      (finite before listed)
    · exact Double.eq_trans (equal x finite) (Double.eq_symm (equal x finite))
    · exact Double.eq_trans (Double.eq_trans (equal x first) same) (Double.eq_symm (equal y second))
  exact ⟨_, parse_data_of_spells drawn (finite.imp fun x finite => (spells x finite).1) redrawable, map_same (finite.imp equal)⟩

/-- Drawing goes on after a closing, one closing follows another and a move draws nothing. -/
theorem parse_data_closed : ∃ path : Path Float, parse "M0,-0 L1.5,0 Z Z L2,3e1 M4 4" = .ok path ∧
    (path.Every fun x => x.isFinite = true) ∧
    ∃ again, parse (path.data none) = .ok again ∧ again.same path = true := by
  let commands : List (Command Decimal) := [.move false ⟨⟨false, 0, 0⟩, ⟨true, 0, 0⟩⟩,
    .line false ⟨⟨false, 15, -1⟩, ⟨false, 0, 0⟩⟩, .close, .close,
    .line false ⟨⟨false, 2, 0⟩, ⟨false, 3, 1⟩⟩, .move false ⟨⟨false, 4, 0⟩, ⟨false, 4, 0⟩⟩]
  let path : Path Float := ofCommands (commands.map (Command.map Scalar.ofDecimal))
  have listed : PathData.commands "M0,-0 L1.5,0 Z Z L2,3e1 M4 4".toList = .ok commands := by cbv
  have read : parse "M0,-0 L1.5,0 Z Z L2,3e1 M4 4" = .ok path := by
    rw [parse, ofData, listed]
  have finite : path.Every fun x => x.isFinite = true := by decide +kernel
  exact ⟨path, read, finite, parse_data read finite⟩

end Path
end EnvelopeWarp
