import EnvelopeWarp.Proofs.DrawnPaths

/-! The commands that draw a path once more: moves, cubic curves and closings, all absolute. A path whose
closed subpaths end where they start is drawn by its own commands, node for node. -/

namespace EnvelopeWarp
variable {α β : Type}

def Point.Every (property : α → Prop) (p : Point α) : Prop :=
  property p.x ∧ property p.y

def Node.Every (property : α → Prop) (node : Node α) : Prop :=
  node.incoming.Every property ∧ node.anchor.Every property ∧ node.outgoing.Every property

def Path.Every (property : α → Prop) (path : Path α) : Prop :=
  ∀ subpath ∈ path.subpaths, ∀ node ∈ subpath.nodes, node.Every property

section Decide
variable (property : α → Prop) [DecidablePred property]

instance (p : Point α) : Decidable (p.Every property) :=
  inferInstanceAs (Decidable (property p.x ∧ property p.y))

instance (node : Node α) : Decidable (node.Every property) :=
  inferInstanceAs (Decidable (node.incoming.Every property ∧ _))

instance (path : Path α) : Decidable (path.Every property) :=
  inferInstanceAs (Decidable (∀ subpath ∈ path.subpaths, ∀ node ∈ subpath.nodes, node.Every property))

end Decide

def Node.map (f : α → β) (node : Node α) : Node β :=
  ⟨node.incoming.map f, node.anchor.map f, node.outgoing.map f⟩

def Subpath.map (f : α → β) (subpath : Subpath α) : Subpath β :=
  ⟨subpath.nodes.map (Node.map f), subpath.closed⟩

def Path.map (f : α → β) (path : Path α) : Path β :=
  ⟨path.subpaths.map (Subpath.map f)⟩

def Curve.command (curve : Curve α) : Command α :=
  .cubic false curve.first curve.second curve.finish

def Subpath.commands (subpath : Subpath α) : List (Command α) :=
  match subpath.nodes with
  | [] => []
  | first :: _ =>
    .move false first.anchor :: subpath.curves.map Curve.command ++ if subpath.closed then [.close] else []

def Path.commands (path : Path α) : List (Command α) :=
  path.subpaths.flatMap Subpath.commands

theorem Command.map_map {γ : Type} (f : α → β) (g : β → γ) (command : Command α) :
    (command.map f).map g = command.map fun x => g (f x) := by
  cases command <;> rfl

theorem Subpath.curves_map (f : α → β) (nodes : List (Node α)) :
    (curvesOf (nodes.map (Node.map f))).map Curve.command =
      ((curvesOf nodes).map Curve.command).map (Command.map f) := by
  induction nodes with
  | nil => rfl
  | cons first rest ih =>
    cases rest with
    | nil => rfl
    | cons second rest => exact congrArg (List.cons _) ih

theorem Subpath.commands_map (f : α → β) (subpath : Subpath α) :
    (subpath.map f).commands = subpath.commands.map (Command.map f) := by
  obtain ⟨nodes, closed⟩ := subpath
  cases nodes with
  | nil => rfl
  | cons first rest =>
    have curves := curves_map f (first :: rest)
    rw [List.map_cons] at curves
    simp only [commands, map, Subpath.curves, List.map_cons, List.map_append, curves]
    cases closed <;> rfl

theorem Path.commands_map (f : α → β) (path : Path α) :
    (path.map f).commands = path.commands.map (Command.map f) := by
  simp only [commands, map, List.flatMap_map, List.map_flatMap, Subpath.commands_map]

namespace Pen
variable [Scalar α]

/-- The pen stands on a node, with others written down before it. -/
structure Stands (pen : Pen α) (before : List (Node α)) (node : Node α) : Prop where
  nodes : pen.nodes = some before
  current : pen.current = node.anchor
  handle : pen.handle = node.incoming

omit [Scalar α] in
theorem Stands.leave {pen : Pen α} {before : List (Node α)} {node : Node α} (stands : Stands pen before node)
    {outgoing : Point α} (out : outgoing = node.outgoing) : (pen.leave outgoing).nodes = some (before ++ [node]) := by
  simp only [Pen.leave, stands.nodes, stands.current, stands.handle, out, Option.map_some]

/-- Drawing the curves between nodes writes down all but the last node, on which the pen is left. -/
theorem stands_curves {pen : Pen α} {before : List (Node α)} {node : Node α} (stands : Stands pen before node)
    (rest : List (Node α)) :
    ∃ inner last, node :: rest = inner ++ [last] ∧
      Stands (((Subpath.curvesOf (node :: rest)).map Curve.command).foldl draw pen) (before ++ inner) last ∧
      (((Subpath.curvesOf (node :: rest)).map Curve.command).foldl draw pen).finished = pen.finished ∧
      (((Subpath.curvesOf (node :: rest)).map Curve.command).foldl draw pen).start = pen.start := by
  induction rest generalizing pen before node with
  | nil => exact ⟨[], node, rfl, by simpa [Subpath.curvesOf] using stands, rfl, rfl⟩
  | cons second rest ih =>
    have resumed : pen.resume = pen := by
      unfold resume
      rw [stands.nodes]
    have step : Stands (pen.cubicTo node.outgoing second.incoming second.anchor) (before ++ [node]) second := by
      refine ⟨?_, rfl, rfl⟩
      simp only [cubicTo, resumed]
      exact stands.leave rfl
    have finished : (pen.cubicTo node.outgoing second.incoming second.anchor).finished = pen.finished := by
      simp only [cubicTo, resumed, Pen.leave]
    have start : (pen.cubicTo node.outgoing second.incoming second.anchor).start = pen.start := by
      simp only [cubicTo, resumed, Pen.leave]
    obtain ⟨inner, last, split, there, kept, same⟩ := ih step
    refine ⟨node :: inner, last, by rw [split, List.cons_append], ?_, kept.trans finished, same.trans start⟩
    rw [List.append_assoc] at there
    exact there

end Pen

variable [Scalar α]

/-- A subpath that is drawn, and closed only where it starts. -/
structure Subpath.Redrawable (subpath : Subpath α) : Prop where
  some_node : subpath.nodes ≠ []
  starts : ∀ first ∈ subpath.nodes.head?, first.incoming = first.anchor
  ends : ∀ last ∈ subpath.nodes.getLast?, last.outgoing = last.anchor
  closes : subpath.closed = true → ∀ first ∈ subpath.nodes.head?, ∀ last ∈ subpath.nodes.getLast?,
    last.anchor.same first.anchor = true

namespace Pen

private theorem redraw_subpath {subpath : Subpath α} (redrawable : subpath.Redrawable) (pen : Pen α) :
    (subpath.commands.foldl draw pen).flush.finished = pen.flush.finished ++ [subpath] := by
  obtain ⟨nodes, closed⟩ := subpath
  obtain ⟨some_node, starts, ends, closes⟩ := redrawable
  obtain ⟨first, rest, rfl⟩ := List.exists_cons_of_ne_nil some_node
  have moved : Stands (pen.moveTo first.anchor) [] first := ⟨rfl, rfl, (starts first rfl).symm⟩
  obtain ⟨inner, last, split, there, finished, start⟩ := stands_curves moved rest
  have final : last ∈ (first :: rest).getLast? := by
    rw [split, List.getLast?_concat]
    rfl
  have out := ends last final
  simp only [Subpath.commands, Subpath.curves, List.cons_append, List.foldl_cons, List.foldl_append, draw, place,
    Bool.false_eq_true, if_false]
  generalize ((Subpath.curvesOf (first :: rest)).map Curve.command).foldl draw (pen.moveTo first.anchor) = drawn at *
  have written : (drawn.leave drawn.current).nodes = some (first :: rest) := by
    rw [there.leave (there.current.trans out.symm), List.nil_append, split]
  cases closed with
  | false =>
    simp only [Bool.false_eq_true, if_false, List.foldl_nil, flush, written, finished]
    rfl
  | true =>
    have on_start : drawn.current.same drawn.start = true := by
      rw [there.current, start]
      exact closes rfl first rfl last final
    have ended : (draw drawn .close).nodes = none := by simp only [draw, close, written]
    have added : (draw drawn .close).finished = drawn.finished ++ [⟨first :: rest, true⟩] := by
      simp only [draw, close, written, on_start, if_true, List.append_nil]
    simp only [if_true, List.foldl_cons, List.foldl_nil]
    rw [flush, leave, ended, Option.map_none, added, finished]
    rfl

private theorem redraw_subpaths {subpaths : List (Subpath α)} (redrawable : ∀ subpath ∈ subpaths, subpath.Redrawable)
    (pen : Pen α) :
    ((subpaths.flatMap Subpath.commands).foldl draw pen).flush.finished = pen.flush.finished ++ subpaths := by
  induction subpaths generalizing pen with
  | nil => simp
  | cons subpath subpaths ih =>
    rw [List.flatMap_cons, List.foldl_append, ih fun other member => redrawable other (.tail _ member),
      redraw_subpath (redrawable subpath (.head _)), List.append_assoc, List.singleton_append]

end Pen

/-- A path that can be redrawn is what its commands draw. -/
theorem Path.ofCommands_commands {path : Path α} (redrawable : ∀ subpath ∈ path.subpaths, subpath.Redrawable) :
    ofCommands path.commands = path := by
  have redrawn := Pen.redraw_subpaths redrawable Pen.blank
  rw [ofCommands, commands, redrawn]
  rfl

end EnvelopeWarp
