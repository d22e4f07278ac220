import EnvelopeWarp.Proofs.FlatArcs
import EnvelopeWarp.Proofs.LastingNodes
import EnvelopeWarp.Proofs.RedrawnPaths

/-! Drawings at another size. All that the pen does with points is to add, reflect and compare them, and the sweep of an arc
depends on its radii and ends only through their ratios. So a drawing whose coordinates and radii are all multiplied by one
number is drawn with all its nodes multiplied by it, as long as the cut-off for straight lines, which is the same at
every size, takes the same arcs for lines. -/

namespace EnvelopeWarp

/-- The command at another size: an angle stays what it is. -/
def Command.scaled {α : Type} [Scalar α] (factor : α) : Command α → Command α
  | .arc relative radii rotation large sweep p =>
    .arc relative (radii.scale factor) rotation large sweep (p.scale factor)
  | command => command.map (· * factor)

section
variable {α β : Type}

def ArcPiece.map (f : α → β) (piece : ArcPiece α) : ArcPiece β :=
  ⟨piece.first.map f, piece.second.map f, piece.finish.map f⟩

theorem Lasts.map {before finished : List (Subpath α)} {nodes : List (Node α)} (lasts : Lasts before nodes finished)
    (f : α → β) : Lasts (before.map (Subpath.map f)) (nodes.map (Node.map f)) (finished.map (Subpath.map f)) := by
  obtain ⟨more, closed, others, rfl⟩ := lasts
  refine ⟨more.map (Node.map f), closed, others.map (Subpath.map f), ?_⟩
  simp [Subpath.map]

namespace Pen

/-- The pen with everything that it remembers read in another way. -/
def map (f : α → β) (pen : Pen α) : Pen β :=
  { finished := pen.finished.map (Subpath.map f)
    nodes := pen.nodes.map (List.map (Node.map f))
    start := pen.start.map f
    current := pen.current.map f
    handle := pen.handle.map f
    cubicControl := pen.cubicControl.map (Point.map f)
    quadraticControl := pen.quadraticControl.map (Point.map f) }

variable (f : α → β) (pen : Pen α)

private theorem leave_map (outgoing : Point α) : (pen.map f).leave (outgoing.map f) = (pen.leave outgoing).map f := by
  obtain ⟨_, _ | nodes, _⟩ := pen
  · rfl
  · simp [leave, map, Node.map]

private theorem flush_map : (pen.map f).flush = pen.flush.map f := by
  obtain ⟨_, _ | nodes, _⟩ := pen
  · rfl
  · simp [flush, leave, map, Node.map, Subpath.map]

private theorem resume_map : (pen.map f).resume = pen.resume.map f := by
  obtain ⟨_, _ | nodes, _⟩ := pen <;> rfl

private theorem moveTo_map (p : Point α) : (pen.map f).moveTo (p.map f) = (pen.moveTo p).map f := by
  unfold moveTo
  rw [flush_map]
  rfl

private theorem lineTo_map (p : Point α) : (pen.map f).lineTo (p.map f) = (pen.lineTo p).map f := by
  unfold lineTo
  rw [resume_map]
  change ({ (pen.resume.map f).leave (pen.resume.current.map f) with
    current := p.map f, handle := p.map f, cubicControl := none, quadraticControl := none } : Pen β) = _
  rw [leave_map]
  rfl

private theorem cubicTo_map (first second p : Point α) :
    (pen.map f).cubicTo (first.map f) (second.map f) (p.map f) = (pen.cubicTo first second p).map f := by
  unfold cubicTo
  rw [resume_map, leave_map]
  rfl

private theorem drawPieces_map (pieces : List (ArcPiece α)) :
    (pieces.map (ArcPiece.map f)).foldl drawPiece (pen.map f) = (pieces.foldl drawPiece pen).map f := by
  induction pieces generalizing pen with
  | nil => rfl
  | cons piece pieces ih =>
    have step : drawPiece (pen.map f) (piece.map f) = (drawPiece pen piece).map f := cubicTo_map f pen _ _ _
    rw [List.map_cons, List.foldl_cons, step]
    exact ih _

end Pen
end

variable {factor : ℝ}

namespace Point
variable (p q : Point ℝ)

private theorem scale_eq_map (factor : ℝ) : p.scale factor = p.map (· * factor) :=
  rfl

private theorem add_scale (factor : ℝ) : (p + q).scale factor = p.scale factor + q.scale factor :=
  congrArg₂ Point.mk (add_mul _ _ _) (add_mul _ _ _)

private theorem sub_scale (factor : ℝ) : (p - q).scale factor = p.scale factor - q.scale factor :=
  congrArg₂ Point.mk (sub_mul _ _ _) (sub_mul _ _ _)

private theorem scale_scale (first second : ℝ) : (p.scale first).scale second = (p.scale second).scale first :=
  congrArg₂ Point.mk (mul_right_comm _ _ _) (mul_right_comm _ _ _)

variable {p q}

private theorem scale_inj (some_factor : factor ≠ 0) : p.scale factor = q.scale factor ↔ p = q := by
  obtain ⟨x, y⟩ := p
  obtain ⟨x', y'⟩ := q
  simp [scale, some_factor]

private theorem same_scale (some_factor : factor ≠ 0) : (p.scale factor).same (q.scale factor) = p.same q := by
  rw [Bool.eq_iff_iff, same_iff, same_iff, scale_inj some_factor]

end Point

namespace Arc
variable (positive : 0 < factor) {start finish radii : Point ℝ} {rotation : ℝ} (large sweep : Bool)

/-- The same part of an ellipse at another size. -/
def Sweep.scaled {α : Type} [Scalar α] (factor : α) (arc : Sweep α) : Sweep α :=
  { arc with ellipse :=
    { arc.ellipse with
      centre := arc.ellipse.centre.scale factor
      radiusX := arc.ellipse.radiusX * factor
      radiusY := arc.ellipse.radiusY * factor } }

private theorem pointAt_scaled (arc : Sweep ℝ) (x y : ℝ) :
    Ellipse.pointAt (Sweep.scaled factor arc).ellipse x y = (Ellipse.pointAt arc.ellipse x y).scale factor := by
  simp only [Ellipse.pointAt, Sweep.scaled, Point.scale, Point.mk.injEq]
  constructor <;> ring

private theorem piecesFrom_scaled (arc : Sweep ℝ) (finish : Point ℝ) (step reach : ℝ) (count : Nat) (angle : ℝ) :
    piecesFrom (Sweep.scaled factor arc).ellipse (finish.scale factor) step reach count angle =
      (piecesFrom arc.ellipse finish step reach count angle).map (ArcPiece.map (· * factor)) := by
  induction count generalizing angle with
  | zero => rfl
  | succ count ih =>
    simp only [piecesFrom, pointAt_scaled, ih, List.map_cons, ArcPiece.map, ← Point.scale_eq_map]
    split <;> rfl

private theorem pieces_scaled (arc : Sweep ℝ) (finish : Point ℝ) :
    Sweep.pieces (Sweep.scaled factor arc) (finish.scale factor) = (Sweep.pieces arc finish).map (ArcPiece.map (· * factor)) :=
  piecesFrom_scaled _ _ _ _ _ _

include positive

private theorem sweepOf_scale : sweepOf (start.scale factor) (finish.scale factor)
    (radii.scale factor) rotation large sweep =
    Sweep.scaled factor (sweepOf start finish radii rotation large sweep) := by
  have across (k a b c : ℝ) : k * (a * factor * (b * factor) / (c * factor)) = k * (a * b / c) * factor := by
    rw [← mul_assoc (a * factor), mul_div_mul_right _ _ positive.ne']
    ring
  simp only [sweepOf, Sweep.scaled, half_scale positive, drawnRadii_scale positive, chord_scale]
  simp only [Point.scale, ← neg_mul, across, Sweep.mk.injEq, Ellipse.mk.injEq, Point.mk.injEq, and_true]
  constructor <;> ring

/-- An arc that is a line at both sizes or at neither is cut into the same pieces. -/
theorem pieces?_scale (alike : Flat (start.scale factor) (finish.scale factor) (radii.scale factor) rotation ↔
      Flat start finish radii rotation) :
    pieces? (start.scale factor) (finish.scale factor) (radii.scale factor) rotation large sweep =
      (pieces? start finish radii rotation large sweep).map (List.map (ArcPiece.map (· * factor))) := by
  unfold pieces?
  rcases sweep?_cases start finish radii rotation large sweep with ⟨flat, straight⟩ | ⟨bent, swept⟩ <;>
    rcases sweep?_cases (start.scale factor) (finish.scale factor) (radii.scale factor) rotation large sweep with
      ⟨flat', straight'⟩ | ⟨bent', swept'⟩
  · rw [straight, straight']
    rfl
  · exact absurd (alike.mpr flat) bent'
  · exact absurd (alike.mp flat') bent
  · rw [swept, swept', sweepOf_scale positive, Option.map_some, Option.map_some, Option.map_some, pieces_scaled]

end Arc

namespace Pen
variable (pen : Pen ℝ)

/-- The command is drawn alike at another size: an arc to another point counts as a line at both sizes or at neither. -/
def Alike (factor : ℝ) : Command ℝ → Prop
  | .arc relative radii rotation _ _ p => pen.current ≠ pen.place relative p →
    (Arc.Flat (pen.current.scale factor) ((pen.place relative p).scale factor) (radii.scale factor) rotation ↔
      Arc.Flat pen.current (pen.place relative p) radii rotation)
  | _ => True

private theorem place_scale (relative : Bool) (p : Point ℝ) :
    (pen.map (· * factor)).place relative (p.map (· * factor)) = (pen.place relative p).map (· * factor) := by
  cases relative
  · rfl
  · exact (Point.add_scale pen.current p factor).symm

private theorem reflected_scale (control : Option (Point ℝ)) :
    (pen.map (· * factor)).reflected (control.map (Point.map (· * factor))) = (pen.reflected control).map (· * factor) := by
  cases control with
  | none => rfl
  | some control =>
    change pen.current.scale factor + (pen.current.scale factor - control.scale factor) = _
    rw [← Point.sub_scale, ← Point.add_scale]
    rfl

private theorem raised_scale (p control : Point ℝ) :
    raised (p.map (· * factor)) (control.map (· * factor)) = (raised p control).map (· * factor) := by
  change p.scale factor + (control.scale factor - p.scale factor).scale _ = _
  rw [← Point.sub_scale, Point.scale_scale, ← Point.add_scale]
  rfl

private theorem quadraticTo_scale (control p : Point ℝ) :
    (pen.map (· * factor)).quadraticTo (control.map (· * factor)) (p.map (· * factor)) =
      (pen.quadraticTo control p).map (· * factor) := by
  have start : raised (pen.map (· * factor)).current (control.map (· * factor)) = _ := raised_scale pen.current control
  unfold quadraticTo
  rw [start, raised_scale, cubicTo_map]
  rfl

variable (positive : 0 < factor)
include positive

private theorem close_scale : (pen.map (· * factor)).close = pen.close.map (· * factor) := by
  have same : (pen.current.map (· * factor)).same (pen.start.map (· * factor)) = pen.current.same pen.start :=
    Point.same_scale positive.ne'
  obtain ⟨finished, _ | nodes, start, current, _⟩ := pen
  · rfl
  · simp only [close, leave, map, Option.map_some] at same ⊢
    cases standing : current.same start <;> simp [same, standing, Subpath.map, Node.map, Node.corner]

private theorem arcTo_scale (radii : Point ℝ) (rotation : ℝ) (large sweep : Bool) (p : Point ℝ)
    (alike : pen.current ≠ p →
      (Arc.Flat (pen.current.scale factor) (p.scale factor) (radii.scale factor) rotation ↔
        Arc.Flat pen.current p radii rotation)) :
    (pen.map (· * factor)).arcTo (radii.scale factor) rotation large sweep (p.scale factor) =
      (pen.arcTo radii rotation large sweep p).map (· * factor) := by
  have same : (pen.map (· * factor)).current.same (p.scale factor) = pen.current.same p := Point.same_scale positive.ne'
  unfold arcTo
  rw [same]
  split
  · rfl
  · next apart =>
    have cut : Arc.pieces? (pen.map (· * factor)).current (p.scale factor) (radii.scale factor) rotation large sweep = _ :=
      Arc.pieces?_scale positive large sweep (alike fun there => apart (Point.same_iff.mpr there))
    rw [cut]
    cases Arc.pieces? pen.current p radii rotation large sweep with
    | some pieces =>
      simp only [Option.map_some, drawPieces_map]
      rfl
    | none =>
      simp only [Option.map_none, Point.scale_eq_map, lineTo_map]
      rfl

private theorem draw_scale {command : Command ℝ} (alike : pen.Alike factor command) :
    (pen.map (· * factor)).draw (command.scaled factor) = (pen.draw command).map (· * factor) := by
  cases command with
  | move relative p =>
    simp only [draw, Command.scaled, Command.map, place_scale]
    exact moveTo_map _ pen _
  | line relative p =>
    simp only [draw, Command.scaled, Command.map, place_scale]
    exact lineTo_map _ pen _
  | horizontal relative x =>
    cases relative
    · exact lineTo_map _ pen ⟨x, pen.current.y⟩
    · change (pen.map (· * factor)).lineTo ⟨pen.current.x * factor + x * factor, pen.current.y * factor⟩ = _
      rw [← add_mul]
      exact lineTo_map _ pen ⟨pen.current.x + x, pen.current.y⟩
  | vertical relative y =>
    cases relative
    · exact lineTo_map _ pen ⟨pen.current.x, y⟩
    · change (pen.map (· * factor)).lineTo ⟨pen.current.x * factor, pen.current.y * factor + y * factor⟩ = _
      rw [← add_mul]
      exact lineTo_map _ pen ⟨pen.current.x, pen.current.y + y⟩
  | cubic relative first second p =>
    simp only [draw, Command.scaled, Command.map, place_scale]
    exact cubicTo_map _ pen _ _ _
  | smoothCubic relative second p =>
    have through : (pen.map (· * factor)).reflected (pen.map (· * factor)).cubicControl = _ :=
      reflected_scale pen pen.cubicControl
    simp only [draw, Command.scaled, Command.map, place_scale, through]
    exact cubicTo_map _ pen _ _ _
  | quadratic relative control p =>
    simp only [draw, Command.scaled, Command.map, place_scale]
    exact quadraticTo_scale pen _ _
  | smoothQuadratic relative p =>
    have through : (pen.map (· * factor)).reflected (pen.map (· * factor)).quadraticControl = _ :=
      reflected_scale pen pen.quadraticControl
    simp only [draw, Command.scaled, Command.map, place_scale, through]
    exact quadraticTo_scale pen _ _
  | arc relative radii rotation large sweep p =>
    change (pen.map (· * factor)).arcTo _ _ _ _ ((pen.map (· * factor)).place relative (p.map (· * factor))) = _
    rw [place_scale]
    exact arcTo_scale pen positive radii rotation large sweep _ alike
  | close => exact close_scale pen positive

/-- The node at which an arc starts shows whether the arc counts as a line, and it is still there in the path. -/
theorem alike_of_drawn {command : Command ℝ} {rest : List (Command ℝ)}
    (drawn : (((command :: rest).map (Command.scaled factor)).foldl draw (pen.map (· * factor))).flush.finished =
      ((command :: rest).foldl draw pen).flush.finished.map (Subpath.map (· * factor))) : pen.Alike factor command := by
  cases command with
  | arc relative radii rotation large sweep p =>
    intro apart
    obtain ⟨before, resumed⟩ := pen.resume_nodes
    obtain ⟨outgoing, more, corner, nodes, finished⟩ := pen.arcTo_starts resumed apart radii rotation large sweep
    have resumed' : (pen.map (· * factor)).resume.nodes = some (before.map (Node.map (· * factor))) := by
      rw [resume_map, map, resumed]
      rfl
    have apart' : (pen.map (· * factor)).current ≠ (pen.place relative p).map (· * factor) :=
      (Point.scale_inj positive.ne').not.mpr apart
    obtain ⟨outgoing', more', corner', nodes', finished'⟩ :=
      (pen.map (· * factor)).arcTo_starts resumed' apart' (radii.scale factor) rotation large sweep
    rw [← place_scale] at nodes' finished'
    rw [resume_map] at nodes'
    have image := (Holds.drawAll (.inl ⟨finished, more, nodes⟩) rest).map (· * factor)
    have direct := Holds.drawAll (.inl ⟨finished', more', nodes'⟩) (rest.map (Command.scaled factor))
    rw [List.map_append] at image
    have same : Lasts _ _ _ := drawn ▸ direct
    have outgoings : outgoing' = outgoing.scale factor := (Node.mk.inj (same.node_eq image)).2.2
    have corners : outgoing' = (pen.map (· * factor)).current ↔ outgoing = pen.current := by
      rw [outgoings]
      exact Point.scale_inj positive.ne'
    exact corner'.symm.trans (corners.trans corner)
  | _ => trivial

private theorem drawAll_scale_iff (commands : List (Command ℝ)) :
    ((commands.map (Command.scaled factor)).foldl draw (pen.map (· * factor))).flush.finished =
        (commands.foldl draw pen).flush.finished.map (Subpath.map (· * factor)) ↔
      ∀ before command after, commands = before ++ command :: after → (before.foldl draw pen).Alike factor command := by
  induction commands generalizing pen with
  | nil =>
    refine iff_of_true ?_ fun before command after split => absurd split (by simp)
    rw [List.map_nil, List.foldl_nil, List.foldl_nil, flush_map]
    rfl
  | cons command commands ih =>
    have step (alike : pen.Alike factor command) : ((command :: commands).map (Command.scaled factor)).foldl draw
        (pen.map (· * factor)) = (commands.map (Command.scaled factor)).foldl draw ((pen.draw command).map (· * factor)) := by
      rw [List.map_cons, List.foldl_cons, draw_scale pen positive alike]
    constructor
    · intro drawn before next after split
      have alike := alike_of_drawn pen positive drawn
      cases before with
      | nil =>
        cases split
        exact alike
      | cons first before =>
        cases split
        rw [step alike] at drawn
        exact (ih (pen.draw command)).mp drawn before next after rfl
    · intro alike
      rw [step (alike [] command commands rfl)]
      exact (ih (pen.draw command)).mpr fun before next after split =>
        alike (command :: before) next after (congrArg (List.cons command) split)

omit positive in
private theorem blank_scale : (blank : Pen ℝ).map (· * factor) = blank := by
  simp [map, blank, Point.origin, Point.map]

end Pen

namespace Path

/-- A drawing keeps its shape at another size exactly when the cut-off takes the same arcs for lines. -/
theorem scaled_iff_alike (positive : 0 < factor) (commands : List (Command ℝ)) :
    ofCommands (commands.map (Command.scaled factor)) = (ofCommands commands).map (· * factor) ↔
      ∀ before command after, commands = before ++ command :: after →
        (before.foldl Pen.draw Pen.blank).Alike factor command := by
  have drawn := Pen.drawAll_scale_iff Pen.blank positive commands
  rw [Pen.blank_scale] at drawn
  rw [← drawn]
  exact Path.mk.injEq _ _ ▸ Iff.rfl

/-- Half a circle around a point to the right of the origin. -/
def semicircle (radius : ℝ) : List (Command ℝ) :=
  [.move false ⟨0, 0⟩, .arc false ⟨radius, radius⟩ 0 false true ⟨radius + radius, 0⟩]

private theorem flat_semicircle_iff {radius : ℝ} (positive : 0 < radius) :
    Arc.Flat ⟨0, 0⟩ ⟨radius + radius, 0⟩ ⟨radius, radius⟩ 0 ↔ radius < Scalar.epsilon ∨ radius ^ 4 < Scalar.epsilon := by
  have level : Arc.chord ⟨0, 0⟩ ⟨radius + radius, 0⟩ 0 = ⟨-radius, 0⟩ := by
    simp only [Arc.chord, Arc.halfChord, Scalar.radians, zero_mul, Real.cos_zero, Real.sin_zero, Scalar.two_eq, Point.mk.injEq]
    constructor <;> ring
  have reaching : Arc.drawnRadii ⟨0, 0⟩ ⟨radius + radius, 0⟩ ⟨radius, radius⟩ 0 = ⟨radius, radius⟩ := by
    simp [Arc.drawnRadii, Arc.stretch, level, Arc.squared, Arc.inUnits, abs_of_pos positive, positive.ne']
  have fourth : Arc.spread ⟨radius, radius⟩ ⟨-radius, 0⟩ = radius ^ 4 := by
    simp only [Arc.spread]
    ring
  rw [Arc.Flat, level, reaching, fourth, abs_of_pos positive, ← or_assoc, or_self]

private theorem not_flat_semicircle {radius : ℝ} (large : 1 ≤ radius) :
    ¬Arc.Flat ⟨0, 0⟩ ⟨radius + radius, 0⟩ ⟨radius, radius⟩ 0 := by
  have small : (Scalar.epsilon : ℝ) < 1 := by
    rw [Scalar.epsilon_eq]
    norm_num
  rw [flat_semicircle_iff (one_pos.trans_le large), not_or, not_lt, not_lt]
  exact ⟨small.le.trans large, small.le.trans (one_le_pow₀ large)⟩

private theorem alike_semicircle_iff (factor : ℝ) : (∀ before command after, semicircle 1 = before ++ command :: after →
      (before.foldl Pen.draw Pen.blank).Alike factor command) ↔
    (Arc.Flat ⟨0, 0⟩ ⟨factor + factor, 0⟩ ⟨factor, factor⟩ 0 ↔ Arc.Flat ⟨0, 0⟩ ⟨1 + 1, 0⟩ ⟨1, 1⟩ 0) := by
  have arc : (Pen.blank.moveTo ⟨0, 0⟩).Alike factor (.arc false ⟨1, 1⟩ 0 false true ⟨1 + 1, 0⟩) ↔
      (Arc.Flat ⟨0, 0⟩ ⟨factor + factor, 0⟩ ⟨factor, factor⟩ 0 ↔ Arc.Flat ⟨0, 0⟩ ⟨1 + 1, 0⟩ ⟨1, 1⟩ 0) := by
    have apart : (Pen.blank.moveTo ⟨0, 0⟩).current ≠ (⟨1 + 1, 0⟩ : Point ℝ) :=
      fun same => (add_pos one_pos one_pos).ne (congrArg Point.x same)
    refine Iff.trans ⟨fun alike => alike apart, fun alike _ => alike⟩ ?_
    simp [Pen.moveTo, Pen.place, Point.scale, add_mul]
  rw [← arc]
  constructor
  · intro alike
    exact alike [.move false ⟨0, 0⟩] _ [] rfl
  · intro alike before command after split
    rcases before with _ | ⟨first, _ | ⟨second, rest⟩⟩
    · cases split
      trivial
    · cases split
      exact alike
    · cases rest <;> cases split

/-- An arc to another point is drawn as a line exactly when it counts as one. With a radius of zero it does, and with radii
that are not zero it does below a size of its own. So a drawing is the same at another size exactly when each of its arcs
counts as a line at both sizes or at neither. -/
theorem ofCommands_scaled_iff (pen : Pen ℝ) {p : Point ℝ} (apart : pen.current ≠ p) (radii : Point ℝ) (rotation : ℝ)
    (large sweep : Bool) (commands : List (Command ℝ)) {factor : ℝ} (positive : 0 < factor) :
    (pen.arcTo radii rotation large sweep p = pen.lineTo p ↔ Arc.Flat pen.current p radii rotation) ∧
      (radii.x = 0 ∨ radii.y = 0 → Arc.Flat pen.current p radii rotation) ∧
      (radii.x ≠ 0 → radii.y ≠ 0 → ∃ size > 0, ∀ factor > 0,
        (Arc.Flat (pen.current.scale factor) (p.scale factor) (radii.scale factor) rotation ↔ factor < size)) ∧
      (ofCommands (commands.map (Command.scaled factor)) = (ofCommands commands).map (· * factor) ↔
        ∀ before command after, commands = before ++ command :: after →
          (before.foldl Pen.draw Pen.blank).Alike factor command) :=
  ⟨pen.arcTo_eq_lineTo_iff apart large sweep, Arc.flat_of_radius_zero, Arc.exists_size apart,
    scaled_iff_alike positive commands⟩

/-- A half circle that is twice as large is drawn twice as large, and not as a line. -/
theorem ofCommands_scaled_semicircle : (Pen.blank : Pen ℝ).current ≠ ⟨2, 0⟩ ∧ (0 : ℝ) < 2 ∧
    Pen.blank.arcTo ⟨1, 1⟩ 0 false true ⟨2, 0⟩ ≠ Pen.blank.lineTo (⟨2, 0⟩ : Point ℝ) ∧
    ofCommands ((semicircle 1).map (Command.scaled 2)) = (ofCommands (semicircle 1)).map (· * 2) := by
  have origin : (Pen.blank : Pen ℝ).current = ⟨0, 0⟩ := by
    simp [Pen.blank, Point.origin]
  have apart : (Pen.blank : Pen ℝ).current ≠ ⟨2, 0⟩ := by
    simp [origin]
  obtain ⟨line, _, _, drawn⟩ := ofCommands_scaled_iff Pen.blank apart ⟨1, 1⟩ 0 false true (semicircle 1) two_pos
  refine ⟨apart, two_pos, ?_, drawn.mpr ((alike_semicircle_iff _).mpr ?_)⟩
  · rw [ne_eq, line, origin]
    have bent := not_flat_semicircle (le_refl 1)
    rwa [one_add_one_eq_two] at bent
  · exact iff_of_false (not_flat_semicircle one_le_two) (not_flat_semicircle le_rfl)

/-- A small half circle is drawn as a line although its radii are not zero, so it is no small copy of a larger one. -/
theorem not_forall_scaled :
    (¬∀ (pen : Pen ℝ) (radii p : Point ℝ) (rotation : ℝ) (large sweep : Bool), pen.current ≠ p →
      (pen.arcTo radii rotation large sweep p = pen.lineTo p ↔ radii.x = 0 ∨ radii.y = 0)) ∧
    ¬∀ (factor : ℝ) (commands : List (Command ℝ)), 0 < factor →
      ofCommands (commands.map (Command.scaled factor)) = (ofCommands commands).map (· * factor) := by
  let size : ℝ := 2 ^ (-14 : ℤ)
  have positive : 0 < size := by positivity
  have flat : Arc.Flat ⟨0, 0⟩ ⟨size + size, 0⟩ ⟨size, size⟩ 0 := by
    rw [flat_semicircle_iff positive, Scalar.epsilon_eq]
    right
    norm_num [size]
  constructor
  · intro holds
    have apart : (Pen.blank.moveTo ⟨0, 0⟩).current ≠ (⟨size + size, 0⟩ : Point ℝ) :=
      fun same => (add_pos positive positive).ne (congrArg Point.x same)
    have line := (Pen.blank.moveTo ⟨0, 0⟩).arcTo_of_flat apart flat false true
    rcases (holds _ _ _ _ _ _ apart).mp line with zero | zero
    · exact positive.ne' zero
    · exact positive.ne' zero
  · intro holds
    have alike := (scaled_iff_alike positive (semicircle 1)).mp (holds size (semicircle 1) positive)
    exact not_flat_semicircle le_rfl (((alike_semicircle_iff _).mp alike).mp flat)

end Path
end EnvelopeWarp
