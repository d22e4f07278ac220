import Mathlib
import EnvelopeWarp.Path.Pen

/-! What every path that a pen draws has in common. A subpath has nodes; the handle into its first node and
the handle out of its last one lie on their anchors, since no curve uses them; and a closed subpath ends where
it starts, either with a node of its own or because the pen was there already. Lines from point to point leave
nothing but corners. -/

namespace EnvelopeWarp
variable {α : Type}

def Opens (start : Point α) (nodes : List (Node α)) : Prop :=
  ∀ first ∈ nodes.head?, first.incoming = first.anchor ∧ first.anchor = start

theorem Opens.append {start : Point α} {nodes : List (Node α)} (opens : Opens start nodes) (some_node : nodes ≠ [])
    (more : List (Node α)) : Opens start (nodes ++ more) := by
  cases nodes with
  | nil => exact absurd rfl some_node
  | cons node nodes => exact opens

variable [Scalar α]

structure Subpath.Drawn (subpath : Subpath α) : Prop where
  some_node : subpath.nodes ≠ []
  starts : ∀ first ∈ subpath.nodes.head?, first.incoming = first.anchor
  ends : ∀ last ∈ subpath.nodes.getLast?, last.outgoing = last.anchor
  closes : subpath.closed = true → ∀ first ∈ subpath.nodes.head?, ∀ last ∈ subpath.nodes.getLast?,
    last.anchor = first.anchor ∨ last.anchor.same first.anchor = true

namespace Pen

/-- Finished subpaths are drawn, and the one in progress has started where the pen says it did. -/
structure Sound (pen : Pen α) : Prop where
  finished : ∀ subpath ∈ pen.finished, subpath.Drawn
  opens : ∀ nodes ∈ pen.nodes, ∀ outgoing, Opens pen.start (nodes ++ [⟨pen.handle, pen.current, outgoing⟩])

private theorem sound_blank : (blank : Pen α).Sound :=
  ⟨fun _ member => (nomatch member), fun _ drawing => nomatch drawing⟩

private theorem drawn_of_opens {start last : Point α} {nodes : List (Node α)} {handle : Point α}
    (opens : Opens start (nodes ++ [⟨handle, last, last⟩])) : (⟨nodes ++ [⟨handle, last, last⟩], false⟩ : Subpath α).Drawn := by
  refine ⟨by simp, fun first head => (opens first head).1, ?_, fun closed => nomatch closed⟩
  intro node final
  rw [List.getLast?_concat] at final
  cases final
  rfl

private theorem sound_flush {pen : Pen α} (sound : pen.Sound) : pen.flush.Sound := by
  unfold flush leave
  cases drawing : pen.nodes with
  | none => simpa using sound
  | some nodes =>
    refine ⟨?_, fun _ drawing => nomatch drawing⟩
    intro subpath member
    rcases List.mem_append.mp member with before | now
    · exact sound.finished subpath before
    · obtain rfl := List.mem_singleton.mp now
      exact drawn_of_opens (sound.opens nodes drawing pen.current)

private theorem sound_moveTo {pen : Pen α} (sound : pen.Sound) (p : Point α) : (pen.moveTo p).Sound := by
  refine ⟨(sound_flush sound).finished, ?_⟩
  intro nodes drawing outgoing first head
  cases drawing
  cases head
  exact ⟨rfl, rfl⟩

private theorem sound_resume {pen : Pen α} (sound : pen.Sound) : pen.resume.Sound := by
  unfold resume
  cases drawing : pen.nodes with
  | some nodes => exact sound
  | none =>
    refine ⟨sound.finished, ?_⟩
    intro nodes drawing outgoing first head
    cases drawing
    cases head
    exact ⟨rfl, rfl⟩

/-- Writing down a node and moving on keeps a pen sound, wherever it moves. -/
theorem sound_advance {pen : Pen α} (sound : pen.Sound) (outgoing handle current : Point α)
    (cubicControl quadraticControl : Option (Point α)) :
    ({ pen.resume.leave outgoing with
        current := current, handle := handle, cubicControl := cubicControl,
        quadraticControl := quadraticControl } : Pen α).Sound := by
  have resumed := sound_resume sound
  refine ⟨resumed.finished, ?_⟩
  intro nodes drawing next
  obtain ⟨before, drawn, rfl⟩ := Option.map_eq_some_iff.mp drawing
  exact (resumed.opens before drawn outgoing).append (by simp) _

private theorem sound_lineTo {pen : Pen α} (sound : pen.Sound) (p : Point α) : (pen.lineTo p).Sound :=
  sound_advance sound _ _ _ _ _

private theorem sound_cubicTo {pen : Pen α} (sound : pen.Sound) (first second p : Point α) :
    (pen.cubicTo first second p).Sound :=
  sound_advance sound _ _ _ _ _

private theorem sound_controls {pen : Pen α} (sound : pen.Sound) (cubicControl quadraticControl : Option (Point α)) :
    ({ pen with cubicControl := cubicControl, quadraticControl := quadraticControl } : Pen α).Sound :=
  ⟨sound.finished, sound.opens⟩

private theorem sound_quadraticTo {pen : Pen α} (sound : pen.Sound) (control p : Point α) :
    (pen.quadraticTo control p).Sound :=
  sound_controls (sound_cubicTo sound _ _ _) _ _

private theorem sound_drawPieces {pen : Pen α} (sound : pen.Sound) (pieces : List (ArcPiece α)) :
    (pieces.foldl drawPiece pen).Sound := by
  induction pieces generalizing pen with
  | nil => exact sound
  | cons piece pieces ih => exact ih (sound_cubicTo sound _ _ _)

private theorem sound_arcTo {pen : Pen α} (sound : pen.Sound) (radii : Point α) (rotation : α) (large sweep : Bool)
    (p : Point α) : (pen.arcTo radii rotation large sweep p).Sound := by
  unfold arcTo
  split
  · exact sound
  · apply sound_controls
    split
    · exact sound_drawPieces sound _
    · exact sound_lineTo sound p

private theorem sound_close {pen : Pen α} (sound : pen.Sound) : pen.close.Sound := by
  unfold close leave
  cases drawing : pen.nodes with
  | none => simpa using sound
  | some nodes =>
    have opens := sound.opens nodes drawing pen.current
    refine ⟨?_, fun _ drawing => nomatch drawing⟩
    intro subpath member
    rcases List.mem_append.mp member with before | now
    · exact sound.finished subpath before
    · obtain rfl := List.mem_singleton.mp now
      obtain ⟨some_node, starts, ends, _⟩ := drawn_of_opens opens
      simp only at some_node starts ends ⊢
      split
      · next there =>
        rw [List.append_nil]
        refine ⟨some_node, starts, ends, fun _ first head last final => .inr ?_⟩
        rw [List.getLast?_concat] at final
        cases final
        rw [(opens first head).2]
        exact there
      · have whole := opens.append some_node [Node.corner pen.start]
        refine ⟨by simp, fun first head => (whole first head).1, ?_, fun _ first head last final => .inl ?_⟩
        · intro last final
          rw [List.getLast?_concat] at final
          cases final
          rfl
        · rw [List.getLast?_concat] at final
          cases final
          exact (whole first head).2.symm

private theorem sound_draw {pen : Pen α} (sound : pen.Sound) (command : Command α) : (pen.draw command).Sound := by
  cases command with
  | move relative p => exact sound_moveTo sound _
  | line relative p => exact sound_lineTo sound _
  | horizontal relative x => exact sound_lineTo sound _
  | vertical relative y => exact sound_lineTo sound _
  | cubic relative first second p => exact sound_cubicTo sound _ _ _
  | smoothCubic relative second p => exact sound_cubicTo sound _ _ _
  | quadratic relative control p => exact sound_quadraticTo sound _ _
  | smoothQuadratic relative p => exact sound_quadraticTo sound _ _
  | arc relative radii rotation large sweep p => exact sound_arcTo sound _ _ _ _ _
  | close => exact sound_close sound

private theorem sound_commands {pen : Pen α} (sound : pen.Sound) (commands : List (Command α)) :
    (commands.foldl draw pen).Sound := by
  induction commands generalizing pen with
  | nil => exact sound
  | cons command commands ih => exact ih (sound_draw sound command)

private theorem flush_lines {pen : Pen α} {nodes : List (Node α)} (drawing : pen.nodes = some nodes)
    (straight : pen.handle = pen.current) (stops : List (Point α)) :
    ((stops.map (Command.line false)).foldl draw pen).flush.finished =
      pen.finished ++ [⟨nodes ++ (pen.current :: stops).map .corner, false⟩] := by
  induction stops generalizing pen nodes with
  | nil => simp [flush, leave, drawing, straight, Node.corner]
  | cons stop stops ih =>
    have resumed : pen.resume = pen := by rw [resume, drawing]
    have corner : (pen.lineTo stop).nodes = some (nodes ++ [.corner pen.current]) := by
      simp [lineTo, resumed, leave, drawing, straight, Node.corner]
    have finished : (pen.lineTo stop).finished = pen.finished := by
      rw [lineTo, resumed]
      rfl
    have rest := ih corner rfl
    rw [finished, List.append_assoc] at rest
    exact rest

end Pen

/-- Whatever the commands are, each subpath is left as a pen leaves it. -/
theorem Path.drawn_ofCommands (commands : List (Command α)) :
    ∀ subpath ∈ (ofCommands commands).subpaths, subpath.Drawn :=
  (Pen.sound_flush (Pen.sound_commands Pen.sound_blank commands)).finished

theorem Path.ofCommands_lines (start : Point α) (stops : List (Point α)) :
    ofCommands (.move false start :: stops.map (.line false)) = ⟨[⟨(start :: stops).map .corner, false⟩]⟩ :=
  congrArg Path.mk (@Pen.flush_lines _ _ (Pen.blank.moveTo start) _ rfl rfl stops)

end EnvelopeWarp
