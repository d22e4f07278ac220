import EnvelopeWarp.Path.Pen

/-! Nodes that last. Once the pen has written nodes down, in the subpath that is being drawn, no command changes them: the
subpath only grows, and it is finished as it is. So they stand in the path that is drawn at last, behind the subpaths that
were finished before them. -/

namespace EnvelopeWarp
variable {α : Type}

/-- Behind the subpaths that came before stands one that starts with the nodes. -/
def Lasts (before : List (Subpath α)) (nodes : List (Node α)) (finished : List (Subpath α)) : Prop :=
  ∃ more closed others, finished = before ++ ⟨nodes ++ more, closed⟩ :: others

theorem Lasts.append {before finished : List (Subpath α)} {nodes : List (Node α)} (lasts : Lasts before nodes finished)
    (later : List (Subpath α)) : Lasts before nodes (finished ++ later) := by
  obtain ⟨more, closed, others, rfl⟩ := lasts
  exact ⟨more, closed, others ++ later, by rw [List.append_assoc, List.cons_append]⟩

theorem Lasts.node_eq {before : List (Subpath α)} {nodes : List (Node α)} {a b : Node α} {finished : List (Subpath α)}
    (first : Lasts before (nodes ++ [a]) finished) (last : Lasts before (nodes ++ [b]) finished) : a = b := by
  obtain ⟨more, closed, others, rfl⟩ := first
  obtain ⟨_, _, _, same⟩ := last
  rw [List.append_cancel_left_eq, List.cons.injEq, Subpath.mk.injEq, List.append_assoc, List.append_assoc,
    List.append_cancel_left_eq] at same
  exact (List.cons.inj same.1.1).1

namespace Pen

/-- The nodes stand in the subpath that is being drawn, or in a finished one. -/
def Holds (before : List (Subpath α)) (nodes : List (Node α)) (pen : Pen α) : Prop :=
  (pen.finished = before ∧ ∃ more, pen.nodes = some (nodes ++ more)) ∨ Lasts before nodes pen.finished

variable {before : List (Subpath α)} {nodes : List (Node α)} {pen : Pen α}

theorem Holds.flush (holds : Holds before nodes pen) : Lasts before nodes pen.flush.finished := by
  rcases holds with ⟨rfl, more, drawing⟩ | lasts
  · refine ⟨more ++ [⟨pen.handle, pen.current, pen.current⟩], false, [], ?_⟩
    simp [Pen.flush, leave, drawing]
  · unfold Pen.flush
    split
    · exact lasts
    · exact lasts.append _

theorem Holds.moveTo (holds : Holds before nodes pen) (p : Point α) : Holds before nodes (pen.moveTo p) :=
  .inr holds.flush

/-- Writing down a node and moving on. -/
theorem Holds.advance (holds : Holds before nodes pen) (outgoing handle current : Point α)
    (cubicControl quadraticControl : Option (Point α)) : Holds before nodes { pen.resume.leave outgoing with
      current := current, handle := handle, cubicControl := cubicControl, quadraticControl := quadraticControl } := by
  rcases holds with ⟨rfl, more, drawing⟩ | lasts
  · refine .inl ⟨?_, more ++ [⟨pen.handle, pen.current, outgoing⟩], ?_⟩ <;> simp [resume, leave, drawing]
  · refine .inr ?_
    unfold resume leave
    split <;> exact lasts

theorem Holds.drawPieces (holds : Holds before nodes pen) (pieces : List (ArcPiece α)) :
    Holds before nodes (pieces.foldl drawPiece pen) := by
  induction pieces generalizing pen with
  | nil => exact holds
  | cons piece pieces ih => exact ih (holds.advance _ _ _ _ _)

variable [Scalar α]

theorem Holds.arcTo (holds : Holds before nodes pen) (radii : Point α) (rotation : α) (large sweep : Bool) (p : Point α) :
    Holds before nodes (pen.arcTo radii rotation large sweep p) := by
  unfold Pen.arcTo
  split
  · exact holds
  · split
    · exact holds.drawPieces _
    · exact holds.advance _ _ _ _ _

theorem Holds.close (holds : Holds before nodes pen) : Holds before nodes pen.close := by
  rcases holds with ⟨rfl, more, drawing⟩ | lasts
  · refine .inr ⟨more ++ ([⟨pen.handle, pen.current, pen.current⟩] ++
      if pen.current.same pen.start then [] else [Node.corner pen.start]), true, [], ?_⟩
    simp [Pen.close, leave, drawing]
  · refine .inr ?_
    unfold Pen.close
    split
    · exact lasts
    · exact lasts.append _

theorem Holds.draw (holds : Holds before nodes pen) (command : Command α) : Holds before nodes (pen.draw command) := by
  cases command with
  | move relative p => exact holds.moveTo _
  | line relative p => exact holds.advance _ _ _ _ _
  | horizontal relative x => exact holds.advance _ _ _ _ _
  | vertical relative y => exact holds.advance _ _ _ _ _
  | cubic relative first second p => exact holds.advance _ _ _ _ _
  | smoothCubic relative second p => exact holds.advance _ _ _ _ _
  | quadratic relative control p => exact holds.advance _ _ _ _ _
  | smoothQuadratic relative p => exact holds.advance _ _ _ _ _
  | arc relative radii rotation large sweep p => exact holds.arcTo _ _ _ _ _
  | close => exact holds.close

/-- What is written down when a command has been drawn stands in the path. -/
theorem Holds.drawAll (holds : Holds before nodes pen) (commands : List (Command α)) :
    Lasts before nodes (commands.foldl Pen.draw pen).flush.finished := by
  induction commands generalizing pen with
  | nil => exact holds.flush
  | cons command commands ih => exact ih (holds.draw command)

end Pen
end EnvelopeWarp
