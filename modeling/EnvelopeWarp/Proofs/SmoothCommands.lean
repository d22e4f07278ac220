import EnvelopeWarp.Path.Text
import EnvelopeWarp.Proofs.CommandCourse
import EnvelopeWarp.Proofs.ExactScalar
import EnvelopeWarp.Scalar.Double

/-! Smooth curves and the curves they stand for. A smooth cubic curve takes the place of a cubic one, and a smooth quadratic
curve of a quadratic one, whose first control point is the last one of the command before, seen through the current
point, if that command drew a curve of the same kind, and the current point if it is any other. An arc to the current
point is the exception: it counts as no command, so the curve before it is still the one that is reflected. -/

namespace EnvelopeWarp
variable {α : Type}

namespace Course
variable [Scalar α]

/-- The curve that a smooth curve stands for. -/
def long (course : Course α) : Command α → Command α
  | .smoothCubic relative second p =>
    .cubic false course.firstControl (course.place relative second) (course.place relative p)
  | .smoothQuadratic relative p => .quadratic false course.control (course.place relative p)
  | command => command

private theorem reflect_exact (course : Course ℝ) (control : Point ℝ) :
    course.reflect control = ⟨2 * course.current.x - control.x, 2 * course.current.y - control.y⟩ := by
  have twice (a b : ℝ) : a + (a - b) = 2 * a - b := by ring
  exact congrArg₂ Point.mk (twice _ _) (twice _ _)

end Course

theorem Pen.draw_long [Scalar α] {pen : Pen α} {course : Course α} (keeps : Keeps pen course) (command : Command α) :
    pen.draw (course.long command) = pen.draw command := by
  cases command with
  | smoothCubic relative second p => simp [Course.long, draw, keeps.place, keeps.reflected_cubic, Course.place]
  | smoothQuadratic relative p => simp [Course.long, draw, keeps.place, keeps.reflected_quadratic, Course.place]
  | _ => rfl

namespace Path

/-- Whatever stands before and behind it, a smooth curve draws what its long form draws. What it may reflect is left by the
command before, or, where that is an arc to the current point, by the one before the arc; without rounding the reflection
is twice the current point less the control point. -/
theorem ofCommands_long [Scalar α] (before after : List (Command α)) (command previous : Command α) :
    let course := before.foldl Course.after Course.blank
    ofCommands (before ++ command :: after) = ofCommands (before ++ course.long command :: after) ∧
      (before ++ [previous]).foldl Course.after Course.blank =
        (if course.vanishes previous then course else course.next previous) ∧
      ∀ (course : Course ℝ) (control : Point ℝ),
        course.reflect control = ⟨2 * course.current.x - control.x, 2 * course.current.y - control.y⟩ := by
  intro course
  have keeps := Pen.keeps_commands Pen.keeps_blank before
  refine ⟨?_, ?_, Course.reflect_exact⟩
  · simp only [ofCommands, List.foldl_append, List.foldl_cons, course, Pen.draw_long keeps]
  · rw [List.foldl_append]
    rfl

/-- An arc to the current point does not end what a smooth curve may reflect. -/
theorem not_forall_long : ¬∀ (text : String) (commands : List (Command Decimal)) (before after : List (Command Float))
    (command : Command Float), PathData.commands text.toList = .ok commands →
      commands.map (Command.map Scalar.ofDecimal) = before ++ command :: after →
      parse text = .ok (ofCommands (before ++ (before.foldl Course.next Course.blank).long command :: after)) := by
  intro holds
  let whole (n : Nat) : Decimal := ⟨false, n, 0⟩
  let commands : List (Command Decimal) := [.move false ⟨whole 0, whole 0⟩,
    .smoothCubic false ⟨whole 2, whole 1⟩ ⟨whole 2, whole 0⟩,
    .arc false ⟨whole 5, whole 5⟩ (whole 0) false true ⟨whole 2, whole 0⟩,
    .smoothCubic false ⟨whole 4, ⟨true, 1, 0⟩⟩ ⟨whole 4, whole 0⟩]
  have listed : PathData.commands "M0 0S2 1 2 0A5 5 0 0 1 2 0S4 -1 4 0".toList = .ok commands := by cbv
  let doubles : List (Command Float) := commands.map (Command.map Scalar.ofDecimal)
  have read := holds _ _ (doubles.take 3) [] (.smoothCubic false _ _) listed rfl
  simp only [parse, ofData, listed, Except.ok.injEq] at read
  have drawn := congrArg (Path.same (ofCommands doubles)) read
  revert drawn
  decide +kernel

end Path
end EnvelopeWarp
