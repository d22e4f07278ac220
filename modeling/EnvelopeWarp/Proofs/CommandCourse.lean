import EnvelopeWarp.Path.Pen

/-! What commands mean to the command after them, told without a pen. A command sees the current point, the start of the
subpath and what the command before leaves to a smooth curve. A pen remembers no more than this from command to command,
whichever of its calls the commands come down to, so a command that says the same at the same point of the course may
take the place of another. -/

namespace EnvelopeWarp
variable {α : Type}

/-- What a command leaves to a smooth curve behind it. -/
inductive Lead (α : Type) where
  | free
  | cubic (second : Point α)
  | quadratic (control : Point α)

def Lead.cubic? : Lead α → Option (Point α)
  | .cubic second => some second
  | _ => none

def Lead.quadratic? : Lead α → Option (Point α)
  | .quadratic control => some control
  | _ => none

structure Course (α : Type) where
  current : Point α
  /-- The start of the subpath. -/
  start : Point α
  lead : Lead α

namespace Course
variable [Scalar α]

def blank : Course α :=
  ⟨Point.origin, Point.origin, .free⟩

/-- A relative point is an offset from the current one. -/
def place (course : Course α) (relative : Bool) (p : Point α) : Point α :=
  if relative then course.current + p else p

/-- A point seen through the current point. -/
def reflect (course : Course α) (control : Point α) : Point α :=
  course.current + (course.current - control)

/-- The first control point of a smooth cubic curve. -/
def firstControl (course : Course α) : Point α :=
  match course.lead with
  | .cubic second => course.reflect second
  | _ => course.current

/-- The control point of a smooth quadratic curve. -/
def control (course : Course α) : Point α :=
  match course.lead with
  | .quadratic control => course.reflect control
  | _ => course.current

/-- Where a command ends. -/
def finish (course : Course α) : Command α → Point α
  | .move relative p => course.place relative p
  | .line relative p => course.place relative p
  | .horizontal relative x => ⟨if relative then course.current.x + x else x, course.current.y⟩
  | .vertical relative y => ⟨course.current.x, if relative then course.current.y + y else y⟩
  | .cubic relative _ _ p => course.place relative p
  | .smoothCubic relative _ p => course.place relative p
  | .quadratic relative _ p => course.place relative p
  | .smoothQuadratic relative p => course.place relative p
  | .arc relative _ _ _ _ p => course.place relative p
  | .close => course.start

def leaves (course : Course α) : Command α → Lead α
  | .cubic relative _ second _ => .cubic (course.place relative second)
  | .smoothCubic relative second _ => .cubic (course.place relative second)
  | .quadratic relative control _ => .quadratic (course.place relative control)
  | .smoothQuadratic _ _ => .quadratic course.control
  | _ => .free

/-- The start of the subpath behind a command. -/
def opens (course : Course α) : Command α → Point α
  | .move relative p => course.place relative p
  | _ => course.start

/-- The course behind a command that ends where it says and leaves what curves of its kind leave. -/
def next (course : Course α) (command : Command α) : Course α :=
  ⟨course.finish command, course.opens command, course.leaves command⟩

/-- An arc to the current point. -/
def vanishes (course : Course α) : Command α → Bool
  | .arc relative _ _ _ _ p => course.current.same (course.place relative p)
  | _ => false

/-- The course behind a command; an arc to the current point counts as no command. -/
def after (course : Course α) (command : Command α) : Course α :=
  if course.vanishes command then course else course.next command

/-- A command stays at the current point or ends where it says. -/
theorem after_current (course : Course α) (command : Command α) : (course.after command).current = course.finish command ∨
    (course.after command).current = course.current ∧ course.current.same (course.finish command) = true := by
  cases command with
  | arc relative radii rotation large sweep p =>
    unfold after
    split
    · next vanished => exact .inr ⟨rfl, vanished⟩
    · exact .inl rfl
  | _ => exact .inl rfl

end Course

/-- An arc is drawn in pieces of which the last one ends where the arc does. -/
theorem Arc.pieces_end [Scalar α] {start finish radii : Point α} {rotation : α} {large sweep : Bool}
    {pieces : List (ArcPiece α)} (found : pieces? start finish radii rotation large sweep = some pieces) :
    ∃ before last, pieces = before ++ [last] ∧ last.finish = finish := by
  have ends (e : Ellipse α) (step reach : α) (count : Nat) (angle : α) :
      ∃ before last, piecesFrom e finish step reach (count + 1) angle = before ++ [last] ∧ last.finish = finish := by
    induction count generalizing angle with
    | zero => exact ⟨[], _, rfl, rfl⟩
    | succ count ih =>
      obtain ⟨before, last, split, there⟩ := ih (angle + step)
      exact ⟨_ :: before, last, by rw [piecesFrom, split]; rfl, there⟩
  obtain ⟨arc, _, rfl⟩ := Option.map_eq_some_iff.mp found
  have some_piece : 1 ≤ pieceCount arc.turn := Nat.le_max_left _ _
  unfold Sweep.pieces
  rw [← Nat.sub_add_cancel some_piece]
  exact ends _ _ _ _ _

namespace Pen

/-- The pen remembers the course; one that draws no subpath stands at the start of the last, with nothing behind it. -/
structure Keeps (pen : Pen α) (course : Course α) : Prop where
  current : pen.current = course.current
  start : pen.start = course.start
  cubicControl : pen.cubicControl = course.lead.cubic?
  quadraticControl : pen.quadraticControl = course.lead.quadratic?
  rests : pen.nodes = none → course.current = course.start ∧ course.lead = .free

variable {pen : Pen α} {course : Course α}

/-- Writing down a node and moving on: a pen that resumes starts its subpath where the last one did. -/
theorem keeps_advance (keeps : Keeps pen course) (outgoing handle p : Point α) (lead : Lead α) :
    Keeps { pen.resume.leave outgoing with
        current := p, handle := handle, cubicControl := lead.cubic?, quadraticControl := lead.quadratic? }
      ⟨p, course.start, lead⟩ := by
  refine ⟨rfl, ?_, rfl, rfl, ?_⟩
  · unfold leave resume
    cases drawing : pen.nodes with
    | some nodes => exact keeps.start
    | none => exact keeps.current.trans (keeps.rests drawing).1
  · intro none_drawn
    unfold leave resume at none_drawn
    cases drawing : pen.nodes <;> simp [drawing] at none_drawn

private theorem keeps_lineTo (keeps : Keeps pen course) (p : Point α) : Keeps (pen.lineTo p) ⟨p, course.start, .free⟩ :=
  keeps_advance keeps _ _ p .free

private theorem keeps_cubicTo (keeps : Keeps pen course) (first second p : Point α) :
    Keeps (pen.cubicTo first second p) ⟨p, course.start, .cubic second⟩ :=
  keeps_advance keeps _ _ p (.cubic second)

private theorem keeps_pieces (keeps : Keeps pen course) (pieces : List (ArcPiece α)) :
    ∃ between : Course α, Keeps (pieces.foldl drawPiece pen) between ∧ between.start = course.start := by
  induction pieces generalizing pen course with
  | nil => exact ⟨course, keeps, rfl⟩
  | cons piece pieces ih =>
    obtain ⟨between, kept, start⟩ := ih (keeps_cubicTo keeps piece.first piece.second piece.finish)
    exact ⟨between, kept, start⟩

variable [Scalar α]

theorem keeps_blank : Keeps (blank : Pen α) Course.blank :=
  ⟨rfl, rfl, rfl, rfl, fun _ => ⟨rfl, rfl⟩⟩

theorem Keeps.place (keeps : Keeps pen course) (relative : Bool) (p : Point α) :
    pen.place relative p = course.place relative p := by
  unfold Pen.place Course.place
  rw [keeps.current]

theorem Keeps.reflected_cubic (keeps : Keeps pen course) : pen.reflected pen.cubicControl = course.firstControl := by
  unfold reflected Course.firstControl Course.reflect
  rw [keeps.cubicControl, keeps.current]
  cases course.lead <;> rfl

theorem Keeps.reflected_quadratic (keeps : Keeps pen course) : pen.reflected pen.quadraticControl = course.control := by
  unfold reflected Course.control Course.reflect
  rw [keeps.quadraticControl, keeps.current]
  cases course.lead <;> rfl

private theorem keeps_quadraticTo (keeps : Keeps pen course) (control p : Point α) :
    Keeps (pen.quadraticTo control p) ⟨p, course.start, .quadratic control⟩ :=
  keeps_advance keeps _ _ p (.quadratic control)

/-- An arc that is drawn leaves nothing to a smooth curve. -/
theorem keeps_arcTo (keeps : Keeps pen course) {radii p : Point α} {rotation : α} {large sweep : Bool}
    (apart : pen.current.same p = false) : Keeps (pen.arcTo radii rotation large sweep p) ⟨p, course.start, .free⟩ := by
  have drawn {pen : Pen α} {lead : Lead α} (keeps : Keeps pen ⟨p, course.start, lead⟩)
      (plain : lead.quadratic? = none) : Keeps { pen with cubicControl := none } ⟨p, course.start, .free⟩ :=
    ⟨keeps.current, keeps.start, rfl, keeps.quadraticControl.trans plain, fun rests => ⟨(keeps.rests rests).1, rfl⟩⟩
  unfold arcTo
  rw [apart]
  cases found : Arc.pieces? pen.current p radii rotation large sweep with
  | some pieces =>
    obtain ⟨before, last, rfl, there⟩ := Arc.pieces_end found
    obtain ⟨between, kept, start⟩ := keeps_pieces keeps before
    have ended : Keeps ((before ++ [last]).foldl drawPiece pen) ⟨p, course.start, .cubic last.second⟩ := by
      rw [List.foldl_append, ← there, ← start]
      exact keeps_cubicTo kept last.first last.second last.finish
    exact drawn ended rfl
  | none => exact drawn (keeps_lineTo keeps p) rfl

private theorem keeps_close (keeps : Keeps pen course) : Keeps pen.close ⟨course.start, course.start, .free⟩ := by
  unfold close leave
  cases drawing : pen.nodes with
  | none =>
    obtain ⟨there, free⟩ := keeps.rests drawing
    obtain ⟨current, start, lead⟩ := course
    cases there
    cases free
    exact keeps
  | some nodes => exact ⟨keeps.start, keeps.start, rfl, rfl, fun _ => ⟨rfl, rfl⟩⟩

theorem keeps_draw (keeps : Keeps pen course) (command : Command α) : Keeps (pen.draw command) (course.after command) := by
  cases command with
  | move relative p =>
    rw [draw, keeps.place]
    exact ⟨rfl, rfl, rfl, rfl, nofun⟩
  | line relative p =>
    rw [draw, keeps.place]
    exact keeps_lineTo keeps _
  | horizontal relative x =>
    rw [draw, keeps.current]
    exact keeps_lineTo keeps _
  | vertical relative y =>
    rw [draw, keeps.current]
    exact keeps_lineTo keeps _
  | cubic relative first second p =>
    simp only [draw, keeps.place]
    exact keeps_cubicTo keeps _ _ _
  | smoothCubic relative second p =>
    simp only [draw, keeps.place]
    exact keeps_cubicTo keeps _ _ _
  | quadratic relative control p =>
    simp only [draw, keeps.place]
    exact keeps_quadraticTo keeps _ _
  | smoothQuadratic relative p =>
    simp only [draw, keeps.place, keeps.reflected_quadratic]
    exact keeps_quadraticTo keeps _ _
  | arc relative radii rotation large sweep p =>
    rw [draw, keeps.place]
    unfold Course.after
    split
    · next vanished =>
      have same : pen.current.same (course.place relative p) = true := keeps.current ▸ vanished
      rw [arcTo, if_pos same]
      exact keeps
    · next apart =>
      refine keeps_arcTo keeps ?_
      rw [keeps.current]
      exact Bool.eq_false_iff.mpr apart
  | close => exact keeps_close keeps

theorem keeps_commands (keeps : Keeps pen course) (commands : List (Command α)) :
    Keeps (commands.foldl draw pen) (commands.foldl Course.after course) := by
  induction commands generalizing pen course with
  | nil => exact keeps
  | cons command commands ih => exact ih (keeps_draw keeps command)

end Pen
end EnvelopeWarp
