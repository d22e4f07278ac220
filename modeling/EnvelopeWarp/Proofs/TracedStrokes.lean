import Mathlib.Data.List.Forall2
import EnvelopeWarp.Path.Pen

/-! What a pen draws, told without nodes. A plain account of the strokes adds to an open figure one curve after the
other, each from where the pen stands. A pen writes a node down only when the next curve is known, but the curves
between its nodes are those of the account, figure by figure, whatever strokes follow each other. -/

namespace EnvelopeWarp
variable {α : Type}

/-- A call for a pen. All points are absolute. -/
inductive Stroke (α : Type) where
  | move (p : Point α)
  | line (p : Point α)
  | cubic (first second p : Point α)
  | quadratic (control p : Point α)
  | arc (radii : Point α) (rotation : α) (large sweep : Bool) (p : Point α)
  | close

/-- Curves that were drawn one after the other. -/
structure Figure (α : Type) where
  start : Point α
  curves : List (Curve α)
  closed : Bool

/-- The figures that were ended, the one that is open and where the pen stands. -/
structure Account (α : Type) where
  ended : List (Figure α)
  figure : Option (Figure α)
  place : Point α

namespace Account

/-- Without an open figure a curve starts one where the pen stands. -/
def curveTo (account : Account α) (first second p : Point α) : Account α :=
  let figure := account.figure.getD ⟨account.place, [], false⟩
  { account with
    figure := some { figure with curves := figure.curves ++ [⟨account.place, first, second, p⟩] }
    place := p }

def lineTo (account : Account α) (p : Point α) : Account α :=
  account.curveTo account.place p p

def figures (account : Account α) : List (Figure α) :=
  account.ended ++ account.figure.toList

variable [Scalar α]

def blank : Account α :=
  ⟨[], none, Point.origin⟩

/-- A quadratic curve is raised to a cubic one, whose control points lie two thirds of the way to its own. -/
def quadraticTo (account : Account α) (control p : Point α) : Account α :=
  let part : α := Scalar.two / Scalar.three
  account.curveTo (account.place + (control - account.place).scale part) (p + (control - p).scale part) p

/-- An arc is drawn by its pieces, or as a line when it has none; one to where the pen stands is not drawn. -/
def arcTo (account : Account α) (radii : Point α) (rotation : α) (large sweep : Bool) (p : Point α) : Account α :=
  if account.place.same p then account
  else
    match Arc.pieces? account.place p radii rotation large sweep with
    | some pieces => pieces.foldl (fun drawn piece => drawn.curveTo piece.first piece.second piece.finish) account
    | none => account.lineTo p

/-- A figure is closed by a line to its start, unless the pen stands there. -/
def close (account : Account α) : Account α :=
  match account.figure with
  | none => account
  | some figure =>
    let closing := if account.place.same figure.start then [] else [⟨account.place, account.place, figure.start, figure.start⟩]
    ⟨account.ended ++ [⟨figure.start, figure.curves ++ closing, true⟩], none, figure.start⟩

def stroke (account : Account α) : Stroke α → Account α
  | .move p => ⟨account.figures, some ⟨p, [], false⟩, p⟩
  | .line p => account.lineTo p
  | .cubic first second p => account.curveTo first second p
  | .quadratic control p => account.quadraticTo control p
  | .arc radii rotation large sweep p => account.arcTo radii rotation large sweep p
  | .close => account.close

end Account

/-- The figures that strokes draw. -/
def Figure.ofStrokes [Scalar α] (strokes : List (Stroke α)) : List (Figure α) :=
  (strokes.foldl Account.stroke Account.blank).figures

namespace Pen
variable [Scalar α]

def stroke (pen : Pen α) : Stroke α → Pen α
  | .move p => pen.moveTo p
  | .line p => pen.lineTo p
  | .cubic first second p => pen.cubicTo first second p
  | .quadratic control p => pen.quadraticTo control p
  | .arc radii rotation large sweep p => pen.arcTo radii rotation large sweep p
  | .close => pen.close

/-- The stroke that a command asks for where the pen stands. -/
def strokeOf (pen : Pen α) : Command α → Stroke α
  | .move relative p => .move (pen.place relative p)
  | .line relative p => .line (pen.place relative p)
  | .horizontal relative x => .line ⟨if relative then pen.current.x + x else x, pen.current.y⟩
  | .vertical relative y => .line ⟨pen.current.x, if relative then pen.current.y + y else y⟩
  | .cubic relative first second p =>
    .cubic (pen.place relative first) (pen.place relative second) (pen.place relative p)
  | .smoothCubic relative second p =>
    .cubic (pen.reflected pen.cubicControl) (pen.place relative second) (pen.place relative p)
  | .quadratic relative control p => .quadratic (pen.place relative control) (pen.place relative p)
  | .smoothQuadratic relative p => .quadratic (pen.reflected pen.quadraticControl) (pen.place relative p)
  | .arc relative radii rotation large sweep p => .arc radii rotation large sweep (pen.place relative p)
  | .close => .close

private theorem draw_eq_stroke (pen : Pen α) (command : Command α) :
    pen.draw command = pen.stroke (pen.strokeOf command) := by
  cases command <;> rfl

def strokes (pen : Pen α) : List (Command α) → List (Stroke α)
  | [] => []
  | command :: commands => pen.strokeOf command :: (pen.draw command).strokes commands

private theorem foldl_draw_eq (pen : Pen α) (commands : List (Command α)) :
    commands.foldl draw pen = (pen.strokes commands).foldl stroke pen := by
  induction commands generalizing pen with
  | nil => rfl
  | cons command commands ih =>
    rw [List.foldl_cons, ih, strokes, List.foldl_cons, ← draw_eq_stroke]

end Pen

/-- The path that strokes draw. -/
def Path.ofStrokes [Scalar α] (strokes : List (Stroke α)) : Path α :=
  ⟨(strokes.foldl Pen.stroke Pen.blank).flush.finished⟩

theorem Path.ofCommands_eq_ofStrokes [Scalar α] (commands : List (Command α)) :
    ofCommands commands = ofStrokes (Pen.blank.strokes commands) := by
  rw [ofCommands, Pen.foldl_draw_eq]
  rfl

/-- Nodes have these curves between them and nothing else, from this start on. -/
structure Outlines (nodes : List (Node α)) (start : Point α) (curves : List (Curve α)) : Prop where
  start : nodes.head?.map Node.anchor = some start
  curves : Subpath.curvesOf nodes = curves

structure Figure.Traces (figure : Figure α) (subpath : Subpath α) : Prop where
  outlines : Outlines subpath.nodes figure.start figure.curves
  closed : subpath.closed = figure.closed

theorem Subpath.curvesOf_concat (nodes : List (Node α)) (a b : Node α) :
    curvesOf (nodes ++ [a] ++ [b]) = curvesOf (nodes ++ [a]) ++ [⟨a.anchor, a.outgoing, b.incoming, b.anchor⟩] := by
  induction nodes with
  | nil => rfl
  | cons first rest ih =>
    cases rest with
    | nil => rfl
    | cons second rest => exact congrArg (List.cons _) ih

theorem Outlines.concat {nodes : List (Node α)} {a : Node α} {start : Point α} {curves : List (Curve α)}
    (outlines : Outlines (nodes ++ [a]) start curves) (b : Node α) :
    Outlines (nodes ++ [a] ++ [b]) start (curves ++ [⟨a.anchor, a.outgoing, b.incoming, b.anchor⟩]) := by
  refine ⟨?_, by rw [Subpath.curvesOf_concat, outlines.curves]⟩
  rw [List.head?_append_of_ne_nil _ (List.append_ne_nil_of_right_ne_nil _ (List.cons_ne_nil _ _))]
  exact outlines.start

namespace Pen

/-- The nodes written down outline an open figure once a node at the current point is added, whatever leaves it. -/
structure Opened (start handle current : Point α) (figure : Figure α) (nodes : List (Node α)) : Prop where
  unclosed : figure.closed = false
  start : figure.start = start
  outlines : ∀ outgoing, Outlines (nodes ++ [⟨handle, current, outgoing⟩]) figure.start figure.curves

structure Follows (pen : Pen α) (account : Account α) : Prop where
  ended : List.Forall₂ Figure.Traces account.ended pen.finished
  place : account.place = pen.current
  figure : (account.figure = none ∧ pen.nodes = none) ∨ ∃ figure nodes,
    account.figure = some figure ∧ pen.nodes = some nodes ∧ Opened pen.start pen.handle pen.current figure nodes

/-- A pen that resumes has an open figure, which starts where the pen stands if there was none. -/
theorem opened_resume {pen : Pen α} {account : Account α} (follows : Follows pen account) :
    ∃ nodes, pen.resume.nodes = some nodes ∧
      Opened pen.resume.start pen.resume.handle pen.resume.current (account.figure.getD ⟨account.place, [], false⟩) nodes ∧
      pen.resume.finished = pen.finished ∧ pen.resume.current = pen.current := by
  unfold resume
  rcases follows.figure with ⟨figure, drawing⟩ | ⟨drawn, nodes, figure, drawing, opened⟩
  · simp only [figure, drawing]
    exact ⟨[], rfl, ⟨rfl, follows.place, fun outgoing => ⟨congrArg some follows.place.symm, rfl⟩⟩, trivial, trivial⟩
  · simp only [figure, drawing]
    exact ⟨nodes, rfl, opened, trivial, trivial⟩

/-- Every curve is drawn in this way, whatever it leaves behind for the smooth curves after it. -/
theorem follows_curveTo {pen : Pen α} {account : Account α} (follows : Follows pen account) (first second p : Point α)
    (cubicControl quadraticControl : Option (Point α)) :
    Follows { pen.resume.leave first with
        current := p, handle := second, cubicControl := cubicControl, quadraticControl := quadraticControl }
      (account.curveTo first second p) := by
  obtain ⟨nodes, drawing, opened, finished, current⟩ := opened_resume follows
  have longer (outgoing : Point α) := (opened.outlines first).concat ⟨second, p, outgoing⟩
  simp only [current, ← follows.place] at longer
  refine ⟨?_, rfl, ?_⟩
  · simp only [leave, finished]
    exact follows.ended
  · simp only [leave, drawing, current, ← follows.place]
    exact .inr ⟨_, _, rfl, rfl, opened.unclosed, opened.start, longer⟩

private theorem follows_lineTo {pen : Pen α} {account : Account α} (follows : Follows pen account) (p : Point α) :
    Follows (pen.lineTo p) (account.lineTo p) := by
  have resumed : pen.resume.current = account.place := by
    obtain ⟨_, _, _, _, current⟩ := opened_resume follows
    exact current.trans follows.place.symm
  simp only [lineTo, Account.lineTo, resumed]
  exact follows_curveTo follows _ _ _ _ _

private theorem follows_cubicTo {pen : Pen α} {account : Account α} (follows : Follows pen account)
    (first second p : Point α) : Follows (pen.cubicTo first second p) (account.curveTo first second p) :=
  follows_curveTo follows _ _ _ _ _

private theorem follows_pieces {pen : Pen α} {account : Account α} (follows : Follows pen account)
    (pieces : List (ArcPiece α)) : Follows (pieces.foldl drawPiece pen)
      (pieces.foldl (fun drawn piece => drawn.curveTo piece.first piece.second piece.finish) account) := by
  induction pieces generalizing pen account with
  | nil => exact follows
  | cons piece pieces ih => exact ih (follows_cubicTo follows _ _ _)

/-- What a pen leaves when it is lifted is what the account ends with. -/
theorem follows_flush {pen : Pen α} {account : Account α} (follows : Follows pen account) :
    List.Forall₂ Figure.Traces account.figures pen.flush.finished := by
  unfold flush leave Account.figures
  rcases follows.figure with ⟨figure, drawing⟩ | ⟨drawn, nodes, figure, drawing, opened⟩
  · simpa only [figure, drawing, Option.map_none, Option.toList_none, List.append_nil] using follows.ended
  · simp only [figure, drawing, Option.map_some, Option.toList_some]
    exact List.rel_append follows.ended (.cons ⟨opened.outlines pen.current, opened.unclosed.symm⟩ .nil)

private theorem follows_moveTo {pen : Pen α} {account : Account α} (follows : Follows pen account) (p : Point α) :
    Follows (pen.moveTo p) ⟨account.figures, some ⟨p, [], false⟩, p⟩ :=
  ⟨follows_flush follows, rfl, .inr ⟨_, _, rfl, rfl, rfl, rfl, fun _ => ⟨rfl, rfl⟩⟩⟩

variable [Scalar α]

private theorem follows_quadraticTo {pen : Pen α} {account : Account α} (follows : Follows pen account)
    (control p : Point α) : Follows (pen.quadraticTo control p) (account.quadraticTo control p) := by
  unfold quadraticTo Account.quadraticTo raised
  rw [follows.place]
  exact follows_curveTo follows _ _ _ _ _

private theorem follows_arcTo {pen : Pen α} {account : Account α} (follows : Follows pen account) (radii : Point α)
    (rotation : α) (large sweep : Bool) (p : Point α) :
    Follows (pen.arcTo radii rotation large sweep p) (account.arcTo radii rotation large sweep p) := by
  unfold arcTo Account.arcTo
  rw [follows.place]
  split
  · exact follows
  · have drawn {pen : Pen α} {account : Account α} (follows : Follows pen account) :
        Follows { pen with cubicControl := none } account :=
      ⟨follows.ended, follows.place, follows.figure⟩
    apply drawn
    cases Arc.pieces? pen.current p radii rotation large sweep with
    | some pieces => exact follows_pieces follows pieces
    | none => exact follows_lineTo follows p

private theorem follows_close {pen : Pen α} {account : Account α} (follows : Follows pen account) :
    Follows pen.close account.close := by
  unfold close leave Account.close
  rcases follows.figure with ⟨figure, drawing⟩ | ⟨drawn, nodes, figure, drawing, opened⟩
  · simpa only [figure, drawing, Option.map_none] using follows
  · simp only [figure, drawing, Option.map_some, follows.place, opened.start]
    refine ⟨List.rel_append follows.ended (.cons ⟨?_, rfl⟩ .nil), rfl, .inl ⟨rfl, rfl⟩⟩
    have outlines := opened.outlines pen.current
    rw [opened.start] at outlines
    split
    · simpa only [List.append_nil] using outlines
    · exact outlines.concat (Node.corner pen.start)

private theorem follows_stroke {pen : Pen α} {account : Account α} (follows : Follows pen account) (stroke : Stroke α) :
    Follows (pen.stroke stroke) (account.stroke stroke) := by
  cases stroke with
  | move p => exact follows_moveTo follows p
  | line p => exact follows_lineTo follows p
  | cubic first second p => exact follows_cubicTo follows first second p
  | quadratic control p => exact follows_quadraticTo follows control p
  | arc radii rotation large sweep p => exact follows_arcTo follows radii rotation large sweep p
  | close => exact follows_close follows

private theorem follows_strokes {pen : Pen α} {account : Account α} (follows : Follows pen account)
    (strokes : List (Stroke α)) : Follows (strokes.foldl stroke pen) (strokes.foldl Account.stroke account) := by
  induction strokes generalizing pen account with
  | nil => exact follows
  | cons stroke strokes ih => exact ih (follows_stroke follows stroke)

private theorem follows_blank : Follows (blank : Pen α) Account.blank :=
  ⟨.nil, rfl, .inl ⟨rfl, rfl⟩⟩

end Pen

/-- The curves between the nodes of a path are those of its figures, in the same order, whatever strokes drew it; and
whatever commands draw a path, it is drawn by the strokes that they ask for one after the other. -/
theorem Path.traces_strokes [Scalar α] :
    (∀ strokes : List (Stroke α), List.Forall₂ Figure.Traces (Figure.ofStrokes strokes) (ofStrokes strokes).subpaths) ∧
      ∀ commands : List (Command α), ofCommands commands = ofStrokes (Pen.blank.strokes commands) :=
  ⟨fun strokes => Pen.follows_flush (Pen.follows_strokes Pen.follows_blank strokes), ofCommands_eq_ofStrokes⟩

end EnvelopeWarp
