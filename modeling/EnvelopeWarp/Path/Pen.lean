import EnvelopeWarp.Path.Arc
import EnvelopeWarp.Path.Basic
import EnvelopeWarp.Path.Command

/-! Drawing commands into nodes. A node is complete only when the curve that leaves its anchor is
known, so the pen keeps the anchor it stands on and the handle that leads there, and writes the
node down with the next curve. -/

namespace EnvelopeWarp

structure Pen (α : Type) where
  finished : List (Subpath α)
  /-- The nodes written down so far of the subpath that is being drawn. -/
  nodes : Option (List (Node α))
  start : Point α
  current : Point α
  /-- The handle that leads into the current point. -/
  handle : Point α
  /-- The second control point of the curve before, for a smooth cubic. -/
  cubicControl : Option (Point α)
  /-- The control point of the curve before, for a smooth quadratic. -/
  quadraticControl : Option (Point α)

namespace Pen
variable {α : Type} [Scalar α]

def blank : Pen α :=
  ⟨[], none, Point.origin, Point.origin, Point.origin, none, none⟩

/-- Writes down the node at the current point. -/
def leave (pen : Pen α) (outgoing : Point α) : Pen α :=
  { pen with nodes := pen.nodes.map (· ++ [⟨pen.handle, pen.current, outgoing⟩]) }

/-- Ends the subpath that is being drawn with its last anchor. -/
def flush (pen : Pen α) : Pen α :=
  match (pen.leave pen.current).nodes with
  | none => pen
  | some nodes => { pen with finished := pen.finished ++ [⟨nodes, false⟩], nodes := none }

def moveTo (pen : Pen α) (p : Point α) : Pen α :=
  { finished := pen.flush.finished
    nodes := some []
    start := p
    current := p
    handle := p
    cubicControl := none
    quadraticControl := none }

/-- Drawing after a subpath was closed starts a new one where it was closed. -/
def resume (pen : Pen α) : Pen α :=
  match pen.nodes with
  | some _ => pen
  | none => { pen with nodes := some [], start := pen.current, handle := pen.current }

def lineTo (pen : Pen α) (p : Point α) : Pen α :=
  let resumed := pen.resume
  { resumed.leave resumed.current with
    current := p
    handle := p
    cubicControl := none
    quadraticControl := none }

def cubicTo (pen : Pen α) (first second p : Point α) : Pen α :=
  { pen.resume.leave first with
    current := p
    handle := second
    cubicControl := some second
    quadraticControl := none }

/-- A point two thirds of the way to the control point of a quadratic curve. -/
def raised (p control : Point α) : Point α :=
  p + (control - p).scale (Scalar.two / Scalar.three)

def quadraticTo (pen : Pen α) (control p : Point α) : Pen α :=
  { pen.cubicTo (raised pen.current control) (raised p control) p with
    cubicControl := none
    quadraticControl := some control }

/-- The control point before seen through the current point, or the current point when there is none. -/
def reflected (pen : Pen α) : Option (Point α) → Point α
  | some control => pen.current + (pen.current - control)
  | none => pen.current

def drawPiece (pen : Pen α) (piece : ArcPiece α) : Pen α :=
  pen.cubicTo piece.first piece.second piece.finish

/-- An arc to the current point draws nothing. -/
def arcTo (pen : Pen α) (radii : Point α) (rotation : α) (large sweep : Bool) (p : Point α) : Pen α :=
  if pen.current.same p then pen
  else
    let drawn := match Arc.pieces? pen.current p radii rotation large sweep with
      | some pieces => pieces.foldl drawPiece pen
      | none => pen.lineTo p
    { drawn with cubicControl := none }

/-- Closes the subpath that is being drawn, with a node at its start unless the pen is there. -/
def close (pen : Pen α) : Pen α :=
  match (pen.leave pen.current).nodes with
  | none => pen
  | some nodes =>
    let closing := if pen.current.same pen.start then [] else [Node.corner pen.start]
    { finished := pen.finished ++ [⟨nodes ++ closing, true⟩]
      nodes := none
      start := pen.start
      current := pen.start
      handle := pen.start
      cubicControl := none
      quadraticControl := none }

def place (pen : Pen α) (relative : Bool) (p : Point α) : Point α :=
  if relative then pen.current + p else p

def draw (pen : Pen α) : Command α → Pen α
  | .move relative p => pen.moveTo (pen.place relative p)
  | .line relative p => pen.lineTo (pen.place relative p)
  | .horizontal relative x => pen.lineTo ⟨if relative then pen.current.x + x else x, pen.current.y⟩
  | .vertical relative y => pen.lineTo ⟨pen.current.x, if relative then pen.current.y + y else y⟩
  | .cubic relative first second p =>
    pen.cubicTo (pen.place relative first) (pen.place relative second) (pen.place relative p)
  | .smoothCubic relative second p =>
    pen.cubicTo (pen.reflected pen.cubicControl) (pen.place relative second) (pen.place relative p)
  | .quadratic relative control p => pen.quadraticTo (pen.place relative control) (pen.place relative p)
  | .smoothQuadratic relative p =>
    pen.quadraticTo (pen.reflected pen.quadraticControl) (pen.place relative p)
  | .arc relative radii rotation large sweep p =>
    pen.arcTo radii rotation large sweep (pen.place relative p)
  | .close => pen.close

end Pen

namespace Path
variable {α : Type} [Scalar α]

/-- The path that a list of commands draws. -/
def ofCommands (commands : List (Command α)) : Path α :=
  ⟨(commands.foldl Pen.draw Pen.blank).flush.finished⟩

end Path
end EnvelopeWarp
