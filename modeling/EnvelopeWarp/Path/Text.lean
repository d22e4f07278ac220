import EnvelopeWarp.Path.Pen
import EnvelopeWarp.Path.Reader

/-! Path data as text. Any data can be read; what is written uses moves, cubic curves and closings
alone, all absolute. -/

namespace EnvelopeWarp
namespace Path
variable {α : Type}

def ofData [Scalar α] (data : List Char) : Except PathError (Path α) :=
  match PathData.commands data with
  | .ok commands => .ok (ofCommands (commands.map (Command.map Scalar.ofDecimal)))
  | .error error => .error error

def parse [Scalar α] (data : String) : Except PathError (Path α) :=
  ofData data.toList

/-- Texts with a space between each two. -/
def spaced : List (List Char) → List Char
  | [] => []
  | [text] => text
  | text :: rest => text ++ ' ' :: spaced rest

def writePoint (number : α → List Char) (p : Point α) : List Char :=
  number p.x ++ ',' :: number p.y

def writeCurve (number : α → List Char) (curve : Curve α) : List Char :=
  'C' :: ' ' :: spaced
    [writePoint number curve.first, writePoint number curve.second, writePoint number curve.finish]

/-- The commands of a subpath; one without nodes has none. -/
def writeSubpath (number : α → List Char) (subpath : Subpath α) : List (List Char) :=
  match subpath.nodes with
  | [] => []
  | first :: _ =>
    ('M' :: ' ' :: writePoint number first.anchor) :: subpath.curves.map (writeCurve number) ++
      if subpath.closed then [['Z']] else []

def write (number : α → List Char) (path : Path α) : List Char :=
  spaced (path.subpaths.flatMap (writeSubpath number))

/-- Drops the zeros at the end of a fraction, and the point with them if nothing is left. -/
def dropZeros (text : List Char) : List Char :=
  if text.contains '.' then
    ((text.reverse.dropWhile (· == '0')).dropWhile (· == '.')).reverse
  else text

/-- A coordinate in path data, with the fewest digits or with at most so many after the point. Zero
has no sign. -/
def coordinate (precision : Option Nat) (x : Float) : List Char :=
  let text := match precision with
    | some places => dropZeros ((Layout.fixed places).text x)
    | none => Layout.plain.text x
  if text = ['-', '0'] then ['0'] else text

def data (precision : Option Nat) (path : Path Float) : String :=
  String.ofList (path.write (coordinate precision))

end Path
end EnvelopeWarp
