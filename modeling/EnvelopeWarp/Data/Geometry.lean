import EnvelopeWarp.Data.Basic
import EnvelopeWarp.Geometry.Box
import EnvelopeWarp.Geometry.Quad
import EnvelopeWarp.Length

/-! Geometry and lengths as data. -/

namespace EnvelopeWarp

/-- Exactly the named fields, all of them there. -/
def Data.present? (format : Format) (names : List String) (data : Data) : Option (List Data) :=
  (data.fields? format names).bind fun values => values.mapM id

namespace Point

def ofData? (format : Format) (data : Data) : Option (Point Float) := do
  match ← data.present? format ["x", "y"] with
  | [x, y] => return ⟨← x.real?, ← y.real?⟩
  | _ => none

def data (p : Point Float) : Data :=
  .record [("x", .real p.x), ("y", .real p.y)]

end Point

namespace Segment

def ofData? (format : Format) (data : Data) : Option (Segment Float) := do
  match ← data.present? format ["start", "end"] with
  | [start, finish] => return ⟨← Point.ofData? format start, ← Point.ofData? format finish⟩
  | _ => none

def data (segment : Segment Float) : Data :=
  .record [("start", segment.start.data), ("end", segment.finish.data)]

end Segment

namespace Box

def ofData? (format : Format) (data : Data) : Option (Box Float) := do
  match ← data.present? format ["x", "y", "width", "height"] with
  | [x, y, width, height] => return ⟨← x.real?, ← y.real?, ← width.real?, ← height.real?⟩
  | _ => none

def data (box : Box Float) : Data :=
  .record [("x", .real box.x), ("y", .real box.y), ("width", .real box.width), ("height", .real box.height)]

end Box

namespace Quad

/-- Corners are a list of exactly four points. -/
def ofCorners? (format : Format) : Data → Option (Quad Float)
  | .list (a :: b :: c :: d :: rest) => do
    if Data.admits format ["", "", "", ""] (a :: b :: c :: d :: rest) then
      return ⟨← Point.ofData? format a, ← Point.ofData? format b, ← Point.ofData? format c,
        ← Point.ofData? format d⟩
    else none
  | _ => none

def ofData? (format : Format) (data : Data) : Option (Quad Float) := do
  match ← data.present? format ["corners"] with
  | [corners] => ofCorners? format corners
  | _ => none

def data (quad : Quad Float) : Data :=
  .record [("corners", .list (quad.corners.map Point.data))]

end Quad

namespace LengthUnit

/-- The name of a unit in data, where every unit has one. -/
def name : LengthUnit → String
  | user => "user"
  | unit => unit.suffix

def ofName? (name : String) : Option LengthUnit :=
  (user :: written).find? fun unit => unit.name == name

def ofData? (format : Format) (data : Data) : Option LengthUnit :=
  (data.name? format).bind ofName?

def data (unit : LengthUnit) : Data :=
  .text unit.name

end LengthUnit

namespace Length

def ofData? (format : Format) (data : Data) : Option (Length Float) := do
  match ← data.present? format ["value", "unit"] with
  | [value, unit] => return ⟨← value.real?, ← LengthUnit.ofData? format unit⟩
  | _ => none

def data (length : Length Float) : Data :=
  .record [("value", .real length.value), ("unit", length.unit.data)]

end Length

namespace Orientation

/-- Data holds the exact name. -/
def ofName? (name : String) : Option Orientation :=
  [topDown, bottomUp].find? fun orientation => orientation.name == name

def ofData? (format : Format) (data : Data) : Option Orientation :=
  (data.name? format).bind ofName?

def data (orientation : Orientation) : Data :=
  .text orientation.name

end Orientation
end EnvelopeWarp
