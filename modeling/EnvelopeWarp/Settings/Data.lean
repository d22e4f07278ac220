import EnvelopeWarp.Data.Geometry
import EnvelopeWarp.Json.Reader
import EnvelopeWarp.Json.Writer
import EnvelopeWarp.Scalar.Double
import EnvelopeWarp.Settings.Basic
import EnvelopeWarp.Toml.Reader
import EnvelopeWarp.Toml.Writer

/-! Settings as data. Every section and every key may be left out. -/

namespace EnvelopeWarp

def BoundsSource.ofData? (format : Format) (data : Data) : Option BoundsSource :=
  (data.name? format).bind fun name => BoundsSource.all.find? fun source => source.name == name

def LogFormat.ofData? (format : Format) (data : Data) : Option LogFormat :=
  (data.name? format).bind fun name => LogFormat.all.find? fun known => known.name == name

def BoundsSettings.ofData? (format : Format) (data : Data) : Option BoundsSettings := do
  match ← data.fields? format ["source", "inkscape_program", "orientation", "fixed"] with
  | [source, program, orientation, fixed] =>
    return ⟨← Data.orKeep (BoundsSource.ofData? format) standard.source source,
      ← Data.orKeep Data.text? standard.program program,
      ← Data.orKeep (Orientation.ofData? format) standard.orientation orientation,
      ← Data.orKeep (Data.optional? (Box.ofData? format)) standard.fixed fixed⟩
  | _ => none

/-- The precision in the section about output. -/
def Settings.precisionOfData? (format : Format) (data : Data) : Option (Option Nat) := do
  match ← data.fields? format ["precision"] with
  | [precision] => Data.orKeep (Data.optional? Data.natural?) none precision
  | _ => none

def LogSettings.ofData? (format : Format) (data : Data) : Option LogSettings := do
  match ← data.fields? format ["format", "level"] with
  | [style, level] =>
    return ⟨← Data.orKeep (LogFormat.ofData? format) standard.format style,
      ← Data.orKeep Data.text? standard.level level⟩
  | _ => none

namespace Settings

def ofData? (format : Format) (data : Data) : Option Settings := do
  match ← data.fields? format ["bounds", "output", "logging"] with
  | [bounds, output, logging] =>
    return ⟨← Data.orKeep (BoundsSettings.ofData? format) .standard bounds,
      ← Data.orKeep (precisionOfData? format) none output,
      ← Data.orKeep (LogSettings.ofData? format) .standard logging⟩
  | _ => none

/-- The settings that a text holds. -/
def read? (format : Format) (text : String) : Option Settings :=
  match format with
  | .json => (Json.read? text.toList).bind (ofData? .json)
  | .toml => (Toml.read? text.toList).bind (ofData? .toml)

def data (settings : Settings) : Data :=
  .record [
    ("bounds", .record [
      ("source", .text settings.bounds.source.name),
      ("inkscape_program", .text settings.bounds.program),
      ("orientation", settings.bounds.orientation.data),
      ("fixed", match settings.bounds.fixed with
        | some box => box.data
        | none => .nothing)]),
    ("output", .record [
      ("precision", match settings.precision with
        | some precision => .whole precision
        | none => .nothing)]),
    ("logging", .record [
      ("format", .text settings.logging.format.name),
      ("level", .text settings.logging.level)])]

/-- The section of a fixed box. -/
def boxSection (box : Box Float) : Toml.Section :=
  ⟨"bounds.fixed", [("x", .real box.x), ("y", .real box.y), ("width", .real box.width),
    ("height", .real box.height)]⟩

/-- The settings as sections; what is not set has no entry. -/
def sections (settings : Settings) : List Toml.Section :=
  ⟨"bounds", [("source", .text settings.bounds.source.name),
    ("inkscape_program", .text settings.bounds.program),
    ("orientation", .text settings.bounds.orientation.name)]⟩ ::
  settings.bounds.fixed.toList.map boxSection ++
  [⟨"output", settings.precision.toList.map fun precision => ("precision", .natural precision)⟩,
    ⟨"logging", [("format", .text settings.logging.format.name), ("level", .text settings.logging.level)]⟩]

def write (format : Format) (settings : Settings) : String :=
  match format with
  | .json => String.ofList (Json.pretty 0 settings.data)
  | .toml => String.ofList (Toml.Section.writeAll settings.sections)

end Settings
end EnvelopeWarp
