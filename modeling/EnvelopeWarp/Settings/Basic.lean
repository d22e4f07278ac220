import EnvelopeWarp.Geometry.Box
import EnvelopeWarp.Scalar.Double
import EnvelopeWarp.Text.Blank

/-! What a user can set: where boxes come from, how many digits are written and how events are
logged. -/

namespace EnvelopeWarp

/-- Where the box of an object comes from. -/
inductive BoundsSource where
  | geometry
  | inkscape
  | fixed
deriving Repr, DecidableEq

namespace BoundsSource

def all : List BoundsSource :=
  [geometry, inkscape, fixed]

def name : BoundsSource → String
  | geometry => "geometry"
  | inkscape => "inkscape"
  | fixed => "fixed"

/-- The source with a name in any case. -/
def parse? (text : String) : Option BoundsSource :=
  all.find? fun source => Text.names source.name text

def unknownMessage (text : String) : String :=
  "Unknown bounds source '" ++ text ++ "' (expected geometry, inkscape or fixed)"

end BoundsSource

inductive LogFormat where
  | pretty
  | json
deriving Repr, DecidableEq

namespace LogFormat

def all : List LogFormat :=
  [pretty, json]

def name : LogFormat → String
  | pretty => "pretty"
  | json => "json"

/-- The format with a name in any case. -/
def parse? (text : String) : Option LogFormat :=
  all.find? fun format => Text.names format.name text

def unknownMessage (text : String) : String :=
  "Unknown log format '" ++ text ++ "' (expected pretty or json)"

end LogFormat

structure BoundsSettings where
  source : BoundsSource
  /-- The program that is asked for boxes. -/
  program : String
  /-- The frame that the program measures in. -/
  orientation : Orientation
  /-- The box that every object is taken to have, in the frame of the drawing. -/
  fixed : Option (Box Float)

def BoundsSettings.standard : BoundsSettings :=
  ⟨.geometry, "inkscape", .bottomUp, none⟩

structure LogSettings where
  format : LogFormat
  /-- The filter that is used when the environment has none. -/
  level : String
deriving Repr, DecidableEq

def LogSettings.standard : LogSettings :=
  ⟨.pretty, "info"⟩

structure Settings where
  bounds : BoundsSettings
  /-- Digits after the point in what is written; without it there are as many as needed. -/
  precision : Option Nat
  logging : LogSettings

/-- A setting that cannot be used, and why. -/
structure SettingFault where
  key : String
  reason : String
deriving Repr, DecidableEq

def SettingFault.message (fault : SettingFault) : String :=
  "Invalid setting '" ++ fault.key ++ "': " ++ fault.reason

namespace Settings

def standard : Settings :=
  ⟨.standard, none, .standard⟩

/-- More digits than this do not tell any two doubles apart. -/
def maxPrecision : Nat := 17

/-- The text has something else than blanks. -/
def nonBlank (text : String) : Bool :=
  !(Text.trim text.toList).isEmpty

def checkProgram (settings : Settings) : Except SettingFault Unit :=
  if nonBlank settings.bounds.program then .ok ()
  else .error ⟨"bounds.inkscape_program", "must not be empty"⟩

/-- A fixed box must be usable even when it is not used. -/
def checkFixed (settings : Settings) : Except SettingFault Unit :=
  match settings.bounds.fixed with
  | none =>
    if settings.bounds.source = .fixed then
      .error ⟨"bounds.fixed", "required when bounds.source is 'fixed'"⟩
    else .ok ()
  | some box =>
    match box.validate with
    | .ok _ => .ok ()
    | .error error => .error ⟨"bounds.fixed", error.message⟩

def checkPrecision (settings : Settings) : Except SettingFault Unit :=
  match settings.precision with
  | none => .ok ()
  | some precision =>
    if precision ≤ maxPrecision then .ok ()
    else .error ⟨"output.precision", "must be at most " ++ toString maxPrecision⟩

def checkLevel (settings : Settings) : Except SettingFault Unit :=
  if nonBlank settings.logging.level then .ok () else .error ⟨"logging.level", "must not be empty"⟩

/-- The first fault, in the order in which settings are listed. -/
def validate (settings : Settings) : Except SettingFault Unit := do
  settings.checkProgram
  settings.checkFixed
  settings.checkPrecision
  settings.checkLevel

end Settings
end EnvelopeWarp
