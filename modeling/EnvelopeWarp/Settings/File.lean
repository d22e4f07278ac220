import EnvelopeWarp.Host.Basic
import EnvelopeWarp.Settings.Data

/-! Settings files. The extension of a file tells how it is written. Settings are checked before they
are stored and after they are loaded. -/

namespace EnvelopeWarp

inductive SettingsError where
  | unreadable (path : String) (error : SystemError)
  | unwritable (path : String) (error : SystemError)
  /-- The extension of the file is not known; the file was to be loaded or to be saved. -/
  | unknownFormat (saving : Bool)
  | invalid (fault : SettingFault)
  | malformed (format : Format)
  | system (error : SystemError)
deriving Repr, DecidableEq

namespace SettingsError

def formatReason : String :=
  "Config file must be .json or .toml"

def message : SettingsError → String
  | unreadable path error => "Failed to load settings: Failed to read " ++ path ++ ": " ++ error.message
  | unwritable path error => "Failed to save settings: Failed to write " ++ path ++ ": " ++ error.message
  | unknownFormat false => "Failed to load settings: " ++ formatReason
  | unknownFormat true => "Failed to save settings: " ++ formatReason
  | invalid fault => fault.message
  | malformed .json => "JSON error: the text is no such data"
  | malformed .toml => "TOML error: the text is no such data"
  | system error => "I/O error: " ++ error.message

/-- What lies behind an error. -/
def causes : SettingsError → List String
  | malformed _ => ["the text is no such data"]
  | system error => [error.message]
  | _ => []

end SettingsError

namespace Settings

def formatOf? (path : String) : Option Format :=
  match FileName.extension? path with
  | some "json" => some .json
  | some "toml" => some .toml
  | _ => none

def checked (settings : Settings) : Except SettingsError Settings :=
  match settings.validate with
  | .ok _ => .ok settings
  | .error fault => .error (.invalid fault)

/-- The settings in a text, which was found in a file. -/
def ofFile (path text : String) : Except SettingsError Settings :=
  match formatOf? path with
  | none => .error (.unknownFormat false)
  | some format =>
    match read? format text with
    | none => .error (.malformed format)
    | some settings => settings.checked

/-- The text that a file is to hold. -/
def toFile (path : String) (settings : Settings) : Except SettingsError String := do
  let settings ← settings.checked
  match formatOf? path with
  | none => throw (.unknownFormat true)
  | some format => return settings.write format

variable {m : Type → Type} [Monad m] [Host m]

def load (path : String) : m (Except SettingsError Settings) := do
  match ← Host.readText path with
  | .error error => return .error (.unreadable path error)
  | .ok text => return ofFile path text

/-- Directories on the way to the file are made. -/
def save (settings : Settings) (path : String) : m (Except SettingsError Unit) :=
  match settings.toFile path with
  | .error error => pure (.error error)
  | .ok text => do
    match ← Host.createDirectories (FileName.parent path) with
    | .error error => return .error (.system error)
    | .ok _ =>
      match ← Host.writeText path text with
      | .error error => return .error (.unwritable path error)
      | .ok _ => return .ok ()

/-- Where the settings of a user are, given the directory for settings and the home directory. -/
def userFile? (settingsHome home : Option String) : Option String :=
  let directory := match settingsHome.filter fun path => path.startsWith "/" with
    | some path => some path
    | none => (home.filter fun path => path != "").map fun path => path ++ "/.config"
  directory.map fun path => path ++ "/quadwarp/config.toml"

/-- The settings of the user, if there are any; otherwise the standard ones. -/
def loadUser : m (Except SettingsError Settings) := do
  match userFile? (← Host.environment? "XDG_CONFIG_HOME") (← Host.environment? "HOME") with
  | none => return .ok standard
  | some path => if ← Host.isFile path then load path else return .ok standard

end Settings
end EnvelopeWarp
