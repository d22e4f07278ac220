import EnvelopeWarp.Decimal.Reading
import EnvelopeWarp.Pattern.Basic
import EnvelopeWarp.Text.Blank
import EnvelopeWarp.Text.Bytes
import EnvelopeWarp.Text.Digit
import EnvelopeWarp.Text.Match
import EnvelopeWarp.Text.Number

/-! Filters for the log: directives between commas. A directive names a level, or a target and a span
with its fields, and after an equals sign the level for these. Only whether a filter can be used
matters here. -/

namespace EnvelopeWarp
namespace Filter

/-- Why a filter cannot be used. -/
inductive Fault where
  | directive
  | level
  /-- The value of a field is no pattern. -/
  | field (refusal : Pattern.Refusal)
  /-- A part of a directive would begin or end within a character. -/
  | misaligned
deriving Repr, DecidableEq

namespace Fault

def levelMessage : String :=
  "error parsing level filter: expected one of \x22off\x22, \x22error\x22, \x22warn\x22, " ++
    "\x22info\x22, \x22debug\x22, \x22trace\x22, or a number 0-5"

/-- What lies behind a fault. -/
def causes : Fault → List String
  | directive => []
  | level => [levelMessage]
  | field refusal => refusal.causes
  | misaligned => []

def message : Fault → String
  | directive => "invalid filter directive"
  | level => levelMessage
  | field refusal => "invalid field filter: " ++ refusal.causes.headD ""
  | misaligned => "a part of the filter ends within a character"

end Fault

def levelNames : List String :=
  ["off", "error", "warn", "info", "debug", "trace"]

/-- The text after an equals sign is a level: a number, a name in any case, or nothing. -/
def isLevel (text : List Char) : Bool :=
  text.isEmpty || (Text.count? text).any (· ≤ 5) || levelNames.any fun name => Text.spells name text

/-- The value of a field is a number or a pattern. A name alone has no value, and what follows another
equals sign is not looked at. -/
def checkField (text : List Char) : Except Fault Unit :=
  match text.splitOn '=' with
  | _ :: value :: _ =>
    if (readDouble? value).isSome then .ok ()
    else
      match Pattern.check value with
      | .ok _ => .ok ()
      | .error refusal => .error (.field refusal)
  | _ => .ok ()

/-- The part of a directive that a character belongs to. Some parts are known by where they start. -/
inductive Part where
  | start
  | target
  | span (start : Nat)
  | field (start : Nat)
  | fields
  | afterSpan
  | level (start : Nat)
deriving Repr, DecidableEq

/-- A directive starts with a bracket, a letter or a number of any script, or one of three marks. -/
def startsTarget (c : Char) : Bool :=
  c == '-' || c == ':' || c == '_' || Text.isLetterOrNumber c

/-- The part of a directive between two places, which are counted in bytes. -/
def cut (start finish : Nat) (directive : List Char) : Except Fault (List Char) :=
  match Text.slice? start finish directive with
  | some part => .ok part
  | none => .error .misaligned

/-- The part that follows a character, which stands so many bytes into the directive. Parts are cut out
of the directive as soon as they are over. -/
def step (directive : List Char) (part : Part) (c : Char) (place : Nat) : Except Fault Part := do
  match part with
  | .start =>
    if c = '[' then return .span (place + 1)
    else if startsTarget c then return .target
    else throw .directive
  | .target =>
    if c = '=' then
      discard (cut 0 place directive)
      return .level (place + 1)
    else if c = '[' then
      discard (cut 0 place directive)
      return .span (place + 1)
    else return .target
  | .span start =>
    if c = ']' then
      discard (cut start place directive)
      return .afterSpan
    else if c = '\x7b' then
      discard (cut start place directive)
      return .field (place + 1)
    else return .span start
  | .field start =>
    if c = '\x7d' then
      let field ← cut start place directive
      if field.isEmpty then throw .directive
      checkField field
      return .fields
    else return .field start
  | .fields => if c = ']' then return .afterSpan else throw .directive
  | .afterSpan => if c = '=' then return .level (place + 1) else throw .directive
  | .level start => return .level start

def scan (directive : List Char) : Part → Nat → List Char → Except Fault Part
  | part, _, [] => .ok part
  | part, place, c :: rest => do
    scan directive (← step directive part c place) (place + c.utf8Size) rest

/-- The places of parts are counted without the blanks around a directive, but the parts are cut out of
the directive as it is written. -/
def checkDirective (text : List Char) : Except Fault Unit := do
  match ← scan text .start 0 (Text.trim text) with
  | .target => return ()
  | .afterSpan => return ()
  | .level start =>
    match Text.sliceFrom? start text with
    | none => throw .misaligned
    | some level => if isLevel level then return () else throw .level
  | _ => throw .directive

/-- The texts between commas that are not empty. -/
def directives (text : List Char) : List (List Char) :=
  (text.splitOn ',').filter fun part => !part.isEmpty

def check (text : String) : Except Fault Unit :=
  (directives text.toList).forM checkDirective

/-- The filter of the environment if it can be used, otherwise that of the settings. There is no
otherwise if a part of the filter cannot even be cut out. -/
def choose (environment : Option String) (level : String) : Except Fault Unit :=
  match environment.map check with
  | some (.ok _) => .ok ()
  | some (.error .misaligned) => .error .misaligned
  | _ => check level

end Filter
end EnvelopeWarp
