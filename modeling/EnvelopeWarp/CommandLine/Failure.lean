import EnvelopeWarp.CommandLine.Filter
import EnvelopeWarp.Envelope.Error
import EnvelopeWarp.Settings.File

/-! Why the program fails, and how it says so: the error, and below it what lies behind it. -/

namespace EnvelopeWarp

inductive Failure where
  /-- The settings file that was asked for cannot be used. -/
  | config (path : String) (error : SettingsError)
  | settings (error : SettingsError)
  | filter (fault : Filter.Fault)
  | read (path : String) (error : DrawingError)
  | measure (error : MeasureError)
  | envelope (error : EnvelopeError Float)
  | render (error : DrawingError)
  | write (path : String) (error : SystemError)

namespace Failure

def message : Failure → String
  | config path _ => "Failed to load config " ++ path
  | settings error => error.message
  | filter fault => fault.message
  | read path _ => "Failed to read " ++ path
  | measure error => error.message
  | envelope error => error.message
  | render error => error.message
  | write path _ => "Failed to write " ++ path

/-- What lies behind a failure, the nearest first. -/
def causes : Failure → List String
  | config _ error => error.message :: error.causes
  | settings error => error.causes
  | filter fault => fault.causes
  | read _ error => error.message :: error.causes
  | measure error => error.causes
  | envelope error => error.causes
  | render error => error.causes
  | write _ error => [error.message]

/-- A cause behind its margin; further lines are as far in as the first. -/
def indented (margin : String) (text : String) : String :=
  margin ++ ("\n" ++ String.ofList (List.replicate margin.length ' ')).intercalate (text.splitOn "\n")

/-- The margin of a numbered cause: the number ends in the sixth column. -/
def numberMargin (number : Nat) : String :=
  let digits := toString number
  String.ofList (List.replicate (5 - digits.length) ' ') ++ digits ++ ": "

def numberedCauses (number : Nat) : List String → List String
  | [] => []
  | cause :: rest => indented (numberMargin number) cause :: numberedCauses (number + 1) rest

/-- Several causes are numbered. -/
def causesText : List String → String
  | [] => ""
  | [cause] => "\n\nCaused by:\n" ++ indented "    " cause
  | causes => "\n\nCaused by:\n" ++ "\n".intercalate (numberedCauses 0 causes)

def report (failure : Failure) : String :=
  "Error: " ++ failure.message ++ causesText failure.causes ++ "\n"

end Failure
end EnvelopeWarp
