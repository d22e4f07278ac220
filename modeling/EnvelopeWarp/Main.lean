import EnvelopeWarp.CommandLine.Program

/-! The program on the system that it is started on. Other programs are not run from here. -/

namespace EnvelopeWarp

/-- The system refuses names that are too long as arguments that it cannot use. -/
def isNameTooLong : IO.Error → Bool
  | .invalidArgument _ code _ => code == 36
  | _ => false

/-- What the system said, as far as the program tells refusals apart. -/
def SystemError.ofError : IO.Error → SystemError
  | .noFileOrDirectory _ _ _ => notFound
  | .noSuchThing _ _ _ => notFound
  | .permissionDenied _ _ _ => denied
  | .alreadyExists _ _ _ => alreadyExists
  | .inappropriateType _ code _ => if code = 21 then isDirectory else notDirectory
  | .userError _ => notText
  | error => if isNameTooLong error then nameTooLong else other error.toString

/-- The system has no programs to offer. -/
def SystemError.noPrograms : SystemError :=
  other "Operation not supported (os error 95)"

/-- The result of an action that the system may refuse. -/
def attempt {α : Type} (action : IO α) : IO (Except SystemError α) := do
  match ← action.toBaseIO with
  | .ok value => return .ok value
  | .error error => return .error (.ofError error)

/-- A file is there although it may be unreadable. -/
def isThere : Except SystemError String → Bool
  | .error .notFound => false
  | .error .notDirectory => false
  | .error .isDirectory => false
  | _ => true

instance : Host IO where
  readText path := attempt (IO.FS.readFile path)
  isFile path := return isThere (← attempt (IO.FS.readFile path))
  writeText path text := attempt (IO.FS.writeFile path text)
  createDirectories path := if path = "" then return .ok () else attempt (IO.FS.createDirAll path)
  runProgram _ _ := return .error SystemError.noPrograms
  environment? name := IO.getEnv name
  putOutput text := IO.print text
  putError text := IO.eprint text

end EnvelopeWarp

def main (words : List String) : IO UInt32 := do
  return (← EnvelopeWarp.Program.main words).toUInt32
