import EnvelopeWarp.Host.Error

/-! What the program asks of the system it runs on. -/

namespace EnvelopeWarp

/-- What a program left behind. -/
structure Exit where
  code : Nat
  output : String
  complaints : String
deriving Repr, DecidableEq

/-- Files, programs, the environment and the two streams for text. -/
class Host (m : Type → Type) where
  readText : String → m (Except SystemError String)
  /-- The path leads to a file that is not a directory. -/
  isFile : String → m Bool
  /-- Replaces the file, whose directory must exist. -/
  writeText : String → String → m (Except SystemError Unit)
  /-- Makes a directory and those above it, as far as they do not exist. -/
  createDirectories : String → m (Except SystemError Unit)
  /-- Runs a program with arguments to its end. -/
  runProgram : String → List String → m (Except SystemError Exit)
  environment? : String → m (Option String)
  putOutput : String → m Unit
  putError : String → m Unit

/-! File names as far as they matter: the last part, its extension, and the directory above. -/

namespace FileName

/-- The names between slashes; a point stands for the directory itself, two for the one above. -/
def names (path : String) : List String :=
  (path.splitOn "/").filter fun name => name != ""

/-- The names that lead on; a single point does not. -/
def parts (path : String) : List String :=
  (names path).filter fun name => name != "."

/-- The name that a path ends in, unless it leads to a directory whatever is found there. -/
def last? (path : String) : Option String :=
  (names path).getLast?.filter fun name => name != "." && name != ".."

/-- What follows the last point of the last part, unless the point comes first. -/
def extension? (path : String) : Option String :=
  match (parts path).getLast? with
  | none => none
  | some ".." => none
  | some part =>
    let behind := part.toList.reverse.takeWhile (· != '.')
    if part.toList.length ≤ behind.length + 1 then none else some (String.ofList behind.reverse)

/-- The path without its last part; there may be nothing left. -/
def parent (path : String) : String :=
  let start := if path.startsWith "/" then "/" else ""
  start ++ "/".intercalate (parts path).dropLast

end FileName
end EnvelopeWarp
