import EnvelopeWarp.Host.Basic

/-! A host in memory. Files and directories are known by their places in the tree, programs answer
by a function, and what is written to the two streams is kept. -/

namespace EnvelopeWarp

/-- The names on the way from the root to a file or a directory. -/
abbrev Location : Type :=
  List String

/-- What is found at a place. A file that is no text has bytes that no text has. -/
inductive Found where
  | directory
  | file (text : Option String)
  | nothing
deriving Repr, DecidableEq

structure Memory where
  files : List (Location × Option String)
  directories : List Location
  /-- The directory that relative paths start from. -/
  current : Location
  programs : List (Location × (List String → Exit))
  /-- The directories in which programs named without a slash are sought, in order. -/
  programDirectories : List Location
  environment : List (String × String)
  /-- The programs that were run and their arguments, in order. -/
  calls : List (Location × List String)
  output : String
  complaints : String

namespace Memory

def look (memory : Memory) (place : Location) : Found :=
  if place.isEmpty || memory.directories.contains place then .directory
  else
    match memory.files.lookup place with
    | some text => .file text
    | none => .nothing

/-- The most bytes of a name. -/
def nameLimit : Nat := 255

/-- The most bytes of a path. -/
def pathLimit : Nat := 4095

/-- The most bytes of an argument. -/
def argumentLimit : Nat := 131071

/-- The place of a name in a directory. -/
def child (here : Location) (name : String) : Except SystemError Location :=
  if nameLimit < name.utf8ByteSize then .error .nameTooLong else .ok (here ++ [name])

/-- Goes into a directory, or back to the one above. -/
def enter (memory : Memory) (here : Location) (name : String) : Except SystemError Location :=
  if name = "." then .ok here
  else if name = ".." then .ok here.dropLast
  else do
    let place ← child here name
    match memory.look place with
    | .directory => return place
    | .file _ => throw .notDirectory
    | .nothing => throw .notFound

def start (memory : Memory) (path : String) : Location :=
  if path.startsWith "/" then [] else memory.current

def checkPath (path : String) : Except SystemError Unit := do
  if path.contains '\x00' then throw .nullInName
  if pathLimit < path.utf8ByteSize then throw .nameTooLong

/-- The directory that holds what a path leads to. All names but the last must be directories. -/
def above (memory : Memory) (path : String) : Except SystemError Location := do
  checkPath path
  if path = "" then throw .notFound
  (FileName.names path).dropLast.foldlM memory.enter (memory.start path)

/-- The place that a path leads to. -/
def locate (memory : Memory) (path : String) : Except SystemError Location := do
  let here ← memory.above path
  match (FileName.names path).getLast? with
  | none => return here
  | some "." => return here
  | some ".." => return here.dropLast
  | some name => child here name

/-- What a path leads to. Behind a slash there is no file. -/
def find (memory : Memory) (path : String) : Except SystemError (Location × Found) := do
  let place ← memory.locate path
  match memory.look place with
  | .nothing => throw .notFound
  | .file text => if path.endsWith "/" then throw .notDirectory else return (place, .file text)
  | .directory => return (place, .directory)

def read (memory : Memory) (path : String) : Except SystemError String := do
  match (← memory.find path).2 with
  | .file (some text) => return text
  | .file none => throw .notText
  | _ => throw .isDirectory

def holdsFile (memory : Memory) (path : String) : Bool :=
  match memory.find path with
  | .ok (_, .file _) => true
  | _ => false

def put (memory : Memory) (place : Location) (text : Option String) : Memory :=
  { memory with files := (place, text) :: memory.files.filter fun file => file.1 != place }

/-- A path that ends in a slash can only lead to a directory, even if there is nothing yet. -/
def write (memory : Memory) (path text : String) : Except SystemError Memory := do
  let here ← memory.above path
  match FileName.last? path with
  | none => throw .isDirectory
  | some name =>
    if path.endsWith "/" then throw .isDirectory
    let place ← child here name
    match memory.look place with
    | .directory => throw .isDirectory
    | _ => return memory.put place (some text)

/-- Goes into a directory, which is made if there is nothing in its place. -/
def make (state : Memory × Location) (name : String) : Except SystemError (Memory × Location) :=
  if name = ".." then .ok (state.1, state.2.dropLast)
  else do
    let place ← child state.2 name
    match state.1.look place with
    | .directory => return (state.1, place)
    | .file _ => throw .alreadyExists
    | .nothing => return ({ state.1 with directories := place :: state.1.directories }, place)

def makeAll (memory : Memory) (path : String) : Except SystemError Memory := do
  checkPath path
  return (← (FileName.parts path).foldlM make (memory, memory.start path)).1

/-- The program that a path leads to. -/
def programAt (memory : Memory) (path : String) :
    Except SystemError (Location × (List String → Exit)) := do
  let place := (← memory.find path).1
  match memory.programs.lookup place with
  | some respond => return (place, respond)
  | none => throw .denied

/-- The first program that is found. If there is none, something that may not be run is what stood in
the way, wherever it was. -/
def firstProgram {α : Type} : List (Except SystemError α) → Except SystemError α
  | [] => .error .notFound
  | .ok found :: _ => .ok found
  | .error error :: rest =>
    match firstProgram rest with
    | .ok found => .ok found
    | .error other => if error = .denied then .error error else .error other

/-- The program that a name stands for. -/
def program (memory : Memory) (name : String) : Except SystemError (Location × (List String → Exit)) :=
  if name.contains '/' then memory.programAt name
  else if name = "" then .error .notFound
  else if nameLimit < name.utf8ByteSize then .error .nameTooLong
  else
    firstProgram (memory.programDirectories.map fun directory =>
      memory.programAt ("/" ++ "/".intercalate (directory ++ [name])))

def run (memory : Memory) (name : String) (arguments : List String) :
    Except SystemError Exit × Memory :=
  if name.contains '\x00' || arguments.any (·.contains '\x00') then (.error .nullInArgument, memory)
  else
    match memory.program name with
    | .error error => (.error error, memory)
    | .ok (place, respond) =>
      if arguments.any (argumentLimit < ·.utf8ByteSize) then (.error .argumentTooLong, memory)
      else (.ok (respond arguments), { memory with calls := memory.calls ++ [(place, arguments)] })

/-- The memory after a change that may be refused. -/
def attempt (change : Memory → Except SystemError Memory) (memory : Memory) :
    Except SystemError Unit × Memory :=
  match change memory with
  | .ok changed => (.ok (), changed)
  | .error error => (.error error, memory)

end Memory

instance : Host (StateM Memory) where
  readText path := fun memory => (memory.read path, memory)
  isFile path := fun memory => (memory.holdsFile path, memory)
  writeText path text := Memory.attempt fun memory => memory.write path text
  createDirectories path := Memory.attempt fun memory => memory.makeAll path
  runProgram name arguments := fun memory => memory.run name arguments
  environment? name := fun memory => (memory.environment.lookup name, memory)
  putOutput text := fun memory => ((), { memory with output := memory.output ++ text })
  putError text := fun memory => ((), { memory with complaints := memory.complaints ++ text })

end EnvelopeWarp
