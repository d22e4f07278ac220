import EnvelopeWarp.Data.Basic

/-! Tables while they are read. A table may be opened once by a header; the tables on the way to it
come into being by themselves and may be opened later. Tables made by dotted keys take further
dotted keys and are never opened. -/

namespace EnvelopeWarp
namespace Toml

/-- How a table came into being. -/
inductive Origin where
  | opened
  | implied
  | dotted
deriving Repr, DecidableEq

inductive Node where
  | value (data : Data)
  | table (origin : Origin) (entries : List (String × Node))
  /-- A list of tables, each opened by a header of its own. -/
  | tables (items : List (List (String × Node)))

abbrev Entries : Type :=
  List (String × Node)

mutual

def Node.data : Node → Data
  | .value data => data
  | .table _ entries => .record (entriesData entries)
  | .tables items => .list (tablesData items)

def entriesData : List (String × Node) → List (String × Data)
  | [] => []
  | (name, node) :: rest => (name, node.data) :: entriesData rest

def tablesData : List (List (String × Node)) → List Data
  | [] => []
  | entries :: rest => .record (entriesData entries) :: tablesData rest

end

namespace Entries

/-- Changes what stands under a name, or puts something there. -/
def change (name : String) (f : Option Node → Option Node) : Entries → Option Entries
  | [] => (f none).map fun node => [(name, node)]
  | entry :: rest =>
    if entry.1 = name then (f (some entry.2)).map fun node => (name, node) :: rest
    else (change name f rest).map (entry :: ·)

/-- Changes the last of some tables. -/
def changeLast (f : Entries → Option Entries) : List Entries → Option (List Entries)
  | [] => none
  | [entries] => (f entries).map fun changed => [changed]
  | entries :: rest => (changeLast f rest).map (entries :: ·)

/-- Changes the table at the end of a path of headers. Of a list of tables the last is meant. -/
def under : List String → (Entries → Option Entries) → Entries → Option Entries
  | [], f => f
  | name :: path, f => change name fun
    | none => (under path f []).map (.table .implied)
    | some (.table origin entries) => (under path f entries).map (.table origin)
    | some (.tables items) => (changeLast (under path f) items).map .tables
    | some (.value _) => none

/-- Opens a table, which must be new or implied. -/
def openTable (name : String) : Entries → Option Entries :=
  change name fun
    | none => some (.table .opened [])
    | some (.table .implied entries) => some (.table .opened entries)
    | some _ => none

/-- Adds a table to a list of tables, or starts the list. -/
def addTable (name : String) : Entries → Option Entries :=
  change name fun
    | none => some (.tables [[]])
    | some (.tables items) => some (.tables (items ++ [[]]))
    | some _ => none

/-- Puts a value under a name that is not taken. -/
def put (name : String) (data : Data) : Entries → Option Entries :=
  change name fun
    | none => some (.value data)
    | some _ => none

/-- Puts a value at the end of a dotted path from a table of a given origin. -/
def putDotted (name : String) (data : Data) : List String → Origin → Entries → Option Entries
  | [], origin, entries => if origin = .dotted then put name data entries else none
  | step :: path, _, entries => entries.change step fun
    | none => (putDotted name data path .dotted []).map (.table .dotted)
    | some (.table origin inner) =>
      if origin = .opened then none else (putDotted name data path origin inner).map (.table origin)
    | some (.tables items) => (changeLast (putDotted name data path .opened) items).map .tables
    | some (.value _) => none

/-- Puts a value into a table. -/
def insert (path : List String) (name : String) (data : Data) (entries : Entries) : Option Entries :=
  match path with
  | [] => put name data entries
  | path => putDotted name data path .opened entries

end Entries
end Toml
end EnvelopeWarp
