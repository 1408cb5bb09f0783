import PitFleet.Registry
import PitFleet.Toml.Basic

/-!
# Building tables

Headers and dotted keys build up the tables of a document piece by piece. How a table came about
decides what may still be added to it: `Entries.enter` follows the rule of headers and
`Entries.put` that of dotted keys.
-/

namespace PitFleet.Toml

inductive Origin
  /-- By a header of its own. -/
  | header
  /-- By a header of a table in it. -/
  | implied
  /-- By a dotted key. -/
  | dotted
  deriving DecidableEq, Repr

/-- What stands under a key while a document is read. -/
inductive Node
  | value (v : Toml)
  | table (origin : Origin) (entries : List (String × Node))
  /-- The tables of a list of tables, the latest first. -/
  | tables (latest : List (String × Node)) (earlier : List (List (String × Node)))

abbrev Entries := List (String × Node)

namespace Entries

def set (entries : Entries) (key : String) (node : Node) : Entries :=
  if (Registry.find? key entries).isSome then Registry.replace key node entries
  else entries ++ [(key, node)]

/-- Changes the table at the end of a path, as headers do: every table on the way may be passed, of
a list of tables the latest. -/
def enter (change : Entries → Option Entries) : List String → Entries → Option Entries
  | [], entries => change entries
  | key :: path, entries =>
    match Registry.find? key entries with
    | none => do return entries.set key (.table .implied (← enter change path []))
    | some (.table origin inner) => do
      return entries.set key (.table origin (← enter change path inner))
    | some (.tables latest earlier) => do
      return entries.set key (.tables (← enter change path latest) earlier)
    | some (.value _) => none

/-- A header gives a table that was at most implied before. -/
def addTable (key : String) (entries : Entries) : Option Entries :=
  match Registry.find? key entries with
  | none => some (entries.set key (.table .header []))
  | some (.table .implied inner) => some (entries.set key (.table .header inner))
  | some _ => none

/-- A header in double brackets adds a table to a list of tables. -/
def appendTable (key : String) (entries : Entries) : Option Entries :=
  match Registry.find? key entries with
  | none => some (entries.set key (.tables [] []))
  | some (.tables latest earlier) => some (entries.set key (.tables [] (latest :: earlier)))
  | some _ => none

/-- Puts a value under a dotted key. On the way there may be tables that no header gave; the last
of them has to come from a dotted key. -/
def put (key : String) (v : Toml) : List String → Entries → Option Entries
  | [], entries =>
    if (Registry.find? key entries).isSome then none else some (entries.set key (.value v))
  | step :: path, entries =>
    match Registry.find? step entries with
    | none => do return entries.set step (.table .dotted (← put key v path []))
    | some (.table .dotted inner) => do
      return entries.set step (.table .dotted (← put key v path inner))
    | some (.table .implied inner) => do
      if path.isEmpty then none
      return entries.set step (.table .implied (← put key v path inner))
    | some (.tables latest earlier) => do
      if path.isEmpty then none
      return entries.set step (.tables (← put key v path latest) earlier)
    | some _ => none

end Entries

mutual

def Node.toToml : Node → Toml
  | .value v => v
  | .table _ entries => .table (entriesToToml entries)
  | .tables latest earlier => .array (tablesToToml earlier [.table (entriesToToml latest)])

def entriesToToml : List (String × Node) → List (String × Toml)
  | [] => []
  | (key, node) :: entries => (key, node.toToml) :: entriesToToml entries

/-- The tables, of which the latest come first, in their order and before those of `rest`. -/
def tablesToToml : List (List (String × Node)) → List Toml → List Toml
  | [], rest => rest
  | t :: ts, rest => tablesToToml ts (.table (entriesToToml t) :: rest)

end

end PitFleet.Toml
