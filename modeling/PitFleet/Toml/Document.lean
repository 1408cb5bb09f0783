import PitFleet.Json.Document
import PitFleet.Toml.Read
import PitFleet.Toml.Write

/-!
# Documents as TOML

Whatever has a JSON form can be kept as TOML. What is null in JSON is left out in TOML, and whole
numbers have to fit in 64 bits with a sign.
-/

namespace PitFleet

namespace Toml

mutual

/-- The TOML form of a JSON value, if it has one. -/
def ofJson? : Json → Option Toml
  | .null => none
  | .bool b => some (.bool b)
  | .integer n => if fits n then some (.integer n) else none
  | .real x => some (.real x)
  | .string s => some (.string s)
  | .array items => .array <$> ofItems? items
  | .object members => .table <$> ofMembers? members

def ofItems? : List Json → Option (List Toml)
  | [] => some []
  | item :: items => return (← ofJson? item) :: (← ofItems? items)

/-- Members that are null are left out. -/
def ofMembers? : List (String × Json) → Option (List (String × Toml))
  | [] => some []
  | (_, .null) :: members => ofMembers? members
  | (key, v) :: members => return (key, ← ofJson? v) :: (← ofMembers? members)

end

mutual

/-- The draft of a value. A moment is an object without any known field. -/
def draft : Toml → Json.Draft
  | .string s => .string (some s)
  | .integer n => .number (some (.integer n))
  | .real x => .number (some (.real x))
  | .bool b => .bool b
  | .dateTime => .object .closed
  | .array items => .array (draftItems items)
  | .table entries => .object (draftEntries entries)

def draftItems : List Toml → Json.Items
  | [] => .closed
  | item :: items => .cons item.draft (draftItems items)

def draftEntries : List (String × Toml) → Json.Members
  | [] => .closed
  | (key, v) :: entries => .cons (some key) v.draft (draftEntries entries)

end

end Toml

namespace Document

variable {τ : Type} [Document τ]

def toToml? (x : τ) : Option (List (String × Toml)) :=
  match toJson x with
  | .object members => Toml.ofMembers? members
  | _ => none

def ofToml? (entries : List (String × Toml)) : Option τ :=
  match (Toml.table entries).draft.conform .lenient (shape τ) with
  | .ok v => ofJson? v
  | .error _ => none

def writeToml? (x : τ) : Option String :=
  (toToml? x).map Toml.render

def readToml? (text : String) : Option τ := do
  ofToml? (← Toml.read? text)

end Document

end PitFleet
