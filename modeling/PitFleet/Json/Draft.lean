import PitFleet.Json.Basic

/-!
# Drafts

A draft is a JSON text read as far as its brackets go: a value in which what could not be read
stands at its place. Whoever takes a draft walks it in the order of the text and meets the faults
in that order, each with the cause that counts for what was wanted there.
-/

namespace PitFleet.Json

inductive Cause
  /-- It is no JSON, or its numbers, strings or nesting are beyond what is read. -/
  | malformed
  /-- It ends too early. -/
  | truncated
  /-- It is JSON of the wrong shape or value. -/
  | mismatch
  deriving DecidableEq, Repr

/-- A place where the text goes wrong. -/
structure Break where
  /-- For one who reads the value. -/
  read : Cause
  /-- For one who skips it. -/
  skip : Cause
  /-- For one who wants a name there and looks at nothing else. -/
  name : Cause
  deriving DecidableEq, Repr

namespace Break

def same (cause : Cause) : Break :=
  ⟨cause, cause, cause⟩

def malformed : Break := same .malformed

def truncated : Break := same .truncated

end Break

/-- A number as it is read: a whole number that fits in 64 bits, or a double. -/
inductive Number
  | integer (n : Int)
  | real (x : Float)
  deriving Repr

mutual

inductive Draft
  | null
  | bool (b : Bool)
  /-- Without a value if it is beyond all doubles. -/
  | number (n : Option Number)
  /-- Without a text if it holds half a surrogate pair. -/
  | string (s : Option String)
  | array (items : Items)
  | object (members : Members)
  | broken (b : Break)

inductive Items
  | closed
  | broken (b : Break)
  | cons (item : Draft) (rest : Items)

inductive Members
  | closed
  | broken (b : Break)
  | cons (key : Option String) (value : Draft) (rest : Members)

end

mutual

def Draft.skip : Draft → Except Cause Unit
  | .broken b => .error b.skip
  | .array items => items.skip
  | .object members => members.skip
  | _ => .ok ()

def Items.skip : Items → Except Cause Unit
  | .closed => .ok ()
  | .broken b => .error b.skip
  | .cons item rest => do
    item.skip
    rest.skip

def Members.skip : Members → Except Cause Unit
  | .closed => .ok ()
  | .broken b => .error b.skip
  | .cons _ value rest => do
    value.skip
    rest.skip

end

mutual

/-- Reads a value of any shape with room for so many levels of brackets. -/
def Draft.check (room : Nat) : Draft → Except Cause Unit
  | .null => .ok ()
  | .bool _ => .ok ()
  | .number (some _) => .ok ()
  | .number none => .error .malformed
  | .string (some _) => .ok ()
  | .string none => .error .malformed
  | .array items => if room = 0 then .error .malformed else items.check (room - 1)
  | .object members => if room = 0 then .error .malformed else members.check (room - 1)
  | .broken b => .error b.read

def Items.check (room : Nat) : Items → Except Cause Unit
  | .closed => .ok ()
  | .broken b => .error b.read
  | .cons item rest => do
    item.check room
    rest.check room

def Members.check (room : Nat) : Members → Except Cause Unit
  | .closed => .ok ()
  | .broken b => .error b.read
  | .cons none _ _ => .error .malformed
  | .cons (some _) value rest => do
    value.check room
    rest.check room

end

def Number.value : Number → Json
  | integer n => .integer n
  | real x => .real x

mutual

def Draft.value? : Draft → Option Json
  | .null => some .null
  | .bool b => some (.bool b)
  | .number n => n.map Number.value
  | .string s => s.map .string
  | .array items => .array <$> items.values?
  | .object members => .object <$> members.values?
  | .broken _ => none

def Items.values? : Items → Option (List Json)
  | .closed => some []
  | .broken _ => none
  | .cons item rest => return (← item.value?) :: (← rest.values?)

def Members.values? : Members → Option (List (String × Json))
  | .closed => some []
  | .broken _ => none
  | .cons key value rest => return (← key, ← value.value?) :: (← rest.values?)

end

/-- Why a value is refused where another kind of value is wanted. -/
def Draft.refusal : Draft → Cause
  | .broken b => b.read
  | .number none => .malformed
  | .string none => .malformed
  | _ => .mismatch

end PitFleet.Json
