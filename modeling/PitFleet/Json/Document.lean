import PitFleet.Coded
import PitFleet.Json.Scan
import PitFleet.Json.Shape

/-!
# Documents

A type whose values are kept as JSON has a shape, a JSON form of every value and a reading of each
value of that shape. `Document.read` goes from a text to a value and `Document.write` back.
-/

namespace PitFleet

/-- Reads a text of a shape; nothing but blanks may follow the value. -/
def Json.Shape.read (shape : Json.Shape) (text : String) : Except Json.Cause Json := do
  let (draft, rest) := Json.scan text.toList
  let value ← draft.conform .streamed shape
  match rest.map Json.skipBlanks with
  | some [] => .ok value
  | _ => .error .malformed

class Document (τ : Type) where
  shape : Json.Shape
  toJson : τ → Json
  ofJson? : Json → Option τ

namespace Document

variable {τ : Type} [Document τ]

def read (text : String) : Except Json.Cause τ := do
  match ofJson? (← (shape τ).read text) with
  | some x => .ok x
  | none => .error .mismatch

def write (x : τ) : String :=
  (toJson x).render .compact

def writeIndented (x : τ) : String :=
  (toJson x).render .indented

instance : Document Float where
  shape := .real
  toJson := .real
  ofJson?
    | .real x => some x
    | _ => none

instance : Document Bool where
  shape := .flag
  toJson := .bool
  ofJson?
    | .bool b => some b
    | _ => none

instance : Document String where
  shape := .text
  toJson := .string
  ofJson?
    | .string s => some s
    | _ => none

instance : Document Int64 where
  shape := .integer Int64.minValue.toInt Int64.maxValue.toInt
  toJson n := .integer n.toInt
  ofJson?
    | .integer n => some (.ofInt n)
    | _ => none

instance : Document UInt64 where
  shape := .integer 0 (UInt64.size - 1)
  toJson n := .integer n.toNat
  ofJson?
    | .integer n => some (.ofNat n.toNat)
    | _ => none

instance : Document UInt32 where
  shape := .integer 0 (UInt32.size - 1)
  toJson n := .integer n.toNat
  ofJson?
    | .integer n => some (.ofNat n.toNat)
    | _ => none

instance : Document UInt16 where
  shape := .integer 0 (UInt16.size - 1)
  toJson n := .integer n.toNat
  ofJson?
    | .integer n => some (.ofNat n.toNat)
    | _ => none

/-- Enumerations are kept as their codes. -/
instance {ε : Type} [Coded ε] : Document ε where
  shape := .integer 0 (Coded.size ε - 1)
  toJson x := .integer (Coded.code x)
  ofJson?
    | .integer n => Coded.ofCode? n.toNat
    | _ => none

instance {α : Type} [Document α] : Document (List α) where
  shape := .list (shape α)
  toJson xs := .array (xs.map toJson)
  ofJson?
    | .array items => items.mapM ofJson?
    | _ => none

instance {α : Type} [Document α] : Document (Option α) where
  shape := shape α
  toJson
    | some x => toJson x
    | none => .null
  ofJson?
    | .null => some none
    | v => some <$> ofJson? v

def field (α : Type) [Document α] (name : String) : Json.Field :=
  .mk name (shape α) .required

def fieldOr {α : Type} [Document α] (name : String) (value : α) : Json.Field :=
  .mk name (shape α) (.orElse (toJson value))

/-- A field that may be missing or null. -/
def optionalField (α : Type) [Document α] (name : String) : Json.Field :=
  .mk name (shape α) .optional

end Document

end PitFleet
