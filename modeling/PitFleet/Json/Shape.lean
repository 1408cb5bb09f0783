import PitFleet.Json.Draft

/-!
# Shapes

A shape says which values a record holds and under which names. `conform` walks a draft along a
shape and gives the value in its full form: all fields, in the order of the shape, those that were
left out at their defaults, and whole numbers as doubles where doubles are wanted. The first fault
on the way decides the cause of a refusal.
-/

namespace PitFleet.Json

inductive Presence
  | required
  /-- The value stands for it. -/
  | orElse (value : Json)
  /-- Nothing is given, which null says too. -/
  | optional

mutual

inductive Shape
  | real
  | integer (least greatest : Int)
  | flag
  | text
  /-- One of several names. -/
  | choice (names : List String)
  | list (item : Shape)
  /-- Fields that are named in an object and stand in order in an array. -/
  | record (fields : List Field)
  /-- One of several records, told by the name under a key or at the first place of an array. -/
  | tagged (key : String) (variants : List (String × List Field))

inductive Field
  | mk (name : String) (shape : Shape) (presence : Presence)

end

/-- How strict a walk is. -/
inductive Strictness
  /-- Along the text itself: what is left over in an array is no JSON of the kind. -/
  | streamed
  /-- Along a value that was checked before. A tag may then also be given by its place. -/
  | buffered
  /-- What is left over counts for nothing. -/
  | lenient
  deriving DecidableEq, Repr

/-- How many levels of brackets there may be inside the outermost one. -/
def innerLevels : Nat := 126

namespace Field

def name : Field → String
  | mk name _ _ => name

def shape : Field → Shape
  | mk _ shape _ => shape

def presence : Field → Presence
  | mk _ _ presence => presence

def missing (f : Field) : Except Cause Json :=
  match f.presence with
  | .required => .error .mismatch
  | .orElse value => .ok value
  | .optional => .ok .null

/-- Whether a value says that nothing is given. -/
def leavesOut (f : Field) : Draft → Bool
  | .null => match f.presence with
    | .optional => true
    | _ => false
  | _ => false

/-- All fields in order, given those that were found. -/
def complete (found : List (String × Json)) : List Field → Except Cause (List (String × Json))
  | [] => .ok []
  | f :: fs => do
    let value ← match found.lookup f.name with
      | some value => .ok value
      | none => f.missing
    return (f.name, value) :: (← complete found fs)

end Field

def Number.toReal : Number → Float
  | .integer n => Double.round (decide (n < 0)) n.natAbs 0
  | .real x => x

def namedVariant? (variants : List (String × List Field)) (name : String) :
    Option (String × List Field) :=
  variants.find? (·.1 = name)

/-- The variant that a tag names. -/
def readTag (strictness : Strictness) (variants : List (String × List Field)) (tag : Draft) :
    Except Cause (String × List Field) :=
  let variant? := match tag with
    | .string (some name) => namedVariant? variants name
    | .number (some (.integer n)) =>
      if strictness = .buffered ∧ 0 ≤ n then variants[n.toNat]? else none
    | _ => none
  match variant? with
  | some variant => .ok variant
  | none => .error tag.refusal

/-- Looks through the members of a tagged record for its tag. Along the text all other members are
checked on the way. -/
def findTag (strictness : Strictness) (key : String) (variants : List (String × List Field)) :
    Option (String × List Field) → Members → Except Cause (String × List Field)
  | found, .closed =>
    match found with
    | some variant => .ok variant
    | none => .error .mismatch
  | _, .broken b => .error b.read
  | _, .cons none _ _ => .error .malformed
  | found, .cons (some name) value rest => do
    if name = key then
      if found.isSome then .error .mismatch
      else findTag strictness key variants (some (← readTag strictness variants value)) rest
    else
      if strictness = .streamed then value.check innerLevels
      findTag strictness key variants found rest

/-- A name given as an object that has it as its only key, with nothing under it. -/
def choiceMember (names : List String) : Members → Except Cause Json
  | .closed => .error .malformed
  | .broken b => .error b.name
  | .cons none _ _ => .error .malformed
  | .cons (some name) value rest => do
    if name ∉ names then .error .mismatch
    match value with
    | .null =>
      match rest with
      | .closed => .ok (.string name)
      | .broken b => .error b.read
      | .cons .. => .error .malformed
    | value => .error value.refusal

mutual

def Draft.conform (strictness : Strictness) (shape : Shape) : Draft → Except Cause Json
  | .null =>
    match shape with
    | .choice _ => .error .malformed
    | _ => .error .mismatch
  | .bool b =>
    match shape with
    | .flag => .ok (.bool b)
    | .choice _ => .error .malformed
    | _ => .error .mismatch
  | .number n =>
    match shape, n with
    | .real, some n => .ok (.real n.toReal)
    | .integer least greatest, some (.integer n) =>
      if least ≤ n ∧ n ≤ greatest then .ok (.integer n) else .error .mismatch
    | .choice _, _ => .error .malformed
    | _, none => .error .malformed
    | _, _ => .error .mismatch
  | .string s =>
    match shape, s with
    | _, none => .error .malformed
    | .text, some s => .ok (.string s)
    | .choice names, some s => if s ∈ names then .ok (.string s) else .error .mismatch
    | _, _ => .error .mismatch
  | .array items =>
    match shape with
    | .list item => return .array (← items.conform strictness item)
    | .record fields => return .object (← items.fill strictness fields)
    | .tagged key variants => items.fillTagged strictness key variants
    | .choice _ => .error .malformed
    | _ => .error .mismatch
  | .object members =>
    match shape with
    | .record fields => return .object (← members.fill strictness fields [])
    | .tagged key variants => do
      let (name, fields) ← findTag strictness key variants none members
      return .object ((key, .string name) :: (← members.fill .buffered fields []))
    | .choice names => choiceMember names members
    | _ => .error .mismatch
  | .broken b =>
    match shape with
    | .choice _ => .error b.name
    | _ => .error b.read

/-- Every item along one shape. -/
def Items.conform (strictness : Strictness) (shape : Shape) : Items → Except Cause (List Json)
  | .closed => .ok []
  | .broken b => .error b.read
  | .cons item rest => do
    let item ← item.conform strictness shape
    return item :: (← rest.conform strictness shape)

/-- The fields in order, each from one item. -/
def Items.fill (strictness : Strictness) (fields : List Field) :
    Items → Except Cause (List (String × Json))
  | .closed => Field.complete [] fields
  | .broken b => .error b.read
  | .cons item rest =>
    match fields with
    | [] =>
      match strictness with
      | .streamed => .error .malformed
      | .buffered => .error .mismatch
      | .lenient => .ok []
    | f :: fs => do
      let value ← if f.leavesOut item then .ok .null else item.conform strictness f.shape
      return (f.name, value) :: (← rest.fill strictness fs)

/-- The tag is the first item and the fields are the others. -/
def Items.fillTagged (strictness : Strictness) (key : String)
    (variants : List (String × List Field)) : Items → Except Cause Json
  | .closed => .error .mismatch
  | .broken b => .error b.read
  | .cons tag rest => do
    let (name, fields) ← readTag strictness variants tag
    if strictness = .streamed then rest.check innerLevels
    return .object ((key, .string name) :: (← rest.fill .buffered fields))

/-- The fields by their names; other members are skipped and no field may be given twice. -/
def Members.fill (strictness : Strictness) (fields : List Field) (found : List (String × Json)) :
    Members → Except Cause (List (String × Json))
  | .closed => Field.complete found fields
  | .broken b => .error b.read
  | .cons none _ _ => .error .malformed
  | .cons (some name) value rest =>
    match fields.find? (·.name = name) with
    | none => do
      if strictness = .streamed then value.skip
      rest.fill strictness fields found
    | some f => do
      if (found.lookup name).isSome then .error .mismatch
      let value ← if f.leavesOut value then .ok .null else value.conform strictness f.shape
      rest.fill strictness fields ((name, value) :: found)

end

end PitFleet.Json
