import PitFleet.Coded
import PitFleet.Scalar

/-!
# Vehicle categories

The three kinds of vehicle, the tags by which scenario files name them and the figures that hold
for each kind.
-/

namespace PitFleet

inductive Category
  | haulTruck
  | excavator
  | lightVehicle
  deriving DecidableEq, Repr

namespace Category

def code : Category → Nat
  | haulTruck => 0
  | excavator => 1
  | lightVehicle => 2

def ofCode? : Nat → Option Category
  | 0 => some haulTruck
  | 1 => some excavator
  | 2 => some lightVehicle
  | _ => none

def label : Category → String
  | haulTruck => "HaulTruck"
  | excavator => "Excavator"
  | lightVehicle => "LightVehicle"

instance : Coded Category where
  code := code
  ofCode? := ofCode?
  label := label
  size := 3
  ofCode?_code x := by cases x <;> rfl
  code_of_ofCode? {n x} h := by
    unfold ofCode? at h
    split at h <;> simp_all [code] <;> subst h <;> rfl
  isSome_ofCode?_iff {n} := by
    unfold ofCode?
    split <;> simp_all
    omega

/-- Marks that may stand anywhere in a tag. -/
def isTagMark (c : Char) : Bool :=
  c = '_' || c = '-' || c = ' '

/-- The only letter outside ASCII whose lower case is an ASCII letter is the sign for kelvin. -/
def lowerLetter (c : Char) : Char :=
  if c = '\u212a' then 'k' else c.toLower

/-- Tags are read without regard to case and to marks between words. -/
def ofTag? (tag : String) : Option Category :=
  match String.ofList ((tag.toList.filter (!isTagMark ·)).map lowerLetter) with
  | "haultruck" | "hauler" => some haulTruck
  | "excavator" => some excavator
  | "lightvehicle" | "lv" => some lightVehicle
  | _ => none

end Category

/-- What a vehicle can do and how much room it needs. -/
structure Spec (α : Type) where
  /-- In km/h. -/
  maxSpeed : α
  /-- In tonnes; zero for vehicles that carry no load. -/
  maxPayload : α
  /-- In litres. -/
  fuelCapacity : α
  /-- In litres per hour at full load. -/
  fuelBurnRate : α
  /-- Half of the least separation that the vehicle needs, in metres. -/
  safetyRadius : α
  length : α
  width : α
  deriving Repr

variable {α : Type} [Scalar α]

/-- A vehicle that can do nothing. -/
def Spec.none : Spec α :=
  ⟨0.0, 0.0, 0.0, 0.0, 0.0, 0.0, 0.0⟩

def Category.spec : Category → Spec α
  | haulTruck => ⟨45.0, 220.0, 3800.0, 180.0, 30.0, 13.0, 8.0⟩
  | excavator => ⟨5.0, 0.0, 2500.0, 120.0, 25.0, 15.0, 7.0⟩
  | lightVehicle => ⟨60.0, 0.0, 80.0, 12.0, 10.0, 5.0, 2.2⟩

end PitFleet
