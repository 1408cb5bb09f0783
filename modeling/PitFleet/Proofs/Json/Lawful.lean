import PitFleet.Json.Records
import PitFleet.Proofs.Json.Fitting

/-!
# Documents that are read back

A document is lawful if the form of every value has the shape and stands for that value alone. The
text of a value is then read as what its form becomes with its doubles read anew
(`LawfulDocument.read_render`): as the value if each of them is read back, and not at all if one of
them is lost. The law goes by the type: a list needs it of its items and a record of its fields.
-/

namespace PitFleet

open Json Document

class LawfulDocument (τ : Type) [Document τ] where
  /-- How many levels of brackets a value takes. -/
  levels : ℕ
  fits (x : τ) {room : ℕ} (hroom : levels ≤ room) : Fits room (shape τ) (toJson x)
  ofJson?_toJson (x : τ) : ofJson? (toJson x) = some x

namespace LawfulDocument

attribute [simp] ofJson?_toJson

variable {τ : Type} [Document τ] [LawfulDocument τ]

theorem read_render {x : τ} (hroom : levels τ ≤ innerLevels + 1) (style : Style) :
    (Document.read ((toJson x).render style) : Except Cause τ).toOption
      = (toJson x).reread.bind ofJson? := by
  rw [Document.read, toOption_bind, Shape.read_render (fits x hroom)]
  refine Option.bind_congr fun v _ => ?_
  cases ofJson? (τ := τ) v <;> rfl

theorem read_render_eq_ok {x : τ} (hroom : levels τ ≤ innerLevels + 1) (style : Style)
    (h : ∀ y ∈ (toJson x).reals, rereadReal y = some y) :
    Document.read ((toJson x).render style) = .ok x := by
  rw [← toOption_eq_some_iff, read_render hroom, reread_eq_some h]
  exact ofJson?_toJson x

theorem read_render_eq_error {x : τ} (hroom : levels τ ≤ innerLevels + 1) (style : Style)
    {y : Float} (hy : y ∈ (toJson x).reals) (hlost : rereadReal y = none) :
    ∃ cause, (Document.read ((toJson x).render style) : Except Cause τ) = .error cause := by
  rw [← toOption_eq_none_iff, read_render hroom, reread_eq_none hlost hy]
  rfl

section Fields

variable {room : ℕ} {fields : List Field} {members : List (String × Json)} (name : String)

theorem filled_field (x : τ) (hroom : levels τ ≤ room) (h : Filled room fields members) :
    Filled room (field τ name :: fields) ((name, toJson x) :: members) :=
  .cons (fits x hroom) nofun h

theorem filled_fieldOr (value x : τ) (hroom : levels τ ≤ room) (h : Filled room fields members) :
    Filled room (fieldOr name value :: fields) ((name, toJson x) :: members) :=
  .cons (fits x hroom) nofun h

/-- A text that may be missing. -/
theorem filled_optionalText (s : Option String) (h : Filled room fields members) :
    Filled room (optionalField String name :: fields) ((name, toJson s) :: members) := by
  cases s with
  | none => exact .absent rfl h
  | some s => exact .cons (.text s) (fun _ => rfl) h

end Fields

instance : LawfulDocument Float where
  levels := 0
  fits x _ _ := .real x
  ofJson?_toJson _ := rfl

instance : LawfulDocument String where
  levels := 0
  fits s _ _ := .text s
  ofJson?_toJson _ := rfl

instance : LawfulDocument Int64 where
  levels := 0
  fits n _ _ := .integer ⟨n.minValue_le_toInt, n.toInt_le⟩ (by
    have hle := n.toInt_le
    have hsize : Int64.maxValue.toInt < UInt64.size := by decide
    exact ⟨n.minValue_le_toInt, by omega⟩)
  ofJson?_toJson n := congrArg some (Int64.ofInt_toInt n)

theorem fits_natural {n size room : ℕ} (h : n < size) (hsize : size ≤ UInt64.size) :
    Fits room (.integer 0 ((size : ℤ) - 1)) (.integer n) := by
  have hmin : Int64.minValue.toInt ≤ 0 := by decide
  exact .integer ⟨by omega, by omega⟩ ⟨by omega, by omega⟩

instance : LawfulDocument UInt32 where
  levels := 0
  fits n _ _ := fits_natural n.toNat_lt_size (by decide)
  ofJson?_toJson n := congrArg some (UInt32.ofNat_toNat)

instance : LawfulDocument UInt16 where
  levels := 0
  fits n _ _ := fits_natural n.toNat_lt_size (by decide)
  ofJson?_toJson n := congrArg some (UInt16.ofNat_toNat)

/-- The codes of an enumeration fit in 64 bits. -/
@[reducible] def ofCoded {ε : Type} [Coded ε] (h : Coded.size ε ≤ UInt64.size) :
    LawfulDocument ε where
  levels := 0
  fits x _ _ := fits_natural (Coded.code_lt_size x) h
  ofJson?_toJson := Coded.ofCode?_code

instance : LawfulDocument Category := ofCoded (by decide)

instance : LawfulDocument Cycle := ofCoded (by decide)

instance : LawfulDocument Severity := ofCoded (by decide)

instance : LawfulDocument Encounter := ofCoded (by decide)

theorem mapM_ofJson? {τ : Type} [Document τ] (h : ∀ x : τ, ofJson? (toJson x) = some x)
    (xs : List τ) : (xs.map toJson).mapM ofJson? = some xs := by
  induction xs with
  | nil => rfl
  | cons x xs ih => simp [h, ih]

theorem ofJson?_items (xs : List τ) : (xs.map toJson).mapM ofJson? = some xs :=
  mapM_ofJson? ofJson?_toJson xs

theorem realsOfItems_map {τ : Type} [Document τ] (xs : List τ) :
    realsOfItems (xs.map toJson) = xs.flatMap fun x => (toJson x).reals := by
  induction xs with
  | nil => rfl
  | cons x xs ih => simp [realsOfItems, ih]

instance : LawfulDocument (List τ) where
  levels := levels τ + 1
  fits xs room hroom := by
    obtain ⟨room, rfl⟩ := Nat.exists_eq_add_of_lt (Nat.lt_of_lt_of_le (Nat.succ_pos _) hroom)
    rw [Nat.zero_add] at hroom ⊢
    exact .list (List.forall_mem_map.2 fun x _ => fits x (Nat.le_of_succ_le_succ hroom))
  ofJson?_toJson := ofJson?_items

section Records

theorem fits_record {room : ℕ} {levels : ℕ} {fields : List Field} {members : List (String × Json)}
    (h : ∀ {room}, levels ≤ room → Filled room fields members)
    (hnames : (fields.map Field.name).Nodup) (hroom : levels + 1 ≤ room) :
    Fits room (.record fields) (.object members) := by
  cases room with
  | zero => cases hroom
  | succ room => exact .record (h (Nat.le_of_succ_le_succ hroom)) hnames

instance : LawfulDocument (Position Float) where
  levels := 1
  fits p _ := fits_record (fun h =>
    filled_field _ p.latitude h <|
    filled_field _ p.longitude h <|
    filled_field _ p.altitude h .nil) (by decide)
  ofJson?_toJson _ := rfl

instance : LawfulDocument (Telemetry Float) where
  levels := 1
  fits t _ := fits_record (fun h =>
    filled_field _ t.speed h <|
    filled_field _ t.heading h <|
    filled_field _ t.payload h <|
    filled_field _ t.fuelLevel h <|
    filled_field _ t.engineRpm h .nil) (by decide)
  ofJson?_toJson _ := rfl

theorem filled_packet (p : TelemetryPacket Float) {room : ℕ} (hroom : 1 ≤ room) :
    Filled room TelemetryPacket.fields p.members :=
  filled_field _ p.vehicleId (Nat.zero_le _) <|
  filled_field _ p.timestamp (Nat.zero_le _) <|
  filled_field _ p.category (Nat.zero_le _) <|
  filled_field _ p.cycle (Nat.zero_le _) <|
  filled_field _ p.position hroom <|
  filled_field _ p.telemetry hroom .nil

@[simp] theorem ofMembers?_packet (p : TelemetryPacket Float) :
    TelemetryPacket.ofMembers? p.members = some p := by
  simp [TelemetryPacket.ofMembers?, TelemetryPacket.members]

theorem filled_alert (a : CollisionAlert Float) {room : ℕ} :
    Filled room CollisionAlert.fields a.members :=
  filled_field _ a.firstId (Nat.zero_le _) <|
  filled_field _ a.secondId (Nat.zero_le _) <|
  filled_field _ a.severity (Nat.zero_le _) <|
  filled_field _ a.encounter (Nat.zero_le _) <|
  filled_field _ a.timeToImpact (Nat.zero_le _) <|
  filled_field _ a.distance (Nat.zero_le _) <|
  filled_field _ a.timestamp (Nat.zero_le _) .nil

@[simp] theorem ofMembers?_alert (a : CollisionAlert Float) :
    CollisionAlert.ofMembers? a.members = some a := by
  simp [CollisionAlert.ofMembers?, CollisionAlert.members]

end Records

end LawfulDocument

end PitFleet
