import PitFleet.Proofs.Scalar.Order
import PitFleet.Vehicle.Motion

/-!
# The setters of a vehicle

A bounded specification has a top speed and a payload not below zero, so that the setters of its
vehicle never fault: they give `aim`, `drive` and `load`. Neither they nor a step of motion touch
what the vehicle is and where it is in its cycle.
-/

namespace PitFleet

theorem Fault.ok_bind {β γ : Type} (b : β) (f : β → Except Fault γ) :
    (Except.ok b >>= f) = f b :=
  rfl

variable {α : Type} [Scalar α]

/-- The figures that a setter keeps a value below are not below zero. -/
structure Spec.Bounded (s : Spec α) : Prop where
  maxSpeed : (0.0 : α) ≤ s.maxSpeed
  maxPayload : (0.0 : α) ≤ s.maxPayload

theorem Category.spec_bounded [OrderedScalar α] (c : Category) : (c.spec : Spec α).Bounded := by
  have h {n : ℕ} (hn : n ∈ Scalar.figures) : (Scalar.tenths 0 : α) ≤ Scalar.tenths n :=
    Scalar.tenths_zero_le hn
  cases c with
  | haulTruck => exact ⟨h (n := 450) (by decide), h (n := 2200) (by decide)⟩
  | excavator => exact ⟨h (n := 50) (by decide), h (n := 0) (by decide)⟩
  | lightVehicle => exact ⟨h (n := 600) (by decide), h (n := 0) (by decide)⟩

namespace Vehicle

/-- The value that a setter takes for `x`. -/
def limited (limit x : α) : α :=
  if Scalar.isNaN x = true then 0.0 else if x < 0.0 then 0.0 else if limit < x then limit else x

theorem limit_eq {l : α} (h : (0.0 : α) ≤ l) (x : α) : limit l x = .ok (limited l x) := by
  rw [limit, limited, Scalar.clamp, if_pos h]
  split <;> rfl

theorem limited_of_mem [OrderedScalar α] {l x : α} (h : (0.0 : α) ≤ x) (hl : x ≤ l) :
    limited l x = x := by
  have hn : Scalar.isNaN x = false := (OrderedScalar.isNaN_of_le hl).1
  have hlt : ¬ x < 0.0 := Scalar.not_lt_of_le h
  have hgt : ¬ l < x := Scalar.not_lt_of_le hl
  simp [limited, hn, hlt, hgt]

theorem limited_mem [OrderedScalar α] {l : α} (h : (0.0 : α) ≤ l) (x : α) :
    0.0 ≤ limited l x ∧ limited l x ≤ l := by
  obtain ⟨hzero, hl⟩ := OrderedScalar.isNaN_of_le h
  unfold limited
  split
  · exact ⟨Scalar.le_refl hzero, h⟩
  case isFalse hx =>
    have hnum : Scalar.isNaN x = false := Bool.eq_false_iff.2 hx
    split
    · exact ⟨Scalar.le_refl hzero, h⟩
    case isFalse hlow =>
      split
      · exact ⟨h, Scalar.le_refl hl⟩
      case isFalse hhigh =>
        exact ⟨Scalar.le_of_not_lt hnum hzero hlow, Scalar.le_of_not_lt hl hnum hhigh⟩

theorem deratedTarget_le [OrderedScalar α] {v : Vehicle α}
    (h : Scalar.isNaN v.targetSpeed = false) : v.deratedTarget ≤ v.targetSpeed := by
  have hself : v.targetSpeed ≤ v.targetSpeed := Scalar.le_refl h
  unfold deratedTarget
  split
  · exact hself
  · dsimp only
    split
    · exact Scalar.le_of_lt ‹_›
    · exact hself

def aim (v : Vehicle α) (speed : α) : Vehicle α :=
  { v with targetSpeed := limited v.spec.maxSpeed speed }

def drive (v : Vehicle α) (speed : α) : Vehicle α :=
  { v with telemetry.speed := limited v.spec.maxSpeed speed }

def load (v : Vehicle α) (tonnes : α) : Vehicle α :=
  { v with telemetry.payload := limited v.spec.maxPayload tonnes }

section Setters

variable {v : Vehicle α} (h : v.spec.Bounded)
include h

theorem setTargetSpeed_eq (speed : α) : v.setTargetSpeed speed = .ok (v.aim speed) := by
  rw [setTargetSpeed, limit_eq h.maxSpeed]
  rfl

theorem setSpeed_eq (speed : α) : v.setSpeed speed = .ok (v.drive speed) := by
  rw [setSpeed, limit_eq h.maxSpeed]
  rfl

theorem setPayload_eq (tonnes : α) : v.setPayload tonnes = .ok (v.load tonnes) := by
  rw [setPayload, limit_eq h.maxPayload]
  rfl

end Setters

/-- Nothing that the vehicle is has changed; where and how it drives may have. -/
structure SameKind (v w : Vehicle α) : Prop where
  id : w.id = v.id
  category : w.category = v.category
  spec : w.spec = v.spec
  active : w.active = v.active

namespace SameKind

omit [Scalar α] in
theorem refl (v : Vehicle α) : SameKind v v :=
  ⟨rfl, rfl, rfl, rfl⟩

omit [Scalar α] in
theorem trans {u v w : Vehicle α} (h : SameKind u v) (h' : SameKind v w) : SameKind u w :=
  ⟨h'.id.trans h.id, h'.category.trans h.category, h'.spec.trans h.spec, h'.active.trans h.active⟩

end SameKind

theorem sameKind_move (v : Vehicle α) (dt : α) : SameKind v (v.move dt) :=
  ⟨rfl, rfl, rfl, rfl⟩

theorem sameKind_advance (v : Vehicle α) (dt : α) : SameKind v (v.advance dt) := by
  unfold advance
  split
  · exact sameKind_move v dt
  · exact .refl v

theorem cycle_advance (v : Vehicle α) (dt : α) : (v.advance dt).cycle = v.cycle := by
  unfold advance
  split <;> rfl

theorem payload_advance (v : Vehicle α) (dt : α) :
    (v.advance dt).telemetry.payload = v.telemetry.payload := by
  unfold advance
  split <;> rfl

end Vehicle

end PitFleet
