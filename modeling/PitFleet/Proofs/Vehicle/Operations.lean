import PitFleet.Proofs.Vehicle.Limits

/-!
# Operations on a vehicle

All that can be asked of a vehicle, one thing after the other. With a bounded specification nothing
faults (`performAll_eq`), and no operation touches what the vehicle is or how high it stands
(`sameBuild_performed`).
-/

namespace PitFleet.Vehicle

variable {α : Type} [Scalar α]

inductive Operation (α : Type)
  | setTargetSpeed (speed : α)
  | setSpeed (speed : α)
  | setHeading (heading : α)
  | setPayload (tonnes : α)
  | setActive (active : Bool)
  | setCycle (cycle : Cycle)
  | predict (seconds : α)
  | advance (dt : α)

/-- A prediction is asked for and leaves the vehicle alone. -/
def perform (v : Vehicle α) : Operation α → Except Fault (Vehicle α)
  | .setTargetSpeed speed => v.setTargetSpeed speed
  | .setSpeed speed => v.setSpeed speed
  | .setHeading heading => .ok (v.setHeading heading)
  | .setPayload tonnes => v.setPayload tonnes
  | .setActive active => .ok (v.setActive active)
  | .setCycle cycle => .ok (v.setCycle cycle)
  | .predict _ => .ok v
  | .advance dt => .ok (v.advance dt)

def performAll (v : Vehicle α) : List (Operation α) → Except Fault (Vehicle α)
  | [] => .ok v
  | op :: ops => do (← v.perform op).performAll ops

/-- The vehicle after an operation that does not fault. -/
def performed (v : Vehicle α) : Operation α → Vehicle α
  | .setTargetSpeed speed => v.aim speed
  | .setSpeed speed => v.drive speed
  | .setHeading heading => v.setHeading heading
  | .setPayload tonnes => v.load tonnes
  | .setActive active => v.setActive active
  | .setCycle cycle => v.setCycle cycle
  | .predict _ => v
  | .advance dt => v.advance dt

structure SameBuild (v w : Vehicle α) : Prop where
  id : w.id = v.id
  category : w.category = v.category
  spec : w.spec = v.spec
  altitude : w.position.altitude = v.position.altitude

omit [Scalar α] in
theorem SameBuild.refl (v : Vehicle α) : SameBuild v v :=
  ⟨rfl, rfl, rfl, rfl⟩

omit [Scalar α] in
theorem SameBuild.trans {u v w : Vehicle α} (h : SameBuild u v) (h' : SameBuild v w) :
    SameBuild u w :=
  ⟨h'.id.trans h.id, h'.category.trans h.category, h'.spec.trans h.spec,
    h'.altitude.trans h.altitude⟩

theorem altitude_nextPosition (v : Vehicle α) (dt : α) :
    (v.nextPosition dt).altitude = v.position.altitude := by
  simp only [nextPosition]
  split <;> rfl

theorem sameBuild_advance (v : Vehicle α) (dt : α) : SameBuild v (v.advance dt) := by
  have hkind := sameKind_advance v dt
  refine ⟨hkind.id, hkind.category, hkind.spec, ?_⟩
  unfold advance
  split
  · exact altitude_nextPosition _ dt
  · rfl

theorem sameBuild_performed (v : Vehicle α) (op : Operation α) :
    SameBuild v (v.performed op) := by
  cases op with
  | advance dt => exact sameBuild_advance v dt
  | setTargetSpeed | setSpeed | setHeading | setPayload | setActive | setCycle | predict =>
    exact ⟨rfl, rfl, rfl, rfl⟩

theorem perform_eq {v : Vehicle α} (h : v.spec.Bounded) (op : Operation α) :
    v.perform op = .ok (v.performed op) := by
  cases op with
  | setTargetSpeed speed => exact setTargetSpeed_eq h speed
  | setSpeed speed => exact setSpeed_eq h speed
  | setPayload tonnes => exact setPayload_eq h tonnes
  | setHeading | setActive | setCycle | predict | advance => rfl

theorem performAll_eq : ∀ (ops : List (Operation α)) {v : Vehicle α}, v.spec.Bounded →
    v.performAll ops = .ok (ops.foldl performed v)
  | [], _, _ => rfl
  | op :: ops, v, h => by
    have hnext : (v.performed op).spec.Bounded := by
      rw [(sameBuild_performed v op).spec]
      exact h
    rw [performAll, perform_eq h, Fault.ok_bind, performAll_eq ops hnext, List.foldl_cons]

theorem sameBuild_foldl : ∀ (ops : List (Operation α)) (v : Vehicle α),
    SameBuild v (ops.foldl performed v)
  | [], v => .refl v
  | op :: ops, v => (sameBuild_performed v op).trans (sameBuild_foldl ops _)

end PitFleet.Vehicle
