import PitFleet.Fleet.Navigation
import PitFleet.Proofs.Vehicle.Limits

/-!
# What navigating does

`Move` lists what a step of navigation can come to, with what it depends on. A vehicle with a bounded
specification always makes one of these moves (`exists_move`), so that what holds of every move
holds of navigating.
-/

namespace PitFleet.Navigation

variable {α : Type} [Scalar α] {layout : Layout α} {dt : α} {v : Vehicle α} {n : Navigation α}

/-- The waiting time is over after this step. -/
def TimeOver (n : Navigation α) (dt : α) : Prop :=
  n.waiting = true ∧ n.waitTimer - dt ≤ 0.0

/-- The navigation of a vehicle that has waited long enough. -/
def rested (n : Navigation α) (dt : α) : Navigation α :=
  { n with waitTimer := n.waitTimer - dt, waiting := false }

/-- The vehicle is on its way and near enough to its current waypoint, which is at `target`. -/
structure Arrives (layout : Layout α) (v : Vehicle α) (n : Navigation α) (target : Position α) :
    Prop where
  driving : n.waiting = false
  known : n.target? layout = some target
  near : ¬ n.arrivalThreshold ≤ v.position.distance target

/-- The navigation with the next waypoint current. -/
def onward (n : Navigation α) : Navigation α :=
  { n with index := n.index + 1 }

inductive Move (layout : Layout α) (dt : α) (v : Vehicle α) (n : Navigation α) :
    Vehicle α → Navigation α → Prop
  | waits (hw : n.waiting = true) (ht : ¬ n.waitTimer - dt ≤ 0.0) :
      Move layout dt v n v { n with waitTimer := n.waitTimer - dt }
  | hauls (ht : n.TimeOver dt) (hc : v.cycle = .loading) :
      Move layout dt v n (((v.setCycle .hauling).load v.spec.maxPayload).aim haulSpeed)
        { n.rested dt with route := n.haulRoute, index := 1 }
  | returns (ht : n.TimeOver dt) (hc : v.cycle = .dumping) :
      Move layout dt v n (((v.setCycle .returning).load 0.0).aim returnSpeed)
        { n.rested dt with route := n.haulRoute.reversed, index := 1 }
  | rests (ht : n.TimeOver dt) (hl : v.cycle ≠ .loading) (hd : v.cycle ≠ .dumping) :
      Move layout dt v n v (n.rested dt)
  | holds (hw : n.waiting = false) (ht : n.target? layout = none) : Move layout dt v n v n
  | drives {target : Position α} (hw : n.waiting = false) (ht : n.target? layout = some target)
      (hd : n.arrivalThreshold ≤ v.position.distance target) :
      Move layout dt v n (steer v target) n
  | passes {target next : Position α} {name : String} (ha : Arrives layout v n target)
      (hn : n.onward.current? = some name) (hl : layout.get? name = some next) :
      Move layout dt v n ((steer v target).aim (departureSpeed (steer v target) next)) n.onward
  | strays {target : Position α} {name : String} (ha : Arrives layout v n target)
      (hn : n.onward.current? = some name) (hl : layout.get? name = none) :
      Move layout dt v n (steer v target) n.onward
  | laps {target : Position α} (ha : Arrives layout v n target) (hn : n.onward.current? = none)
      (hc : v.category = .lightVehicle) :
      Move layout dt v n (((steer v target).aim 0.0).aim patrolSpeed) { n with index := 0 }
  | dumps {target : Position α} (ha : Arrives layout v n target) (hn : n.onward.current? = none)
      (hv : v.category ≠ .lightVehicle) (hc : v.cycle = .hauling) :
      Move layout dt v n (((steer v target).aim 0.0).setCycle .dumping)
        { n.onward with waiting := true, waitTimer := dumpingTime }
  | loads {target : Position α} (ha : Arrives layout v n target) (hn : n.onward.current? = none)
      (hv : v.category ≠ .lightVehicle) (hc : v.cycle = .returning) :
      Move layout dt v n (((steer v target).aim 0.0).setCycle .loading)
        { n.onward with waiting := true, waitTimer := loadingTime }
  | stops {target : Position α} (ha : Arrives layout v n target) (hn : n.onward.current? = none)
      (hv : v.category ≠ .lightVehicle) (hh : v.cycle ≠ .hauling) (hr : v.cycle ≠ .returning) :
      Move layout dt v n ((steer v target).aim 0.0) n.onward

section Outcomes

variable (hb : v.spec.Bounded)
include hb

theorem leave_loading (hc : v.cycle = .loading) :
    leave v n = .ok (((v.setCycle .hauling).load v.spec.maxPayload).aim haulSpeed,
      { n with route := n.haulRoute, index := 1 }) := by
  have hset : (v.setCycle .hauling).spec.Bounded := hb
  have hload : ((v.setCycle .hauling).load v.spec.maxPayload).spec.Bounded := hb
  simp only [leave, hc]
  rw [Vehicle.setPayload_eq hset, Fault.ok_bind, Vehicle.setTargetSpeed_eq hload, Fault.ok_bind]
  rfl

theorem leave_dumping (hc : v.cycle = .dumping) :
    leave v n = .ok (((v.setCycle .returning).load 0.0).aim returnSpeed,
      { n with route := n.haulRoute.reversed, index := 1 }) := by
  have hset : (v.setCycle .returning).spec.Bounded := hb
  have hload : ((v.setCycle .returning).load 0.0).spec.Bounded := hb
  simp only [leave, hc]
  rw [Vehicle.setPayload_eq hset, Fault.ok_bind, Vehicle.setTargetSpeed_eq hload, Fault.ok_bind]
  rfl

omit hb in
theorem leave_other (hl : v.cycle ≠ .loading) (hd : v.cycle ≠ .dumping) :
    leave v n = .ok (v, n) := by
  unfold leave
  split
  · exact absurd ‹_› hl
  · exact absurd ‹_› hd
  · rfl

theorem finish_light (hv : v.category = .lightVehicle) :
    finish v n = .ok ((v.aim 0.0).aim patrolSpeed, { n with index := 0 }) := by
  have haim : (v.aim 0.0).spec.Bounded := hb
  have hv' : (v.aim 0.0).category = .lightVehicle := hv
  rw [finish, Vehicle.setTargetSpeed_eq hb, Fault.ok_bind, if_pos hv',
    Vehicle.setTargetSpeed_eq haim, Fault.ok_bind]
  rfl

/-- The end of the route for a vehicle that does not patrol, told by its cycle. -/
theorem finish_heavy (hv : v.category ≠ .lightVehicle) :
    finish v n = match v.cycle with
      | .hauling =>
        .ok ((v.aim 0.0).setCycle .dumping, { n with waiting := true, waitTimer := dumpingTime })
      | .returning =>
        .ok ((v.aim 0.0).setCycle .loading, { n with waiting := true, waitTimer := loadingTime })
      | _ => .ok (v.aim 0.0, n) := by
  have hv' : (v.aim 0.0).category ≠ .lightVehicle := hv
  have hcycle : (v.aim 0.0).cycle = v.cycle := rfl
  rw [finish, Vehicle.setTargetSpeed_eq hb, Fault.ok_bind, if_neg hv', hcycle]
  rfl

theorem wait_move (hw : n.waiting = true) :
    ∃ v' n', wait v n dt = .ok (v', n') ∧ Move layout dt v n v' n' := by
  by_cases ht : n.waitTimer - dt ≤ 0.0
  · have hwait : wait v n dt = leave v (n.rested dt) := if_pos ht
    rw [hwait]
    by_cases hl : v.cycle = .loading
    · exact ⟨_, _, leave_loading hb hl, .hauls ⟨hw, ht⟩ hl⟩
    by_cases hd : v.cycle = .dumping
    · exact ⟨_, _, leave_dumping hb hd, .returns ⟨hw, ht⟩ hd⟩
    · exact ⟨_, _, leave_other hl hd, .rests ⟨hw, ht⟩ hl hd⟩
  · exact ⟨_, _, if_neg ht, .waits hw ht⟩

theorem finish_move {target : Position α} (ha : Arrives layout v n target)
    (hn : n.onward.current? = none) :
    ∃ v' n', finish (steer v target) n.onward = .ok (v', n') ∧ Move layout dt v n v' n' := by
  have hs : (steer v target).spec.Bounded := hb
  by_cases hv : v.category = .lightVehicle
  · exact ⟨_, _, finish_light hs hv, .laps ha hn hv⟩
  rw [finish_heavy hs hv]
  have hcycle : (steer v target).cycle = v.cycle := rfl
  rw [hcycle]
  split
  · exact ⟨_, _, rfl, .dumps ha hn hv ‹_›⟩
  · exact ⟨_, _, rfl, .loads ha hn hv ‹_›⟩
  · exact ⟨_, _, rfl, .stops ha hn hv ‹_› ‹_›⟩

omit hb in
theorem arrive_last (hn : n.onward.current? = none) : arrive layout v n = finish v n.onward := by
  unfold onward at hn ⊢
  simp only [arrive, hn]

omit hb in
theorem arrive_unknown {name : String} (hn : n.onward.current? = some name)
    (hl : layout.get? name = none) : arrive layout v n = .ok (v, n.onward) := by
  unfold onward at hn ⊢
  simp only [arrive, hn, hl]
  rfl

theorem arrive_known {name : String} {next : Position α} (hn : n.onward.current? = some name)
    (hl : layout.get? name = some next) :
    arrive layout v n = .ok (v.aim (departureSpeed v next), n.onward) := by
  unfold onward at hn ⊢
  simp only [arrive, hn, hl, Vehicle.setTargetSpeed_eq hb, Fault.ok_bind]
  rfl

theorem arrive_move {target : Position α} (ha : Arrives layout v n target) :
    ∃ v' n', arrive layout (steer v target) n = .ok (v', n') ∧ Move layout dt v n v' n' := by
  have hs : (steer v target).spec.Bounded := hb
  rcases hn : n.onward.current? with _ | name
  · rw [arrive_last hn]
    exact finish_move hb ha hn
  · rcases hl : layout.get? name with _ | next
    · exact ⟨_, _, arrive_unknown hn hl, .strays ha hn hl⟩
    · exact ⟨_, _, arrive_known hs hn hl, .passes ha hn hl⟩

variable (layout dt n) in
/-- A step of navigation always has a result, and it is a move. -/
theorem exists_move :
    ∃ v' n', navigate layout v n dt = .ok (v', n') ∧ Move layout dt v n v' n' := by
  unfold navigate
  by_cases hw : n.waiting = true
  · rw [if_pos hw]
    exact wait_move hb hw
  · rw [if_neg hw]
    rw [Bool.not_eq_true] at hw
    rcases ht : n.target? layout with _ | target
    · exact ⟨_, _, rfl, .holds hw ht⟩
    · by_cases hd : n.arrivalThreshold ≤ v.position.distance target
      · exact ⟨_, _, if_pos hd, .drives hw ht hd⟩
      · obtain ⟨v', n', heq, hmove⟩ := arrive_move hb ⟨hw, ht, hd⟩
        exact ⟨v', n', (if_neg hd).trans heq, hmove⟩

end Outcomes

namespace Move

variable {v' : Vehicle α} {n' : Navigation α} (h : Move layout dt v n v' n')
include h

theorem sameKind : Vehicle.SameKind v v' := by
  cases h <;> exact ⟨rfl, rfl, rfl, rfl⟩

theorem haulRoute : n'.haulRoute = n.haulRoute := by
  cases h <;> rfl

end Move

end PitFleet.Navigation
