import PitFleet.Proofs.Scalar.Signs
import PitFleet.Proofs.Fleet.Building

/-!
# Vehicles that stay where they are

A vehicle at rest whose target is no speed stays at rest (`AtRest.advance`), and on an empty route
only a waiting time that ends while it loads or dumps gives it another target. But for that it
stays where it started (`position_of_parked`). A truck that is set up to load on an empty route
drives off when its time is over (`loadingTruck_leaves`).
-/

namespace PitFleet

open Navigation

variable {α : Type} [Scalar α]

namespace Vehicle

/-- The vehicle stands and has no speed to reach. -/
structure AtRest (v : Vehicle α) : Prop where
  speed : Scalar.IsZero v.telemetry.speed
  target : v.targetSpeed ≤ 0.0

variable {v : Vehicle α} {dt : α}

theorem limited_of_isZero [OrderedScalar α] {l x : α} (hl : (0.0 : α) ≤ l) (h : Scalar.IsZero x) :
    limited l x = x :=
  limited_of_mem h.2 (OrderedScalar.le_trans h.1 hl)

variable [SignedScalar α]

namespace AtRest

variable (h : v.AtRest)
include h

theorem nextSpeed (hdt : Scalar.IsStep dt) : Scalar.IsZero (v.nextSpeed dt) := by
  have hpos := SignedScalar.kmh_pos (α := α)
  have hfin := SignedScalar.isFinite_kmh (α := α)
  have hcurrent := h.speed.mul hpos hfin
  have htarget : v.targetSpeed * kmh ≤ 0.0 := SignedScalar.mul_nonpos h.target hpos hfin
  have hgap : ¬ 0.0 < v.targetSpeed * kmh - v.telemetry.speed * kmh :=
    Scalar.not_lt_of_le (SignedScalar.sub_nonpos htarget hcurrent.2)
  have hrate : (0.0 : α) ≤ brakingRate := Scalar.tenths_zero_le (n := 40) (by decide)
  have hbraked : v.telemetry.speed * kmh - brakingRate * dt ≤ 0.0 :=
    SignedScalar.sub_nonpos hcurrent.1
      (SignedScalar.mul_nonneg hrate (Scalar.pos_of_isStep hdt) hdt.1)
  unfold Vehicle.nextSpeed
  dsimp only
  by_cases hnear : Scalar.abs (v.targetSpeed * kmh - v.telemetry.speed * kmh) ≤ speedDeadBand
  · rw [if_pos hnear]
    exact h.speed
  · rw [if_neg hnear, if_neg hgap]
    exact (Scalar.isZero_max_zero (Scalar.max_nonpos hbraked htarget)).div hpos hfin

theorem nextPosition (dt : α) : v.nextPosition dt = v.position :=
  if_pos (Scalar.lt_of_le_of_lt (h.speed.mul SignedScalar.kmh_pos SignedScalar.isFinite_kmh).1
    SignedScalar.negligibleSpeed_pos)

theorem advance (dt : α) : (v.advance dt).AtRest ∧ (v.advance dt).position = v.position := by
  unfold Vehicle.advance
  split
  · rename_i hmoves
    have hslow : ({ v with telemetry.speed := v.nextSpeed dt } : Vehicle α).AtRest :=
      ⟨h.nextSpeed hmoves.2, h.target⟩
    have hderated : ({ v with
        telemetry.speed := v.nextSpeed dt
        targetSpeed := ({ v with telemetry.speed := v.nextSpeed dt } : Vehicle α).deratedTarget } :
        Vehicle α).AtRest :=
      ⟨hslow.speed, OrderedScalar.le_trans
        (deratedTarget_le (OrderedScalar.isNaN_of_le h.target).1) h.target⟩
    exact ⟨⟨hderated.speed, hderated.target⟩, hderated.nextPosition dt⟩
  · exact ⟨h, rfl⟩

end AtRest

end Vehicle

/-- The vehicle is at rest on an empty route, and no end of its waiting time sets it in motion. -/
structure Parked (v : Vehicle α) (n : Navigation α) : Prop where
  rest : v.AtRest
  empty : n.route.waypoints = []
  stays : Fleet.Steers v → n.waiting = true → v.cycle ≠ .loading ∧ v.cycle ≠ .dumping

variable {layout : Layout α} {dt : α} {v v' : Vehicle α} {n n' : Navigation α} {m m' : Member α}

omit [Scalar α] in
theorem Navigation.target?_of_empty (h : n.route.waypoints = []) (layout : Layout α) :
    n.target? layout = none := by
  simp [target?, current?, Route.get?, h]

theorem Navigation.Move.parked (h : Move layout dt v n v' n') (hs : Fleet.Steers v)
    (hp : Parked v n) : v' = v ∧ Parked v' n' := by
  have hnone := target?_of_empty hp.empty layout
  cases h with
  | waits hw => exact ⟨rfl, hp.rest, hp.empty, fun _ _ => hp.stays hs hw⟩
  | hauls ht hc => exact absurd hc (hp.stays hs ht.1).1
  | returns ht hc => exact absurd hc (hp.stays hs ht.1).2
  | rests => exact ⟨rfl, hp.rest, hp.empty, fun _ => nofun⟩
  | holds => exact ⟨rfl, hp⟩
  | drives _ ht =>
    rw [hnone] at ht
    cases ht
  | passes ha | strays ha | laps ha | dumps ha | loads ha | stops ha =>
    have ht := ha.known
    rw [hnone] at ht
    cases ht

variable [SignedScalar α]

theorem Parked.advance (h : Parked v n) (dt : α) :
    Parked (v.advance dt) n ∧ (v.advance dt).position = v.position := by
  obtain ⟨hrest, hposition⟩ := h.rest.advance dt
  refine ⟨⟨hrest, h.empty, fun hs hw => ?_⟩, hposition⟩
  have hkind := Vehicle.sameKind_advance v dt
  rw [Fleet.Steers, hkind.active, hkind.category] at hs
  rw [Vehicle.cycle_advance]
  exact h.stays hs hw

namespace Member

theorem Part.parked (h : Part layout dt m m') (hp : Parked m.vehicle m.navigation) :
    Parked m'.vehicle m'.navigation ∧ m'.vehicle.position = m.vehicle.position := by
  cases h with
  | still => exact ⟨hp, rfl⟩
  | steers _ hs hmove =>
    obtain ⟨rfl, hparked⟩ := hmove.parked hs hp
    exact hparked.advance dt
  | coasts => exact hp.advance dt

theorem run_parked (hb : m.vehicle.spec.Bounded) (hp : Parked m.vehicle m.navigation)
    (layout : Layout α) (dts : List α) :
    (m.run layout dts).vehicle.position = m.vehicle.position := by
  have hnext (m₁ m₂ : Member α) (dt : α)
      (h₁ : Parked m₁.vehicle m₁.navigation ∧ m₁.vehicle.position = m.vehicle.position)
      (h : Part layout dt m₁ m₂) :
      Parked m₂.vehicle m₂.navigation ∧ m₂.vehicle.position = m.vehicle.position := by
    obtain ⟨hparked, hposition⟩ := h.parked h₁.1
    exact ⟨hparked, hposition.trans h₁.2⟩
  exact (run_of_next hnext dts hb ⟨hp, rfl⟩).2.2

end Member

namespace VehicleSetup

variable {s : VehicleSetup α}

/-- The vehicle is to set out when its waiting time is over. -/
def Departs (s : VehicleSetup α) : Prop :=
  s.active = true ∧ s.readCategory ≠ .ok .excavator ∧ 0.0 < s.waitSeconds
    ∧ (s.readCycle = .ok .loading ∨ s.readCycle = .ok .dumping)

omit [SignedScalar α] in
theorem waiting_navigation (s : VehicleSetup α) (category : Category) (cycle : Cycle) :
    (s.navigation category cycle).waiting = true ↔ 0.0 < s.waitSeconds := by
  unfold navigation
  dsimp only
  split
  · exact iff_of_true rfl ‹_›
  · exact iff_of_false (by simp [withHaulRoute, following]) ‹_›

omit [SignedScalar α] in
theorem waitTimer_navigation {category : Category} {cycle : Cycle} (h : 0.0 < s.waitSeconds) :
    (s.navigation category cycle).waitTimer = s.waitSeconds := by
  simp [navigation, withHaulRoute, waitingFor, h]

omit [SignedScalar α] in
theorem turn_of_waiting {n : Navigation α} (hheading : s.heading = none) (hw : n.waiting = true)
    (layout : Layout α) (v : Vehicle α) : s.turn layout v n = v := by
  simp [turn, face, hheading, hw]

theorem Describes.atRest (h : s.Describes layout m) (hspeed : Scalar.IsZero s.speed)
    (htarget : Scalar.IsZero s.targetSpeed) : m.vehicle.AtRest := by
  cases h with
  | @mk category cycle start =>
    obtain ⟨heading, hturn⟩ := exists_turn_eq layout s (s.placed category cycle start)
      (s.navigation category cycle)
    have htop := (category.spec_bounded (α := α)).maxSpeed
    dsimp only
    rw [hturn]
    refine ⟨?_, ?_⟩
    · show Scalar.IsZero (Vehicle.limited category.spec.maxSpeed s.speed)
      rw [Vehicle.limited_of_isZero htop hspeed]
      exact hspeed
    · show Vehicle.limited category.spec.maxSpeed s.targetSpeed ≤ 0.0
      rw [Vehicle.limited_of_isZero htop htarget]
      exact htarget.1

omit [SignedScalar α] in
theorem Describes.departs (h : s.Describes layout m) (hs : Fleet.Steers m.vehicle)
    (hw : m.navigation.waiting = true)
    (hc : m.vehicle.cycle = .loading ∨ m.vehicle.cycle = .dumping) : s.Departs := by
  cases h with
  | @mk category cycle start hcategory hcycle =>
    obtain ⟨heading, hturn⟩ := exists_turn_eq layout s (s.placed category cycle start)
      (s.navigation category cycle)
    dsimp only at hs hw hc
    rw [hturn] at hs hc
    refine ⟨hs.1, ?_, (s.waiting_navigation category cycle).1 hw, ?_⟩
    · rw [hcategory]
      exact fun hdigs => hs.2 (Except.ok.inj hdigs)
    · rw [hcycle]
      exact hc.imp (congrArg Except.ok) (congrArg Except.ok)

theorem Describes.parked (h : s.Describes layout m) (hroute : s.route = [])
    (hspeed : Scalar.IsZero s.speed) (htarget : Scalar.IsZero s.targetSpeed)
    (hstays : ¬ s.Departs) : Parked m.vehicle m.navigation := by
  refine ⟨h.atRest hspeed htarget, ?_, fun hs hw => ?_⟩
  · rw [h.route]
    exact hroute
  · exact not_or.1 fun hc => hstays (h.departs hs hw hc)

end VehicleSetup

namespace Fleet

/-- A vehicle that is set up at rest on an empty route, and not to depart, is at its start in every
state that the fleet reaches. -/
theorem position_of_parked {s : Scenario α} {f : Fleet α} (hf : (ofScenario s).run = .ok (.ok f))
    {i : ℕ} {t : VehicleSetup α} (ht : s.vehicles[i]? = some t) (hroute : t.route = [])
    (hspeed : Scalar.IsZero t.speed) (htarget : Scalar.IsZero t.targetSpeed)
    (hstays : ¬ t.Departs) (dts : List α) :
    ∃ g m, f.updates dts = .ok g ∧ g.member? i = some m
      ∧ s.layout.get? t.start = some m.vehicle.position := by
  obtain ⟨ms, m, hlayout, hc, hm, hdesc⟩ := exists_describes hf ht
  have hparked := hdesc.parked hroute hspeed htarget hstays
  obtain ⟨g, hg, -, -, hgm⟩ := hc.run hm dts
  have hrun := Member.run_parked (hc.bounded m (List.mem_of_getElem? hm)) hparked f.layout dts
  refine ⟨g, m.run f.layout dts, hg, hgm, ?_⟩
  rw [hrun]
  exact hdesc.position

/-- A truck in doubles that hauls nowhere and waits a minute first. -/
theorem position_of_parked_waitingTruck :
    ∃ f, (ofScenario (.lone (.truck [] "hauling" (60.0 : Float)))).run = .ok (.ok f)
      ∧ ∃ g m, f.updates [45.0, 45.0] = .ok g ∧ g.member? 0 = some m
        ∧ (.pit : Layout Float).get? "PIT_LOAD_1" = some m.vehicle.position := by
  have hcycle : Cycle.ofTag? "hauling" = some .hauling := by decide
  have hzero : Scalar.IsZero (0.0 : Float) := by
    unfold Scalar.IsZero
    decide +kernel
  have hroute : ∀ name ∈ ([] : List String), name ∈ Route.haul.waypoints := by simp
  obtain ⟨f, hf⟩ := exists_ofScenario_truck hroute hcycle (60.0 : Float)
  have hstays : ¬ (VehicleSetup.truck [] "hauling" (60.0 : Float)).Departs := by
    rintro ⟨-, -, -, hc⟩
    simp [VehicleSetup.readCycle, VehicleSetup.truck, hcycle] at hc
  have hrun := position_of_parked hf (i := 0) rfl rfl hzero hzero hstays [45.0, 45.0]
  rw [layout_lone] at hrun
  exact ⟨f, hf, hrun⟩

end Fleet

section Exact

/-! In exact arithmetic, to follow a truck that sets out. -/

namespace Vehicle

theorem limited_real {l x : ℝ} (h : 0 ≤ x) (hl : x ≤ l) : limited l x = x := by
  unfold limited
  rw [zero_real]
  simp [Scalar.isNaN, not_lt.2 h, not_lt.2 hl]

variable {v : Vehicle ℝ} (hspeed : v.telemetry.speed = 0) (htarget : v.targetSpeed = 35)
include hspeed htarget

theorem nextSpeed_settingOut : v.nextSpeed 1.0 = 36 / 5 := by
  unfold nextSpeed
  rw [hspeed, htarget, kmh_real]
  simp only [Scalar.abs, speedDeadBand, Scalar.max, Scalar.min, Scalar.isNaN, accelerationRate]
  norm_num

theorem latitude_settingOut (hactive : v.active = true) (hheading : v.telemetry.heading = 0) :
    v.position.latitude < (v.advance 1.0).position.latitude := by
  have hstep : Scalar.IsStep (1.0 : ℝ) := ⟨rfl, by norm_num⟩
  have hposition : (v.advance 1.0).position = v.position.offset 2 0 := by
    rw [advance, if_pos ⟨hactive, hstep⟩, move]
    simp only [nextPosition, nextSpeed_settingOut hspeed htarget, hheading, kmh_real,
      negligibleSpeed]
    norm_num
    rw [displace_north]
  have hnorth : (0 : ℝ) < 2 / 6371000 * (180 / Real.pi) := by
    have := Real.pi_pos
    positivity
  rw [hposition, offset_east_zero, earthRadius_real]
  dsimp only
  linarith

end Vehicle

/-- When its loading time is over a vehicle that faces north drives off, whatever its route is. -/
theorem Member.latitude_lt_next {m : Member ℝ} (layout : Layout ℝ) (hb : m.vehicle.spec.Bounded)
    (hs : Fleet.Steers m.vehicle) (hwaits : m.navigation.waiting = true)
    (hover : m.navigation.waitTimer ≤ 1) (hcycle : m.vehicle.cycle = .loading)
    (hspeed : m.vehicle.telemetry.speed = 0) (hheading : m.vehicle.telemetry.heading = 0)
    (htop : 35 ≤ m.vehicle.spec.maxSpeed) :
    m.vehicle.position.latitude < (m.next layout 1.0).vehicle.position.latitude := by
  have hstep : Scalar.IsStep (1.0 : ℝ) := ⟨rfl, by norm_num⟩
  have htime : m.navigation.waitTimer - 1.0 ≤ (0.0 : ℝ) := by
    norm_num
    exact hover
  have hpart := next_part hb layout 1.0
  generalize m.next layout 1.0 = m' at hpart ⊢
  cases hpart with
  | still hdt => exact absurd hstep hdt
  | coasts _ hdigs => exact absurd hs hdigs
  | steers _ _ hmove =>
    cases hmove with
    | hauls =>
      have hhaul : (haulSpeed : ℝ) = 35 := by
        unfold haulSpeed
        norm_num
      have htarget : (((m.vehicle.setCycle .hauling).load m.vehicle.spec.maxPayload).aim
          haulSpeed).targetSpeed = 35 := by
        show Vehicle.limited m.vehicle.spec.maxSpeed haulSpeed = 35
        rw [hhaul, Vehicle.limited_real (by norm_num) htop]
      exact Vehicle.latitude_settingOut
        (v := ((m.vehicle.setCycle .hauling).load m.vehicle.spec.maxPayload).aim haulSpeed)
        hspeed htarget hs.1 hheading
    | waits _ ht => exact absurd htime ht
    | returns _ hc =>
      rw [hcycle] at hc
      cases hc
    | rests _ hl => exact absurd hcycle hl
    | holds hw | drives hw =>
      rw [hwaits] at hw
      cases hw
    | passes ha | strays ha | laps ha | dumps ha | loads ha | stops ha =>
      have hw := ha.driving
      rw [hwaits] at hw
      cases hw

namespace Fleet

/-- A truck that is set up at rest on an empty route, to load for a second, leaves its start. -/
theorem loadingTruck_leaves :
    ∃ f, (ofScenario (.lone (.truck [] "loading" (1.0 : ℝ)))).run = .ok (.ok f)
      ∧ ∃ g m₀ m, f.updates [1.0] = .ok g ∧ f.member? 0 = some m₀ ∧ g.member? 0 = some m
        ∧ m.vehicle.position ≠ m₀.vehicle.position := by
  have hcycle : Cycle.ofTag? "loading" = some .loading := by decide
  have hcategory : Category.ofTag? "haul_truck" = some .haulTruck := by decide
  have hroute : ∀ name ∈ ([] : List String), name ∈ Route.haul.waypoints := by simp
  have hwait : (0.0 : ℝ) < (VehicleSetup.truck [] "loading" (1.0 : ℝ)).waitSeconds := by
    show (0.0 : ℝ) < 1.0
    norm_num
  obtain ⟨f, hf⟩ := exists_ofScenario_truck hroute hcycle (1.0 : ℝ)
  obtain ⟨ms, m, -, hc, hm, hdesc⟩ := exists_describes hf (i := 0) rfl
  obtain ⟨g, hg, -, -, hgm⟩ := hc.run hm [1.0]
  have hb := hdesc.bounded
  have hmoves : m.vehicle.position.latitude < (m.next f.layout 1.0).vehicle.position.latitude := by
    cases hdesc with
    | @mk category cycle start h₁ h₂ =>
      obtain rfl : Category.haulTruck = category := by
        simpa [VehicleSetup.readCategory, VehicleSetup.truck, hcategory] using h₁
      obtain rfl : Cycle.loading = cycle := by
        simpa [VehicleSetup.readCycle, VehicleSetup.truck, hcycle] using h₂
      have hwaits := (VehicleSetup.waiting_navigation _ .haulTruck .loading).2 hwait
      rw [VehicleSetup.turn_of_waiting rfl hwaits] at hb ⊢
      have htruck : Category.haulTruck ≠ .excavator := by decide
      refine Member.latitude_lt_next f.layout hb ⟨rfl, htruck⟩ hwaits ?_ rfl ?_ zero_real ?_
      · dsimp only
        rw [VehicleSetup.waitTimer_navigation hwait]
        show (1.0 : ℝ) ≤ 1
        norm_num
      · show Vehicle.limited (45.0 : ℝ) 0.0 = 0
        rw [zero_real, Vehicle.limited_real le_rfl (by norm_num)]
      · show (35 : ℝ) ≤ 45.0
        norm_num
  refine ⟨f, hf, g, m, _, hg, ?_, hgm, fun hsame => hmoves.ne' (congrArg _ hsame)⟩
  rw [hc.member?, hm]

end Fleet

end Exact

end PitFleet
