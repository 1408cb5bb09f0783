import Mathlib
import PitFleet.Proofs.Fleet.Validation
import PitFleet.Proofs.Scalar.Signs
import PitFleet.Scenario.Pit

/-!
# The built-in fleet and its scenario

Two members are alike when their vehicles are equal and, if these steer, their navigations too; they
then stay alike (`Member.Alike.run`), so that fleets of alike members show the same vehicles after
every run. The scenario of the built-in pit describes members that are alike to those of the
built-in fleet (`alike_pit`): only the excavators differ, which never steer. One waits for ever and
faces north, the other has a waypoint and faces it, but stands on it.
-/

namespace PitFleet

open Navigation

/-- Scalars that hold the figures of the built-in pit. -/
class PitScalar (α : Type) [Scalar α] : Prop extends OrderedScalar α where
  haulSpeed_nonneg : (0.0 : α) ≤ 35.0
  haulSpeed_le : (35.0 : α) ≤ 45.0
  loadingTime_pos : (0.0 : α) < 120.0
  latitude_sub_self : (-20.12200 : α) - -20.12200 = 0.0
  longitude_sub_self : (-43.95200 : α) - -43.95200 = 0.0
  zero_mul {x : α} : 0.0 < x → Scalar.isFinite x = true → 0.0 * x = 0.0
  degrees_zero : Scalar.degrees (0.0 : α) = 0.0
  normalize_zero : Heading.normalize (0.0 : α) = 0.0

open Double in
theorem Double.zero_mul {x : Float} (hpos : 0.0 < x) (hfin : x.isFinite = true) :
    0.0 * x = 0.0 := by
  obtain ⟨m, e, hm, hx⟩ := exists_finite_positive hpos hfin
  have hzero : (0.0 : Float).toModel.unpack = .zero .positive := rfl
  change Float.ofModel (.pack (.mul .binary64 (0.0 : Float).toModel.unpack x.toModel.unpack)) = _
  rw [hx, hzero]
  rfl

instance : PitScalar Float where
  haulSpeed_nonneg := by decide +kernel
  haulSpeed_le := by decide +kernel
  loadingTime_pos := by decide +kernel
  latitude_sub_self := by decide +kernel
  longitude_sub_self := by decide +kernel
  zero_mul := Double.zero_mul
  degrees_zero := by decide +kernel
  normalize_zero := by decide +kernel

instance : PitScalar ℝ where
  haulSpeed_nonneg := by norm_num
  haulSpeed_le := by norm_num
  loadingTime_pos := by norm_num
  latitude_sub_self := by norm_num
  longitude_sub_self := by norm_num
  zero_mul _ _ := by norm_num
  degrees_zero := by
    rw [degrees_real]
    norm_num
  normalize_zero := by
    simp only [Heading.normalize, Heading.turnRemainder, Scalar.rem]
    norm_num

variable {α : Type} [Scalar α]

namespace Member

structure Alike (m m' : Member α) : Prop where
  vehicle : m'.vehicle = m.vehicle
  navigation : Fleet.Steers m.vehicle → m'.navigation = m.navigation

namespace Alike

variable {m m' : Member α}

omit [Scalar α] in
theorem refl (m : Member α) : Alike m m :=
  ⟨rfl, fun _ => rfl⟩

theorem next (h : Alike m m') (layout : Layout α) (dt : α) :
    Alike (m.next layout dt) (m'.next layout dt) := by
  obtain ⟨v, n⟩ := m
  obtain ⟨v', n'⟩ := m'
  obtain rfl : v' = v := h.vehicle
  by_cases hs : Fleet.Steers v'
  · obtain rfl : n' = n := h.navigation hs
    exact .refl _
  by_cases hdt : Scalar.IsStep dt
  · have hcoast (n : Navigation α) : (⟨v', n⟩ : Member α).next layout dt = ⟨v'.advance dt, n⟩ :=
      next_of_step hdt (if_neg hs)
    have hkind := Vehicle.sameKind_advance v' dt
    rw [hcoast, hcoast]
    refine ⟨rfl, fun hsteers => absurd ?_ hs⟩
    rwa [Fleet.Steers, hkind.active, hkind.category] at hsteers
  · rw [Member.next, Member.next, if_neg hdt, if_neg hdt]
    exact h

theorem run (layout : Layout α) : ∀ (dts : List α) {m m' : Member α}, Alike m m' →
    Alike (m.run layout dts) (m'.run layout dts)
  | [], _, _, h => h
  | dt :: dts, _, _, h => run layout dts (h.next layout dt)

end Alike

end Member

namespace Fleet

/-- Fleets of alike members show the same vehicles after the same updates. -/
theorem Consists.vehicles_of_alike {f g : Fleet α} {ms ms' : List (Member α)}
    (hf : f.Consists ms) (hg : g.Consists ms') (hlayout : g.layout = f.layout)
    (h : List.Forall₂ Member.Alike ms ms') (dts : List α) :
    ∃ f' g', f.updates dts = .ok f' ∧ g.updates dts = .ok g' ∧ g'.vehicles = f'.vehicles := by
  obtain ⟨f', hf', -, hcf⟩ := updates_consists dts hf
  obtain ⟨g', hg', -, hcg⟩ := updates_consists dts hg
  refine ⟨f', g', hf', hg', ?_⟩
  rw [hcf.vehicles, hcg.vehicles, hlayout]
  clear hf hg hcf hcg
  induction h with
  | nil => rfl
  | cons hm _ ih =>
    simp only [List.map_cons]
    rw [(hm.run f.layout dts).vehicle, ih]

end Fleet

namespace VehicleSetup

variable {layout : Layout α} {s : VehicleSetup α} {m : Member α}

/-- What the tags and the start of a setup come to. -/
structure Reads (layout : Layout α) (s : VehicleSetup α) (category : Category) (cycle : Cycle)
    (start : Position α) : Prop where
  category : s.readCategory = .ok category
  cycle : s.readCycle = .ok cycle
  start : layout.get? s.start = some start

namespace Reads

variable {category : Category} {cycle : Cycle} {start : Position α}

omit [Scalar α] in
theorem of_tags {tag : String} (hcategory : Category.ofTag? s.category = some category)
    (htag : s.cycle = some tag) (hcycle : Cycle.ofTag? tag = some cycle)
    (hstart : layout.get? s.start = some start) : Reads layout s category cycle start := by
  refine ⟨?_, ?_, hstart⟩
  · rw [readCategory, hcategory]
  · rw [readCycle, htag]
    simp only [hcycle]

omit [Scalar α] in
theorem of_tag (hcategory : Category.ofTag? s.category = some category) (hcycle : s.cycle = none)
    (hstart : layout.get? s.start = some start) : Reads layout s category .idle start := by
  refine ⟨?_, ?_, hstart⟩
  · rw [readCategory, hcategory]
  · rw [readCycle, hcycle]

variable (h : Reads layout s category cycle start)
include h

omit [Scalar α] in
theorem readable : s.Readable layout where
  category := by
    have hcategory := h.category
    unfold readCategory at hcategory
    split at hcategory
    · rw [‹Category.ofTag? s.category = _›]
      rfl
    · cases hcategory
  cycle := by
    rintro tag htag
    have hcycle := h.cycle
    rw [readCycle, htag] at hcycle
    rcases hread : Cycle.ofTag? tag with _ | c
    · simp [hread] at hcycle
    · rfl
  start := by
    rw [Registry.contains, h.start]
    rfl

theorem describes_eq (hm : s.Describes layout m) :
    m = ⟨s.turn layout (s.placed category cycle start) (s.navigation category cycle),
      s.navigation category cycle⟩ := by
  cases hm with
  | mk hcategory hcycle hstart =>
    obtain rfl := Except.ok.inj (hcategory.symm.trans h.category)
    obtain rfl := Except.ok.inj (hcycle.symm.trans h.cycle)
    rw [findStart, h.start] at hstart
    obtain rfl := Except.ok.inj hstart
    rfl

/-- Without a heading of its own the vehicle faces its waypoint. -/
theorem alike_face {v : Vehicle α} {n : Navigation α} (hm : s.Describes layout m)
    (hheading : s.heading = none) (hv : s.placed category cycle start = v)
    (hn : s.navigation category cycle = n) : Member.Alike m ⟨face layout v n, n⟩ := by
  rw [h.describes_eq hm, hv, hn, turn, hheading]
  exact .refl _

end Reads

/-- A setup that keeps to the figures of its category is taken as it stands. -/
theorem placed_eq [OrderedScalar α] {category : Category}
    (hspeed : (0.0 : α) ≤ s.speed ∧ s.speed ≤ category.spec.maxSpeed)
    (htarget : (0.0 : α) ≤ s.targetSpeed ∧ s.targetSpeed ≤ category.spec.maxSpeed)
    (hload : (0.0 : α) ≤ s.payload ∧ s.payload ≤ category.spec.maxPayload) (cycle : Cycle)
    (start : Position α) :
    s.placed category cycle start = { Vehicle.new s.id category start with
      cycle := cycle
      telemetry := { Telemetry.atRest with speed := s.speed, payload := s.payload }
      targetSpeed := s.targetSpeed
      active := s.active } := by
  have hspeed' := Vehicle.limited_of_mem hspeed.1 hspeed.2
  have htarget' := Vehicle.limited_of_mem htarget.1 htarget.2
  have hload' := Vehicle.limited_of_mem hload.1 hload.2
  simp only [placed, Vehicle.drive, Vehicle.aim, Vehicle.load, Vehicle.setCycle,
    Vehicle.setActive, Vehicle.new, Vehicle.withSpec, hspeed', htarget', hload']

theorem navigation_of_not_wait {category : Category} {cycle : Cycle}
    (h : ¬ (0.0 : α) < s.waitSeconds) (hcycle : cycle ≠ .returning) :
    s.navigation category cycle = .following ⟨s.route⟩ s.waypointIndex.toNat
      (s.arrivalThreshold.getD category.arrivalThreshold) := by
  simp only [navigation, if_neg h, haulRoute, if_neg hcycle]
  rfl

end VehicleSetup

section Pit

namespace Layout

theorem contains_pit_of_mem_patrol {name : String} (h : name ∈ Route.patrol.waypoints) :
    (pit : Layout α).contains name = true := by
  simp only [Route.patrol, List.mem_cons, List.not_mem_nil, or_false] at h
  rcases h with rfl | rfl | rfl | rfl <;>
    simp [pit, Registry.ofList, Registry.contains, Registry.get?_insert]

end Layout

theorem Scenario.layout_pit : (pit : Scenario α).layout = .pit :=
  rfl

theorem Scenario.reads_pit : List.Forall₂ (fun s r => s.Reads .pit r.1 r.2.1 r.2.2)
    (pit : Scenario α).vehicles
    [(.haulTruck, .loading, ⟨-20.12200, -43.95200, 820.0⟩),
      (.haulTruck, .hauling, ⟨-20.11800, -43.94800, 890.0⟩),
      (.haulTruck, .hauling, ⟨-20.11600, -43.94600, 900.0⟩),
      (.excavator, .idle, ⟨-20.12200, -43.95200, 820.0⟩),
      (.lightVehicle, .hauling, ⟨-20.11950, -43.94950, 870.0⟩)] := by
  have htruck : Category.ofTag? "haul_truck" = some .haulTruck := by decide
  have hdigger : Category.ofTag? "excavator" = some .excavator := by decide
  have hlight : Category.ofTag? "light_vehicle" = some .lightVehicle := by decide
  have hloading : Cycle.ofTag? "loading" = some .loading := by decide
  have hhauling : Cycle.ofTag? "hauling" = some .hauling := by decide
  exact .cons (.of_tags htruck rfl hloading Layout.get?_pit_load) <|
    .cons (.of_tags htruck rfl hhauling Layout.get?_road) <|
    .cons (.of_tags htruck rfl hhauling Layout.get?_dumpApproach) <|
    .cons (.of_tag hdigger rfl Layout.get?_pit_load) <|
    .cons (.of_tags hlight rfl hhauling Layout.get?_patrol) .nil

namespace Fleet

theorem allValid_pit : AllValid (.pit : Layout α) [] (Scenario.pit : Scenario α).vehicles := by
  have hhaul (name : String) (h : name ∈ Scenario.haulNames) :
      (Layout.pit : Layout α).contains name = true := Layout.contains_pit_of_mem_haul h
  have hpatrol (name : String) (h : name ∈ Route.patrol.waypoints) :
      (Layout.pit : Layout α).contains name = true := Layout.contains_pit_of_mem_patrol h
  have hload (name : String) (h : name ∈ ["PIT_LOAD_1"]) :
      (Layout.pit : Layout α).contains name = true :=
    Layout.contains_pit_of_mem_haul (List.mem_singleton.1 h ▸ .head _)
  have hreads := Scenario.reads_pit (α := α)
  simp only [Scenario.pit, List.forall₂_cons] at hreads
  obtain ⟨h₁, h₂, h₃, h₄, h₅, -⟩ := hreads
  have hlt {i n : ℕ} (h : decide (i < n) = true) : i < n := of_decide_eq_true h
  have fresh {id : String} {ids : List String} (h : decide (id ∉ ids) = true) : id ∉ ids :=
    of_decide_eq_true h
  exact allValid_cons.2 ⟨⟨h₁.readable, fresh rfl, hhaul, .inr (hlt rfl)⟩,
    allValid_cons.2 ⟨⟨h₂.readable, fresh rfl, hhaul, .inr (hlt rfl)⟩,
    allValid_cons.2 ⟨⟨h₃.readable, fresh rfl, hhaul, .inr (hlt rfl)⟩,
    allValid_cons.2 ⟨⟨h₄.readable, fresh rfl, hload, .inr (hlt rfl)⟩,
    allValid_cons.2 ⟨⟨h₅.readable, fresh rfl, hpatrol, .inr (hlt rfl)⟩, allValid_nil⟩⟩⟩⟩⟩

end Fleet

namespace Fleet

variable [PitScalar α] (hnorth : Scalar.atan2 (0.0 : α) 0.0 = 0.0)
  (hcos : (0.0 : α) < Scalar.cos (Scalar.radians (-20.12200)))
  (hfinite : Scalar.isFinite (Scalar.cos (Scalar.radians (-20.12200 : α))) = true)
include hnorth hcos hfinite

theorem face_load_self {v : Vehicle α} (hposition : v.position = ⟨-20.12200, -43.95200, 820.0⟩)
    (hheading : v.telemetry.heading = 0.0) (threshold : α) :
    face .pit v (.following ⟨["PIT_LOAD_1"]⟩ 0 threshold) = v := by
  have hbearing : v.position.bearing ⟨-20.12200, -43.95200, 820.0⟩ = 0.0 := by
    rw [hposition]
    simp only [Position.bearing]
    rw [PitScalar.latitude_sub_self, PitScalar.longitude_sub_self,
      PitScalar.zero_mul hcos hfinite, hnorth, PitScalar.degrees_zero, PitScalar.normalize_zero]
  have hcurrent : (Navigation.following ⟨["PIT_LOAD_1"]⟩ 0 threshold).current?
      = some "PIT_LOAD_1" := rfl
  have hmoving : ¬ (Navigation.following ⟨["PIT_LOAD_1"]⟩ 0 threshold).waiting = true :=
    Bool.false_ne_true
  rw [face, if_neg hmoving, target?, hcurrent, Option.bind_some, Layout.get?_pit_load]
  simp only
  rw [steer, hbearing, Vehicle.setHeading, PitScalar.normalize_zero, ← hheading]

theorem alike_pit {ms : List (Member α)}
    (h : List.Forall₂ (fun s m => s.Describes .pit m) Scenario.pit.vehicles ms) :
    List.Forall₂ Member.Alike ms (crew.map fun (v, n) => (⟨face .pit v n, n⟩ : Member α)) := by
  have hreads := Scenario.reads_pit (α := α)
  simp only [Scenario.pit, List.forall₂_cons] at hreads
  simp only [Scenario.pit, List.forall₂_cons_left_iff, List.forall₂_nil_left_iff] at h
  obtain ⟨r₁, r₂, r₃, r₄, r₅, -⟩ := hreads
  obtain ⟨m₁, _, h₁, ⟨m₂, _, h₂, ⟨m₃, _, h₃, ⟨m₄, _, h₄, ⟨m₅, _, h₅, rfl, rfl⟩, rfl⟩, rfl⟩, rfl⟩,
    rfl⟩ := h
  have hrest {n : ℕ} (hn : n ∈ Scalar.figures) :
      (0.0 : α) ≤ 0.0 ∧ (0.0 : α) ≤ Scalar.tenths n :=
    ⟨Scalar.tenths_zero_le (n := 0) (by decide), Scalar.tenths_zero_le hn⟩
  have hstill : ¬ (0.0 : α) < 0.0 := Scalar.lt_irrefl _
  have htruck := hrest (n := 450) (by decide)
  have hfull : (0.0 : α) ≤ 220.0 ∧ (220.0 : α) ≤ 220.0 :=
    ⟨Scalar.tenths_zero_le (n := 2200) (by decide),
      Scalar.tenths_le (m := 2200) (n := 2200) (by decide) (by decide) le_rfl⟩
  have hhaul : (0.0 : α) ≤ 35.0 ∧ (35.0 : α) ≤ 45.0 :=
    ⟨PitScalar.haulSpeed_nonneg, PitScalar.haulSpeed_le⟩
  have hpatrol : (0.0 : α) ≤ 45.0 ∧ (45.0 : α) ≤ 60.0 :=
    ⟨htruck.2, Scalar.tenths_le (m := 450) (n := 600) (by decide) (by decide) (by decide)⟩
  refine .cons ?loading (.cons ?onRoad (.cons ?atDump (.cons ?digger (.cons ?light .nil))))
  case loading =>
    refine r₁.alike_face h₁ rfl ?_ ?_
    · exact VehicleSetup.placed_eq htruck htruck (hrest (n := 2200) (by decide)) _ _
    · rw [VehicleSetup.navigation, if_pos PitScalar.loadingTime_pos]
      rfl
  case onRoad =>
    exact r₂.alike_face h₂ rfl (VehicleSetup.placed_eq htruck hhaul hfull _ _)
      (VehicleSetup.navigation_of_not_wait hstill (by decide))
  case atDump =>
    exact r₃.alike_face h₃ rfl (VehicleSetup.placed_eq htruck hhaul hfull _ _)
      (VehicleSetup.navigation_of_not_wait hstill (by decide))
  case light =>
    exact r₅.alike_face h₅ rfl (VehicleSetup.placed_eq (hrest (n := 600) (by decide)) hpatrol
      (hrest (n := 0) (by decide)) _ _) (VehicleSetup.navigation_of_not_wait hstill (by decide))
  case digger =>
    -- The excavator of the scenario faces the place where it stands.
    let digger : Vehicle α := .new "EX-201" .excavator ⟨-20.12200, -43.95200, 820.0⟩
    have hdigger : Member.Alike m₄
        ⟨face .pit digger (.following ⟨["PIT_LOAD_1"]⟩ 0 5.0), .following ⟨["PIT_LOAD_1"]⟩ 0 5.0⟩ :=
      r₄.alike_face h₄ rfl (VehicleSetup.placed_eq (hrest (n := 50) (by decide))
        (hrest (n := 50) (by decide)) (hrest (n := 0) (by decide)) _ _)
        (VehicleSetup.navigation_of_not_wait hstill (by decide))
    rw [face_load_self hnorth hcos hfinite rfl rfl] at hdigger
    refine ⟨hdigger.vehicle, fun hsteers => absurd ?_ hsteers.2⟩
    exact congrArg Vehicle.category hdigger.vehicle.symm

/-- The built-in scenario describes a fleet, and after every run it shows the packets and the alerts
of the built-in one. -/
theorem ofScenario_pit_shows : ∃ f, (ofScenario (.pit : Scenario α)).run = .ok (.ok f)
    ∧ ∀ dts, ∃ f' g', f.updates dts = .ok f' ∧ (pit : Fleet α).updates dts = .ok g'
      ∧ ∀ now, f'.telemetry now = g'.telemetry now ∧ f'.alerts now = g'.alerts now := by
  obtain ⟨f, hf⟩ := ofScenario_of_allValid (s := (.pit : Scenario α)) allValid_pit
  obtain ⟨ms, hlayout, hc, hms⟩ := ofScenario_consists hf
  refine ⟨f, hf, fun dts => ?_⟩
  have halike := alike_pit hnorth hcos hfinite hms
  have hpit : (pit : Fleet α).layout = f.layout := by
    rw [layout_pit, hlayout, Scenario.layout_pit]
  obtain ⟨f', g', hf', hg', hvehicles⟩ :=
    hc.vehicles_of_alike pit_consists_crew hpit halike dts
  refine ⟨f', g', hf', hg', fun now => ?_⟩
  rw [telemetry, telemetry, alerts, alerts, hvehicles]
  exact ⟨rfl, rfl⟩

omit hnorth hcos hfinite in
theorem ofScenario_pit_shows_real : ∃ f, (ofScenario (.pit : Scenario ℝ)).run = .ok (.ok f)
    ∧ ∀ dts, ∃ f' g', f.updates dts = .ok f' ∧ (pit : Fleet ℝ).updates dts = .ok g'
      ∧ ∀ now, f'.telemetry now = g'.telemetry now ∧ f'.alerts now = g'.alerts now := by
  refine ofScenario_pit_shows ?_ ?_ rfl
  · show Complex.arg ⟨0.0, 0.0⟩ = 0.0
    norm_num
    exact Complex.arg_zero
  · show (0.0 : ℝ) < Real.cos (Scalar.radians (-20.12200))
    have hpi := Real.pi_pos
    have hcos : 0 < Real.cos (Scalar.radians (-20.12200)) := by
      refine Real.cos_pos_of_mem_Ioo ⟨?_, ?_⟩ <;> rw [radians_real] <;> linarith
    norm_num at hcos ⊢
    exact hcos

end Fleet

end Pit

end PitFleet
