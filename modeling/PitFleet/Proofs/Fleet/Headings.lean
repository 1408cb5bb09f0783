import Mathlib
import PitFleet.Proofs.Fleet.Building
import PitFleet.Proofs.Number.Remainder
import PitFleet.Proofs.Vehicle.Operations

/-!
# Headings over a run

A heading is that of the angle that was written last, made normal (`heading_performAll`,
`heading_run`). Operations write what they are given, and a vehicle that is on its way writes the
course to its waypoint. In doubles a heading is within one turn exactly if that angle is finite
(`heading_proper_iff`).
-/

namespace PitFleet

open Navigation

variable {α : Type} [Scalar α]

namespace Heading

/-- The heading of a vehicle that had `heading` and took the angle, if there is one. -/
def turned (angle? : Option α) (heading : α) : α :=
  angle?.elim heading normalize

theorem turned_or (a b : Option α) (heading : α) :
    turned (a.or b) heading = turned a (turned b heading) := by
  cases a <;> rfl

end Heading

namespace Vehicle

open Heading

theorem heading_advance (v : Vehicle α) (dt : α) :
    (v.advance dt).telemetry.heading = v.telemetry.heading := by
  unfold advance
  split <;> rfl

def Operation.angle? : Operation α → Option α
  | .setHeading heading => some heading
  | _ => none

/-- The angle that the last of the operations that take one takes. -/
def Operation.lastAngle? : List (Operation α) → Option α
  | [] => none
  | op :: ops => (lastAngle? ops).or op.angle?

theorem heading_perform {v w : Vehicle α} {op : Operation α} (h : v.perform op = .ok w) :
    w.telemetry.heading = turned op.angle? v.telemetry.heading := by
  cases op with
  | setTargetSpeed speed =>
    simp only [perform, setTargetSpeed] at h
    rcases hl : limit v.spec.maxSpeed speed with fault | x <;> rw [hl] at h <;> cases h
    rfl
  | setSpeed speed =>
    simp only [perform, setSpeed] at h
    rcases hl : limit v.spec.maxSpeed speed with fault | x <;> rw [hl] at h <;> cases h
    rfl
  | setPayload tonnes =>
    simp only [perform, setPayload] at h
    rcases hl : limit v.spec.maxPayload tonnes with fault | x <;> rw [hl] at h <;> cases h
    rfl
  | setHeading | setActive | setCycle | predict =>
    cases h
    rfl
  | advance dt =>
    cases h
    exact heading_advance v dt

theorem heading_performAll : ∀ (ops : List (Operation α)) {v w : Vehicle α},
    v.performAll ops = .ok w →
      w.telemetry.heading = turned (Operation.lastAngle? ops) v.telemetry.heading
  | [], v, w, h => by
    cases h
    rfl
  | op :: ops, v, w, h => by
    rw [performAll] at h
    rcases hop : v.perform op with fault | u <;> rw [hop] at h
    · cases h
    · rw [heading_performAll ops h, heading_perform hop, Operation.lastAngle?, turned_or]

end Vehicle

/-- The angle of the way from `a` to `b`, clockwise from north. -/
def Position.course (a b : Position α) : α :=
  Scalar.degrees (Scalar.atan2
    ((b.longitude - a.longitude) * Scalar.cos (Scalar.radians a.latitude))
    (b.latitude - a.latitude))

/-- The course to the current waypoint of a vehicle that is on its way. -/
def Navigation.course? (layout : Layout α) (v : Vehicle α) (n : Navigation α) : Option α :=
  if n.waiting then none else (n.target? layout).map v.position.course

namespace Navigation

open Heading

variable {layout : Layout α} {dt : α} {v v' : Vehicle α} {n n' : Navigation α}

theorem course?_of_waiting (layout : Layout α) (v : Vehicle α) (hw : n.waiting = true) :
    course? layout v n = none :=
  if_pos hw

theorem course?_of_target (hw : n.waiting = false) {target : Position α}
    (ht : n.target? layout = some target) :
    course? layout v n = some (v.position.course target) := by
  rw [course?, hw, ht]
  rfl

theorem heading_face (layout : Layout α) (v : Vehicle α) (n : Navigation α) :
    (face layout v n).telemetry.heading
      = turned ((course? layout v n).map Heading.normalize) v.telemetry.heading := by
  unfold face course?
  split
  · rfl
  · rcases n.target? layout with _ | target <;> rfl

theorem Move.heading (h : Move layout dt v n v' n') : v'.telemetry.heading
    = turned ((course? layout v n).map Heading.normalize) v.telemetry.heading := by
  cases h with
  | waits hw =>
    rw [course?_of_waiting layout v hw]
    rfl
  | hauls ht | returns ht | rests ht =>
    rw [course?_of_waiting layout v ht.1]
    rfl
  | holds hw ht =>
    rw [course?, hw, ht]
    rfl
  | drives hw ht =>
    rw [course?_of_target hw ht]
    rfl
  | passes ha | strays ha | laps ha | dumps ha | loads ha | stops ha =>
    rw [course?_of_target ha.driving ha.known]
    rfl

end Navigation

namespace Member

open Heading

variable {layout : Layout α} {dt : α} {m m' : Member α}

/-- The course that the member takes in an update. -/
def course? (layout : Layout α) (m : Member α) (dt : α) : Option α :=
  if Scalar.IsStep dt ∧ Fleet.Steers m.vehicle then
    Navigation.course? layout m.vehicle m.navigation
  else none

/-- The last course that the member takes in a run. -/
def lastCourse? (layout : Layout α) (m : Member α) : List α → Option α
  | [] => none
  | dt :: dts => ((m.next layout dt).lastCourse? layout dts).or (m.course? layout dt)

theorem Part.heading (h : Part layout dt m m') : m'.vehicle.telemetry.heading
    = turned ((m.course? layout dt).map Heading.normalize) m.vehicle.telemetry.heading := by
  cases h with
  | still hdt =>
    rw [course?, if_neg fun h => hdt h.1]
    rfl
  | steers hdt hs hmove =>
    rw [course?, if_pos ⟨hdt, hs⟩, Vehicle.heading_advance]
    exact hmove.heading
  | coasts _ hs =>
    rw [course?, if_neg fun h => hs h.2, Vehicle.heading_advance]
    rfl

theorem heading_run (layout : Layout α) : ∀ (dts : List α) {m : Member α},
    m.vehicle.spec.Bounded → (m.run layout dts).vehicle.telemetry.heading
      = turned ((m.lastCourse? layout dts).map Heading.normalize) m.vehicle.telemetry.heading
  | [], _, _ => rfl
  | dt :: dts, m, hb => by
    have hpart := next_part hb layout dt
    have hrun : m.run layout (dt :: dts) = (m.next layout dt).run layout dts := rfl
    rw [hrun, heading_run layout dts (hpart.bounded hb), hpart.heading, lastCourse?, Option.map_or,
      turned_or]

end Member

namespace VehicleSetup

open Heading

theorem Describes.heading {layout : Layout α} {s : VehicleSetup α} {m : Member α}
    (h : s.Describes layout m) : m.vehicle.telemetry.heading
      = turned (s.heading.or ((course? layout m.vehicle m.navigation).map Heading.normalize))
        0.0 := by
  cases h with
  | @mk category cycle start =>
    obtain ⟨heading, hturn⟩ := exists_turn_eq layout s (s.placed category cycle start)
      (s.navigation category cycle)
    have hcourse : course? layout (s.turn layout (s.placed category cycle start)
          (s.navigation category cycle)) (s.navigation category cycle)
        = course? layout (s.placed category cycle start) (s.navigation category cycle) := by
      rw [hturn]
      rfl
    dsimp only
    rw [hcourse]
    unfold turn
    rcases s.heading with _ | angle
    · exact heading_face ..
    · rfl

end VehicleSetup

section Doubles

open Heading

theorem Heading.proper_turned_iff {angle? : Option Float} {heading : Float} (h : Proper heading) :
    Proper (turned angle? heading) ↔ ∀ a ∈ angle?, a.isFinite = true := by
  cases angle? with
  | none => simpa [turned] using h
  | some a => simpa [turned] using proper_normalize_iff

/-- The heading of a vehicle is within one turn exactly if the last angle that it was told to take,
or took by itself, is finite. -/
theorem heading_proper_iff (id : String) (category : Category) (spec : Spec Float)
    (start : Position Float) (ops : List (Vehicle.Operation Float)) (s : Scenario Float) :
    (spec.Bounded → ∃ w, (Vehicle.withSpec id category spec start).performAll ops = .ok w)
      ∧ (∀ w, (Vehicle.withSpec id category spec start).performAll ops = .ok w →
        (Proper w.telemetry.heading ↔ ∀ a ∈ Vehicle.Operation.lastAngle? ops, a.isFinite = true))
      ∧ ∀ f, (Fleet.ofScenario s).run = .ok (.ok f) →
        ∀ i t, s.vehicles[i]? = some t → ∃ m, f.member? i = some m
          ∧ ∀ dts, ∃ g m', f.updates dts = .ok g ∧ g.member? i = some m'
            ∧ (Proper m'.vehicle.telemetry.heading
              ↔ ∀ a ∈ (m.lastCourse? f.layout dts).or
                (t.heading.or (course? f.layout m.vehicle m.navigation)), a.isFinite = true) := by
  have hnorth : Proper (0.0 : Float) := by decide +kernel
  refine ⟨fun hb => ⟨_, Vehicle.performAll_eq ops hb⟩, fun w hw => ?_, fun f hf i t ht => ?_⟩
  · rw [Vehicle.heading_performAll ops hw]
    exact proper_turned_iff hnorth
  · obtain ⟨ms, m, hlayout, hc, hm, hdesc⟩ := Fleet.exists_describes hf ht
    refine ⟨m, (hc.member? i).trans hm, fun dts => ?_⟩
    obtain ⟨g, hg, -, -, hgm⟩ := hc.run hm dts
    refine ⟨g, _, hg, hgm, ?_⟩
    rw [Member.heading_run f.layout dts (hc.bounded m (List.mem_of_getElem? hm)), hdesc.heading,
      ← turned_or, proper_turned_iff hnorth, hlayout]
    -- A course is made normal twice, as a bearing and as a heading; finite it stays both times.
    rcases m.lastCourse? s.layout dts with _ | last <;> rcases t.heading with _ | given <;>
      rcases course? s.layout m.vehicle m.navigation with _ | first <;>
      simp [isFinite_normalize_iff]

/-- A truck that turns west and back by a quarter more than a turn, and one that starts from a
scenario. -/
theorem heading_proper_truck :
    (∃ w, (Vehicle.new "HT-1" .haulTruck ⟨-20.122, -43.952, 820.0⟩ : Vehicle Float).performAll
        [.setHeading (0.0 / 0.0), .setHeading (-90.0), .advance 1.0, .setHeading 450.0] = .ok w
      ∧ Proper w.telemetry.heading)
      ∧ ∃ f, (Fleet.ofScenario (.lone (.truck [] "hauling" (60.0 : Float)))).run = .ok (.ok f)
        ∧ ∃ m, f.member? 0 = some m ∧ ∀ dts, ∃ g m', f.updates dts = .ok g
          ∧ g.member? 0 = some m' ∧ (Proper m'.vehicle.telemetry.heading
            ↔ ∀ a ∈ (m.lastCourse? f.layout dts).or (course? f.layout m.vehicle m.navigation),
              a.isFinite = true) := by
  have hroute : ∀ name ∈ ([] : List String), name ∈ Route.haul.waypoints := by simp
  have hcycle : Cycle.ofTag? "hauling" = some .hauling := by decide
  obtain ⟨f, hf⟩ := Fleet.exists_ofScenario_truck hroute hcycle (60.0 : Float)
  obtain ⟨hruns, hproper, hfleets⟩ := heading_proper_iff "HT-1" .haulTruck
    (Category.spec .haulTruck) ⟨-20.122, -43.952, 820.0⟩
    [.setHeading (0.0 / 0.0), .setHeading (-90.0), .advance 1.0, .setHeading 450.0]
    (.lone (.truck [] "hauling" (60.0 : Float)))
  obtain ⟨w, hw⟩ := hruns Category.haulTruck.spec_bounded
  refine ⟨⟨w, hw, (hproper w hw).2 ?_⟩, f, hf, hfleets f hf 0 _ rfl⟩
  rintro a ⟨⟩
  decide +kernel

/-- What is no number is taken for a heading. -/
theorem exists_improper_heading :
    ∃ w, (Vehicle.new "HT-1" .haulTruck ⟨-20.122, -43.952, 820.0⟩ : Vehicle Float).performAll
        [.setHeading (0.0 / 0.0)] = .ok w ∧ ¬ Proper w.telemetry.heading :=
  ⟨_, rfl, by decide +kernel⟩

end Doubles

end PitFleet
