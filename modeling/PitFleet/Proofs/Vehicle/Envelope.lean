import Mathlib
import PitFleet.Proofs.Vehicle.Figures

/-!
# The envelope of a vehicle

A vehicle keeps within the figures of its specification, its fuel only falls and a load slows it
down, in exact arithmetic and whatever is asked of it (`envelope`). Over the reals each stage of a
step keeps to this (`Within.move`); the figures of all other arithmetic are those of the reals.
-/

namespace PitFleet

section Terms

variable {α : Type} [Scalar α]

/-- The figures that motion reads are finite and not below zero. -/
structure Spec.Sound (s : Spec α) : Prop where
  maxSpeed : (0.0 : α) ≤ s.maxSpeed ∧ Scalar.isFinite s.maxSpeed = true
  maxPayload : (0.0 : α) ≤ s.maxPayload ∧ Scalar.isFinite s.maxPayload = true
  fuelCapacity : (0.0 : α) ≤ s.fuelCapacity ∧ Scalar.isFinite s.fuelCapacity = true
  fuelBurnRate : (0.0 : α) ≤ s.fuelBurnRate ∧ Scalar.isFinite s.fuelBurnRate = true

theorem Spec.Sound.bounded {s : Spec α} (h : s.Sound) : s.Bounded :=
  ⟨h.maxSpeed.1, h.maxPayload.1⟩

namespace Vehicle

inductive Made : Vehicle α → Prop
  | new (id : String) (category : Category) (start : Position α) : Made (new id category start)
  | withSpec (id : String) (category : Category) {spec : Spec α} (h : spec.Sound)
      (start : Position α) : Made (withSpec id category spec start)

structure Within (v : Vehicle α) : Prop where
  speed : (0.0 : α) ≤ v.telemetry.speed ∧ v.telemetry.speed ≤ v.spec.maxSpeed
  targetSpeed : (0.0 : α) ≤ v.targetSpeed ∧ v.targetSpeed ≤ v.spec.maxSpeed
  payload : (0.0 : α) ≤ v.telemetry.payload ∧ v.telemetry.payload ≤ v.spec.maxPayload
  fuelLevel : (0.0 : α) ≤ v.telemetry.fuelLevel ∧ v.telemetry.fuelLevel ≤ 100.0
  engineRpm : (800.0 : α) ≤ v.telemetry.engineRpm ∧ v.telemetry.engineRpm ≤ 2200.0

/-- The top speed that a load leaves. -/
def loadedTop (v : Vehicle α) : α :=
  v.spec.maxSpeed * (1.0 - 0.3 * v.telemetry.payload / v.spec.maxPayload)

/-- What holds of a vehicle and of itself after the operation. -/
structure Follows (v : Vehicle α) (op : Operation α) (w : Vehicle α) : Prop where
  build : SameBuild v w
  fuelLevel : w.telemetry.fuelLevel ≤ v.telemetry.fuelLevel
  targetSpeed {dt : α} : op = .advance dt → v.active = true → Scalar.IsStep dt →
    0.0 < v.telemetry.payload → w.targetSpeed ≤ w.loadedTop

end Vehicle

end Terms

open Exact in
theorem Category.spec_sound (c : Category) : (c.spec : Spec Exact).Sound := by
  cases c <;> refine ⟨⟨?_, rfl⟩, ⟨?_, rfl⟩, ⟨?_, rfl⟩, ⟨?_, rfl⟩⟩ <;>
  · refine number_le.2 ?_
    norm_num

namespace Vehicle

section Stages

variable {u : Vehicle ℝ}

theorem speedRatio_mem (h : 0 ≤ u.telemetry.speed ∧ u.telemetry.speed ≤ u.spec.maxSpeed) :
    0 ≤ u.speedRatio ∧ u.speedRatio ≤ 1 := by
  unfold speedRatio
  rw [zero_real]
  split
  case isTrue hpos => exact ⟨div_nonneg h.1 hpos.le, (div_le_one hpos).2 h.2⟩
  case isFalse => exact ⟨le_rfl, zero_le_one⟩

theorem nextSpeed_mem (hspeed : 0 ≤ u.telemetry.speed ∧ u.telemetry.speed ≤ u.spec.maxSpeed)
    (htarget : 0 ≤ u.targetSpeed ∧ u.targetSpeed ≤ u.spec.maxSpeed) {d : ℝ} (hd : 0 < d) :
    0 ≤ u.nextSpeed d ∧ u.nextSpeed d ≤ u.spec.maxSpeed := by
  have hbrake : (0 : ℝ) ≤ brakingRate * d := mul_nonneg (by norm_num [brakingRate]) hd.le
  simp only [nextSpeed, kmh_real, zero_real, min_real, max_real]
  split
  · exact hspeed
  · -- Neither speeding up nor braking leaves the span between the speed and the target.
    have hbound {next : ℝ} (h : next ≤ u.spec.maxSpeed * (5 / 18)) :
        0 ≤ max next 0 / (5 / 18) ∧ max next 0 / (5 / 18) ≤ u.spec.maxSpeed := by
      have hmax : max next 0 ≤ u.spec.maxSpeed * (5 / 18) :=
        max_le h (mul_nonneg (htarget.1.trans htarget.2) (by norm_num))
      exact ⟨div_nonneg (le_max_right _ _) (by norm_num), (div_le_iff₀ (by norm_num)).2 hmax⟩
    refine hbound ?_
    split
    · exact (min_le_right _ _).trans (by linarith)
    · exact max_le (by linarith) (by linarith)

/-- The top speed that a load leaves is above two thirds of that without a load. -/
theorem loadedTop_nonneg (hspeed : 0 ≤ u.spec.maxSpeed)
    (hload : 0 ≤ u.telemetry.payload ∧ u.telemetry.payload ≤ u.spec.maxPayload) :
    0 ≤ u.loadedTop := by
  have hpart : u.telemetry.payload / u.spec.maxPayload ≤ 1 :=
    div_le_one_of_le₀ hload.2 (hload.1.trans hload.2)
  refine mul_nonneg hspeed ?_
  rw [mul_div_assoc]
  norm_num
  linarith

theorem deratedTarget_of_unloaded (h : u.spec.maxPayload ≤ 0 ∨ u.telemetry.payload ≤ 0) :
    u.deratedTarget = u.targetSpeed := by
  rw [deratedTarget, zero_real, if_pos h]

theorem deratedTarget_of_loaded (hload : 0 < u.telemetry.payload)
    (hcapacity : 0 < u.spec.maxPayload) : u.deratedTarget = min u.loadedTop u.targetSpeed := by
  have hloaded : ¬ (u.spec.maxPayload ≤ 0 ∨ u.telemetry.payload ≤ 0) := by
    rintro (h | h) <;> linarith
  simp only [deratedTarget, payloadDerate, zero_real, if_neg hloaded, loadedTop, mul_div_assoc]
  rw [min_def_lt]
  rfl

theorem deratedTarget_nonneg (htarget : 0 ≤ u.targetSpeed) (hspeed : 0 ≤ u.spec.maxSpeed)
    (hload : 0 ≤ u.telemetry.payload ∧ u.telemetry.payload ≤ u.spec.maxPayload) :
    0 ≤ u.deratedTarget := by
  rcases hload.1.eq_or_lt with hempty | hloaded
  · rw [deratedTarget_of_unloaded (.inr hempty.ge)]
    exact htarget
  · rw [deratedTarget_of_loaded hloaded (hloaded.trans_le hload.2)]
    exact le_min (loadedTop_nonneg hspeed hload) htarget

theorem loadFactor_nonneg (h : 0 ≤ u.telemetry.speed ∧ u.telemetry.speed ≤ u.spec.maxSpeed) :
    0 ≤ u.loadFactor := by
  have hratio := (speedRatio_mem h).1
  have hfactor : (0 : ℝ) ≤ if 0.1 < u.telemetry.speed then 0.6 + 0.4 * u.speedRatio else 0.3 := by
    split
    · norm_num
      linarith
    · norm_num
  simp only [loadFactor, zero_real]
  split
  case isTrue hloaded =>
    have hpart := div_pos hloaded.1 hloaded.2
    refine add_nonneg hfactor (mul_nonneg (by norm_num) hpart.le)
  case isFalse => exact hfactor

theorem nextFuel_mem (hspeed : 0 ≤ u.telemetry.speed ∧ u.telemetry.speed ≤ u.spec.maxSpeed)
    (hfuel : 0 ≤ u.telemetry.fuelLevel) (hrate : 0 ≤ u.spec.fuelBurnRate) {d : ℝ} (hd : 0 < d) :
    0 ≤ u.nextFuel d ∧ u.nextFuel d ≤ u.telemetry.fuelLevel := by
  simp only [nextFuel, zero_real, max_real]
  split
  case isTrue => exact ⟨hfuel, le_rfl⟩
  case isFalse hburns =>
    have hcapacity : 0 < u.spec.fuelCapacity := not_le.1 fun h => hburns (.inr h)
    have hburnt : 0 ≤ u.spec.fuelBurnRate / 3600.0 * u.loadFactor * d :=
      mul_nonneg (mul_nonneg (div_nonneg hrate (by norm_num)) (loadFactor_nonneg hspeed)) hd.le
    generalize u.spec.fuelBurnRate / 3600.0 * u.loadFactor * d = burnt at hburnt
    have hlitres : max (u.telemetry.fuelLevel / 100.0 * u.spec.fuelCapacity - burnt) 0
        ≤ u.telemetry.fuelLevel / 100.0 * u.spec.fuelCapacity :=
      max_le (by linarith) (mul_nonneg (div_nonneg hfuel (by norm_num)) hcapacity.le)
    have hwhole : (0 : ℝ) ≤ 100.0 := by norm_num
    refine ⟨mul_nonneg (div_nonneg (le_max_right _ _) hcapacity.le) hwhole, ?_⟩
    calc max (u.telemetry.fuelLevel / 100.0 * u.spec.fuelCapacity - burnt) 0
          / u.spec.fuelCapacity * 100.0
        ≤ u.telemetry.fuelLevel / 100.0 * u.spec.fuelCapacity / u.spec.fuelCapacity * 100.0 := by
          gcongr
      _ = u.telemetry.fuelLevel := by
          field_simp

end Stages

section Steps

variable {u : Vehicle ℝ}

theorem Within.move (h : u.Within) (hs : u.spec.Sound) {d : ℝ} (hd : 0 < d) :
    (u.move d).Within ∧ (u.move d).telemetry.fuelLevel ≤ u.telemetry.fuelLevel
      ∧ (0.0 < u.telemetry.payload → (u.move d).targetSpeed ≤ (u.move d).loadedTop) := by
  obtain ⟨hspeed, htarget, hload, hfuel, -⟩ := h
  have hrate := hs.fuelBurnRate.1
  rw [zero_real] at hspeed htarget hload hfuel hrate
  let driven : Vehicle ℝ := { u with telemetry.speed := u.nextSpeed d }
  let moved : Vehicle ℝ :=
    { driven with targetSpeed := driven.deratedTarget, position := (u.move d).position }
  have hdriven := nextSpeed_mem hspeed htarget hd
  have hderated : driven.deratedTarget ≤ u.targetSpeed := deratedTarget_le rfl
  have haimed : 0 ≤ driven.deratedTarget :=
    deratedTarget_nonneg htarget.1 (htarget.1.trans htarget.2) hload
  have hratio := speedRatio_mem (u := moved) hdriven
  have hburnt := nextFuel_mem (u := moved) hdriven hfuel.1 hrate hd
  have hrpm : (u.move d).telemetry.engineRpm = 800.0 + moved.speedRatio * 1400.0 := rfl
  refine ⟨⟨?_, ?_, ?_, ?_, ?_⟩, hburnt.2, fun hpos => ?_⟩
  · rw [zero_real]
    exact hdriven
  · rw [zero_real]
    exact ⟨haimed, hderated.trans htarget.2⟩
  · rw [zero_real]
    exact hload
  · rw [zero_real]
    exact ⟨hburnt.1, hburnt.2.trans hfuel.2⟩
  · rw [hrpm]
    norm_num
    constructor <;> linarith
  · rw [zero_real] at hpos
    have hlimit := deratedTarget_of_loaded (u := driven) hpos (hpos.trans_le hload.2)
    exact hlimit.trans_le (min_le_left _ _)

/-- Over the reals every operation keeps the vehicle within its figures. -/
theorem Within.performed (h : u.Within) (hs : u.spec.Sound) (op : Operation ℝ) :
    (u.performed op).Within ∧ Follows u op (u.performed op) := by
  have hbuild := sameBuild_performed u op
  cases op with
  | setTargetSpeed speed =>
    exact ⟨{ h with targetSpeed := limited_mem hs.maxSpeed.1 speed }, hbuild, le_rfl, nofun⟩
  | setSpeed speed =>
    exact ⟨{ h with speed := limited_mem hs.maxSpeed.1 speed }, hbuild, le_rfl, nofun⟩
  | setPayload tonnes =>
    exact ⟨{ h with payload := limited_mem hs.maxPayload.1 tonnes }, hbuild, le_rfl, nofun⟩
  | setHeading | setActive | setCycle | predict => exact ⟨{ h with }, hbuild, le_rfl, nofun⟩
  | advance dt =>
    by_cases hmoves : u.active = true ∧ Scalar.IsStep dt
    · have hpos : 0 < dt := by
        have hstep := hmoves.2.2
        rw [zero_real] at hstep
        exact not_le.1 hstep
      have hmove : u.performed (.advance dt) = u.move dt := if_pos hmoves
      rw [hmove] at hbuild ⊢
      obtain ⟨hwithin, hfuel, htarget⟩ := h.move hs hpos
      exact ⟨hwithin, hbuild, hfuel, fun _ _ _ hloaded => htarget hloaded⟩
    · have hstill : u.performed (.advance dt) = u := if_neg hmoves
      rw [hstill]
      refine ⟨h, .refl u, le_rfl, fun {dt'} hop hactive hstep => ?_⟩
      obtain rfl := Operation.advance.inj hop
      exact absurd ⟨hactive, hstep⟩ hmoves

end Steps

section Exact

open Exact

/-- The vehicle has the figures of one over the reals that is within its own. -/
def Kept (v : Vehicle Exact) : Prop :=
  ∃ u, Figures v u ∧ u.spec.Sound ∧ u.Within

variable {v w : Vehicle Exact} {u u' : Vehicle ℝ}

theorem Figures.within (hf : Figures v u) (h : u.Within) : v.Within := by
  refine ⟨?_, ?_, ?_, ?_, ?_⟩
  · rw [hf.speed, hf.maxSpeed]
    exact ⟨number_le.2 h.speed.1, number_le.2 h.speed.2⟩
  · rw [hf.targetSpeed, hf.maxSpeed]
    exact ⟨number_le.2 h.targetSpeed.1, number_le.2 h.targetSpeed.2⟩
  · rw [hf.payload, hf.maxPayload]
    exact ⟨number_le.2 h.payload.1, number_le.2 h.payload.2⟩
  · rw [hf.fuelLevel]
    exact ⟨number_le.2 h.fuelLevel.1, number_le.2 h.fuelLevel.2⟩
  · rw [hf.engineRpm]
    exact ⟨number_le.2 h.engineRpm.1, number_le.2 h.engineRpm.2⟩

theorem Figures.loadedTop (hf : Figures v u) (h : u.spec.maxPayload ≠ 0) :
    v.loadedTop = number u.loadedTop := by
  simp only [Vehicle.loadedTop, hf.maxSpeed, hf.maxPayload, hf.payload, ofScientific_eq, number_mul,
    number_sub, number_div h]

theorem Follows.of_figures {op : Operation Exact} (hv : Figures v u) (hw : Figures w u')
    (hbuild : SameBuild v w) (hload : u.telemetry.payload ≤ u.spec.maxPayload)
    (h : Follows u (op.settled u.spec) u') : Follows v op w := by
  refine ⟨hbuild, ?_, fun {dt} hop hactive hstep hloaded => ?_⟩
  · rw [hv.fuelLevel, hw.fuelLevel]
    exact number_le.2 h.fuelLevel
  · rw [hv.payload] at hloaded
    have hpos : (0.0 : ℝ) < u.telemetry.payload := number_lt.1 hloaded
    have hne : u'.spec.maxPayload ≠ 0 := by
      rw [zero_real] at hpos
      rw [h.build.spec]
      exact (hpos.trans_le hload).ne'
    have hsettled : op.settled u.spec = .advance (dt.settle 0) := by
      rw [hop]
      rfl
    rw [hv.active] at hactive
    rw [hw.targetSpeed, hw.loadedTop hne]
    exact number_le.2 (h.targetSpeed hsettled hactive (isStep_settle.2 hstep) hpos)

theorem Kept.performed (h : v.Kept) (op : Operation Exact) :
    (v.performed op).Kept ∧ Follows v op (v.performed op) := by
  obtain ⟨u, hf, hs, hu⟩ := h
  obtain ⟨hu', hfollows⟩ := hu.performed hs (op.settled u.spec)
  have hf' := hf.performed hs.bounded op
  refine ⟨⟨_, hf', ?_, hu'⟩, .of_figures hf hf' (sameBuild_performed v op) hu.payload.2 hfollows⟩
  rw [(sameBuild_performed u _).spec]
  exact hs

theorem Kept.foldl (ops : List (Operation Exact)) (h : v.Kept) :
    (ops.foldl Vehicle.performed v).Kept := by
  induction ops generalizing v with
  | nil => exact h
  | cons op ops ih => exact ih (h.performed op).1

theorem Kept.within (h : v.Kept) : v.Within := by
  obtain ⟨u, hf, -, hu⟩ := h
  exact hf.within hu

theorem Kept.bounded (h : v.Kept) : v.spec.Bounded := by
  obtain ⟨u, hf, hs, -⟩ := h
  refine ⟨?_, ?_⟩
  · rw [hf.maxSpeed]
    exact number_le.2 hs.maxSpeed.1
  · rw [hf.maxPayload]
    exact number_le.2 hs.maxPayload.1

theorem Kept.withSpec (id : String) (category : Category) {spec : Spec Exact} (h : spec.Sound)
    (start : Position Exact) : (withSpec id category spec start).Kept := by
  have hreal {x : Exact} (hx : 0.0 ≤ x ∧ Scalar.isFinite x = true) :
      ∃ r : ℝ, x = number r ∧ 0.0 ≤ r := by
    obtain ⟨r, rfl⟩ := eq_number_of_isFinite hx.2
    exact ⟨r, rfl, number_le.1 hx.1⟩
  obtain ⟨speed, hspeed, hspeed0⟩ := hreal h.maxSpeed
  obtain ⟨load, hload, hload0⟩ := hreal h.maxPayload
  obtain ⟨tank, htank, htank0⟩ := hreal h.fuelCapacity
  obtain ⟨rate, hrate, hrate0⟩ := hreal h.fuelBurnRate
  let u : Vehicle ℝ := .withSpec id category ⟨speed, load, tank, rate, 0, 0, 0⟩ ⟨0, 0, 0⟩
  have hsound : u.spec.Sound :=
    ⟨⟨hspeed0, rfl⟩, ⟨hload0, rfl⟩, ⟨htank0, rfl⟩, ⟨hrate0, rfl⟩⟩
  have hwithin : u.Within := by
    refine ⟨⟨le_rfl, hspeed0⟩, ⟨le_rfl, hspeed0⟩, ⟨le_rfl, hload0⟩, ⟨?_, le_rfl⟩, ⟨le_rfl, ?_⟩⟩
    · show (0.0 : ℝ) ≤ 100.0
      norm_num
    · show (800.0 : ℝ) ≤ 2200.0
      norm_num
  exact ⟨u, ⟨hspeed, hload, htank, hrate, rfl, rfl, rfl, rfl, rfl, rfl, rfl⟩, hsound, hwithin⟩

/-- Whatever is asked of a vehicle, it keeps within its figures, stays what it is and loses fuel
only; a load keeps its target below the top speed that it leaves. -/
theorem envelope (h : v.Made) (ops : List (Operation Exact)) :
    ∃ w, v.performAll ops = .ok w ∧ w.Within ∧ SameBuild v w
      ∧ ∀ op, ∃ w', w.perform op = .ok w' ∧ Follows w op w' := by
  have hkept : v.Kept := by
    cases h with
    | new id category start => exact .withSpec id category category.spec_sound start
    | withSpec id category hs start => exact .withSpec id category hs start
  have hend : (ops.foldl Vehicle.performed v).Kept := Kept.foldl ops hkept
  refine ⟨_, performAll_eq ops hkept.bounded, hend.within, sameBuild_foldl ops v, fun op => ?_⟩
  exact ⟨_, perform_eq hend.bounded op, (hend.performed op).2⟩

/-- A haul truck that is loaded and driven beyond its limits, which its load then slows down, and a
vehicle that can do nothing, asked for more than there is. -/
theorem envelope_loadedTruck :
    (∃ w w', (new "HT-101" .haulTruck ⟨number 0, number 0, number 820⟩ : Vehicle Exact).performAll
        [.setPayload (infinite false), .setTargetSpeed (infinite false)] = .ok w
      ∧ w.Within ∧ w.telemetry.payload = number 220.0 ∧ w.targetSpeed = number 45.0
      ∧ w.perform (.advance (number 1)) = .ok w' ∧ w'.targetSpeed ≤ number 31.5)
    ∧ ∃ w, (withSpec "EX-201" .excavator .none ⟨number 0, nan, number 820⟩ :
          Vehicle Exact).performAll
        [.setTargetSpeed (infinite false), .setPayload nan, .setHeading (infinite true),
          .advance (number 1)] = .ok w
      ∧ w.Within ∧ SameBuild (withSpec "EX-201" .excavator .none ⟨number 0, nan, number 820⟩) w
      ∧ ∀ op, ∃ w', w.perform op = .ok w' ∧ Follows w op w' := by
  constructor
  · set u : Vehicle Exact := new "HT-101" .haulTruck ⟨number 0, number 0, number 820⟩
    have hbounded : u.spec.Bounded := (Category.spec_sound .haulTruck).bounded
    obtain ⟨w, hw, hwithin, -, hnext⟩ :=
      envelope (.new _ _ _) [.setPayload (infinite false), .setTargetSpeed (infinite false)]
    obtain ⟨w', hw', hfollows⟩ := hnext (.advance (number 1))
    obtain rfl : w = (u.load (infinite false)).aim (infinite false) :=
      Except.ok.inj (hw.symm.trans (performAll_eq _ hbounded))
    obtain rfl := Except.ok.inj hw'
    have hpayload : limited (220.0 : Exact) (infinite false) = number 220.0 :=
      limited_infinite (by norm_num)
    have htarget : limited (45.0 : Exact) (infinite false) = number 45.0 :=
      limited_infinite (by norm_num)
    have hloaded : (0.0 : Exact) < limited (220.0 : Exact) (infinite false) := by
      rw [hpayload]
      exact number_lt.2 (by norm_num)
    have hstep : Scalar.IsStep (number 1) := isStep_iff.2 ⟨1, rfl, one_pos⟩
    have htop : (((u.load (infinite false)).aim (infinite false)).advance (number 1)).loadedTop
        = number 31.5 := by
      rw [loadedTop, payload_advance, hfollows.build.spec]
      show (45.0 : Exact) * (1.0 - 0.3 * limited (220.0 : Exact) (infinite false) / 220.0) = _
      rw [hpayload]
      simp only [ofScientific_eq, number_mul]
      rw [number_div (by norm_num), number_sub, number_mul]
      norm_num
    exact ⟨_, _, hw, hwithin, hpayload, htarget, hw',
      (hfollows.targetSpeed rfl rfl hstep hloaded).trans_eq htop⟩
  · have hzero : (0.0 : Exact) ≤ 0.0 ∧ Scalar.isFinite (0.0 : Exact) = true :=
      ⟨number_le.2 le_rfl, rfl⟩
    exact envelope (.withSpec _ _ ⟨hzero, hzero, hzero, hzero⟩ _) _

end Exact

end Vehicle

end PitFleet
