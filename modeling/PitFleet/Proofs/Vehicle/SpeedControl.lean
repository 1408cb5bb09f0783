import Mathlib
import PitFleet.Proofs.Vehicle.Forward
import PitFleet.Proofs.Vehicle.Prediction

/-!
# Speed control

In exact arithmetic repeated steps bring the speed of a vehicle to its target at the rate of the
engine or of the brakes. A step leaves the speed alone or takes the rate off what it lags behind
(`Closing.move`), so many steps take as much off it unless the vehicle has come close enough to its
target before (`Steady.closing`). How a span of time is cut into steps makes no difference but for
the band in which the speed is left alone (`approaches_target`). As no vehicle drives backwards, one
with a target below zero comes to a halt (`Steady.not_onTarget_steps`).
-/

namespace PitFleet.Vehicle

section Terms

variable {α : Type} [Scalar α]

/-- The speed in m/s. -/
def pace (v : Vehicle α) : α :=
  v.telemetry.speed * kmh

/-- The target in m/s. -/
def targetPace (v : Vehicle α) : α :=
  v.targetSpeed * kmh

/-- The vehicle after `n` steps of `dt` seconds. -/
def steps (v : Vehicle α) (dt : α) : ℕ → Vehicle α
  | 0 => v
  | n + 1 => (v.steps dt n).advance dt

/-- The vehicle carries nothing that makes it lower its target. -/
def KeepsTarget (v : Vehicle α) : Prop :=
  v.telemetry.payload ≤ 0.0 ∨ v.spec.maxPayload ≤ 0.0 ∨ v.targetSpeed ≤ v.loadedTop

/-- What changes the speed, in m/s². -/
def rate (v : Vehicle α) : α :=
  if v.pace < v.targetPace then accelerationRate else brakingRate

end Terms

noncomputable section

/-- The pace that the vehicle comes to. -/
def finalPace (v : Vehicle ℝ) : ℝ :=
  max v.targetPace 0

/-- What the pace has still to change by. -/
def lag (v : Vehicle ℝ) : ℝ :=
  |v.finalPace - v.pace|

end

variable {v w : Vehicle ℝ} {dt r : ℝ}

theorem accelerationRate_pos : 0 < (accelerationRate : ℝ) := by
  rw [accelerationRate]
  norm_num

theorem brakingRate_pos : 0 < (brakingRate : ℝ) := by
  rw [brakingRate]
  norm_num

theorem rates_ne : (accelerationRate : ℝ) ≠ brakingRate := by
  rw [accelerationRate, brakingRate]
  norm_num

theorem speedDeadBand_pos : 0 < (speedDeadBand : ℝ) := by
  rw [speedDeadBand]
  norm_num

/-! ### One step -/

theorem deratedTarget_of_keepsTarget (h : v.KeepsTarget) : v.deratedTarget = v.targetSpeed := by
  rw [KeepsTarget, zero_real] at h
  rcases h with hload | hcapacity | htop
  · exact deratedTarget_of_unloaded (.inr hload)
  · exact deratedTarget_of_unloaded (.inl hcapacity)
  · by_cases hunloaded : v.spec.maxPayload ≤ 0 ∨ v.telemetry.payload ≤ 0
    · exact deratedTarget_of_unloaded hunloaded
    · push Not at hunloaded
      rw [deratedTarget_of_loaded hunloaded.2 hunloaded.1, min_eq_right htop]

theorem onTarget_iff : v.OnTarget ↔ |v.targetPace - v.pace| ≤ speedDeadBand :=
  .rfl

theorem pace_move_of_onTarget (h : v.OnTarget) (dt : ℝ) : (v.move dt).pace = v.pace := by
  rw [pace, speed_move, nextSpeed_of_onTarget h, pace]

theorem pace_move (h : ¬ v.OnTarget) (dt : ℝ) : (v.move dt).pace
    = max (if v.pace < v.targetPace then min (v.pace + accelerationRate * dt) v.targetPace
      else max (v.pace - brakingRate * dt) v.targetPace) 0 := by
  rw [pace, speed_move]
  unfold OnTarget at h
  simp only [nextSpeed, if_neg h, max_real, min_real, zero_real, sub_pos,
    div_mul_cancel₀ _ kmh_ne_zero_real]
  rfl

theorem targetSpeed_move (h : v.KeepsTarget) (dt : ℝ) :
    (v.move dt).targetSpeed = v.targetSpeed := by
  have hdriven : KeepsTarget { v with telemetry.speed := v.nextSpeed dt } := h
  exact deratedTarget_of_keepsTarget hdriven

theorem targetPace_move (h : v.KeepsTarget) (dt : ℝ) : (v.move dt).targetPace = v.targetPace :=
  congrArg (· * kmh) (targetSpeed_move h dt)

theorem keepsTarget_move (h : v.KeepsTarget) (dt : ℝ) : (v.move dt).KeepsTarget := by
  rw [KeepsTarget, targetSpeed_move h]
  exact h

theorem lag_of_le (hpos : 0 ≤ v.pace) (h : v.pace ≤ v.targetPace) :
    v.lag = v.targetPace - v.pace := by
  rw [lag, finalPace, max_eq_left (hpos.trans h), abs_of_nonneg (sub_nonneg.2 h)]

theorem lag_of_ge (h : v.finalPace ≤ v.pace) : v.lag = v.pace - v.finalPace := by
  rw [lag, abs_of_nonpos (sub_nonpos.2 h), neg_sub]

theorem lag_le (h : 0 ≤ v.pace) : v.lag ≤ |v.targetPace - v.pace| := by
  have hle := abs_max_sub_max_le_abs v.targetPace v.pace 0
  rwa [max_eq_left h] at hle

/-- The pace is on the side of its end from where it comes closer at the rate `r`. -/
inductive Closing (r : ℝ) (v : Vehicle ℝ) : Prop
  | up (hr : r = accelerationRate) (hpos : 0 ≤ v.pace) (h : v.pace ≤ v.targetPace)
  | down (hr : r = brakingRate) (h : v.finalPace ≤ v.pace)

namespace Closing

theorem of_nonneg (h : 0 ≤ v.pace) : Closing v.rate v := by
  unfold rate
  split
  case isTrue hlt => exact .up rfl h hlt.le
  case isFalse hge => exact .down rfl (max_le (not_lt.1 hge) h)

theorem up_iff : Closing accelerationRate v ↔ 0 ≤ v.pace ∧ v.pace ≤ v.targetPace := by
  constructor
  · rintro (⟨-, hpos, hle⟩ | ⟨hr, -⟩)
    · exact ⟨hpos, hle⟩
    · exact absurd hr rates_ne
  · rintro ⟨hpos, hle⟩
    exact .up rfl hpos hle

theorem down_iff : Closing brakingRate v ↔ v.finalPace ≤ v.pace := by
  constructor
  · rintro (⟨hr, -, -⟩ | ⟨-, hle⟩)
    · exact absurd hr.symm rates_ne
    · exact hle
  · exact .down rfl

variable (h : Closing r v)
include h

theorem rate_pos : 0 < r := by
  cases h with
  | up hr => exact hr ▸ accelerationRate_pos
  | down hr => exact hr ▸ brakingRate_pos

theorem pace_nonneg : 0 ≤ v.pace := by
  cases h with
  | up _ hpos => exact hpos
  | down _ hle => exact (le_max_right _ _).trans hle

/-- All that a step does to the pace. -/
theorem move (hkeeps : v.KeepsTarget) (hdt : 0 < dt) : Closing r (v.move dt)
    ∧ (v.OnTarget ∧ (v.move dt).pace = v.pace
      ∨ ¬ v.OnTarget ∧ (v.move dt).lag = max (v.lag - r * dt) 0) := by
  have htarget := targetPace_move hkeeps dt
  have hchange : 0 < r * dt := mul_pos h.rate_pos hdt
  by_cases hon : v.OnTarget
  · have hpace := pace_move_of_onTarget hon dt
    refine ⟨?_, .inl ⟨hon, hpace⟩⟩
    cases h with
    | up hr hpos hle => exact .up hr (by rwa [hpace]) (by rwa [hpace, htarget])
    | down hr hle => exact .down hr (by rwa [hpace, finalPace, htarget])
  · have hpace := pace_move hon dt
    cases h with
    | up hr hpos hle =>
      have hlt : v.pace < v.targetPace := by
        refine lt_of_le_of_ne hle fun heq => hon ?_
        rw [onTarget_iff, heq, sub_self, abs_zero]
        exact speedDeadBand_pos.le
      have hnext : 0 ≤ min (v.pace + r * dt) v.targetPace := le_min (by linarith) (by linarith)
      rw [if_pos hlt, ← hr, max_eq_left hnext] at hpace
      have hpos' : 0 ≤ (v.move dt).pace := by rwa [hpace]
      have hle' : (v.move dt).pace ≤ (v.move dt).targetPace := by
        rw [hpace, htarget]
        exact min_le_right _ _
      refine ⟨.up hr hpos' hle', .inr ⟨hon, ?_⟩⟩
      rw [lag_of_le hpos hle, lag_of_le hpos' hle', htarget, hpace, ← max_sub_sub_left, sub_self,
        sub_sub]
    | down hr hle =>
      have hge : ¬ v.pace < v.targetPace := not_lt.2 ((le_max_left _ _).trans hle)
      rw [if_neg hge, ← hr, max_assoc, ← finalPace] at hpace
      have hfinal : (v.move dt).finalPace = v.finalPace := by rw [finalPace, htarget, finalPace]
      have hle' : (v.move dt).finalPace ≤ (v.move dt).pace := by
        rw [hpace, hfinal]
        exact le_max_right _ _
      refine ⟨.down hr hle', .inr ⟨hon, ?_⟩⟩
      rw [lag_of_ge hle, lag_of_ge hle', hfinal, hpace, ← max_sub_sub_right, sub_self,
        sub_right_comm]

theorem lag_move (hkeeps : v.KeepsTarget) (hdt : 0 < dt) :
    (v.move dt).lag ≤ v.lag ∧ v.lag ≤ (v.move dt).lag + r * dt := by
  have hlag : 0 ≤ v.lag := abs_nonneg _
  have hchange : 0 < r * dt := mul_pos h.rate_pos hdt
  obtain ⟨-, ⟨-, hpace⟩ | ⟨-, hlag'⟩⟩ := h.move hkeeps hdt
  · have hsame : (v.move dt).lag = v.lag := by
      rw [lag, finalPace, targetPace_move hkeeps, hpace]
      rfl
    rw [hsame]
    constructor <;> linarith
  · rw [hlag']
    exact ⟨max_le (by linarith) hlag, by linarith [le_max_left (v.lag - r * dt) 0]⟩

/-- On one side of one target, paces are as far apart as they lag behind. -/
theorem abs_pace_sub (h' : Closing r w) (htarget : v.targetPace = w.targetPace) :
    |v.pace - w.pace| = |v.lag - w.lag| := by
  have hfinal : v.finalPace = w.finalPace := by rw [finalPace, htarget, finalPace]
  cases h with
  | up hr hpos hle =>
    cases h' with
    | up _ hpos' hle' =>
      rw [lag_of_le hpos hle, lag_of_le hpos' hle', htarget, sub_sub_sub_cancel_left, abs_sub_comm]
    | down hr' => exact absurd (hr.symm.trans hr') rates_ne
  | down hr hle =>
    cases h' with
    | up hr' => exact absurd (hr'.symm.trans hr) rates_ne
    | down _ hle' => rw [lag_of_ge hle, lag_of_ge hle', hfinal, sub_sub_sub_cancel_right]

end Closing

/-! ### Many steps -/

/-- In so many seconds `w` has made up at the rate `r` for what `v` lags behind, unless it came
close enough to its target before. -/
def MadeUp (r time : ℝ) (v w : Vehicle ℝ) : Prop :=
  w.lag = max (v.lag - r * time) 0 ∨ w.OnTarget ∧ max (v.lag - r * time) 0 ≤ w.lag

theorem MadeUp.refl (r : ℝ) (v : Vehicle ℝ) : MadeUp r 0 v v := by
  have hlag : 0 ≤ v.lag := abs_nonneg _
  left
  rw [mul_zero, sub_zero, max_eq_left hlag]

theorem MadeUp.le_lag {time : ℝ} (h : MadeUp r time v w) : max (v.lag - r * time) 0 ≤ w.lag := by
  rcases h with heq | ⟨-, hle⟩
  · exact heq.ge
  · exact hle

theorem MadeUp.lag_le {time : ℝ} (h : MadeUp r time v w) (hpos : 0 ≤ w.pace) :
    w.lag ≤ max (v.lag - r * time) 0 + speedDeadBand := by
  rcases h with heq | ⟨hon, -⟩
  · linarith [speedDeadBand_pos]
  · have hlag : w.lag ≤ speedDeadBand := (Vehicle.lag_le hpos).trans hon
    linarith [le_max_right (v.lag - r * time) 0]

theorem MadeUp.move {time : ℝ} (h : MadeUp r time v w) (hclosing : Closing r w)
    (hkeeps : w.KeepsTarget) (hdt : 0 < dt) : MadeUp r (time + dt) v (w.move dt) := by
  have hchange : 0 < r * dt := mul_pos hclosing.rate_pos hdt
  have htime : v.lag - r * (time + dt) = v.lag - r * time - r * dt := by ring
  obtain ⟨-, ⟨hon, hpace⟩ | ⟨hon, hlag⟩⟩ := hclosing.move hkeeps hdt
  · have htarget := targetPace_move hkeeps dt
    have hsame : (w.move dt).lag = w.lag := by rw [lag, finalPace, htarget, hpace, lag, finalPace]
    refine .inr ⟨by rwa [onTarget_iff, htarget, hpace], ?_⟩
    rw [htime, hsame]
    exact (max_le_max_right _ (by linarith)).trans h.le_lag
  · have hleft : w.lag = max (v.lag - r * time) 0 := h.resolve_right fun hc => hon hc.1
    left
    rw [hlag, hleft, htime, ← max_sub_sub_right, max_assoc, max_eq_right (a := 0 - r * dt)]
    linarith

/-- However the seconds are cut into steps, the paces differ by no more than the dead band. -/
theorem MadeUp.abs_pace_sub_le {time : ℝ} {w' : Vehicle ℝ} (h : MadeUp r time v w)
    (h' : MadeUp r time v w') (hclosing : Closing r w) (hclosing' : Closing r w')
    (htarget : w.targetPace = w'.targetPace) : |w.pace - w'.pace| ≤ speedDeadBand := by
  have hmost := h.lag_le hclosing.pace_nonneg
  have hmost' := h'.lag_le hclosing'.pace_nonneg
  rw [hclosing.abs_pace_sub hclosing' htarget, abs_le]
  constructor <;> linarith [h.le_lag, h'.le_lag]

/-- The vehicle is active and holds on to its target. -/
structure Steady (v : Vehicle ℝ) : Prop where
  active : v.active = true
  keepsTarget : v.KeepsTarget

namespace Steady

variable (h : v.Steady) (hdt : 0 < dt)
include h

theorem move (dt : ℝ) : (v.move dt).Steady :=
  ⟨h.active, keepsTarget_move h.keepsTarget dt⟩

include hdt

theorem advance_eq : v.advance dt = v.move dt :=
  advance_of_active h.active (isStep_real.2 hdt)

theorem steps : ∀ n, (v.steps dt n).Steady ∧ (v.steps dt n).targetSpeed = v.targetSpeed
  | 0 => ⟨h, rfl⟩
  | n + 1 => by
    obtain ⟨hsteady, htarget⟩ := steps n
    rw [Vehicle.steps, hsteady.advance_eq hdt]
    exact ⟨hsteady.move dt, (targetSpeed_move hsteady.keepsTarget dt).trans htarget⟩

theorem steps_succ (n : ℕ) : v.steps dt (n + 1) = (v.steps dt n).move dt :=
  (h.steps hdt n).1.advance_eq hdt

theorem targetPace_steps (n : ℕ) : (v.steps dt n).targetPace = v.targetPace :=
  congrArg (· * kmh) (h.steps hdt n).2

theorem closing (hclosing : Closing r v) : ∀ n, Closing r (v.steps dt n)
    ∧ MadeUp r (n * dt) v (v.steps dt n)
  | 0 => by
    rw [Nat.cast_zero, zero_mul]
    exact ⟨hclosing, .refl r v⟩
  | n + 1 => by
    obtain ⟨hn, hmade⟩ := closing hclosing n
    have hkeeps := (h.steps hdt n).1.keepsTarget
    have htime : ((n + 1 : ℕ) : ℝ) * dt = n * dt + dt := by
      push_cast
      ring
    rw [h.steps_succ hdt, htime]
    exact ⟨(hn.move hkeeps hdt).1, hmade.move hn hkeeps hdt⟩

/-- As no vehicle drives backwards, none comes close to a target below zero. -/
theorem not_onTarget_steps (hpos : 0 ≤ v.pace) (htarget : v.targetPace < -speedDeadBand) (n : ℕ) :
    ¬ (v.steps dt n).OnTarget := by
  have hpace := (h.closing hdt (.of_nonneg hpos) n).1.pace_nonneg
  rw [onTarget_iff, h.targetPace_steps hdt, abs_le]
  intro hclose
  linarith [hclose.1]

end Steady

/-! ### The whole -/

/-- What repeated steps of `dt` seconds do to the speed of `v`. -/
structure Approaches (v : Vehicle ℝ) (dt : ℝ) : Prop where
  target (n : ℕ) : (v.steps dt n).targetSpeed = v.targetSpeed
  rises (h : v.pace ≤ v.targetPace) (n : ℕ) : (v.steps dt n).pace ≤ (v.steps dt (n + 1)).pace
    ∧ (v.steps dt (n + 1)).pace ≤ v.targetPace
  falls (h : v.targetPace ≤ v.pace) (n : ℕ) : v.targetPace ≤ (v.steps dt (n + 1)).pace
    ∧ (v.steps dt (n + 1)).pace ≤ (v.steps dt n).pace
  accelerates (n : ℕ) :
    (v.steps dt (n + 1)).pace ≤ (v.steps dt n).pace + accelerationRate * dt
  brakes (n : ℕ) : (v.steps dt n).pace - brakingRate * dt ≤ (v.steps dt (n + 1)).pace
  /-- It comes close to its target, or to a halt if the target is below zero, and stays there. -/
  settles (n : ℕ) (h : ⌈|v.targetPace - v.pace| / (v.rate * dt)⌉₊ ≤ n) :
    |max v.targetPace 0 - (v.steps dt n).pace| ≤ speedDeadBand
      ∧ (v.steps dt (n + 1)).telemetry.speed = (v.steps dt n).telemetry.speed
  /-- One long step does nearly the same as many short ones. -/
  divides (n : ℕ) (h : 1 ≤ n) : |(v.advance (n * dt)).pace - (v.steps dt n).pace| ≤ speedDeadBand

namespace Steady

variable (hsteady : v.Steady) (hdt : 0 < dt)
include hsteady hdt

theorem lag_steps_succ (h : Closing r v) (n : ℕ) : (v.steps dt (n + 1)).lag ≤ (v.steps dt n).lag
    ∧ (v.steps dt n).lag ≤ (v.steps dt (n + 1)).lag + r * dt := by
  rw [hsteady.steps_succ hdt]
  exact (hsteady.closing hdt h n).1.lag_move (hsteady.steps hdt n).1.keepsTarget hdt

theorem rises (hpos : 0 ≤ v.pace) (h : v.pace ≤ v.targetPace) (n : ℕ) :
    (v.steps dt n).pace ≤ (v.steps dt (n + 1)).pace
      ∧ (v.steps dt (n + 1)).pace ≤ v.targetPace
      ∧ (v.steps dt (n + 1)).pace ≤ (v.steps dt n).pace + accelerationRate * dt := by
  have hclosing : Closing accelerationRate v := Closing.up_iff.2 ⟨hpos, h⟩
  obtain ⟨hnow, hle⟩ := Closing.up_iff.1 (hsteady.closing hdt hclosing n).1
  obtain ⟨hnext, hle'⟩ := Closing.up_iff.1 (hsteady.closing hdt hclosing (n + 1)).1
  obtain ⟨hless, hmore⟩ := hsteady.lag_steps_succ hdt hclosing n
  rw [lag_of_le hnow hle, lag_of_le hnext hle', hsteady.targetPace_steps hdt,
    hsteady.targetPace_steps hdt] at hless hmore
  rw [hsteady.targetPace_steps hdt] at hle'
  exact ⟨by linarith, hle', by linarith⟩

theorem falls (h : v.finalPace ≤ v.pace) (n : ℕ) : v.finalPace ≤ (v.steps dt (n + 1)).pace
    ∧ (v.steps dt (n + 1)).pace ≤ (v.steps dt n).pace
    ∧ (v.steps dt n).pace - brakingRate * dt ≤ (v.steps dt (n + 1)).pace := by
  have hclosing : Closing brakingRate v := Closing.down_iff.2 h
  have hfinal (k : ℕ) : (v.steps dt k).finalPace = v.finalPace := by
    rw [finalPace, hsteady.targetPace_steps hdt, finalPace]
  have hge := Closing.down_iff.1 (hsteady.closing hdt hclosing n).1
  have hge' := Closing.down_iff.1 (hsteady.closing hdt hclosing (n + 1)).1
  obtain ⟨hless, hmore⟩ := hsteady.lag_steps_succ hdt hclosing n
  rw [lag_of_ge hge, lag_of_ge hge', hfinal, hfinal] at hless hmore
  rw [hfinal] at hge'
  exact ⟨hge', by linarith, by linarith⟩

theorem settles (hclosing : Closing r v) {n : ℕ}
    (h : ⌈|v.targetPace - v.pace| / (r * dt)⌉₊ ≤ n) :
    (v.steps dt n).lag ≤ speedDeadBand ∧ (v.steps dt (n + 1)).pace = (v.steps dt n).pace := by
  obtain ⟨hn, hmade⟩ := hsteady.closing hdt hclosing n
  have hsteady' := (hsteady.steps hdt n).1
  have hchange : 0 < r * dt := mul_pos hclosing.rate_pos hdt
  have htime : v.lag ≤ r * (n * dt) := by
    have hceil := (Nat.le_ceil _).trans (Nat.cast_le (α := ℝ) |>.2 h)
    rw [div_le_iff₀ hchange] at hceil
    linarith [lag_le hclosing.pace_nonneg]
  rw [hsteady.steps_succ hdt]
  by_cases hon : (v.steps dt n).OnTarget
  · exact ⟨(lag_le hn.pace_nonneg).trans hon, pace_move_of_onTarget hon dt⟩
  · -- Nothing is left to make up for, so that the pace is where it ends.
    have hnone : (v.steps dt n).lag = 0 := by
      rw [hmade.resolve_right fun hc => hon hc.1, max_eq_right (by linarith)]
    have hnext : ((v.steps dt n).move dt).lag = 0 :=
      le_antisymm ((hn.lag_move hsteady'.keepsTarget hdt).1.trans_eq hnone) (abs_nonneg _)
    have hsame := hn.abs_pace_sub (hn.move hsteady'.keepsTarget hdt).1
      (targetPace_move hsteady'.keepsTarget dt).symm
    rw [hnone, hnext, sub_self, abs_zero, abs_eq_zero, sub_eq_zero] at hsame
    exact ⟨hnone.trans_le speedDeadBand_pos.le, hsame.symm⟩

theorem divides (hclosing : Closing r v) {n : ℕ} (h : 1 ≤ n) :
    |(v.advance (n * dt)).pace - (v.steps dt n).pace| ≤ speedDeadBand := by
  have hspan : 0 < n * dt := mul_pos (Nat.cast_pos.2 h) hdt
  obtain ⟨hn, hmade⟩ := hsteady.closing hdt hclosing n
  have honce := (MadeUp.refl r v).move hclosing hsteady.keepsTarget hspan
  have htarget := targetPace_move hsteady.keepsTarget (n * dt)
  rw [zero_add] at honce
  rw [hsteady.advance_eq hspan]
  exact honce.abs_pace_sub_le hmade (hclosing.move hsteady.keepsTarget hspan).1 hn
    (htarget.trans (hsteady.targetPace_steps hdt n).symm)

theorem approaches (hpos : 0 ≤ v.pace) : v.Approaches dt := by
  have hclosing : Closing v.rate v := .of_nonneg hpos
  have hfinal (h : v.targetPace ≤ v.pace) : v.finalPace ≤ v.pace := max_le h hpos
  refine ⟨fun n => (hsteady.steps hdt n).2, fun h n => ?_, fun h n => ?_, fun n => ?_, fun n => ?_,
    fun n h => ?_, fun n h => hsteady.divides hdt hclosing h⟩
  · obtain ⟨hle, htarget, -⟩ := hsteady.rises hdt hpos h n
    exact ⟨hle, htarget⟩
  · obtain ⟨htarget, hle, -⟩ := hsteady.falls hdt (hfinal h) n
    exact ⟨(le_max_left _ _).trans htarget, hle⟩
  · have hchange : 0 < accelerationRate * dt := mul_pos accelerationRate_pos hdt
    rcases le_total v.pace v.targetPace with h | h
    · exact (hsteady.rises hdt hpos h n).2.2
    · linarith [(hsteady.falls hdt (hfinal h) n).2.1]
  · have hchange : 0 < brakingRate * dt := mul_pos brakingRate_pos hdt
    rcases le_total v.pace v.targetPace with h | h
    · linarith [(hsteady.rises hdt hpos h n).1]
    · exact (hsteady.falls hdt (hfinal h) n).2.2
  · obtain ⟨hclose, hstays⟩ := hsteady.settles hdt hclosing h
    rw [lag, finalPace, hsteady.targetPace_steps hdt] at hclose
    exact ⟨hclose, mul_right_cancel₀ kmh_ne_zero_real hstays⟩

end Steady

/-- However a vehicle came about, while it holds on to its target its speed comes to it; and the
target is not below zero unless the top speed is. -/
theorem approaches_target (id : String) (category : Category) (spec : Spec ℝ)
    (start : Position ℝ) (ops : List (Operation ℝ))
    (hv : (withSpec id category spec start).performAll ops = .ok v) (hactive : v.active = true)
    (hkeeps : v.KeepsTarget) (hdt : 0 < dt) :
    v.Approaches dt ∧ (0 ≤ v.spec.maxSpeed → 0 ≤ v.targetSpeed) := by
  have hforward : v.Forward := Forward.performAll ops (.withSpec id category spec start) hv
  have hpos : 0 ≤ v.pace := by
    rw [pace, kmh_real]
    exact mul_nonneg hforward.speed (by norm_num)
  exact ⟨Steady.approaches ⟨hactive, hkeeps⟩ hdt hpos, hforward.targetSpeed⟩

/-- A haul truck at full load that is told to drive as fast as its load allows. -/
theorem approaches_target_loaded : ∃ v : Vehicle ℝ,
    (withSpec "HT-1" .haulTruck (Category.spec .haulTruck) ⟨0, 0, 0⟩).performAll
        [.setPayload 500.0, .setTargetSpeed 31.5] = .ok v
      ∧ v.active = true ∧ v.KeepsTarget ∧ v.Approaches 1
      ∧ 0 ≤ v.targetSpeed := by
  set u : Vehicle ℝ := withSpec "HT-1" .haulTruck (Category.spec .haulTruck) ⟨0, 0, 0⟩
  have hv := performAll_eq (v := u) [.setPayload 500.0, .setTargetSpeed 31.5]
    (Category.spec_bounded .haulTruck)
  have hkeeps : ((u.load 500.0).aim 31.5).KeepsTarget := by
    refine .inr (.inr ?_)
    show limited (45.0 : ℝ) 31.5 ≤ 45.0 * (1.0 - 0.3 * limited (220.0 : ℝ) 500.0 / 220.0)
    norm_num [limited, Scalar.isNaN]
  obtain ⟨happroaches, htarget⟩ := approaches_target _ _ _ _ _ hv rfl hkeeps one_pos
  refine ⟨_, hv, rfl, hkeeps, happroaches, htarget ?_⟩
  show (0 : ℝ) ≤ 45.0
  norm_num

/-- A load lowers the target with the top speed, and that may be below zero. -/
theorem exists_target_below_zero : ∃ v : Vehicle ℝ,
    (withSpec "HT-1" .haulTruck ⟨-10.0, 1.0, 0.0, 0.0, 0.0, 0.0, 0.0⟩ ⟨0, 0, 0⟩).performAll
        [.setPayload 1.0, .advance 1.0] = .ok v
      ∧ v.Steady ∧ v.targetSpeed = -7 ∧ v.pace = 0 := by
  set u : Vehicle ℝ :=
    withSpec "HT-1" .haulTruck ⟨-10.0, 1.0, 0.0, 0.0, 0.0, 0.0, 0.0⟩ ⟨0, 0, 0⟩
  have hload : (u.load 1.0).telemetry.payload = 1 := by
    show limited (1.0 : ℝ) 1.0 = 1
    norm_num [limited, Scalar.isNaN]
  have hperform : u.performAll [.setPayload 1.0, .advance 1.0] = .ok ((u.load 1.0).move 1.0) := by
    have hcapacity : (0.0 : ℝ) ≤ u.spec.maxPayload := by
      show (0.0 : ℝ) ≤ 1.0
      norm_num
    have hmove : (u.load 1.0).advance 1.0 = (u.load 1.0).move 1.0 :=
      advance_of_active rfl (isStep_real.2 (by norm_num))
    rw [performAll, perform, setPayload, limit_eq hcapacity, ← hmove]
    rfl
  have hpace : ((u.load 1.0).move 1.0).pace = 0 := by
    have hrest : (u.load 1.0).OnTarget := by
      show |(0.0 : ℝ) * kmh - 0.0 * kmh| ≤ 0.01
      norm_num
    rw [pace_move_of_onTarget hrest]
    show (0.0 : ℝ) * kmh = 0
    norm_num
  have htop : ((u.load 1.0).move 1.0).loadedTop = -7 := by
    show (-10.0 : ℝ) * (1.0 - 0.3 * (u.load 1.0).telemetry.payload / 1.0) = -7
    rw [hload]
    norm_num
  have htarget : ((u.load 1.0).move 1.0).targetSpeed = -7 := by
    have hderated := deratedTarget_of_loaded
      (u := { u.load 1.0 with telemetry.speed := (u.load 1.0).nextSpeed 1.0 })
      (hload.symm ▸ one_pos) (show (0 : ℝ) < 1.0 by norm_num)
    refine hderated.trans ?_
    show min ((u.load 1.0).move 1.0).loadedTop (0.0 : ℝ) = -7
    rw [htop]
    norm_num
  have hkeeps : ((u.load 1.0).move 1.0).KeepsTarget := .inr (.inr (htarget.trans htop.symm).le)
  exact ⟨_, hperform, ⟨rfl, hkeeps⟩, htarget, hpace⟩

/-- A target below zero is not reached. -/
theorem target_below_zero_unreached : ∃ v : Vehicle ℝ,
    (withSpec "HT-1" .haulTruck ⟨-10.0, 1.0, 0.0, 0.0, 0.0, 0.0, 0.0⟩ ⟨0, 0, 0⟩).performAll
        [.setPayload 1.0, .advance 1.0] = .ok v
      ∧ v.active = true ∧ v.KeepsTarget
      ∧ ⌈|v.targetPace - v.pace| / (v.rate * 1)⌉₊ = 1
      ∧ ¬ |v.targetPace - (v.steps 1 1).pace| ≤ speedDeadBand := by
  obtain ⟨v, hperform, hsteady, htarget, hpace⟩ := exists_target_below_zero
  refine ⟨v, hperform, hsteady.active, hsteady.keepsTarget, ?_⟩
  have hgoal : v.targetPace = -35 / 18 := by
    rw [targetPace, htarget, kmh_real]
    norm_num
  have hbraking : v.rate = 4 := by
    rw [rate, hgoal, hpace, brakingRate, accelerationRate]
    norm_num
  have hbelow : v.targetPace < -speedDeadBand := by
    rw [hgoal, speedDeadBand]
    norm_num
  constructor
  · rw [hgoal, hpace, hbraking, Nat.ceil_eq_iff one_ne_zero]
    norm_num
  · rw [← hsteady.targetPace_steps one_pos 1]
    exact hsteady.not_onTarget_steps one_pos hpace.ge hbelow 1

end PitFleet.Vehicle
