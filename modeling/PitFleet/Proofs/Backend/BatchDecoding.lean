import Mathlib
import PitFleet.Proofs.Backend.BatchRoundTrip
import PitFleet.Proofs.Json.Standing

/-!
# Which texts are decoded

A text is decoded to a batch if it stands for the message of that batch, all records of a kind in
their own list and in their order, and then the batch can be encoded and decoded again. A message
with a record in the wrong list is refused for that, and a text that stands for no message as JSON
(`Batch.decode_sorts`).
-/

namespace PitFleet

open Json Document LawfulDocument ReadableDocument

namespace BatchMessage

/-- An alert stands in the telemetry list. -/
def StrayAlert (m : BatchMessage) : Prop :=
  ∃ a, .alert a ∈ m.telemetry

/-- A packet stands in the alert list. -/
def StrayTelemetry (m : BatchMessage) : Prop :=
  ∃ p, .telemetry p ∈ m.alerts

end BatchMessage

namespace Batch

section Readable

instance : ReadableDocument BatchRecord where
  distinct := .tagged (by decide)
    (List.forall_mem_cons.2 ⟨proper_packet.distinct,
      List.forall_mem_singleton.2 proper_alert.distinct⟩)
  settled := .tagged
    (List.forall_mem_cons.2 ⟨proper_packet.settled,
      List.forall_mem_singleton.2 proper_alert.settled⟩)
  exists_toJson h := by
    obtain ⟨variant, hvariant, filled, rfl, hmade⟩ := h.made_tagged
    rcases List.mem_pair.1 hvariant with rfl | rfl
    · obtain ⟨p, rfl⟩ := exists_packet hmade
      exact ⟨.telemetry p, rfl⟩
    · obtain ⟨a, rfl⟩ := exists_alert hmade
      exact ⟨.alert a, rfl⟩

theorem proper_message : Proper
    [field (List BatchRecord) "telemetry", field (List BatchRecord) "alerts"] :=
  proper_field _ <| proper_field _ proper_nil

instance : ReadableDocument BatchMessage where
  distinct := .tagged (by decide) (List.forall_mem_singleton.2 proper_message.distinct)
  settled := .tagged (List.forall_mem_singleton.2 proper_message.settled)
  exists_toJson h := by
    obtain ⟨variant, hvariant, filled, rfl, hmade⟩ := h.made_tagged
    obtain rfl := List.mem_singleton.1 hvariant
    obtain ⟨telemetry, rest, rfl, h₁⟩ := made_field hmade
    obtain ⟨alerts, rest, rfl, ⟨⟩⟩ := made_field h₁
    exact ⟨⟨telemetry, alerts⟩, rfl⟩

end Readable

section Sorting

variable {rs : List BatchRecord} {m : BatchMessage} {b : Batch}

theorem onlyTelemetry_eq_ok_iff {ps : List (TelemetryPacket Float)} :
    onlyTelemetry rs = .ok ps ↔ rs = ps.map .telemetry := by
  constructor
  · induction rs generalizing ps with
    | nil =>
      intro h
      obtain rfl := Except.ok.inj h
      rfl
    | cons r rs ih =>
      intro h
      cases r with
      | telemetry p =>
        obtain ⟨rest, hrest, h⟩ := bind_eq_ok_iff.1 h
        obtain rfl := Except.ok.inj h
        rw [ih hrest, List.map_cons]
      | alert a => cases h
  · rintro rfl
    exact onlyTelemetry_map ps

theorem onlyAlerts_eq_ok_iff {as : List (CollisionAlert Float)} :
    onlyAlerts rs = .ok as ↔ rs = as.map .alert := by
  constructor
  · induction rs generalizing as with
    | nil =>
      intro h
      obtain rfl := Except.ok.inj h
      rfl
    | cons r rs ih =>
      intro h
      cases r with
      | telemetry p => cases h
      | alert a =>
        obtain ⟨rest, hrest, h⟩ := bind_eq_ok_iff.1 h
        obtain rfl := Except.ok.inj h
        rw [ih hrest, List.map_cons]
  · rintro rfl
    exact onlyAlerts_map as

theorem map_eq_error_iff {ε α β : Type} {x : Except ε α} {f : α → β} {e : ε} :
    x.map f = .error e ↔ x = .error e := by
  cases x <;> simp [Except.map]

theorem onlyTelemetry_cons (p : TelemetryPacket Float) :
    onlyTelemetry (.telemetry p :: rs) = (onlyTelemetry rs).map (p :: ·) := by
  rw [onlyTelemetry]
  cases onlyTelemetry rs <;> rfl

theorem onlyAlerts_cons (a : CollisionAlert Float) :
    onlyAlerts (.alert a :: rs) = (onlyAlerts rs).map (a :: ·) := by
  rw [onlyAlerts]
  cases onlyAlerts rs <;> rfl

/-- An alert keeps a telemetry list from being taken, wherever it stands, and nothing else does. -/
theorem onlyTelemetry_eq_error_iff {e : BatchError} :
    onlyTelemetry rs = .error e ↔ e = .alertAmongTelemetry ∧ ∃ a, .alert a ∈ rs := by
  induction rs with
  | nil => simp [onlyTelemetry]
  | cons r rs ih =>
    cases r with
    | telemetry p =>
      rw [onlyTelemetry_cons, map_eq_error_iff, ih]
      simp
    | alert a => simp [onlyTelemetry, eq_comm]

theorem onlyAlerts_eq_error_iff {e : BatchError} :
    onlyAlerts rs = .error e ↔ e = .telemetryAmongAlerts ∧ ∃ p, .telemetry p ∈ rs := by
  induction rs with
  | nil => simp [onlyAlerts]
  | cons r rs ih =>
    cases r with
    | telemetry p => simp [onlyAlerts, eq_comm]
    | alert a =>
      rw [onlyAlerts_cons, map_eq_error_iff, ih]
      simp

theorem ofMessage_eq_ok_iff : ofMessage m = .ok b ↔ m = b.message := by
  constructor
  · intro h
    obtain ⟨ps, hps, h⟩ := bind_eq_ok_iff.1 h
    obtain ⟨as, has, h⟩ := bind_eq_ok_iff.1 h
    obtain rfl := Except.ok.inj h
    rw [onlyTelemetry_eq_ok_iff] at hps
    rw [onlyAlerts_eq_ok_iff] at has
    rw [message, ← hps, ← has]
  · rintro rfl
    exact ofMessage_message b

theorem ofMessage_of_strayAlert (h : m.StrayAlert) : ofMessage m = .error .alertAmongTelemetry := by
  rw [ofMessage, onlyTelemetry_eq_error_iff.2 ⟨rfl, h⟩]
  rfl

/-- The alert list is looked at only where all of the telemetry list belongs there. -/
theorem ofMessage_of_strayTelemetry (hno : ¬ m.StrayAlert) (h : m.StrayTelemetry) :
    ofMessage m = .error .telemetryAmongAlerts := by
  rcases htelemetry : onlyTelemetry m.telemetry with e | ps
  · exact absurd (onlyTelemetry_eq_error_iff.1 htelemetry).2 hno
  · rw [ofMessage, htelemetry, onlyAlerts_eq_error_iff.2 ⟨rfl, h⟩]
    rfl

end Sorting

section Decoding

variable {text : String} {m : BatchMessage} {b : Batch}

theorem decode_of_standsFor (h : StandsFor text m) : decode text = ofMessage m := by
  rw [decode, read_eq_ok_iff.2 h]

theorem decode_of_not_standsFor (h : ¬ ∃ m : BatchMessage, StandsFor text m) :
    ∃ cause, decode text = .error (.unreadable cause) := by
  rcases hread : read (τ := BatchMessage) text with cause | m
  · exact ⟨cause, by rw [decode, hread]⟩
  · exact absurd ⟨m, read_eq_ok_iff.1 hread⟩ h

theorem decode_eq_ok_iff : decode text = .ok b ↔ StandsFor text b.message := by
  constructor
  · intro h
    by_cases hm : ∃ m : BatchMessage, StandsFor text m
    · obtain ⟨m, hm⟩ := hm
      rw [decode_of_standsFor hm, ofMessage_eq_ok_iff] at h
      exact h ▸ hm
    · obtain ⟨cause, hcause⟩ := decode_of_not_standsFor hm
      cases hcause.symm.trans h
  · intro h
    rw [decode_of_standsFor h, ofMessage_message]

theorem isFinite_of_decode (h : decode text = .ok b) : ∀ x ∈ b.floats, x.isFinite = true := by
  have hfinite := finite_of_read (read_eq_ok_iff.2 (decode_eq_ok_iff.1 h))
  rwa [Json.Finite, reals_message] at hfinite

/-- A text is decoded to a batch exactly if it stands for its message, and the batch can then be
encoded and decoded again. Of two lists with a stray record the telemetry list is named, and what
stands for no message is no JSON of the kind. -/
theorem decode_sorts (text : String) :
    (∀ b, decode text = .ok b ↔ StandsFor text b.message)
      ∧ (∀ b, decode text = .ok b → (∀ x ∈ b.floats, x.isFinite = true)
        ∧ ((∀ x ∈ b.floats, x.isFinite = true → ReadsBack x) → decode b.encode = .ok b))
      ∧ (∀ m : BatchMessage, StandsFor text m →
        (m.StrayAlert → (decode text).mapError BatchError.toError
          = .error (.transport "alert record in telemetry list"))
        ∧ (¬ m.StrayAlert → m.StrayTelemetry → (decode text).mapError BatchError.toError
          = .error (.transport "telemetry record in alert list")))
      ∧ ((¬ ∃ m : BatchMessage, StandsFor text m) →
        ∃ cause, (decode text).mapError BatchError.toError = .error (.json cause)) := by
  refine ⟨fun b => decode_eq_ok_iff, fun b h => ?_, fun m hm => ⟨fun h => ?_, fun hno h => ?_⟩,
    fun h => ?_⟩
  · have hfinite := isFinite_of_decode h
    exact ⟨hfinite, fun hread => decode_encode_of_readsBack hread hfinite⟩
  · rw [decode_of_standsFor hm, ofMessage_of_strayAlert h]
    rfl
  · rw [decode_of_standsFor hm, ofMessage_of_strayTelemetry hno h]
    rfl
  · obtain ⟨cause, hcause⟩ := decode_of_not_standsFor h
    exact ⟨cause, by rw [hcause]; rfl⟩

def warning : CollisionAlert Float :=
  ⟨"A", "B", .critical, .approach, 0.5, 2.0, 0⟩

/-- The alert as a record without keys. -/
def warningText : String :=
  "[\"alert\",\"A\",\"B\",4,0,0.5,2,0]"

/-- The keys in another order and one that nobody asks for. -/
def shuffled : String :=
  "\x7b\"alerts\":[" ++ warningText ++ "],\"x\":1,\"telemetry\":[],\"type\":\"batch\"\x7d"

/-- The alert in the telemetry list. -/
def strayed : String :=
  "\x7b\"type\":\"batch\",\"telemetry\":[" ++ warningText ++ "],\"alerts\":[]\x7d"

section Examples

deriving instance DecidableEq for Position, Telemetry, TelemetryPacket, CollisionAlert,
  BatchRecord, BatchMessage, Batch

theorem decode_sorts_alert :
    StandsFor shuffled (message ⟨[], [warning]⟩)
      ∧ decode (encode ⟨[], [warning]⟩) = .ok ⟨[], [warning]⟩
      ∧ (decode strayed).mapError BatchError.toError
        = .error (.transport "alert record in telemetry list")
      ∧ ∃ cause, (decode "[]").mapError BatchError.toError = .error (.json cause) := by
  have hdecode : decode shuffled = .ok ⟨[], [warning]⟩ := by decide +kernel
  have hstray : read strayed = .ok (BatchMessage.mk [.alert warning] []) := by decide +kernel
  have hnone : read "[]" = (.error .mismatch : Except Cause BatchMessage) := by decide +kernel
  obtain ⟨hstands, hagain, -, -⟩ := decode_sorts shuffled
  obtain ⟨-, -, hstrays, -⟩ := decode_sorts strayed
  obtain ⟨-, -, -, hrefused⟩ := decode_sorts "[]"
  have hread : ∀ x ∈ floats ⟨[], [warning]⟩, x.isFinite = true → ReadsBack x :=
    List.forall_mem_cons.2 ⟨fun _ => rfl, List.forall_mem_singleton.2 fun _ => rfl⟩
  refine ⟨(hstands _).1 hdecode, (hagain _ hdecode).2 hread,
    (hstrays _ (read_eq_ok_iff.1 hstray)).1 ⟨warning, List.mem_cons_self⟩, hrefused ?_⟩
  rintro ⟨m, hm⟩
  cases hnone.symm.trans (read_eq_ok_iff.2 hm)

end Examples

end Decoding

end Batch

end PitFleet
