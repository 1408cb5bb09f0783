import PitFleet.Backend.Batch
import PitFleet.Proofs.Json.Lawful

/-!
# Batches are read back

The text of a batch is read as the batch, whatever its ids, times and codes are, if all its numbers
are finite, and is refused as JSON of the wrong shape otherwise: what is not finite is written as
null (`Batch.decode_encode`).
-/

namespace PitFleet

open Json Document LawfulDocument

def TelemetryPacket.floats (p : TelemetryPacket Float) : List Float :=
  [p.position.latitude, p.position.longitude, p.position.altitude, p.telemetry.speed,
    p.telemetry.heading, p.telemetry.payload, p.telemetry.fuelLevel, p.telemetry.engineRpm]

def CollisionAlert.floats (a : CollisionAlert Float) : List Float :=
  [a.timeToImpact, a.distance]

/-- All numbers of a batch that may be no numbers or infinite. -/
def Batch.floats (b : Batch) : List Float :=
  b.telemetry.flatMap TelemetryPacket.floats ++ b.alerts.flatMap CollisionAlert.floats

namespace Batch

instance : LawfulDocument BatchRecord where
  levels := 2
  fits r room hroom := by
    obtain ⟨room, rfl⟩ := Nat.exists_eq_add_of_le' hroom
    cases r with
    | telemetry p => exact .tagged rfl (filled_packet p (Nat.le_add_left ..)) (by decide)
    | alert a => exact .tagged rfl (filled_alert a) (by decide)
  ofJson?_toJson r := by
    cases r <;> simp [toJson, ofJson?]

instance : LawfulDocument BatchMessage where
  levels := 4
  fits m room hroom := by
    obtain ⟨room, rfl⟩ := Nat.exists_eq_add_of_le' hroom
    exact .tagged rfl
      (filled_field _ m.telemetry (Nat.le_add_left ..) <|
        filled_field _ m.alerts (Nat.le_add_left ..) .nil) (by decide)
  ofJson?_toJson m := by
    have hparts : ofJson? (toJson m) = do
        let telemetry ← ofJson? (toJson m.telemetry)
        let alerts ← ofJson? (toJson m.alerts)
        return BatchMessage.mk telemetry alerts := rfl
    rw [hparts]
    simp

theorem reals_telemetry (p : TelemetryPacket Float) :
    (toJson (BatchRecord.telemetry p)).reals = p.floats := rfl

theorem reals_alert (a : CollisionAlert Float) :
    (toJson (BatchRecord.alert a)).reals = a.floats := rfl

theorem reals_message (b : Batch) : (toJson b.message).reals = b.floats := by
  have hmembers : (toJson b.message).reals
      = [] ++ (realsOfItems ((b.telemetry.map BatchRecord.telemetry).map toJson)
        ++ (realsOfItems ((b.alerts.map BatchRecord.alert).map toJson) ++ [])) := rfl
  rw [hmembers, realsOfItems_map, realsOfItems_map]
  simp [List.flatMap_map, reals_telemetry, reals_alert, floats]

theorem onlyTelemetry_map (ps : List (TelemetryPacket Float)) :
    onlyTelemetry (ps.map .telemetry) = .ok ps := by
  induction ps with
  | nil => rfl
  | cons p ps ih =>
    simp [onlyTelemetry, ih]

theorem onlyAlerts_map (as : List (CollisionAlert Float)) :
    onlyAlerts (as.map .alert) = .ok as := by
  induction as with
  | nil => rfl
  | cons a as ih =>
    simp [onlyAlerts, ih]

theorem ofMessage_message (b : Batch) : ofMessage b.message = .ok b := by
  rw [ofMessage, message, onlyTelemetry_map, onlyAlerts_map]
  rfl

theorem levels_message_le : levels BatchMessage ≤ innerLevels + 1 := by
  decide

theorem decode_encode_eq_ok {b : Batch} (h : ∀ x ∈ b.floats, rereadReal x = some x) :
    decode b.encode = .ok b := by
  rw [← reals_message] at h
  have hmessage := read_render_eq_ok levels_message_le .compact h
  rw [decode, encode, Document.write, hmessage]
  exact ofMessage_message b

theorem decode_encode_eq_error {b : Batch} {x : Float} (hx : x ∈ b.floats)
    (hlost : rereadReal x = none) : ∃ cause, decode b.encode = .error (.unreadable cause) := by
  rw [← reals_message] at hx
  obtain ⟨cause, hcause⟩ := read_render_eq_error levels_message_le .compact hx hlost
  exact ⟨cause, by rw [decode, encode, Document.write, hcause]⟩

theorem decode_encode_of_readsBack {b : Batch} (hread : ∀ x ∈ b.floats, x.isFinite = true →
    ReadsBack x) (hfinite : ∀ x ∈ b.floats, x.isFinite = true) : decode b.encode = .ok b :=
  decode_encode_eq_ok fun x hx => rereadReal_of_readsBack (hfinite x hx) (hread x hx (hfinite x hx))

/-- A batch whose numbers are all finite is read back as it was; any other is still written, as a
text that is refused. -/
theorem decode_encode (b : Batch) (hread : ∀ x ∈ b.floats, x.isFinite = true → ReadsBack x) :
    ((∃ b', decode b.encode = .ok b') ↔ ∀ x ∈ b.floats, x.isFinite = true)
      ∧ (∀ b', decode b.encode = .ok b' → b' = b)
      ∧ ((∃ x ∈ b.floats, x.isFinite = false) →
        ∃ cause, (decode b.encode).mapError BatchError.toError = .error (.json cause)) := by
  by_cases hfinite : ∀ x ∈ b.floats, x.isFinite = true
  · have hsame := decode_encode_of_readsBack hread hfinite
    rw [hsame]
    refine ⟨⟨fun _ => hfinite, fun _ => ⟨b, rfl⟩⟩, fun b' h => (Except.ok.inj h).symm, ?_⟩
    rintro ⟨x, hx, hinfinite⟩
    rw [hfinite x hx] at hinfinite
    cases hinfinite
  · push Not at hfinite
    obtain ⟨x, hx, hinfinite⟩ := hfinite
    obtain ⟨cause, hcause⟩ := decode_encode_eq_error hx (rereadReal_of_not_isFinite hinfinite)
    rw [hcause]
    exact ⟨⟨nofun, fun h => absurd (h x hx) hinfinite⟩, nofun, fun _ => ⟨cause, rfl⟩⟩

/-- Ids with marks of the text itself, a control character and a letter outside ASCII. -/
def oddIds : Batch where
  telemetry := [{
    vehicleId := "HT \"1\"\\\n\u0001é"
    timestamp := -1
    category := .haulTruck
    cycle := .loading
    position := ⟨-20.5, 119.75, 480.0⟩
    telemetry := ⟨0.0, 90.0, 220.0, 0.5, 800.0⟩ }]
  alerts := [{
    firstId := ""
    secondId := "\x7d,"
    severity := .critical
    encounter := .approach
    timeToImpact := 0.5
    distance := 12.25
    timestamp := 0 }]

theorem decode_encode_oddIds :
    (∀ x ∈ oddIds.floats, x.isFinite = true → ReadsBack x)
      ∧ (∀ x ∈ oddIds.floats, x.isFinite = true) ∧ decode oddIds.encode = .ok oddIds := by
  have hread : List.Forall ReadsBack oddIds.floats :=
    ⟨rfl, rfl, rfl, rfl, rfl, rfl, rfl, rfl, rfl, rfl⟩
  have hreads : ∀ x ∈ oddIds.floats, x.isFinite = true → ReadsBack x := fun x hx _ =>
    List.forall_iff_forall_mem.1 hread x hx
  have hfinite : ∀ x ∈ oddIds.floats, x.isFinite = true := by decide +kernel
  obtain ⟨hdecode, hsame, -⟩ := decode_encode oddIds hreads
  obtain ⟨b, hb⟩ := hdecode.2 hfinite
  rw [hsame b hb] at hb
  exact ⟨hreads, hfinite, hb⟩

end Batch

end PitFleet
