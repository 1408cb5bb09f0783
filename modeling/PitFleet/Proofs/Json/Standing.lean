import PitFleet.Proofs.Json.Lawful
import PitFleet.Proofs.Json.Reading

/-!
# What a text stands for

A text stands for a value if it is one draft, which is read as the form of the value, and blanks.
Where every form that the rules give is the form of a value, a text is read as what it stands for
and as nothing else (`Document.read_eq_ok_iff`), and the doubles of what is read are finite
(`Document.finite_of_read`).
-/

namespace PitFleet

open Json Document

namespace Json

section Made

/-- What a field may come to. -/
def Field.Makes (strictness : Strictness) (f : Field) (v : Json) : Prop :=
  (∃ d, ReadsField strictness f d v) ∨ f.missing = .ok v

/-- The values are those of the fields, in their order. -/
def Made (strictness : Strictness) (fields : List Field) (filled : List (String × Json)) : Prop :=
  List.Forall₂ (fun f m => m.1 = f.name ∧ f.Makes strictness m.2) fields filled

variable {strictness : Strictness} {given : List (String × Draft)} {fields : List Field}
  {filled : List (String × Json)} {items : Items} {d : Draft} {v : Json} {key : String}
  {variants : List (String × List Field)}

theorem ReadsNamed.made (h : ReadsNamed strictness given fields filled) :
    Made strictness fields filled := by
  induction fields generalizing filled with
  | nil =>
    cases h
    exact .nil
  | cons f fields ih =>
    cases h with
    | given hmem hv h => exact .cons ⟨rfl, .inl ⟨_, hv⟩⟩ (ih h)
    | missing hmem hv h => exact .cons ⟨rfl, .inr hv⟩ (ih h)

theorem made_of_complete (h : Field.complete [] fields = .ok filled) :
    Made strictness fields filled := by
  induction fields generalizing filled with
  | nil =>
    obtain rfl := Except.ok.inj h
    exact .nil
  | cons f fields ih =>
    obtain ⟨v, rest, hv, hrest, rfl⟩ := Field.complete_cons_eq_ok_iff.1 h
    exact .cons ⟨rfl, .inr hv⟩ (ih hrest)

theorem ReadsRow.made (h : ReadsRow strictness fields items filled) :
    Made strictness fields filled := by
  induction fields generalizing items filled with
  | nil =>
    cases h with
    | closed h => exact made_of_complete h
    | surplus => exact .nil
  | cons f fields ih =>
    cases h with
    | closed h => exact made_of_complete h
    | given hv h => exact .cons ⟨rfl, .inl ⟨_, hv⟩⟩ (ih h)

/-- A record comes to its fields, whichever way they were given. -/
theorem Reads.made (h : Reads strictness (.record fields) d v) :
    ∃ filled, v = .object filled ∧ Made strictness fields filled := by
  cases h with
  | record hgiven hnames h => exact ⟨_, rfl, h.made⟩
  | row h => exact ⟨_, rfl, h.made⟩

theorem Reads.made_tagged (h : Reads strictness (.tagged key variants) d v) :
    ∃ variant ∈ variants, ∃ filled, v = .object ((key, .string variant.1) :: filled)
      ∧ Made .buffered variant.2 filled := by
  cases h with
  | tagged hgiven htag hnames h =>
    obtain ⟨d, -, hd⟩ := htag.tag
    exact ⟨_, mem_of_readTag hd, _, rfl, h.made⟩
  | taggedRow htag hrest h => exact ⟨_, mem_of_readTag htag, _, rfl, h.made⟩

end Made

end Json

/-- Whatever the rules make of a draft is the form of a value. -/
class ReadableDocument (τ : Type) [Document τ] : Prop where
  distinct : (shape τ).Distinct
  settled : (shape τ).Settled
  exists_toJson {strictness : Strictness} {d : Draft} {v : Json}
    (h : Reads strictness (shape τ) d v) : ∃ x : τ, toJson x = v

namespace ReadableDocument

instance : ReadableDocument Float where
  distinct := .real
  settled := .real
  exists_toJson h := by
    cases h with
    | real n => exact ⟨n.toReal, rfl⟩

instance : ReadableDocument String where
  distinct := .text
  settled := .text
  exists_toJson h := by
    cases h with
    | text s => exact ⟨s, rfl⟩

instance : ReadableDocument Int64 where
  distinct := .integer ..
  settled := .integer ..
  exists_toJson h := by
    cases h with
    | @integer _ _ _ n hn =>
      have hmax : Int64.maxValue.toInt < 2 ^ 63 := by decide
      exact ⟨.ofInt n, congrArg _ (Int64.toInt_ofInt_of_le hn.1 (hn.2.trans_lt hmax))⟩

instance {ε : Type} [Coded ε] : ReadableDocument ε where
  distinct := .integer ..
  settled := .integer ..
  exists_toJson h := by
    cases h with
    | @integer _ _ _ n hn =>
      have hsize : n.toNat < Coded.size ε := by omega
      obtain ⟨x, hx⟩ := Option.isSome_iff_exists.1 (Coded.isSome_ofCode?_iff.2 hsize)
      refine ⟨x, congrArg Json.integer ?_⟩
      rw [Coded.code_of_ofCode? hx, Int.toNat_of_nonneg hn.1]

section Lists

variable {τ : Type} [Document τ] [ReadableDocument τ] {strictness : Strictness}

theorem exists_items : ∀ {items : Items} {values : List Json},
    ReadsAll strictness (shape τ) items values → ∃ xs : List τ, xs.map toJson = values
  | _, _, .closed => ⟨[], rfl⟩
  | _, _, .cons hv h => by
    obtain ⟨x, rfl⟩ := exists_toJson hv
    obtain ⟨xs, rfl⟩ := exists_items h
    exact ⟨x :: xs, rfl⟩

instance : ReadableDocument (List τ) where
  distinct := .list distinct
  settled := .list settled
  exists_toJson h := by
    cases h with
    | list h =>
      obtain ⟨xs, rfl⟩ := exists_items h
      exact ⟨xs, rfl⟩

end Lists

section Fields

variable {τ : Type} [Document τ] [ReadableDocument τ] {strictness : Strictness} (name : String)
  {fields : List Field} {filled : List (String × Json)}

/-- The shapes and the defaults of fields are those of documents. -/
structure Proper (fields : List Field) : Prop where
  distinct : ∀ f ∈ fields, f.shape.Distinct
  settled : ∀ f ∈ fields, f.Settled

theorem proper_nil : Proper [] :=
  ⟨List.forall_mem_nil _, List.forall_mem_nil _⟩

theorem proper_field (h : Proper fields) : Proper (field τ name :: fields) where
  distinct := List.forall_mem_cons.2 ⟨distinct, h.distinct⟩
  settled := List.forall_mem_cons.2 ⟨.mk settled nofun, h.settled⟩

variable {name}

/-- What a field that has to be given comes to. -/
theorem made_field (h : Made strictness (field τ name :: fields) filled) :
    ∃ (x : τ) (rest : List (String × Json)), filled = (name, toJson x) :: rest
      ∧ Made strictness fields rest := by
  cases h with
  | @cons _ m _ rest hm hrest =>
    obtain ⟨name', v⟩ := m
    -- Such a field is neither missing nor left out.
    obtain ⟨rfl, ⟨d, hv⟩ | hmissing⟩ := hm
    · cases hv with
      | value hgiven h =>
        obtain ⟨x, rfl⟩ := exists_toJson h
        exact ⟨x, rest, rfl, hrest⟩
      | nothing hout =>
        unfold Field.leavesOut at hout
        split at hout <;> cases hout
    · cases hmissing

end Fields

section Records

variable {strictness : Strictness} {filled : List (String × Json)}

theorem of_record {τ : Type} [Document τ] {fields : List Field} (hshape : shape τ = .record fields)
    (hnames : (fields.map Field.name).Nodup) (hproper : Proper fields)
    (hmade : ∀ {strictness filled}, Made strictness fields filled →
      ∃ x : τ, toJson x = .object filled) : ReadableDocument τ where
  distinct := hshape ▸ .record hnames hproper.distinct
  settled := hshape ▸ .record hproper.settled
  exists_toJson h := by
    rw [hshape] at h
    obtain ⟨filled, rfl, hfilled⟩ := h.made
    exact hmade hfilled

instance : ReadableDocument (Position Float) := by
  refine of_record rfl (by decide)
    (proper_field _ <| proper_field _ <| proper_field _ proper_nil) fun hmade => ?_
  obtain ⟨latitude, rest, rfl, h₁⟩ := made_field hmade
  obtain ⟨longitude, rest, rfl, h₂⟩ := made_field h₁
  obtain ⟨altitude, rest, rfl, ⟨⟩⟩ := made_field h₂
  exact ⟨⟨latitude, longitude, altitude⟩, rfl⟩

instance : ReadableDocument (Telemetry Float) := by
  refine of_record rfl (by decide)
    (proper_field _ <| proper_field _ <| proper_field _ <| proper_field _ <|
      proper_field _ proper_nil) fun hmade => ?_
  obtain ⟨speed, rest, rfl, h₁⟩ := made_field hmade
  obtain ⟨heading, rest, rfl, h₂⟩ := made_field h₁
  obtain ⟨payload, rest, rfl, h₃⟩ := made_field h₂
  obtain ⟨fuelLevel, rest, rfl, h₄⟩ := made_field h₃
  obtain ⟨engineRpm, rest, rfl, ⟨⟩⟩ := made_field h₄
  exact ⟨⟨speed, heading, payload, fuelLevel, engineRpm⟩, rfl⟩

theorem proper_packet : Proper TelemetryPacket.fields :=
  proper_field _ <| proper_field _ <| proper_field _ <| proper_field _ <| proper_field _ <|
    proper_field _ proper_nil

theorem exists_packet (h : Made strictness TelemetryPacket.fields filled) :
    ∃ p : TelemetryPacket Float, p.members = filled := by
  obtain ⟨vehicleId, rest, rfl, h₁⟩ := made_field h
  obtain ⟨timestamp, rest, rfl, h₂⟩ := made_field h₁
  obtain ⟨category, rest, rfl, h₃⟩ := made_field h₂
  obtain ⟨cycle, rest, rfl, h₄⟩ := made_field h₃
  obtain ⟨position, rest, rfl, h₅⟩ := made_field h₄
  obtain ⟨telemetry, rest, rfl, ⟨⟩⟩ := made_field h₅
  exact ⟨⟨vehicleId, timestamp, category, cycle, position, telemetry⟩, rfl⟩

theorem proper_alert : Proper CollisionAlert.fields :=
  proper_field _ <| proper_field _ <| proper_field _ <| proper_field _ <| proper_field _ <|
    proper_field _ <| proper_field _ proper_nil

theorem exists_alert (h : Made strictness CollisionAlert.fields filled) :
    ∃ a : CollisionAlert Float, a.members = filled := by
  obtain ⟨firstId, rest, rfl, h₁⟩ := made_field h
  obtain ⟨secondId, rest, rfl, h₂⟩ := made_field h₁
  obtain ⟨severity, rest, rfl, h₃⟩ := made_field h₂
  obtain ⟨encounter, rest, rfl, h₄⟩ := made_field h₃
  obtain ⟨time, rest, rfl, h₅⟩ := made_field h₄
  obtain ⟨distance, rest, rfl, h₆⟩ := made_field h₅
  obtain ⟨timestamp, rest, rfl, ⟨⟩⟩ := made_field h₆
  exact ⟨⟨firstId, secondId, severity, encounter, time, distance, timestamp⟩, rfl⟩

end Records

end ReadableDocument

namespace Document

variable {τ : Type} [Document τ] {text : String} {x : τ}

def StandsFor (text : String) (x : τ) : Prop :=
  ∃ d rest, scan text.toList = (d, some rest) ∧ skipBlanks rest = []
    ∧ Reads .streamed (shape τ) d (toJson x)

theorem shape_read_eq_ok_iff {shape : Shape} (hs : shape.Distinct) {v : Json} :
    shape.read text = .ok v ↔ ∃ d rest, scan text.toList = (d, some rest)
      ∧ skipBlanks rest = [] ∧ Reads .streamed shape d v := by
  unfold Shape.read
  rcases scan text.toList with ⟨d, rest⟩
  simp only [bind_eq_ok_iff, Draft.conform_eq_ok_iff hs, Prod.mk.injEq]
  constructor
  · rintro ⟨v', hv, h⟩
    split at h
    case h_1 hrest =>
      obtain rfl := Except.ok.inj h
      obtain ⟨rest, rfl, hblank⟩ := Option.map_eq_some_iff.1 hrest
      exact ⟨d, rest, ⟨rfl, rfl⟩, hblank, hv⟩
    case h_2 => cases h
  · rintro ⟨d', rest, ⟨rfl, rfl⟩, hblank, hv⟩
    refine ⟨v, hv, ?_⟩
    rw [Option.map_some, hblank]

variable [LawfulDocument τ] [ReadableDocument τ]

theorem read_eq_ok_iff : read text = .ok x ↔ StandsFor text x := by
  rw [StandsFor, ← shape_read_eq_ok_iff ReadableDocument.distinct, read, bind_eq_ok_iff]
  constructor
  · rintro ⟨v, hv, h⟩
    obtain ⟨d, rest, -, -, hreads⟩ := (shape_read_eq_ok_iff ReadableDocument.distinct).1 hv
    obtain ⟨y, rfl⟩ := ReadableDocument.exists_toJson hreads
    rw [LawfulDocument.ofJson?_toJson] at h
    obtain rfl := Except.ok.inj h
    exact hv
  · intro hv
    refine ⟨_, hv, ?_⟩
    rw [LawfulDocument.ofJson?_toJson]

theorem finite_of_read (h : read text = .ok x) : (toJson x).Finite := by
  rw [read_eq_ok_iff, StandsFor, ← shape_read_eq_ok_iff ReadableDocument.distinct] at h
  exact Shape.finite_of_read ReadableDocument.settled h

end Document

end PitFleet
