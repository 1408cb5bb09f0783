import Mathlib.Data.List.Basic
import PitFleet.Backend.Link
import PitFleet.Proofs.Simulation.Ticks

/-!
# What reaches the backend

A link is handed report after report while the network does what it likes. One emission does one of
four things (`Link.emission`), and from these follows what a whole run does (`Traffic.delivers`): no
report is refused, a link that is down tries to connect at every `period`-th emission since it went
down and at no other, the reports that are met by a link that is up go out in order, and those that
go out over one connection are consecutive.
-/

namespace PitFleet

/-! ## One emission -/

/-- The frame that goes out, if one does. -/
def Delivery.payload? : Delivery → Option String
  | sent payload => some payload
  | _ => none

namespace Link

/-- All that an emission can do. -/
inductive Emission (l : Link) (weather : Weather) (r : Report Float) : Link → Delivery → Prop
  | sends (hup : l.connection.isUp = true) (hout : weather.delivers = true) :
      Emission l weather r l (.sent r.batch.encode)
  | loses (hup : l.connection.isUp = true) (hout : weather.delivers = false) :
      Emission l weather r { l with connection := l.connection.disconnect } .lost
  | waits (hdown : l.connection.isUp = false) (hearly : l.waited + 1 < l.interval) :
      Emission l weather r { l with waited := l.waited + 1 } .dropped
  | tries (hdown : l.connection.isUp = false) (hdue : ¬ l.waited + 1 < l.interval) :
      Emission l weather r
        { l with connection := l.connection.disconnect.connect weather.connects, waited := 0 }
        .tried

theorem emission (l : Link) (weather : Weather) (r : Report Float) :
    Emission l weather r (l.emit weather r).1 (l.emit weather r).2 := by
  unfold emit
  by_cases hup : l.connection.isUp = true
  · rw [if_pos hup, Connection.send, if_pos hup]
    by_cases hout : weather.delivers = true
    · rw [if_pos hout]
      exact .sends hup hout
    · rw [if_neg hout]
      exact .loses hup (Bool.eq_false_iff.2 hout)
  · rw [if_neg hup, wait]
    have hdown := Bool.eq_false_iff.2 hup
    split_ifs with hearly
    · exact .waits hdown hearly
    · exact .tries hdown hearly

/-- The counter is below the interval, and at zero while the link is up. -/
structure Counting (l : Link) : Prop where
  waited_lt : l.waited < l.interval
  waited_of_isUp : l.connection.isUp = true → l.waited = 0

namespace Emission

variable {l l' : Link} {weather : Weather} {r : Report Float} {d : Delivery}
  (h : Emission l weather r l' d)
include h

theorem interval : l'.interval = l.interval := by
  cases h <;> rfl

theorem counting (hl : l.Counting) : l'.Counting := by
  cases h with
  | sends => exact hl
  | loses hup => exact ⟨hl.waited_lt, fun _ => hl.waited_of_isUp hup⟩
  | waits hdown hearly => exact ⟨hearly, fun hup => absurd hup (by simp [hdown])⟩
  | tries => exact ⟨l.interval_pos, fun _ => rfl⟩

theorem isUp_iff : l'.connection.isUp = true
    ↔ (l.connection.isUp = true ∧ weather.delivers = true)
      ∨ (d = .tried ∧ weather.connects = true) := by
  cases h with
  | sends hup hout => simp [hup, hout]
  | loses hup hout => simp [hout, Connection.disconnect]
  | waits hdown => simp [hdown]
  | tries hdown => simp [hdown, Connection.disconnect, Connection.connect]

theorem sent_iff {payload : String} : d = .sent payload
    ↔ l.connection.isUp = true ∧ weather.delivers = true ∧ payload = r.batch.encode := by
  cases h with
  | sends hup hout => simp [hup, hout, eq_comm]
  | loses hup hout => simp [hout]
  | waits hdown => simp [hdown]
  | tries hdown => simp [hdown]

theorem payload?_eq : d.payload?
    = if l.connection.isUp && weather.delivers then some r.batch.encode else none := by
  cases h with
  | sends hup hout => simp [hup, hout, Delivery.payload?]
  | loses hup hout => simp [hout, Delivery.payload?]
  | waits hdown => simp [hdown, Delivery.payload?]
  | tries hdown => simp [hdown, Delivery.payload?]

theorem lost_iff : d = .lost ↔ l.connection.isUp = true ∧ weather.delivers = false := by
  cases h with
  | sends hup hout => simp [hout]
  | loses hup hout => simp [hup, hout]
  | waits hdown => simp [hdown]
  | tries hdown => simp [hdown]

theorem waited_of_up (hup : l.connection.isUp = true) : l'.waited = l.waited := by
  cases h with
  | sends | loses => rfl
  | waits hdown | tries hdown =>
    rw [hup] at hdown
    cases hdown

theorem down_of_tried (hd : d = .tried) : l.connection.isUp = false := by
  cases h with
  | sends | loses | waits => cases hd
  | tries hdown => exact hdown

/-- A link that is down counts on, and tries to connect when it has counted up to its interval. -/
theorem waited_of_down (hdown : l.connection.isUp = false) (hl : l.Counting) :
    l'.waited = (l.waited + 1) % l.interval ∧ (d = .tried ↔ l.waited + 1 = l.interval) := by
  have hlt := hl.waited_lt
  cases h with
  | sends hup | loses hup =>
    rw [hdown] at hup
    cases hup
  | waits _ hearly => exact ⟨(Nat.mod_eq_of_lt hearly).symm, by simp [hearly.ne]⟩
  | tries _ hdue =>
    have heq : l.waited + 1 = l.interval := by omega
    exact ⟨by rw [heq, Nat.mod_self], by simp [heq]⟩

end Emission

end Link

/-! ## A run -/

/-- Of the first numbers, those with a property that holds between any two that have it are
consecutive. -/
theorem exists_filter_range {p : ℕ → Bool}
    (hp : ∀ i k j, i ≤ k → k ≤ j → p i = true → p j = true → p k = true) (n : ℕ) :
    ∃ first count, (List.range n).filter p = List.range' first count := by
  induction n with
  | zero => exact ⟨0, 0, rfl⟩
  | succ n ih =>
    obtain ⟨first, count, h⟩ := ih
    by_cases hn : p n = true
    · rw [List.range_succ, List.filter_append, h, List.filter_cons_of_pos hn, List.filter_nil]
      rcases count with _ | m
      · exact ⟨n, 1, rfl⟩
      · -- The last one before `n` is next to `n`: what is between them has the property too.
        have hmem (k : ℕ) : (k < n ∧ p k = true) ↔ first ≤ k ∧ k < first + (m + 1) := by
          rw [← List.mem_range'_1, ← h, List.mem_filter, List.mem_range]
        obtain ⟨hlt, hlast⟩ := (hmem (first + m)).2 ⟨by omega, by omega⟩
        have hnext : first + (m + 1) = n := by
          by_contra hne
          have hk := hp (first + m) (first + (m + 1)) n (by omega) (by omega) hlast hn
          have := (hmem (first + (m + 1))).1 ⟨by omega, hk⟩
          omega
        have hconcat : List.range' first (m + 1 + 1) = List.range' first (m + 1) ++ [n] := by
          rw [List.range'_concat, Nat.one_mul, hnext]
        exact ⟨first, m + 1 + 1, hconcat.symm⟩
    · rw [List.range_succ, List.filter_append, h, List.filter_cons_of_neg hn, List.filter_nil,
        List.append_nil]
      exact ⟨first, count, rfl⟩

/-- A link with the network that it meets, emission by emission, and what became of the reports. -/
structure Uplink where
  link : Link
  weather : ℕ → Weather
  deliveries : List Delivery

instance : Sink Uplink Float Error where
  emit u r :=
    let (link, delivery) := u.link.emit (u.weather u.deliveries.length) r
    (⟨link, u.weather, u.deliveries ++ [delivery]⟩, .ok ())

/-- All that a link meets: whether it comes up at once, the network and the reports. -/
structure Traffic where
  address : Address
  interval : UInt32
  connects : Bool
  weather : ℕ → Weather
  reports : ℕ → Report Float

namespace Traffic

variable (t : Traffic)

def start : Uplink :=
  ⟨.establish t.address t.interval t.connects, t.weather, []⟩

/-- The sink after it was handed the first `n` reports. -/
def after (n : ℕ) : Uplink :=
  Sink.deliver t.start ((List.range n).map t.reports)

/-- The link that report `n` meets, counted from zero. -/
def link (n : ℕ) : Link :=
  (t.after n).link

def isUp (n : ℕ) : Bool :=
  (t.link n).connection.isUp

def delivery (n : ℕ) : Delivery :=
  ((t.link n).emit (t.weather n) (t.reports n)).2

/-- The emissions from one attempt to connect to the next. -/
def period : ℕ :=
  max t.interval.toNat 1

/-- The frames that go out in the first `n` emissions. -/
def frames (n : ℕ) : List String :=
  (t.after n).deliveries.filterMap Delivery.payload?

/-- How many connections have come about before emission `n`. -/
def connections : ℕ → ℕ
  | 0 => t.connects.toNat
  | n + 1 => connections n + (!t.isUp n && t.isUp (n + 1)).toNat

/-- The frames that go out over connection `c` in the first `n` emissions. -/
def framesOver (c n : ℕ) : List String :=
  ((List.range n).filter (t.connections · = c)).filterMap fun k => (t.delivery k).payload?

/-- The link went down before emission `s` and is still down at emission `n`. -/
structure DownSince (s n : ℕ) : Prop where
  le : s ≤ n
  down : ∀ k, s ≤ k → k ≤ n → t.isUp k = false
  before : ∀ j, j + 1 = s → t.isUp j = true

/-! ### From one emission to the next -/

theorem after_succ (n : ℕ) : t.after (n + 1) = (Sink.emit (t.after n) (t.reports n)).1 := by
  rw [after, after, List.range_succ, List.map_append, Sink.deliver, List.foldl_append]
  rfl

theorem length_deliveries (n : ℕ) : (t.after n).deliveries.length = n := by
  induction n with
  | zero => rfl
  | succ n ih =>
    rw [after_succ]
    exact (List.length_append ..).trans (congrArg (· + 1) ih)

/-- Each emission meets its own part of the network and leaves its own entry. -/
theorem log_after (n : ℕ) :
    (t.after n).weather = t.weather ∧ (t.after n).deliveries = (List.range n).map t.delivery := by
  induction n with
  | zero => exact ⟨rfl, rfl⟩
  | succ n ih =>
    obtain ⟨hweather, hlog⟩ := ih
    rw [after_succ]
    refine ⟨hweather, ?_⟩
    show (t.after n).deliveries ++ [((t.link n).emit
      ((t.after n).weather (t.after n).deliveries.length) (t.reports n)).2] = _
    rw [t.length_deliveries, hweather, hlog, List.range_succ, List.map_append]
    rfl

theorem emission (n : ℕ) :
    (t.link n).Emission (t.weather n) (t.reports n) (t.link (n + 1)) (t.delivery n) := by
  have hlink : t.link (n + 1) = ((t.link n).emit (t.weather n) (t.reports n)).1 := by
    rw [link, after_succ]
    show ((t.link n).emit ((t.after n).weather (t.after n).deliveries.length) (t.reports n)).1 = _
    rw [t.length_deliveries, (t.log_after n).1]
  rw [hlink]
  exact (t.link n).emission (t.weather n) (t.reports n)

theorem interval_link (n : ℕ) : (t.link n).interval = t.period := by
  induction n with
  | zero => rfl
  | succ n ih => rw [(t.emission n).interval, ih]

theorem counting_link (n : ℕ) : (t.link n).Counting := by
  induction n with
  | zero => exact ⟨(t.link 0).interval_pos, fun _ => rfl⟩
  | succ n ih => exact (t.emission n).counting ih

theorem period_lt : t.period < UInt32.size := by
  have hword := t.interval.toNat_lt
  have hsize : UInt32.size = 4294967296 := rfl
  unfold period
  omega

theorem isUp_succ (n : ℕ) : t.isUp (n + 1) = true
    ↔ (t.isUp n = true ∧ (t.weather n).delivers = true)
      ∨ (t.delivery n = .tried ∧ (t.weather n).connects = true) :=
  (t.emission n).isUp_iff

/-! ### Down -/

variable {t} in
theorem DownSince.next {s n : ℕ} (h : t.DownSince s n) (hdown : t.isUp (n + 1) = false) :
    t.DownSince s (n + 1) := by
  refine ⟨Nat.le_succ_of_le h.le, fun k hk hkn => ?_, h.before⟩
  rcases Nat.le_succ_iff.1 hkn with hle | rfl
  · exact h.down k hk hle
  · exact hdown

theorem exists_downSince {n : ℕ} (hdown : t.isUp n = false) : ∃ s, t.DownSince s n := by
  induction n with
  | zero => exact ⟨0, le_rfl, fun k _ hk => by rwa [Nat.le_zero.1 hk], by simp⟩
  | succ n ih =>
    by_cases hup : t.isUp n = true
    · refine ⟨n + 1, le_rfl, fun k hk hkn => by rwa [le_antisymm hkn hk], fun j hj => ?_⟩
      rwa [Nat.succ_injective hj]
    · obtain ⟨s, hs⟩ := ih (Bool.eq_false_iff.2 hup)
      exact ⟨s, hs.next hdown⟩

/-- The counter of a link that is down says how long it has been so, since the last attempt. -/
theorem waited_eq {s n : ℕ} (h : t.DownSince s n) : (t.link n).waited = (n - s) % t.period := by
  -- From the emission that found the link down first, one emission after the other.
  obtain ⟨m, rfl⟩ := Nat.exists_eq_add_of_le h.le
  induction m with
  | zero =>
    rw [Nat.add_zero, Nat.sub_self, Nat.zero_mod]
    rcases s with _ | j
    · rfl
    · have hup := h.before j rfl
      have hzero := (t.counting_link j).waited_of_isUp hup
      rw [(t.emission j).waited_of_up hup, hzero]
  | succ m ih =>
    have hbefore : t.DownSince s (s + m) :=
      ⟨by omega, fun k hk hkn => h.down k hk (by omega), h.before⟩
    have hwaited := ih hbefore
    have hnow := h.down (s + m) (by omega) (by omega)
    have hstep := ((t.emission (s + m)).waited_of_down hnow (t.counting_link _)).1
    rw [← Nat.add_assoc, hstep, hwaited, t.interval_link, Nat.mod_add_mod]
    congr 1
    omega

/-- An attempt is made at every `period`-th emission since the link went down and at no other. -/
theorem tried_iff (n : ℕ) :
    t.delivery n = .tried ↔ ∃ s, t.DownSince s n ∧ t.period ∣ n - s + 1 := by
  have hpos : 0 < t.period := by
    rw [← t.interval_link n]
    exact (t.link n).interval_pos
  have hcount {s : ℕ} (h : t.DownSince s n) :
      t.delivery n = .tried ↔ t.period ∣ n - s + 1 := by
    have hnow := h.down n h.le le_rfl
    have hlt := Nat.mod_lt (n - s) hpos
    rw [((t.emission n).waited_of_down hnow (t.counting_link n)).2, t.waited_eq h,
      t.interval_link, Nat.dvd_iff_mod_eq_zero, ← Nat.mod_add_mod]
    constructor
    · intro heq
      rw [heq, Nat.mod_self]
    · intro hzero
      by_contra hne
      rw [Nat.mod_eq_of_lt (by omega)] at hzero
      omega
  constructor
  · intro htried
    obtain ⟨s, hs⟩ := t.exists_downSince ((t.emission n).down_of_tried htried)
    exact ⟨s, hs, (hcount hs).1 htried⟩
  · rintro ⟨s, hs, hdvd⟩
    exact (hcount hs).2 hdvd

/-! ### Up -/

/-- The frames of some emissions are the batches of those that send. -/
theorem filterMap_payload? (ks : List ℕ) :
    (ks.filterMap fun k => (t.delivery k).payload?)
      = (ks.filter fun k => t.isUp k && (t.weather k).delivers).map
        fun k => (t.reports k).batch.encode := by
  rw [← List.filterMap_eq_map, List.filterMap_filter]
  exact List.filterMap_congr fun k _ => (t.emission k).payload?_eq

theorem frames_eq (n : ℕ) :
    t.frames n = ((List.range n).filter fun k => t.isUp k && (t.weather k).delivers).map
      fun k => (t.reports k).batch.encode := by
  rw [frames, (t.log_after n).2, List.filterMap_map]
  exact t.filterMap_payload? (List.range n)

theorem connections_mono : Monotone t.connections :=
  monotone_nat_of_le_succ fun _ => Nat.le_add_right _ _

/-- While the link is up from one emission to a later one it is so on one connection. Otherwise it
has come up anew. -/
theorem up_or_anew {i j : ℕ} (hup : t.isUp i = true) (hij : i ≤ j) :
    (∀ k, i ≤ k → k ≤ j → t.isUp k = true)
      ∨ (t.isUp j = true → t.connections i < t.connections j) := by
  obtain ⟨m, rfl⟩ := Nat.exists_eq_add_of_le hij
  clear hij
  induction m with
  | zero => exact .inl fun k hik hki => by rwa [le_antisymm hki hik]
  | succ m ih =>
    by_cases hlast : t.isUp (i + m + 1) = true
    · rcases ih with hall | hanew
      · refine .inl fun k hik hk => ?_
        rcases Nat.le_succ_iff.1 hk with hle | rfl
        · exact hall k hik hle
        · exact hlast
      · refine .inr fun _ => ?_
        show _ < t.connections (i + m) + (!t.isUp (i + m) && t.isUp (i + m + 1)).toNat
        by_cases hbefore : t.isUp (i + m) = true
        · exact Nat.lt_add_right _ (hanew hbefore)
        · have hmono := t.connections_mono (Nat.le_add_right i m)
          simp only [Bool.eq_false_iff.2 hbefore, hlast, Bool.not_false, Bool.and_self,
            Bool.toNat_true]
          omega
    · exact .inr fun hup' => absurd hup' hlast

/-- Emission `k` sends its frame, and does so over connection `c`. -/
def sendsOver (c k : ℕ) : Bool :=
  t.isUp k && (t.weather k).delivers && t.connections k = c

theorem sendsOver_between {c i j k : ℕ} (hik : i ≤ k) (hkj : k ≤ j) (hi : t.sendsOver c i = true)
    (hj : t.sendsOver c j = true) : t.sendsOver c k = true := by
  simp only [sendsOver, Bool.and_eq_true, decide_eq_true_eq] at hi hj ⊢
  obtain ⟨⟨hup, -⟩, hc⟩ := hi
  obtain ⟨⟨hup', hout'⟩, hc'⟩ := hj
  have hall := (t.up_or_anew hup (hik.trans hkj)).resolve_right fun h => by
    have := h hup'
    omega
  have hmono := t.connections_mono hik
  have hmono' := t.connections_mono hkj
  refine ⟨⟨hall k hik hkj, ?_⟩, by omega⟩
  rcases Nat.eq_or_lt_of_le hkj with rfl | hlt
  · exact hout'
  · -- The link is still up at the next emission, so this one has gone out.
    have hnext := hall (k + 1) (by omega) hlt
    rcases (t.isUp_succ k).1 hnext with ⟨-, hout⟩ | ⟨htried, -⟩
    · exact hout
    · have hdown := (t.emission k).down_of_tried htried
      have hup := hall k hik hkj
      rw [isUp, hdown] at hup
      cases hup

/-- The frames that go out over one connection are those of consecutive emissions. -/
theorem framesOver_eq (c n : ℕ) : ∃ first count,
    t.framesOver c n
      = (List.range' first count).map fun k => (t.reports k).batch.encode := by
  obtain ⟨first, count, h⟩ := exists_filter_range (fun i k j => t.sendsOver_between (c := c)) n
  refine ⟨first, count, ?_⟩
  rw [framesOver, filterMap_payload?, List.filter_filter, ← h]
  rfl

/-- What a link does with all that it is handed. -/
structure Delivers : Prop where
  /-- No report is refused. -/
  takesAll : Sink.TakesAll t.start
  isUp_zero : t.isUp 0 = t.connects
  /-- A link goes down by a frame that does not go out and comes up by an attempt only. -/
  isUp_succ (n : ℕ) : t.isUp (n + 1) = true
    ↔ (t.isUp n = true ∧ (t.weather n).delivers = true)
      ∨ (t.delivery n = .tried ∧ (t.weather n).connects = true)
  tried_iff (n : ℕ) : t.delivery n = .tried ↔ ∃ s, t.DownSince s n ∧ t.period ∣ n - s + 1
  waited_lt (n : ℕ) : (t.link n).waited < t.period
  waited_of_isUp (n : ℕ) : t.isUp n = true → (t.link n).waited = 0
  /-- To count on does not leave the range of a word. -/
  waited_succ_lt (n : ℕ) : (t.link n).waited + 1 < UInt32.size
  sent_iff (n : ℕ) (payload : String) : t.delivery n = .sent payload
    ↔ t.isUp n = true ∧ (t.weather n).delivers = true ∧ payload = (t.reports n).batch.encode
  /-- A report is lost if the link is down when it comes, or if its own frame does not go out. -/
  unsent_iff (n : ℕ) :
    (t.delivery n).payload? = none ↔ t.isUp n = false ∨ t.delivery n = .lost
  lost_iff (n : ℕ) : t.delivery n = .lost ↔ t.isUp n = true ∧ (t.weather n).delivers = false
  frames (n : ℕ) : t.frames n
    = ((List.range n).filter fun k => t.isUp k && (t.weather k).delivers).map
      fun k => (t.reports k).batch.encode
  framesOver (c n : ℕ) : ∃ first count,
    t.framesOver c n = (List.range' first count).map fun k => (t.reports k).batch.encode

end Traffic

theorem Uplink.takesAll (u : Uplink) : Sink.TakesAll u := by
  intro rs
  induction rs generalizing u with
  | nil => trivial
  | cons r rs ih => exact ⟨rfl, ih _⟩

/-- Whatever the network does, nothing is refused, reordered or sent twice, a report is lost only
where the link is down or fails, and attempts to connect come at their period. -/
theorem Traffic.delivers (t : Traffic) : t.Delivers where
  takesAll := t.start.takesAll
  isUp_zero := rfl
  isUp_succ := t.isUp_succ
  tried_iff := t.tried_iff
  waited_lt n := by
    rw [← t.interval_link n]
    exact (t.counting_link n).waited_lt
  waited_of_isUp n := (t.counting_link n).waited_of_isUp
  waited_succ_lt n := by
    have hlt := (t.counting_link n).waited_lt
    have hword := t.period_lt
    rw [t.interval_link] at hlt
    omega
  sent_iff n _ := (t.emission n).sent_iff
  unsent_iff n := by
    rw [(t.emission n).payload?_eq, (t.emission n).lost_iff]
    rcases hup : (t.link n).connection.isUp <;> rcases hout : (t.weather n).delivers <;>
      simp [isUp, hup]
  lost_iff n := (t.emission n).lost_iff
  frames := t.frames_eq
  framesOver := t.framesOver_eq

end PitFleet
