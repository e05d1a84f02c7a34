import NetBabbler.Interleaving
import NetBabbler.Protocol

/-!
# Periodic statistics

`cClient::statistics` reports what was counted since its last call and what was counted in
all, with the times that this took. The main loop calls it again and again as soon as there is a
requestor. The client's thread stores when it starts, counts, and at some point stores how long
it ran. Up to the first store a call counts its time from the clock's epoch on. After the second
one the total time is the stored one, but what is remembered still is the time of the call.

A call reads the clock and `m_startTime`, and then `m_finishedTime`. The thread can store its
times before, between and behind these, so that the clock of a call is only compared with that of
other calls.

`adds_iff` : the reports add up until a call remembers more than the total time of the next one,
or two calls find a stored time and the first one remembers another.
-/

namespace NetBabbler

attribute [ext] Stats

namespace Stats

instance : Add Stats where
  add a b :=
    { sentPackets := a.sentPackets + b.sentPackets
      sentOctets := a.sentOctets + b.sentOctets
      receivedPackets := a.receivedPackets + b.receivedPackets
      receivedOctets := a.receivedOctets + b.receivedOctets
      errors := a.errors + b.errors
      timeouts := a.timeouts + b.timeouts }

instance : Sub Stats where
  sub a b :=
    { sentPackets := a.sentPackets - b.sentPackets
      sentOctets := a.sentOctets - b.sentOctets
      receivedPackets := a.receivedPackets - b.receivedPackets
      receivedOctets := a.receivedOctets - b.receivedOctets
      errors := a.errors - b.errors
      timeouts := a.timeouts - b.timeouts }

theorem add_sub (a b : Stats) : a + (b - a) = b := by
  have h (x y : Int64) : x + (y - x) = y := by
    rw [Int64.add_comm, Int64.sub_add_cancel]
  ext
  all_goals exact h _ _

end Stats

/-- `duration_cast<milliseconds>` of the steady clock's time `start` up to `now`. -/
def milliseconds (start now : Nat) : Int :=
  ((now : Int) - start).tdiv 1000000

/-- What `cClient::statistics` works on. -/
structure StatsClient where
  /-- The statistics of `m_requestor`, if it is there. -/
  requestor : Option Stats
  /-- The epoch of the clock, until it is stored. -/
  startTime : Nat := 0
  finishedTime : UInt32 := 0
  lastStatsTime : UInt32 := 0
  lastStats : Stats := {}
  deriving DecidableEq, Repr

/-- The statistics and the pair of durations that `cClient::statistics` gives. -/
structure StatsReport where
  delta : Stats
  summary : Stats
  deltaTime : UInt32
  duration : UInt32
  deriving DecidableEq, Repr

/-- `cClient::statistics`, called at the time `now`. -/
def StatsClient.statistics (now : Nat) (delta summary : Stats) (c : StatsClient) :
    StatsReport × StatsClient :=
  match c.requestor with
  | none => (⟨delta, summary, 0, 0⟩, c)
  | some stats =>
    let duration := UInt32.ofInt (milliseconds c.startTime now)
    let total := if c.finishedTime ≠ 0 then c.finishedTime else duration
    (⟨stats - c.lastStats, stats, total - c.lastStatsTime, total⟩,
      { c with lastStatsTime := duration, lastStats := stats })

/-- `m_startTime = ..` of the client's thread, at the time `start`. -/
def StatsClient.start (start : Nat) (c : StatsClient) : StatsClient :=
  { c with startTime := start }

/-- `m_finishedTime = ..` of the client's thread, at the time `stop`. -/
def StatsClient.finish (stop : Nat) (c : StatsClient) : StatsClient :=
  { c with finishedTime := UInt32.ofInt (milliseconds c.startTime stop) }

/-! ## Runs -/

/-- A client that is asked for its statistics. -/
structure Polling where
  client : StatsClient
  /-- The time of the last call. -/
  clock : Nat
  /-- `m_startTime` is stored. -/
  started : Bool
  /-- `m_finishedTime` is stored. -/
  finished : Bool
  /-- What a call under way has read : `m_startTime`, and the clock. -/
  read : Option (Nat × Nat)
  /-- The last call found a stored time. -/
  seen : Bool
  reports : List StatsReport
  deriving DecidableEq, Repr

/-- What the client's thread or the main loop does next. -/
inductive PollingEvent where
  /-- The client's thread stores that it starts its rounds at `start`. -/
  | start (start : Nat)
  /-- The client's thread has counted on. -/
  | count (stats : Stats)
  /-- The client's thread stores the time that it ran, up to `stop`. -/
  | finish (stop : Nat)
  /-- `statistics` reads `m_startTime`, and the time `now` from the clock. -/
  | read (now : Nat)
  /-- `statistics` does the rest. -/
  | call
  deriving DecidableEq, Repr

namespace Polling

/-- `statistics` after it has read `start` and `now`. -/
def report (start now : Nat) (p : Polling) : Polling :=
  let (report, client) := (p.client.start start).statistics now {} {}
  { p with client := client.start p.client.startTime, read := none,
           seen := p.client.finishedTime ≠ 0, reports := p.reports ++ [report] }

/-- A thread starts its rounds at most once and finishes once, not before it started. The clock of
a call is not behind that of the call before it. -/
def step (p : Polling) : PollingEvent → Option Polling
  | .start start =>
    if p.started = false ∧ p.finished = false then
      some { p with client := p.client.start start, started := true }
    else none
  | .count stats => some { p with client := { p.client with requestor := some stats } }
  | .finish stop =>
    if p.finished = false ∧ p.client.startTime ≤ stop then
      some { p with client := p.client.finish stop, finished := true }
    else none
  | .read now =>
    if p.read = none ∧ p.clock ≤ now then
      some { p with read := some (p.client.startTime, now), clock := now }
    else none
  | .call => p.read.map fun (start, now) => p.report start now

/-- A client whose thread has just made its requestor. -/
def init (stats : Stats) : Polling where
  client := { requestor := some stats }
  clock := 0
  started := false
  finished := false
  read := none
  seen := false
  reports := []

/-- The total time that was reported last. -/
def total (p : Polling) : UInt32 :=
  (p.reports.getLast?.map StatsReport.duration).getD 0

/-- The summary that was reported last. -/
def summary (p : Polling) : Stats :=
  (p.reports.getLast?.map StatsReport.summary).getD {}

/-- The reports add up. -/
structure Adds (p : Polling) : Prop where
  stats : p.reports.foldl (fun sum r => sum + r.delta) {} = p.summary
  time : (p.reports.map fun r => r.deltaTime.toNat).sum = p.total.toNat
  noWrap : ∀ r ∈ p.reports, r.deltaTime ≤ r.duration

/-- A call finds as much time as is remembered : stored, or since the start. If the call before
it found a stored time too, it is the one that is remembered. -/
def Fine (p : Polling) : PollingEvent → Prop
  | .call => ∀ r ∈ p.read,
    if p.client.finishedTime = 0 then
      p.client.lastStatsTime.toNat ≤ milliseconds r.1 r.2 % 2 ^ 32
    else
      p.client.lastStatsTime ≤ p.client.finishedTime ∧
        (p.seen = true → p.client.lastStatsTime = p.client.finishedTime)
  | _ => True

/-- What holds in every run. -/
structure Consistent (p : Polling) : Prop where
  requestor : p.client.requestor.isSome
  lastStats : p.client.lastStats = p.summary
  unfinished : p.finished = false → p.client.finishedTime = 0 ∧ p.seen = false
  seen : p.seen = true → p.client.finishedTime ≠ 0
  total : p.total = if p.seen then p.client.finishedTime else p.client.lastStatsTime

variable {p p' : Polling} {a : PollingEvent}

/-- What a step can do. -/
theorem step_cases (h : step p a = some p') :
    (∃ start, a = .start start ∧ p.finished = false ∧
      p' = { p with client := p.client.start start, started := true }) ∨
    (∃ stats, a = .count stats ∧
      p' = { p with client := { p.client with requestor := some stats } }) ∨
    (∃ stop, a = .finish stop ∧ p.finished = false ∧
      p' = { p with client := p.client.finish stop, finished := true }) ∨
    (∃ now, a = .read now ∧
      p' = { p with read := some (p.client.startTime, now), clock := now }) ∨
    ∃ start now, a = .call ∧ p.read = some (start, now) ∧ p' = p.report start now := by
  cases a with
  | start start =>
    rw [step] at h
    split_ifs at h with hstart
    exact .inl ⟨start, rfl, hstart.2, (Option.some.inj h).symm⟩
  | count stats => exact .inr (.inl ⟨stats, rfl, (Option.some.inj h).symm⟩)
  | finish stop =>
    rw [step] at h
    split_ifs at h with hstop
    exact .inr (.inr (.inl ⟨stop, rfl, hstop.1, (Option.some.inj h).symm⟩))
  | read now =>
    rw [step] at h
    split_ifs at h
    exact .inr (.inr (.inr (.inl ⟨now, rfl, (Option.some.inj h).symm⟩)))
  | call =>
    obtain ⟨⟨start, now⟩, hread, rfl⟩ := Option.map_eq_some_iff.mp h
    exact .inr (.inr (.inr (.inr ⟨start, now, rfl, hread, rfl⟩)))

/-- The total time that a call gives which has read `start` and `now`. -/
def totalAt (p : Polling) (start now : Nat) : UInt32 :=
  if p.client.finishedTime ≠ 0 then p.client.finishedTime
  else UInt32.ofInt (milliseconds start now)

theorem report_of_some {stats : Stats} (h : p.client.requestor = some stats) (start now : Nat) :
    p.report start now = { p with
      client := { p.client with
        lastStatsTime := UInt32.ofInt (milliseconds start now), lastStats := stats }
      read := none
      seen := p.client.finishedTime ≠ 0
      reports := p.reports ++ [⟨stats - p.client.lastStats, stats,
        p.totalAt start now - p.client.lastStatsTime, p.totalAt start now⟩] } := by
  obtain ⟨⟨requestor, _, _, _, _⟩, _, _, _, _, _, _⟩ := p
  obtain rfl : requestor = some stats := h
  rfl

theorem consistent_init (stats : Stats) : Consistent (init stats) where
  requestor := rfl
  lastStats := rfl
  unfinished _ := ⟨rfl, rfl⟩
  seen := nofun
  total := rfl

theorem consistent_step (h : step p a = some p') (hp : Consistent p) : Consistent p' := by
  obtain ⟨start, -, hfinished, rfl⟩ | ⟨stats, -, rfl⟩ | ⟨stop, -, hfinished, rfl⟩ |
    ⟨now, -, rfl⟩ | ⟨start, now, -, -, rfl⟩ := step_cases h
  · exact ⟨hp.requestor, hp.lastStats, hp.unfinished, hp.seen, hp.total⟩
  · exact ⟨rfl, hp.lastStats, hp.unfinished, hp.seen, hp.total⟩
  · obtain ⟨hzero, hseen⟩ := hp.unfinished hfinished
    refine ⟨hp.requestor, hp.lastStats, nofun, fun h => ?_, ?_⟩
    · exact absurd hzero (hp.seen h)
    · have htotal := hp.total
      rw [hseen] at htotal
      rw [hseen]
      exact htotal
  · exact ⟨hp.requestor, hp.lastStats, hp.unfinished, hp.seen, hp.total⟩
  · obtain ⟨stats, hstats⟩ := Option.isSome_iff_exists.mp hp.requestor
    rw [report_of_some hstats]
    refine ⟨hp.requestor, by simp [summary], fun hfinished => ?_, of_decide_eq_true, ?_⟩
    · obtain ⟨hzero, -⟩ := hp.unfinished hfinished
      exact ⟨hzero, by simp [hzero]⟩
    · by_cases hzero : p.client.finishedTime = 0 <;> simp [total, totalAt, hzero]

theorem sub_le_iff (a b : UInt32) : a - b ≤ a ↔ b ≤ a := by
  have ha := a.toNat_lt
  have hb := b.toNat_lt
  rw [UInt32.le_iff_toNat_le, UInt32.le_iff_toNat_le, UInt32.toNat_sub]
  omega

theorem le_ofInt_iff (a : UInt32) (x : Int) :
    a ≤ UInt32.ofInt x ↔ (a.toNat : Int) ≤ x % 2 ^ 32 := by
  have hx : (UInt32.ofInt x).toNat = (x % 2 ^ 32).toNat := by
    have hlt : (x % 2 ^ 32).toNat < 4294967296 := by omega
    exact UInt32.toNat_ofNat_of_lt' hlt
  rw [UInt32.le_iff_toNat_le, hx]
  omega

/-- A call is fine if it goes on where the times so far end, and does not wrap. -/
theorem fine_iff {start now : Nat} (hread : p.read = some (start, now)) (hp : Consistent p) :
    Fine p .call ↔
      p.client.lastStatsTime ≤ p.totalAt start now ∧ p.total = p.client.lastStatsTime := by
  have htotal := hp.total
  simp only [Fine, hread, Option.mem_some_iff, forall_eq']
  rw [totalAt]
  by_cases hzero : p.client.finishedTime = 0
  · have hseen : p.seen = false := by
      simpa using fun h => hp.seen h hzero
    rw [if_pos hzero, if_neg (not_not.mpr hzero), le_ofInt_iff]
    rw [hseen] at htotal
    exact (and_iff_left htotal).symm
  · rw [if_neg hzero, if_pos hzero]
    refine and_congr_right fun _ => ?_
    cases hseen : p.seen with
    | false =>
      rw [hseen] at htotal
      exact iff_of_true nofun htotal
    | true =>
      rw [hseen] at htotal
      rw [htotal, if_pos rfl]
      exact ⟨fun h => (h rfl).symm, fun h _ => h.symm⟩

/-- The reports go on adding up exactly if the call is fine. -/
theorem adds_step (h : step p a = some p') (hp : Consistent p) (hadds : Adds p) :
    Adds p' ↔ Fine p a := by
  obtain ⟨start, rfl, -, rfl⟩ | ⟨stats, rfl, rfl⟩ | ⟨stop, rfl, -, rfl⟩ | ⟨now, rfl, rfl⟩ |
    ⟨start, now, rfl, hread, rfl⟩ := step_cases h
  · exact iff_of_true ⟨hadds.stats, hadds.time, hadds.noWrap⟩ trivial
  · exact iff_of_true ⟨hadds.stats, hadds.time, hadds.noWrap⟩ trivial
  · exact iff_of_true ⟨hadds.stats, hadds.time, hadds.noWrap⟩ trivial
  · exact iff_of_true ⟨hadds.stats, hadds.time, hadds.noWrap⟩ trivial
  · obtain ⟨stats, hstats⟩ := Option.isSome_iff_exists.mp hp.requestor
    rw [report_of_some hstats, fine_iff hread hp]
    have hsum : ∀ r : StatsReport, ((p.reports ++ [r]).map fun r => r.deltaTime.toNat).sum =
        p.total.toNat + r.deltaTime.toNat := fun r => by
      rw [List.map_append, List.sum_append, hadds.time, List.map_singleton, List.sum_singleton]
    constructor
    · intro h
      have hlast := h.noWrap _ (List.mem_append_right _ (List.mem_singleton.mpr rfl))
      have hle := (sub_le_iff _ _).mp hlast
      refine ⟨hle, UInt32.toNat_inj.mp ?_⟩
      have htime := h.time
      rw [hsum] at htime
      have hsub := UInt32.toNat_sub_of_le _ _ hle
      have hle' := UInt32.le_iff_toNat_le.mp hle
      simp only [total, List.getLast?_concat, Option.map_some, Option.getD_some] at htime
      rw [total]
      omega
    · rintro ⟨hle, htotal⟩
      refine ⟨?_, ?_, fun r hr => ?_⟩
      · rw [List.foldl_append, hadds.stats, ← hp.lastStats]
        simp [summary, Stats.add_sub]
      · rw [hsum, htotal]
        have hsub := UInt32.toNat_sub_of_le _ _ hle
        have hle' := UInt32.le_iff_toNat_le.mp hle
        simp only [total, List.getLast?_concat, Option.map_some, Option.getD_some]
        omega
      · rcases List.mem_append.mp hr with hr | hr
        · exact hadds.noWrap r hr
        · rw [List.mem_singleton.mp hr]
          exact (sub_le_iff _ _).mpr hle

/-- The reports of every run add up as long as each call is fine. -/
theorem adds_iff (stats : Stats) (events : List PollingEvent) :
    (∀ pre p, pre <+: events → pre.foldlM step (init stats) = some p → Adds p) ↔
      ∀ pre a p p', pre ++ [a] <+: events → pre.foldlM step (init stats) = some p →
        step p a = some p' → Fine p a := by
  have hconsistent : ∀ (pre : List PollingEvent) (p : Polling),
      pre.foldlM step (init stats) = some p → Consistent p := fun pre p hrun =>
    Interleaving.foldlM_invariant (fun _ _ _ => consistent_step) pre hrun (consistent_init stats)
  have hinit : Adds (init stats) := ⟨rfl, rfl, by simp [init]⟩
  have hgood : ∀ p a p', step p a = some p' → Consistent p ∧ Adds p →
      (Consistent p' ∧ Adds p' ↔ Fine p a) := fun p a p' hstep hp => by
    rw [and_iff_right (consistent_step hstep hp.1)]
    exact adds_step hstep hp.1 hp.2
  rw [← Interleaving.foldlM_prefix_iff hgood events ⟨consistent_init stats, hinit⟩]
  exact ⟨fun h pre p hpre hrun => ⟨hconsistent pre p hrun, h pre p hpre hrun⟩,
    fun h pre p hpre hrun => (h pre p hpre hrun).2⟩

/-- The time stored is 4 milliseconds, a call at 6 passes it and the one at 9 wraps. -/
theorem not_adds : ¬∀ stats events p, List.foldlM step (init stats) events = some p → Adds p := by
  intro h
  let events : List PollingEvent :=
    [.start 1000000, .finish 5000000, .read 7000000, .call, .read 10000000, .call]
  have hrun : (events.foldlM step (init {})).map reports =
      some [⟨{}, {}, 4, 4⟩, ⟨{}, {}, 4 - 6, 4⟩] := by
    decide +kernel
  obtain ⟨p, hp, hreports⟩ := Option.map_eq_some_iff.mp hrun
  have hlast := (h {} events p hp).noWrap ⟨{}, {}, 4 - 6, 4⟩ (by simp [hreports])
  exact absurd hlast (by decide)

/-- A call that reads one second after the epoch, before the start, and the next one 20 milliseconds
after the start. -/
example : ((List.foldlM step (init {}) [.read 1000000000, .start 1010000000, .call,
    .read 1030000000, .call]).map reports) =
    some [⟨{}, {}, 1000, 1000⟩, ⟨{}, {}, 20 - 1000, 20⟩] := by
  decide +kernel

end Polling

end NetBabbler
