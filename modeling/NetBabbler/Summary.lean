import NetBabbler.Limit
import NetBabbler.Statistics

/-!
# The final summary

The end of `cApplication::execute` : the statistics of each client, and for more than one
client those of all, over the mean of their durations. The durations are summed up in an
`unsigned`, and `printStatistics` multiplies the octets by 8000 before it divides.

`exactSummary_iff` : the summary is exact as long as these sums and products fit.
-/

namespace NetBabbler

/-! ## Printing -/

/-- The numbers that `printStatistics` prints. -/
structure StatsLine where
  requests : Int64
  sentOctets : Int64
  sentRate : Int64
  replies : Int64
  receivedOctets : Int64
  receivedRate : Int64

namespace Application

/-- In bit/s, from a duration in ms. -/
def rate (octets : Int64) (duration : UInt32) : Int64 :=
  octets * 8 * 1000 / toFast duration

/-- `printStatistics`, with the numbers that it prints. -/
def printStatistics (stats : Stats) (duration : UInt32) : StatsLine :=
  -- avoid division by zero
  let duration := if duration = 0 then 1 else duration
  { requests := stats.sentPackets
    sentOctets := stats.sentOctets
    sentRate := rate stats.sentOctets duration
    replies := stats.receivedPackets
    receivedOctets := stats.receivedOctets
    receivedRate := rate stats.receivedOctets duration }

/-! ## Summing up -/

/-- What the loop over the clients sums up. -/
structure Sums where
  summaryAll : Stats := {}
  durationAll : UInt32 := 0

/-- One client more. -/
def Sums.add (sums : Sums) (r : StatsReport) : Sums where
  summaryAll := sums.summaryAll + r.summary
  durationAll := sums.durationAll + r.duration

/-- `durationAll / clients.size()`, which is passed on as an `unsigned`. -/
def Sums.mean (sums : Sums) (size : Nat) : UInt32 :=
  UInt32.ofNat (sums.durationAll.toNat / size)

/-- The calls of `statistics`, each at its time. -/
def reports (clients : List (Nat × StatsClient)) : List StatsReport :=
  clients.map fun cl => (cl.2.statistics cl.1 {} {}).1

/-- The sums over all clients. -/
def sumUp (reports : List StatsReport) : Sums :=
  reports.foldl Sums.add {}

/-- The lines of the clients, and the one of all. -/
def finalSummary (clients : List (Nat × StatsClient)) : List StatsLine × Option StatsLine :=
  let sums := sumUp (reports clients)
  ((reports clients).map fun r => printStatistics r.summary r.duration,
    if clients.length > 1 then
      some (printStatistics sums.summaryAll (sums.mean clients.length))
    else none)

/-! ## Exactness -/

/-- All counters. -/
def counters : List (Stats → Int64) :=
  [Stats.sentPackets, Stats.sentOctets, Stats.receivedPackets, Stats.receivedOctets,
    Stats.errors, Stats.timeouts]

/-- The counters that rates are made from. -/
def octetCounters : List (Stats → Int64) :=
  [Stats.sentOctets, Stats.receivedOctets]

/-- The sum of the durations in ms. -/
def durations (rs : List StatsReport) : Nat :=
  (rs.map fun r => r.duration.toNat).sum

/-- The sum of a counter, without wrapping. -/
def total (counter : Stats → Int64) (rs : List StatsReport) : Int :=
  (rs.map fun r => (counter r.summary).toInt).sum

/-- The sums are the sums of the numbers. -/
structure Exactly (rs : List StatsReport) : Prop where
  duration : (sumUp rs).durationAll.toNat = durations rs
  counter : ∀ counter ∈ counters, (counter (sumUp rs).summaryAll).toInt = total counter rs

/-- The products in `rate` do not overflow. -/
def ProductFits (octets : Int64) : Prop :=
  (octets * 8).toInt = octets.toInt * 8 ∧ (octets * 8 * 1000).toInt = octets.toInt * 8 * 1000

/-- The final summary is exact, and so is all that is computed on the way. -/
structure ExactSummary (clients : List (Nat × StatsClient)) : Prop where
  sums : ∀ pre, pre <+: reports clients → Exactly pre
  products : ∀ counter ∈ octetCounters,
    (∀ r ∈ reports clients, ProductFits (counter r.summary)) ∧
      ProductFits (counter (sumUp (reports clients)).summaryAll)
  mean : ((sumUp (reports clients)).mean clients.length).toNat =
    durations (reports clients) / clients.length
  least : ∃ r ∈ reports clients, r.duration ≤ (sumUp (reports clients)).mean clients.length
  most : ∃ r ∈ reports clients, (sumUp (reports clients)).mean clients.length ≤ r.duration
  rates : ∃ line, (finalSummary clients).2 = some line ∧
    line.sentRate.toInt = 8000 * total Stats.sentOctets (reports clients) /
      max 1 ((sumUp (reports clients)).mean clients.length).toNat ∧
    line.receivedRate.toInt = 8000 * total Stats.receivedOctets (reports clients) /
      max 1 ((sumUp (reports clients)).mean clients.length).toNat

/-- The sums fit, those of octets also with the factor 8000. -/
structure SumsFit (rs : List StatsReport) : Prop where
  duration : durations rs < 2 ^ 32
  counter : ∀ counter ∈ counters, total counter rs < 2 ^ 63
  octets : ∀ counter ∈ octetCounters, 8000 * total counter rs < 2 ^ 63

/-! ## Sums -/

section Sums

variable {σ α : Type}

/-- Sums that do not reach the bound are exact. -/
theorem value_foldl (add : σ → α → σ) (value : σ → Int) (amount : α → Int) (bound : Int)
    (hadd : ∀ s a, 0 ≤ value s → 0 ≤ amount a → value s + amount a < bound →
      value (add s a) = value s + amount a) {s : σ} (hzero : value s = 0) (as : List α)
    (hnonneg : ∀ a ∈ as, 0 ≤ amount a) (hlt : (as.map amount).sum < bound) :
    value (as.foldl add s) = (as.map amount).sum := by
  induction as using List.reverseRecOn with
  | nil => exact hzero
  | append_singleton as a ih =>
    have hrest : ∀ a ∈ as, 0 ≤ amount a := fun b hb => hnonneg b (List.mem_append_left _ hb)
    have ha : 0 ≤ amount a := hnonneg a (by simp)
    have hpos : 0 ≤ (as.map amount).sum := List.sum_nonneg (by simpa using hrest)
    simp only [List.map_append, List.map_cons, List.map_nil, List.sum_append, List.sum_singleton]
      at hlt ⊢
    have heq := ih hrest (by omega)
    rw [List.foldl_append, List.foldl_cons, List.foldl_nil,
      hadd _ _ (heq ▸ hpos) ha (heq ▸ hlt), heq]

theorem sum_prefix_le {amount : α → Int} {pre as : List α} (hpre : pre <+: as)
    (hnonneg : ∀ a ∈ as, 0 ≤ amount a) :
    (pre.map amount).sum ≤ (as.map amount).sum := by
  obtain ⟨post, rfl⟩ := hpre
  have hpost : 0 ≤ (post.map amount).sum :=
    List.sum_nonneg (by simpa using fun a ha => hnonneg a (List.mem_append_right _ ha))
  rw [List.map_append, List.sum_append]
  omega

end Sums

variable {rs : List StatsReport} {clients : List (Nat × StatsClient)}

/-- The counters count. -/
def Counts (rs : List StatsReport) : Prop :=
  ∀ r ∈ rs, ∀ counter ∈ counters, 0 ≤ (counter r.summary).toInt

theorem counter_add {counter : Stats → Int64} (hcounter : counter ∈ counters) (a b : Stats) :
    counter (a + b) = counter a + counter b := by
  simp only [counters, List.mem_cons, List.not_mem_nil, or_false] at hcounter
  rcases hcounter with rfl | rfl | rfl | rfl | rfl | rfl <;> rfl

theorem counter_zero {counter : Stats → Int64} (hcounter : counter ∈ counters) :
    counter {} = 0 := by
  simp only [counters, List.mem_cons, List.not_mem_nil, or_false] at hcounter
  rcases hcounter with rfl | rfl | rfl | rfl | rfl | rfl <;> rfl

theorem natCast_durations (rs : List StatsReport) :
    (durations rs : Int) = (rs.map fun r => (r.duration.toNat : Int)).sum := by
  rw [durations, Nat.cast_list_sum, List.map_map]
  rfl

/-- Sums that fit are exact. -/
theorem exactly_of_fit (hcounts : Counts rs) (hduration : durations rs < 2 ^ 32)
    (hcounter : ∀ counter ∈ counters, total counter rs < 2 ^ 63) : Exactly rs := by
  refine ⟨?_, fun counter hmem => ?_⟩
  · have hsum := value_foldl Sums.add (fun s => (s.durationAll.toNat : Int))
      (fun r => (r.duration.toNat : Int)) (2 ^ 32) ?_ (s := {}) rfl rs
      (fun _ _ => Int.natCast_nonneg _) (by rw [← natCast_durations]; exact_mod_cast hduration)
    · rw [← natCast_durations] at hsum
      exact_mod_cast hsum
    · intro s r _ _ hlt
      have hmod := Nat.mod_eq_of_lt (a := s.durationAll.toNat + r.duration.toNat)
        (b := 2 ^ 32) (by omega)
      simp only [Sums.add, UInt32.toNat_add, hmod, Nat.cast_add]
  · refine value_foldl Sums.add (fun s => (counter s.summaryAll).toInt) _ (2 ^ 63) ?_ ?_ rs
      (fun r hr => hcounts r hr counter hmem) (hcounter counter hmem)
    · intro s r hs hr hlt
      simp only [Sums.add, counter_add hmem]
      exact toInt_add_of_lt hs hr hlt
    · rw [counter_zero hmem]
      rfl

theorem Counts.of_prefix {pre : List StatsReport} (hcounts : Counts rs) (hpre : pre <+: rs) :
    Counts pre :=
  fun r hr => hcounts r (hpre.subset hr)

theorem total_prefix_le {pre : List StatsReport} (hcounts : Counts rs) (hpre : pre <+: rs)
    {counter : Stats → Int64} (hmem : counter ∈ counters) : total counter pre ≤ total counter rs :=
  sum_prefix_le hpre fun r hr => hcounts r hr counter hmem

theorem durations_prefix_le {pre : List StatsReport} (hpre : pre <+: rs) :
    durations pre ≤ durations rs := by
  have hle : (pre.map fun r => (r.duration.toNat : Int)).sum ≤
      (rs.map fun r => (r.duration.toNat : Int)).sum :=
    sum_prefix_le hpre fun _ _ => Int.natCast_nonneg _
  rw [← natCast_durations, ← natCast_durations] at hle
  exact_mod_cast hle

theorem exactly_prefix_iff (hcounts : Counts rs) : (∀ pre, pre <+: rs → Exactly pre) ↔
    durations rs < 2 ^ 32 ∧ ∀ counter ∈ counters, total counter rs < 2 ^ 63 := by
  constructor
  · intro h
    obtain ⟨hduration, hcounter⟩ := h rs List.prefix_rfl
    refine ⟨hduration ▸ UInt32.toNat_lt _, fun counter hmem => ?_⟩
    exact hcounter counter hmem ▸ Int64.toInt_lt _
  · rintro ⟨hduration, hcounter⟩ pre hpre
    refine exactly_of_fit (hcounts.of_prefix hpre) ?_ fun counter hmem => ?_
    · exact (durations_prefix_le hpre).trans_lt hduration
    · exact (total_prefix_le hcounts hpre hmem).trans_lt (hcounter counter hmem)

/-! ## Rates -/

theorem productFits_iff {octets : Int64} (hpos : 0 ≤ octets.toInt) :
    ProductFits octets ↔ 8000 * octets.toInt < 2 ^ 63 := by
  have h8 : (8 : Int64).toInt = 8 := rfl
  have h1000 : (1000 : Int64).toInt = 1000 := rfl
  constructor
  · rintro ⟨-, hproduct⟩
    have hlt := Int64.toInt_lt (octets * 8 * 1000)
    omega
  · intro hlt
    have hfirst : (octets * 8).toInt = octets.toInt * 8 := by
      rw [Int64.toInt_mul, h8, Int.bmod_eq_of_le (by omega) (by omega)]
    refine ⟨hfirst, ?_⟩
    rw [Int64.toInt_mul, hfirst, h1000, Int.bmod_eq_of_le (by omega) (by omega)]

theorem toInt_rate {octets : Int64} {duration : UInt32} (hpos : 0 ≤ octets.toInt)
    (hfits : ProductFits octets) :
    (rate octets duration).toInt = 8000 * octets.toInt / duration.toNat := by
  have hne : toFast duration ≠ -1 := by
    intro h
    have heq := congrArg Int64.toInt h
    rw [toInt_toFast] at heq
    have : (-1 : Int64).toInt = -1 := rfl
    omega
  rw [rate, Int64.toInt_div_of_ne_right _ _ hne, hfits.2, toInt_toFast,
    Int.tdiv_eq_ediv_of_nonneg (by omega)]
  congr 1
  omega

theorem toNat_ite_one (duration : UInt32) :
    (if duration = 0 then 1 else duration).toNat = max 1 duration.toNat := by
  split_ifs with hzero
  · rw [hzero]
    rfl
  · have hne : duration.toNat ≠ 0 := fun h => hzero (UInt32.toNat_inj.mp h)
    omega

/-! ## The mean -/

theorem toNat_mean (sums : Sums) (size : Nat) :
    (sums.mean size).toNat = sums.durationAll.toNat / size := by
  rw [Sums.mean]
  exact UInt32.toNat_ofNat_of_lt ((Nat.div_le_self _ _).trans_lt (UInt32.toNat_lt _))

theorem exists_le_mean (hne : rs ≠ []) :
    ∃ r ∈ rs, r.duration.toNat ≤ durations rs / rs.length := by
  have hpos : 0 < rs.length := List.length_pos_iff.mpr hne
  have hlt : durations rs < (durations rs / rs.length + 1) * rs.length :=
    Nat.lt_mul_of_div_lt (Nat.lt_succ_self _) hpos
  obtain ⟨r, hr, hle⟩ := List.exists_lt_of_sum_lt (l := rs) (fun r => r.duration.toNat)
    (fun _ => durations rs / rs.length + 1) (by
      rw [List.map_const', List.sum_replicate, smul_eq_mul, Nat.mul_comm]
      exact hlt)
  exact ⟨r, hr, Nat.lt_succ_iff.mp hle⟩

theorem exists_mean_le (hne : rs ≠ []) :
    ∃ r ∈ rs, durations rs / rs.length ≤ r.duration.toNat := by
  refine List.exists_le_of_sum_le hne (fun _ => durations rs / rs.length) _ ?_
  rw [List.map_const', List.sum_replicate, smul_eq_mul]
  exact Nat.mul_div_le _ _

/-! ## The summary -/

theorem mem_counters {counter : Stats → Int64} (hmem : counter ∈ octetCounters) :
    counter ∈ counters := by
  simp only [octetCounters, counters, List.mem_cons, List.not_mem_nil, or_false] at hmem ⊢
  rcases hmem with rfl | rfl <;> simp

/-- No client counted more than all. -/
theorem counter_le_total (hcounts : Counts rs) {counter : Stats → Int64} (hmem : counter ∈ counters)
    {r : StatsReport} (hr : r ∈ rs) : (counter r.summary).toInt ≤ total counter rs := by
  refine List.single_le_sum ?_ _ (List.mem_map.mpr ⟨r, hr, rfl⟩)
  intro x hx
  obtain ⟨r', hr', rfl⟩ := List.mem_map.mp hx
  exact hcounts r' hr' counter hmem

theorem total_nonneg (hcounts : Counts rs) {counter : Stats → Int64} (hmem : counter ∈ counters) :
    0 ≤ total counter rs := by
  refine List.sum_nonneg fun x hx => ?_
  obtain ⟨r, hr, rfl⟩ := List.mem_map.mp hx
  exact hcounts r hr counter hmem

theorem productFits_sumUp_iff (hcounts : Counts rs) (hexactly : Exactly rs)
    {counter : Stats → Int64} (hmem : counter ∈ octetCounters) :
    ProductFits (counter (sumUp rs).summaryAll) ↔ 8000 * total counter rs < 2 ^ 63 := by
  have heq := hexactly.counter counter (mem_counters hmem)
  rw [productFits_iff (heq ▸ total_nonneg hcounts (mem_counters hmem)), heq]

theorem toInt_rate_sumUp (hcounts : Counts rs) (hexactly : Exactly rs) {counter : Stats → Int64}
    (hmem : counter ∈ octetCounters) (hfits : ProductFits (counter (sumUp rs).summaryAll))
    (duration : UInt32) :
    (rate (counter (sumUp rs).summaryAll) (if duration = 0 then 1 else duration)).toInt =
      8000 * total counter rs / (max 1 duration.toNat : Nat) := by
  have heq := hexactly.counter counter (mem_counters hmem)
  have hpos : 0 ≤ (counter (sumUp rs).summaryAll).toInt :=
    heq ▸ total_nonneg hcounts (mem_counters hmem)
  rw [toInt_rate hpos hfits, heq, toNat_ite_one]

/-- The summary of two clients or more is exact if the sums fit. -/
theorem exactSummary_iff (hsize : 2 ≤ clients.length) (hcounts : Counts (reports clients)) :
    ExactSummary clients ↔ SumsFit (reports clients) := by
  constructor
  · intro h
    have hexactly := h.sums _ List.prefix_rfl
    obtain ⟨hduration, hcounter⟩ := (exactly_prefix_iff hcounts).mp h.sums
    refine ⟨hduration, hcounter, fun counter hmem => ?_⟩
    exact (productFits_sumUp_iff hcounts hexactly hmem).mp (h.products counter hmem).2
  · intro h
    have hsums := (exactly_prefix_iff hcounts).mpr ⟨h.duration, h.counter⟩
    have hexactly := hsums _ List.prefix_rfl
    have hlength : (reports clients).length = clients.length := List.length_map _
    have hne : reports clients ≠ [] := List.ne_nil_of_length_pos (by omega)
    have hproduct := fun counter hmem =>
      (productFits_sumUp_iff hcounts hexactly hmem).mpr (h.octets counter hmem)
    have hsent : Stats.sentOctets ∈ octetCounters := .head _
    have hreceived : Stats.receivedOctets ∈ octetCounters := .tail _ (.head _)
    have hmean : ((sumUp (reports clients)).mean clients.length).toNat =
        durations (reports clients) / clients.length := by
      rw [toNat_mean, hexactly.duration]
    refine ⟨hsums, fun counter hmem => ⟨fun r hr => ?_, hproduct counter hmem⟩, hmean, ?_, ?_, ?_⟩
    · have hle := counter_le_total hcounts (mem_counters hmem) hr
      have hlt := h.octets counter hmem
      exact (productFits_iff (hcounts r hr counter (mem_counters hmem))).mpr (by omega)
    · obtain ⟨r, hr, hle⟩ := exists_le_mean hne
      refine ⟨r, hr, UInt32.le_iff_toNat_le.mpr ?_⟩
      rwa [hmean, ← hlength]
    · obtain ⟨r, hr, hle⟩ := exists_mean_le hne
      refine ⟨r, hr, UInt32.le_iff_toNat_le.mpr ?_⟩
      rwa [hmean, ← hlength]
    · refine ⟨_, if_pos hsize, ?_, ?_⟩
      · exact toInt_rate_sumUp hcounts hexactly hsent (hproduct _ hsent) _
      · exact toInt_rate_sumUp hcounts hexactly hreceived (hproduct _ hreceived) _

/-- A client that ran for the given time. -/
def ranFor (finishedTime : UInt32) (stats : Stats) : Nat × StatsClient :=
  (0, { requestor := some stats, startTime := 0, finishedTime := finishedTime })

theorem exactSummary_two :
    ExactSummary [ranFor 500 { sentOctets := 100 }, ranFor 1500 { sentOctets := 200 }] := by
  refine (exactSummary_iff (by decide) ?_).mpr ⟨by decide, ?_, ?_⟩
  · exact List.forall_iff_forall_mem.mp (by decide)
  · exact List.forall_iff_forall_mem.mp (by decide)
  · exact List.forall_iff_forall_mem.mp (by decide)

/-- Two clients that ran for 2^31 ms each took no time in the mean. -/
theorem not_exactSummary : ¬∀ clients : List (Nat × StatsClient), 2 ≤ clients.length →
    Counts (reports clients) →
    (∀ counter ∈ octetCounters, total counter (reports clients) < 2 ^ 63) →
    ExactSummary clients := by
  intro h
  have hexact := h [ranFor 2147483648 {}, ranFor 2147483648 {}] (by decide)
    (List.forall_iff_forall_mem.mp (by decide)) (List.forall_iff_forall_mem.mp (by decide))
  exact absurd hexact.mean (by decide)

end Application

end NetBabbler
