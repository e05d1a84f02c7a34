import NetBabbler.Interleaving

/-!
# The run-time limit

The main loop of `cApplication::execute` on the client's side. One alarm serves the status
and the run-time limit : it is armed with the smaller of the status interval and the time
that remains, and each time it expires the remaining time is counted down. Neither option
is checked, and the seconds are cast to `unsigned`.

`enforced_iff` : a limit is enforced in all runs exactly if the status interval is positive.
-/

namespace NetBabbler

/-- What `poll` reports to be readable. -/
structure Readable where
  sigInt : Bool := false
  clientTerminated : Bool := false
  stdin : Bool := false
  sigAlarm : Bool := false
  deriving DecidableEq, Repr

/-- A call of `cClient::terminateAll`. -/
structure TerminateAll where
  /-- The seconds that had elapsed. -/
  elapsed : Nat
  /-- SIGINT was read in the same iteration. -/
  interrupted : Bool
  deriving DecidableEq, Repr

/-- The variables of the main loop, and the alarm of the process. -/
structure MainLoop where
  runningClientThreads : Int32
  remainingTime : Int32
  ticks : Int32
  /-- The seconds that the alarm was armed with. None is pending for 0. -/
  alarm : UInt32
  /-- `BUG_ON` has fired. -/
  aborted : Bool
  /-- The seconds of the alarms that have expired. -/
  elapsed : Nat
  terminations : List TerminateAll
  /-- How often the status was printed. -/
  statusUpdates : Nat
  deriving DecidableEq, Repr

namespace MainLoop

/-- `std::min`. -/
def min (a b : Int32) : Int32 :=
  if b < a then b else a

/-- What comes before the loop. -/
def init (time statusUpdateTime clients : Int32) : MainLoop :=
  let ticks := if time ≠ 0 then min time statusUpdateTime else statusUpdateTime
  { runningClientThreads := clients
    remainingTime := time
    ticks := ticks
    alarm := ticks.toUInt32
    aborted := false
    elapsed := 0
    terminations := []
    statusUpdates := 0 }

/-- `if (pollfds[3].revents & POLLIN)`, up to `BUG_ON` where that fires. -/
def expire (time statusUpdateTime : Int32) (l : MainLoop) : MainLoop :=
  let elapsed := l.elapsed + l.alarm.toNat
  if time ≠ 0 then
    let remainingTime := l.remainingTime - l.ticks
    if remainingTime < 0 then
      { l with remainingTime := remainingTime, elapsed := elapsed, aborted := true }
    else
      let ticks := min remainingTime statusUpdateTime
      { l with remainingTime := remainingTime, ticks := ticks, alarm := ticks.toUInt32,
               elapsed := elapsed }
  else { l with alarm := l.ticks.toUInt32, elapsed := elapsed }

/-- The rest of an iteration. -/
def serve (r : Readable) (terminate printStatus : Bool) (l : MainLoop) : MainLoop :=
  { l with
    runningClientThreads :=
      if r.clientTerminated then l.runningClientThreads - 1 else l.runningClientThreads
    terminations :=
      if terminate || r.sigInt then l.terminations ++ [⟨l.elapsed, r.sigInt⟩] else l.terminations
    statusUpdates := if printStatus then l.statusUpdates + 1 else l.statusUpdates }

/-- An iteration. `poll` returns with something readable, SIGALRM only if an alarm is pending. -/
def step (time statusUpdateTime : Int32) (l : MainLoop) (r : Readable) : Option MainLoop :=
  if l.aborted ∨ l.runningClientThreads ≤ 0 ∨ r = {} ∨ r.sigAlarm ∧ l.alarm = 0 then none
  else if r.sigAlarm then
    let l' := l.expire time statusUpdateTime
    if l'.aborted then some l'
    else some (l'.serve r (time ≠ 0 ∧ l'.remainingTime ≤ 0) (l.ticks = statusUpdateTime))
  else some (l.serve r false false)

/-! ## The limit -/

/-- The limit `time` is enforced. -/
structure Enforced (time : Int32) (l : MainLoop) : Prop where
  remaining : l.remainingTime.toInt = time.toInt - l.elapsed
  nonneg : 0 ≤ l.remainingTime
  noBug : l.aborted = false
  /-- An alarm is pending that does not expire too late. -/
  armed : 0 < l.remainingTime → 0 < l.alarm ∧ l.alarm.toNat ≤ l.remainingTime.toInt
  /-- The clients are terminated when the time is over .. -/
  terminated : l.elapsed = time.toInt → ∃ t ∈ l.terminations, t.elapsed = time.toInt
  /-- .. and by nothing else than SIGINT before. -/
  timely : ∀ t ∈ l.terminations, t.interrupted = false → t.elapsed = time.toInt

/-- What each iteration keeps, for a limit and a positive status interval. -/
structure Counted (time statusUpdateTime : Int32) (l : MainLoop) : Prop where
  remaining : l.remainingTime.toInt = time.toInt - l.elapsed
  nonneg : 0 ≤ l.remainingTime
  noBug : l.aborted = false
  ticks : l.ticks = min l.remainingTime statusUpdateTime
  alarm : l.alarm = l.ticks.toUInt32

variable {time statusUpdateTime : Int32} {l l' : MainLoop} {r : Readable}

theorem min_spec {a b : Int32} (ha : 0 ≤ a) (hb : 0 < b) :
    0 ≤ min a b ∧ min a b ≤ a ∧ (0 < a → 0 < min a b) := by
  rw [min]
  split_ifs with h
  · exact ⟨Int32.le_of_lt hb, Int32.le_of_lt h, fun _ => hb⟩
  · exact ⟨ha, Int32.le_refl a, id⟩

theorem toNat_toUInt32 {a : Int32} (ha : 0 ≤ a) : (a.toUInt32.toNat : Int) = a.toInt := by
  have hle : 0 ≤ a.toInt := Int32.le_iff_toInt_le.mp ha
  rw [Int32.toNat_toUInt32_of_le ha]
  exact Int.toNat_of_nonneg hle

/-- The seconds that the alarm is armed with. -/
theorem Counted.toNat_alarm (h : Counted time statusUpdateTime l) (hs : 0 < statusUpdateTime) :
    (l.alarm.toNat : Int) = l.ticks.toInt := by
  rw [h.alarm]
  exact toNat_toUInt32 (h.ticks ▸ (min_spec h.nonneg hs).1)

theorem Counted.armed (h : Counted time statusUpdateTime l) (hs : 0 < statusUpdateTime)
    (hr : 0 < l.remainingTime) : 0 < l.alarm ∧ l.alarm.toNat ≤ l.remainingTime.toInt := by
  obtain ⟨-, hle, hpos⟩ := min_spec h.nonneg hs
  rw [← h.ticks, Int32.le_iff_toInt_le] at hle
  have hticks : 0 < l.ticks.toInt := by
    rw [h.ticks]
    exact Int32.lt_iff_toInt_lt.mp (hpos hr)
  have halarm := h.toNat_alarm hs
  refine ⟨UInt32.lt_iff_toNat_lt.mpr ?_, by omega⟩
  show 0 < l.alarm.toNat
  omega

theorem ne_zero (ht : 0 < time) : time ≠ 0 := by
  rintro rfl
  exact absurd ht (by decide)

theorem counted_init (ht : 0 < time) (clients : Int32) :
    Counted time statusUpdateTime (init time statusUpdateTime clients) where
  remaining := (Int.sub_zero _).symm
  nonneg := Int32.le_of_lt ht
  noBug := rfl
  ticks := if_pos (ne_zero ht)
  alarm := rfl

/-- An alarm that expires counts down what it was armed with. -/
theorem Counted.expire (h : Counted time statusUpdateTime l) (ht : 0 < time)
    (hs : 0 < statusUpdateTime) : Counted time statusUpdateTime (l.expire time statusUpdateTime) := by
  obtain ⟨hpos, hle, -⟩ := min_spec h.nonneg hs
  rw [← h.ticks] at hpos hle
  have hsub := Int32.toInt_sub_of_le _ _ hpos hle
  have hnonneg := Int32.sub_nonneg_of_le hpos hle
  have halarm := h.toNat_alarm hs
  have hremaining := h.remaining
  rw [MainLoop.expire, if_pos (ne_zero ht)]
  dsimp only
  rw [if_neg (Int32.not_lt.mpr hnonneg)]
  refine ⟨?_, hnonneg, h.noBug, rfl, rfl⟩
  dsimp only
  omega

/-- The calls of `terminateAll` that the time asks for. -/
structure Terminated (time : Int32) (l : MainLoop) : Prop where
  terminated : l.elapsed = time.toInt → ∃ t ∈ l.terminations, t.elapsed = time.toInt
  timely : ∀ t ∈ l.terminations, t.interrupted = false → t.elapsed = time.toInt

theorem Terminated.serve {terminate printStatus : Bool}
    (htimely : ∀ t ∈ l.terminations, t.interrupted = false → t.elapsed = time.toInt)
    (hover : l.elapsed = time.toInt →
      terminate = true ∨ ∃ t ∈ l.terminations, t.elapsed = time.toInt)
    (hterminate : terminate = true → l.elapsed = time.toInt) :
    Terminated time (l.serve r terminate printStatus) := by
  rw [MainLoop.serve]
  by_cases hcall : (terminate || r.sigInt) = true
  · rw [if_pos hcall]
    refine ⟨fun helapsed => ⟨⟨l.elapsed, r.sigInt⟩, by simp, helapsed⟩, fun t ht hnot => ?_⟩
    rcases List.mem_append.mp ht with ht | ht
    · exact htimely t ht hnot
    · rw [List.mem_singleton.mp ht] at hnot ⊢
      have hsigInt : r.sigInt = false := hnot
      rw [hsigInt, Bool.or_false] at hcall
      exact hterminate hcall
  · rw [if_neg hcall]
    refine ⟨fun helapsed => (hover helapsed).resolve_left fun h => ?_, htimely⟩
    exact hcall (by rw [h, Bool.true_or])

/-- What an iteration can do. -/
theorem step_cases (h : step time statusUpdateTime l r = some l') :
    (l.alarm ≠ 0 ∧ ((l.expire time statusUpdateTime).aborted = true ∨
      l' = (l.expire time statusUpdateTime).serve r
        (time ≠ 0 ∧ (l.expire time statusUpdateTime).remainingTime ≤ 0)
        (l.ticks = statusUpdateTime))) ∨
    l' = l.serve r false false := by
  rw [step] at h
  split_ifs at h with hnone halarm
  · have hpending : l.alarm ≠ 0 := fun hzero => hnone (.inr (.inr (.inr ⟨halarm, hzero⟩)))
    by_cases haborted : (l.expire time statusUpdateTime).aborted = true
    · exact .inl ⟨hpending, .inl haborted⟩
    · simp only [haborted] at h
      exact .inl ⟨hpending, .inr (Option.some.inj h).symm⟩
  · exact .inr (Option.some.inj h).symm

theorem expire_terminations (time statusUpdateTime : Int32) (l : MainLoop) :
    (l.expire time statusUpdateTime).terminations = l.terminations := by
  rw [expire]
  dsimp only
  split_ifs <;> rfl

/-- What every run keeps, for a limit and a positive status interval. -/
structure Kept (time statusUpdateTime : Int32) (l : MainLoop) : Prop where
  counted : Counted time statusUpdateTime l
  terminated : Terminated time l

theorem Counted.serve {terminate printStatus : Bool} (h : Counted time statusUpdateTime l) :
    Counted time statusUpdateTime (l.serve r terminate printStatus) :=
  ⟨h.remaining, h.nonneg, h.noBug, h.ticks, h.alarm⟩

theorem kept_step (ht : 0 < time) (hs : 0 < statusUpdateTime)
    (h : step time statusUpdateTime l r = some l') (hl : Kept time statusUpdateTime l) :
    Kept time statusUpdateTime l' := by
  have hexpire := hl.counted.expire ht hs
  rcases step_cases h with ⟨halarm, haborted | rfl⟩ | rfl
  · rw [hexpire.noBug] at haborted
    cases haborted
  · have hremaining := hexpire.remaining
    have hnonneg := Int32.le_iff_toInt_le.mp hexpire.nonneg
    refine ⟨hexpire.serve, .serve ?_ (fun helapsed => .inl ?_) fun hterminate => ?_⟩
    · rw [expire_terminations]
      exact hl.terminated.timely
    · have hzero : (l.expire time statusUpdateTime).remainingTime ≤ 0 := by
        rw [Int32.le_iff_toInt_le, Int32.toInt_zero]
        omega
      exact decide_eq_true ⟨ne_zero ht, hzero⟩
    · have hzero := Int32.le_iff_toInt_le.mp (of_decide_eq_true hterminate).2
      rw [Int32.toInt_zero] at hzero hnonneg
      omega
  · refine ⟨hl.counted.serve, .serve hl.terminated.timely (fun helapsed => .inr ?_) nofun⟩
    exact hl.terminated.terminated helapsed

theorem Kept.enforced (hs : 0 < statusUpdateTime) (h : Kept time statusUpdateTime l) :
    Enforced time l :=
  ⟨h.counted.remaining, h.counted.nonneg, h.counted.noBug, h.counted.armed hs,
    h.terminated.terminated, h.terminated.timely⟩

/-- An interval that is not positive arms no alarm, or one for more than 2 ^ 31 seconds. -/
theorem not_armed (hs : statusUpdateTime ≤ 0) (time : Int32) :
    ¬(0 < statusUpdateTime.toUInt32 ∧ (statusUpdateTime.toUInt32.toNat : Int) ≤ time.toInt) := by
  rintro ⟨hpos, hle⟩
  have hnat : 0 < statusUpdateTime.toUInt32.toNat := hpos
  have hint : statusUpdateTime.toInt ≤ 0 := Int32.le_iff_toInt_le.mp hs
  have hlarge := time.toInt_lt
  have hcond : statusUpdateTime.toInt = if 2 * statusUpdateTime.toUInt32.toNat < 2 ^ 32
      then (statusUpdateTime.toUInt32.toNat : Int) else statusUpdateTime.toUInt32.toNat - 2 ^ 32 :=
    BitVec.toInt_eq_toNat_cond _
  split_ifs at hcond
  · omega
  · omega

/-- A limit is enforced in all runs exactly if the status interval is positive. -/
theorem enforced_iff (statusUpdateTime clients : Int32) (ht : 0 < time) :
    (∀ polls l, List.foldlM (step time statusUpdateTime) (init time statusUpdateTime clients) polls =
      some l → Enforced time l) ↔ 0 < statusUpdateTime := by
  constructor
  · intro h
    have harmed := (h [] _ rfl).armed ht
    by_contra hs
    have hle : statusUpdateTime ≤ 0 := Int32.not_lt.mp hs
    have hlt : statusUpdateTime < time := Int32.lt_of_le_of_lt hle ht
    have halarm : (init time statusUpdateTime clients).alarm = statusUpdateTime.toUInt32 := by
      simp only [init, if_pos (ne_zero ht), min, if_pos hlt]
    rw [halarm] at harmed
    exact not_armed hle time harmed
  · intro hs polls l hrun
    refine Kept.enforced hs (Interleaving.foldlM_invariant (fun _ _ _ => kept_step ht hs) polls hrun
      ⟨counted_init ht clients, fun helapsed => ?_, by simp [init]⟩)
    have hpos := Int32.lt_iff_toInt_lt.mp ht
    rw [← helapsed] at hpos
    exact absurd hpos (by simp [init])

/-- After alarms of 3, 3, 3 and 1 seconds the time is over. -/
theorem enforced_ten : Enforced 10 ⟨1, 0, 0, 0, false, 10, [⟨10, false⟩], 3⟩ :=
  (enforced_iff 3 1 (by decide)).mpr (by decide) (List.replicate 4 { sigAlarm := true }) _
    (by decide)

/-- With a status interval of 0 no alarm is armed. -/
theorem not_enforced : ¬∀ time statusUpdateTime clients : Int32, 0 < time → ∀ polls l,
    List.foldlM (step time statusUpdateTime) (init time statusUpdateTime clients) polls = some l →
      Enforced time l := by
  intro h
  have harmed := (h 10 0 1 (by decide) [] _ rfl).armed (by decide)
  exact absurd harmed.1 (by decide)

end MainLoop

end NetBabbler
