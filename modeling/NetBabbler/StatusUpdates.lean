import NetBabbler.ClientProgram

/-!
# The status updates

The same alarm serves the run-time limit and the periodic status, so a status is not printed at
each of its expirations : only where it was armed with the whole interval.

`run_scheduled` : the status is printed once for each interval that is over, and the last alarm
before the limit prints none if it comes before the end of an interval.
-/

namespace NetBabbler

open Interleaving

namespace MainLoop

variable {time statusUpdateTime : Int32} {l l' : MainLoop} {r : Readable}

/-- The intervals that are over were printed, and the alarms expire at their ends until the
limit is reached. -/
def Printed (time statusUpdateTime : Int32) (l : MainLoop) : Prop :=
  ∃ rest, l.elapsed = l.statusUpdates * statusUpdateTime.toInt.toNat + rest ∧
    rest < statusUpdateTime.toInt.toNat ∧ (time = 0 ∨ 0 < l.remainingTime → rest = 0)

/-- What an iteration keeps without a limit. -/
structure Unlimited (statusUpdateTime : Int32) (l : MainLoop) : Prop where
  noBug : l.aborted = false
  ticks : l.ticks = statusUpdateTime
  alarm : l.alarm = statusUpdateTime.toUInt32

/-- With a limit or without one. -/
def Armed (time statusUpdateTime : Int32) (l : MainLoop) : Prop :=
  if time = 0 then Unlimited statusUpdateTime l else Counted time statusUpdateTime l

theorem Armed.noBug (h : Armed time statusUpdateTime l) : l.aborted = false := by
  rw [Armed] at h
  split_ifs at h with hzero
  · exact h.noBug
  · exact h.noBug

theorem Armed.serve {terminate printStatus : Bool} (h : Armed time statusUpdateTime l) :
    Armed time statusUpdateTime (l.serve r terminate printStatus) := by
  rw [Armed] at h ⊢
  split_ifs at h ⊢ with hzero
  · exact ⟨h.noBug, h.ticks, h.alarm⟩
  · exact h.serve

theorem Armed.expire (h : Armed time statusUpdateTime l) (ht : 0 ≤ time)
    (hs : 0 < statusUpdateTime) :
    Armed time statusUpdateTime (l.expire time statusUpdateTime) := by
  rw [Armed] at h ⊢
  split_ifs at h ⊢ with hzero
  · rw [MainLoop.expire, if_neg (by simpa using hzero)]
    exact ⟨h.noBug, h.ticks, by rw [h.ticks]⟩
  · exact h.expire (Int32.lt_of_le_of_ne ht (Ne.symm hzero)) hs

theorem expire_elapsed (time statusUpdateTime : Int32) (l : MainLoop) :
    (l.expire time statusUpdateTime).elapsed = l.elapsed + l.alarm.toNat ∧
      (l.expire time statusUpdateTime).statusUpdates = l.statusUpdates := by
  rw [expire]
  dsimp only
  split_ifs <;> exact ⟨rfl, rfl⟩

/-- An alarm that expires ends an interval, or it is the last one. -/
theorem Armed.elapsed_expire (h : Armed time statusUpdateTime l) (hs : 0 < statusUpdateTime)
    (hpending : l.alarm ≠ 0) :
    (time = 0 ∨ 0 < l.remainingTime) ∧
    (l.ticks = statusUpdateTime ∧ l.alarm.toNat = statusUpdateTime.toInt.toNat ∨
    l.ticks ≠ statusUpdateTime ∧ l.alarm.toNat < statusUpdateTime.toInt.toNat ∧
      ¬(time = 0 ∨ 0 < (l.expire time statusUpdateTime).remainingTime)) := by
  rw [Armed] at h
  split_ifs at h with hzero
  · have halarm := toNat_toUInt32 (Int32.le_of_lt hs)
    rw [← h.alarm] at halarm
    exact ⟨.inl hzero, .inl ⟨h.ticks, by omega⟩⟩
  · have halarm := h.toNat_alarm hs
    have hremaining : 0 < l.remainingTime := by
      refine Int32.lt_of_le_of_ne h.nonneg fun heq => hpending ?_
      have hticks : l.ticks = 0 := by
        rw [h.ticks, min, ← heq, if_neg (Int32.not_lt.mpr (Int32.le_of_lt hs))]
      rw [h.alarm, hticks]
      rfl
    refine ⟨.inr hremaining, ?_⟩
    by_cases hticks : l.ticks = statusUpdateTime
    · exact .inl ⟨hticks, by rw [hticks] at halarm; omega⟩
    · have heq : l.ticks = l.remainingTime := by
        rw [h.ticks, min] at hticks ⊢
        split_ifs at hticks ⊢ with hlt
        · exact absurd rfl hticks
        · rfl
      have hlt : l.ticks < statusUpdateTime := by
        refine Int32.lt_of_le_of_ne ?_ hticks
        rw [heq]
        refine Int32.not_lt.mp fun hlt => hticks ?_
        rw [h.ticks, min, if_pos hlt]
      have hsub : (l.expire time statusUpdateTime).remainingTime = 0 := by
        rw [MainLoop.expire, if_pos hzero, heq, Int32.sub_self, if_neg (by decide)]
      rw [Int32.lt_iff_toInt_lt] at hlt
      refine .inr ⟨hticks, by omega, ?_⟩
      rw [hsub, or_iff_right hzero]
      decide

theorem Printed.serve_expire (h : Printed time statusUpdateTime l)
    (harmed : Armed time statusUpdateTime l) (hs : 0 < statusUpdateTime)
    (hpending : l.alarm ≠ 0) (terminate : Bool) : Printed time statusUpdateTime
      ((l.expire time statusUpdateTime).serve r terminate (l.ticks = statusUpdateTime)) := by
  obtain ⟨rest, helapsed, -, hrest⟩ := h
  obtain ⟨helapsed', hupdates⟩ := expire_elapsed time statusUpdateTime l
  obtain ⟨hnow, hcases⟩ := harmed.elapsed_expire hs hpending
  obtain rfl := hrest hnow
  have hpos := Int32.lt_iff_toInt_lt.mp hs
  rw [Int32.toInt_zero] at hpos
  rcases hcases with ⟨hticks, halarm⟩ | ⟨hticks, halarm, hover⟩
  · refine ⟨0, ?_, by omega, fun _ => rfl⟩
    simp only [serve, hticks, decide_true, if_true, helapsed', hupdates, helapsed, halarm]
    ring
  · refine ⟨l.alarm.toNat, ?_, halarm, fun hmore => absurd hmore hover⟩
    simp only [serve, hticks, decide_false, Bool.false_eq_true, if_false, helapsed', hupdates,
      helapsed, Nat.add_zero]

/-- What every iteration keeps. -/
structure Scheduled (time statusUpdateTime : Int32) (l : MainLoop) : Prop where
  armed : Armed time statusUpdateTime l
  printed : Printed time statusUpdateTime l

theorem Scheduled.step (h : Scheduled time statusUpdateTime l) (ht : 0 ≤ time)
    (hs : 0 < statusUpdateTime) (hstep : l.step time statusUpdateTime r = some l') :
    Scheduled time statusUpdateTime l' := by
  obtain ⟨harmed, hprinted⟩ := h
  have hexpire := harmed.expire ht hs
  rcases step_cases hstep with ⟨hpending, haborted | rfl⟩ | rfl
  · rw [hexpire.noBug] at haborted
    cases haborted
  · exact ⟨hexpire.serve, hprinted.serve_expire harmed hs hpending _⟩
  · exact ⟨harmed.serve, hprinted⟩

theorem scheduled_init (ht : 0 ≤ time) (hs : 0 < statusUpdateTime) (clients : Int32) :
    Scheduled time statusUpdateTime (init time statusUpdateTime clients) := by
  have hpos := Int32.lt_iff_toInt_lt.mp hs
  rw [Int32.toInt_zero] at hpos
  refine ⟨?_, 0, by simp [init], by omega, fun _ => rfl⟩
  rw [Armed]
  split_ifs with hzero
  · exact ⟨rfl, if_neg (by simpa using hzero), by rw [init, if_neg (by simpa using hzero)]⟩
  · exact counted_init (Int32.lt_of_le_of_ne ht (Ne.symm hzero)) clients

end MainLoop

namespace ClientProgram

variable {time statusUpdateTime : Int32} {p : ClientProgram} {clients : List Client}
  {events : List Event}

theorem scheduled_step {p' : ClientProgram} {e : Event} (ht : 0 ≤ time) (hs : 0 < statusUpdateTime)
    (hstep : step time statusUpdateTime p e = some p')
    (h : MainLoop.Scheduled time statusUpdateTime p.main) :
    MainLoop.Scheduled time statusUpdateTime p'.main := by
  rcases step_cases hstep with ⟨-, ⟨i, e', n, threads, -, -, -, rfl⟩ |
    ⟨sigInt, stdin, sigAlarm, main, -, hmain, rfl⟩⟩
  · exact h
  · exact h.step ht hs hmain

/-- The status is printed once for each interval that is over, whatever the clients do. -/
theorem run_scheduled (ht : 0 ≤ time) (hs : 0 < statusUpdateTime)
    (hrun : events.foldlM (step time statusUpdateTime) (start time statusUpdateTime clients) =
      some p) :
    p.main.aborted = false ∧
      p.main.statusUpdates = p.main.elapsed / statusUpdateTime.toInt.toNat ∧
      (p.main.elapsed % statusUpdateTime.toInt.toNat = 0 ∨ p.main.elapsed = time.toInt) ∧
      (time = 0 ∨ p.main.elapsed < time.toInt → 0 < p.main.alarm) ∧
      (time ≠ 0 → p.main.elapsed ≤ time.toInt) := by
  obtain ⟨harmed, rest, helapsed, hlt, hrest⟩ :=
    foldlM_invariant (fun _ _ _ hstep h => scheduled_step ht hs hstep h) events hrun
      (MainLoop.scheduled_init ht hs _)
  have hdiv : p.main.elapsed / statusUpdateTime.toInt.toNat = p.main.statusUpdates := by
    rw [helapsed, Nat.mul_comm, Nat.mul_add_div (Nat.zero_lt_of_lt hlt), Nat.div_eq_of_lt hlt,
      Nat.add_zero]
  have hmod : p.main.elapsed % statusUpdateTime.toInt.toNat = rest := by
    rw [helapsed, Nat.mul_add_mod_of_lt hlt]
  refine ⟨harmed.noBug, hdiv.symm, ?_⟩
  rw [hmod]
  rw [MainLoop.Armed] at harmed
  split_ifs at harmed with hzero
  · have halarm := MainLoop.toNat_toUInt32 (Int32.le_of_lt hs)
    have hpos := Int32.lt_iff_toInt_lt.mp hs
    rw [← harmed.alarm] at halarm
    rw [Int32.toInt_zero] at hpos
    refine ⟨.inl (hrest (.inl hzero)), fun _ => UInt32.lt_iff_toNat_lt.mpr ?_,
      fun hne => absurd hzero hne⟩
    show 0 < p.main.alarm.toNat
    omega
  · have hremaining := harmed.remaining
    have hnonneg := Int32.le_iff_toInt_le.mp harmed.nonneg
    rw [Int32.toInt_zero] at hnonneg
    refine ⟨?_, fun hmore => ?_, fun _ => by omega⟩
    · by_cases hover : p.main.elapsed = time.toInt
      · exact .inr hover
      · refine .inl (hrest (.inr (Int32.lt_iff_toInt_lt.mpr ?_)))
        rw [Int32.toInt_zero]
        omega
    · have hless := hmore.resolve_left hzero
      refine (harmed.armed hs (Int32.lt_iff_toInt_lt.mpr ?_)).1
      rw [Int32.toInt_zero]
      omega

/-- Ten seconds with the status at 3, 6 and 9 seconds. -/
theorem run_scheduled_ten : ∃ p, (List.replicate 4 (Event.main false false true)).foldlM
      (step 10 3) (start 10 3 [single]) = some p ∧
    p.main.aborted = false ∧ p.main.statusUpdates = p.main.elapsed / (3 : Int32).toInt.toNat ∧
      (p.main.elapsed % (3 : Int32).toInt.toNat = 0 ∨ p.main.elapsed = (10 : Int32).toInt) ∧
      ((10 : Int32) = 0 ∨ p.main.elapsed < (10 : Int32).toInt → 0 < p.main.alarm) ∧
      ((10 : Int32) ≠ 0 → p.main.elapsed ≤ (10 : Int32).toInt) := by
  have hsome : ((List.replicate 4 (Event.main false false true)).foldlM
      (step 10 3) (start 10 3 [single])).isSome = true := by decide +kernel
  obtain ⟨p, hrun⟩ := Option.isSome_iff_exists.mp hsome
  exact ⟨p, hrun, run_scheduled (by decide) (by decide) hrun⟩

end ClientProgram

end NetBabbler
