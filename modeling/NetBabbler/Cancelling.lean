import NetBabbler.Buffered
import NetBabbler.Threads

/-!
# Cancelling a client

`cClient::terminateAll` signals an event that stays signalled. A client looks at it in one
place, after the `poll` of `cSocket::recv`; the loop of `threadFunc` tests another flag. The
event comes at some `Moment` of a round : before its `sendRequest`, or behind the start of it.
The requests that start later are one at most, and then the loop is over, if and only if the
first round whose request comes behind the event is `Observed` : it ends the loop by itself, or
waits for a response that does not lie in the buffer yet (`stops_iff`).
-/

namespace NetBabbler

open EStateM BabblerProtocol

/-! ## Rounds and requests -/

namespace Requestor

variable {r : Requestor}

/-- Whether the limit is reached does not depend on the size scheduled. -/
theorem isLimitReached_fst (limit octets : Int64) (size size' : UInt32) :
    (isLimitReached limit octets size).1 = (isLimitReached limit octets size').1 := by
  unfold isLimitReached
  split_ifs <;> rfl

/-- A round keeps the buffer sound. -/
theorem doJob_sound (hs : r.protocol.Sound) :
    Ends doJob (fun _ r' => r'.protocol.Sound) (fun _ _ => True) r := by
  refine ends_doJob (fun _ _ _ _ => trivial) fun _ => ?_
  refine (sendRequest_sound hs _ _ _).mono (fun _ s₁ hs₁ => ?_) fun _ _ _ => trivial
  split_ifs
  · exact (recvResponse_sound hs₁ _).mono (fun _ _ hs₂ => hs₂) fun _ _ _ => trivial
  · exact hs₁

/-- A round increments the sequence number as it sends its request. -/
theorem doJob_seq (r : Requestor) :
    Ends doJob (fun _ r' => r'.seq = r.seq + 1)
      (fun _ r' => r'.seq = r.seq ∨ r'.seq = r.seq + 1) r := by
  refine (doJob_spec r).mono ?_ ?_
  · rintro _ r' ⟨-, s, rfl⟩
    rfl
  · rintro f r' (⟨-, -, hseq, -⟩ | ⟨-, s, rfl⟩)
    · exact .inl hseq
    · exact .inr rfl

/-- Below the limits a request is sent. -/
theorem doJob_open (h : ∀ d, (r.check d).1 = false) :
    Ends doJob (fun _ r' => r'.seq = r.seq + 1) (fun _ r' => r'.seq = r.seq + 1) r := by
  refine ends_doJob (fun r' _ _ hreached => ?_) fun _ => ?_
  · obtain ⟨d, hd⟩ := hreached
    rw [h d] at hd
    cases hd
  · refine ends_of_forall (fun _ s₁ => ?_) fun _ _ => rfl
    split_ifs
    · exact ends_of_forall (fun _ _ => rfl) fun _ _ => rfl
    · rfl

/-- Whether a limit is reached depends on the limits and the octets counted alone. -/
theorem check_after (r : Requestor) {s s' : BabblerProtocol}
    (hsent : s'.stats.sentOctets = s.stats.sentOctets)
    (hreceived : s'.stats.receivedOctets = s.stats.receivedOctets) (d : Direction) :
    ((r.after s').schedule.check d).1 = (({ r with protocol := s }).check d).1 := by
  have hlimit : (r.after s').limit d = ({ r with protocol := s }).limit d := by cases d <;> rfl
  have hoctets : (r.after s').octets d = ({ r with protocol := s }).octets d := by
    cases d <;> assumption
  rw [check, check, schedule_limit, schedule_octets, hlimit, hoctets]
  exact isLimitReached_fst _ _ _ _

/-- A round after the cancel event in which a limit is reached, or a response is waited for. -/
theorem doJob_observed (hs : r.protocol.Sound)
    (hcancelled : r.protocol.socket.Cancelled)
    (h : Ends (sendRequest (r.seq + 1) (r.check .send).2 (r.check .recv).2)
      (fun _ s => (∃ d, (({ r with protocol := s }).check d).1 = true) ∨
        (r.check .recv).2 ≠ 0 ∧ ¬s.Buffered (r.seq + 1)) (fun _ _ => True) r.protocol) :
    Ends doJob (fun _ r' => ∃ d, (r'.check d).1 = true) (fun _ _ => True) r := by
  refine ends_doJob (fun _ _ _ _ => trivial) fun _ => ?_
  refine ((h.and (sendRequest_sound hs _ _ _)).and
    (sends_cancelled.sendRequest _ _ _ _ hcancelled)).mono ?_ fun _ _ _ => trivial
  rintro _ s₁ ⟨⟨hnext, hs₁⟩, hcancelled₁⟩
  split_ifs with hzero
  · by_cases hbuffered : s₁.Buffered (r.seq + 1)
    · obtain ⟨d, hd⟩ := hnext.resolve_right fun h => h.2 hbuffered
      refine (recvResponse_buffered hs₁ hbuffered).mono ?_ fun _ _ _ => trivial
      exact fun _ s₂ hstats => ⟨d, (check_after r hstats.1 hstats.2 d).trans hd⟩
    · exact (recvResponse_cancelled hs₁ hcancelled₁ _).mono
        (fun _ _ hb => (hbuffered hb).elim) fun _ _ _ => trivial
  · obtain ⟨d, hd⟩ := hnext.resolve_right fun h => hzero h.1
    exact ⟨d, (check_after r rfl rfl d).trans hd⟩

/-- A round whose request gets through and whose response, if any, is in the buffer. -/
theorem doJob_unobserved (hopen : ∀ d, (r.check d).1 = false) {s₁ : BabblerProtocol}
    (hs₁ : s₁.Sound)
    (hrun : sendRequest (r.seq + 1) (r.check .send).2 (r.check .recv).2 r.protocol = .ok () s₁)
    (hbuffered : (r.check .recv).2 ≠ 0 → s₁.Buffered (r.seq + 1)) :
    Ends doJob
      (fun _ r' => r'.seq = r.seq + 1 ∧
        ∀ d, (r'.check d).1 = (({ r with protocol := s₁ }).check d).1)
      (fun _ _ => False) r := by
  refine ends_doJob (fun r' _ _ hreached => ?_) fun _ => ends_of_eq hrun ?_
  · obtain ⟨d, hd⟩ := hreached
    rw [hopen d] at hd
    cases hd
  · split_ifs with hzero
    · refine (recvResponse_buffered hs₁ (hbuffered hzero)).mono ?_ fun _ _ h => h
      exact fun _ s₂ hstats => ⟨rfl, check_after r hstats.1 hstats.2⟩
    · exact ⟨rfl, check_after r rfl rfl⟩

end Requestor

namespace ClientLoop

variable {infinite : Bool} {c c' : ClientLoop}

/-- When the event is signalled in a round : before its `sendRequest`, or once that has started. -/
inductive Moment where
  | before
  | behind

/-- The requests of the round that the moment is behind. -/
def Moment.started : Moment → Nat
  | .before => 0
  | .behind => 1

/-- The event is signalled at this moment of the round from `c`, so that each later `poll` finds
it. In the round itself no more is asked of the polls behind the request. -/
def Signalled (infinite : Bool) (c : ClientLoop) : Moment → Prop
  | .before => c.requestor.protocol.socket.Cancelled
  | .behind => Ends (iteration infinite) (fun _ c' => c'.requestor.protocol.socket.Cancelled)
      (fun _ _ => True) c

/-- From `c` to `c'` at most `k` times a `sendRequest` was started. -/
def Near (k : Nat) (c c' : ClientLoop) : Prop :=
  ∃ i ≤ k, c'.requestor.seq = c.requestor.seq + UInt64.ofNat i

/-- From the moment of the round from `c` on, one further `sendRequest` is started at most, and
then the loop is over. -/
def Stops (infinite : Bool) (c : ClientLoop) (m : Moment) : Prop :=
  (∀ n, Ends (times (iteration infinite) n) (fun _ => Near (m.started + 1) c)
    (fun _ => Near (m.started + 1) c) c) ∧
  Ends (times (iteration infinite) (m.started + 2)) (fun _ c' => c'.terminate = true)
    (fun _ _ => True) c

/-- A limit is reached, with `s` for the protocol object. -/
def LimitReached (c : ClientLoop) (s : BabblerProtocol) : Prop :=
  ∃ d, (({ c.requestor with protocol := s }).check d).1 = true

instance (k : Nat) (c c' : ClientLoop) : Decidable (Near k c c') :=
  inferInstanceAs (Decidable (∃ i ≤ k, _))

/-- The round from `c` ends the loop, or waits for a response that is not in the buffer. -/
def Observed (infinite : Bool) (c : ClientLoop) : Prop :=
  c.terminate = true ∨ c.LimitReached c.requestor.protocol ∨
    (infinite = false ∧ c.count = 1) ∨
    Ends (sendRequest (c.requestor.seq + 1) (c.requestor.check .send).2
        (c.requestor.check .recv).2)
      (fun _ s => c.LimitReached s ∨
        (c.requestor.check .recv).2 ≠ 0 ∧ ¬s.Buffered (c.requestor.seq + 1))
      (fun _ _ => True) c.requestor.protocol

/-- The first round whose request comes behind the moment is observed, if there is one. -/
def ObservedFrom (infinite : Bool) (c : ClientLoop) : Moment → Prop
  | .before => Observed infinite c
  | .behind => Ends (iteration infinite) (fun _ => Observed infinite) (fun _ _ => True) c

/-- The loop is at its end, or the next round is. -/
def Over (c : ClientLoop) : Prop :=
  c.terminate = true ∨ c.LimitReached c.requestor.protocol

theorem near_of_seq {k : Nat} (i : Nat) (hi : i ≤ k)
    (h : c'.requestor.seq = c.requestor.seq + UInt64.ofNat i) : Near k c c' :=
  ⟨i, hi, h⟩

theorem near_of_seq_eq {k : Nat} (h : c'.requestor.seq = c.requestor.seq) : Near k c c' :=
  ⟨0, Nat.zero_le k, h.trans (UInt64.add_zero _).symm⟩

theorem near_one (h : c'.requestor.seq = c.requestor.seq ∨
    c'.requestor.seq = c.requestor.seq + 1) : Near 1 c c' :=
  h.elim near_of_seq_eq (near_of_seq 1 le_rfl)

/-- One request more than `k` is too many. -/
theorem not_near {k : Nat} (hk : k < 2 ^ 32)
    (h : c'.requestor.seq = c.requestor.seq + UInt64.ofNat (k + 1)) : ¬Near k c c' := by
  rintro ⟨i, hi, hseq⟩
  rw [h, UInt64.add_right_inj, ← UInt64.toNat_inj, UInt64.toNat_ofNat', UInt64.toNat_ofNat',
    Nat.mod_eq_of_lt (by omega), Nat.mod_eq_of_lt (by omega)] at hseq
  omega

theorem limitReached_countDown (s : BabblerProtocol) :
    (c.countDown infinite).LimitReached s ↔ c.LimitReached s := by
  rw [LimitReached, countDown_requestor, LimitReached]

/-- A loop that is over starts no request. -/
theorem Over.iteration (h : c.Over) :
    Ends (iteration infinite) (fun _ c' => c' = c ∧ c.terminate = true)
      (fun _ c' => c'.requestor.seq = c.requestor.seq) c := by
  simp only [ClientLoop.iteration, onRequestor, ends_bind, ends_get]
  split_ifs with hterm
  · rw [ends_pure]
    exact ⟨rfl, hterm⟩
  · obtain ⟨d, hd⟩ := h.resolve_left hterm
    simp only [ends_bind, ends_zoom, ends_modify]
    exact (Requestor.doJob_reached hd).mono (fun _ _ he => he.elim) fun _ _ he => he.2.2

theorem Over.times (h : c.Over) (n : Nat) :
    Ends (times (ClientLoop.iteration infinite) n)
      (fun _ c' => c' = c ∧ (0 < n → c.terminate = true))
      (fun _ c' => c'.requestor.seq = c.requestor.seq) c := by
  induction n with
  | zero =>
    rw [EStateM.times, ends_pure]
    exact ⟨rfl, fun h0 => (Nat.lt_irrefl 0 h0).elim⟩
  | succ n ih =>
    simp only [EStateM.times, ends_bind, ends_pure]
    refine h.iteration.mono ?_ fun _ _ he => he
    rintro _ c' ⟨rfl, hterm⟩
    exact ih.mono (fun _ _ h' => ⟨h'.1, fun _ => hterm⟩) fun _ _ he => he

/-- `countDown` ends the loop at a count of one. -/
theorem countDown_terminate (h : c.terminate = false) :
    (c.countDown infinite).terminate = true ↔ infinite = false ∧ c.count = 1 := by
  have hcount : c.count - 1 = 0 ↔ c.count = 1 := UInt32.sub_eq_iff_eq_add.trans (by simp)
  cases infinite <;> simp [countDown, h, hcount]

/-- A round that is observed leaves the loop over. -/
theorem Observed.iteration (hs : c.requestor.protocol.Sound)
    (hcancelled : c.requestor.protocol.socket.Cancelled) (h : Observed infinite c) :
    Ends (iteration infinite) (fun _ c' => c'.Over ∧ Near 1 c c') (fun _ => Near 1 c) c := by
  by_cases hover : c.Over
  · refine hover.iteration.mono ?_ fun _ _ he => near_of_seq_eq he
    rintro _ c' ⟨rfl, -⟩
    exact ⟨hover, near_of_seq_eq rfl⟩
  have hterm : c.terminate = false := by
    simpa using fun hterm => hover (.inl hterm)
  simp only [ClientLoop.iteration, onRequestor, ends_bind, ends_get, hterm, Bool.false_eq_true,
    if_false, ends_zoom, ends_modify]
  rcases h with htrue | hlimit | hlast | hsend
  · exact (hover (.inl htrue)).elim
  · exact (hover (.inr hlimit)).elim
  · refine (Requestor.doJob_seq c.requestor).mono
      (fun _ r hr => ⟨.inl ?_, near_of_seq 1 le_rfl ?_⟩)
      fun _ _ he => near_one he
    · exact (countDown_terminate (c := ⟨r, false, c.count⟩) rfl).mpr hlast
    · rw [countDown_requestor]
      exact hr
  · refine ((Requestor.doJob_seq c.requestor).and
      (Requestor.doJob_observed hs hcancelled hsend)).mono
      (fun _ r hr => ⟨.inr ?_, near_of_seq 1 le_rfl ?_⟩)
      fun _ _ he => near_one he.1
    · rw [limitReached_countDown, countDown_requestor]
      exact hr.2
    · rw [countDown_requestor]
      exact hr.1

/-- A round that is not observed leaves the loop as it was. -/
theorem iteration_of_not_observed (hs : c.requestor.protocol.Sound) (h : ¬Observed infinite c) :
    Ends (iteration infinite) (fun _ c' => ¬c'.Over ∧ c'.requestor.seq = c.requestor.seq + 1)
      (fun _ _ => False) c := by
  unfold Observed at h
  push Not at h
  obtain ⟨hterm, hopen, hlast, hsend⟩ := h
  have hopen' : ∀ d, (c.requestor.check d).1 = false := fun d => by
    simpa using fun hd => hopen ⟨d, hd⟩
  have hfalse : c.terminate = false := by simpa using hterm
  obtain ⟨_, s₁, hrun, hnot⟩ := exists_ok_of_not_ends hsend
  push Not at hnot
  have hs₁ := (sendRequest_sound hs _ _ _).ok hrun
  simp only [ClientLoop.iteration, onRequestor, ends_bind, ends_get, hfalse, Bool.false_eq_true,
    if_false, ends_zoom, ends_modify]
  refine (Requestor.doJob_unobserved hopen' hs₁ hrun hnot.2).mono ?_ fun _ _ he => he
  rintro _ r ⟨hseq, hcheck⟩
  refine ⟨?_, by rw [countDown_requestor]; exact hseq⟩
  rintro (htrue | ⟨d, hd⟩)
  · obtain ⟨hfinite, hone⟩ := (countDown_terminate (c := ⟨r, false, c.count⟩) rfl).mp htrue
    exact hlast hfinite hone
  · rw [countDown_requestor] at hd
    exact hnot.1 ⟨d, (hcheck d).symm.trans hd⟩

/-- The rounds of a client keep the buffer sound. -/
theorem keeps_sound (infinite : Bool) :
    Keeps (fun c => c.requestor.protocol.Sound) (fun _ => True) (iteration infinite) := by
  intro c hs
  simp only [iteration, onRequestor, ends_bind, ends_get]
  split_ifs with hterm
  · rw [ends_pure]
    exact hs
  · simp only [ends_bind, ends_zoom, ends_modify, countDown_requestor]
    exact Requestor.doJob_sound hs

/-- A round of a loop that is not over starts its request. -/
theorem iteration_seq (hover : ¬c.Over) :
    Ends (iteration infinite) (fun _ c' => c'.requestor.seq = c.requestor.seq + 1)
      (fun _ c' => c'.requestor.seq = c.requestor.seq + 1) c := by
  have hopen : ∀ d, (c.requestor.check d).1 = false := fun d => by
    simpa using fun hd => hover (.inr ⟨d, hd⟩)
  have hfalse : c.terminate = false := by
    simpa using fun hterm => hover (.inl hterm)
  simp only [iteration, onRequestor, ends_bind, ends_get, hfalse, Bool.false_eq_true, if_false,
    ends_zoom, ends_modify, countDown_requestor]
  exact Requestor.doJob_open hopen

/-- A round that is not observed and the next one start two requests. -/
theorem times_two_of_not_observed (hs : c.requestor.protocol.Sound) (h : ¬Observed infinite c) :
    Ends (times (iteration infinite) 2) (fun _ c' => c'.requestor.seq = c.requestor.seq + 2)
      (fun _ c' => c'.requestor.seq = c.requestor.seq + 2) c := by
  simp only [times, ends_bind, ends_pure]
  refine (iteration_of_not_observed hs h).mono ?_ fun _ _ he => he.elim
  rintro _ c₁ ⟨hover, hseq⟩
  have htwo : c.requestor.seq + 2 = c₁.requestor.seq + 1 := by
    rw [hseq, UInt64.add_assoc]
    rfl
  rw [htwo]
  exact iteration_seq hover

/-- Of two rounds that start one request at most, the first is observed. Counted from a state
that `k` requests were started since. -/
theorem observed_of_near {k : Nat} {c₁ : ClientLoop} (hk : k + 1 < 2 ^ 32)
    (hs : c₁.requestor.protocol.Sound)
    (hseq : c₁.requestor.seq = c.requestor.seq + UInt64.ofNat k)
    (hnear : Ends (times (iteration infinite) 2) (fun _ => Near (k + 1) c)
      (fun _ => Near (k + 1) c) c₁) : Observed infinite c₁ := by
  by_contra hnot
  have hfar : ∀ c' : ClientLoop, c'.requestor.seq = c₁.requestor.seq + 2 → ¬Near (k + 1) c c' := by
    intro c' hseq'
    refine not_near hk ?_
    rw [hseq', hseq, UInt64.add_assoc, Nat.add_assoc, UInt64.ofNat_add k]
    rfl
  obtain ⟨_, c₂, -, hfalse⟩ := ((hnear.and (times_two_of_not_observed hs hnot)).mono
    (fun _ c' h => hfar c' h.2 h.1) fun _ c' h => hfar c' h.2 h.1).exists_ok
  exact hfalse

/-- From a loop head on after the cancel event. -/
theorem stops_before_iff (hs : c.requestor.protocol.Sound)
    (hcancelled : c.requestor.protocol.socket.Cancelled) :
    Stops infinite c .before ↔ Observed infinite c := by
  constructor
  · intro hstops
    have hseq : c.requestor.seq = c.requestor.seq + UInt64.ofNat 0 := (UInt64.add_zero _).symm
    exact observed_of_near (by omega) hs hseq (hstops.1 2)
  · intro h
    have hround := h.iteration hs hcancelled
    refine ⟨fun n => ?_, ?_⟩
    · cases n with
      | zero =>
        rw [times, ends_pure]
        exact near_of_seq_eq rfl
      | succ n =>
        simp only [times, ends_bind, ends_pure]
        refine hround.mono ?_ fun _ _ he => he
        rintro _ c' ⟨hover, hnear⟩
        refine (hover.times n).mono ?_ fun _ c'' he => ?_
        · rintro _ c'' ⟨rfl, -⟩
          exact hnear
        · rw [Near, he]
          exact hnear
    · simp only [Moment.started, times, ends_bind, ends_pure]
      refine hround.mono ?_ fun _ _ _ => trivial
      rintro _ c' ⟨hover, -⟩
      refine hover.iteration.mono ?_ fun _ _ _ => trivial
      rintro _ c'' ⟨rfl, hterm⟩
      exact hterm

/-- A loop that is over stops whenever the event comes. -/
theorem Over.stops (h : c.Over) (m : Moment) : Stops infinite c m := by
  refine ⟨fun n => (h.times n).mono ?_ fun _ _ he => near_of_seq_eq he,
    (h.times _).mono ?_ fun _ _ _ => trivial⟩
  · rintro _ c' ⟨rfl, -⟩
    exact near_of_seq_eq rfl
  · rintro _ c' ⟨rfl, hterm⟩
    exact hterm (Nat.succ_pos _)

/-- Requests after a round are counted from its start. -/
theorem Near.succ {c₁ : ClientLoop} {k : Nat} (hseq : c₁.requestor.seq = c.requestor.seq + 1)
    (h : Near k c₁ c') : Near (k + 1) c c' := by
  obtain ⟨i, hi, hseq'⟩ := h
  refine near_of_seq (i + 1) (Nat.succ_le_succ hi) ?_
  rw [hseq', hseq, UInt64.add_assoc, UInt64.add_comm 1, UInt64.ofNat_add]
  rfl

/-- Behind the start of a request, it is the next round that counts. -/
theorem stops_behind_iff (hs : c.requestor.protocol.Sound)
    (hsignalled : Signalled infinite c .behind) :
    Stops infinite c .behind ↔ ObservedFrom infinite c .behind := by
  by_cases hover : c.Over
  · refine iff_of_true (hover.stops _) (hover.iteration.mono ?_ fun _ _ _ => trivial)
    rintro _ c' ⟨rfl, -⟩
    exact hover.elim .inl fun hlimit => .inr (.inl hlimit)
  have hnextSeq : Ends (iteration infinite) (fun _ c' => c'.requestor.seq = c.requestor.seq + 1)
      (fun _ c' => c'.requestor.seq = c.requestor.seq + 1) c := iteration_seq hover
  have hround := hnextSeq.and ((keeps_sound infinite c hs).and hsignalled)
  constructor
  · intro hstops
    have hthree := hstops.1 3
    rw [times, ends_bind] at hthree
    refine (hround.and hthree).mono ?_ fun _ _ _ => trivial
    rintro _ c₁ ⟨⟨hseq, hs₁, -⟩, htwo⟩
    simp only [ends_bind, ends_pure] at htwo
    exact observed_of_near (k := 1) (by omega) hs₁ hseq htwo
  · intro h
    have hnext : Ends (iteration infinite)
        (fun _ c₁ => c₁.requestor.seq = c.requestor.seq + 1 ∧ Stops infinite c₁ .before)
        (fun _ => Near 2 c) c := (hround.and h).mono
      (fun _ c₁ h₁ => ⟨h₁.1.1, (stops_before_iff h₁.1.2.1 h₁.1.2.2).mpr h₁.2⟩)
      fun _ _ he => near_of_seq 1 (by omega) he.1.1
    refine ⟨fun n => ?_, ?_⟩
    · cases n with
      | zero =>
        rw [times, ends_pure]
        exact near_of_seq_eq rfl
      | succ n =>
        rw [times, ends_bind]
        refine hnext.mono ?_ fun _ _ he => he
        rintro _ c₁ ⟨hseq, hstops⟩
        simp only [ends_bind, ends_pure]
        exact (hstops.1 n).mono (fun _ _ hnear => hnear.succ hseq) fun _ _ hnear => hnear.succ hseq
    · rw [Moment.started, times, ends_bind]
      refine hnext.mono ?_ fun _ _ _ => trivial
      rintro _ c₁ ⟨-, hstops⟩
      simp only [ends_bind, ends_pure]
      exact hstops.2

/-- From the moment on at which the cancel event is signalled in a round, a client stops within
one request, if and only if the first round whose request comes later is observed. -/
theorem stops_iff (client : Client) (s : Socket) {buf : List UInt8} (rng : Nat → Nat)
    (h64 : 64 ≤ buf.length) (hbuf : buf.length < 2 ^ 32) {n : Nat} {u : List Unit}
    (hrun : times (iteration (client.count == 0)) n (client.loop s buf rng) = .ok u c)
    {m : Moment} (hsignalled : Signalled (client.count == 0) c m) :
    Stops (client.count == 0) c m ↔ ObservedFrom (client.count == 0) c m := by
  have hs : c.requestor.protocol.Sound :=
    ((keeps_sound _).times n _ (sound_init h64 hbuf)).ok hrun
  cases m with
  | before => exact stops_before_iff hs hsignalled
  | behind => exact stops_behind_iff hs hsignalled

/-- A kernel that has no bytes for us, takes what we send, and finds the cancel event. -/
def quietSocket : Socket where
  input := .stream []
  peer := none
  output := []
  polls := [.ready ⟨false, none, true⟩]
  sendtos := [.accepted (2 ^ 32), .accepted (2 ^ 32)]
  errno := 0
  reads := []

theorem quietSocket_cancelled : quietSocket.Cancelled := by
  simp [Socket.Cancelled, quietSocket]

/-- A client that wants a response, from a server that sends none. -/
theorem stops_waiting :
    Stops true (Client.loop ⟨⟨40, 40, 50, 50, 0, false⟩, 0, 0, 0, false, 0, 0⟩ quietSocket
      (List.replicate 64 0) fun _ => 0) .before := by
  have hlength : (List.replicate 64 (0 : UInt8)).length = 64 := List.length_replicate
  refine (stops_iff ⟨⟨40, 40, 50, 50, 0, false⟩, 0, 0, 0, false, 0, 0⟩ quietSocket (fun _ => 0)
    (n := 0) hlength.ge (by omega) rfl (m := .before) quietSocket_cancelled).mpr
    (.inr (.inr (.inr ?_)))
  refine Ends.mono (Q := fun _ s => s.unread.length < 24) (E := fun _ _ => True)
    (by decide +kernel) (fun _ s hlt => .inr ⟨by decide, ?_⟩) fun _ _ he => he
  rintro ⟨m, -, -, hm⟩
  have hlen := hm.length_le
  rw [Message.length_encode] at hlen
  omega

/-- A client that wants no responses goes on sending. -/
theorem not_stops :
    ¬∀ (client : Client) (s : Socket) (buf : List UInt8) (rng : Nat → Nat), s.Cancelled →
      64 ≤ buf.length → buf.length < 2 ^ 32 →
      Stops (client.count == 0) (client.loop s buf rng) .before := by
  intro h
  have hstops := h ⟨⟨40, 40, 0, 0, 0, false⟩, 0, 0, 0, false, 0, 0⟩ quietSocket
    (List.replicate 64 0) (fun _ => 0) quietSocket_cancelled (by decide) (by decide)
  exact absurd (hstops.1 2) (by decide +kernel)

end ClientLoop

end NetBabbler
