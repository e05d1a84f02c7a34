import NetBabbler.Alarm
import NetBabbler.Threads

/-!
# The client's program

`cApplication::execute` on the client's side as a whole : the thread of every `cClient`, the
counter of `evClientTerminated`, and the main loop. The threads and the main loop take steps
in any order, the kernels answer as they like, and an exception that gets out of a thread
ends all of them.

`run_accounted` : the main loop counts a client as running until it has read the signal that
the client's thread sends after its bookkeeping. `run_drained` : so it neither ends early nor
waits for ever. `run_reasons` : why a thread ends, and after how many rounds.
-/

namespace NetBabbler

open EStateM BabblerProtocol Interleaving

/-! ## A thread -/

/-- The cancel event is found to be readable. -/
def Poll.cancelled : Poll → Bool
  | .ready revents => revents.cancel
  | _ => false

/-- Where `threadFunc` is. -/
inductive ClientThreadPhase where
  | connecting
  /-- At the head of the loop. -/
  | looping (l : ClientLoop)
  /-- Past `m_evTerminated.send ()`. The loop ended by itself, or by the exception. -/
  | finished (l : Option ClientLoop) (f : Option Fault)
  /-- The exception got out. -/
  | terminated (f : Fault)

/-- A `cClient` and its thread. -/
structure ClientThread where
  client : Client
  phase : ClientThreadPhase

/-- What a client's thread does next. -/
inductive ClientThreadEvent where
  /-- `cSocket::connect`, up to the loop. -/
  | connect (connection : Except SocketError (Option Socket)) (buf : List UInt8) (rng : Nat → Nat)
  /-- `while (!m_terminate)` once, before a kernel that gives these answers. -/
  | round (polls : List Poll) (sendtos : List Sendto)

/-- The cancel event is readable in a round. -/
def ClientThreadEvent.cancelled : ClientThreadEvent → Bool
  | .connect _ _ _ => false
  | .round polls _ => polls.any Poll.cancelled

namespace ClientThread

/-- The end of `threadFunc`. -/
def finish (t : ClientThread) (l : Option ClientLoop) (f : Option Fault) : ClientThread :=
  ⟨t.client.finish, .finished l f⟩

/-- `l` before a kernel that gives these answers. -/
def facing (polls : List Poll) (sendtos : List Sendto) (l : ClientLoop) : ClientLoop :=
  { l with requestor := { l.requestor with protocol := { l.requestor.protocol with
      socket := { l.requestor.protocol.socket with polls := polls, sendtos := sendtos } } } }

/-- The step of a thread, with the value of `evClientTerminated`. -/
def step : ClientThreadEvent → Nat → ClientThread → Option (Nat × ClientThread)
  | .connect connection buf rng, n, t =>
    match t.phase, connection with
    | .connecting, .error e => some (n + 1, t.finish none (some (.errorException e)))
    | .connecting, .ok none => some (n + 1, t.finish none none)
    | .connecting, .ok (some s) => some (n, { t with phase := .looping (t.client.loop s buf rng) })
    | _, _ => none
  | .round polls sendtos, n, t =>
    match t.phase with
    | .looping l =>
      if l.terminate = true then some (n + 1, t.finish (some l) none)
      else match ClientLoop.iteration (t.client.count == 0) (facing polls sendtos l) with
        | .ok _ l' => some (n, { t with phase := .looping l' })
        | .error .blocked _ => none
        | .error (.errorException e) l' => some (n + 1, t.finish l' (some (.errorException e)))
        | .error .eventException l' => some (n + 1, t.finish l' (some .eventException))
        | .error f _ => some (n, { t with phase := .terminated f })
    | _ => none

/-- Whether the thread has still to signal its end, as a number. -/
def running (t : ClientThread) : Nat :=
  match t.phase with
  | .finished _ _ => 0
  | _ => 1

/-- Whether an exception got out of the thread. -/
def crashed (t : ClientThread) : Bool :=
  match t.phase with
  | .terminated _ => true
  | _ => false

end ClientThread

/-! ## The program -/

/-- The main loop, the clients, and the event that they signal their end with. -/
structure ClientProgram where
  main : MainLoop
  threads : List ClientThread
  /-- The value of `evClientTerminated`. -/
  evClientTerminated : Nat

namespace ClientProgram

/-- A thread gets on, or the main loop does. -/
inductive Event where
  | thread (i : Nat) (e : ClientThreadEvent)
  /-- An iteration of the main loop, with what else is readable. -/
  | main (sigInt stdin sigAlarm : Bool)

/-- `std::terminate` or `BUG_ON` ended the process. -/
def crashed (p : ClientProgram) : Bool :=
  p.main.aborted || p.threads.any ClientThread.crashed

/-- What is readable. -/
def readable (p : ClientProgram) (sigInt stdin sigAlarm : Bool) : Readable where
  sigInt := sigInt
  clientTerminated := decide (0 < p.evClientTerminated)
  stdin := stdin
  sigAlarm := sigAlarm

/-- The cancel event is readable once `terminateAll` was called. -/
def possible (p : ClientProgram) : Event → Bool
  | .thread _ e => !e.cancelled || !p.main.terminations.isEmpty
  | .main _ _ _ => true

/-- A step, if the process still runs and the event is possible. -/
def step (time statusUpdateTime : Int32) (p : ClientProgram) (e : Event) :
    Option ClientProgram :=
  if p.crashed = true ∨ p.possible e = false then none
  else match e with
    | .thread i e => do
      let (n, threads) ← stepAt (ClientThread.step e) i p.evClientTerminated p.threads
      some { p with evClientTerminated := n, threads := threads }
    | .main sigInt stdin sigAlarm => do
      let r := p.readable sigInt stdin sigAlarm
      let main ← p.main.step time statusUpdateTime r
      some { p with
        main := main
        evClientTerminated :=
          if r.clientTerminated = true ∧ main.aborted = false then p.evClientTerminated - 1
          else p.evClientTerminated }

/-- Before the main loop. The threads are there as soon as their clients are. -/
def start (time statusUpdateTime : Int32) (clients : List Client) : ClientProgram where
  main := .init time statusUpdateTime (Int32.ofNat clients.length)
  threads := clients.map fun c => ⟨c, .connecting⟩
  evClientTerminated := 0

end ClientProgram

/-! ## What a thread keeps -/

namespace Requestor

variable {r : Requestor}

/-- A byte limit is set, and reached. -/
def Reached (r : Requestor) (d : Direction) : Prop :=
  0 < (r.limit d).toInt ∧ (r.limit d).toInt ≤ (r.octets d).toInt

theorem reached_of_check {d : Direction} (h : (r.check d).1 = true) : r.Reached d := by
  have hpos : 0 < (r.limit d).toInt := by
    by_contra hnot
    rw [check, isLimitReached_unlimited _ _ (by omega)] at h
    cases h
  exact ⟨hpos, (isLimitReached_iff _ hpos).mp h⟩

/-- Before the cancel event, `doJob` throws a `eventException` at a byte limit alone. -/
theorem doJob_uncancelled (hr : r.protocol.socket.Uncancelled) :
    Ends doJob (fun _ _ => True) (fun f r' => f = .eventException → ∃ d, r'.Reached d) r := by
  have hcheck : Ends checkLimits (fun _ r' => r'.protocol.socket.Uncancelled)
      (fun _ r' => ∃ d, r'.Reached d) r := by
    simp only [checkLimits, ends_bind, ends_get, ends_modify, ends_throwIf]
    split_ifs with hsend hrecv
    · exact ⟨.send, reached_of_check (r := r) (d := .send) hsend⟩
    · exact ⟨.recv, reached_of_check (r := r) (d := .recv) hrecv⟩
    · exact hr
  have honProtocol : ∀ {α : Type} {m : EStateM Fault BabblerProtocol α},
      Keeps (fun s => s.socket.Uncancelled) (· ≠ .eventException) m →
        Keeps (fun r => r.protocol.socket.Uncancelled) (· ≠ .eventException) (onProtocol m) :=
    Keeps.zoom fun _ _ => rfl
  have htrip : Keeps (fun r : Requestor => r.protocol.socket.Uncancelled) (· ≠ .eventException)
      roundTrip :=
    .bind (keeps_modify fun _ h => h) fun _ => .bind keeps_get fun _ =>
      .bind (honProtocol (sends_uncancelled.sendRequest _ _ _)) fun _ =>
        .ite (fun _ => honProtocol (receives_uncancelled.recvResponse _)) fun _ => keeps_pure _
  simp only [doJob, ends_bind, ends_modify]
  refine hcheck.mono (fun _ r₁ hr₁ => ?_) fun _ _ he _ => he
  exact (htrip r₁ hr₁).mono (fun _ _ _ => trivial) fun _ _ he h => absurd h he

end Requestor

namespace ClientLoop

/-- A round is counted down and has the next number. -/
theorem iteration_spec (infinite : Bool) (l : ClientLoop) :
    Ends (iteration infinite)
      (fun _ l' => l.terminate = true ∧ l' = l ∨ l.terminate = false ∧
        ∃ r : Requestor, r.seq = l.requestor.seq + 1 ∧
          l' = countDown infinite { l with requestor := r })
      (fun f l' => l.terminate = false ∧ (l'.requestor.seq = l.requestor.seq ∨
        l'.requestor.seq = l.requestor.seq + 1) ∧
        (f = .eventException → l.requestor.protocol.socket.Uncancelled →
          ∃ d, l'.requestor.Reached d)) l := by
  have hevent : Ends Requestor.doJob (fun _ _ => True) (fun f r => f = .eventException →
      l.requestor.protocol.socket.Uncancelled → ∃ d, r.Reached d) l.requestor := by
    by_cases hs : l.requestor.protocol.socket.Uncancelled
    · exact (Requestor.doJob_uncancelled hs).mono (fun _ _ h => h) fun _ _ h hf _ => h hf
    · exact ends_of_forall (fun _ _ => trivial) fun _ _ _ h => absurd h hs
  simp only [iteration, onRequestor, ends_bind, ends_get, ends_ite, ends_pure, ends_zoom,
    ends_modify]
  split_ifs with hterminate
  · exact .inl ⟨hterminate, trivial⟩
  · have hfalse := Bool.eq_false_iff.mpr hterminate
    refine ((Requestor.doJob_spec l.requestor).and hevent).mono ?_ ?_
    · rintro _ r ⟨⟨-, s, rfl⟩, -⟩
      exact .inr ⟨hfalse, _, rfl, rfl⟩
    · rintro f r ⟨⟨-, -, hseq, -⟩ | ⟨-, s, rfl⟩, hf⟩
      · exact ⟨hfalse, .inl hseq, hf⟩
      · exact ⟨hfalse, .inr rfl, hf⟩

/-- The rounds done and the rounds to do are `count`, unless they are not counted. -/
structure Counting (count : UInt32) (l : ClientLoop) : Prop where
  infinite : count = 0 → l.terminate = false
  counted : count ≠ 0 → l.requestor.seq.toNat + l.count.toNat = count.toNat ∧
    (l.terminate = true ↔ l.count = 0)

theorem Counting.seq_le {count : UInt32} {l : ClientLoop} (h : l.Counting count)
    (hcount : count ≠ 0) : l.requestor.seq.toNat ≤ count.toNat :=
  (h.counted hcount).1 ▸ Nat.le_add_right _ _

/-- A round that starts is one of those to do. -/
theorem Counting.next {count : UInt32} {l : ClientLoop} (h : l.Counting count)
    (hterminate : l.terminate = false) (hcount : count ≠ 0) :
    l.count ≠ 0 ∧ (l.requestor.seq + 1).toNat = l.requestor.seq.toNat + 1 ∧
      l.requestor.seq.toNat + 1 ≤ count.toNat := by
  obtain ⟨hsum, hiff⟩ := h.counted hcount
  have hleft : l.count ≠ 0 := fun hzero => by
    rw [hiff.mpr hzero] at hterminate
    cases hterminate
  have hpos : 0 < l.count.toNat := Nat.pos_of_ne_zero fun h0 => hleft (UInt32.toNat_inj.mp h0)
  have hlt := count.toNat_lt
  refine ⟨hleft, ?_, by omega⟩
  rw [UInt64.toNat_add]
  show (l.requestor.seq.toNat + 1) % 2 ^ 64 = _
  omega

theorem Counting.countDown {count : UInt32} {l : ClientLoop} (h : l.Counting count)
    (hterminate : l.terminate = false) {r : Requestor} (hr : r.seq = l.requestor.seq + 1) :
    (ClientLoop.countDown (count == 0) { l with requestor := r }).Counting count := by
  by_cases hcount : count = 0
  · rw [ClientLoop.countDown, if_pos (by rw [hcount]; rfl)]
    exact ⟨fun _ => hterminate, fun hne => absurd hcount hne⟩
  · obtain ⟨hleft, hseq, -⟩ := h.next hterminate hcount
    obtain ⟨hsum, -⟩ := h.counted hcount
    have hle : 1 ≤ l.count := by
      rw [UInt32.le_iff_toNat_le]
      exact Nat.pos_of_ne_zero fun h0 => hleft (UInt32.toNat_inj.mp h0)
    rw [ClientLoop.countDown, if_neg (by simpa using hcount)]
    refine ⟨fun hzero => absurd hzero hcount, fun _ => ⟨?_, ?_⟩⟩
    · have hle' : 1 ≤ l.count.toNat := hle
      show r.seq.toNat + (l.count - 1).toNat = _
      rw [hr, hseq, UInt32.toNat_sub_of_le _ _ hle]
      show _ + (l.count.toNat - 1) = _
      omega
    · simp [hterminate]

end ClientLoop

namespace ClientThread

variable {t t' : ClientThread} {n n' : Nat} {e : ClientThreadEvent}

/-- What a step of a thread can do. -/
inductive Moves (cancelled : Bool) (n : Nat) (t : ClientThread) : Nat → ClientThread → Prop where
  | connected (s : Socket) (buf : List UInt8) (rng : Nat → Nat) (hphase : t.phase = .connecting) :
      Moves cancelled n t n { t with phase := .looping (t.client.loop s buf rng) }
  | failed (f : Option Fault) (hphase : t.phase = .connecting)
      (hf : f = none ∨ ∃ what, f = some (.errorException what)) :
      Moves cancelled n t (n + 1) (t.finish none f)
  | round (l l' : ClientLoop) (hphase : t.phase = .looping l) (hterminate : l.terminate = false)
      (r : Requestor) (hr : r.seq = l.requestor.seq + 1)
      (hl' : l' = ClientLoop.countDown (t.client.count == 0) { l with requestor := r }) :
      Moves cancelled n t n { t with phase := .looping l' }
  | done (l : ClientLoop) (hphase : t.phase = .looping l) (hterminate : l.terminate = true) :
      Moves cancelled n t (n + 1) (t.finish (some l) none)
  | caught (l l' : ClientLoop) (f : Fault) (hphase : t.phase = .looping l)
      (hterminate : l.terminate = false) (hseq : l'.requestor.seq = l.requestor.seq ∨
        l'.requestor.seq = l.requestor.seq + 1)
      (hcaught : (∃ what, f = .errorException what) ∨
        f = .eventException ∧ (cancelled = false → ∃ d, l'.requestor.Reached d)) :
      Moves cancelled n t (n + 1) (t.finish (some l') (some f))
  | uncaught (l : ClientLoop) (f : Fault) (hphase : t.phase = .looping l) :
      Moves cancelled n t n { t with phase := .terminated f }

theorem uncancelled_of_any {polls : List Poll} (h : polls.any Poll.cancelled = false)
    {l : ClientLoop} {sendtos : List Sendto} :
    (facing polls sendtos l).requestor.protocol.socket.Uncancelled := by
  intro revents hmem
  exact Bool.eq_false_iff.mpr fun hcancel => Bool.eq_false_iff.mp h
    (List.any_eq_true.mpr ⟨_, hmem, hcancel⟩)

theorem step_spec (h : step e n t = some (n', t')) : Moves e.cancelled n t n' t' := by
  cases e with
  | connect connection buf rng =>
    rcases hphase : t.phase with _ | l | ⟨l, f⟩ | f
    · rcases connection with error | _ | s
      all_goals
        simp only [step, hphase, Option.some.injEq, Prod.mk.injEq] at h
        obtain ⟨rfl, rfl⟩ := h
      · exact .failed _ hphase (.inr ⟨error, rfl⟩)
      · exact .failed _ hphase (.inl rfl)
      · exact .connected s buf rng hphase
    all_goals simp [step, hphase] at h
  | round polls sendtos =>
    rcases hphase : t.phase with _ | l | ⟨l, f⟩ | f
    · simp [step, hphase] at h
    · rw [step, hphase] at h
      dsimp only at h
      by_cases hterminate : l.terminate = true
      · rw [if_pos hterminate] at h
        obtain ⟨rfl, rfl⟩ := Prod.ext_iff.mp (Option.some.inj h)
        exact .done l hphase hterminate
      rw [if_neg hterminate] at h
      have hspec := ClientLoop.iteration_spec (t.client.count == 0) (facing polls sendtos l)
      rcases hrun : ClientLoop.iteration (t.client.count == 0) (facing polls sendtos l) with
        ⟨u, l'⟩ | ⟨f, l'⟩
      · rw [hrun] at h
        obtain ⟨rfl, rfl⟩ := Prod.ext_iff.mp (Option.some.inj h)
        obtain ⟨hover, -⟩ | ⟨hopen, r, hr, hl'⟩ := hspec.ok hrun
        · exact absurd hover hterminate
        · exact .round l l' hphase hopen r hr hl'
      · rw [hrun] at h
        obtain ⟨hopen, hseq, hevent⟩ := hspec.error hrun
        cases f with
        | blocked => cases h
        | errorException e =>
          obtain ⟨rfl, rfl⟩ := Prod.ext_iff.mp (Option.some.inj h)
          exact .caught l l' _ hphase hopen hseq (.inl ⟨e, rfl⟩)
        | eventException =>
          obtain ⟨rfl, rfl⟩ := Prod.ext_iff.mp (Option.some.inj h)
          exact .caught l l' _ hphase hopen hseq
            (.inr ⟨rfl, fun hno => hevent rfl (uncancelled_of_any hno)⟩)
        | protocolException what =>
          obtain ⟨rfl, rfl⟩ := Prod.ext_iff.mp (Option.some.inj h)
          exact .uncaught l _ hphase
        | bug =>
          obtain ⟨rfl, rfl⟩ := Prod.ext_iff.mp (Option.some.inj h)
          exact .uncaught l _ hphase
        | outOfBounds =>
          obtain ⟨rfl, rfl⟩ := Prod.ext_iff.mp (Option.some.inj h)
          exact .uncaught l _ hphase
        | hang =>
          obtain ⟨rfl, rfl⟩ := Prod.ext_iff.mp (Option.some.inj h)
          exact .uncaught l _ hphase
    · simp [step, hphase] at h
    · simp [step, hphase] at h

/-- A signal for every thread that ends. -/
theorem step_drift (h : step e n t = some (n', t')) :
    (n' + t'.running : ℤ) = n + t.running + 0 := by
  cases step_spec h with
  | connected s buf rng hphase => simp [running, hphase]
  | failed f hphase hf => simp [running, finish, hphase]
  | round l l' hphase hterminate r hr hl' => simp [running, hphase]
  | done l hphase hterminate => simp [running, finish, hphase]
  | caught l l' f hphase hterminate hseq hcaught => simp [running, finish, hphase]
  | uncaught l f hphase => simp [running, hphase]

/-- The rounds that a thread has done. -/
def Counts (c : Client) : ClientThreadPhase → Prop
  | .connecting => c.terminate = false
  | .looping l => l.Counting c.count
  | .finished (some l) none => c.count ≠ 0 ∧ l.requestor.seq.toNat = c.count.toNat
  | .finished (some l) (some _) => c.count ≠ 0 → l.requestor.seq.toNat ≤ c.count.toNat
  | .finished none _ | .terminated _ => True

/-- What a thread keeps : its bookkeeping is done once, as it ends, and it counts its rounds. -/
structure Kept (t : ClientThread) : Prop where
  finishes : t.client.finishes + t.running = 1
  signals : t.client.signals + t.running = 1
  counts : Counts t.client t.phase

theorem Kept.finish (h : t.Kept) (hrunning : t.running = 1) {l : Option ClientLoop}
    {f : Option Fault} (hcounts : Counts t.client (.finished l f)) : (t.finish l f).Kept := by
  obtain ⟨hfinishes, hsignals, -⟩ := h
  refine ⟨?_, ?_, hcounts⟩
  · show t.client.finishes + 1 + 0 = 1
    omega
  · show t.client.signals + 1 + 0 = 1
    omega

/-- As long as a thread is not at its end, only its phase changes. -/
theorem Kept.phase (h : t.Kept) (hrunning : t.running = 1) {phase : ClientThreadPhase}
    (hphase : running { t with phase := phase } = 1) (hcounts : Counts t.client phase) :
    Kept { t with phase := phase } :=
  ⟨hphase.trans hrunning.symm ▸ h.finishes, hphase.trans hrunning.symm ▸ h.signals, hcounts⟩

theorem Kept.step (h : t.Kept) (hstep : step e n t = some (n', t')) : t'.Kept := by
  have hcounts := h.counts
  cases step_spec hstep with
  | connected s buf rng hphase =>
    rw [hphase] at hcounts
    refine h.phase (by simp [running, hphase]) rfl ⟨fun _ => hcounts, fun hne => ⟨?_, ?_⟩⟩
    · exact Nat.zero_add _
    · rw [Client.loop, show t.client.terminate = false from hcounts]
      simpa using hne
  | failed f hphase hf => exact h.finish (by simp [running, hphase]) trivial
  | round l l' hphase hterminate r hr hl' =>
    rw [hphase] at hcounts
    refine h.phase (by simp [running, hphase]) rfl ?_
    rw [hl']
    exact ClientLoop.Counting.countDown hcounts hterminate hr
  | done l hphase hterminate =>
    rw [hphase] at hcounts
    refine h.finish (by simp [running, hphase]) ?_
    have hne : t.client.count ≠ 0 := fun hzero => by
      rw [hcounts.infinite hzero] at hterminate
      cases hterminate
    obtain ⟨hsum, hiff⟩ := hcounts.counted hne
    refine ⟨hne, ?_⟩
    rw [← hsum, hiff.mp hterminate]
    rfl
  | caught l l' f hphase hterminate hseq hcaught =>
    rw [hphase] at hcounts
    refine h.finish (by simp [running, hphase]) fun hne => ?_
    obtain ⟨-, hnext, hle⟩ := hcounts.next hterminate hne
    rcases hseq with hseq | hseq
    · rw [hseq]
      exact hcounts.seq_le hne
    · rw [hseq, hnext]
      exact hle
  | uncaught l f hphase => exact h.phase (by simp [running, hphase]) rfl trivial

end ClientThread

/-! ## The main loop -/

namespace MainLoop

variable {time statusUpdateTime : Int32} {l l' : MainLoop} {r : Readable}

theorem expire_running (time statusUpdateTime : Int32) (l : MainLoop) :
    (l.expire time statusUpdateTime).runningClientThreads = l.runningClientThreads := by
  rw [expire]
  dsimp only
  split_ifs <;> rfl

/-- An iteration that gets past the alarm counts one client down for a signal. -/
theorem step_running (h : step time statusUpdateTime l r = some l') :
    0 < l.runningClientThreads ∧ l'.runningClientThreads =
      if r.clientTerminated = true ∧ l'.aborted = false then l.runningClientThreads - 1
      else l.runningClientThreads := by
  rw [step] at h
  split_ifs at h with hnone halarm
  · refine ⟨Int32.not_le.mp fun hle => hnone (.inr (.inl hle)), ?_⟩
    by_cases haborted : (l.expire time statusUpdateTime).aborted = true
    · simp only [haborted, if_true, Option.some.injEq] at h
      subst h
      rw [if_neg (by simp [haborted]), expire_running]
    · simp only [haborted, Bool.false_eq_true, if_false, Option.some.injEq] at h
      subst h
      simp [serve, expire_running, haborted]
  · have hopen : l.aborted = false := Bool.eq_false_iff.mpr fun haborted => hnone (.inl haborted)
    refine ⟨Int32.not_le.mp fun hle => hnone (.inr (.inl hle)), ?_⟩
    obtain rfl := Option.some.inj h
    simp [serve, hopen]

/-- With no alarm, an iteration is possible as long as something is readable. -/
theorem exists_step (haborted : l.aborted = false) (hrunning : 0 < l.runningClientThreads)
    (hr : r ≠ {}) (halarm : r.sigAlarm = false) :
    ∃ l', step time statusUpdateTime l r = some l' ∧ l'.aborted = false := by
  refine ⟨l.serve r false false, ?_, haborted⟩
  rw [step, if_neg, if_neg (by simp [halarm])]
  rintro (h | h | h | ⟨h, -⟩)
  · rw [haborted] at h
    cases h
  · exact Int32.not_le.mpr hrunning h
  · exact hr h
  · rw [halarm] at h
    cases h

end MainLoop

/-- A call of `terminateAll` is never taken back. -/
theorem MainLoop.step_terminations {time statusUpdateTime : Int32} {l l' : MainLoop} {r : Readable}
    (h : step time statusUpdateTime l r = some l') (hne : l.terminations ≠ []) :
    l'.terminations ≠ [] := by
  have hserve : ∀ (l : MainLoop) (terminate printStatus : Bool), l.terminations ≠ [] →
      (l.serve r terminate printStatus).terminations ≠ [] := by
    intro l terminate printStatus hl
    simp only [serve]
    split_ifs
    · simp
    · exact hl
  rw [step] at h
  split_ifs at h with hnone halarm
  · by_cases haborted : (l.expire time statusUpdateTime).aborted = true
    · simp only [haborted, if_true, Option.some.injEq] at h
      rw [← h, expire_terminations]
      exact hne
    · simp only [haborted, Bool.false_eq_true, if_false, Option.some.injEq] at h
      rw [← h]
      exact hserve _ _ _ (by rwa [expire_terminations])
  · rw [← Option.some.inj h]
    exact hserve _ _ _ hne

/-! ## The account -/

namespace ClientProgram

variable {time statusUpdateTime : Int32} {p p' : ClientProgram} {e : Event}

/-- The clients whose end is not yet signalled. -/
def unfinished (p : ClientProgram) : Nat :=
  (p.threads.map ClientThread.running).sum

/-- What a step can do. -/
theorem step_cases (h : step time statusUpdateTime p e = some p') :
    p.crashed = false ∧
      ((∃ i e' n threads, e = .thread i e' ∧
        (e'.cancelled = true → p.main.terminations ≠ []) ∧
        stepAt (ClientThread.step e') i p.evClientTerminated p.threads = some (n, threads) ∧
        p' = { p with evClientTerminated := n, threads := threads }) ∨
      ∃ sigInt stdin sigAlarm main, e = .main sigInt stdin sigAlarm ∧
        p.main.step time statusUpdateTime (p.readable sigInt stdin sigAlarm) = some main ∧
        p' = { p with
          main := main
          evClientTerminated :=
            if (p.readable sigInt stdin sigAlarm).clientTerminated = true ∧ main.aborted = false
            then p.evClientTerminated - 1 else p.evClientTerminated }) := by
  unfold step at h
  split_ifs at h with hnone
  refine ⟨Bool.eq_false_iff.mpr fun hcrashed => hnone (.inl hcrashed), ?_⟩
  cases e with
  | thread i e =>
    obtain ⟨⟨n, threads⟩, hstep, hp'⟩ := Option.bind_eq_some_iff.mp h
    refine .inl ⟨i, e, n, threads, rfl, fun hcancelled hnil => ?_, hstep,
      (Option.some.inj hp').symm⟩
    exact hnone (.inr (by simp [possible, hcancelled, hnil]))
  | main sigInt stdin sigAlarm =>
    obtain ⟨main, hstep, hp'⟩ := Option.bind_eq_some_iff.mp h
    exact .inr ⟨sigInt, stdin, sigAlarm, main, rfl, hstep, (Option.some.inj hp').symm⟩

/-- A client counts as running until its signal is read. -/
structure Accounted (p : ClientProgram) : Prop where
  running : p.main.runningClientThreads.toInt = p.evClientTerminated + p.unfinished
  threads : ∀ t ∈ p.threads, t.Kept

theorem Accounted.step (h : p.Accounted) (hstep : step time statusUpdateTime p e = some p') :
    p'.Accounted := by
  have hrunning := h.running
  rcases step_cases hstep with
    ⟨-, ⟨i, e', n, threads, -, -, hthread, rfl⟩ | ⟨sigInt, stdin, sigAlarm, main, -, hmain, rfl⟩⟩
  · have hdrift := stepAt_drift (fun _ _ _ => ClientThread.step_drift) hthread
    refine ⟨?_, ?_⟩
    · show p.main.runningClientThreads.toInt = n + ((threads.map ClientThread.running).sum : Nat)
      rw [hrunning, unfinished]
      omega
    · obtain ⟨t, t', ht, hstep', rfl⟩ := stepAt_eq_some_iff.mp hthread
      intro t'' ht''
      rcases List.mem_or_eq_of_mem_set ht'' with hmem | rfl
      · exact h.threads t'' hmem
      · exact (h.threads t (List.mem_of_getElem? ht)).step hstep'
  · obtain ⟨hpos, hmain'⟩ := MainLoop.step_running hmain
    refine ⟨?_, h.threads⟩
    show main.runningClientThreads.toInt = ((if _ then _ else _ : Nat) : Int) + p.unfinished
    rw [hmain']
    split_ifs with hread
    · have hev : 0 < p.evClientTerminated := of_decide_eq_true hread.1
      have hle : (1 : Int32) ≤ p.main.runningClientThreads := by
        rw [Int32.le_iff_toInt_le]
        exact Int32.lt_iff_toInt_lt.mp hpos
      rw [Int32.toInt_sub_of_le _ _ (by decide) hle, hrunning]
      show (p.evClientTerminated + p.unfinished - 1 : Int) = _
      rw [Int.natCast_sub hev]
      omega
    · exact hrunning

/-- Why the thread of a client ended : no connection, all rounds done, a failure of the socket,
a byte limit, or `terminateAll`. -/
def Reasoned (terminations : List TerminateAll) (t : ClientThread) : Prop :=
  match t.phase with
  | .finished none f => f = none ∨ ∃ what, f = some (.errorException what)
  | .finished (some l) (some f) => (∃ what, f = .errorException what) ∨
      f = .eventException ∧ ((∃ d, l.requestor.Reached d) ∨ terminations ≠ [])
  | _ => True

theorem Reasoned.mono {terminations terminations' : List TerminateAll} {t : ClientThread}
    (h : Reasoned terminations t) (hle : terminations ≠ [] → terminations' ≠ []) :
    Reasoned terminations' t := by
  unfold Reasoned at h ⊢
  split at h
  · exact h
  · exact h.imp_right (And.imp_right (Or.imp_right hle))
  · trivial

theorem reasoned_step (h : ∀ t ∈ p.threads, Reasoned p.main.terminations t)
    (hstep : step time statusUpdateTime p e = some p') :
    ∀ t ∈ p'.threads, Reasoned p'.main.terminations t := by
  rcases step_cases hstep with ⟨-, ⟨i, e', n, threads, -, hcancelled, hthread, rfl⟩ |
    ⟨sigInt, stdin, sigAlarm, main, -, hmain, rfl⟩⟩
  · obtain ⟨t, t', ht, hstep', rfl⟩ := stepAt_eq_some_iff.mp hthread
    intro t'' ht''
    rcases List.mem_or_eq_of_mem_set ht'' with hmem | rfl
    · exact h t'' hmem
    · cases ClientThread.step_spec hstep' with
      | connected s buf rng hphase => trivial
      | failed f hphase hf => exact hf
      | round l l' hphase hterminate r hr hl' => trivial
      | done l hphase hterminate => trivial
      | caught l l' f hphase hterminate hseq hcaught =>
        refine hcaught.imp_right (And.imp_right fun hlimit => ?_)
        by_cases hc : e'.cancelled = true
        · exact .inr (hcancelled hc)
        · exact .inl (hlimit (Bool.eq_false_iff.mpr hc))
      | uncaught l f hphase => trivial
  · exact fun t ht => (h t ht).mono (MainLoop.step_terminations hmain)

/-- A client before its thread runs. -/
def Fresh (c : Client) : Prop :=
  c.terminate = false ∧ c.finishes = 0 ∧ c.signals = 0

theorem accounted_start (time statusUpdateTime : Int32) {clients : List Client}
    (hfresh : ∀ c ∈ clients, Fresh c) (hlen : clients.length < 2 ^ 31) :
    (start time statusUpdateTime clients).Accounted := by
  refine ⟨?_, fun t ht => ?_⟩
  · have hsum : (start time statusUpdateTime clients).unfinished = clients.length := by
      rw [unfinished, start, List.map_map]
      exact (List.sum_eq_card_nsmul _ 1 (by simp [ClientThread.running])).trans (by simp)
    rw [hsum]
    show (Int32.ofNat clients.length).toInt = ((0 : Nat) : Int) + clients.length
    rw [Int32.toInt_ofNat_of_lt hlen]
    omega
  · obtain ⟨c, hc, rfl⟩ := List.mem_map.mp ht
    obtain ⟨hterminate, hfinishes, hsignals⟩ := hfresh c hc
    exact ⟨by rw [hfinishes]; rfl, by rw [hsignals]; rfl, hterminate⟩

/-! ## Whole runs -/

theorem reasoned_start (time statusUpdateTime : Int32) (clients : List Client) :
    ∀ t ∈ (start time statusUpdateTime clients).threads,
      Reasoned (start time statusUpdateTime clients).main.terminations t := by
  intro t ht
  obtain ⟨c, -, rfl⟩ := List.mem_map.mp ht
  trivial

theorem run_kept {clients : List Client} (hfresh : ∀ c ∈ clients, Fresh c)
    (hlen : clients.length < 2 ^ 31) {events : List Event}
    (hrun : events.foldlM (step time statusUpdateTime) (start time statusUpdateTime clients) =
      some p) : p.Accounted ∧ ∀ t ∈ p.threads, Reasoned p.main.terminations t :=
  foldlM_invariant (I := fun p => p.Accounted ∧ ∀ t ∈ p.threads, Reasoned p.main.terminations t)
    (fun _ _ _ hstep hI => ⟨hI.1.step hstep, reasoned_step hI.2 hstep⟩) events hrun
    ⟨accounted_start time statusUpdateTime hfresh hlen,
      reasoned_start time statusUpdateTime clients⟩

theorem running_eq_zero_iff (t : ClientThread) :
    t.running = 0 ↔ ∃ l f, t.phase = .finished l f := by
  unfold ClientThread.running
  split
  · exact ⟨fun _ => ⟨_, _, by assumption⟩, fun _ => rfl⟩
  · rename_i h
    exact ⟨fun hne => absurd hne (by decide), fun ⟨l, f, hphase⟩ => absurd hphase (h l f)⟩

theorem unfinished_eq_zero_iff (p : ClientProgram) :
    p.unfinished = 0 ↔ ∀ t ∈ p.threads, ∃ l f, t.phase = .finished l f := by
  rw [unfinished, List.sum_eq_zero_iff]
  simp only [List.mem_map, forall_exists_index, and_imp, forall_apply_eq_imp_iff₂,
    running_eq_zero_iff]

/-- A client that is to send one request, and wants no response. -/
def single : Client :=
  ⟨⟨40, 40, 0, 0, 0, false⟩, -1, -1, 1, false, 0, 0⟩

/-- It does so, while the main loop reads an alarm. -/
def singleRun : List Event :=
  [.thread 0 (.connect (.ok (some ⟨.stream [], none, [], [], [], 0, []⟩)) (List.replicate 64 0)
      fun _ => 0),
    .main false false true, .thread 0 (.round [] [.accepted 100]), .thread 0 (.round [] [])]

theorem exists_singleRun : ∃ p, singleRun.foldlM (step 0 3) (start 0 3 [single]) = some p ∧
    p.crashed = false ∧ (∃ t, t ∈ p.threads) ∧
    ∀ t ∈ p.threads, ∃ l f, t.phase = .finished l f := by
  have hrun : (singleRun.foldlM (step 0 3) (start 0 3 [single])).map
      (fun p => (p.crashed, p.threads.map ClientThread.running)) = some (false, [0]) := by
    decide +kernel
  obtain ⟨p, hrun, hp⟩ := Option.map_eq_some_iff.mp hrun
  obtain ⟨hcrashed, hrunning⟩ := Prod.ext_iff.mp hp
  have hlen : p.threads.length = 1 := by
    rw [← List.length_map (f := ClientThread.running), show p.threads.map _ = [0] from hrunning]
    rfl
  refine ⟨p, hrun, hcrashed, List.exists_mem_of_length_pos (by omega), fun t ht => ?_⟩
  rw [← running_eq_zero_iff]
  have hmem : t.running ∈ p.threads.map ClientThread.running := List.mem_map_of_mem ht
  rw [show p.threads.map _ = [0] from hrunning] at hmem
  exact List.mem_singleton.mp hmem

theorem fresh_single : ∀ c ∈ [single], Fresh c := by
  simp [Fresh, single]

/-- The main loop is at its end exactly if all threads are, and all their signals are read. Each
thread has done its bookkeeping once if it is at its end, and not before. -/
theorem run_accounted {clients : List Client} (hfresh : ∀ c ∈ clients, Fresh c)
    (hlen : clients.length < 2 ^ 31) {events : List Event}
    (hrun : events.foldlM (step time statusUpdateTime) (start time statusUpdateTime clients) =
      some p) :
    (p.main.runningClientThreads ≤ 0 ↔
      p.evClientTerminated = 0 ∧ ∀ t ∈ p.threads, ∃ l f, t.phase = .finished l f) ∧
      ∀ t ∈ p.threads, t.client.finishes + t.running = 1 ∧ t.client.signals + t.running = 1 := by
  obtain ⟨⟨hrunning, hkept⟩, -⟩ := run_kept hfresh hlen hrun
  refine ⟨?_, fun t ht => ⟨(hkept t ht).finishes, (hkept t ht).signals⟩⟩
  rw [Int32.le_iff_toInt_le, hrunning, ← unfinished_eq_zero_iff, Int32.toInt_zero]
  omega

/-- Behind it the main loop reads the signal of its thread. -/
theorem run_accounted_single : ∃ p,
    (singleRun ++ [Event.main false false false]).foldlM (step 0 3) (start 0 3 [single]) =
      some p ∧
    (p.main.runningClientThreads ≤ 0 ↔
      p.evClientTerminated = 0 ∧ ∀ t ∈ p.threads, ∃ l f, t.phase = .finished l f) ∧
    ∀ t ∈ p.threads, t.client.finishes + t.running = 1 ∧ t.client.signals + t.running = 1 := by
  have hsome : ((singleRun ++ [Event.main false false false]).foldlM (step 0 3)
      (start 0 3 [single])).isSome = true := by
    decide +kernel
  obtain ⟨p, hrun⟩ := Option.isSome_iff_exists.mp hsome
  exact ⟨p, hrun, run_accounted fresh_single (by decide) hrun⟩

/-- With all threads at their end, a step that does not end the process reads a signal. -/
theorem step_drained (h : p.unfinished = 0)
    (hstep : step time statusUpdateTime p e = some p') (hp' : p'.crashed = false) (hp : p.Accounted) :
    p'.unfinished = 0 ∧ p'.evClientTerminated + 1 = p.evClientTerminated := by
  rcases step_cases hstep with ⟨-, ⟨i, e', n, threads, -, -, hthread, rfl⟩ |
    ⟨sigInt, stdin, sigAlarm, main, -, hmain, rfl⟩⟩
  · obtain ⟨t, t', ht, hstep', rfl⟩ := stepAt_eq_some_iff.mp hthread
    obtain ⟨l, f, hphase⟩ := (unfinished_eq_zero_iff p).mp h t (List.mem_of_getElem? ht)
    cases ClientThread.step_spec hstep' with
    | connected s buf rng hphase' => rw [hphase] at hphase'; cases hphase'
    | failed f hphase' hf => rw [hphase] at hphase'; cases hphase'
    | round l l' hphase' hterminate r hr hl' => rw [hphase] at hphase'; cases hphase'
    | done l hphase' hterminate => rw [hphase] at hphase'; cases hphase'
    | caught l l' f hphase' hterminate hseq hcaught => rw [hphase] at hphase'; cases hphase'
    | uncaught l f hphase' => rw [hphase] at hphase'; cases hphase'
  · refine ⟨h, ?_⟩
    have hpos := Int32.lt_iff_toInt_lt.mp (MainLoop.step_running hmain).1
    have hrunning := hp.running
    rw [h] at hrunning
    rw [Int32.toInt_zero] at hpos
    have hev : 0 < p.evClientTerminated := by omega
    have haborted : main.aborted = false := by
      rw [crashed, Bool.or_eq_false_iff] at hp'
      exact hp'.1
    show (if _ then _ else _) + 1 = _
    rw [if_pos ⟨decide_eq_true hev, haborted⟩]
    omega

theorem crashed_of_step (h : step time statusUpdateTime p e = some p') : p.crashed = false :=
  (step_cases h).1

/-- Once all threads are at their end, the main loop reads one signal after the other, whatever
else is readable. -/
theorem drained_run : ∀ (more : List Event) {p p' : ClientProgram}, p.Accounted →
    p.unfinished = 0 → more.foldlM (step time statusUpdateTime) p = some p' →
    p'.crashed = false → more.length + p'.evClientTerminated = p.evClientTerminated
  | [], p, p', _, _, hrun, _ => by
    obtain rfl := Option.some.inj hrun
    exact Nat.zero_add _
  | e :: more, p, p', hp, h, hrun, hcrashed => by
    rw [List.foldlM_cons] at hrun
    obtain ⟨p₁, hstep, hrest⟩ := Option.bind_eq_some_iff.mp hrun
    have hopen : p₁.crashed = false := by
      cases more with
      | nil =>
        obtain rfl := Option.some.inj hrest
        exact hcrashed
      | cons e' more =>
        rw [List.foldlM_cons] at hrest
        obtain ⟨p₂, hstep', -⟩ := Option.bind_eq_some_iff.mp hrest
        exact crashed_of_step hstep'
    obtain ⟨hzero, hread⟩ := step_drained h hstep hopen hp
    have hlen := drained_run more (hp.step hstep) hzero hrest hcrashed
    rw [List.length_cons]
    omega

/-- A signal that is there can be read. -/
theorem exists_step_main (hp : p.Accounted) (hcrashed : p.crashed = false)
    (hev : 0 < p.evClientTerminated) :
    ∃ p', step time statusUpdateTime p (.main false false false) = some p' ∧
      p'.crashed = false ∧ p'.evClientTerminated + 1 = p.evClientTerminated ∧
      p'.unfinished = p.unfinished := by
  have hsplit := hcrashed
  rw [crashed, Bool.or_eq_false_iff] at hsplit
  have hrunning : 0 < p.main.runningClientThreads := by
    rw [Int32.lt_iff_toInt_lt, hp.running, Int32.toInt_zero]
    omega
  have hreadable : p.readable false false false = ⟨false, true, false, false⟩ := by
    simp [readable, hev]
  have hmainStep : ∃ main, p.main.step time statusUpdateTime (p.readable false false false) =
      some main ∧ main.aborted = false :=
    MainLoop.exists_step hsplit.1 hrunning (by rw [hreadable]; decide) (by rw [hreadable])
  obtain ⟨main, hmain, haborted⟩ := hmainStep
  refine ⟨{ p with main := main, evClientTerminated := p.evClientTerminated - 1 }, ?_, ?_, ?_, rfl⟩
  · have hpossible : p.possible (.main false false false) = true := rfl
    simp only [step, hcrashed, hpossible, hmain, Option.bind_eq_bind, Option.bind_some]
    simp [haborted, hreadable]
  · simp [crashed, haborted, hsplit.2]
  · exact Nat.sub_add_cancel hev

theorem exists_drained_run : ∀ (k : Nat) {p : ClientProgram}, p.Accounted → p.crashed = false →
    p.evClientTerminated = k → ∃ (more : List Event) (p' : ClientProgram), more.length = k ∧
      more.foldlM (step time statusUpdateTime) p = some p' ∧ p'.Accounted ∧
      p'.evClientTerminated = 0 ∧ p'.unfinished = p.unfinished
  | 0, p, hp, _, hev => ⟨[], p, rfl, rfl, hp, hev, rfl⟩
  | k + 1, p, hp, hcrashed, hev => by
    obtain ⟨p₁, hstep, hopen, hread, hsame⟩ := exists_step_main hp hcrashed (by omega)
    obtain ⟨more, p', hlen, hrun, hp', hzero, hsame'⟩ :=
      exists_drained_run k (hp.step hstep) hopen (by omega)
    refine ⟨.main false false false :: more, p', by rw [List.length_cons, hlen], ?_, hp', hzero,
      hsame'.trans hsame⟩
    rw [List.foldlM_cons, hstep]
    exact hrun

/-- Once all threads are at their end, the main loop ends within as many iterations as there are
signals left : it can, and it cannot take more. -/
theorem run_drained {clients : List Client} (hfresh : ∀ c ∈ clients, Fresh c)
    (hlen : clients.length < 2 ^ 31) {events : List Event}
    (hrun : events.foldlM (step time statusUpdateTime) (start time statusUpdateTime clients) =
      some p) (hcrashed : p.crashed = false)
    (hall : ∀ t ∈ p.threads, ∃ l f, t.phase = .finished l f) :
    (∃ (more : List Event) (p' : ClientProgram), more.length = p.evClientTerminated ∧
      more.foldlM (step time statusUpdateTime) p = some p' ∧
      p'.main.runningClientThreads ≤ 0) ∧
    ∀ (more : List Event) (p' : ClientProgram),
      more.foldlM (step time statusUpdateTime) p = some p' → p'.crashed = false →
      more.length + p'.evClientTerminated = p.evClientTerminated := by
  have hp := (run_kept hfresh hlen hrun).1
  have hzero := (unfinished_eq_zero_iff p).mpr hall
  refine ⟨?_, fun more p' hmore hp' => drained_run more hp hzero hmore hp'⟩
  obtain ⟨more, p', hmore, hrun', hp', hev, hsame⟩ := exists_drained_run _ hp hcrashed rfl
  refine ⟨more, p', hmore, hrun', ?_⟩
  rw [Int32.le_iff_toInt_le, hp'.running, hev, hsame, hzero]
  decide

theorem run_drained_single : ∃ p, singleRun.foldlM (step 0 3) (start 0 3 [single]) = some p ∧
    (∃ (more : List Event) (p' : ClientProgram), more.length = p.evClientTerminated ∧
      more.foldlM (step 0 3) p = some p' ∧ p'.main.runningClientThreads ≤ 0) ∧
    ∀ (more : List Event) (p' : ClientProgram),
      more.foldlM (step 0 3) p = some p' → p'.crashed = false →
      more.length + p'.evClientTerminated = p.evClientTerminated := by
  obtain ⟨p, hrun, hcrashed, -, hall⟩ := exists_singleRun
  exact ⟨p, hrun, run_drained fresh_single (by decide) hrun hcrashed hall⟩

/-- Why clients end, and how many rounds they do. -/
theorem run_reasons {clients : List Client} (hfresh : ∀ c ∈ clients, Fresh c)
    (hlen : clients.length < 2 ^ 31) {events : List Event}
    (hrun : events.foldlM (step time statusUpdateTime) (start time statusUpdateTime clients) =
      some p) {t : ClientThread} (ht : t ∈ p.threads) :
    (∀ l, t.phase = .looping l → t.client.count ≠ 0 →
      l.requestor.seq.toNat ≤ t.client.count.toNat) ∧
    (∀ f, t.phase = .finished none f → f = none ∨ ∃ what, f = some (.errorException what)) ∧
    (∀ l, t.phase = .finished (some l) none →
      t.client.count ≠ 0 ∧ l.requestor.seq.toNat = t.client.count.toNat) ∧
    ∀ l f, t.phase = .finished (some l) (some f) →
      (t.client.count ≠ 0 → l.requestor.seq.toNat ≤ t.client.count.toNat) ∧
      ((∃ what, f = .errorException what) ∨ f = .eventException ∧
        ((∃ d, l.requestor.Reached d) ∨ p.main.terminations ≠ [])) := by
  obtain ⟨hp, hreasoned⟩ := run_kept hfresh hlen hrun
  have hcounts := (hp.threads t ht).counts
  have hreason := hreasoned t ht
  refine ⟨fun l hphase hne => ?_, fun f hphase => ?_, fun l hphase => ?_, fun l f hphase => ?_⟩
  · rw [hphase] at hcounts
    exact ClientLoop.Counting.seq_le hcounts hne
  · rw [Reasoned, hphase] at hreason
    exact hreason
  · rw [hphase] at hcounts
    exact hcounts
  · rw [Reasoned, hphase] at hreason
    rw [hphase] at hcounts
    exact ⟨hcounts, hreason⟩

theorem run_reasons_single : ∃ (p : ClientProgram) (t : ClientThread),
    singleRun.foldlM (step 0 3) (start 0 3 [single]) = some p ∧ t ∈ p.threads ∧
    (∀ l, t.phase = .looping l → t.client.count ≠ 0 →
      l.requestor.seq.toNat ≤ t.client.count.toNat) ∧
    (∀ f, t.phase = .finished none f → f = none ∨ ∃ what, f = some (.errorException what)) ∧
    (∀ l, t.phase = .finished (some l) none →
      t.client.count ≠ 0 ∧ l.requestor.seq.toNat = t.client.count.toNat) ∧
    ∀ l f, t.phase = .finished (some l) (some f) →
      (t.client.count ≠ 0 → l.requestor.seq.toNat ≤ t.client.count.toNat) ∧
      ((∃ what, f = .errorException what) ∨ f = .eventException ∧
        ((∃ d, l.requestor.Reached d) ∨ p.main.terminations ≠ [])) := by
  obtain ⟨p, hrun, -, ⟨t, ht⟩, -⟩ := exists_singleRun
  exact ⟨p, t, hrun, ht, run_reasons fresh_single (by decide) hrun ht⟩

end ClientProgram

end NetBabbler
