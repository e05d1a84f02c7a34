import NetBabbler.Keeping
import NetBabbler.Requestor
import NetBabbler.Responder

/-!
# Threads

The functions that the threads of both sides run : `cResponderThread::connectionThreadFunc`
and `cClient::threadFunc`, with the exceptions that each of them catches, and the
bookkeeping after the last round. A run of `n` rounds shows what has become of the thread
(`Progress`); an exception that nobody catches ends the process.

`threads_caught` : where every message that arrives is one that is expected, neither
function lets an exception out, the bookkeeping is done exactly once by the time the
function returns, and it does return where the connection fails sooner or later. Before a
kernel that hands over all bytes an exception gets out everywhere else.
-/

namespace NetBabbler

open EStateM BabblerProtocol

/-- What has become of a thread's function. -/
inductive Progress where
  | running
  /-- In a system call. -/
  | waiting
  | returned
  /-- The exception got out, which is `std::terminate`. -/
  | terminated (f : Fault)
  deriving DecidableEq

/-! ## The server's side -/

/-- What a server reads of a `cResponderThread`. -/
structure ResponderThread where
  /-- `m_finished`. -/
  finished : Bool
  /-- How often `threadLimit.post ()` was called. -/
  posts : Nat
  deriving DecidableEq

namespace ResponderThread

/-- `connectionThreadFunc` within `n` rounds. The buffer comes uninitialised from `new`. -/
def connectionThreadFunc (t : ResponderThread) (isConnectionless : Bool) (s : Socket)
    (buf : List UInt8) (n : Nat) : Progress × ResponderThread :=
  match times (Responder.doJob isConnectionless) n (.init s buf) with
  | .ok _ _ => (.running, t)
  | .error .blocked _ => (.waiting, t)
  | .error (.errorException _) _ => (.returned, { finished := true, posts := t.posts + 1 })
  | .error f _ => (.terminated f, t)

/-- What is due of `connectionThreadFunc` from `t` : its bookkeeping, once, as it returns. -/
def Kept (t : ResponderThread) : Progress × ResponderThread → Prop
  | (.running, t') | (.waiting, t') => t' = t
  | (.returned, t') => t'.finished = true ∧ t'.posts = t.posts + 1
  | (.terminated _, _) => False

end ResponderThread

/-! ## The client's side -/

/-- What the loop of `threadFunc` works on. -/
structure ClientLoop where
  requestor : Requestor
  terminate : Bool
  count : UInt32

namespace ClientLoop

/-- A call on the requestor. -/
def onRequestor {α : Type} : EStateM Fault Requestor α → EStateM Fault ClientLoop α :=
  zoom requestor fun r c => { c with requestor := r }

/-- `if (!infinite && --m_count == 0) m_terminate = true`. -/
def countDown (infinite : Bool) (c : ClientLoop) : ClientLoop :=
  if infinite then c
  else { c with count := c.count - 1, terminate := c.terminate || c.count - 1 == 0 }

/-- `while (!m_terminate)`, once. -/
def iteration (infinite : Bool) : EStateM Fault ClientLoop Unit := do
  let c ← get
  if c.terminate = true then pure ()
  else do
    onRequestor Requestor.doJob
    modify (countDown infinite)

end ClientLoop

/-- `cClient`, and what its thread does for it once. -/
structure Client where
  settings : ComSettings
  sendLimit : Int64
  recvLimit : Int64
  count : UInt32
  terminate : Bool
  /-- How often `m_finishedTime` was stored. -/
  finishes : Nat
  /-- How often `m_evTerminated.send ()` was called. -/
  signals : Nat
  deriving DecidableEq

namespace Client

/-- What follows the handlers of `threadFunc`. -/
def finish (c : Client) : Client :=
  { c with finishes := c.finishes + 1, signals := c.signals + 1 }

/-- The loop of `threadFunc` at its start, on the connection's socket. -/
def loop (c : Client) (s : Socket) (buf : List UInt8) (rng : Nat → Nat) : ClientLoop where
  requestor := .init s buf c.settings c.sendLimit c.recvLimit rng
  terminate := c.terminate
  count := c.count

/-- `threadFunc` within `n` rounds. `connection` is what becomes of connecting : an exception,
no valid socket, or a socket. -/
def threadFunc (c : Client) (connection : Except SocketError (Option Socket)) (buf : List UInt8)
    (rng : Nat → Nat) (n : Nat) : Progress × Client :=
  match connection with
  | .error _ | .ok none => (.returned, c.finish)
  | .ok (some s) =>
    match times (ClientLoop.iteration (c.count == 0)) n (c.loop s buf rng) with
    | .ok _ l =>
      let c' := { c with terminate := l.terminate, count := l.count }
      if l.terminate = true then (.returned, c'.finish) else (.running, c')
    | .error f l =>
      let c' := { c with terminate := l.terminate, count := l.count }
      match f with
      | .blocked => (.waiting, c')
      | .errorException _ | .eventException => (.returned, c'.finish)
      | f => (.terminated f, c')

/-- What is due of `threadFunc` from `c` : its bookkeeping, once, as it returns. -/
def Kept (c : Client) : Progress × Client → Prop
  | (.running, c') | (.waiting, c') => c'.finishes = c.finishes ∧ c'.signals = c.signals
  | (.returned, c') => c'.finishes = c.finishes + 1 ∧ c'.signals = c.signals + 1
  | (.terminated _, _) => False

end Client

/-! ## Rounds on expected messages -/

namespace BabblerProtocol

variable {s s' : BabblerProtocol} {P : Message → Prop}

/-- What is pending, as soon as it is as long as a header, begins with a message of `P`, and no
part of a header alone is buffered. -/
def Awaits (s : BabblerProtocol) (P : Message → Prop) : Prop :=
  s.Whole ∧ (24 ≤ s.pending.length → ∃ m, P m ∧ m.Matches s.pending)

/-- On a message that is expected, only the socket fails. -/
theorem Awaits.ofSocket {f : Fault} (h : s.Awaits P) (hf : s.ReceiveFault P f) : f.OfSocket := by
  have hnone : ¬(24 ≤ s.pending.length ∧ ∀ m, P m → ¬m.Matches s.pending) := by
    rintro ⟨hlen, hnot⟩
    obtain ⟨m, hP, hm⟩ := h.2 hlen
    exact hnot m hP hm
  cases f with
  | bug =>
    obtain ⟨hlo, hhi⟩ := hf
    have hwhole := h.1
    unfold Whole at hwhole
    omega
  | protocolException what => exact hnone hf
  | outOfBounds => exact hnone hf
  | hang => exact hf
  | _ => trivial

/-- A socket that serves all bytes fails only where what is pending is a part of a message. -/
theorem Awaits.of_fault {f : Fault} (hwhole : s.Whole) (hf : s.ReceiveFault P f)
    (hsocket : f.OfSocket) (hserves : s.socket.Serves s.socket.incoming.length)
    (hP : ∀ m : Message, ¬m.encode <+: s.pending → P m) : s.Awaits P := by
  have hcut : Unfinished s.pending := by
    cases f with
    | errorException what => exact hf hserves
    | eventException => exact hf hserves
    | blocked => exact hf hserves
    | _ => exact hsocket.elim
  refine ⟨hwhole, fun hlen => ?_⟩
  rcases hcut with hshort | ⟨m, hpre, hlt⟩
  · omega
  · exact ⟨m, hP m fun hm => not_unfinished hm (.inr ⟨m, hpre, hlt⟩), .inr hpre⟩

/-- Unless an exception gets out, a call that takes a message of `P` found what it awaits. -/
theorem awaits_of_took {α : Type} {prog : EStateM Fault BabblerProtocol α} {spare : Nat}
    (hs : s.Supplied spare) (hP : ∀ m : Message, ¬m.encode <+: s.pending → P m)
    (hbug : ¬s.Whole → Ends prog (fun _ _ => False) (fun f _ => f = .bug) s)
    (hprog : Ends prog (fun _ s' => ∃ m, P m ∧ s.Took m s') (fun f _ => s.ReceiveFault P f) s) :
    Ends prog (fun _ _ => s.Awaits P) (fun f _ => f.OfSocket → s.Awaits P) s := by
  by_cases hwhole : s.Whole
  · refine hprog.mono ?_ fun f _ hf hsocket => .of_fault hwhole hf hsocket hs.serving hP
    rintro _ s' ⟨m, hm, htook⟩
    exact ⟨hwhole, fun _ => ⟨m, hm, .inl htook.isPrefix⟩⟩
  · refine (hbug hwhole).mono (fun _ _ he => he.elim) ?_
    rintro f _ rfl hsocket
    exact hsocket.elim

theorem recvRequest_awaits {spare : Nat} (hs : s.Supplied spare) :
    Ends recvRequest (fun _ _ => s.Awaits s.IsRequest)
      (fun f _ => f.OfSocket → s.Awaits s.IsRequest) s := by
  refine awaits_of_took hs (fun m hnot hm => (hnot hm).elim) (fun hwhole => ?_) ?_
  · simp only [recvRequest, ends_bind]
    exact (receive_of_not_whole hwhole).mono (fun _ _ he => he.elim) fun _ _ he => he
  · refine (recvRequest_spec hs.sound hs.stream).mono ?_ fun _ _ hf => hf
    rintro _ s' ⟨m, hreq, -, htook⟩
    exact ⟨m, fun _ => hreq, htook⟩

theorem recvResponse_awaits {spare : Nat} (hs : s.Supplied spare) (expSeq : UInt64) :
    Ends (recvResponse expSeq) (fun _ _ => s.Awaits (s.IsResponse expSeq))
      (fun f _ => f.OfSocket → s.Awaits (s.IsResponse expSeq)) s := by
  refine awaits_of_took hs (fun m hnot hm => (hnot hm).elim) (fun hwhole => ?_) ?_
  · simp only [recvResponse, ends_bind]
    exact (receive_of_not_whole hwhole).mono (fun _ _ he => he.elim) fun _ _ he => he
  · refine (recvResponse_spec hs.sound hs.stream expSeq).mono ?_ fun _ _ hf => hf
    rintro _ s' ⟨m, hresp, htook⟩
    exact ⟨m, fun _ => hresp, htook⟩

theorem Took.length_pending {m : Message} (h : s.Took m s') :
    s'.pending.length + 24 ≤ s.pending.length := by
  have hlen := congrArg List.length h.pending
  rw [List.length_append, Message.length_encode] at hlen
  omega

theorem Sent.length_pending {dest : Option SockAddr} {bs : List UInt8} {n : Nat}
    (h : s.Sent dest bs n s') (hs : s.Sound) : s'.pending.length = s.pending.length := by
  rw [BabblerProtocol.length_pending hs, BabblerProtocol.length_pending (h.sound hs),
    h.bufContentSize, h.writes.incoming]

end BabblerProtocol

namespace Responder

/-- One round on an expected request. -/
theorem doJob_awaits {s : BabblerProtocol} (hs : s.Sound) (hstream : s.socket.IsStream)
    (h : s.Awaits s.IsRequest) (isConnectionless : Bool) :
    Ends (doJob isConnectionless)
      (fun _ s' => s'.Sound ∧ s'.socket.IsStream ∧ s'.pending.length + 24 ≤ s.pending.length)
      (fun f _ => f.OfSocket) s := by
  simp only [doJob, ends_bind, ends_get, ends_pure]
  refine (recvRequest_spec hs hstream).mono ?_ fun f _ hf => h.ofSocket hf
  rintro _ s₁ ⟨m, -, rfl, htook⟩
  refine (sendResponse_spec htook.sound.length htook.sound.room m.seq m.options _ rfl).mono ?_
    fun _ _ hf => hf.1
  rintro _ s₂ ⟨hsent, -⟩
  refine ⟨hsent.sound htook.sound, hsent.stream htook.stream, ?_⟩
  rw [hsent.length_pending htook.sound]
  exact htook.length_pending

/-- Unless an exception gets out, the round was one on an expected request. -/
theorem doJob_awaited {s : BabblerProtocol} {spare : Nat} (hs : s.Supplied spare)
    (isConnectionless : Bool) :
    Ends (doJob isConnectionless) (fun _ s' => s'.Supplied spare ∧ s.Awaits s.IsRequest)
      (fun f _ => f.OfSocket → s.Awaits s.IsRequest) s := by
  simp only [doJob, ends_bind, ends_get, ends_pure]
  refine ((recvRequest_spec hs.sound hs.stream).and (recvRequest_awaits hs)).mono ?_
    fun _ _ hf => hf.2
  rintro _ s₁ ⟨⟨m, -, rfl, htook⟩, hawaits⟩
  refine (sendResponse_spec htook.sound.length htook.sound.room m.seq m.options _ rfl).mono ?_
    fun _ _ _ _ => hawaits
  rintro _ s₂ ⟨hsent, -⟩
  exact ⟨hsent.supplied (htook.supplied hs), hawaits⟩

theorem keeps_doJob {J : Socket → Prop} {F : Fault → Prop} (hr : Receives J F) (hs : Sends J F)
    (isConnectionless : Bool) : Keeps (fun s => J s.socket) F (doJob isConnectionless) :=
  .bind hr.recvRequest fun _ => .bind keeps_get fun _ => .bind (hs.sendResponse _ _ _) fun _ =>
    keeps_pure _

end Responder

/-- The rounds of the thread are on expected requests. -/
def ResponderThread.OnRequests (isConnectionless : Bool) (s : Socket) (buf : List UInt8)
    (n : Nat) : Prop :=
  Along (Responder.doJob isConnectionless) (fun s => s.Awaits s.IsRequest) n (.init s buf)

/-- The thread of a connection on expected requests. -/
theorem ResponderThread.connectionThreadFunc_kept {s : Socket} (hstream : s.IsStream)
    (huncancelled : s.Uncancelled) {buf : List UInt8} (h64 : 64 ≤ buf.length)
    (hbuf : buf.length < 2 ^ 32) {isConnectionless : Bool} {n : Nat}
    (hawaits : OnRequests isConnectionless s buf n) (t : ResponderThread) :
    t.Kept (t.connectionThreadFunc isConnectionless s buf n) ∧
      (s.Closing → s.incoming.length < 24 * n →
        (t.connectionThreadFunc isConnectionless s buf n).1 = .returned) := by
  have hpending : (BabblerProtocol.init s buf).pending = s.incoming := by
    simp [pending, unread, BabblerProtocol.init]
  have hrounds := ends_times_count (E := Fault.OfSocket)
    (I := fun k s' => s'.Sound ∧ s'.socket.IsStream ∧
      s'.pending.length + 24 * k ≤ s.incoming.length)
    (fun k s' hI hP => (Responder.doJob_awaits hI.1 hI.2.1 hP isConnectionless).mono
      (fun _ s'' h => ⟨h.1, h.2.1, by have := h.2.2; have := hI.2.2; omega⟩) fun _ _ hf => hf)
    n (k := 0) ⟨sound_init h64 hbuf, hstream, by rw [hpending]; omega⟩ hawaits
  have hevent := (Responder.keeps_doJob receives_uncancelled sends_uncancelled
    isConnectionless).times n (.init s buf) huncancelled
  have hblocked : s.Closing → _ := fun hclosing => (Responder.keeps_doJob receives_closing
    sends_closing isConnectionless).times n (.init s buf) hclosing
  unfold connectionThreadFunc
  cases hrun : times (Responder.doJob isConnectionless) n (.init s buf) with
  | ok _ s' =>
    have hcount := (hrounds.ok hrun).2.2
    exact ⟨rfl, fun _ hlt => by omega⟩
  | error f s' =>
    have hsocket := hrounds.error hrun
    cases f with
    | errorException what => exact ⟨⟨rfl, rfl⟩, fun _ _ => rfl⟩
    | eventException => exact (hevent.error hrun rfl).elim
    | blocked => exact ⟨rfl, fun hclosing _ => ((hblocked hclosing).error hrun rfl).elim⟩
    | _ => exact hsocket.elim

/-- A thread that lets no exception out, before a kernel that serves all bytes, was on expected
requests. -/
theorem ResponderThread.along_awaits {s : Socket} (hstream : s.IsStream)
    (hserves : s.Serves s.incoming.length) {buf : List UInt8} (h64 : 64 ≤ buf.length)
    (hbuf : buf.length < 2 ^ 32) {isConnectionless : Bool} {n : Nat} {t : ResponderThread}
    (hkept : t.Kept (t.connectionThreadFunc isConnectionless s buf n)) :
    OnRequests isConnectionless s buf n := by
  have hsupplied : (BabblerProtocol.init s buf).Supplied 0 :=
    ⟨sound_init h64 hbuf, hstream, hserves⟩
  have hruns := ends_times_along
    (fun s' hs' => Responder.doJob_awaited (s := s') hs' isConnectionless) n hsupplied
  unfold connectionThreadFunc at hkept
  cases hrun : times (Responder.doJob isConnectionless) n (.init s buf) with
  | ok _ s' => exact hruns.ok hrun
  | error f s' =>
    rw [hrun] at hkept
    cases f with
    | errorException what => exact hruns.error hrun trivial
    | eventException => exact hkept.elim
    | blocked => exact hruns.error hrun trivial
    | _ => exact hkept.elim

namespace Requestor

/-- In the round that starts here a request is sent, and no other response comes back. -/
structure Expects (r : Requestor) : Prop where
  request : 24 ≤ (r.check .send).2
  response : (r.check .recv).2 = 0 ∨ 24 ≤ (r.check .recv).2
  awaits : Ends (sendRequest (r.seq + 1) (r.check .send).2 (r.check .recv).2)
    (fun _ s => (r.check .recv).2 ≠ 0 → s.Awaits (s.IsResponse (r.seq + 1)))
    (fun _ _ => True) r.protocol

/-- One round on an expected response. -/
theorem doJob_awaits {r : Requestor} (hs : r.protocol.Sound) (hstream : r.protocol.socket.IsStream)
    (h : (∀ d, (r.check d).1 = false) → r.Expects) :
    Ends doJob
      (fun _ r' => r'.protocol.Sound ∧ r'.protocol.socket.IsStream ∧
        (24 < (r.check .send).2.toNat →
          r'.protocol.socket.sendtos.length < r.protocol.socket.sendtos.length))
      (fun f _ => f.OfSocket) r := by
  refine ends_doJob (fun _ _ _ _ => trivial) fun hopen => ?_
  obtain ⟨hreq, hresp, hawaits⟩ := h hopen
  refine (((sendRequest_spec hs.length hs.room (r.seq + 1) hreq hresp rfl).and
    (sendRequest_consumes r.protocol (r.seq + 1) (r.check .send).2 (r.check .recv).2)).and
    hawaits).mono ?_ fun _ _ hf => hf.1.1.1
  rintro _ s₁ ⟨⟨⟨hsent, -⟩, hlt⟩, hexpected⟩
  have hs₁ := hsent.sound hs
  have hstream₁ := hsent.stream hstream
  split_ifs with hzero
  · refine (recvResponse_spec hs₁ hstream₁ (r.seq + 1)).mono ?_ fun _ _ hf =>
      (hexpected hzero).ofSocket hf
    rintro _ s₂ ⟨m, -, htook⟩
    obtain ⟨bs, hreads, -⟩ := htook.received
    refine ⟨htook.sound, hreads.stream, fun h24 => ?_⟩
    show s₂.socket.sendtos.length < _
    rw [hreads.sendtos]
    exact hlt h24
  · exact ⟨hs₁, hstream₁, hlt⟩

/-- Unless an exception gets out, the round was one on an expected response. -/
theorem doJob_awaited {r : Requestor} {spare : Nat} (hs : r.protocol.Supplied spare) :
    Ends doJob
      (fun _ r' => r'.protocol.Supplied spare ∧ ((∀ d, (r.check d).1 = false) → r.Expects))
      (fun f _ => f.OfSocket → (∀ d, (r.check d).1 = false) → r.Expects) r := by
  refine ends_doJob (fun r' _ _ hreached _ hopen => ?_) fun _ => ?_
  · obtain ⟨d, hd⟩ := hreached
    rw [hopen d] at hd
    cases hd
  by_cases hpre : 24 ≤ (r.check .send).2 ∧ ((r.check .recv).2 = 0 ∨ 24 ≤ (r.check .recv).2)
  swap
  · exact (sendRequest_bug r.protocol (r.seq + 1) hpre).mono (fun _ _ he => he.elim)
      fun _ _ he hsocket => (he.1 ▸ hsocket : Fault.bug.OfSocket).elim
  have hsend := sendRequest_spec hs.sound.length hs.sound.room (r.seq + 1) hpre.1 hpre.2 rfl
  cases hrun : sendRequest (r.seq + 1) (r.check .send).2 (r.check .recv).2 r.protocol with
  | error f s₁ => exact ends_of_error hrun fun _ _ => ⟨hpre.1, hpre.2, ends_of_error hrun trivial⟩
  | ok u s₁ =>
    have hs₁ : s₁.Supplied spare := (hsend.ok hrun).1.supplied hs
    refine ends_of_eq hrun ?_
    split_ifs with hzero
    · refine ((recvResponse_spec hs₁.sound hs₁.stream (r.seq + 1)).and
        (recvResponse_awaits hs₁ (r.seq + 1))).mono ?_ ?_
      · rintro _ s₂ ⟨⟨m, -, htook⟩, hawaits⟩
        exact ⟨htook.supplied hs₁, fun _ => ⟨hpre.1, hpre.2, ends_of_eq hrun fun _ => hawaits⟩⟩
      · exact fun _ _ hf hsocket _ =>
          ⟨hpre.1, hpre.2, ends_of_eq hrun fun _ => hf.2 hsocket⟩
    · exact ⟨hs₁, fun _ => ⟨hpre.1, hpre.2, ends_of_eq hrun fun hresp => (hzero hresp).elim⟩⟩

theorem keeps_doJob {J : Socket → Prop} {F : Fault → Prop} (hr : Receives J F) (hs : Sends J F)
    (hevent : F .eventException) : Keeps (fun r => J r.protocol.socket) F doJob := by
  have honProtocol : ∀ {α : Type} {m : EStateM Fault BabblerProtocol α},
      Keeps (fun s => J s.socket) F m → Keeps (fun r => J r.protocol.socket) F (onProtocol m) :=
    Keeps.zoom fun _ _ => rfl
  have hcheck : Keeps (fun r : Requestor => J r.protocol.socket) F checkLimits :=
    .bind keeps_get fun _ => .bind (keeps_modify fun _ h => h) fun _ =>
      .bind (.ite (fun _ => keeps_throw hevent) fun _ => keeps_pure _) fun _ =>
        .bind (keeps_modify fun _ h => h) fun _ =>
          .ite (fun _ => keeps_throw hevent) fun _ => keeps_pure _
  have htrip : Keeps (fun r : Requestor => J r.protocol.socket) F roundTrip :=
    .bind (keeps_modify fun _ h => h) fun _ => .bind keeps_get fun _ =>
      .bind (honProtocol (hs.sendRequest _ _ _)) fun _ =>
        .ite (fun _ => honProtocol (hr.recvResponse _)) fun _ => keeps_pure _
  exact .bind hcheck fun _ => .bind htrip fun _ => keeps_modify fun _ h => h

end Requestor

namespace ClientLoop

variable {infinite : Bool}

theorem countDown_requestor (infinite : Bool) (c : ClientLoop) :
    (c.countDown infinite).requestor = c.requestor := by
  unfold countDown
  split <;> rfl

theorem keeps_iteration (infinite : Bool) {J : Socket → Prop} {F : Fault → Prop}
    (hr : Receives J F) (hs : Sends J F) (hevent : F .eventException) :
    Keeps (fun c => J c.requestor.protocol.socket) F (iteration infinite) := by
  have hjob : Keeps (fun c : ClientLoop => J c.requestor.protocol.socket) F
      (onRequestor Requestor.doJob) :=
    Keeps.zoom (fun _ _ => rfl) (Requestor.keeps_doJob hr hs hevent)
  refine .bind keeps_get fun c => .ite (fun _ => keeps_pure _) fun _ => .bind hjob fun _ =>
    keeps_modify fun c hc => ?_
  rwa [countDown_requestor]

/-- The round that starts here, if one does, is one on an expected response. -/
def Expects (c : ClientLoop) : Prop :=
  c.terminate = false → (∀ d, (c.requestor.check d).1 = false) → c.requestor.Expects

/-- The round that starts here, if one does, sends a payload. -/
def Transmits (c : ClientLoop) : Prop :=
  c.terminate = false → (∀ d, (c.requestor.check d).1 = false) →
    24 < (c.requestor.check .send).2.toNat

theorem iteration_awaits {c : ClientLoop} (hs : c.requestor.protocol.Sound)
    (hstream : c.requestor.protocol.socket.IsStream) (h : c.Expects) :
    Ends (iteration infinite)
      (fun _ c' => c'.requestor.protocol.Sound ∧ c'.requestor.protocol.socket.IsStream ∧
        (c.terminate = true ∧ c' = c ∨ c.terminate = false ∧ (c.Transmits →
          c'.requestor.protocol.socket.sendtos.length <
            c.requestor.protocol.socket.sendtos.length)))
      (fun f _ => f.OfSocket) c := by
  simp only [iteration, onRequestor, ends_bind, ends_get]
  split_ifs with hterm
  · rw [ends_pure]
    exact ⟨hs, hstream, .inl ⟨hterm, rfl⟩⟩
  · simp only [ends_bind, ends_zoom, ends_modify, countDown_requestor]
    have hfalse : c.terminate = false := by simpa using hterm
    refine ((Requestor.doJob_awaits hs hstream (h hfalse)).and
      (Requestor.doJob_spec c.requestor)).mono ?_ fun _ _ hf => hf.1
    rintro _ r' ⟨⟨hs', hstream', hlt⟩, hopen, -⟩
    exact ⟨hs', hstream', .inr ⟨hfalse, fun htransmits => hlt (htransmits hfalse hopen)⟩⟩

/-- Unless an exception gets out, the round was one on an expected response. -/
theorem iteration_awaited (infinite : Bool) {c : ClientLoop} {spare : Nat}
    (hs : c.requestor.protocol.Supplied spare) :
    Ends (iteration infinite)
      (fun _ c' => c'.requestor.protocol.Supplied spare ∧ c.Expects)
      (fun f _ => f.OfSocket → c.Expects) c := by
  simp only [iteration, onRequestor, ends_bind, ends_get]
  split_ifs with hterm
  · rw [ends_pure]
    refine ⟨hs, fun hfalse => ?_⟩
    rw [hterm] at hfalse
    cases hfalse
  · simp only [ends_bind, ends_zoom, ends_modify, countDown_requestor]
    exact (Requestor.doJob_awaited hs).mono (fun _ r' hr' => ⟨hr'.1, fun _ => hr'.2⟩)
      fun _ _ hf hsocket _ => hf hsocket

end ClientLoop

namespace Client

variable {s : Socket} {buf : List UInt8} {rng : Nat → Nat} {n : Nat}

/-- The rounds of the loop are on expected responses. -/
def OnResponses (c : Client) (s : Socket) (buf : List UInt8) (rng : Nat → Nat) (n : Nat) : Prop :=
  Along (ClientLoop.iteration (c.count == 0)) ClientLoop.Expects n (c.loop s buf rng)

/-- The rounds of the loop send payloads. -/
def Transmits (c : Client) (s : Socket) (buf : List UInt8) (rng : Nat → Nat) (n : Nat) : Prop :=
  Along (ClientLoop.iteration (c.count == 0)) ClientLoop.Transmits n (c.loop s buf rng)

/-- The loop of a client on expected responses lets no exception out. -/
theorem loop_kept (c : Client) (h64 : 64 ≤ buf.length) (hbuf : buf.length < 2 ^ 32)
    (hstream : s.IsStream) (hexpects : c.OnResponses s buf rng n) :
    c.Kept (c.threadFunc (.ok (some s)) buf rng n) := by
  have hrounds := ends_times_count (E := Fault.OfSocket)
    (I := fun _ l => l.requestor.protocol.Sound ∧ l.requestor.protocol.socket.IsStream)
    (fun k l hI hP => (ClientLoop.iteration_awaits hI.1 hI.2 hP).mono
      (fun _ _ h => ⟨h.1, h.2.1⟩) fun _ _ hf => hf)
    n (k := 0) ⟨sound_init h64 hbuf, hstream⟩ hexpects
  unfold threadFunc
  simp only
  cases hrun : times (ClientLoop.iteration (c.count == 0)) n (c.loop s buf rng) with
  | ok _ l =>
    simp only
    split_ifs
    · exact ⟨rfl, rfl⟩
    · exact ⟨rfl, rfl⟩
  | error f l =>
    have hsocket := hrounds.error hrun
    cases f with
    | errorException what => exact ⟨rfl, rfl⟩
    | eventException => exact ⟨rfl, rfl⟩
    | blocked => exact ⟨rfl, rfl⟩
    | _ => exact hsocket.elim

/-- It returns by the time the connection has failed. -/
theorem loop_returned (c : Client) (h64 : 64 ≤ buf.length) (hbuf : buf.length < 2 ^ 32)
    (hstream : s.IsStream) (hexpects : c.OnResponses s buf rng n)
    (htransmits : c.Transmits s buf rng n) (hclosing : s.Closing) (hlt : s.sendtos.length < n) :
    (c.threadFunc (.ok (some s)) buf rng n).1 = .returned := by
  have hrounds := ends_times_count (E := Fault.OfSocket)
    (I := fun k l => l.requestor.protocol.Sound ∧ l.requestor.protocol.socket.IsStream ∧
      (l.terminate = true ∨ l.requestor.protocol.socket.sendtos.length + k ≤ s.sendtos.length))
    (fun k l hI hP => (ClientLoop.iteration_awaits hI.1 hI.2.1 hP.1).mono (fun _ l' h => by
      refine ⟨h.1, h.2.1, ?_⟩
      rcases h.2.2 with ⟨hterm, rfl⟩ | ⟨hterm, hless⟩
      · exact .inl hterm
      · have := hless hP.2
        have hle := hI.2.2.resolve_left (by simp [hterm])
        exact .inr (by omega)) fun _ _ hf => hf)
    n (k := 0) ⟨sound_init h64 hbuf, hstream, .inr le_rfl⟩ (hexpects.and n htransmits)
  have hblocked := (ClientLoop.keeps_iteration (c.count == 0) receives_closing sends_closing
    (by simp)).times n (c.loop s buf rng) hclosing
  unfold threadFunc
  simp only
  cases hrun : times (ClientLoop.iteration (c.count == 0)) n (c.loop s buf rng) with
  | ok _ l =>
    have hterm : l.terminate = true := (hrounds.ok hrun).2.2.resolve_right (by omega)
    simp only [hterm, if_true]
  | error f l =>
    have hsocket := hrounds.error hrun
    cases f with
    | errorException what => rfl
    | eventException => rfl
    | blocked => exact (hblocked.error hrun rfl).elim
    | _ => exact hsocket.elim

/-- A client that lets no exception out, before a kernel that serves all bytes, was on expected
responses. -/
theorem along_expects (c : Client) (h64 : 64 ≤ buf.length) (hbuf : buf.length < 2 ^ 32)
    (hstream : s.IsStream) (hserves : s.Serves s.incoming.length)
    (hkept : c.Kept (c.threadFunc (.ok (some s)) buf rng n)) : c.OnResponses s buf rng n := by
  have hsupplied : (c.loop s buf rng).requestor.protocol.Supplied 0 :=
    ⟨sound_init h64 hbuf, hstream, hserves⟩
  have hruns := ends_times_along
    (fun l hl => ClientLoop.iteration_awaited (c.count == 0) (c := l) hl) n hsupplied
  unfold threadFunc at hkept
  simp only at hkept
  cases hrun : times (ClientLoop.iteration (c.count == 0)) n (c.loop s buf rng) with
  | ok _ l => exact hruns.ok hrun
  | error f l =>
    rw [hrun] at hkept
    cases f with
    | errorException what => exact hruns.error hrun trivial
    | eventException => exact hruns.error hrun trivial
    | blocked => exact hruns.error hrun trivial
    | _ => exact hkept.elim

end Client

/-! ## Both sides -/

/-- On expected messages no exception gets out of a thread's function, the bookkeeping is done
once as it returns, and it returns if the connection fails sooner or later. Before a kernel that
serves all bytes there is no other way. -/
theorem threads_caught {buf : List UInt8} (h64 : 64 ≤ buf.length) (hbuf : buf.length < 2 ^ 32)
    (n : Nat) :
    (∀ (t : ResponderThread) (isConnectionless : Bool) (s : Socket), s.IsStream →
      s.Uncancelled →
      (ResponderThread.OnRequests isConnectionless s buf n →
        t.Kept (t.connectionThreadFunc isConnectionless s buf n) ∧
          (s.Closing → s.incoming.length < 24 * n →
            (t.connectionThreadFunc isConnectionless s buf n).1 = .returned)) ∧
      (s.Serves s.incoming.length → t.Kept (t.connectionThreadFunc isConnectionless s buf n) →
        ResponderThread.OnRequests isConnectionless s buf n)) ∧
    (∀ (c : Client) (s : Socket) (rng : Nat → Nat), s.IsStream →
      (c.OnResponses s buf rng n →
        c.Kept (c.threadFunc (.ok (some s)) buf rng n) ∧
          (s.Closing → s.sendtos.length < n → c.Transmits s buf rng n →
            (c.threadFunc (.ok (some s)) buf rng n).1 = .returned)) ∧
      (s.Serves s.incoming.length → c.Kept (c.threadFunc (.ok (some s)) buf rng n) →
        c.OnResponses s buf rng n)) ∧
    ∀ (c : Client) (connection : Except SocketError (Option Socket)) (rng : Nat → Nat),
      (∀ s, connection ≠ .ok (some s)) →
        (c.threadFunc connection buf rng n).1 = .returned ∧
          c.Kept (c.threadFunc connection buf rng n) := by
  refine ⟨fun t isConnectionless s hstream huncancelled => ⟨fun hawaits => ?_, ?_⟩,
    fun c s rng hstream => ⟨fun hexpects => ⟨?_, ?_⟩, ?_⟩, fun c connection rng hnone => ?_⟩
  · exact t.connectionThreadFunc_kept hstream huncancelled h64 hbuf hawaits
  · exact fun hserves hkept => ResponderThread.along_awaits hstream hserves h64 hbuf hkept
  · exact c.loop_kept h64 hbuf hstream hexpects
  · exact fun hclosing hlt htransmits =>
      c.loop_returned h64 hbuf hstream hexpects htransmits hclosing hlt
  · exact fun hserves hkept => c.along_expects h64 hbuf hstream hserves hkept
  · rcases connection with err | _ | s
    · exact ⟨rfl, rfl, rfl⟩
    · exact ⟨rfl, rfl, rfl⟩
    · exact (hnone s rfl).elim

/-- A kernel that hands over `bs`, takes one write, and then has the connection fail. -/
def Socket.closingAfter (bs : List UInt8) : Socket where
  input := .stream bs
  peer := none
  output := []
  polls := [.ready ⟨false, some (.data bs.length), false⟩, .ready ⟨true, none, false⟩]
  sendtos := [.accepted (2 ^ 32), .error ECONNRESET]
  errno := 0
  reads := []

theorem Socket.isStream_closingAfter (bs : List UInt8) : (closingAfter bs).IsStream :=
  rfl

theorem Socket.closing_closingAfter (bs : List UInt8) : (closingAfter bs).Closing :=
  ⟨⟨_, List.mem_cons_of_mem _ List.mem_cons_self, rfl⟩, ECONNRESET, by simp [closingAfter]⟩

/-- Bytes that are the message `m`, or no more than a part of a header. -/
theorem BabblerProtocol.awaits_of_pending {s : BabblerProtocol} {P : Message → Prop} {m : Message}
    (hwhole : s.Whole) (hP : P m) (h : s.pending = m.encode ∨ s.pending.length < 24) :
    s.Awaits P := by
  refine ⟨hwhole, fun hlen => ⟨m, hP, .inl ?_⟩⟩
  rcases h with h | h
  · rw [h]
  · omega

/-- A server that gets a request, and a client that gets the response. -/
theorem threads_caught_one :
    (ResponderThread.connectionThreadFunc ⟨false, 0⟩ false
      (.closingAfter (Message.request 1 40 50).encode) (List.replicate 64 0) 2).1 = .returned ∧
    (Client.threadFunc ⟨⟨40, 40, 50, 50, 0, false⟩, 0, 0, 0, false, 0, 0⟩
      (.ok (some (.closingAfter (Message.response 1 26).encode))) (List.replicate 64 0)
      (fun _ => 0) 3).1 = .returned := by
  have h64 : 64 ≤ (List.replicate 64 (0 : UInt8)).length := by simp
  have hbuf : (List.replicate 64 (0 : UInt8)).length < 2 ^ 32 := by simp
  constructor
  · refine (((threads_caught h64 hbuf 2).1 _ false _ (Socket.isStream_closingAfter _) ?_).1 ?_).2
      (Socket.closing_closingAfter _) (by decide)
    · simp [Socket.Uncancelled, Socket.closingAfter]
    · refine Along.mono (I := fun _ => True) (P := fun s => s.Whole ∧
        (s.pending = (Message.request 1 40 50).encode ∨ s.pending.length < 24))
        (fun s _ _ => ends_trivial _ s) (fun s _ h => ?_) 2 trivial (by decide +kernel)
      exact awaits_of_pending h.1 (fun _ => rfl) h.2
  · refine (((threads_caught h64 hbuf 3).2.1 _ _ _ (Socket.isStream_closingAfter _)).1 ?_).2
      (Socket.closing_closingAfter _) (by decide) ?_
    · refine Along.mono (I := fun _ => True) (P := fun c =>
        24 ≤ (c.requestor.check .send).2 ∧ 24 ≤ (c.requestor.check .recv).2 ∧
        Ends (sendRequest (c.requestor.seq + 1) (c.requestor.check .send).2
          (c.requestor.check .recv).2) (fun _ s => s.Whole ∧ c.requestor.seq = 0 ∧
            (s.pending = (Message.response 1 26).encode ∨ s.pending.length < 24))
          (fun _ _ => True) c.requestor.protocol)
        (fun c _ _ => ends_trivial _ c) (fun c _ h _ _ => ⟨h.1, .inr h.2.1, ?_⟩) 3 trivial
        (by decide +kernel)
      refine h.2.2.mono (fun _ s hs _ => awaits_of_pending hs.1 (m := Message.response 1 26) ?_
        hs.2.2) fun _ _ he => he
      rw [hs.2.1]
      exact fun _ => ⟨rfl, rfl⟩
    · exact Along.mono (I := fun _ => True) (P := fun c => 24 < (c.requestor.check .send).2.toNat)
        (fun c _ _ => ends_trivial _ c) (fun c _ h _ _ => h) 3 trivial (by decide +kernel)

/-- A header of an unknown type ends the server's process. -/
theorem threads_not_caught :
    ¬∀ (t : ResponderThread) (s : Socket) (buf : List UInt8) (n : Nat), s.IsStream →
      s.Uncancelled → 64 ≤ buf.length → buf.length < 2 ^ 32 →
      t.Kept (t.connectionThreadFunc false s buf n) := by
  intro h
  have hkept := h ⟨false, 0⟩ (.closingAfter (List.replicate 24 0)) (List.replicate 64 0) 1 rfl
    (by simp [Socket.Uncancelled, Socket.closingAfter]) (by decide) (by decide)
  have hrun : ResponderThread.connectionThreadFunc ⟨false, 0⟩ false
      (.closingAfter (List.replicate 24 0)) (List.replicate 64 0) 1 =
      (.terminated (.protocolException "Unknown packet type"), ⟨false, 0⟩) := by
    decide +kernel
  rw [hrun] at hkept
  exact hkept

end NetBabbler
