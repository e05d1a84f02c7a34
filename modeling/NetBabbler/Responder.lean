import NetBabbler.Supplied

/-!
# The responder

`cResponder::doJob` of `responder.hpp` : receive a request, send the response it asks for.
`doJob_spec` is one round, for a request that is there : it answers that request and no
other, unless a part of a header alone is buffered (`Whole`), and it leaves what is
buffered behind the request alone where the response fits in front of it (`Clear`).

Rounds over a pipelined input are `noResponse_inOrder_iff`, where no response is asked for,
and `doJob_pipelined`, where any is.
-/

namespace NetBabbler

open EStateM BabblerProtocol

/-- The response to a request. -/
def Message.reply (m : Message) : Message :=
  .response m.seq m.options

namespace Responder

/-- `doJob`; returns what `recvRequest` found. -/
def doJob (isConnectionless : Bool) : EStateM Fault BabblerProtocol (UInt64 × UInt32) := do
  let (seq, expSeqLen) ← recvRequest
  let s ← get
  sendResponse seq expSeqLen (if isConnectionless then s.socket.peer else none)
  pure (seq, expSeqLen)

/-! ## One round -/

/-- The response that `doJob` sends from `s` fits in front of what is then buffered. -/
def Clear (s : BabblerProtocol) : Prop :=
  Ends recvRequest
    (fun r s₁ => s₁.bufContentSize = 0 ∨ (Message.response r.1 r.2).wire.length ≤ s₁.pBuf)
    (fun _ _ => True) s

/-- The `sendResponse` of `doJob` from `s` leaves the unread bytes alone. -/
def Undisturbed (s : BabblerProtocol) : Prop :=
  Ends recvRequest
    (fun r s₁ => Ends (sendResponse r.1 r.2 none)
      (fun _ s₂ => s₂.bufContentSize = s₁.bufContentSize ∧ s₂.unread = s₁.unread)
      (fun _ _ => True) s₁)
    (fun _ _ => True) s

instance (s : BabblerProtocol) : Decidable (Clear s) :=
  inferInstanceAs (Decidable (Ends ..))

instance (s : BabblerProtocol) : Decidable (Undisturbed s) :=
  inferInstanceAs (Decidable (Ends ..))

variable {s s' : BabblerProtocol} {m : Message}

/-- One round, for a request that is there. -/
theorem doJob_spec (hs : s.Sound) (hstream : s.socket.IsStream) (hwhole : s.Whole)
    (hreq : m.isRequest = true) (hm : m.encode <+: s.pending) (isConnectionless : Bool) :
    Ends (doJob isConnectionless)
      (fun r s' => r = (m.seq, m.options) ∧ ∃ s₁ dest, recvRequest s = .ok r s₁ ∧ s.Took m s₁ ∧
        s₁.Sent dest m.reply.wire m.reply.packets s' ∧
        ∀ room, s.socket.Accepts room → m.reply.wire.length ≤ room →
          s'.socket.Accepts (room - m.reply.wire.length))
      (fun f _ => f.OfSocket ∧ ∀ spare, s.Supplied spare →
        m.reply.wire ≠ [] ∧ ¬s.socket.Accepts m.reply.wire.length) s := by
  simp only [doJob, ends_bind, ends_get, ends_pure]
  have hrecv := recvRequest_spec hs hstream
  refine ends_iff.mpr ⟨fun r s₁ hrun => ?_, fun f s₁ hrun => ?_⟩
  · obtain ⟨m', -, rfl, htook⟩ := hrecv.ok hrun
    obtain rfl := htook.eq hm
    refine (sendResponse_spec htook.sound.length htook.sound.room m'.seq m'.options _ rfl).mono ?_ ?_
    · rintro _ s' ⟨hsent, hacc⟩
      exact ⟨rfl, s₁, _, hrun, htook, hsent, fun room hroom => hacc room (htook.accepts hroom)⟩
    · rintro f s' ⟨hf, hne, hnot⟩
      exact ⟨hf, fun spare _ => ⟨hne, fun hacc => hnot (htook.accepts hacc)⟩⟩
  · have hfault := hrecv.error hrun
    refine ⟨?_, fun spare hsup => (hfault.absurd hsup hwhole (fun _ => hreq) hm).elim⟩
    cases f with
    | bug =>
      obtain ⟨hlo, hhi⟩ := hfault
      unfold Whole at hwhole
      omega
    | protocolException what => exact (hfault.2 m (fun _ => hreq) (.inl hm)).elim
    | outOfBounds => exact (hfault.2 m (fun _ => hreq) (.inl hm)).elim
    | hang => exact hfault.elim
    | _ => trivial

/-- A message that fits in front of what is buffered leaves it alone. -/
theorem unread_of_clear {s₁ : BabblerProtocol} {dest : Option SockAddr} {bs : List UInt8} {n : Nat}
    (htook : s.Took m s₁) (hclear : s₁.bufContentSize = 0 ∨ bs.length ≤ s₁.pBuf)
    (hsent : s₁.Sent dest bs n s') : s'.unread = s₁.unread := by
  refine hsent.unread ?_
  rcases htook.left with h0 | h24
  · exact .inl h0
  · exact hclear.imp_right fun hle => ⟨h24, hle⟩

/-- `Clear` is enough for the unread bytes to stay. -/
theorem Clear.undisturbed (hclear : Clear s) (hs : s.Sound) (hstream : s.socket.IsStream) :
    Undisturbed s := by
  refine ((recvRequest_spec hs hstream).and hclear).mono ?_ fun _ _ _ => trivial
  rintro _ s₁ ⟨⟨m, -, rfl, htook⟩, hroom⟩
  refine (sendResponse_spec htook.sound.length htook.sound.room m.seq m.options none rfl).mono ?_
    fun _ _ _ => trivial
  rintro _ s₂ ⟨hsent, -⟩
  exact ⟨hsent.bufContentSize, unread_of_clear htook hroom hsent⟩

/-- Every round keeps the buffer sound. -/
theorem doJob_sound (hs : s.Sound) (hstream : s.socket.IsStream) (isConnectionless : Bool) :
    Ends (doJob isConnectionless) (fun _ s' => s'.Sound ∧ s'.socket.IsStream)
      (fun _ _ => True) s := by
  simp only [doJob, ends_bind, ends_get, ends_pure]
  refine (recvRequest_spec hs hstream).mono ?_ fun _ _ _ => trivial
  rintro _ s₁ ⟨m, -, rfl, htook⟩
  refine (sendResponse_spec htook.sound.length htook.sound.room m.seq m.options _ rfl).mono ?_
    fun _ _ _ => trivial
  rintro _ s₂ ⟨hsent, -⟩
  exact ⟨hsent.sound htook.sound, hsent.stream htook.stream⟩

/-! ## Rounds over a pipelined input -/

/-- A responder whose pending input is the requests `ms`. -/
structure Facing (ms : List Message) (s : BabblerProtocol) : Prop where
  sound : s.Sound
  stream : s.socket.IsStream
  requests : ∀ m ∈ ms, m.isRequest = true
  pending : s.pending = ms.flatMap Message.encode

theorem facing_init {ms : List Message} (hms : ∀ m ∈ ms, m.isRequest = true) {socket : Socket}
    (hin : socket.input = .stream (ms.flatMap Message.encode)) {buf : List UInt8}
    (h64 : 64 ≤ buf.length) (hbuf : buf.length < 2 ^ 32) : Facing ms (init socket buf) := by
  have hinc : socket.incoming = ms.flatMap Message.encode := by rw [Socket.incoming, hin]
  refine ⟨sound_init h64 hbuf, ?_, hms, ?_⟩
  · show socket.IsStream
    rw [Socket.IsStream, hinc, hin]
  · simp [BabblerProtocol.pending, unread, init, hinc]

/-- A round with a fitting response takes the first request off the input. -/
theorem Facing.doJob {ms : List Message} (h : Facing (m :: ms) s) (hwhole : s.Whole)
    (hclear : Clear s) (isConnectionless : Bool) :
    Ends (doJob isConnectionless)
      (fun r s' => r = (m.seq, m.options) ∧ Facing ms s' ∧
        s'.socket.sent = s.socket.sent ++ m.reply.wire ∧
        (∀ spare, s.Supplied spare → s'.Supplied spare) ∧
        ∀ room, s.socket.Accepts room → m.reply.wire.length ≤ room →
          s'.socket.Accepts (room - m.reply.wire.length))
      (fun f _ => f.OfSocket ∧ ∀ spare, s.Supplied spare →
        m.reply.wire ≠ [] ∧ ¬s.socket.Accepts m.reply.wire.length) s := by
  have hpend : s.pending = m.encode ++ ms.flatMap Message.encode := by
    rw [h.pending, List.flatMap_cons]
  refine (doJob_spec h.sound h.stream hwhole (h.requests m (by simp)) ⟨_, hpend.symm⟩
    isConnectionless).mono ?_ fun _ _ hf => hf
  rintro r s' ⟨rfl, s₁, dest, hrun, htook, hsent, hacc⟩
  have hout : s₁.socket.sent = s.socket.sent := by
    obtain ⟨bs, hreads, -⟩ := htook.received
    rw [Socket.sent, hreads.output, Socket.sent]
  have hrest : s'.pending = ms.flatMap Message.encode := by
    rw [BabblerProtocol.pending, unread_of_clear htook (hclear.ok hrun) hsent,
      hsent.writes.incoming]
    exact List.append_cancel_left (htook.pending.symm.trans hpend)
  refine ⟨rfl, ⟨hsent.sound htook.sound, hsent.stream htook.stream,
    fun m' hm' => h.requests m' (by simp [hm']), hrest⟩, ?_,
    fun spare hsup => hsent.supplied (htook.supplied hsup), hacc⟩
  rw [hsent.writes.sent, hout]

theorem facing_supplied {ms : List Message} {socket : Socket} {buf : List UInt8}
    (h : Facing ms (init socket buf)) (hserves : socket.Serves socket.incoming.length) :
    (init socket buf).Supplied 0 :=
  ⟨h.sound, h.stream, hserves⟩

/-! ### Without responses -/

/-- Requests sent back to back, none of them asking for a response. -/
def sendRequests : List (UInt64 × UInt32) → EStateM Fault BabblerProtocol Unit
  | [] => pure ()
  | (seq, reqSize) :: rs => do
    sendRequest seq reqSize 0
    sendRequests rs

/-- `bs` is what a requestor transmits for the requests `rs`. -/
structure NoResponse (rs : List (UInt64 × UInt32)) (bs : List UInt8) : Prop where
  sizes : ∀ r ∈ rs, 32 ≤ r.2
  sent : ∃ q q' : BabblerProtocol, q.Sound ∧ q.socket.sent = [] ∧
    sendRequests rs q = .ok () q' ∧ q'.socket.sent = bs

/-- Repeated `doJob` returns the sequence numbers of `rs` in order, each once. -/
def InOrder (rs : List (UInt64 × UInt32)) (s : BabblerProtocol) : Prop :=
  outcome (times (doJob false) rs.length) s = .ok (rs.map fun r => (r.1, 0))

theorem sendRequests_spec :
    ∀ (rs : List (UInt64 × UInt32)) {q : BabblerProtocol}, (∀ r ∈ rs, 32 ≤ r.2) → q.Sound →
      Ends (sendRequests rs)
        (fun _ q' => q'.socket.sent =
          q.socket.sent ++ (rs.map fun r => Message.request r.1 r.2 0).flatMap Message.encode)
        (fun _ _ => ¬q.socket.Accepts
          ((rs.map fun r => Message.request r.1 r.2 0).flatMap Message.encode).length) q
  | [], q, _, _ => by simp [sendRequests]
  | (seq, reqSize) :: rs, q, hrs, hq => by
    have h32 : 32 ≤ reqSize.toNat := hrs (seq, reqSize) (by simp)
    have hwire : (Message.request seq reqSize 0).wire = (Message.request seq reqSize 0).encode := by
      rw [Message.wire, if_neg]
      show reqSize.toNat - 24 ≠ 0
      omega
    have h24 : 24 ≤ reqSize := by
      show 24 ≤ reqSize.toNat
      omega
    simp only [sendRequests, ends_bind, List.map_cons, List.flatMap_cons]
    refine (sendRequest_spec hq.length hq.room seq h24 (.inl rfl) rfl).mono ?_ ?_
    · rintro _ q₁ ⟨hsent, hacc⟩
      rw [hwire] at hsent hacc
      refine (sendRequests_spec rs (fun r hr => hrs r (by simp [hr])) (hsent.sound hq)).mono ?_ ?_
      · intro _ q' hq'
        rw [hq', hsent.writes.sent, List.append_assoc]
      · intro f q' hnot hall
        rw [List.length_append] at hall
        have := hacc _ hall (Nat.le_add_right _ _)
        rw [Nat.add_sub_cancel_left] at this
        exact hnot this
    · rintro f q₁ ⟨-, -, hnot⟩ hall
      rw [hwire] at hnot
      rw [List.length_append] at hall
      exact hnot ⟨hall.some, (Nat.le_add_right _ _).trans hall.enough⟩

/-- Any requests of these sizes can be sent. -/
theorem noResponse_encode {rs : List (UInt64 × UInt32)} (h : ∀ r ∈ rs, 32 ≤ r.2) :
    NoResponse rs ((rs.map fun r => Message.request r.1 r.2 0).flatMap Message.encode) := by
  obtain ⟨n, hn⟩ : ∃ n, n = ((rs.map fun r => Message.request r.1 r.2 0).flatMap
    Message.encode).length := ⟨_, rfl⟩
  have hsound : (init (.serving [] 1 0 n) (List.replicate 64 0)).Sound :=
    sound_init (by simp) (by simp)
  have hends := (sendRequests_spec rs h hsound).mono (fun _ _ hs => hs) fun _ _ hnot =>
    hnot (hn ▸ Socket.serving_accepts [] 1 0 n)
  obtain ⟨_, q', hrun, hsent⟩ := hends.exists_ok
  exact ⟨h, _, q', hsound, rfl, hrun, hsent⟩

theorem NoResponse.eq {rs : List (UInt64 × UInt32)} {bs : List UInt8} (h : NoResponse rs bs) :
    bs = (rs.map fun r => Message.request r.1 r.2 0).flatMap Message.encode := by
  obtain ⟨q, q', hq, hempty, hrun, rfl⟩ := h.sent
  rw [(sendRequests_spec rs h.sizes hq).ok hrun, hempty, List.nil_append]

/-- A part of a header alone in the buffer is never received. -/
theorem doJob_of_not_whole (h : ¬s.Whole) :
    Ends (doJob false) (fun _ _ => False) (fun f _ => f = .bug) s := by
  simp only [doJob, recvRequest, ends_bind]
  exact (receive_of_not_whole h).mono (fun _ _ he => he.elim) fun _ _ he => he

/-- A responder in front of requests that ask for no response. -/
structure Silent (ms : List Message) (s : BabblerProtocol) : Prop where
  facing : Facing ms s
  supplied : s.Supplied 0
  options : ∀ m ∈ ms, m.options = 0

theorem Silent.doJob {ms : List Message} (h : Silent (m :: ms) s) (hwhole : s.Whole) :
    Ends (doJob false) (fun r s' => r = (m.seq, m.options) ∧ Silent ms s')
      (fun _ _ => False) s := by
  have hempty : ∀ seq, (Message.response seq m.options).wire = [] := fun seq => by
    rw [h.options m (by simp)]
    rfl
  have hclear : Clear s := by
    refine (recvRequest_supplied h.supplied hwhole (h.facing.requests m (by simp)) ?_).mono ?_
      fun _ _ he => he.elim
    · rw [h.facing.pending, List.flatMap_cons]
      exact List.prefix_append _ _
    · rintro r s₁ ⟨rfl, -⟩
      refine .inr ?_
      rw [hempty]
      exact Nat.zero_le _
  refine (h.facing.doJob hwhole hclear false).mono ?_ ?_
  · rintro r s' ⟨rfl, hfacing, -, hsup, -⟩
    exact ⟨rfl, hfacing, hsup 0 h.supplied, fun m' hm' => h.options m' (by simp [hm'])⟩
  · rintro f s' ⟨-, hnot⟩
    exact (hnot 0 h.supplied).1 (hempty m.seq)

/-- Without responses, rounds over a stream in any fragmentation return the sequence numbers
in order if and only if each round starts with nothing or at least a header in the buffer. -/
theorem noResponse_inOrder_iff {rs : List (UInt64 × UInt32)} {bs : List UInt8}
    (h : NoResponse rs bs) {socket : Socket} (hin : socket.input = .stream bs)
    (hserves : socket.Serves bs.length) {buf : List UInt8} (h64 : 64 ≤ buf.length)
    (hbuf : buf.length < 2 ^ 32) :
    InOrder rs (init socket buf) ↔ Along (doJob false) Whole rs.length (init socket buf) := by
  obtain ⟨ms, hms⟩ : ∃ ms, ms = rs.map fun r => Message.request r.1 r.2 0 := ⟨_, rfl⟩
  have hbs : bs = ms.flatMap Message.encode := hms ▸ h.eq
  have hlen : ms.length = rs.length := by rw [hms, List.length_map]
  have hreq : ∀ m ∈ ms, m.isRequest = true ∧ m.options = 0 := by
    intro m hm
    rw [hms] at hm
    obtain ⟨r, -, rfl⟩ := List.mem_map.mp hm
    exact ⟨rfl, rfl⟩
  have hfacing : Facing ms (init socket buf) :=
    facing_init (fun m hm => (hreq m hm).1) (hbs ▸ hin) h64 hbuf
  have hsup : (init socket buf).Supplied 0 := by
    refine facing_supplied hfacing ?_
    rwa [Socket.incoming, hin]
  have hmap : (rs.map fun r => (r.1, (0 : UInt32))) = ms.map fun m => (m.seq, m.options) := by
    rw [hms, List.map_map]
    rfl
  rw [InOrder, outcome_eq_iff, hmap, ← hlen]
  constructor
  · intro hok
    refine along_of_times (fun s hs => ?_) _ (hok.mono (fun _ _ _ => trivial) fun _ _ he => he)
    exact (doJob_of_not_whole hs).mono (fun _ _ he => he) fun _ _ _ => trivial
  · intro hwhole
    refine (ends_times (I := Silent) (f := fun m => (m.seq, m.options))
      (fun _ _ _ hs hw => hs.doJob hw) ms ⟨hfacing, hsup, fun m hm => (hreq m hm).2⟩
      hwhole).mono ?_ fun _ _ he => he
    exact fun as s' has => has.1

theorem noResponse_inOrder_aligned :
    InOrder [(0, 32), (1, 32)] (init (.serving ([(0, 32), (1, 32)].flatMap fun r =>
      (Message.request r.1 r.2 0).encode) 32 64 0) (List.replicate 64 0)) :=
  (noResponse_inOrder_iff (noResponse_encode (by simp)) rfl
    (Socket.serving_serves _ (by decide) 64 0) (by decide) (by decide)).mpr (by decide +kernel)

/-- A read that ends inside the next header stops the responder. -/
theorem noResponse_not_inOrder :
    ¬∀ (rs : List (UInt64 × UInt32)) (bs : List UInt8) (socket : Socket) (buf : List UInt8),
      NoResponse rs bs → socket.input = .stream bs → socket.Serves bs.length →
      64 ≤ buf.length → buf.length < 2 ^ 32 → InOrder rs (init socket buf) := by
  intro h
  have hbug := h [(0, 32), (1, 32)] _ (.serving _ 40 64 0) (List.replicate 64 0)
    (noResponse_encode (by simp)) rfl (Socket.serving_serves _ (by decide) 64 0)
    (by decide) (by decide)
  exact absurd (outcome_eq_iff.mp hbug) (by decide +kernel)

/-! ### With responses -/

/-- A responder in front of requests, with what it has answered and will answer. `Healthy`
stands for a kernel that keeps going. -/
structure Answering (Healthy : Prop) (answers : List UInt8) (ms : List Message)
    (s : BabblerProtocol) : Prop where
  facing : Facing ms s
  sent : s.socket.sent ++ ms.flatMap (fun m => m.reply.wire) = answers
  supplied : Healthy → s.Supplied 0
  accepts : Healthy → s.socket.Accepts (ms.flatMap fun m => m.reply.wire).length

theorem Answering.doJob {Healthy : Prop} {answers : List UInt8} {ms : List Message}
    (h : Answering Healthy answers (m :: ms) s) (hwhole : s.Whole) (hclear : Clear s) :
    Ends (doJob false) (fun r s' => r = (m.seq, m.options) ∧ Answering Healthy answers ms s')
      (fun f _ => f.OfSocket ∧ ¬Healthy) s := by
  have hlen : ((m :: ms).flatMap fun m => m.reply.wire).length =
      m.reply.wire.length + (ms.flatMap fun m => m.reply.wire).length := by
    rw [List.flatMap_cons, List.length_append]
  refine (h.facing.doJob hwhole hclear false).mono ?_ ?_
  · rintro r s' ⟨rfl, hfacing, hsent, hsup, hacc⟩
    refine ⟨rfl, hfacing, ?_, fun hh => hsup 0 (h.supplied hh), fun hh => ?_⟩
    · rw [← h.sent, hsent, List.append_assoc, List.flatMap_cons]
    · have := hacc _ (h.accepts hh) (by omega)
      rwa [hlen, Nat.add_sub_cancel_left] at this
  · rintro f s' ⟨hf, hnot⟩
    refine ⟨hf, fun hh => (hnot 0 (h.supplied hh)).2 ⟨(h.accepts hh).some, ?_⟩⟩
    have := (h.accepts hh).enough
    omega

/-- Over a pipelined input whose responses each fit in front of what is buffered behind their
request, sending disturbs nothing, and the output is the responses in order. -/
theorem doJob_pipelined {ms : List Message} (hms : ∀ m ∈ ms, m.isRequest = true)
    {socket : Socket} (hin : socket.input = .stream (ms.flatMap Message.encode))
    {buf : List UInt8} (h64 : 64 ≤ buf.length) (hbuf : buf.length < 2 ^ 32)
    (hclear : Along (doJob false) (fun s => s.Whole ∧ Clear s) ms.length (init socket buf)) :
    Along (doJob false) Undisturbed ms.length (init socket buf) ∧
      Ends (times (doJob false) ms.length)
        (fun rs s' => rs = ms.map (fun m => (m.seq, m.options)) ∧
          s'.socket.sent = socket.sent ++ ms.flatMap fun m => m.reply.wire)
        (fun f _ => f.OfSocket ∧ ¬(socket.Serves (ms.flatMap Message.encode).length ∧
          socket.Accepts (ms.flatMap fun m => m.reply.wire).length))
        (init socket buf) := by
  have hfacing := facing_init hms hin h64 hbuf
  constructor
  · refine Along.mono (I := fun s => s.Sound ∧ s.socket.IsStream)
      (fun s hs _ => doJob_sound hs.1 hs.2 false) (fun s hs hcl => hcl.2.undisturbed hs.1 hs.2)
      ms.length ⟨hfacing.sound, hfacing.stream⟩ hclear
  · have hstart : Answering (socket.Serves (ms.flatMap Message.encode).length ∧
        socket.Accepts (ms.flatMap fun m => m.reply.wire).length)
        (socket.sent ++ ms.flatMap fun m => m.reply.wire) ms (init socket buf) := by
      refine ⟨hfacing, rfl, fun hh => facing_supplied hfacing ?_, fun hh => hh.2⟩
      rw [Socket.incoming, hin]
      exact hh.1
    refine (ends_times (I := Answering _ _) (f := fun m => (m.seq, m.options))
      (fun _ _ _ hs hcl => hs.doJob hcl.1 hcl.2) ms hstart hclear).mono ?_ fun _ _ he => he
    rintro rs s' ⟨rfl, hend⟩
    refine ⟨rfl, ?_⟩
    simpa using hend.sent

/-- A responder that gets two requests of 50 bytes in one read. -/
def oneRead (respSize : UInt32) : BabblerProtocol :=
  init (.serving ([Message.request 0 50 respSize, .request 1 50 respSize].flatMap Message.encode)
    100 100 1) (List.replicate 100 0)

theorem doJob_pipelined_fitting : Along (doJob false) Undisturbed 2 (oneRead 50) :=
  (doJob_pipelined
    (by decide : ∀ m ∈ [Message.request 0 50 50, .request 1 50 50], m.isRequest = true) rfl
    (by decide) (by decide) (by decide +kernel)).1

/-- A response longer than the request overwrites the request behind it. -/
theorem not_doJob_pipelined :
    ¬∀ (ms : List Message) (socket : Socket) (buf : List UInt8),
      (∀ m ∈ ms, m.isRequest = true ∧ 0 < m.payloadLen) →
      socket.input = .stream (ms.flatMap Message.encode) → 64 ≤ buf.length →
      buf.length < 2 ^ 32 → Along (doJob false) Whole ms.length (init socket buf) →
      Along (doJob false) Undisturbed ms.length (init socket buf) := by
  intro h
  have hundisturbed := h [.request 0 50 51, .request 1 50 51] (oneRead 51).socket
    (List.replicate 100 0) (by decide) rfl (by decide) (by decide) (by decide +kernel)
  exact absurd hundisturbed (by decide +kernel)

end Responder

end NetBabbler
