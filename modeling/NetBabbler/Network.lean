import NetBabbler.Interleaving
import NetBabbler.RequestReply
import NetBabbler.RoundTrip
import NetBabbler.Sizes
import NetBabbler.Unfragmented

/-!
# Clients and a server over a datagram network

Any number of clients, each in its rounds of `cRequestor::doJob`, and the threads of a
`cStatelessServer`, which share one socket and run `cResponder::doJob`. A step is what one of
them does up to its only system call that another can see, or what the network does : it
brings datagrams in any order, loses them, and may duplicate them. The kernels answer as they
like.
-/

namespace NetBabbler

open EStateM BabblerProtocol Interleaving

/-! ## A call of a thread -/

/-- What a call leads to, unless the thread is still in it. -/
def settle {σ τ α : Type} (ok : α → σ → τ) (ended : Fault → σ → τ) :
    EStateM.Result Fault σ α → Option τ
  | .ok a s => some (ok a s)
  | .error f s => if f = .blocked then none else some (ended f s)

theorem settle_eq_some {σ τ α : Type} {ok : α → σ → τ} {ended : Fault → σ → τ}
    {m : EStateM Fault σ α} {Q : α → σ → Prop} {E : Fault → σ → Prop} {s : σ} {t : τ}
    (h : Ends m Q E s) (hsettle : settle ok ended (m s) = some t) :
    (∃ a s', Q a s' ∧ t = ok a s') ∨ ∃ f s', E f s' ∧ t = ended f s' := by
  cases hm : m s with
  | ok a s' =>
    rw [hm, settle] at hsettle
    exact .inl ⟨a, s', h.ok hm, (Option.some.inj hsettle).symm⟩
  | error f s' =>
    rw [hm, settle] at hsettle
    split_ifs at hsettle
    exact .inr ⟨f, s', h.error hm, (Option.some.inj hsettle).symm⟩

/-- A call that cannot be waiting is left. -/
theorem exists_settle {σ τ α : Type} {m : EStateM Fault σ α} {Q : α → σ → Prop}
    {E : Fault → σ → Prop} {s : σ} (h : Ends m Q E s) (hE : ∀ s', ¬E .blocked s')
    (ok : α → σ → τ) (ended : Fault → σ → τ) : ∃ t, settle ok ended (m s) = some t := by
  cases hm : m s with
  | ok a s' => exact ⟨_, rfl⟩
  | error f s' =>
    refine ⟨ended f s', ?_⟩
    rw [settle, if_neg]
    rintro rfl
    exact hE s' (h.error hm)

/-- A kernel takes a datagram whole, or fails with `errno`. -/
def datagramSendto : Option Nat → Sendto
  | none => .accepted (2 ^ 32)
  | some err => .error err

/-- `s` before a kernel that gives these answers. -/
def BabblerProtocol.facing (polls : List Poll) (sendtos : List Sendto) (s : BabblerProtocol) :
    BabblerProtocol :=
  { s with socket := { s.socket with polls := polls, sendtos := sendtos } }

theorem whole_datagramSendto (s : Socket) (answers : List (Option Nat)) {limit : Nat}
    (h : limit ≤ 2 ^ 32) :
    { s with sendtos := answers.map datagramSendto }.WholeOrNone limit := by
  intro r hr
  obtain ⟨answer, -, rfl⟩ := List.mem_map.mp hr
  cases answer with
  | none => exact .inr ⟨_, h, rfl⟩
  | some err => exact .inl ⟨err, rfl⟩

theorem BabblerProtocol.Rested.facing {limit : Nat} {s : BabblerProtocol} (h : s.Rested limit)
    (polls : List Poll) (sendtos : List Sendto) : (s.facing polls sendtos).Rested limit :=
  h.elsewhere s.stats h.output

namespace Socket

/-- The datagrams in the receive queue. -/
def queue (s : Socket) : List Datagram :=
  match s.input with
  | .datagrams queue => queue
  | .stream _ => []

/-- What the socket sent, with where it goes to. -/
def letters (s : Socket) : List Datagram :=
  s.output.filterMap fun piece => piece.1.map fun dest => (dest, piece.2)

@[simp] theorem queue_of_input {s : Socket} {queue : List Datagram}
    (h : s.input = .datagrams queue) : s.queue = queue := by
  rw [Socket.queue, h]

theorem letters_eq {s : Socket} {dest : Option SockAddr} {pieces : List (List UInt8)}
    (h : s.output = pieces.map (dest, ·)) :
    s.letters = dest.elim [] fun addr => pieces.map (addr, ·) := by
  rw [letters, h, List.filterMap_map]
  cases dest with
  | none => exact List.filterMap_eq_nil_iff.mpr fun _ _ => rfl
  | some addr => exact congrFun (List.filterMap_eq_map (f := fun bs => (addr, bs))) pieces

end Socket

/-! ## The datagrams -/

theorem Message.encode_injective {m m' : Message} (h : m.encode = m'.encode) : m = m' :=
  (Message.eq_of_matches (List.prefix_refl _) (.inl (h ▸ List.prefix_refl _))).symm

/-- A request whose response fits into `limit` bytes, as it does itself. -/
def IsRequest (limit : Nat) (bs : List UInt8) : Prop :=
  ∃ m : Message, bs = m.encode ∧ bs.length ≤ limit ∧ m.isRequest = true ∧
    m.options.toNat + 24 ≤ limit

/-- A response that fits into `limit` bytes. -/
def IsResponse (limit : Nat) (bs : List UInt8) : Prop :=
  ∃ m : Message, bs = m.encode ∧ bs.length ≤ limit ∧ m.isRequest = false

theorem forall_mem_append {α : Type} {P : α → Prop} {l l' : List α} (h : ∀ a ∈ l, P a)
    (h' : ∀ a ∈ l', P a) : ∀ a ∈ l ++ l', P a := fun a ha =>
  (List.mem_append.mp ha).elim (h a) (h' a)

theorem forall_mem_eraseIdx {α : Type} {P : α → Prop} {l : List α} (h : ∀ a ∈ l, P a) (i : Nat) :
    ∀ a ∈ l.eraseIdx i, P a := fun a ha =>
  h a (List.mem_of_mem_eraseIdx ha)

/-! ## The clients -/

namespace Requestor

/-- `doJob` up to `sendRequest`. -/
def ask : EStateM Fault Requestor Unit := do
  checkLimits
  modify fun r => { r with seq := r.seq + 1 }
  let r ← get
  onProtocol (sendRequest r.seq r.currReqSize r.currRespSize)

/-- The `recvResponse` of `doJob`. -/
def await : EStateM Fault Requestor Unit := do
  let r ← get
  onProtocol (recvResponse r.seq)

theorem doJob_eq_ask : doJob = (do
    ask
    let r ← get
    if r.currRespSize ≠ 0 then await else pure ()
    modify schedule) := by
  refine eq_of_ends fun Q E r h => ?_
  simp only [doJob, ask, await, roundTrip, onProtocol, ends_bind, ends_get, ends_modify, ends_ite,
    ends_zoom, ends_pure] at h ⊢
  exact h

/-- `r` after something happened to its protocol object. -/
def mapProtocol (f : BabblerProtocol → BabblerProtocol) (r : Requestor) : Requestor :=
  { r with protocol := f r.protocol }

theorem SameSchedule.schedule {r r' : Requestor} (h : SameSchedule r r') :
    SameSchedule r.schedule r'.schedule := by
  refine ⟨h.comSettings, ?_, ?_, ?_, fun d => ?_⟩
  · simp only [Requestor.schedule, h.comSettings, h.currReqSize, h.rng]
  · simp only [Requestor.schedule, h.comSettings, h.currRespSize, h.rng]
  · simp only [Requestor.schedule, h.comSettings, h.rng]
  · rw [schedule_limit]
    exact h.unlimited d

theorem SameSchedule.iterate {r r' : Requestor} (h : SameSchedule r r') :
    ∀ k, SameSchedule (Requestor.schedule^[k] r) (Requestor.schedule^[k] r')
  | 0 => h
  | k + 1 => h.schedule.iterate k

/-- There are no byte limits, and in all rounds the request has a header and the response none or
at least that, in at most `limit` bytes. -/
structure Within (limit : Nat) (r : Requestor) : Prop where
  unlimited : ∀ d, (r.limit d).toInt ≤ 0
  request : ∀ k, 24 ≤ (schedule^[k] r).currReqSize ∧ (schedule^[k] r).currReqSize.toNat ≤ limit
  response : ∀ k, ((schedule^[k] r).currRespSize = 0 ∨ 24 ≤ (schedule^[k] r).currRespSize) ∧
    (schedule^[k] r).currRespSize.toNat ≤ limit

variable {r r' : Requestor} {limit : Nat}

theorem SameSchedule.within (h : SameSchedule r r') (hr : r.Within limit) : r'.Within limit := by
  refine ⟨h.unlimited, fun k => ?_, fun k => ?_⟩
  · rw [(h.iterate k).currReqSize]
    exact hr.request k
  · rw [(h.iterate k).currRespSize]
    exact hr.response k

theorem Within.schedule (h : r.Within limit) : r.schedule.Within limit :=
  ⟨fun d => by rw [schedule_limit]; exact h.unlimited d, fun k => h.request (k + 1),
    fun k => h.response (k + 1)⟩

/-- Settings whose sizes are bounded make such rounds. -/
theorem within_init {c : ComSettings} (hreq : c.requestSizeMax.toNat ≤ limit)
    (hreqs : c.Stays c.requestSizeMin c.requestSizeMax (24 ≤ ·))
    (hresp : c.responseSizeMax.toNat ≤ limit)
    (hresps : c.Stays c.responseSizeMin c.responseSizeMax fun size => size = 0 ∨ 24 ≤ size)
    (socket : Socket) (buf : List UInt8) (rng : Nat → Nat) :
    (init socket buf c 0 0 rng).Within limit := by
  have hsizes := (init socket buf c 0 0 rng).schedule_iterate rfl rfl
  refine ⟨fun d => by cases d <;> exact le_rfl, fun k => ?_, fun k => ?_⟩
  · obtain ⟨-, -, hsize, -⟩ := hsizes k
    obtain ⟨-, hle, hok⟩ := (ComSettings.forall_sizeAt_iff _).mpr hreqs (fun k => rng (2 * k)) k
    rw [hsize]
    exact ⟨hok, (UInt32.le_iff_toNat_le.mp hle).trans hreq⟩
  · obtain ⟨-, -, -, hsize⟩ := hsizes k
    obtain ⟨-, hle, hok⟩ :=
      (ComSettings.forall_sizeAt_iff _).mpr hresps (fun k => rng (2 * k + 1)) k
    rw [hsize]
    exact ⟨hok, (UInt32.le_iff_toNat_le.mp hle).trans hresp⟩

/-- The protocol object and the number of the round are no part of the schedule. -/
theorem Within.elsewhere (h : r.Within limit) (s : BabblerProtocol) (seq : UInt64) :
    { r with protocol := s, seq := seq }.Within limit := by
  have hsame : SameSchedule r { r with protocol := s, seq := seq } := by
    refine ⟨rfl, rfl, rfl, rfl, fun d => ?_⟩
    cases d with
    | send => exact h.unlimited .send
    | recv => exact h.unlimited .recv
  exact hsame.within h

/-- `ask` without byte limits is `sendRequest` with the scheduled sizes. -/
theorem ask_unfragmented (hr : r.Within limit) (hs : r.protocol.Rested limit)
    (hkernel : r.protocol.socket.WholeOrNone limit) :
    Ends ask
      (fun _ r' => ∃ s, r' = { r with protocol := s, seq := r.seq + 1 } ∧
        (Link.flush s).Rested limit ∧ s.socket.input = r.protocol.socket.input ∧
        s.socket.output = (Message.request (r.seq + 1) r.currReqSize
          r.currRespSize).datagrams.map (none, ·))
      (fun f r' => ∃ s, r' = { r with protocol := s, seq := r.seq + 1 } ∧ f.OfSocket ∧
        r.protocol.socket.Unsent s.socket ∧ ¬Socket.TakesOver r.protocol.socket.sendtos) r := by
  have hsend : ∀ octets size, isLimitReached r.sendLimitOctets octets size = (false, size) :=
    fun octets size => isLimitReached_unlimited octets size (hr.unlimited .send)
  have hrecv : ∀ octets size, isLimitReached r.recvLimitOctets octets size = (false, size) :=
    fun octets size => isLimitReached_unlimited octets size (hr.unlimited .recv)
  simp only [ask, checkLimits, onProtocol, ends_bind, ends_get, ends_modify, ends_throwIf,
    ends_zoom, hsend, hrecv, Bool.false_eq_true, if_false]
  refine (sendRequest_unfragmented hs hkernel (r.seq + 1) (hr.request 0).1 (hr.response 0).1
    (hr.request 0).2).mono ?_ ?_
  · exact fun _ s h => ⟨s, rfl, h⟩
  · exact fun f s h => ⟨s, rfl, h⟩

theorem ends_await {Q : Unit → BabblerProtocol → Prop} {E : Fault → BabblerProtocol → Prop}
    (h : Ends (recvResponse r.seq) Q E r.protocol) :
    Ends await (fun _ r' => ∃ s, r' = { r with protocol := s } ∧ Q () s)
      (fun f r' => ∃ s, r' = { r with protocol := s } ∧ E f s) r := by
  simp only [await, onProtocol, ends_bind, ends_get, ends_zoom]
  exact h.mono (fun _ s hs => ⟨s, rfl, hs⟩) fun f s hs => ⟨s, rfl, hs⟩

theorem Within.isRequest (h : r.Within limit)
    (seq : UInt64) : IsRequest limit (Message.request seq r.currReqSize r.currRespSize).encode := by
  obtain ⟨h24, hreq⟩ := h.request 0
  obtain ⟨hresp, hresp'⟩ := h.response 0
  have h24' : 24 ≤ r.currReqSize.toNat := h24
  have hreq' : r.currReqSize.toNat ≤ limit := hreq
  refine ⟨_, rfl, ?_, rfl, ?_⟩
  · rw [Message.length_encode]
    show 24 + (r.currReqSize.toNat - 24) ≤ limit
    omega
  · by_cases hzero : r.currRespSize = 0
    · have hopt : (Message.request seq r.currReqSize r.currRespSize).options = 0 := by
        rw [hzero]
        rfl
      rw [hopt]
      show 0 + 24 ≤ limit
      omega
    · have h24'' : 24 ≤ r.currRespSize := hresp.resolve_left hzero
      rw [Message.request_options _ _ hzero, UInt32.toNat_sub_of_le _ _ h24'']
      have : 24 ≤ r.currRespSize.toNat := h24''
      have : r.currRespSize.toNat ≤ limit := hresp'
      show r.currRespSize.toNat - 24 + 24 ≤ limit
      omega

end Requestor

/-- Where a client is in its rounds. -/
inductive ClientPhase where
  | between
  /-- In `recvResponse`. -/
  | awaiting
  | ended (f : Fault)
  deriving DecidableEq

/-- A client on a datagram socket. -/
structure DatagramClient where
  requestor : Requestor
  phase : ClientPhase

namespace DatagramClient

/-- A round up to `recvResponse`, or to its end where no response is wanted. -/
def ask (addr : SockAddr) (sendtos : List Sendto) (c : DatagramClient) :
    Option (List Datagram × DatagramClient) :=
  if c.phase = .between then
    settle
      (fun _ r => (r.protocol.socket.mail addr none,
        if r.currRespSize ≠ 0 then ⟨r.mapProtocol Link.flush, .awaiting⟩
        else ⟨(r.mapProtocol Link.flush).schedule, .between⟩))
      (fun f r => (r.protocol.socket.mail addr none, ⟨r.mapProtocol Link.flush, .ended f⟩))
      (Requestor.ask (c.requestor.mapProtocol (facing [] sendtos)))
  else none

/-- `recvResponse`, and the end of the round. -/
def await (polls : List Poll) (c : DatagramClient) : Option DatagramClient :=
  if c.phase = .awaiting then
    settle (fun _ r => ⟨r.schedule, .between⟩) (fun f r => ⟨r, .ended f⟩)
      (Requestor.await (c.requestor.mapProtocol (facing polls [])))
  else none

/-- A datagram arrives at the socket. -/
def arrive (d : Datagram) (c : DatagramClient) : DatagramClient :=
  { c with requestor := c.requestor.mapProtocol (Link.post [d]) }

/-- The receive queue of the client's socket. -/
def queue (c : DatagramClient) : List Datagram :=
  c.requestor.protocol.socket.queue

/-- What the client waits for : the number and the size after the header. -/
def status (c : DatagramClient) : RequestReply.Status (UInt64 × UInt32) :=
  match c.phase with
  | .between => .idle
  | .awaiting => .waiting (c.requestor.seq, c.requestor.currRespSize - 24)
  | .ended _ => .gone

/-- What holds of a client at any time : its queue has responses only, and as long as it runs
nothing is buffered, and its messages fit. -/
structure Fits (limit : Nat) (c : DatagramClient) : Prop where
  input : c.requestor.protocol.socket.input = .datagrams c.queue
  queue : ∀ d ∈ c.queue, IsResponse limit d.2
  live : (∀ f, c.phase ≠ .ended f) →
    c.requestor.protocol.Rested limit ∧ c.requestor.Within limit

theorem fits_of_input {limit : Nat} {c : DatagramClient} {queue : List Datagram}
    (hin : c.requestor.protocol.socket.input = .datagrams queue)
    (hqueue : ∀ d ∈ queue, IsResponse limit d.2)
    (hlive : (∀ f, c.phase ≠ .ended f) →
      c.requestor.protocol.Rested limit ∧ c.requestor.Within limit) :
    c.Fits limit ∧ c.queue = queue := by
  have heq : c.queue = queue := Socket.queue_of_input hin
  exact ⟨⟨heq.symm ▸ hin, heq.symm ▸ hqueue, hlive⟩, heq⟩

/-- What `ask` did, with `sent`. -/
structure Asked (limit : Nat) (addr : SockAddr) (c : DatagramClient) (sent : List Datagram)
    (c' : DatagramClient) : Prop where
  phase : c.phase = .between
  queue : c'.queue = c.queue
  fault : ∀ f, c'.phase = .ended f → f.OfSocket
  sent : sent = [] ∨ ∃ m : Message, sent = [(addr, m.encode)] ∧ IsRequest limit m.encode ∧
    (c'.status = .waiting (m.seq, m.options) ∨ c'.status = .idle ∧ m.options = 0)

theorem ask_spec {limit : Nat} {c c' : DatagramClient}
    (h : c.Fits limit) {addr : SockAddr} {answers : List (Option Nat)} {sent : List Datagram}
    (hask : c.ask addr (answers.map datagramSendto) = some (sent, c')) :
    c'.Fits limit ∧ Asked limit addr c sent c' := by
  rw [ask] at hask
  split_ifs at hask with hphase
  obtain ⟨hrested, hwithin⟩ := h.live (by simp [hphase])
  have hkernel := whole_datagramSendto c.requestor.protocol.socket answers
    (hrested.room.trans hrested.sound.unsigned.le)
  have hends := Requestor.ask_unfragmented
    (r := c.requestor.mapProtocol (facing [] (answers.map datagramSendto)))
    (hwithin.elsewhere _ c.requestor.seq) (hrested.facing [] _) hkernel
  have hinput := h.input
  rcases settle_eq_some hends hask with
    ⟨_, r, ⟨s, rfl, hs, hin, hout⟩, heq⟩ | ⟨f, r, ⟨s, rfl, hf, hunsent, -⟩, heq⟩
  · obtain ⟨rfl, rfl⟩ := Prod.ext_iff.mp heq
    have hin' := hin.trans h.input
    have hmail : s.socket.mail addr none = (Message.request (c.requestor.seq + 1)
        c.requestor.currReqSize c.requestor.currRespSize).datagrams.map (addr, ·) :=
      Link.mail_eq hout addr
    have hsent : s.socket.mail addr none = [] ∨ s.socket.mail addr none = [(addr,
        (Message.request (c.requestor.seq + 1) c.requestor.currReqSize
          c.requestor.currRespSize).encode)] := by
      rw [hmail, Message.datagrams]
      split_ifs
      · exact .inl rfl
      · exact .inr rfl
    have hwithin' := hwithin.elsewhere (Link.flush s) (c.requestor.seq + 1)
    have hrequest := hwithin.isRequest (c.requestor.seq + 1)
    show (if c.requestor.currRespSize ≠ 0 then _ else _ : DatagramClient).Fits limit ∧
      Asked limit addr c (s.socket.mail addr none)
        (if c.requestor.currRespSize ≠ 0 then _ else _)
    by_cases hwanted : c.requestor.currRespSize ≠ 0
    · rw [if_pos hwanted]
      obtain ⟨hfits, hqueue⟩ := fits_of_input (c := ⟨_, .awaiting⟩) hin' h.queue
        fun _ => ⟨hs, hwithin'⟩
      refine ⟨hfits, hphase, hqueue, by simp, hsent.imp_right fun hsent => ⟨_, hsent, hrequest, ?_⟩⟩
      rw [Message.request_options _ _ hwanted]
      exact .inl rfl
    · rw [if_neg hwanted]
      obtain ⟨hfits, hqueue⟩ := fits_of_input (c := ⟨_, .between⟩) hin' h.queue
        fun _ => ⟨hs, hwithin'.schedule⟩
      refine ⟨hfits, hphase, hqueue, by simp, hsent.imp_right fun hsent => ⟨_, hsent, hrequest, ?_⟩⟩
      rw [not_not.mp hwanted]
      exact .inr ⟨rfl, rfl⟩
  · obtain ⟨rfl, rfl⟩ := Prod.ext_iff.mp heq
    have hmail : s.socket.mail addr none = [] := by
      rw [Socket.mail, hunsent.output.trans hrested.output]
      rfl
    have hin := hunsent.input.trans h.input
    let r := { c.requestor with protocol := Link.flush s, seq := c.requestor.seq + 1 }
    obtain ⟨hfits, hqueue⟩ := fits_of_input (c := ⟨r, .ended f⟩) hin h.queue
      fun hlive => absurd rfl (hlive f)
    refine ⟨hfits, hphase, hqueue, ?_, .inl hmail⟩
    rintro _ ⟨⟩
    exact hf

theorem phase_of_await {c c' : DatagramClient} {polls : List Poll}
    (h : c.await polls = some c') : c.phase = .awaiting := by
  rw [await] at h
  split_ifs at h with hphase
  exact hphase

/-- What `await` did. -/
inductive Awaited (polls : List Poll) (c c' : DatagramClient) : Prop where
  | response (src : SockAddr) (m : Message) (hqueue : c.queue = (src, m.encode) :: c'.queue)
      (hseq : m.seq = c.requestor.seq) (hphase : c'.phase = .between)
  | failed (f : Fault) (hf : f.OfSocket) (hqueue : c'.queue = c.queue ∨ c'.queue = c.queue.tail)
      (hkernel : c.queue ≠ [] → ¬Socket.HandsOver polls) (hphase : c'.phase = .ended f)
  /-- Not the response to the last request. -/
  | unexpected (src : SockAddr) (m : Message) (hqueue : c.queue = (src, m.encode) :: c'.queue)
      (hseq : m.seq ≠ c.requestor.seq)
      (hphase : c'.phase = .ended (.protocolException "Unexpected sequence number"))

theorem fronted_of_isResponse {limit : Nat} {queue : List Datagram}
    (h : ∀ d ∈ queue, IsResponse limit d.2) : Fronted limit queue := by
  intro d hd
  obtain ⟨m, hm, hle, -⟩ := h d (List.mem_of_mem_head? hd)
  exact ⟨m, hm, hle⟩

theorem await_spec {limit : Nat} {c : DatagramClient} (h : c.Fits limit)
    (hphase : c.phase = .awaiting) (polls : List Poll) :
    (c.queue ≠ [] → Socket.HandsOver polls → ∃ c', c.await polls = some c') ∧
      ∀ c', c.await polls = some c' → c'.Fits limit ∧ c'.requestor.seq = c.requestor.seq ∧
        Awaited polls c c' := by
  obtain ⟨hrested, hwithin⟩ := h.live (by simp [hphase])
  have hresp : ∀ m : Message, ∀ src, c.queue.head? = some (src, m.encode) →
      m.isRequest = false := by
    intro m src hhead
    obtain ⟨m', hm', -, hresp⟩ := h.queue _ (List.mem_of_mem_head? hhead)
    rwa [← Message.encode_injective hm'] at hresp
  have hends := Requestor.ends_await (r := c.requestor.mapProtocol (facing polls []))
    (recvResponse_unfragmented (hrested.facing polls []) h.input
      (fronted_of_isResponse h.queue) hresp c.requestor.seq)
  simp only [await, if_pos hphase]
  refine ⟨fun hne hkernel => exists_settle hends ?_ _ _, fun c' hawait => ?_⟩
  · rintro _ ⟨_, -, ⟨-, -, hnone⟩ | ⟨hf, -⟩⟩
    · exact hnone hne hkernel
    · cases hf
  have hwithin' := fun s => hwithin.elsewhere s c.requestor.seq
  have htook : ∀ {m : Message} {s : BabblerProtocol},
      (c.requestor.protocol.facing polls []).socket.Took c.queue m.encode s.socket →
      ∃ src rest, c.queue = (src, m.encode) :: rest ∧ s.socket.input = .datagrams rest ∧
        ∀ d ∈ rest, IsResponse limit d.2 := by
    rintro m s ⟨⟨src, rest, hqueue, hin, -⟩, -⟩
    exact ⟨src, rest, hqueue, hin, fun d hd =>
      h.queue d (hqueue ▸ List.mem_cons_of_mem _ hd)⟩
  rcases settle_eq_some hends hawait with
    ⟨_, r, ⟨s, rfl, hs, m, hseq, hm⟩, rfl⟩ | ⟨f, r, ⟨s, rfl, hf | ⟨rfl, m, hseq, hm⟩⟩, rfl⟩
  · obtain ⟨src, rest, hqueue, hin, hrest⟩ := htook hm
    obtain ⟨hfits, heq⟩ := fits_of_input
      (c := ⟨{ c.requestor with protocol := s }.schedule, .between⟩) hin hrest
      fun _ => ⟨hs, (hwithin' s).schedule⟩
    exact ⟨hfits, rfl, .response src m (hqueue.trans (by rw [← heq]; rfl)) hseq rfl⟩
  · obtain ⟨hf, ⟨hin, -⟩, hkernel⟩ := hf
    have hcase : ∃ rest, s.socket.input = .datagrams rest ∧
        (rest = c.queue ∨ rest = c.queue.tail) :=
      hin.elim (fun hin => ⟨_, hin, .inl rfl⟩) fun hin => ⟨_, hin, .inr rfl⟩
    obtain ⟨rest, hin, hrest⟩ := hcase
    have hfit : ∀ d ∈ rest, IsResponse limit d.2 := fun d hd =>
      h.queue d (hrest.elim (fun h => h ▸ hd) fun h => List.mem_of_mem_tail (h ▸ hd))
    obtain ⟨hfits, heq⟩ := fits_of_input
      (c := ⟨{ c.requestor with protocol := s }, .ended f⟩) hin hfit
      fun hlive => absurd rfl (hlive f)
    exact ⟨hfits, rfl, .failed f hf (heq ▸ hrest) hkernel rfl⟩
  · obtain ⟨src, rest, hqueue, hin, hrest⟩ := htook hm
    obtain ⟨hfits, heq⟩ := fits_of_input
      (c := ⟨{ c.requestor with protocol := s }, .ended _⟩) hin hrest
      fun hlive => absurd rfl (hlive _)
    exact ⟨hfits, rfl, .unexpected src m (hqueue.trans (by rw [← heq]; rfl)) hseq rfl⟩

/-- A response that arrives at a client. -/
theorem arrive_spec {limit : Nat} {c : DatagramClient}
    (h : c.Fits limit) {d : Datagram} (hd : IsResponse limit d.2) :
    (c.arrive d).Fits limit ∧ (c.arrive d).queue = c.queue ++ [d] := by
  have hin : (c.arrive d).requestor.protocol.socket.input = .datagrams (c.queue ++ [d]) := by
    show c.requestor.protocol.socket.input.post [d] = _
    rw [h.input]
    rfl
  refine DatagramClient.fits_of_input hin (forall_mem_append h.queue (by simpa using hd)) ?_
  intro hlive
  obtain ⟨hrested, hwithin⟩ := h.live hlive
  exact ⟨hrested.elsewhere _ hrested.output, hwithin.elsewhere _ c.requestor.seq⟩

end DatagramClient

/-! ## The server -/

/-- A thread of the server. -/
structure DatagramThread where
  protocol : BabblerProtocol
  /-- What `recvRequest` returned, until the response is sent. -/
  request : Option (UInt64 × UInt32)
  ended : Option Fault

/-- `doJob` on datagrams. -/
theorem Responder.doJob_eq_take : doJob true = (do
    let r ← recvRequest
    let s ← get
    sendResponse r.1 r.2 s.socket.peer
    pure r) := rfl

namespace DatagramThread

/-- The `recvRequest` of `doJob`, on the receive queue of the shared socket. -/
def take (polls : List Poll) (queue : List Datagram) (t : DatagramThread) :
    Option (List Datagram × DatagramThread) :=
  if t.ended = none ∧ t.request = none then
    settle (fun r s => (s.socket.queue, ⟨s, some r, none⟩))
      (fun f s => (s.socket.queue, ⟨s, none, some f⟩))
      (recvRequest { t.protocol with socket := { t.protocol.socket with
        input := .datagrams queue, polls := polls, sendtos := [] } })
  else none

/-- The `sendResponse` of `doJob`. -/
def answer (sendtos : List Sendto) (t : DatagramThread) : Option (List Datagram × DatagramThread) :=
  match t.ended, t.request with
  | none, some (seq, expSeqLen) =>
    settle (fun _ s => (s.socket.letters, ⟨Link.flush s, none, none⟩))
      (fun f s => (s.socket.letters, ⟨Link.flush s, none, some f⟩))
      (sendResponse seq expSeqLen t.protocol.socket.peer (t.protocol.facing [] sendtos))
  | _, _ => none

/-- What holds of a thread at any time : it has a request in hand only as long as it runs, and it
ends in its socket. -/
structure Fits (limit : Nat) (t : DatagramThread) : Prop where
  live : t.ended = none → t.protocol.Rested limit
  request : ∀ r, t.request = some r → t.ended = none ∧ r.2.toNat + 24 ≤ limit
  fault : ∀ f, t.ended = some f → f.OfSocket

theorem free_of_take {t t' : DatagramThread} {polls : List Poll} {queue rest : List Datagram}
    (h : t.take polls queue = some (rest, t')) : t.ended = none ∧ t.request = none := by
  rw [take] at h
  split_ifs at h with hfree
  exact hfree

theorem request_of_answer {t t' : DatagramThread} {sendtos : List Sendto} {sent : List Datagram}
    (h : t.answer sendtos = some (sent, t')) : ∃ seq options, t.request = some (seq, options) := by
  rcases t with ⟨protocol, _ | ⟨seq, options⟩, _ | f⟩
  · cases h
  · cases h
  · exact ⟨seq, options, rfl⟩
  · cases h

/-- What `take` did to the receive queue. -/
inductive Taken (polls : List Poll) (queue rest : List Datagram) (t' : DatagramThread) : Prop where
  | request (src : SockAddr) (m : Message) (hqueue : queue = (src, m.encode) :: rest)
      (hrequest : t'.request = some (m.seq, m.options)) (hpeer : t'.protocol.socket.peer = some src)
  | failed (hqueue : rest = queue ∨ rest = queue.tail)
      (hkernel : queue ≠ [] → ¬Socket.HandsOver polls) (hrequest : t'.request = none)

theorem take_spec {limit : Nat} {t : DatagramThread} (h : t.Fits limit) (hlive : t.ended = none)
    (hfree : t.request = none) {queue : List Datagram} (hqueue : ∀ d ∈ queue, IsRequest limit d.2)
    (polls : List Poll) :
    (queue ≠ [] → Socket.HandsOver polls → ∃ rest t', t.take polls queue = some (rest, t')) ∧
      ∀ rest t', t.take polls queue = some (rest, t') →
        t'.Fits limit ∧ Taken polls queue rest t' := by
  have hrested : BabblerProtocol.Rested limit { t.protocol with socket := { t.protocol.socket with
      input := .datagrams queue, polls := polls, sendtos := [] } } :=
    (h.live hlive).elsewhere _ (h.live hlive).output
  have hfront : Fronted limit queue := fun d hd => by
    obtain ⟨m, hm, hle, -⟩ := hqueue d (List.mem_of_mem_head? hd)
    exact ⟨m, hm, hle⟩
  have hreq : ∀ m : Message, ∀ src, queue.head? = some (src, m.encode) → m.isRequest = true := by
    intro m src hhead
    obtain ⟨m', hm', -, hreq, -⟩ := hqueue _ (List.mem_of_mem_head? hhead)
    rwa [← Message.encode_injective hm'] at hreq
  have hends := recvRequest_unfragmented hrested rfl hfront hreq
  simp only [take, if_pos (And.intro hlive hfree)]
  refine ⟨fun hne hkernel => ?_, fun rest t' htake => ?_⟩
  · obtain ⟨⟨rest, t'⟩, htake⟩ := exists_settle hends (fun _ he => he.2.2 hne hkernel)
      (fun r s => (s.socket.queue, (⟨s, some r, none⟩ : DatagramThread)))
      (fun f s => (s.socket.queue, ⟨s, none, some f⟩))
    exact ⟨rest, t', htake⟩
  rcases settle_eq_some hends htake with
    ⟨_, s, ⟨hs, m, rfl, ⟨⟨src, rest', rfl, hin, hpeer⟩, -⟩⟩, heq⟩ |
    ⟨f, s, ⟨hf, ⟨hin, -⟩, hkernel⟩, heq⟩
  · obtain ⟨rfl, rfl⟩ := Prod.ext_iff.mp heq
    obtain ⟨m', hm', -, -, hopt⟩ := hqueue (src, m.encode) List.mem_cons_self
    rw [← Message.encode_injective hm'] at hopt
    refine ⟨⟨fun _ => hs, ?_, by simp⟩, .request src m ?_ rfl hpeer⟩
    · rintro _ ⟨⟩
      exact ⟨rfl, hopt⟩
    · rw [Socket.queue_of_input hin]
  · obtain ⟨rfl, rfl⟩ := Prod.ext_iff.mp heq
    refine ⟨⟨by simp, by simp, ?_⟩, .failed ?_ hkernel rfl⟩
    · rintro _ ⟨⟩
      exact hf
    · exact hin.imp Socket.queue_of_input Socket.queue_of_input

/-- What `answer` did for the request that was in hand, with `sent`. -/
structure Answered (limit : Nat) (sendtos : List Sendto) (t : DatagramThread) (seq : UInt64)
    (options : UInt32) (sent : List Datagram) (t' : DatagramThread) : Prop where
  request : t'.request = none
  letters : sent = [] ∨ options ≠ 0 ∧ ∃ (peer : SockAddr) (m : Message),
    t.protocol.socket.peer = some peer ∧ sent = [(peer, m.encode)] ∧
    IsResponse limit m.encode ∧ m.seq = seq ∧ m.payloadLen = options.toNat
  complete : Socket.TakesOver sendtos → t'.ended = none ∧
    (options ≠ 0 → ∀ peer, t.protocol.socket.peer = some peer → sent ≠ [])

theorem response_payloadLen {limit : Nat} (hlimit : limit < 2 ^ 32) (seq : UInt64)
    {options : UInt32} (h : options.toNat + 24 ≤ limit) :
    (Message.response seq options).payloadLen = options.toNat := by
  show (options + 24).toNat - 24 = _
  rw [UInt32.toNat_add]
  show (options.toNat + 24) % 2 ^ 32 - 24 = _
  omega

theorem answer_spec {limit : Nat} {t : DatagramThread} (h : t.Fits limit) {seq : UInt64}
    {options : UInt32} (hrequest : t.request = some (seq, options)) (answers : List (Option Nat)) :
    (Socket.TakesOver (answers.map datagramSendto) →
        ∃ sent t', t.answer (answers.map datagramSendto) = some (sent, t')) ∧
      ∀ sent t', t.answer (answers.map datagramSendto) = some (sent, t') →
        t'.Fits limit ∧ Answered limit (answers.map datagramSendto) t seq options sent t' := by
  obtain ⟨hlive, hfit⟩ := h.request _ hrequest
  have hrested := h.live hlive
  have hlt : limit < 2 ^ 32 := hrested.room.trans_lt hrested.sound.unsigned
  have hlen := response_payloadLen hlt seq hfit
  have hends := sendResponse_unfragmented (hrested.facing [] _)
    (whole_datagramSendto t.protocol.socket answers hlt.le) seq hfit t.protocol.socket.peer
  simp only [answer, hlive, hrequest]
  refine ⟨fun hkernel => ?_, fun sent t' hanswer => ?_⟩
  · obtain ⟨⟨sent, t'⟩, hanswer⟩ := exists_settle hends (fun _ he => he.2.2 hkernel)
      (fun _ s => (s.socket.letters, (⟨Link.flush s, none, none⟩ : DatagramThread)))
      (fun f s => (s.socket.letters, ⟨Link.flush s, none, some f⟩))
    exact ⟨sent, t', hanswer⟩
  rcases settle_eq_some hends hanswer with
    ⟨_, s, ⟨hs, -, hout⟩, heq⟩ | ⟨f, s, ⟨hf, hunsent, hkernel⟩, heq⟩
  · obtain ⟨rfl, rfl⟩ := Prod.ext_iff.mp heq
    refine ⟨⟨fun _ => hs, by simp, by simp⟩, ?_⟩
    have hletters : s.socket.letters = t.protocol.socket.peer.elim [] fun addr =>
        if options.toNat = 0 then [] else [(addr, (Message.response seq options).encode)] := by
      rw [Socket.letters_eq hout, Message.datagrams, hlen]
      rcases t.protocol.socket.peer with _ | peer
      · rfl
      · split_ifs
        · simp
        · rfl
    have hzero : options ≠ 0 ↔ options.toNat ≠ 0 := not_congr (by rw [← UInt32.toNat_inj]; rfl)
    rcases hpeer : t.protocol.socket.peer with _ | peer
    · rw [hpeer, Option.elim_none] at hletters
      exact ⟨rfl, .inl hletters, fun _ => ⟨rfl, by simp [hpeer]⟩⟩
    · rw [hpeer, Option.elim_some] at hletters
      split_ifs at hletters with h0
      · exact ⟨rfl, .inl hletters, fun _ => ⟨rfl, fun hopt => absurd h0 (hzero.mp hopt)⟩⟩
      · have hfits : IsResponse limit (Message.response seq options).encode := by
          refine ⟨_, rfl, ?_, rfl⟩
          rw [Message.length_encode, hlen]
          omega
        refine ⟨rfl, .inr ⟨hzero.mpr h0, peer, _, hpeer, hletters, hfits, rfl, hlen⟩,
          fun _ => ⟨rfl, fun _ _ _ => ?_⟩⟩
        show s.socket.letters ≠ []
        rw [hletters]
        simp
  · obtain ⟨rfl, rfl⟩ := Prod.ext_iff.mp heq
    have hnone : s.socket.letters = [] := by
      rw [Socket.letters, hunsent.output.trans hrested.output]
      rfl
    refine ⟨⟨by simp, by simp, ?_⟩, rfl, .inl hnone, fun h => absurd h hkernel⟩
    rintro _ ⟨⟩
    exact hf

end DatagramThread

/-! ## The network -/

/-- The clients, the threads of the server, and the datagrams between them. -/
structure Network where
  /-- The address of the server's socket. -/
  server : SockAddr
  /-- The `i`-th client has the address `i`. -/
  clients : List DatagramClient
  threads : List DatagramThread
  /-- The receive queue of the socket that the threads share. -/
  queue : List Datagram
  /-- The datagrams on their way to the server, with their source. -/
  requests : List Datagram
  /-- The datagrams on their way to clients, with their destination. -/
  responses : List Datagram

namespace Network

/-- What a client, a thread or the network does next. -/
inductive Event where
  | ask (i : Nat) (answers : List (Option Nat))
  | await (i : Nat) (polls : List Poll)
  | take (j : Nat) (polls : List Poll)
  | answer (j : Nat) (answers : List (Option Nat))
  | requestArrives (k : Nat)
  | responseArrives (k : Nat)
  | loseRequest (k : Nat)
  | loseResponse (k : Nat)
  | duplicateRequest (k : Nat)
  | duplicateResponse (k : Nat)

/-- The network makes no second copy. -/
def Event.Single : Event → Prop
  | .duplicateRequest _ | .duplicateResponse _ => False
  | _ => True

/-- A step of the network. -/
def step (n : Network) : Event → Option Network
  | .ask i answers => do
    let c ← n.clients[i]?
    let (sent, c) ← c.ask i (answers.map datagramSendto)
    some { n with clients := n.clients.set i c, requests := n.requests ++ sent }
  | .await i polls => do
    let c ← n.clients[i]?
    let c ← c.await polls
    some { n with clients := n.clients.set i c }
  | .take j polls => do
    let t ← n.threads[j]?
    let (queue, t) ← t.take polls n.queue
    some { n with threads := n.threads.set j t, queue := queue }
  | .answer j answers => do
    let t ← n.threads[j]?
    let (sent, t) ← t.answer (answers.map datagramSendto)
    some { n with threads := n.threads.set j t, responses := n.responses ++ sent }
  | .requestArrives k => do
    let d ← n.requests[k]?
    some { n with requests := n.requests.eraseIdx k, queue := n.queue ++ [d] }
  | .responseArrives k => do
    let d ← n.responses[k]?
    let c ← n.clients[d.1]?
    some { n with
      responses := n.responses.eraseIdx k
      clients := n.clients.set d.1 (c.arrive (n.server, d.2)) }
  | .loseRequest k => do
    let _ ← n.requests[k]?
    some { n with requests := n.requests.eraseIdx k }
  | .loseResponse k => do
    let _ ← n.responses[k]?
    some { n with responses := n.responses.eraseIdx k }
  | .duplicateRequest k => do
    let d ← n.requests[k]?
    some { n with requests := n.requests ++ [d] }
  | .duplicateResponse k => do
    let d ← n.responses[k]?
    some { n with responses := n.responses ++ [d] }

/-- All messages are whole and fit into `limit` bytes, at every place. -/
structure Fits (limit : Nat) (n : Network) : Prop where
  clients : ∀ c ∈ n.clients, c.Fits limit
  threads : ∀ t ∈ n.threads, t.Fits limit
  requests : ∀ d ∈ n.requests, IsRequest limit d.2
  queue : ∀ d ∈ n.queue, IsRequest limit d.2
  responses : ∀ d ∈ n.responses, IsResponse limit d.2

/-- What a step does to a network whose messages fit. -/
inductive Moves (limit : Nat) (n : Network) : Event → Network → Prop where
  | ask (i : Nat) (answers : List (Option Nat)) (c c' : DatagramClient) (sent : List Datagram)
      (hc : n.clients[i]? = some c) (h : DatagramClient.Asked limit i c sent c') :
      Moves limit n (.ask i answers)
        { n with clients := n.clients.set i c', requests := n.requests ++ sent }
  | await (i : Nat) (polls : List Poll) (c c' : DatagramClient) (hc : n.clients[i]? = some c)
      (hphase : c.phase = .awaiting) (hseq : c'.requestor.seq = c.requestor.seq)
      (h : DatagramClient.Awaited polls c c') :
      Moves limit n (.await i polls) { n with clients := n.clients.set i c' }
  | take (j : Nat) (polls : List Poll) (t t' : DatagramThread) (rest : List Datagram)
      (ht : n.threads[j]? = some t) (hfree : t.request = none)
      (h : DatagramThread.Taken polls n.queue rest t') :
      Moves limit n (.take j polls) { n with threads := n.threads.set j t', queue := rest }
  | answer (j : Nat) (answers : List (Option Nat)) (t t' : DatagramThread) (seq : UInt64)
      (options : UInt32) (sent : List Datagram) (ht : n.threads[j]? = some t)
      (hrequest : t.request = some (seq, options))
      (h : DatagramThread.Answered limit (answers.map datagramSendto) t seq options sent t') :
      Moves limit n (.answer j answers)
        { n with threads := n.threads.set j t', responses := n.responses ++ sent }
  | requestArrives (k : Nat) (d : Datagram) (hd : n.requests[k]? = some d) :
      Moves limit n (.requestArrives k)
        { n with requests := n.requests.eraseIdx k, queue := n.queue ++ [d] }
  | responseArrives (k : Nat) (d : Datagram) (c : DatagramClient)
      (hd : n.responses[k]? = some d) (hc : n.clients[d.1]? = some c) :
      Moves limit n (.responseArrives k)
        { n with
          responses := n.responses.eraseIdx k
          clients := n.clients.set d.1 (c.arrive (n.server, d.2)) }
  | loseRequest (k : Nat) (d : Datagram) (hd : n.requests[k]? = some d) :
      Moves limit n (.loseRequest k) { n with requests := n.requests.eraseIdx k }
  | loseResponse (k : Nat) (d : Datagram) (hd : n.responses[k]? = some d) :
      Moves limit n (.loseResponse k) { n with responses := n.responses.eraseIdx k }
  | duplicateRequest (k : Nat) (d : Datagram) (hd : n.requests[k]? = some d) :
      Moves limit n (.duplicateRequest k) { n with requests := n.requests ++ [d] }
  | duplicateResponse (k : Nat) (d : Datagram) (hd : n.responses[k]? = some d) :
      Moves limit n (.duplicateResponse k) { n with responses := n.responses ++ [d] }

theorem step_spec {limit : Nat} {n n' : Network} {e : Event} (h : n.Fits limit)
    (hstep : n.step e = some n') : n'.Fits limit ∧ Moves limit n e n' := by
  obtain ⟨hclients, hthreads, hrequests, hqueue, hresponses⟩ := id h
  cases e <;> simp only [step, Option.bind_eq_bind, Option.bind_eq_some_iff, Option.some.injEq,
    Prod.exists] at hstep
  case ask i answers =>
    obtain ⟨c, hc, sent, c', hask, rfl⟩ := hstep
    obtain ⟨hfits, hasked⟩ := DatagramClient.ask_spec (hclients c (List.mem_of_getElem? hc)) hask
    refine ⟨⟨forall_mem_set hclients hfits, hthreads, forall_mem_append hrequests ?_, hqueue,
      hresponses⟩, .ask i answers c c' sent hc hasked⟩
    rcases hasked.sent with rfl | ⟨m, rfl, hm, -⟩
    · simp
    · simpa using hm
  case await i polls =>
    obtain ⟨c, hc, c', hawait, rfl⟩ := hstep
    have hphase := DatagramClient.phase_of_await hawait
    obtain ⟨hfits, hseq, hawaited⟩ :=
      (DatagramClient.await_spec (hclients c (List.mem_of_getElem? hc)) hphase polls).2 c' hawait
    exact ⟨⟨forall_mem_set hclients hfits, hthreads, hrequests, hqueue, hresponses⟩,
      .await i polls c c' hc hphase hseq hawaited⟩
  case take j polls =>
    obtain ⟨t, ht, rest, t', htake, rfl⟩ := hstep
    obtain ⟨hlive, hfree⟩ := DatagramThread.free_of_take htake
    obtain ⟨hfits, htaken⟩ := (DatagramThread.take_spec (hthreads t (List.mem_of_getElem? ht))
      hlive hfree hqueue polls).2 rest t' htake
    refine ⟨⟨hclients, forall_mem_set hthreads hfits, hrequests, ?_, hresponses⟩,
      .take j polls t t' rest ht hfree htaken⟩
    cases htaken with
    | request src m heq => exact fun d hd => hqueue d (heq ▸ List.mem_cons_of_mem _ hd)
    | failed heq =>
      rcases heq with rfl | rfl
      · exact hqueue
      · exact fun d hd => hqueue d (List.mem_of_mem_tail hd)
  case answer j answers =>
    obtain ⟨t, ht, sent, t', hanswer, rfl⟩ := hstep
    obtain ⟨seq, options, hrequest⟩ := DatagramThread.request_of_answer hanswer
    obtain ⟨hfits, hanswered⟩ := (DatagramThread.answer_spec
      (hthreads t (List.mem_of_getElem? ht)) hrequest answers).2 sent t' hanswer
    refine ⟨⟨hclients, forall_mem_set hthreads hfits, hrequests, hqueue,
      forall_mem_append hresponses ?_⟩,
      .answer j answers t t' seq options sent ht hrequest hanswered⟩
    rcases hanswered.letters with rfl | ⟨-, peer, m, -, rfl, hm, -⟩
    · simp
    · simpa using hm
  case requestArrives k =>
    obtain ⟨src, d, hd, rfl⟩ := hstep
    exact ⟨⟨hclients, hthreads, forall_mem_eraseIdx hrequests k, forall_mem_append hqueue
      (by simpa using hrequests _ (List.mem_of_getElem? hd)), hresponses⟩,
      .requestArrives k _ hd⟩
  case responseArrives k =>
    obtain ⟨dest, d, hd, c, hc, rfl⟩ := hstep
    have hfits := DatagramClient.arrive_spec (d := (n.server, d))
      (hclients c (List.mem_of_getElem? hc)) (hresponses (dest, d) (List.mem_of_getElem? hd))
    exact ⟨⟨forall_mem_set hclients hfits.1, hthreads, hrequests, hqueue,
      forall_mem_eraseIdx hresponses k⟩, .responseArrives k _ c hd hc⟩
  case loseRequest k =>
    obtain ⟨src, d, hd, rfl⟩ := hstep
    exact ⟨⟨hclients, hthreads, forall_mem_eraseIdx hrequests k, hqueue, hresponses⟩,
      .loseRequest k _ hd⟩
  case loseResponse k =>
    obtain ⟨dest, d, hd, rfl⟩ := hstep
    exact ⟨⟨hclients, hthreads, hrequests, hqueue, forall_mem_eraseIdx hresponses k⟩,
      .loseResponse k _ hd⟩
  case duplicateRequest k =>
    obtain ⟨src, d, hd, rfl⟩ := hstep
    exact ⟨⟨hclients, hthreads, forall_mem_append hrequests
      (by simpa using hrequests _ (List.mem_of_getElem? hd)), hqueue, hresponses⟩,
      .duplicateRequest k _ hd⟩
  case duplicateResponse k =>
    obtain ⟨dest, d, hd, rfl⟩ := hstep
    exact ⟨⟨hclients, hthreads, hrequests, hqueue, forall_mem_append hresponses
      (by simpa using hresponses _ (List.mem_of_getElem? hd))⟩, .duplicateResponse k _ hd⟩

end Network

end NetBabbler
