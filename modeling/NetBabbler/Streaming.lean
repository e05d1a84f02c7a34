import NetBabbler.Interleaving
import NetBabbler.Interrupted
import NetBabbler.Network
import NetBabbler.Threads
import NetBabbler.Transfer

/-!
# A client and its thread of the server over a stream

The two ends of a connection of a `cStatefulServer`, with bounded buffers between them. A
`sendto` that finds them full waits, and an end that is still sending does not read. What one
end hands over arrives in order, in pieces of any length and at any time. The kernels answer
as they like, and may fail.
-/

namespace NetBabbler

open EStateM BabblerProtocol Interleaving

/-! ## The calls -/

namespace BabblerProtocol

/-- Nothing is buffered at this end, and all it sent was taken. -/
structure AtRest (s : BabblerProtocol) : Prop where
  sound : s.Sound
  buffered : s.bufContentSize = 0
  output : s.socket.output = []

/-- `s` with `bs` to be read, before a kernel that gives these answers. -/
def reading (bs : List UInt8) (polls : List Poll) (sendtos : List Sendto) (s : BabblerProtocol) :
    BabblerProtocol :=
  { s with socket := { s.socket with input := .stream bs, polls := polls, sendtos := sendtos } }

variable {s s' : BabblerProtocol} {bs : List UInt8} {polls : List Poll} {sendtos : List Sendto}
  {m : Message}

theorem AtRest.reading (h : s.AtRest) (bs : List UInt8) (polls : List Poll)
    (sendtos : List Sendto) :
    (s.reading bs polls sendtos).AtRest ∧ (s.reading bs polls sendtos).socket.IsStream ∧
      (s.reading bs polls sendtos).pending = bs := by
  refine ⟨⟨h.sound.elsewhere _ _, h.buffered, h.output⟩, rfl, ?_⟩
  rw [pending, unread]
  show (s.buf.drop s.pBuf).take s.bufContentSize ++ bs = bs
  rw [h.buffered, List.take_zero, List.nil_append]

/-- What is sent from rest leaves the end at rest as soon as it is taken. -/
theorem AtRest.sent {dest : Option SockAddr} {n : Nat} (h : s.AtRest) (hs : s.Sent dest bs n s') :
    (Link.flush s').AtRest ∧ s'.socket.sent = bs := by
  refine ⟨⟨(hs.sound h.sound).elsewhere _ _, hs.bufContentSize.trans h.buffered, rfl⟩, ?_⟩
  rw [hs.writes.sent, Socket.sent, h.output]
  rfl

theorem AtRest.cutShort {dest : Option SockAddr} (h : s.AtRest) (hs : s.CutShort dest bs s') :
    s'.socket.sent <+: bs := by
  obtain ⟨ds, -, hpre, -, hw, -⟩ := hs.part
  rw [hw.sent, Socket.sent, h.output]
  exact hpre

/-- A whole message taken from rest leaves the end at rest. -/
theorem AtRest.took (h : s.AtRest) (hpending : s.pending = m.encode) (htook : s.Took m s') :
    s'.AtRest ∧ s'.socket.incoming = [] ∧ s'.stats = s.stats.receive m.encode.length 1 := by
  obtain ⟨cs, hreads, hstats, -⟩ := htook.received
  have hrest : s'.pending = [] := by
    have hall := htook.pending
    rw [hpending] at hall
    exact List.self_eq_append_right.mp hall
  obtain ⟨hunread, hinc⟩ := List.append_eq_nil_iff.mp hrest
  have hlen := htook.sound.length_unread
  have hunread' : s.unread = [] := by
    rw [unread, h.buffered, List.take_zero]
  have hcs : cs = m.encode := by
    have hall := hreads.incoming
    rw [hinc, List.append_nil] at hall
    rw [← hall, ← hpending, pending, hunread', List.nil_append]
  refine ⟨⟨htook.sound, ?_, hreads.output.trans h.output⟩, hinc, hcs ▸ hstats⟩
  rw [← hlen, hunread]
  rfl

theorem AtRest.awaits {P : Message → Prop} (h : s.AtRest) (hpre : s.pending <+: m.encode)
    (hP : P m) : s.Awaits P :=
  ⟨.inl h.buffered, fun _ => ⟨m, hP, .inr hpre⟩⟩

/-- A message is all that is pending where that is a part of a message. -/
theorem Took.eq_of_pending {m' : Message} (htook : s.Took m' s') (hpre : s.pending <+: m.encode) :
    m' = m ∧ s.pending = m.encode := by
  obtain rfl : m' = m :=
    Message.eq_of_matches (List.prefix_refl _) (.inl (htook.isPrefix.trans hpre))
  exact ⟨rfl, hpre.eq_of_length_le htook.isPrefix.length_le⟩

/-- A call that fails with a whole message pending was not served. -/
theorem ReceiveFault.not_serves {f : Fault} {P : Message → Prop} (hf : s.ReceiveFault P f)
    (hsocket : f.OfSocket) (hm : m.encode <+: s.pending) :
    ¬s.socket.Serves s.socket.incoming.length := by
  intro hserves
  cases f with
  | errorException what => exact not_unfinished hm (hf hserves)
  | eventException => exact not_unfinished hm (hf hserves)
  | blocked => exact not_unfinished hm (hf hserves)
  | _ => exact hsocket.elim

/-- `recvResponse` where part of the response, or all of it, has arrived. -/
theorem recvResponse_reading (h : s.AtRest) (hpre : bs <+: m.encode) (hresp : m.isRequest = false)
    (polls : List Poll) :
    Ends (recvResponse m.seq)
      (fun _ s' => bs = m.encode ∧ s'.AtRest ∧ s'.socket.incoming = [] ∧
        s'.stats = s.stats.receive m.encode.length 1)
      (fun f _ => f.OfSocket ∧
        ¬(bs = m.encode ∧ (s.reading bs polls []).socket.Serves bs.length))
      (s.reading bs polls []) := by
  obtain ⟨hrest, hstream, hpending⟩ := h.reading bs polls []
  refine (recvResponse_spec hrest.sound hstream m.seq).mono ?_ fun f _ hf => ?_
  · rintro _ s' ⟨m', -, htook⟩
    obtain ⟨rfl, hall⟩ := htook.eq_of_pending (hpending.symm ▸ hpre)
    exact ⟨hpending.symm.trans hall, hrest.took hall htook⟩
  · have hawaits : (s.reading bs polls []).Awaits
        ((s.reading bs polls []).IsResponse m.seq) :=
      hrest.awaits (hpending.symm ▸ hpre) fun _ => ⟨hresp, rfl⟩
    have hsocket := hawaits.ofSocket hf
    refine ⟨hsocket, ?_⟩
    rintro ⟨hall, hserves⟩
    have hm : m.encode <+: (s.reading bs polls []).pending := by rw [hpending, hall]
    exact hf.not_serves hsocket hm hserves

/-- `doJob` where part of the request, or all of it, has arrived. -/
theorem doJob_reading (h : s.AtRest) (hpre : bs <+: m.encode) (hreq : m.isRequest = true)
    (hreply : 0 < m.reply.payloadLen) (polls : List Poll) (sendtos : List Sendto) :
    Ends (Responder.doJob false)
      (fun _ s' => bs = m.encode ∧ (Link.flush s').AtRest ∧ s'.socket.incoming = [] ∧
        s'.socket.sent = m.reply.encode ∧
        s'.stats = (s.stats.receive m.encode.length 1).transmit m.reply.encode.length 1)
      (fun f s' => f.OfSocket ∧
        (s'.socket.sent = [] ∨ bs = m.encode ∧ s'.socket.sent <+: m.reply.encode) ∧
        ¬(bs = m.encode ∧ (s.reading bs polls sendtos).socket.Serves bs.length ∧
          (s.reading bs polls sendtos).socket.Accepts m.reply.encode.length))
      (s.reading bs polls sendtos) := by
  obtain ⟨hrest, hstream, hpending⟩ := h.reading bs polls sendtos
  have hwire := Message.wire_of_pos hreply
  have hpackets := Message.packets_of_pos hreply
  simp only [Responder.doJob, ends_bind, ends_get, ends_pure]
  refine ((recvRequest_spec hrest.sound hstream).and (unsaid_recvRequest _)).mono ?_ ?_
  · rintro _ s₁ ⟨⟨m', -, rfl, htook⟩, -⟩
    obtain ⟨rfl, hall⟩ := htook.eq_of_pending (hpending.symm ▸ hpre)
    obtain ⟨hrest₁, hinc, hstats⟩ := hrest.took hall htook
    refine ((sendResponse_spec htook.sound.length htook.sound.room m'.seq m'.options _ rfl).and
      (sendResponse_fails htook.sound.length htook.sound.room m'.seq m'.options _)).mono ?_ ?_
    · rintro _ s₂ ⟨⟨hsent, -⟩, -⟩
      obtain ⟨hrest₂, hbytes⟩ := hrest₁.sent hsent
      refine ⟨hpending.symm.trans hall, hrest₂, hsent.writes.incoming.trans hinc,
        hbytes.trans hwire, ?_⟩
      rw [hsent.stats, hstats]
      exact congrArg₂ (Stats.transmit _) (congrArg List.length hwire) hpackets
    · rintro f s₂ ⟨⟨hf, -, hnot⟩, hcut⟩
      refine ⟨hf, .inr ⟨hpending.symm.trans hall, ?_⟩, ?_⟩
      · exact hwire ▸ hrest₁.cutShort hcut
      · rintro ⟨-, -, haccepts⟩
        exact hnot (htook.accepts (hwire.symm ▸ haccepts))
  · rintro f s₁ ⟨hf, hunsaid⟩
    have hawaits : (s.reading bs polls sendtos).Awaits (s.reading bs polls sendtos).IsRequest :=
      hrest.awaits (hpending.symm ▸ hpre) fun _ => hreq
    have hsocket := hawaits.ofSocket hf
    refine ⟨hsocket, .inl ?_, ?_⟩
    · rw [Socket.sent, hunsaid.output, hrest.output]
      rfl
    · rintro ⟨hall, hserves, -⟩
      have hm : m.encode <+: (s.reading bs polls sendtos).pending := by rw [hpending, hall]
      exact hf.not_serves hsocket hm hserves

end BabblerProtocol

namespace Requestor

/-- No byte limit is set, and all messages of the schedule have a payload. -/
structure Conversing (r : Requestor) : Prop where
  unlimited : ∀ d, (r.limit d).toInt ≤ 0
  sizes : ∀ k, 24 < (schedule^[k] r).currReqSize ∧ 24 < (schedule^[k] r).currRespSize

variable {r : Requestor}

theorem Conversing.schedule (h : r.Conversing) : r.schedule.Conversing :=
  ⟨fun d => by rw [schedule_limit]; exact h.unlimited d, fun k => h.sizes (k + 1)⟩

theorem Conversing.elsewhere (h : r.Conversing) (s : BabblerProtocol) (seq : UInt64) :
    { r with protocol := s, seq := seq }.Conversing := by
  have hsame : SameSchedule r { r with protocol := s, seq := seq } := by
    refine ⟨rfl, rfl, rfl, rfl, fun d => ?_⟩
    cases d with
    | send => exact h.unlimited .send
    | recv => exact h.unlimited .recv
  refine ⟨hsame.unlimited, fun k => ?_⟩
  rw [(hsame.iterate k).currReqSize, (hsame.iterate k).currRespSize]
  exact h.sizes k

/-- The request of the round. -/
def currRequest (r : Requestor) : Message :=
  .request r.seq r.currReqSize r.currRespSize

theorem Conversing.currRequest (h : r.Conversing) :
    r.currRequest.isRequest = true ∧ 0 < r.currRequest.payloadLen ∧
      r.currRequest.encode.length = r.currReqSize.toNat ∧
      r.currRequest.reply.isRequest = false ∧ r.currRequest.reply.seq = r.seq ∧
      0 < r.currRequest.reply.payloadLen ∧
      r.currRequest.reply.encode.length = r.currRespSize.toNat := by
  obtain ⟨hreq, hresp⟩ := h.sizes 0
  have hreply : r.currRequest.reply = .response r.seq (r.currRespSize - 24) :=
    Link.reply_request r.seq hresp
  have hlt : 24 < r.currReqSize.toNat := hreq
  have hlt' : 24 < r.currRespSize.toNat := hresp
  refine ⟨rfl, Nat.sub_pos_of_lt hlt, (Link.wire_request r.seq hreq).2.2, rfl, rfl, ?_, ?_⟩
  · rw [hreply, Message.response_payloadLen]
    exact Nat.sub_pos_of_lt hlt'
  · rw [hreply]
    exact (Link.wire_response r.seq hresp).2.2

/-- `ask` sends the request of the next number, or the first part of it. -/
theorem ask_stream (h : r.Conversing) (hrest : r.protocol.AtRest) (sendtos : List Sendto) :
    Ends ask
      (fun _ r' => ∃ s, r' = { r with protocol := s, seq := r.seq + 1 } ∧ (Link.flush s).AtRest ∧
        s.socket.sent = r'.currRequest.encode ∧
        s.stats = r.protocol.stats.transmit r'.currRequest.encode.length 1)
      (fun f r' => ∃ s, r' = { r with protocol := s, seq := r.seq + 1 } ∧ f.OfSocket ∧
        s.socket.sent <+: r'.currRequest.encode ∧
        ¬(r.protocol.reading [] [] sendtos).socket.Accepts r.currReqSize.toNat)
      (r.mapProtocol (BabblerProtocol.reading [] [] sendtos)) := by
  have hsend : ∀ octets size, isLimitReached r.sendLimitOctets octets size = (false, size) :=
    fun octets size => isLimitReached_unlimited octets size (h.unlimited .send)
  have hrecv : ∀ octets size, isLimitReached r.recvLimitOctets octets size = (false, size) :=
    fun octets size => isLimitReached_unlimited octets size (h.unlimited .recv)
  obtain ⟨hreq, hresp⟩ : 24 < r.currReqSize ∧ 24 < r.currRespSize := h.sizes 0
  obtain ⟨hrest', -, -⟩ := hrest.reading [] [] sendtos
  obtain ⟨m, hm⟩ : ∃ m, m = Message.request (r.seq + 1) r.currReqSize r.currRespSize := ⟨_, rfl⟩
  obtain ⟨hwire, hpackets, hlen⟩ := hm ▸ Link.wire_request (r.seq + 1) hreq
  simp only [ask, mapProtocol, checkLimits, onProtocol, ends_bind, ends_get, ends_modify,
    ends_throwIf, ends_zoom, hsend, hrecv, Bool.false_eq_true, if_false]
  have hspec := sendRequest_spec hrest'.sound.length hrest'.sound.room (r.seq + 1)
    (UInt32.le_of_lt hreq) (.inr (UInt32.le_of_lt hresp)) hm
  have hfails := sendRequest_fails hrest'.sound.length hrest'.sound.room (r.seq + 1) r.currReqSize
    r.currRespSize
  rw [← hm] at hfails
  refine (hspec.and hfails).mono ?_ ?_
  · rintro _ s ⟨⟨hsent, -⟩, -⟩
    obtain ⟨hs, hbytes⟩ := hrest'.sent hsent
    refine ⟨s, rfl, hs, hbytes.trans (hm ▸ hwire), ?_⟩
    rw [hsent.stats, hwire, hpackets, hm]
    rfl
  · rintro f s ⟨⟨hf, -, hnot⟩, ⟨rfl, -⟩ | hcut⟩
    · cases hf
    · have hpart := hrest'.cutShort hcut
      rw [hwire] at hpart hnot
      rw [hm] at hpart
      exact ⟨s, rfl, hf, hpart, hlen ▸ hnot⟩

end Requestor

/-! ## The two ends -/

/-- A client on a stream. -/
structure StreamClient where
  requestor : Requestor
  phase : ClientPhase

namespace StreamClient

/-- A round up to the end of `sendRequest` but for the waiting for room in the buffers. -/
def ask (sendtos : List Sendto) (c : StreamClient) : Option (List UInt8 × StreamClient) :=
  if c.phase = .between then
    settle
      (fun _ r => (r.protocol.socket.sent,
        if r.currRespSize ≠ 0 then ⟨r.mapProtocol Link.flush, .awaiting⟩
        else ⟨(r.mapProtocol Link.flush).schedule, .between⟩))
      (fun f r => (r.protocol.socket.sent, ⟨r.mapProtocol Link.flush, .ended f⟩))
      (Requestor.ask (c.requestor.mapProtocol (reading [] [] sendtos)))
  else none

/-- `recvResponse` on what was read, and the end of the round. What an end that fails has read
is gone with it. -/
def await (polls : List Poll) (inbox : List UInt8) (c : StreamClient) :
    Option (List UInt8 × StreamClient) :=
  if c.phase = .awaiting then
    settle (fun _ r => (r.protocol.socket.incoming, ⟨r.schedule, .between⟩))
      (fun f r => ([], ⟨r, .ended f⟩))
      (Requestor.await (c.requestor.mapProtocol (reading inbox polls [])))
  else none

/-- What `ask` did, with `sent`. -/
structure Asked (c : StreamClient) (sent : List UInt8) (c' : StreamClient) : Prop where
  requestor : ∃ s, c'.requestor = { c.requestor with protocol := s, seq := c.requestor.seq + 1 }
  conversing : c'.requestor.Conversing
  outcome :
    (c'.phase = .awaiting ∧ c'.requestor.protocol.AtRest ∧
      sent = c'.requestor.currRequest.encode ∧ c'.requestor.protocol.stats =
        c.requestor.protocol.stats.transmit c'.requestor.currRequest.encode.length 1) ∨
    ∃ f, c'.phase = .ended f ∧ f.OfSocket ∧ sent <+: c'.requestor.currRequest.encode

/-- What `await` did, with `inbox` read. -/
structure Awaited (c : StreamClient) (inbox rest : List UInt8) (c' : StreamClient) : Prop where
  conversing : c'.requestor.Conversing
  rest : rest = []
  outcome :
    (c'.phase = .between ∧ (∃ s, c'.requestor = { c.requestor with protocol := s }.schedule) ∧
      c'.requestor.protocol.AtRest ∧ inbox = c.requestor.currRequest.reply.encode ∧
      c'.requestor.protocol.stats =
        c.requestor.protocol.stats.receive c.requestor.currRequest.reply.encode.length 1) ∨
    ∃ f, c'.phase = .ended f ∧ f.OfSocket ∧ c'.requestor.currRequest = c.requestor.currRequest

variable {c c' : StreamClient} {sent inbox rest : List UInt8} {polls : List Poll}
  {sendtos : List Sendto}

theorem ask_spec (hconversing : c.requestor.Conversing) (hrest : c.requestor.protocol.AtRest)
    (hphase : c.phase = .between) (sendtos : List Sendto) :
    (∀ sent c', c.ask sendtos = some (sent, c') → Asked c sent c') ∧
      ((c.requestor.protocol.reading [] [] sendtos).socket.Accepts
          c.requestor.currReqSize.toNat →
        ∃ sent c', c.ask sendtos = some (sent, c') ∧ c'.phase = .awaiting) := by
  have hends := Requestor.ask_stream hconversing hrest sendtos
  have hwanted : c.requestor.currRespSize ≠ 0 := by
    rintro hzero
    have hlt : 24 < c.requestor.currRespSize := (hconversing.sizes 0).2
    rw [hzero] at hlt
    exact absurd hlt (by decide)
  simp only [ask, if_pos hphase]
  refine ⟨fun sent c' hask => ?_, fun haccepts => ?_⟩
  · rcases settle_eq_some hends hask with
      ⟨_, r, ⟨s, rfl, hs, hsent, hstats⟩, heq⟩ | ⟨f, r, ⟨s, rfl, hf, hsent, -⟩, heq⟩
    · obtain ⟨rfl, heq⟩ := Prod.ext_iff.mp heq
      rw [if_pos hwanted] at heq
      subst heq
      exact ⟨⟨_, rfl⟩, hconversing.elsewhere _ _, .inl ⟨rfl, hs, hsent, hstats⟩⟩
    · obtain ⟨rfl, rfl⟩ := Prod.ext_iff.mp heq
      exact ⟨⟨_, rfl⟩, hconversing.elsewhere _ _, .inr ⟨f, rfl, hf, hsent⟩⟩
  · have hok := hends.mono (fun _ _ h => h) fun f r he => he.choose_spec.2.2.2 haccepts
    obtain ⟨_, r, hrun, s, rfl, -⟩ := hok.exists_ok
    refine ⟨_, _, congrArg _ hrun, ?_⟩
    show (if c.requestor.currRespSize ≠ 0 then _ else _ : StreamClient).phase = _
    rw [if_pos hwanted]

theorem await_spec (hconversing : c.requestor.Conversing) (hrest : c.requestor.protocol.AtRest)
    (hphase : c.phase = .awaiting) (hpre : inbox <+: c.requestor.currRequest.reply.encode)
    (polls : List Poll) :
    (∀ rest c', c.await polls inbox = some (rest, c') → Awaited c inbox rest c') ∧
      (inbox = c.requestor.currRequest.reply.encode →
        (c.requestor.protocol.reading inbox polls []).socket.Serves inbox.length →
        ∃ rest c', c.await polls inbox = some (rest, c') ∧ c'.phase = .between) := by
  obtain ⟨-, -, -, hresp, hseq, -⟩ := hconversing.currRequest
  have hends := Requestor.ends_await
    (r := c.requestor.mapProtocol (reading inbox polls []))
    (hseq ▸ recvResponse_reading hrest hpre hresp polls)
  simp only [await, if_pos hphase]
  refine ⟨fun rest c' hawait => ?_, fun hall hserves => ?_⟩
  · rcases settle_eq_some hends hawait with
      ⟨_, r, ⟨s, rfl, hinbox, hs, hinc, hstats⟩, heq⟩ | ⟨f, r, ⟨s, rfl, hf, -⟩, heq⟩
    · obtain ⟨rfl, rfl⟩ := Prod.ext_iff.mp heq
      exact ⟨(hconversing.elsewhere s _).schedule, hinc,
        .inl ⟨rfl, ⟨s, rfl⟩, hs, hinbox, hstats⟩⟩
    · obtain ⟨rfl, rfl⟩ := Prod.ext_iff.mp heq
      exact ⟨hconversing.elsewhere s _, rfl, .inr ⟨f, rfl, hf, rfl⟩⟩
  · have hok := hends.mono (fun _ _ h => h) fun f r he => he.choose_spec.2.2 ⟨hall, hserves⟩
    obtain ⟨_, r, hrun, -⟩ := hok.exists_ok
    exact ⟨_, _, congrArg _ hrun, rfl⟩

end StreamClient

/-- The thread of the server at the other end. -/
structure StreamThread where
  protocol : BabblerProtocol
  ended : Option Fault

/-- `doJob` on what was read : what is left of it, and what is sent. -/
def StreamThread.answer (polls : List Poll) (sendtos : List Sendto) (inbox : List UInt8)
    (t : StreamThread) : Option (List UInt8 × List UInt8 × StreamThread) :=
  if t.ended = none then
    settle (fun _ s => (s.socket.incoming, s.socket.sent, ⟨Link.flush s, none⟩))
      (fun f s => ([], s.socket.sent, ⟨Link.flush s, some f⟩))
      (Responder.doJob false (t.protocol.reading inbox polls sendtos))
  else none

namespace StreamThread

/-- What `answer` did, with `inbox` read. -/
structure Answered (m : Message) (t : StreamThread) (inbox rest sent : List UInt8)
    (t' : StreamThread) : Prop where
  rest : rest = []
  outcome :
    (t'.ended = none ∧ t'.protocol.AtRest ∧ inbox = m.encode ∧ sent = m.reply.encode ∧
      t'.protocol.stats =
        (t.protocol.stats.receive m.encode.length 1).transmit m.reply.encode.length 1) ∨
    ∃ f, t'.ended = some f ∧ f.OfSocket ∧
      (sent = [] ∨ inbox = m.encode ∧ sent <+: m.reply.encode)

theorem answer_spec {t : StreamThread} (hlive : t.ended = none) (hrest : t.protocol.AtRest)
    {m : Message} (hreq : m.isRequest = true) (hreply : 0 < m.reply.payloadLen)
    {inbox : List UInt8} (hpre : inbox <+: m.encode) (polls : List Poll) (sendtos : List Sendto) :
    (∀ rest sent t', t.answer polls sendtos inbox = some (rest, sent, t') →
        Answered m t inbox rest sent t') ∧
      (inbox = m.encode →
        (t.protocol.reading inbox polls sendtos).socket.Serves inbox.length →
        (t.protocol.reading inbox polls sendtos).socket.Accepts m.reply.encode.length →
        ∃ rest sent t', t.answer polls sendtos inbox = some (rest, sent, t') ∧
          t'.ended = none) := by
  have hends := doJob_reading hrest hpre hreq hreply polls sendtos
  simp only [answer, if_pos hlive]
  refine ⟨fun rest sent t' hanswer => ?_, fun hall hserves haccepts => ?_⟩
  · rcases settle_eq_some hends hanswer with
      ⟨_, s, ⟨hinbox, hs, hinc, hsent, hstats⟩, heq⟩ | ⟨f, s, ⟨hf, hsent, -⟩, heq⟩
    · obtain ⟨rfl, heq⟩ := Prod.ext_iff.mp heq
      obtain ⟨rfl, rfl⟩ := Prod.ext_iff.mp heq
      exact ⟨hinc, .inl ⟨rfl, hs, hinbox, hsent, hstats⟩⟩
    · obtain ⟨rfl, heq⟩ := Prod.ext_iff.mp heq
      obtain ⟨rfl, rfl⟩ := Prod.ext_iff.mp heq
      exact ⟨rfl, .inr ⟨f, rfl, hf, hsent⟩⟩
  · have hok := hends.mono (fun _ _ h => h) fun f r he => he.2.2 ⟨hall, hserves, haccepts⟩
    obtain ⟨_, s, hrun, -⟩ := hok.exists_ok
    exact ⟨_, _, _, congrArg _ hrun, rfl⟩

end StreamThread

/-- A client, a thread, and the bytes on their way between them. -/
structure StreamLink where
  client : StreamClient
  thread : StreamThread
  /-- From the client to the thread. -/
  forth : Transfer UInt8
  back : Transfer UInt8

namespace StreamLink

/-- What an end or a kernel does next. -/
inductive Event where
  | ask (sendtos : List Sendto)
  | await (polls : List Poll)
  | answer (polls : List Poll) (sendtos : List Sendto)
  /-- The kernel finds room for `n` bytes of the request. -/
  | transmitForth (n : Nat)
  /-- The thread reads `n` bytes. -/
  | drainForth (n : Nat)
  | transmitBack (n : Nat)
  | drainBack (n : Nat)

/-- Neither end reads before all it sent was taken. -/
def step (capacity : Nat) (l : StreamLink) : Event → Option StreamLink
  | .ask sendtos => do
    let (sent, client) ← l.client.ask sendtos
    some { l with client := client, forth := { l.forth with outbox := l.forth.outbox ++ sent } }
  | .await polls =>
    if l.forth.outbox = [] then do
      let (inbox, client) ← l.client.await polls l.back.inbox
      some { l with client := client, back := { l.back with inbox := inbox } }
    else none
  | .answer polls sendtos =>
    if l.back.outbox = [] then do
      let (inbox, sent, thread) ← l.thread.answer polls sendtos l.forth.inbox
      some { l with
        thread := thread
        forth := { l.forth with inbox := inbox }
        back := { l.back with outbox := sent } }
    else none
  | .transmitForth n => do
    let forth ← l.forth.transmit capacity n
    some { l with forth := forth }
  | .drainForth n =>
    if l.thread.ended = none ∧ l.back.outbox = [] then do
      let forth ← l.forth.drain n
      some { l with forth := forth }
    else none
  | .transmitBack n => do
    let back ← l.back.transmit capacity n
    some { l with back := back }
  | .drainBack n =>
    if l.client.phase = .awaiting ∧ l.forth.outbox = [] then do
      let back ← l.back.drain n
      some { l with back := back }
    else none

/-- A connection that was just made. -/
def start (requestor : Requestor) (protocol : BabblerProtocol) : StreamLink where
  client := ⟨requestor, .between⟩
  thread := ⟨protocol, none⟩
  forth := .empty
  back := .empty

end StreamLink

end NetBabbler
