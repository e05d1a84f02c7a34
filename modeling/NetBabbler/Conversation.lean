import NetBabbler.Streaming

/-!
# Rounds over a stream

What a client and its thread of the server do to each other, however their steps, the kernels'
answers and the bytes on their way are interleaved.

`run_turns` : at any time one of the two sends and the other one reads, and what is under way
between them is what was sent. So neither reports anything but an exception of its socket.
`run_progress` : the two never wait for each other, and every round comes to its end.
`run_rounds` : what the statistics say after a round does not depend on how it went.
-/

namespace NetBabbler

open EStateM BabblerProtocol Interleaving

namespace StreamLink

/-! ## Whose turn it is -/

/-- The statistics of the other end, where all that one end sent the other one received. -/
def mirror (st : Stats) : Stats :=
  { st with
    sentPackets := st.receivedPackets
    sentOctets := st.receivedOctets
    receivedPackets := st.sentPackets
    receivedOctets := st.sentOctets }

variable {capacity : Nat} {l l' : StreamLink} {e : Event}

/-- Neither end has failed. -/
def Alive (l : StreamLink) : Prop :=
  (∀ f, l.client.phase ≠ .ended f) ∧ l.thread.ended = none

/-- The request of the round. -/
def request (l : StreamLink) : Message :=
  l.client.requestor.currRequest

/-- The statistics at the client's end. -/
def clientStats (l : StreamLink) : Stats :=
  l.client.requestor.protocol.stats

/-- The statistics at the end of the server's thread. -/
def threadStats (l : StreamLink) : Stats :=
  l.thread.protocol.stats

/-- What is under way, and what the statistics say about it. -/
inductive Turn (l : StreamLink) : Prop where
  /-- Between two rounds. -/
  | quiet (hphase : l.client.phase = .between) (hforth : l.forth.whole = [])
      (hback : l.back.whole = [])
      (hstats : l.thread.ended = none → l.threadStats = mirror l.clientStats)
  /-- The request, or the part of it that a client sent which failed then. -/
  | asking (hphase : l.client.phase ≠ .between) (hback : l.back.whole = [])
      (hpart : l.thread.ended = none → l.forth.whole <+: l.request.encode)
      (hwhole : l.client.phase = .awaiting → l.thread.ended = none →
        l.forth.whole = l.request.encode ∧
        l.threadStats.receive l.request.encode.length 1 = mirror l.clientStats)
  /-- The response, or the part of it that a thread sent which failed then. -/
  | answering (hphase : l.client.phase ≠ .between) (hforth : l.forth.whole = [])
      (hpart : l.client.phase = .awaiting → l.back.whole <+: l.request.reply.encode)
      (hwhole : l.client.phase = .awaiting → l.thread.ended = none →
        l.back.whole = l.request.reply.encode ∧
        l.threadStats = mirror (l.clientStats.receive l.request.reply.encode.length 1))

/-- The invariant of a connection. -/
structure Fits (l : StreamLink) : Prop where
  conversing : l.client.requestor.Conversing
  client : (∀ f, l.client.phase ≠ .ended f) → l.client.requestor.protocol.AtRest
  thread : l.thread.ended = none → l.thread.protocol.AtRest
  clientFault : ∀ f, l.client.phase = .ended f → f.OfSocket
  threadFault : ∀ f, l.thread.ended = some f → f.OfSocket
  turn : l.Turn

/-- The number of rounds that an event starts. -/
def Event.asks : Event → Nat
  | .ask _ => 1
  | _ => 0

/-- What a step does to the two ends and to what is under way. -/
inductive Moves (l : StreamLink) : Event → StreamLink → Prop where
  | ask (sendtos : List Sendto) (sent : List UInt8) (c : StreamClient)
      (hphase : l.client.phase = .between) (hask : l.client.ask sendtos = some (sent, c)) :
      Moves l (.ask sendtos)
        { l with client := c, forth := { l.forth with outbox := l.forth.outbox ++ sent } }
  | await (polls : List Poll) (inbox : List UInt8) (c : StreamClient)
      (hphase : l.client.phase = .awaiting) (houtbox : l.forth.outbox = [])
      (hawait : l.client.await polls l.back.inbox = some (inbox, c)) :
      Moves l (.await polls) { l with client := c, back := { l.back with inbox := inbox } }
  | answer (polls : List Poll) (sendtos : List Sendto) (inbox sent : List UInt8)
      (t : StreamThread) (hlive : l.thread.ended = none) (houtbox : l.back.outbox = [])
      (hanswer : l.thread.answer polls sendtos l.forth.inbox = some (inbox, sent, t)) :
      Moves l (.answer polls sendtos)
        { l with
          thread := t
          forth := { l.forth with inbox := inbox }
          back := { l.back with outbox := sent } }
  | forth (e : Event) (t : Transfer UInt8) (hask : e.asks = 0)
      (hwhole : t.whole = l.forth.whole)
      (hwork : t.work < l.forth.work) : Moves l e { l with forth := t }
  | back (e : Event) (t : Transfer UInt8) (hask : e.asks = 0)
      (hwhole : t.whole = l.back.whole)
      (hwork : t.work < l.back.work) : Moves l e { l with back := t }

theorem step_spec (h : step capacity l e = some l') : Moves l e l' := by
  cases e with
  | ask sendtos =>
    obtain ⟨⟨sent, c⟩, hask, heq⟩ := Option.bind_eq_some_iff.mp h
    obtain rfl := Option.some.inj heq
    have hphase := hask
    rw [StreamClient.ask] at hphase
    split_ifs at hphase with hbetween
    exact .ask sendtos sent c hbetween hask
  | await polls =>
    simp only [step] at h
    split_ifs at h with houtbox
    obtain ⟨⟨inbox, c⟩, hawait, heq⟩ := Option.bind_eq_some_iff.mp h
    obtain rfl := Option.some.inj heq
    have hphase := hawait
    rw [StreamClient.await] at hphase
    split_ifs at hphase with hawaiting
    exact .await polls inbox c hawaiting houtbox hawait
  | answer polls sendtos =>
    simp only [step] at h
    split_ifs at h with houtbox
    obtain ⟨⟨inbox, sent, t⟩, hanswer, heq⟩ := Option.bind_eq_some_iff.mp h
    obtain rfl := Option.some.inj heq
    have hlive := hanswer
    rw [StreamThread.answer] at hlive
    split_ifs at hlive with hended
    exact .answer polls sendtos inbox sent t hended houtbox hanswer
  | transmitForth n =>
    obtain ⟨t, ht, heq⟩ := Option.bind_eq_some_iff.mp h
    obtain rfl := Option.some.inj heq
    obtain ⟨hwhole, hwork, -⟩ := Transfer.transmit_spec ht
    exact .forth _ t rfl hwhole hwork
  | drainForth n =>
    simp only [step] at h
    split_ifs at h
    obtain ⟨t, ht, heq⟩ := Option.bind_eq_some_iff.mp h
    obtain rfl := Option.some.inj heq
    obtain ⟨hwhole, hwork, -⟩ := Transfer.drain_spec ht
    exact .forth _ t rfl hwhole hwork
  | transmitBack n =>
    obtain ⟨t, ht, heq⟩ := Option.bind_eq_some_iff.mp h
    obtain rfl := Option.some.inj heq
    obtain ⟨hwhole, hwork, -⟩ := Transfer.transmit_spec ht
    exact .back _ t rfl hwhole hwork
  | drainBack n =>
    simp only [step] at h
    split_ifs at h
    obtain ⟨t, ht, heq⟩ := Option.bind_eq_some_iff.mp h
    obtain rfl := Option.some.inj heq
    obtain ⟨hwhole, hwork, -⟩ := Transfer.drain_spec ht
    exact .back _ t rfl hwhole hwork

/-- Moves of the data under way alone change nobody's turn. -/
theorem Turn.congr (h : l.Turn) (hclient : l'.client = l.client) (hthread : l'.thread = l.thread)
    (hforth : l'.forth.whole = l.forth.whole) (hback : l'.back.whole = l.back.whole) :
    l'.Turn := by
  have hrequest : l'.request = l.request := by rw [request, hclient, request]
  have hclientStats : l'.clientStats = l.clientStats := by rw [clientStats, hclient, clientStats]
  have hthreadStats : l'.threadStats = l.threadStats := by rw [threadStats, hthread, threadStats]
  cases h with
  | quiet hphase hforth' hback' hstats =>
    refine .quiet (hclient ▸ hphase) (hforth.trans hforth') (hback.trans hback') fun hlive => ?_
    rw [hclientStats, hthreadStats]
    exact hstats (hthread ▸ hlive)
  | asking hphase hback' hpart hwhole =>
    refine .asking (hclient ▸ hphase) (hback.trans hback') (fun hlive => ?_)
      fun hawaiting hlive => ?_
    · rw [hforth, hrequest]
      exact hpart (hthread ▸ hlive)
    · rw [hforth, hrequest, hclientStats, hthreadStats]
      exact hwhole (hclient ▸ hawaiting) (hthread ▸ hlive)
  | answering hphase hforth' hpart hwhole =>
    refine .answering (hclient ▸ hphase) (hforth.trans hforth') (fun hawaiting => ?_)
      fun hawaiting hlive => ?_
    · rw [hback, hrequest]
      exact hpart (hclient ▸ hawaiting)
    · rw [hback, hrequest, hclientStats, hthreadStats]
      exact hwhole (hclient ▸ hawaiting) (hthread ▸ hlive)

theorem mirror_transmit (st : Stats) (octets packets : Nat) :
    mirror (st.transmit octets packets) = (mirror st).receive octets packets := rfl

theorem mirror_receive (st : Stats) (octets packets : Nat) :
    mirror (st.receive octets packets) = (mirror st).transmit octets packets := rfl

theorem whole_concat {t : Transfer UInt8} (h : t.whole = []) (sent : List UInt8) :
    { t with outbox := t.outbox ++ sent }.whole = sent := by
  obtain ⟨hinbox, hpipe, houtbox⟩ := Transfer.whole_eq_nil_iff.mp h
  rw [Transfer.whole, hinbox, hpipe, houtbox]
  rfl

theorem encode_ne_nil (m : Message) : m.encode ≠ [] :=
  List.ne_nil_of_length_pos (by rw [Message.length_encode]; omega)

/-- The client starts a round. -/
theorem Fits.ask (h : l.Fits) {sendtos : List Sendto} {sent : List UInt8} {c : StreamClient}
    (hphase : l.client.phase = .between) (hask : l.client.ask sendtos = some (sent, c)) :
    Fits { l with client := c, forth := { l.forth with outbox := l.forth.outbox ++ sent } } := by
  have hasked := (StreamClient.ask_spec h.conversing (h.client (by simp [hphase])) hphase
    sendtos).1 _ _ hask
  cases h.turn with
  | asking hne => exact absurd hphase hne
  | answering hne => exact absurd hphase hne
  | quiet _ hforth hback hstats =>
    have hwhole := whole_concat hforth sent
    rcases hasked.outcome with ⟨hphase', hrest, hsent, hclient⟩ | ⟨f, hphase', hf, hsent⟩
    · refine ⟨hasked.conversing, fun _ => hrest, h.thread, ?_, h.threadFault, ?_⟩
      · exact fun f hended => absurd (hphase'.symm.trans hended) (by simp)
      · refine .asking (by simp [hphase']) hback (fun _ => ?_) fun _ hlive => ⟨?_, ?_⟩
        · exact hwhole.symm ▸ hsent ▸ List.prefix_refl _
        · exact hwhole.trans hsent
        · show l.threadStats.receive c.requestor.currRequest.encode.length 1 =
            mirror c.requestor.protocol.stats
          rw [hclient, mirror_transmit]
          exact congrArg (Stats.receive · _ _) (hstats hlive)
    · refine ⟨hasked.conversing, fun hlive => absurd hphase' (hlive f), h.thread, ?_,
        h.threadFault, ?_⟩
      · intro f' hended
        obtain rfl := ClientPhase.ended.inj (hphase'.symm.trans hended)
        exact hf
      · refine .asking (by simp [hphase']) hback (fun _ => ?_) fun hawaiting => ?_
        · exact hwhole.symm ▸ hsent
        · exact absurd (hphase'.symm.trans hawaiting) (by simp)

/-- All that is under way was read. -/
theorem whole_of_inbox {t : Transfer UInt8} {bs : List UInt8} (hpre : t.whole <+: bs)
    (hinbox : t.inbox = bs) : { t with inbox := [] }.whole = [] ∧ t.whole = bs := by
  have hall : t.inbox = t.whole :=
    t.inbox_isPrefix.eq_of_length_le (hinbox ▸ hpre.length_le)
  obtain ⟨hpipe, houtbox⟩ := Transfer.eq_nil_of_inbox_eq hall
  exact ⟨Transfer.whole_eq_nil_iff.mpr ⟨rfl, hpipe, houtbox⟩, hall.symm.trans hinbox⟩

theorem whole_of_nil {t : Transfer UInt8} (h : t.whole = []) :
    { t with inbox := [] }.whole = [] := by
  obtain ⟨-, hpipe, houtbox⟩ := Transfer.whole_eq_nil_iff.mp h
  exact Transfer.whole_eq_nil_iff.mpr ⟨rfl, hpipe, houtbox⟩

/-- What a waiting client has to read is the first part of its response. -/
theorem Turn.reply_isPrefix (h : l.Turn) (hphase : l.client.phase = .awaiting) :
    l.back.whole <+: l.request.reply.encode := by
  cases h with
  | quiet hbetween => exact absurd (hphase.symm.trans hbetween) (by simp)
  | asking _ hback => exact hback.symm ▸ List.nil_prefix
  | answering _ _ hpart => exact hpart hphase

/-- What a thread has to read is the first part of the request. -/
theorem Turn.request_isPrefix (h : l.Turn) (hlive : l.thread.ended = none) :
    l.forth.whole <+: l.request.encode := by
  cases h with
  | quiet _ hforth => exact hforth.symm ▸ List.nil_prefix
  | asking _ _ hpart => exact hpart hlive
  | answering _ hforth => exact hforth.symm ▸ List.nil_prefix

/-- The client looks at what it read. -/
theorem Fits.await (h : l.Fits) {polls : List Poll} {inbox : List UInt8} {c : StreamClient}
    (hphase : l.client.phase = .awaiting)
    (hawait : l.client.await polls l.back.inbox = some (inbox, c)) :
    Fits { l with client := c, back := { l.back with inbox := inbox } } := by
  have hrest := h.client (by simp [hphase])
  have hpre := h.turn.reply_isPrefix hphase
  have hawaited := (StreamClient.await_spec h.conversing hrest hphase
    (l.back.inbox_isPrefix.trans hpre) polls).1 _ _ hawait
  obtain rfl := hawaited.rest
  rcases hawaited.outcome with
    ⟨hphase', -, hrest', hinbox, hclient⟩ | ⟨f, hphase', hf, hrequest⟩
  · obtain ⟨hnil, hwhole'⟩ := whole_of_inbox hpre hinbox
    refine ⟨hawaited.conversing, fun _ => hrest', h.thread, ?_, h.threadFault, ?_⟩
    · exact fun f hended => absurd (hphase'.symm.trans hended) (by simp)
    · cases h.turn with
      | quiet hbetween => exact absurd (hphase.symm.trans hbetween) (by simp)
      | asking _ hback =>
        rw [hwhole'] at hback
        exact absurd hback (encode_ne_nil _)
      | answering _ hforth _ hwhole =>
        refine .quiet hphase' hforth hnil fun hlive => ?_
        show l.threadStats = mirror c.requestor.protocol.stats
        rw [hclient]
        exact (hwhole hphase hlive).2
  · refine ⟨hawaited.conversing, fun hlive => absurd hphase' (hlive f), h.thread, ?_,
      h.threadFault, ?_⟩
    · intro f' hended
      obtain rfl := ClientPhase.ended.inj (hphase'.symm.trans hended)
      exact hf
    · have hne : c.phase ≠ .between := by simp [hphase']
      have hnot : c.phase ≠ .awaiting := by simp [hphase']
      cases h.turn with
      | quiet hbetween => exact absurd (hphase.symm.trans hbetween) (by simp)
      | asking _ hback hpart _ =>
        refine .asking hne (whole_of_nil hback) (fun hlive => ?_) fun hawaiting => ?_
        · show l.forth.whole <+: c.requestor.currRequest.encode
          rw [hrequest]
          exact hpart hlive
        · exact absurd hawaiting hnot
      | answering _ hforth =>
        exact .answering hne hforth (fun hawaiting => absurd hawaiting hnot)
          fun hawaiting => absurd hawaiting hnot

/-- The thread looks at what it read. -/
theorem Fits.answer (h : l.Fits) {polls : List Poll} {sendtos : List Sendto}
    {inbox sent : List UInt8} {t : StreamThread} (hlive : l.thread.ended = none)
    (houtbox : l.back.outbox = [])
    (hanswer : l.thread.answer polls sendtos l.forth.inbox = some (inbox, sent, t)) :
    Fits { l with
      thread := t
      forth := { l.forth with inbox := inbox }
      back := { l.back with outbox := sent } } := by
  obtain ⟨hreq, -, -, -, -, hreply, -⟩ := h.conversing.currRequest
  have hpre := h.turn.request_isPrefix hlive
  have hanswered := (StreamThread.answer_spec hlive (h.thread hlive) hreq hreply
    (l.forth.inbox_isPrefix.trans hpre) polls sendtos).1 _ _ _ hanswer
  obtain rfl := hanswered.rest
  have hsame : { l.back with outbox := [] } = l.back := by rw [← houtbox]
  rcases hanswered.outcome with
    ⟨hlive', hrest', hinbox, rfl, hstats⟩ | ⟨f, hended, hf, hsent⟩
  · obtain ⟨hnil, hwhole'⟩ := whole_of_inbox hpre hinbox
    refine ⟨h.conversing, h.client, fun _ => hrest', h.clientFault, ?_, ?_⟩
    · exact fun f hended => absurd (hlive'.symm.trans hended) (by simp)
    · have hne := fun hforth : l.forth.whole = [] => encode_ne_nil l.request (hwhole' ▸ hforth)
      cases h.turn with
      | quiet _ hforth => exact absurd hforth hne
      | answering _ hforth => exact absurd hforth hne
      | asking hphase hback _ hwhole =>
        have hback' : { l.back with outbox := l.request.reply.encode }.whole =
            l.request.reply.encode := by
          have hconcat := whole_concat hback l.request.reply.encode
          rwa [houtbox, List.nil_append] at hconcat
        refine .answering hphase hnil (fun _ => ?_) fun hawaiting _ => ⟨hback', ?_⟩
        · exact hback'.symm ▸ List.prefix_refl _
        · show t.protocol.stats = _
          rw [hstats, mirror_receive]
          exact congrArg (Stats.transmit · _ _) (hwhole hawaiting hlive).2
  · have hnone : t.ended ≠ none := by simp [hended]
    refine ⟨h.conversing, h.client, fun hlive' => absurd hlive' hnone, h.clientFault, ?_, ?_⟩
    · intro f' hended'
      obtain rfl := Option.some.inj (hended.symm.trans hended')
      exact hf
    · rcases hsent with rfl | ⟨hinbox, hsent⟩
      · rw [hsame]
        cases h.turn with
        | quiet hphase hforth hback =>
          exact .quiet hphase (whole_of_nil hforth) hback fun hlive' => absurd hlive' hnone
        | asking hphase hback =>
          exact .asking hphase hback (fun hlive' => absurd hlive' hnone)
            fun _ hlive' => absurd hlive' hnone
        | answering hphase hforth hpart =>
          exact .answering hphase (whole_of_nil hforth) hpart
            fun _ hlive' => absurd hlive' hnone
      · obtain ⟨hnil, hwhole'⟩ := whole_of_inbox hpre hinbox
        have hne := fun hforth : l.forth.whole = [] => encode_ne_nil l.request (hwhole' ▸ hforth)
        cases h.turn with
        | quiet _ hforth => exact absurd hforth hne
        | answering _ hforth => exact absurd hforth hne
        | asking hphase hback =>
          have hback' : { l.back with outbox := sent }.whole = sent := by
            have hconcat := whole_concat hback sent
            rwa [houtbox, List.nil_append] at hconcat
          exact .answering hphase hnil (fun _ => hback'.symm ▸ hsent)
            fun _ hlive' => absurd hlive' hnone

theorem Fits.step (h : l.Fits) (hstep : step capacity l e = some l') : l'.Fits := by
  cases step_spec hstep with
  | ask sendtos sent c hphase hask => exact h.ask hphase hask
  | await polls inbox c hphase houtbox hawait => exact h.await hphase hawait
  | answer polls sendtos inbox sent t hlive houtbox hanswer =>
    exact h.answer hlive houtbox hanswer
  | forth _ t _ hwhole hwork =>
    exact ⟨h.conversing, h.client, h.thread, h.clientFault, h.threadFault,
      h.turn.congr rfl rfl hwhole rfl⟩
  | back _ t _ hwhole hwork =>
    exact ⟨h.conversing, h.client, h.thread, h.clientFault, h.threadFault,
      h.turn.congr rfl rfl rfl hwhole⟩

theorem fits_start {requestor : Requestor} {protocol : BabblerProtocol}
    (hconversing : requestor.Conversing) (hclient : requestor.protocol.AtRest)
    (hthread : protocol.AtRest) (hstats : protocol.stats = mirror requestor.protocol.stats) :
    (start requestor protocol).Fits where
  conversing := hconversing
  client _ := hclient
  thread _ := hthread
  clientFault f hended := by cases hended
  threadFault f hended := by cases hended
  turn := .quiet rfl rfl rfl fun _ => hstats

theorem run_fits {events : List Event} (h : l.Fits)
    (hrun : events.foldlM (step capacity) l = some l') : l'.Fits :=
  foldlM_invariant (fun _ _ _ hstep hI => hI.step hstep) events hrun h

/-! ## Progress -/

/-- How far the round is from its end. -/
def work (l : StreamLink) : Nat :=
  l.forth.work + l.back.work +
    (if l.forth.whole = [] then 0 else 2 * l.request.reply.encode.length + 1) +
    if l.client.phase = .awaiting then 1 else 0

/-- An end that failed takes no part any more. -/
theorem Moves.alive (h : Moves l e l') (halive : l'.Alive) : l.Alive := by
  cases h with
  | ask sendtos sent c hphase => exact ⟨by simp [hphase], halive.2⟩
  | await polls inbox c hphase => exact ⟨by simp [hphase], halive.2⟩
  | answer polls sendtos inbox sent t hlive => exact ⟨halive.1, hlive⟩
  | forth _ t => exact halive
  | back _ t => exact halive

theorem work_empty {t : Transfer UInt8} (h : t.whole = []) : t.work = 0 := by
  obtain ⟨-, hpipe, houtbox⟩ := Transfer.whole_eq_nil_iff.mp h
  rw [Transfer.work, hpipe, houtbox]
  rfl

/-- What is not the start of a round brings it nearer to its end. -/
theorem Fits.work_lt (h : l.Fits) (hask : e.asks = 0)
    (hstep : StreamLink.step capacity l e = some l') (halive : l'.Alive) : l'.work < l.work := by
  have hmoves := step_spec hstep
  have halive₀ := hmoves.alive halive
  cases hmoves with
  | ask sendtos => exact absurd hask Nat.one_ne_zero
  | await polls inbox c hphase houtbox hawait =>
    have hpre := h.turn.reply_isPrefix hphase
    have hawaited := (StreamClient.await_spec h.conversing (h.client halive₀.1) hphase
      (l.back.inbox_isPrefix.trans hpre) polls).1 _ _ hawait
    obtain rfl := hawaited.rest
    rcases hawaited.outcome with ⟨hphase', -, -, hinbox, -⟩ | ⟨f, hended, -⟩
    · obtain ⟨hnil, hwhole⟩ := whole_of_inbox hpre hinbox
      have hforth : l.forth.whole = [] := by
        cases h.turn with
        | quiet _ hforth => exact hforth
        | asking _ hback => exact absurd (hwhole.symm.trans hback) (encode_ne_nil _)
        | answering _ hforth => exact hforth
      simp only [work, hforth, if_true, hphase', hphase, work_empty hnil]
      simp
    · exact absurd hended (halive.1 f)
  | answer polls sendtos inbox sent t hlive houtbox hanswer =>
    obtain ⟨hreq, -, -, -, -, hreply, -⟩ := h.conversing.currRequest
    have hpre := h.turn.request_isPrefix hlive
    have hanswered := (StreamThread.answer_spec hlive (h.thread hlive) hreq hreply
      (l.forth.inbox_isPrefix.trans hpre) polls sendtos).1 _ _ _ hanswer
    obtain rfl := hanswered.rest
    rcases hanswered.outcome with ⟨-, -, hinbox, rfl, -⟩ | ⟨f, hended, -⟩
    · obtain ⟨hnil, hwhole⟩ := whole_of_inbox hpre hinbox
      have hnot : l.forth.whole ≠ [] := fun hforth => encode_ne_nil _ (hwhole.symm.trans hforth)
      have hback : l.back.work = l.back.pipe.length := by
        rw [Transfer.work, houtbox]
        exact Nat.zero_add _
      simp only [work, hnil, if_true, if_neg hnot, work_empty hnil, hback]
      show 0 + (2 * l.request.reply.encode.length + l.back.pipe.length) + 0 + _ < _
      omega
    · exact absurd (hended.symm.trans halive.2) (by simp)
  | forth _ t _ hwhole hwork =>
    show t.work + l.back.work + (if t.whole = [] then 0 else _) + _ < l.work
    rw [work, hwhole]
    exact Nat.add_lt_add_right (Nat.add_lt_add_right (Nat.add_lt_add_right hwork _) _) _
  | back _ t _ hwhole hwork =>
    show l.forth.work + t.work + (if l.forth.whole = [] then 0 else _) + _ < l.work
    rw [work]
    exact Nat.add_lt_add_right (Nat.add_lt_add_right (Nat.add_lt_add_left hwork _) _) _

/-- Answers of a kernel that serves this many bytes one by one. -/
def polling (n : Nat) : List Poll :=
  List.replicate n (.ready ⟨false, some (.data 1), false⟩)

/-- A kernel that takes `n` bytes, one at a time. -/
def accepting (n : Nat) : List Sendto :=
  List.replicate n (.accepted 1)

theorem serves_polling (s : BabblerProtocol) (bs : List UInt8) (sendtos : List Sendto) :
    (s.reading bs (polling bs.length) sendtos).socket.Serves bs.length := by
  refine ⟨fun p hp => ⟨1, Nat.one_pos, List.eq_of_mem_replicate hp⟩, ?_⟩
  show bs.length ≤ (polling bs.length).length
  rw [polling, List.length_replicate]

theorem accepts_accepting (s : BabblerProtocol) (bs : List UInt8) (polls : List Poll) (n : Nat) :
    (s.reading bs polls (accepting n)).socket.Accepts n := by
  refine ⟨fun r hr => ⟨1, Nat.one_pos, List.eq_of_mem_replicate hr⟩, ?_⟩
  show n ≤ (accepting n).length
  rw [accepting, List.length_replicate]

/-- A client that waits for its response does not wait in vain. -/
theorem Fits.exists_step (h : l.Fits) (halive : l.Alive) (hphase : l.client.phase = .awaiting)
    (hcapacity : 0 < capacity) :
    ∃ e l', e.asks = 0 ∧ StreamLink.step capacity l e = some l' ∧ l'.Alive := by
  cases h.turn with
  | quiet hbetween => exact absurd (hphase.symm.trans hbetween) (by simp)
  | asking _ hback _ hwhole =>
    obtain ⟨hall, -⟩ := hwhole hphase halive.2
    obtain ⟨-, -, houtbox⟩ := Transfer.whole_eq_nil_iff.mp hback
    by_cases hinbox : l.forth.inbox = l.forth.whole
    · obtain ⟨hreq, -, -, -, -, hreply, -⟩ := h.conversing.currRequest
      obtain ⟨rest, sent, t, hanswer, hlive⟩ := (StreamThread.answer_spec halive.2
        (h.thread halive.2) hreq hreply (by rw [hinbox, hall]; exact List.prefix_refl _)
        (polling l.forth.inbox.length) (accepting l.request.reply.encode.length)).2
        (hinbox.trans hall) (serves_polling _ _ _) (accepts_accepting _ _ _ _)
      refine ⟨.answer (polling l.forth.inbox.length)
        (accepting l.request.reply.encode.length), { l with
        thread := t
        forth := { l.forth with inbox := rest }
        back := { l.back with outbox := sent } }, rfl, ?_, halive.1, hlive⟩
      simp only [StreamLink.step, if_pos houtbox, hanswer]
      rfl
    · rcases Transfer.exists_moves hcapacity hinbox with ⟨t, ht⟩ | ⟨-, t, ht⟩
      · refine ⟨.transmitForth 1, { l with forth := t }, rfl, ?_, halive⟩
        simp only [StreamLink.step, ht]
        rfl
      · refine ⟨.drainForth 1, { l with forth := t }, rfl, ?_, halive⟩
        simp only [StreamLink.step, if_pos (And.intro halive.2 houtbox), ht]
        rfl
  | answering _ hforth _ hwhole =>
    obtain ⟨hall, -⟩ := hwhole hphase halive.2
    obtain ⟨-, -, houtbox⟩ := Transfer.whole_eq_nil_iff.mp hforth
    by_cases hinbox : l.back.inbox = l.back.whole
    · obtain ⟨rest, c, hawait, hphase'⟩ := (StreamClient.await_spec h.conversing
        (h.client halive.1) hphase (by rw [hinbox, hall]; exact List.prefix_refl _)
        (polling l.back.inbox.length)).2 (hinbox.trans hall) (serves_polling _ _ _)
      refine ⟨.await (polling l.back.inbox.length),
        { l with client := c, back := { l.back with inbox := rest } }, rfl, ?_,
        ⟨by simp [hphase'], halive.2⟩⟩
      simp only [StreamLink.step, if_pos houtbox, hawait]
      rfl
    · rcases Transfer.exists_moves hcapacity hinbox with ⟨t, ht⟩ | ⟨-, t, ht⟩
      · refine ⟨.transmitBack 1, { l with back := t }, rfl, ?_, halive⟩
        simp only [StreamLink.step, ht]
        rfl
      · refine ⟨.drainBack 1, { l with back := t }, rfl, ?_, halive⟩
        simp only [StreamLink.step, if_pos (And.intro hphase houtbox), ht]
        rfl

/-- So its round can come to its end. -/
theorem Fits.exists_run (h : l.Fits) (halive : l.Alive) (hcapacity : 0 < capacity) :
    ∃ (events : List Event) (l' : StreamLink), (∀ e ∈ events, e.asks = 0) ∧
      events.foldlM (StreamLink.step capacity) l = some l' ∧ l'.Alive ∧
      l'.client.phase = .between := by
  refine exists_foldlM_of_lt (I := fun n l => l.Fits ∧ l.Alive ∧ l.work = n) ?_ _
    ⟨h, halive, rfl⟩
  rintro n l ⟨h, halive, rfl⟩ hnot
  rcases hphase : l.client.phase with _ | _ | f
  · exact absurd ⟨halive, hphase⟩ hnot
  · obtain ⟨e, l₁, hask, hstep, halive₁⟩ := h.exists_step halive hphase hcapacity
    have hlt := h.work_lt hask hstep halive₁
    exact ⟨e, l₁, hask, hstep, .inr ⟨_, hlt, h.step hstep, halive₁, rfl⟩⟩
  · exact absurd hphase (halive.1 f)

theorem alive_of_run : ∀ (events : List Event) {l : StreamLink},
    events.foldlM (step capacity) l = some l' → l'.Alive → l.Alive
  | [], l, hrun, halive => by
    obtain rfl := Option.some.inj hrun
    exact halive
  | e :: events, l, hrun, halive => by
    rw [List.foldlM_cons] at hrun
    obtain ⟨l₁, hstep, hrest⟩ := Option.bind_eq_some_iff.mp hrun
    exact (step_spec hstep).alive (alive_of_run events hrest halive)

/-- Nor does anything go on for ever without it. -/
theorem Fits.run_work : ∀ (events : List Event) {l : StreamLink}, l.Fits →
    (∀ e ∈ events, e.asks = 0) → events.foldlM (StreamLink.step capacity) l = some l' → l'.Alive →
    events.length + l'.work ≤ l.work
  | [], l, _, _, hrun, _ => by
    obtain rfl := Option.some.inj hrun
    exact (Nat.zero_add _).le
  | e :: events, l, h, hasks, hrun, halive => by
    rw [List.foldlM_cons] at hrun
    obtain ⟨l₁, hstep, hrest⟩ := Option.bind_eq_some_iff.mp hrun
    obtain ⟨hask, hasks⟩ := List.forall_mem_cons.mp hasks
    have hlt := h.work_lt hask hstep (alive_of_run events hrest halive)
    have hle := Fits.run_work events (h.step hstep) hasks hrest halive
    rw [List.length_cons]
    omega

/-! ## The rounds -/

/-- The statistics of a client after `k` rounds of the schedule. -/
def played (r : Requestor) (k : Nat) : Stats :=
  let rounds := List.range k
  (r.protocol.stats.transmit
    (rounds.map fun i => (Requestor.schedule^[i] r).currReqSize.toNat).sum k).receive
    (rounds.map fun i => (Requestor.schedule^[i] r).currRespSize.toNat).sum k

theorem played_succ (r : Requestor) (k : Nat) :
    played r (k + 1) =
      ((played r k).transmit (Requestor.schedule^[k] r).currReqSize.toNat 1).receive
        (Requestor.schedule^[k] r).currRespSize.toNat 1 := by
  simp only [played, List.range_succ, List.map_append, List.map_singleton, List.sum_append,
    List.sum_singleton]
  rw [← Stats.transmit_transmit, ← Stats.receive_receive]
  rfl

/-- A client in its `k`-th round, or after it. -/
def Played (r : Requestor) (k : Nat) (c : StreamClient) : Prop :=
  match c.phase with
  | .between => Requestor.SameSchedule (Requestor.schedule^[k] r) c.requestor ∧
    c.requestor.seq = r.seq + UInt64.ofNat k ∧ c.requestor.protocol.stats = played r k
  | .awaiting => ∃ j, k = j + 1 ∧
    Requestor.SameSchedule (Requestor.schedule^[j] r) c.requestor ∧
    c.requestor.seq = r.seq + UInt64.ofNat k ∧ c.requestor.protocol.stats =
      (played r j).transmit (Requestor.schedule^[j] r).currReqSize.toNat 1
  | .ended _ => True

theorem sameSchedule_elsewhere {r r' : Requestor} (h : Requestor.SameSchedule r r')
    (s : BabblerProtocol) (seq : UInt64) :
    Requestor.SameSchedule r { r' with protocol := s, seq := seq } := by
  refine ⟨h.comSettings, h.currReqSize, h.currRespSize, h.rng, fun d => ?_⟩
  cases d with
  | send => exact h.unlimited .send
  | recv => exact h.unlimited .recv

theorem Fits.played {r : Requestor} {k : Nat} (h : l.Fits) (hplayed : Played r k l.client)
    (hstep : StreamLink.step capacity l e = some l') : Played r (k + e.asks) l'.client := by
  cases step_spec hstep with
  | ask sendtos sent c hphase hask =>
    have hasked := (StreamClient.ask_spec h.conversing (h.client (by simp [hphase])) hphase
      sendtos).1 _ _ hask
    rw [Played, hphase] at hplayed
    obtain ⟨hsame, hseq, hstats⟩ := hplayed
    obtain ⟨s, hr⟩ := hasked.requestor
    rcases hasked.outcome with ⟨hphase', -, -, hclient⟩ | ⟨f, hphase', -⟩
    · obtain ⟨-, -, hlen, -⟩ := hasked.conversing.currRequest
      simp only [Played, hphase']
      refine ⟨k, rfl, hr ▸ sameSchedule_elsewhere hsame s _, ?_, ?_⟩
      · rw [hr]
        show l.client.requestor.seq + 1 = _
        rw [hseq, UInt64.add_assoc, Event.asks, UInt64.ofNat_add]
        rfl
      · rw [hclient, hlen, hstats, hr]
        exact congrArg (fun size : UInt32 => (played r k).transmit size.toNat 1) hsame.currReqSize
    · simp only [Played, hphase']
  | await polls inbox c hphase houtbox hawait =>
    have hpre := h.turn.reply_isPrefix hphase
    have hawaited := (StreamClient.await_spec h.conversing (h.client (by simp [hphase])) hphase
      (l.back.inbox_isPrefix.trans hpre) polls).1 _ _ hawait
    rw [Played, hphase] at hplayed
    obtain ⟨j, rfl, hsame, hseq, hstats⟩ := hplayed
    rcases hawaited.outcome with ⟨hphase', ⟨s, hr⟩, -, -, hclient⟩ | ⟨f, hphase', -⟩
    · obtain ⟨-, -, -, -, -, -, hlen⟩ := h.conversing.currRequest
      simp only [Played, hphase']
      refine ⟨?_, ?_, ?_⟩
      · rw [hr]
        show Requestor.SameSchedule (Requestor.schedule^[j + 1] r) _
        rw [Function.iterate_succ_apply']
        exact (sameSchedule_elsewhere hsame s l.client.requestor.seq).schedule
      · rw [hr]
        exact hseq
      · rw [hclient, hlen, hstats, hsame.currRespSize]
        exact (played_succ r j).symm
    · simp only [Played, hphase']
  | answer polls sendtos inbox sent t hlive houtbox hanswer => exact hplayed
  | forth _ t hask => exact hask.symm ▸ hplayed
  | back _ t hask => exact hask.symm ▸ hplayed

theorem run_played {r : Requestor} : ∀ (events : List Event) {l : StreamLink} {k : Nat}, l.Fits →
    Played r k l.client → events.foldlM (StreamLink.step capacity) l = some l' →
    Played r (k + (events.map Event.asks).sum) l'.client
  | [], l, k, _, hplayed, hrun => by
    obtain rfl := Option.some.inj hrun
    exact hplayed
  | e :: events, l, k, h, hplayed, hrun => by
    rw [List.foldlM_cons] at hrun
    obtain ⟨l₁, hstep, hrest⟩ := Option.bind_eq_some_iff.mp hrun
    rw [List.map_cons, List.sum_cons, ← Nat.add_assoc]
    exact run_played events (h.step hstep) (h.played hplayed hstep) hrest

/-! ## Whole runs -/

/-- A requestor and a responder at the two ends of a new connection. There are no byte limits, and
in all rounds the request and the response have a payload (`Requestor.Conversing`). -/
structure Connected (r : Requestor) (s : BabblerProtocol) : Prop where
  conversing : r.Conversing
  client : r.protocol.AtRest
  thread : s.AtRest
  stats : s.stats = mirror r.protocol.stats

theorem atRest_init {socket : Socket} {buf : List UInt8} (h64 : 64 ≤ buf.length)
    (hbuf : buf.length < 2 ^ 32) (hout : socket.output = []) :
    (BabblerProtocol.init socket buf).AtRest :=
  ⟨sound_init h64 hbuf, rfl, hout⟩

/-- Settings whose messages all have a payload make such connections. -/
theorem connected_init {c : ComSettings}
    (hreqs : c.Stays c.requestSizeMin c.requestSizeMax (24 < ·))
    (hresps : c.Stays c.responseSizeMin c.responseSizeMax (24 < ·)) {socket socket' : Socket}
    {buf buf' : List UInt8} (h64 : 64 ≤ buf.length) (hbuf : buf.length < 2 ^ 32)
    (h64' : 64 ≤ buf'.length) (hbuf' : buf'.length < 2 ^ 32) (hout : socket.output = [])
    (hout' : socket'.output = []) (rng : Nat → Nat) :
    Connected (.init socket buf c 0 0 rng) (.init socket' buf') := by
  refine ⟨⟨fun d => by cases d <;> exact le_rfl, fun k => ?_⟩, atRest_init h64 hbuf hout,
    atRest_init h64' hbuf' hout', rfl⟩
  obtain ⟨-, -, hreq, hresp⟩ :=
    (Requestor.init socket buf c 0 0 rng).schedule_iterate rfl rfl k
  rw [hreq, hresp]
  exact ⟨((ComSettings.forall_sizeAt_iff _).mpr hreqs (fun k => rng (2 * k)) k).2.2,
    ((ComSettings.forall_sizeAt_iff _).mpr hresps (fun k => rng (2 * k + 1)) k).2.2⟩

/-- The client of a small connection, with messages of 40 bytes. -/
def smallClient : Requestor :=
  .init (.serving [] 1 0 0) (List.replicate 64 0) (.ofFixed 40) 0 0 fun _ => 0

/-- The thread at the other end of it. -/
def smallThread : BabblerProtocol :=
  .init (.serving [] 1 0 0) (List.replicate 64 0)

theorem connected_small : Connected smallClient smallThread := by
  have hfixed : (ComSettings.ofFixed 40).Stays 40 40 (24 < ·) := by
    refine ⟨UInt32.le_refl _, ?_⟩
    rw [if_neg (by decide), if_neg (by decide)]
    decide
  exact connected_init hfixed hfixed (by simp) (by simp) (by simp) (by simp) rfl rfl _

/-- A round in which 16 bytes find room in the buffers. -/
def smallRound : List Event :=
  [.ask (accepting 40), .transmitForth 16, .drainForth 10, .transmitForth 10, .drainForth 16,
    .transmitForth 14, .drainForth 14, .answer (polling 40) (accepting 40), .transmitBack 16,
    .drainBack 16, .transmitBack 16, .drainBack 16, .transmitBack 8, .drainBack 8,
    .await (polling 40)]

theorem exists_smallRound (k : Nat) (phase : ClientPhase)
    (h : ((smallRound.take k).foldlM (step 16) (start smallClient smallThread)).map
      (fun l => (l.client.phase, l.thread.ended)) = some (phase, none)) :
    ∃ l, (smallRound.take k).foldlM (step 16) (start smallClient smallThread) = some l ∧
      l.client.phase = phase ∧ l.thread.ended = none := by
  obtain ⟨l, hrun, hl⟩ := Option.map_eq_some_iff.mp h
  obtain ⟨hphase, hlive⟩ := Prod.ext_iff.mp hl
  exact ⟨l, hrun, hphase, hlive⟩

variable {r : Requestor} {s : BabblerProtocol} {events : List Event}

theorem Connected.fits (h : Connected r s) : (start r s).Fits :=
  fits_start h.conversing h.client h.thread h.stats

/-- One of the two sends and the other one reads, and what is under way is what was sent. -/
theorem run_turns (h : Connected r s)
    (hrun : events.foldlM (step capacity) (start r s) = some l) :
    (∀ f, l.client.phase = .ended f → f.OfSocket) ∧ (∀ f, l.thread.ended = some f → f.OfSocket) ∧
      (l.Alive → l.client.requestor.protocol.AtRest ∧ l.thread.protocol.AtRest) ∧ l.Turn := by
  have hfits := run_fits h.fits hrun
  exact ⟨hfits.clientFault, hfits.threadFault,
    fun halive => ⟨hfits.client halive.1, hfits.thread halive.2⟩, hfits.turn⟩

theorem run_turns_small : ∃ l, (smallRound.take 9).foldlM (step 16)
      (start smallClient smallThread) = some l ∧
    (∀ f, l.client.phase = .ended f → f.OfSocket) ∧ (∀ f, l.thread.ended = some f → f.OfSocket) ∧
      (l.Alive → l.client.requestor.protocol.AtRest ∧ l.thread.protocol.AtRest) ∧ l.Turn := by
  obtain ⟨l, hrun, -⟩ := exists_smallRound 9 .awaiting (by decide +kernel)
  exact ⟨l, hrun, run_turns connected_small hrun⟩

/-- While neither end fails, a round can start, it can always come to its end, and it cannot go
on for ever. -/
theorem run_progress (h : Connected r s) (hcapacity : 0 < capacity)
    (hrun : events.foldlM (step capacity) (start r s) = some l) (halive : l.Alive) :
    (l.client.phase = .between → ∃ sendtos l', step capacity l (.ask sendtos) = some l' ∧
      l'.Alive ∧ l'.client.phase = .awaiting) ∧
    (∃ (more : List Event) (l' : StreamLink), (∀ e ∈ more, e.asks = 0) ∧
      more.foldlM (step capacity) l = some l' ∧ l'.Alive ∧ l'.client.phase = .between) ∧
    ∀ (more : List Event) (l' : StreamLink), (∀ e ∈ more, e.asks = 0) →
      more.foldlM (step capacity) l = some l' → l'.Alive → more.length + l'.work ≤ l.work := by
  have hfits := run_fits h.fits hrun
  refine ⟨fun hphase => ?_, hfits.exists_run halive hcapacity, fun more l' hasks hmore halive' =>
    hfits.run_work more hasks hmore halive'⟩
  obtain ⟨sent, c, hask, hphase'⟩ := (StreamClient.ask_spec hfits.conversing
    (hfits.client halive.1) hphase (accepting l.client.requestor.currReqSize.toNat)).2
    (accepts_accepting _ _ _ _)
  refine ⟨accepting l.client.requestor.currReqSize.toNat,
    { l with client := c, forth := { l.forth with outbox := l.forth.outbox ++ sent } }, ?_,
    ⟨by simp [hphase'], halive.2⟩, hphase'⟩
  simp only [step, hask]
  rfl

theorem run_progress_small : ∃ l, (smallRound.take 9).foldlM (step 16)
      (start smallClient smallThread) = some l ∧
    (l.client.phase = .between → ∃ sendtos l', step 16 l (.ask sendtos) = some l' ∧
      l'.Alive ∧ l'.client.phase = .awaiting) ∧
    (∃ (more : List Event) (l' : StreamLink), (∀ e ∈ more, e.asks = 0) ∧
      more.foldlM (step 16) l = some l' ∧ l'.Alive ∧ l'.client.phase = .between) ∧
    ∀ (more : List Event) (l' : StreamLink), (∀ e ∈ more, e.asks = 0) →
      more.foldlM (step 16) l = some l' → l'.Alive → more.length + l'.work ≤ l.work := by
  obtain ⟨l, hrun, hphase, hlive⟩ := exists_smallRound 9 .awaiting (by decide +kernel)
  exact ⟨l, hrun, run_progress connected_small (by decide) hrun ⟨by simp [hphase], hlive⟩⟩

/-- After `k` rounds both ends have counted the first `k` sizes of the schedule. -/
theorem run_rounds (h : Connected r s)
    (hrun : events.foldlM (step capacity) (start r s) = some l)
    (hphase : l.client.phase = .between) {k : Nat} (hk : k = (events.map Event.asks).sum) :
    l.client.requestor.seq = r.seq + UInt64.ofNat k ∧ l.clientStats = played r k ∧
      (l.thread.ended = none → l.threadStats = mirror (played r k)) := by
  have hfits := run_fits h.fits hrun
  have hstart : Played r 0 (start r s).client := by
    refine ⟨⟨rfl, rfl, rfl, rfl, h.conversing.unlimited⟩, (UInt64.add_zero _).symm, ?_⟩
    simp [start, played]
  have hplayed := run_played events h.fits hstart hrun
  rw [Nat.zero_add, ← hk] at hplayed
  simp only [Played, hphase] at hplayed
  obtain ⟨-, hseq, hstats⟩ := hplayed
  refine ⟨hseq, hstats, fun hlive => ?_⟩
  cases hfits.turn with
  | quiet _ _ _ hmirror =>
    rw [hmirror hlive, clientStats, hstats]
  | asking hne => exact absurd hphase hne
  | answering hne => exact absurd hphase hne

theorem run_rounds_small : ∃ l, (smallRound.take 15).foldlM (step 16)
      (start smallClient smallThread) = some l ∧
    l.client.requestor.seq = smallClient.seq + UInt64.ofNat 1 ∧
      l.clientStats = played smallClient 1 ∧
      (l.thread.ended = none → l.threadStats = mirror (played smallClient 1)) := by
  obtain ⟨l, hrun, hphase, -⟩ := exists_smallRound 15 .between (by decide +kernel)
  exact ⟨l, hrun, run_rounds connected_small hrun hphase (by decide)⟩

end StreamLink

end NetBabbler
