import NetBabbler.Responder

/-!
# Lock-step exchange

A requestor and a responder at the two ends of a reliable byte stream. What one end hands
to the kernel becomes the input of the other; how each side's kernel cuts it into writes
and reads is left to the two lists of answers. The responder answers a request only after
the last byte of it, so the phases of a round follow one another, and the answers cover
every pace at which the bytes arrive.

`run_lockStep` : any number of rounds succeeds and brings both ends back to where they
started, with statistics that agree.
-/

namespace NetBabbler

open EStateM BabblerProtocol

/-- The protocol objects at the two ends of a connection. -/
structure Link where
  requestor : BabblerProtocol
  responder : BabblerProtocol

namespace Link

/-- A call on the requestor's object. -/
def onRequestor {α : Type} : EStateM Fault BabblerProtocol α → EStateM Fault Link α :=
  zoom requestor fun s l => { l with requestor := s }

/-- A call on the responder's object. -/
def onResponder {α : Type} : EStateM Fault BabblerProtocol α → EStateM Fault Link α :=
  zoom responder fun s l => { l with responder := s }

/-- `s` with `bs` on their way to it. -/
def deliver (bs : List UInt8) (s : BabblerProtocol) : BabblerProtocol :=
  { s with socket := { s.socket with input := .stream (s.socket.incoming ++ bs) } }

/-- `s` after the network took what it sent. -/
def flush (s : BabblerProtocol) : BabblerProtocol :=
  { s with socket := { s.socket with output := [] } }

/-- One round of the requestor and one `doJob` of the responder. -/
def exchange (seq : UInt64) (reqSize respSize : UInt32) :
    EStateM Fault Link (UInt64 × UInt32) := do
  onRequestor (sendRequest seq reqSize respSize)
  modify fun l => ⟨flush l.requestor, deliver l.requestor.socket.sent l.responder⟩
  let r ← onResponder (Responder.doJob false)
  modify fun l => ⟨deliver l.responder.socket.sent l.requestor, flush l.responder⟩
  onRequestor (recvResponse seq)
  pure r

/-- Rounds of the given sizes, with `++m_seq` before each. -/
def run : UInt64 → List (UInt32 × UInt32) → EStateM Fault Link (List (UInt64 × UInt32))
  | _, [] => pure []
  | seq, (reqSize, respSize) :: rounds => do
    let r ← exchange (seq + 1) reqSize respSize
    let rs ← run (seq + 1) rounds
    pure (r :: rs)

/-! ## One end between two rounds -/

/-- Nothing is buffered or on its way at this end, and the kernel has answers for reading and
writing this many bytes. -/
structure Idle (s : BabblerProtocol) (reads writes : Nat) : Prop where
  sound : s.Sound
  buffered : s.bufContentSize = 0
  input : s.socket.input = .stream []
  output : s.socket.output = []
  serves : s.socket.Serves reads
  accepts : s.socket.Accepts writes

variable {s s' : BabblerProtocol} {m : Message} {bs : List UInt8} {reads writes : Nat}

theorem idle_init {socket : Socket} {buf : List UInt8} (h64 : 64 ≤ buf.length)
    (hbuf : buf.length < 2 ^ 32) (hin : socket.input = .stream []) (hout : socket.output = [])
    (hserves : socket.Serves reads) (haccepts : socket.Accepts writes) :
    Idle (init socket buf) reads writes :=
  ⟨sound_init h64 hbuf, rfl, hin, hout, hserves, haccepts⟩

theorem Idle.incoming (h : Idle s reads writes) (bs : List UInt8) :
    (deliver bs s).socket.incoming = bs := by
  have hnone : s.socket.incoming = [] := by rw [Socket.incoming, h.input]
  show s.socket.incoming ++ bs = bs
  rw [hnone, List.nil_append]

/-- Bytes that arrive at an idle end are all that is pending there. -/
theorem Idle.deliver (h : Idle s (bs.length + reads) writes) :
    (deliver bs s).Supplied reads ∧ (deliver bs s).pending = bs ∧ (deliver bs s).Whole := by
  have hinc : s.socket.incoming = [] := by rw [Socket.incoming, h.input]
  have hinc' := h.incoming bs
  refine ⟨⟨h.sound.elsewhere _ _, ?_, ?_⟩, ?_, .inl h.buffered⟩
  · rw [Socket.IsStream, hinc']
    show Channel.stream (s.socket.incoming ++ bs) = _
    rw [hinc, List.nil_append]
  · rw [hinc']
    exact ⟨h.serves.data, h.serves.enough⟩
  · rw [pending, hinc', unread]
    show (s.buf.drop s.pBuf).take s.bufContentSize ++ bs = bs
    rw [h.buffered, List.take_zero, List.nil_append]

/-- With nothing pending nothing is buffered or on its way. -/
theorem idle_of_pending (hs : s.Supplied reads) (hpend : s.pending = [])
    (hout : s.socket.output = []) (hacc : s.socket.Accepts writes) : Idle s reads writes := by
  obtain ⟨hunread, hinc⟩ := List.append_eq_nil_iff.mp hpend
  have hlen := hs.sound.length_unread
  refine ⟨hs.sound, by rw [← hlen, hunread]; rfl, by rw [hs.stream, hinc], hout, ?_, hacc⟩
  have hserves := hs.serves
  rwa [hinc, List.length_nil, Nat.zero_add] at hserves

/-- The network takes what an idle end sent. -/
theorem Idle.flush (h : Idle s reads (bs.length + writes)) {dest : Option SockAddr} {n : Nat}
    (hsent : s.Sent dest bs n s') (hacc : s'.socket.Accepts writes) :
    Idle (flush s') reads writes ∧ s'.socket.sent = bs := by
  have hinc : s.socket.incoming = [] := by rw [Socket.incoming, h.input]
  refine ⟨⟨(hsent.sound h.sound).elsewhere _ _, hsent.bufContentSize.trans h.buffered,
    hsent.writes.input.trans h.input, rfl, ?_, ?_⟩, ?_⟩
  · refine ⟨?_, ?_⟩
    · show ∀ p ∈ s'.socket.polls, _
      rw [hsent.writes.polls]
      exact h.serves.data
    · show reads ≤ s'.socket.polls.length
      rw [hsent.writes.polls]
      exact h.serves.enough
  · exact ⟨hacc.some, hacc.enough⟩
  · rw [hsent.writes.sent, Socket.sent, h.output]
    rfl

/-- What an idle end received, it received whole. -/
theorem Idle.of_took (h : Idle s (m.encode.length + reads) writes)
    (htook : (Link.deliver m.encode s).Took m s') :
    Idle s' reads writes ∧ s'.stats = s.stats.receive m.encode.length 1 := by
  obtain ⟨hs, hpend, -⟩ := h.deliver
  have hrest : s'.pending = [] := by
    have hall := htook.pending
    rw [hpend] at hall
    exact List.self_eq_append_right.mp hall
  obtain ⟨cs, hreads, hstats, -⟩ := htook.received
  have hidle := idle_of_pending (htook.supplied hs) hrest (hreads.output.trans h.output)
    (htook.accepts ⟨h.accepts.some, h.accepts.enough⟩)
  refine ⟨hidle, ?_⟩
  have hcs : m.encode = cs := by
    rw [← h.incoming m.encode, hreads.incoming, Socket.incoming, hidle.input, List.append_nil]
  rw [hcs]
  exact hstats

/-! ## A round -/

section Sizes

variable {reqSize respSize : UInt32}

theorem wire_request (seq : UInt64) (hreq : 24 < reqSize) :
    (Message.request seq reqSize respSize).wire = (Message.request seq reqSize respSize).encode ∧
      (Message.request seq reqSize respSize).packets = 1 ∧
      (Message.request seq reqSize respSize).encode.length = reqSize.toNat := by
  have hlt : 24 < reqSize.toNat := hreq
  have hpos : 0 < (Message.request seq reqSize respSize).payloadLen := Nat.sub_pos_of_lt hlt
  refine ⟨Message.wire_of_pos hpos, Message.packets_of_pos hpos, ?_⟩
  rw [Message.length_encode]
  show 24 + (reqSize.toNat - 24) = _
  omega

theorem wire_response (seq : UInt64) (hresp : 24 < respSize) :
    (Message.response seq (respSize - 24)).wire = (Message.response seq (respSize - 24)).encode ∧
      (Message.response seq (respSize - 24)).packets = 1 ∧
      (Message.response seq (respSize - 24)).encode.length = respSize.toNat := by
  have hlt : 24 < respSize.toNat := hresp
  have hpos : 0 < (Message.response seq (respSize - 24)).payloadLen := by
    rw [Message.response_payloadLen]
    omega
  refine ⟨Message.wire_of_pos hpos, Message.packets_of_pos hpos, ?_⟩
  rw [Message.length_encode, Message.response_payloadLen]
  omega

theorem options_request (seq : UInt64) (hresp : 24 < respSize) :
    (Message.request seq reqSize respSize).options = respSize - 24 := by
  refine Message.request_options seq reqSize ?_
  rintro rfl
  exact absurd hresp (by decide)

/-- A request is answered with the size it asks for. -/
theorem reply_request (seq : UInt64) (hresp : 24 < respSize) :
    (Message.request seq reqSize respSize).reply = .response seq (respSize - 24) := by
  rw [Message.reply, options_request seq hresp]
  rfl

end Sizes

/-- A round brings both ends back to rest. -/
theorem exchange_spec {l : Link} (seq : UInt64) {reqSize respSize : UInt32} (hreq : 24 < reqSize)
    (hresp : 24 < respSize) {out back : Nat}
    (hq : Idle l.requestor (respSize.toNat + back) (reqSize.toNat + out))
    (hp : Idle l.responder (reqSize.toNat + out) (respSize.toNat + back)) :
    Ends (exchange seq reqSize respSize)
      (fun r l' => r = (seq, respSize - 24) ∧ Idle l'.requestor back out ∧
        Idle l'.responder out back ∧
        l'.requestor.stats = (l.requestor.stats.transmit reqSize.toNat 1).receive respSize.toNat 1 ∧
        l'.responder.stats = (l.responder.stats.receive reqSize.toNat 1).transmit respSize.toNat 1)
      (fun _ _ => False) l := by
  obtain ⟨m, hm⟩ : ∃ m, m = Message.request seq reqSize respSize := ⟨_, rfl⟩
  obtain ⟨hmwire, hmpackets, hmlen⟩ := hm ▸ wire_request seq hreq
  obtain ⟨r, hr⟩ : ∃ r, r = Message.response seq (respSize - 24) := ⟨_, rfl⟩
  obtain ⟨hrwire, hrpackets, hrlen⟩ := hr ▸ wire_response seq hresp
  have hreply : m.reply = r := by rw [hm, hr, reply_request seq hresp]
  have hmseq : m.seq = seq := hm ▸ rfl
  have hoptions : m.options = respSize - 24 := hm ▸ options_request seq hresp
  rw [← hmlen, ← hrlen] at hq hp ⊢
  simp only [exchange, onRequestor, onResponder, ends_bind, ends_zoom, ends_modify, ends_pure]
  -- the request goes out
  refine (sendRequest_spec hq.sound.length hq.sound.room seq (Nat.le_of_lt hreq)
    (.inr (Nat.le_of_lt hresp)) hm).mono ?_ ?_
  swap
  · rintro f _ ⟨-, -, hnot⟩
    exact hnot ⟨hq.accepts.some, hmwire ▸ (Nat.le_add_right _ _).trans hq.accepts.enough⟩
  rintro _ q₁ ⟨hsent, hacc⟩
  rw [hmwire, hmpackets] at hsent
  rw [hmwire] at hacc
  have hacc' := hacc _ hq.accepts (Nat.le_add_right _ _)
  rw [Nat.add_sub_cancel_left] at hacc'
  obtain ⟨hq₁, hout₁⟩ := hq.flush hsent hacc'
  rw [hout₁]
  -- the responder answers
  obtain ⟨hsup, hpend, hwhole⟩ := hp.deliver
  refine (Responder.doJob_spec hsup.sound hsup.stream hwhole (m := m) (hm ▸ rfl)
    (hpend.symm ▸ List.prefix_refl _) false).mono ?_ ?_
  swap
  · rintro f _ ⟨-, hnot⟩
    have hfail := (hnot _ hsup).2
    rw [hreply, hrwire] at hfail
    exact hfail ⟨hp.accepts.some, (Nat.le_add_right _ _).trans hp.accepts.enough⟩
  rintro _ p₂ ⟨rfl, p₁, dest, -, htook, hsent₂, hacc₂⟩
  rw [hreply, hrwire, hrpackets] at hsent₂
  rw [hreply, hrwire] at hacc₂
  obtain ⟨hp₁, hstats₁⟩ := hp.of_took htook
  have hacc₂' := hacc₂ _ ⟨hp.accepts.some, hp.accepts.enough⟩ (Nat.le_add_right _ _)
  rw [Nat.add_sub_cancel_left] at hacc₂'
  obtain ⟨hp₂, hout₂⟩ := hp₁.flush hsent₂ hacc₂'
  rw [hout₂]
  -- the response comes in
  obtain ⟨hsup', hpend', hwhole'⟩ := hq₁.deliver
  have hseq : r.seq = seq := hr ▸ rfl
  rw [← hseq]
  refine (recvResponse_supplied hsup' hwhole' (hr ▸ rfl) (hpend'.symm ▸ List.prefix_refl _)).mono
    ?_ fun _ _ he => he
  rintro _ q₂ ⟨htook₂, -⟩
  obtain ⟨hq₂, hstats₂⟩ := hq₁.of_took htook₂
  refine ⟨by rw [hmseq, hoptions, hseq], hq₂, hp₂, ?_, ?_⟩
  · rw [hstats₂]
    exact congrArg (Stats.receive · _ _) hsent.stats
  · exact hsent₂.stats.trans (congrArg (Stats.transmit · _ _) hstats₁)

/-! ## Any number of rounds -/

/-- The request bytes of all rounds. -/
def reqTotal (rounds : List (UInt32 × UInt32)) : Nat :=
  (rounds.map fun r => r.1.toNat).sum

/-- The response bytes of all rounds. -/
def respTotal (rounds : List (UInt32 × UInt32)) : Nat :=
  (rounds.map fun r => r.2.toNat).sum

theorem run_spec :
    ∀ (rounds : List (UInt32 × UInt32)) (seq : UInt64) {l : Link} {out back : Nat},
      (∀ r ∈ rounds, 24 < r.1 ∧ 24 < r.2) →
      Idle l.requestor (respTotal rounds + back) (reqTotal rounds + out) →
      Idle l.responder (reqTotal rounds + out) (respTotal rounds + back) →
      Ends (run seq rounds)
        (fun rs l' => rs = rounds.mapIdx (fun i r => (seq + UInt64.ofNat (i + 1), r.2 - 24)) ∧
          Idle l'.requestor back out ∧ Idle l'.responder out back ∧
          l'.requestor.stats = (l.requestor.stats.transmit (reqTotal rounds) rounds.length).receive
            (respTotal rounds) rounds.length ∧
          l'.responder.stats = (l.responder.stats.receive (reqTotal rounds) rounds.length).transmit
            (respTotal rounds) rounds.length)
        (fun _ _ => False) l
  | [], seq, l, out, back, _, hq, hp => by
    rw [run, ends_pure]
    refine ⟨rfl, ?_, ?_, ?_, ?_⟩
    · simpa [reqTotal, respTotal] using hq
    · simpa [reqTotal, respTotal] using hp
    · simp [reqTotal, respTotal]
    · simp [reqTotal, respTotal]
  | (reqSize, respSize) :: rounds, seq, l, out, back, hsizes, hq, hp => by
    have hfirst := hsizes (reqSize, respSize) (by simp)
    have hreqs : reqTotal ((reqSize, respSize) :: rounds) = reqSize.toNat + reqTotal rounds := by
      simp [reqTotal]
    have hresps : respTotal ((reqSize, respSize) :: rounds) =
        respSize.toNat + respTotal rounds := by
      simp [respTotal]
    rw [hreqs, hresps, Nat.add_assoc, Nat.add_assoc] at hq hp
    simp only [run, ends_bind, ends_pure]
    refine (exchange_spec (seq + 1) hfirst.1 hfirst.2 hq hp).mono ?_ fun _ _ he => he
    rintro _ l₁ ⟨rfl, hq₁, hp₁, hqs, hps⟩
    refine (run_spec rounds (seq + 1) (fun r hr => hsizes r (by simp [hr])) hq₁ hp₁).mono ?_
      fun _ _ he => he
    rintro _ l' ⟨rfl, hq', hp', hqs', hps'⟩
    refine ⟨?_, hq', hp', ?_, ?_⟩
    · rw [List.mapIdx_cons]
      congr 2
      funext i r
      rw [UInt64.add_assoc, Nat.add_comm (i + 1), ← UInt64.ofNat_one, ← UInt64.ofNat_add]
    · rw [hqs', hqs, hreqs, hresps, List.length_cons, Nat.add_comm rounds.length,
        ← Stats.transmit_transmit, ← Stats.receive_receive]
      rfl
    · rw [hps', hps, hreqs, hresps, List.length_cons, Nat.add_comm rounds.length,
        ← Stats.transmit_transmit, ← Stats.receive_receive]
      rfl

theorem total_take (f : UInt32 × UInt32 → Nat) (rounds : List (UInt32 × UInt32)) (k : Nat) :
    (rounds.map f).sum = ((rounds.take k).map f).sum + ((rounds.drop k).map f).sum := by
  rw [← List.sum_append, ← List.map_append, List.take_append_drop]

/-- A connected socket whose kernel has answers for reading and writing this many bytes. -/
structure Connected (socket : Socket) (reads writes : Nat) : Prop where
  input : socket.input = .stream []
  output : socket.output = []
  serves : socket.Serves reads
  accepts : socket.Accepts writes

/-- `n` rounds in lock step succeed, whatever the sizes, the two buffers and the pieces in
which the bytes travel. After each of them both buffers are empty again, the responder has
seen the sequence numbers in order, and what one end counts as sent the other counts as
received. -/
theorem run_lockStep {rounds : List (UInt32 × UInt32)} (hsizes : ∀ r ∈ rounds, 24 < r.1 ∧ 24 < r.2)
    {sock sock' : Socket} {buf buf' : List UInt8}
    (hsock : Connected sock (respTotal rounds) (reqTotal rounds))
    (hsock' : Connected sock' (reqTotal rounds) (respTotal rounds))
    (hbuf : 64 ≤ buf.length ∧ buf.length < 2 ^ 32)
    (hbuf' : 64 ≤ buf'.length ∧ buf'.length < 2 ^ 32) {k : Nat} (hk : k ≤ rounds.length) :
    Ends (run 0 (rounds.take k))
      (fun rs l =>
        rs = (rounds.take k).mapIdx (fun i r => (UInt64.ofNat (i + 1), r.2 - 24)) ∧
        (l.requestor.bufContentSize = 0 ∧ l.requestor.pBuf = 0) ∧
        (l.responder.bufContentSize = 0 ∧ l.responder.pBuf = 0) ∧
        (l.requestor.stats.sentOctets = Int64.ofNat (reqTotal (rounds.take k)) ∧
          l.responder.stats.receivedOctets = l.requestor.stats.sentOctets) ∧
        (l.requestor.stats.sentPackets = Int64.ofNat k ∧
          l.responder.stats.receivedPackets = l.requestor.stats.sentPackets) ∧
        (l.responder.stats.sentOctets = Int64.ofNat (respTotal (rounds.take k)) ∧
          l.requestor.stats.receivedOctets = l.responder.stats.sentOctets) ∧
        l.responder.stats.sentPackets = Int64.ofNat k ∧
          l.requestor.stats.receivedPackets = l.responder.stats.sentPackets)
      (fun _ _ => False) ⟨init sock buf, init sock' buf'⟩ := by
  have hreqs : reqTotal rounds = reqTotal (rounds.take k) + reqTotal (rounds.drop k) :=
    total_take _ rounds k
  have hresps : respTotal rounds = respTotal (rounds.take k) + respTotal (rounds.drop k) :=
    total_take _ rounds k
  rw [hreqs, hresps] at hsock hsock'
  have hq := idle_init hbuf.1 hbuf.2 hsock.input hsock.output hsock.serves hsock.accepts
  have hp := idle_init hbuf'.1 hbuf'.2 hsock'.input hsock'.output hsock'.serves hsock'.accepts
  refine (run_spec (rounds.take k) 0 (l := ⟨init sock buf, init sock' buf'⟩)
    (fun r hr => hsizes r (List.mem_of_mem_take hr)) hq hp).mono ?_ fun _ _ he => he
  rintro rs l ⟨rfl, hq', hp', hqs, hps⟩
  rw [List.length_take, min_eq_left hk] at hqs hps
  have hzero : ∀ x : Int64, (0 : Int64) + x = x := Int64.zero_add
  refine ⟨by simp only [UInt64.zero_add], ⟨hq'.buffered, hq'.sound.empty hq'.buffered⟩,
    ⟨hp'.buffered, hp'.sound.empty hp'.buffered⟩, ?_, ?_, ?_, ?_⟩
  all_goals
    rw [hqs, hps]
    exact ⟨hzero _, rfl⟩

/-- The sizes of two rounds. -/
def twoRounds : List (UInt32 × UInt32) :=
  [(25, 100), (1000, 25)]

theorem connected_serving {n : Nat} (hn : 0 < n) (reads writes : Nat) :
    Connected (.serving [] n reads writes) reads writes :=
  ⟨rfl, rfl, Socket.serving_serves _ hn _ _, Socket.serving_accepts _ _ _ _⟩

theorem run_lockStep_two :
    Ends (run 0 (twoRounds.take 2)) (fun rs _ => rs = [(1, 76), (2, 1)]) (fun _ _ => False)
      ⟨init (.serving [] 7 (respTotal twoRounds) (reqTotal twoRounds)) (List.replicate 64 0),
        init (.serving [] 1000 (reqTotal twoRounds) (respTotal twoRounds)) (List.replicate 99 0)⟩ := by
  have hsizes : ∀ r ∈ twoRounds, 24 < r.1 ∧ 24 < r.2 := by simp [twoRounds]
  refine (run_lockStep hsizes (connected_serving (by decide) _ _)
    (connected_serving (by decide) _ _) (by simp) (by simp) (le_refl 2)).mono ?_
    fun _ _ he => he
  rintro rs l ⟨hrs, -⟩
  exact hrs.trans (by decide)

end Link

end NetBabbler
