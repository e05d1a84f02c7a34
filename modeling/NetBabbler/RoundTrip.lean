import NetBabbler.LockStep
import NetBabbler.Reassembly

/-!
# A round over datagrams

A requestor and a connectionless responder at the two ends of a datagram channel that
loses, duplicates and reorders nothing. Each end has a buffer of its own size, and each
kernel takes and serves datagrams whole.

`roundTrip_iff` : the round completes if and only if the chunks of either end fit into the
buffer of the other.
-/

namespace NetBabbler

open EStateM BabblerProtocol

/-- What the socket sent to `dest`, as datagrams from `src`. -/
def Socket.mail (src : SockAddr) (dest : Option SockAddr) (s : Socket) : List Datagram :=
  (s.output.filter fun piece => piece.1 = dest).map fun piece => (src, piece.2)

/-- `c` with `queue` behind what is on its way. -/
def Channel.post (queue : List Datagram) : Channel → Channel
  | .stream bs => .stream bs
  | .datagrams before => .datagrams (before ++ queue)

namespace Link

/-- `s` with the datagrams `queue` on their way to it. -/
def post (queue : List Datagram) (s : BabblerProtocol) : BabblerProtocol :=
  { s with socket := { s.socket with input := s.socket.input.post queue } }

/-- One round of the requestor at the address `client` and one `doJob` of the connectionless
responder at the address `server`. The requestor's socket is connected to the responder. -/
def roundTrip (client server : SockAddr) (seq : UInt64) (reqSize respSize : UInt32) :
    EStateM Fault Link (UInt64 × UInt32) := do
  onRequestor (sendRequest seq reqSize respSize)
  modify fun l => ⟨flush l.requestor, post (l.requestor.socket.mail client none) l.responder⟩
  let r ← onResponder (Responder.doJob true)
  modify fun l =>
    ⟨post (l.responder.socket.mail server (some client)) l.requestor, flush l.responder⟩
  onRequestor (recvResponse seq)
  pure r

/-! ## One end between two rounds -/

/-- Nothing is buffered or on its way at this end. Its kernel takes datagrams of up to `limit`
bytes whole, which the buffer does not exceed, and has answers for so many bytes. -/
structure Quiet (s : BabblerProtocol) (limit reads writes : Nat) : Prop where
  sound : s.Sound
  buffered : s.bufContentSize = 0
  input : s.socket.input = .datagrams []
  output : s.socket.output = []
  serves : s.socket.Serves reads
  accepts : s.socket.Accepts writes
  whole : s.socket.TakesWhole limit
  fits : s.bufsize ≤ limit

variable {s s' : BabblerProtocol} {m : Message} {limit reads writes : Nat}

/-- All that was sent to one address is in the mail. -/
theorem mail_eq {sock : Socket} {dest : Option SockAddr} {pieces : List (List UInt8)}
    (h : sock.output = pieces.map (dest, ·)) (src : SockAddr) :
    sock.mail src dest = pieces.map (src, ·) := by
  have hall : (pieces.map fun bs => (dest, bs)).filter (fun piece => piece.1 = dest) =
      pieces.map fun bs => (dest, bs) := by
    rw [List.filter_eq_self]
    intro piece hp
    obtain ⟨bs, -, rfl⟩ := List.mem_map.mp hp
    simp
  rw [Socket.mail, h, hall, List.map_map]
  rfl

/-- The chunks of a message that a quiet end gets are all that is on its way to it. -/
theorem Quiet.post (h : Quiet s limit reads writes) (queue : List Datagram) :
    (post queue s).Sound ∧ (post queue s).bufContentSize = 0 ∧
      (post queue s).socket.input = .datagrams queue ∧ (post queue s).bufsize = s.bufsize := by
  refine ⟨h.sound.elsewhere _ _, h.buffered, ?_, rfl⟩
  show s.socket.input.post queue = _
  rw [h.input]
  rfl

/-- A request goes out in chunks. -/
theorem Quiet.sendRequest (h : Quiet s limit reads writes) (seq : UInt64)
    {reqSize respSize : UInt32} (hreq : 24 < reqSize) (hresp : 24 < respSize)
    (hwrites : reqSize.toNat ≤ writes) :
    Ends (sendRequest seq reqSize respSize)
      (fun _ s' => Quiet (flush s') limit reads 0 ∧ s'.bufsize = s.bufsize ∧ ∃ pieces,
        Chunked s.bufsize (Message.request seq reqSize respSize).encode pieces ∧
        s'.socket.output = pieces.map (none, ·))
      (fun _ _ => False) s := by
  obtain ⟨hwire, -, hlen⟩ := @wire_request reqSize respSize seq hreq
  refine ((sendRequest_spec h.sound.length h.sound.room seq (Nat.le_of_lt hreq)
    (.inr (Nat.le_of_lt hresp)) rfl).and (sendRequest_chunked h.sound h.fits h.whole seq)).mono
    ?_ ?_
  · rintro _ s' ⟨⟨hsent, hacc⟩, pieces, hpieces, hout⟩
    rw [hwire] at hpieces
    rw [h.output, List.nil_append] at hout
    refine ⟨⟨(hsent.sound h.sound).elsewhere _ _, ?_, ?_, rfl, ?_, ?_, ?_, ?_⟩, hsent.bufsize,
      pieces, hpieces, hout⟩
    · exact hsent.bufContentSize.trans h.buffered
    · exact hsent.writes.input.trans h.input
    · exact ⟨hsent.writes.polls.symm ▸ h.serves.data, hsent.writes.polls.symm ▸ h.serves.enough⟩
    · exact ⟨fun r hr => h.accepts.some r (hsent.writes.sendtos.subset hr), Nat.zero_le _⟩
    · exact fun r hr => h.whole r (hsent.writes.sendtos.subset hr)
    · exact hsent.bufsize.trans_le h.fits
  · rintro f _ ⟨⟨-, -, hnot⟩, -⟩
    refine hnot ⟨h.accepts.some, ?_⟩
    rw [hwire, hlen]
    exact hwrites.trans h.accepts.enough

/-- A quiet end receives the message whose chunks fit into its buffer. -/
theorem receive_post (h : Quiet s limit reads writes) {src : SockAddr}
    {pieces : List (List UInt8)} {cut : Nat} (h24 : 24 < cut)
    (hchunked : Chunked cut m.encode pieces) (hfit : min m.encode.length cut ≤ s.bufsize)
    (hreads : m.encode.length ≤ reads) :
    Ends receive
      (fun r s' => r = (m.isRequest, m.options, m.seq) ∧ s'.Sound ∧ s'.bufsize = s.bufsize ∧
        s'.socket.peer = some src ∧ s'.socket.sendtos = s.socket.sendtos ∧ s'.socket.output = [])
      (fun _ _ => False) (post (pieces.map (src, ·)) s) := by
  obtain ⟨hs, hempty, hin, -⟩ := h.post (pieces.map (src, ·))
  have hcount := hchunked.length_le (by omega)
  obtain ⟨k, hk⟩ : ∃ k, reads = k + pieces.length := ⟨reads - pieces.length, by omega⟩
  have hserves : (post (pieces.map (src, ·)) s).socket.Serves (k + pieces.length) :=
    ⟨h.serves.data, hk ▸ h.serves.enough⟩
  refine ((receive_chunked hs hempty h24 hchunked hfit hin hserves).and (receive_sound hs)).mono
    ?_ fun _ _ he => he.1
  rintro _ s' ⟨⟨rfl, htakes, -, hsize⟩, hs'⟩
  exact ⟨rfl, hs', hsize, htakes.peer, htakes.sendtos, htakes.output.trans h.output⟩

/-- A response that fits goes through. -/
theorem recvResponse_post (h : Quiet s limit reads writes) (hresp : m.isRequest = false)
    {src : SockAddr} {pieces : List (List UInt8)} {cut : Nat} (h24 : 24 < cut)
    (hchunked : Chunked cut m.encode pieces) (hfit : min m.encode.length cut ≤ s.bufsize)
    (hreads : m.encode.length ≤ reads) :
    Ends (recvResponse m.seq) (fun _ _ => True) (fun _ _ => False)
      (post (pieces.map (src, ·)) s) := by
  simp only [recvResponse, ends_bind, ends_throwIf]
  refine (receive_post h h24 hchunked hfit hreads).mono ?_ fun _ _ he => he
  rintro _ s' ⟨rfl, -⟩
  rw [if_neg (by simp [hresp]), if_neg (not_not_intro rfl)]
  trivial

/-! ## The responder's part -/

/-- A `doJob` that returned from the chunks of a request had room for each of them. -/
theorem doJob_room (hs : s.Sound) (hempty : s.bufContentSize = 0) {src : SockAddr}
    {pieces : List (List UInt8)} {cut : Nat} (h24 : 24 < cut)
    (hchunked : Chunked cut m.encode pieces)
    (hin : s.socket.input = .datagrams (pieces.map (src, ·))) :
    Ends (Responder.doJob true) (fun _ _ => min m.encode.length cut ≤ s.bufsize)
      (fun _ _ => True) s := by
  exact ((receive_room hs hempty h24 hchunked hin).bind_of_left _).bind_of_left _

/-- A connectionless responder answers the request whose chunks fit into its buffer, in chunks of
its own to where they came from. -/
theorem doJob_chunked (h : Quiet s limit reads writes) (hreq : m.isRequest = true)
    {src : SockAddr} {pieces : List (List UInt8)} {cut : Nat} (h24 : 24 < cut)
    (hchunked : Chunked cut m.encode pieces) (hfit : min m.encode.length cut ≤ s.bufsize)
    (hreads : m.encode.length ≤ reads) (hwrites : m.reply.wire.length ≤ writes) :
    Ends (Responder.doJob true)
      (fun r s' => r = (m.seq, m.options) ∧ ∃ pieces', Chunked s.bufsize m.reply.wire pieces' ∧
        s'.socket.output = pieces'.map (some src, ·))
      (fun _ _ => False) (post (pieces.map (src, ·)) s) := by
  simp only [Responder.doJob, recvRequest, ends_bind, ends_throwIf, ends_pure, ends_get]
  refine (receive_post h h24 hchunked hfit hreads).mono ?_ fun _ _ he => he
  rintro _ s₁ ⟨rfl, hs₁, hsize₁, hpeer, hsends, hout₁⟩
  simp only [if_true]
  rw [if_neg (not_not_intro hreq), hpeer]
  have hwhole : s₁.socket.TakesWhole limit := fun r hr => h.whole r (hsends ▸ hr)
  refine ((sendResponse_spec hs₁.length hs₁.room m.seq m.options (some src) rfl).and
    (sendResponse_chunked hs₁ (hsize₁.trans_le h.fits) hwhole m.seq
      m.options)).mono ?_ ?_
  · rintro _ s₂ ⟨-, pieces', hpieces', hout⟩
    refine ⟨trivial, pieces', hsize₁ ▸ hpieces', ?_⟩
    rw [hout, hout₁, List.nil_append]
  · rintro f _ ⟨⟨-, -, hnot⟩, -⟩
    refine hnot ⟨hsends ▸ h.accepts.some, ?_⟩
    rw [hsends]
    exact hwrites.trans h.accepts.enough

/-! ## The round -/

/-- A round over datagrams completes, if and only if the chunks of the request fit into the
responder's buffer and those of the response into the requestor's. -/
theorem roundTrip_iff {l : Link} (client server : SockAddr) (seq : UInt64)
    {reqSize respSize : UInt32} (hreq : 24 < reqSize) (hresp : 24 < respSize)
    (hq : Quiet l.requestor limit respSize.toNat reqSize.toNat)
    (hp : Quiet l.responder limit reqSize.toNat respSize.toNat) :
    Ends (roundTrip client server seq reqSize respSize) (fun r _ => r = (seq, respSize - 24))
        (fun _ _ => False) l ↔
      min reqSize.toNat l.requestor.bufsize ≤ l.responder.bufsize ∧
        min respSize.toNat l.responder.bufsize ≤ l.requestor.bufsize := by
  obtain ⟨m, hm⟩ : ∃ m, m = Message.request seq reqSize respSize := ⟨_, rfl⟩
  obtain ⟨-, -, hmlen⟩ := hm ▸ wire_request seq hreq
  obtain ⟨r, hr⟩ : ∃ r, r = Message.response seq (respSize - 24) := ⟨_, rfl⟩
  obtain ⟨hrwire, -, hrlen⟩ := hr ▸ wire_response seq hresp
  have hmseq : m.seq = seq ∧ m.options = respSize - 24 ∧ m.isRequest = true := by
    rw [hm]
    exact ⟨rfl, options_request seq hresp, rfl⟩
  have hreply : m.reply = r := by rw [hm, hr, reply_request seq hresp]
  have hrseq : r.isRequest = false ∧ r.seq = seq := by
    rw [hr]
    exact ⟨rfl, rfl⟩
  have hsend := hq.sendRequest seq hreq hresp le_rfl
  rw [← hm] at hsend
  have hroomq := hq.sound.room
  have hroomp := hp.sound.room
  simp only [roundTrip, onRequestor, onResponder, ends_bind, ends_zoom, ends_modify, ends_pure]
  refine ⟨fun h => ?_, fun h => ?_⟩
  · obtain ⟨_, q₁, -, ⟨hq₁, hsize, pieces, hchunked, hout⟩, h⟩ := hsend.exists_ok_and h
    rw [mail_eq hout client] at h
    obtain ⟨hs, hempty, hin, hsizep⟩ := hp.post (pieces.map (client, ·))
    obtain ⟨-, -, -, -, hfit⟩ := h.exists_ok_and (doJob_room hs hempty hroomq hchunked hin)
    obtain ⟨_, p₂, -, ⟨-, pieces', hchunked', hout'⟩, h⟩ :=
      (doJob_chunked hp hmseq.2.2 hroomq hchunked hfit (by rw [hmlen])
        (by rw [hreply, hrwire, hrlen])).exists_ok_and h
    rw [mail_eq hout' server] at h
    rw [hreply, hrwire] at hchunked'
    obtain ⟨hs', hempty', hin', hsizeq⟩ := hq₁.post (pieces'.map (server, ·))
    have hroom : Ends (recvResponse seq) _ _ _ :=
      (receive_room hs' hempty' hroomp hchunked' hin').bind_of_left _
    obtain ⟨-, -, -, -, hfit'⟩ := h.exists_ok_and hroom
    rw [hmlen] at hfit
    rw [hrlen, hsizeq] at hfit'
    exact ⟨hfit, hfit'.trans_eq hsize⟩
  · obtain ⟨hfit, hfit'⟩ := h
    rw [← hmlen] at hfit
    rw [← hrlen] at hfit'
    refine hsend.mono ?_ fun _ _ he => he
    rintro _ q₁ ⟨hq₁, hsize, pieces, hchunked, hout⟩
    rw [mail_eq hout client]
    refine (doJob_chunked hp hmseq.2.2 hroomq hchunked hfit (by rw [hmlen])
      (by rw [hreply, hrwire, hrlen])).mono ?_ fun _ _ he => he
    rintro _ p₂ ⟨rfl, pieces', hchunked', hout'⟩
    rw [mail_eq hout' server]
    rw [hreply, hrwire] at hchunked'
    refine (hrseq.2 ▸ recvResponse_post hq₁ hrseq.1 hroomp hchunked' (hfit'.trans_eq hsize.symm)
      (by rw [hrlen])).mono ?_ fun _ _ he => he
    rintro _ q₂ -
    rw [hmseq.1, hmseq.2.1]

/-- An end with a buffer of `bufsize` bytes, whose kernel takes datagrams of up to 64 KiB. -/
def quietEnd (bufsize reads writes : Nat) : BabblerProtocol :=
  init
    { input := .datagrams []
      peer := none
      output := []
      polls := List.replicate reads (.ready ⟨false, some (.data 1), false⟩)
      sendtos := List.replicate writes (.accepted (2 ^ 16))
      errno := 0
      reads := [] }
    (List.replicate bufsize 0)

theorem quiet_quietEnd {bufsize : Nat} (h64 : 64 ≤ bufsize) (hle : bufsize ≤ 2 ^ 16)
    (reads writes : Nat) : Quiet (quietEnd bufsize reads writes) (2 ^ 16) reads writes where
  sound := sound_init (by rwa [List.length_replicate]) (by rw [List.length_replicate]; omega)
  buffered := rfl
  input := rfl
  output := rfl
  serves := ⟨fun p hp => ⟨1, Nat.one_pos, List.eq_of_mem_replicate hp⟩, by simp [quietEnd, init]⟩
  accepts := ⟨fun r hr => ⟨2 ^ 16, by decide, List.eq_of_mem_replicate hr⟩, by
    simp [quietEnd, init]⟩
  whole r hr := ⟨2 ^ 16, le_rfl, List.eq_of_mem_replicate hr⟩
  fits := by
    show (List.replicate bufsize (0 : UInt8)).length ≤ _
    rwa [List.length_replicate]

theorem roundTrip_fitting :
    Ends (roundTrip 1 2 7 90 60) (fun r _ => r = (7, 36)) (fun _ _ => False)
      ⟨quietEnd 64 60 90, quietEnd 100 90 60⟩ :=
  (roundTrip_iff 1 2 7 (by decide) (by decide) (quiet_quietEnd (by decide) (by decide) _ _)
    (quiet_quietEnd (by decide) (by decide) _ _)).mpr (by decide)

/-- A request in one datagram of 100 bytes never arrives at a buffer of 64. -/
theorem not_roundTrip :
    ¬∀ (l : Link) (client server : SockAddr) (seq : UInt64) (reqSize respSize : UInt32)
      (limit : Nat), 24 < reqSize → 24 < respSize →
      Quiet l.requestor limit respSize.toNat reqSize.toNat →
      Quiet l.responder limit reqSize.toNat respSize.toNat →
      Ends (roundTrip client server seq reqSize respSize) (fun r _ => r = (seq, respSize - 24))
        (fun _ _ => False) l := by
  intro h
  have hcompletes := h ⟨quietEnd 100 50 100, quietEnd 64 100 50⟩ 1 2 7 100 50 (2 ^ 16) (by decide)
    (by decide) (quiet_quietEnd (by decide) (by decide) _ _)
    (quiet_quietEnd (by decide) (by decide) _ _)
  exact absurd hcompletes (by decide +kernel)

end Link

end NetBabbler
