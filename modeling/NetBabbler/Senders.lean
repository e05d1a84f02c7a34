import NetBabbler.Format
import NetBabbler.RoundTrip

/-!
# Senders of datagrams

Many clients send requests to one socket, which the connectionless responders of all
threads share. A `Transmission` is a request with the datagrams it went out in. They enter
the socket in any order, and each is taken by any thread.

The address that a response goes to is the one of the last datagram read, and the request
that it answers the one of the first. `doJob_attributed` : the two belong together in every
round that takes the datagrams of one sender (`Unmixed`), as every round does where each
request is one datagram that fits into the buffer (`unmixed_of_unfragmented`).
-/

namespace NetBabbler

open EStateM BabblerProtocol BigEndian

/-- A request that a client at the address `addr` sent. -/
structure Transmission where
  addr : SockAddr
  seq : UInt64
  reqSize : UInt32
  respSize : UInt32
  datagrams : List (List UInt8)
  /-- They are what `sendRequest` handed to a kernel that takes datagrams whole. -/
  sent : ∃ q : BabblerProtocol, q.Sound ∧ q.socket.TakesWhole q.bufsize ∧
    Ends (sendRequest seq reqSize respSize)
      (fun _ q' => q'.socket.output = q.socket.output ++ datagrams.map (none, ·))
      (fun _ _ => False) q

namespace Transmission

/-- The message that is transmitted. -/
def message (t : Transmission) : Message :=
  .request t.seq t.reqSize t.respSize

/-- The datagrams as they arrive. -/
def mail (t : Transmission) : List Datagram :=
  t.datagrams.map (t.addr, ·)

/-- The datagrams are the request cut after every so many bytes. -/
theorem chunked (t : Transmission) : ∃ cut, 24 < cut ∧ Chunked cut t.message.wire t.datagrams := by
  obtain ⟨q, hq, hwhole, hsend⟩ := t.sent
  obtain ⟨-, q', -, hout, pieces, hpieces, hout'⟩ :=
    hsend.exists_ok_and (sendRequest_chunked hq le_rfl hwhole t.seq)
  have heq : t.datagrams = pieces := by
    rw [hout, List.append_cancel_left_eq] at hout'
    refine (List.map_injective_iff.mpr ?_) hout'
    exact fun _ _ h => (Prod.mk.inj h).2
  exact ⟨q.bufsize, hq.room, heq ▸ hpieces⟩

end Transmission

/-! ## Headers and payloads -/

/-- A request's header starts with the bytes of its type. -/
theorem take_bytes_request {h : ProtocolHeader} (hreq : h.isRequest = true) :
    h.bytes.take 2 = [0xaa, 0xff] := by
  have htype : h.type = 0xaaffffee := by simpa [ProtocolHeader.isRequest] using hreq
  have hfirst : (toBE 4 h.type.toNat).take 2 = [0xaa, 0xff] := by
    rw [htype]
    decide
  have hlen : 2 ≤ (toBE 4 h.type.toNat).length := by rw [length_toBE]; decide
  simp only [ProtocolHeader.bytes, ProtocolHeader.checkedBytes, List.append_assoc]
  rw [List.take_append_of_le_length hlen, hfirst]

/-- A part of a payload is no request header. -/
theorem not_isRequest_payload (v : UInt8) {n : Nat} (hn : 24 ≤ n) :
    ¬(ProtocolHeader.ofBytes (payload true v n)).isRequest = true := by
  intro hreq
  have hlong : 24 ≤ (payload true v n).length := by rwa [length_payload]
  have hbytes := take_bytes_request hreq
  rw [ProtocolHeader.bytes_ofBytes_take hlong, List.take_take, take_payload,
    show min (min 2 24) n = 2 by omega] at hbytes
  obtain ⟨h1, h2⟩ : v + 1 = 0xaa ∧ v + 1 + 1 = 0xff := by
    simpa [payload, List.iterate, count] using hbytes
  rw [h1] at h2
  exact absurd h2 (by decide)

/-- A chunk of a payload is a payload. -/
theorem Chunked.payload {cut : Nat} : ∀ {pieces : List (List UInt8)} {v : UInt8} {n : Nat},
    Chunked cut (NetBabbler.payload true v n) pieces → ∀ piece ∈ pieces,
      ∃ v', piece = NetBabbler.payload true v' piece.length
  | [], _, _, _ => by simp
  | piece :: pieces, v, n, ⟨_, hpiece, hrest⟩ => by
    intro p hp
    rw [take_payload] at hpiece
    rw [drop_payload] at hrest
    rcases List.mem_cons.mp hp with rfl | hp
    · exact ⟨v, by rw [hpiece, length_payload]⟩
    · exact hrest.payload p hp

namespace Transmission

theorem ne_nil (t : Transmission) : ∀ d ∈ t.datagrams, d ≠ [] := by
  obtain ⟨cut, hcut, hchunked⟩ := t.chunked
  exact fun d hd => List.ne_nil_of_length_pos (hchunked.length (by omega) d hd).1

/-- A datagram that holds a request header is the first of its request. -/
theorem isPrefix (t : Transmission) {d : List UInt8} (hd : d ∈ t.datagrams) (h24 : 24 ≤ d.length)
    (hreq : (ProtocolHeader.ofBytes d).isRequest = true) : d <+: t.message.encode := by
  obtain ⟨cut, hcut, hchunked⟩ := t.chunked
  rcases hpieces : t.datagrams with _ | ⟨piece, pieces⟩
  · rw [hpieces] at hd
    cases hd
  rw [hpieces] at hd hchunked
  obtain ⟨hne, hpiece, hrest⟩ := hchunked
  have hwire : t.message.wire = t.message.encode := by
    rw [Message.wire, if_neg]
    exact fun h0 => hne (by rw [Message.wire, if_pos h0])
  rw [hwire] at hpiece hrest
  rcases List.mem_cons.mp hd with rfl | hd
  · exact hpiece ▸ List.take_prefix _ _
  · rw [show cut = 24 + (cut - 24) by omega, ← List.drop_drop, Message.drop_encode,
      drop_payload] at hrest
    obtain ⟨v, hv⟩ := hrest.payload d hd
    rw [hv] at hreq
    exact (not_isRequest_payload v h24 hreq).elim

/-- A request in one datagram is that datagram. -/
theorem eq_encode (t : Transmission) {d : List UInt8} (hd : d ∈ t.datagrams)
    (hone : t.datagrams.length ≤ 1) : d = t.message.encode ∧ d.length = t.reqSize.toNat := by
  obtain ⟨cut, hcut, hchunked⟩ := t.chunked
  obtain ⟨d', hd'⟩ : ∃ d', t.datagrams = [d'] := by
    have hpos := List.length_pos_of_mem hd
    exact List.length_eq_one_iff.mp (by omega)
  rw [hd', List.mem_singleton] at hd
  rw [hd', ← hd] at hchunked
  have hwire : d = t.message.wire := by
    have hflat := hchunked.flatten
    rwa [List.flatten_singleton] at hflat
  have hpos : t.message.payloadLen ≠ 0 := fun h0 => by
    rw [Message.wire, if_pos h0] at hchunked
    exact hchunked.1 rfl
  rw [Message.wire, if_neg hpos] at hwire
  refine ⟨hwire, ?_⟩
  have hlen : t.message.payloadLen = t.reqSize.toNat - 24 := rfl
  rw [hwire, Message.length_encode]
  omega

end Transmission

/-! ## The shared socket -/

/-- The datagrams that the thread `i` takes, where each of `arrivals` comes with the thread that
takes it. -/
def taken (i : Nat) (arrivals : List (Nat × Datagram)) : List Datagram :=
  (arrivals.filter fun a => a.1 = i).map Prod.snd

namespace Responder

/-- The datagrams that the coming round takes come from one sender, and the first of them holds a
header. -/
def Unmixed (s : BabblerProtocol) : Prop :=
  match s.socket.input with
  | .datagrams ((src, d) :: queue) =>
    24 ≤ d.length ∧ ∀ p ∈ continuation s.bufsize d queue, p.1 = src
  | _ => True

instance (s : BabblerProtocol) : Decidable (Unmixed s) :=
  match h : s.socket.input with
  | .datagrams ((src, d) :: queue) =>
    decidable_of_iff (24 ≤ d.length ∧ ∀ p ∈ continuation s.bufsize d queue, p.1 = src)
      (by rw [Unmixed, h])
  | .datagrams [] => isTrue (by rw [Unmixed, h]; trivial)
  | .stream _ => isTrue (by rw [Unmixed, h]; trivial)

/-- From `s` the request of `t` was taken and found to be `r`, which left `s₁`. -/
structure Answers (t : Transmission) (s : BabblerProtocol) (r : UInt64 × UInt32)
    (s₁ : BabblerProtocol) : Prop where
  request : r = (t.message.seq, t.message.options)
  /-- All that was read came from the client. -/
  bytes : ∃ ds rest, s.socket.input = .datagrams (ds ++ rest) ∧
    s₁.socket.input = .datagrams rest ∧ ∀ d ∈ ds, d.1 = t.addr
  /-- The address that `doJob` sends the response to. -/
  dest : s₁.socket.peer = some t.addr

/-- The response of `doJob` from `s` goes to the client that sent the request it answers. -/
def Attributed (ts : List Transmission) (s : BabblerProtocol) : Prop :=
  Ends recvRequest (fun r s₁ => ∃ t ∈ ts, Answers t s r s₁) (fun _ _ => True) s

/-- A responder with a buffer of `size` bytes between two rounds, before datagrams of the requests
`ts`. -/
structure Awaiting (ts : List Transmission) (size : Nat) (s : BabblerProtocol) : Prop where
  sound : s.Sound
  bufsize : s.bufsize = size
  buffered : s.bufContentSize = 0
  input : ∃ queue, s.socket.input = .datagrams queue ∧
    ∀ d ∈ queue, d ∈ ts.flatMap Transmission.mail

variable {ts : List Transmission} {size : Nat} {s s' : BabblerProtocol}

theorem exists_of_mem_mail {d : Datagram} (h : d ∈ ts.flatMap Transmission.mail) :
    ∃ t ∈ ts, t.addr = d.1 ∧ d.2 ∈ t.datagrams := by
  obtain ⟨t, ht, hd⟩ := List.mem_flatMap.mp h
  obtain ⟨bs, hbs, rfl⟩ := List.mem_map.mp hd
  exact ⟨t, ht, rfl, hbs⟩

/-- What a round takes from one sender is a request of that sender. -/
theorem Awaiting.recvRequest (h : Awaiting ts size s) (hunmixed : Unmixed s) :
    Ends recvRequest (fun r s₁ => (∃ t ∈ ts, Answers t s r s₁) ∧ Awaiting ts size s₁)
      (fun _ _ => True) s := by
  obtain ⟨queue, hin, hqueue⟩ := h.input
  rw [Unmixed, hin] at hunmixed
  have hne : ∀ d ∈ queue, d.2 ≠ [] := by
    intro d hd
    obtain ⟨t, -, -, hbs⟩ := exists_of_mem_mail (hqueue d hd)
    exact t.ne_nil d.2 hbs
  have hfront : ∀ d ∈ queue.head?, 24 ≤ d.2.length := by
    rcases queue with _ | ⟨⟨src, d⟩, rest⟩
    · simp
    · intro p hp
      obtain rfl : (src, d) = p := Option.some.inj hp
      exact hunmixed.1
  simp only [BabblerProtocol.recvRequest, ends_bind, ends_throwIf, ends_pure]
  refine ((receive_datagrams h.sound h.buffered hin hfront hne).and
    (receive_sound h.sound)).mono ?_ fun _ _ _ => trivial
  rintro _ s₁ ⟨⟨src, d, rest, rfl, rfl, hassembled⟩, hs₁⟩
  obtain ⟨h24, hsame⟩ := hunmixed
  split_ifs with hreq
  obtain ⟨t, ht, rfl, hd⟩ := exists_of_mem_mail (hqueue (src, d) List.mem_cons_self)
  have hpre : d <+: t.message.encode := t.isPrefix hd h24 hreq
  have hheader : ProtocolHeader.ofBytes d = t.message.header :=
    Message.Matches.header (.inr hpre) h24
  obtain ⟨rest', hrest, hin₁⟩ := hassembled.input
  refine ⟨⟨t, ht, ?_, ⟨(t.addr, d) :: continuation s.bufsize d rest, rest', ?_, hin₁, ?_⟩, ?_⟩,
    hs₁, hassembled.bufsize.trans h.bufsize, ?_, rest', hin₁, ?_⟩
  · rw [hheader]
    rfl
  · rw [hin, List.cons_append, ← hrest]
  · intro p hp
    rcases List.mem_cons.mp hp with rfl | hp
    · rfl
    · exact hsame p hp
  · rcases hassembled.peer with hpeer | ⟨p, hp, hpeer⟩
    · exact hpeer
    · rw [hpeer, hsame p hp]
  · refine hassembled.emptied ?_
    have hlen := hpre.length_le
    rw [Message.length_encode] at hlen
    rw [hheader, Message.header_length, List.length_take]
    omega
  · intro p hp
    refine hqueue p (List.mem_cons_of_mem _ ?_)
    rw [hrest]
    exact List.mem_append_right _ hp

theorem Awaiting.doJob (h : Awaiting ts size s) (hunmixed : Unmixed s) :
    Ends (doJob true) (fun _ => Awaiting ts size) (fun _ _ => True) s := by
  simp only [Responder.doJob, ends_bind, ends_get, ends_pure]
  refine (h.recvRequest hunmixed).mono ?_ fun _ _ _ => trivial
  rintro r s₁ ⟨-, hs₁⟩
  refine (sendResponse_spec hs₁.sound.length hs₁.sound.room r.1 r.2 _ rfl).mono ?_
    fun _ _ _ => trivial
  rintro _ s₂ ⟨hsent, -⟩
  refine ⟨hsent.sound hs₁.sound, hsent.bufsize.trans hs₁.bufsize,
    hsent.bufContentSize.trans hs₁.buffered, ?_⟩
  rw [hsent.writes.input]
  exact hs₁.input

theorem awaiting_init {arrivals : List (Nat × Datagram)}
    (harrivals : ∀ a ∈ arrivals, a.2 ∈ ts.flatMap Transmission.mail) {i : Nat} {socket : Socket}
    (hin : socket.input = .datagrams (taken i arrivals)) {buf : List UInt8}
    (h64 : 64 ≤ buf.length) (hbuf : buf.length < 2 ^ 32) :
    Awaiting ts buf.length (init socket buf) := by
  refine ⟨sound_init h64 hbuf, rfl, rfl, _, hin, fun d hd => ?_⟩
  obtain ⟨a, ha, rfl⟩ := List.mem_map.mp hd
  exact harrivals a (List.mem_of_mem_filter ha)

/-- Whatever the order in which the datagrams of any clients arrive and the threads that take
them : in a run of `doJob` whose rounds each take the datagrams of one sender, every response
goes to the client that sent the request it answers. -/
theorem doJob_attributed {arrivals : List (Nat × Datagram)}
    (harrivals : ∀ a ∈ arrivals, a.2 ∈ ts.flatMap Transmission.mail) (i : Nat) {socket : Socket}
    (hin : socket.input = .datagrams (taken i arrivals)) {buf : List UInt8}
    (h64 : 64 ≤ buf.length) (hbuf : buf.length < 2 ^ 32) {n : Nat}
    (hunmixed : Along (doJob true) Unmixed n (init socket buf)) :
    Along (doJob true) (Attributed ts) n (init socket buf) :=
  Along.mono (I := Awaiting ts buf.length) (fun _ hs hs' => hs.doJob hs')
    (fun _ hs hs' => (hs.recvRequest hs').mono (fun _ _ h => h.1) fun _ _ h => h) n
    (awaiting_init harrivals hin h64 hbuf) hunmixed

/-- What an attributed round sends goes to the client that it answers. -/
theorem Attributed.sent (h : Attributed ts s) (hs : s.Sound) :
    Ends (doJob true)
      (fun r s' => ∃ t ∈ ts, ∃ s₁, Answers t s r s₁ ∧
        s₁.Sent (some t.addr) t.message.reply.wire t.message.reply.packets s')
      (fun _ _ => True) s := by
  simp only [Responder.doJob, recvRequest, ends_bind, ends_get, ends_pure, ends_throwIf]
  rw [Attributed] at h
  simp only [recvRequest, ends_bind, ends_throwIf, ends_pure] at h
  refine (h.and (receive_sound hs)).mono ?_ fun _ _ _ => trivial
  rintro r s₁ ⟨hanswers, hs₁⟩
  split_ifs at hanswers ⊢
  obtain ⟨t, ht, hanswers⟩ := hanswers
  obtain ⟨hseq, hoptions⟩ := Prod.mk.inj hanswers.request
  rw [hanswers.dest]
  refine (sendResponse_spec hs₁.length hs₁.room _ _ _ rfl).mono ?_ fun _ _ _ => trivial
  rintro _ s₂ ⟨hsent, -⟩
  rw [hseq, hoptions] at hsent
  exact ⟨t, ht, s₁, hanswers, hsent⟩

/-- With each request in one datagram that fits into the responder's buffer, no round takes
datagrams of two senders. -/
theorem unmixed_of_unfragmented {arrivals : List (Nat × Datagram)}
    (harrivals : ∀ a ∈ arrivals, a.2 ∈ ts.flatMap Transmission.mail) {i : Nat} {socket : Socket}
    (hin : socket.input = .datagrams (taken i arrivals)) {buf : List UInt8}
    (h64 : 64 ≤ buf.length) (hbuf : buf.length < 2 ^ 32)
    (hwhole : ∀ t ∈ ts, t.datagrams.length ≤ 1 ∧ t.reqSize.toNat ≤ buf.length) (n : Nat) :
    Along (doJob true) Unmixed n (init socket buf) := by
  have hall : ∀ s, Awaiting ts buf.length s → Unmixed s := by
    intro s hs
    obtain ⟨queue, hin, hqueue⟩ := hs.input
    rw [Unmixed, hin]
    rcases queue with _ | ⟨⟨src, d⟩, rest⟩
    · trivial
    obtain ⟨t, ht, -, hd⟩ := exists_of_mem_mail (hqueue (src, d) List.mem_cons_self)
    obtain ⟨hone, hfits⟩ := hwhole t ht
    obtain ⟨hencode, hlen⟩ : d = t.message.encode ∧ d.length = t.reqSize.toNat :=
      t.eq_encode hd hone
    have hheader : ProtocolHeader.ofBytes d = t.message.header :=
      Message.ofBytes_of_isPrefix (hencode ▸ List.prefix_refl _)
    have hlong := congrArg List.length hencode
    rw [Message.length_encode] at hlong
    have hnone : continuation s.bufsize d rest = [] := by
      rw [continuation, hheader, Message.header_length, List.length_take, hs.bufsize,
        Nat.sub_eq_zero_of_le (by omega), spanned]
    refine ⟨by omega, fun p hp => ?_⟩
    rw [hnone] at hp
    cases hp
  exact along_of_invariant (fun s hs => hs.doJob (hall s hs)) hall n
    (awaiting_init harrivals hin h64 hbuf)

/-! ## Two clients -/

/-- A request of 70 bytes for a response of 50, in datagrams of up to 64. -/
def forFifty : Transmission where
  addr := 1
  seq := 1
  reqSize := 70
  respSize := 50
  datagrams := [(Message.request 1 70 50).encode.take 64, (Message.request 1 70 50).encode.drop 64]
  sent := ⟨Link.quietEnd 64 0 2, sound_init (by decide) (by decide),
    fun _ hr => ⟨2 ^ 16, by decide, List.eq_of_mem_replicate hr⟩, by decide +kernel⟩

/-- The same from another client, for a response of 60. -/
def forSixty : Transmission where
  addr := 2
  seq := 1
  reqSize := 70
  respSize := 60
  datagrams := [(Message.request 1 70 60).encode.take 64, (Message.request 1 70 60).encode.drop 64]
  sent := ⟨Link.quietEnd 64 0 2, sound_init (by decide) (by decide),
    fun _ hr => ⟨2 ^ 16, by decide, List.eq_of_mem_replicate hr⟩, by decide +kernel⟩

/-- The datagrams of the two in this order, each with its thread. -/
def arriving (order : List (Nat × Nat)) : List (Nat × Datagram) :=
  order.filterMap fun a => ((forFifty.mail ++ forSixty.mail)[a.2]?).map fun d => (a.1, d)

/-- The socket of the first thread. -/
def firstThread (order : List (Nat × Nat)) : Socket :=
  { (Link.quietEnd 64 4 4).socket with input := .datagrams (taken 0 (arriving order)) }

theorem doJob_attributed_two :
    Along (doJob true) (Attributed [forFifty, forSixty]) 2
      (init (firstThread [(0, 2), (0, 3), (0, 0), (0, 1)]) (List.replicate 64 0)) :=
  doJob_attributed (by decide +kernel) 0 rfl (by decide) (by decide) (by decide +kernel)

/-- With the datagrams of both clients in turn, a thread answers the first client's request to the
second client. -/
theorem not_doJob_attributed :
    ¬∀ (ts : List Transmission) (arrivals : List (Nat × Datagram)) (i : Nat) (socket : Socket)
      (buf : List UInt8) (n : Nat), (arrivals.map Prod.snd).Perm (ts.flatMap Transmission.mail) →
      socket.input = .datagrams (taken i arrivals) → 64 ≤ buf.length → buf.length < 2 ^ 32 →
      Along (doJob true) (Attributed ts) n (init socket buf) := by
  intro h
  have hattributed := (h [forFifty, forSixty] (arriving [(0, 0), (1, 2), (0, 3), (1, 1)]) 0
    (firstThread [(0, 0), (1, 2), (0, 3), (1, 1)]) (List.replicate 64 0) 1 (by decide +kernel) rfl
    (by decide) (by decide)).1
  have hto : Ends recvRequest
      (fun r s => r = (1, 26) ∧ s.socket.peer = some 1 ∨ r = (1, 36) ∧ s.socket.peer = some 2)
      (fun _ _ => True)
      (init (firstThread [(0, 0), (1, 2), (0, 3), (1, 1)]) (List.replicate 64 0)) := by
    refine Ends.mono hattributed ?_ fun _ _ he => he
    intro r s hr
    obtain ⟨t, ht, hanswers⟩ := hr
    rcases List.mem_pair.mp ht with rfl | rfl
    · exact .inl ⟨hanswers.request, hanswers.dest⟩
    · exact .inr ⟨hanswers.request, hanswers.dest⟩
  exact absurd hto (by decide +kernel)

end Responder

end NetBabbler
