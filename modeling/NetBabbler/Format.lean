import NetBabbler.Bounds

/-!
# The message format

`WellFormed` is the format on raw bytes, field by field and without the types of the
source : what a reader of the protocol would check by hand. `wellFormed_iff` : these are
the bytes that start with the encoding of a `Message`.

`receive_wellFormed_iff` : `receive` takes exactly the well-formed bytes and throws a
`cProtocolException` on all others, whatever the buffer size and however they arrive.

`tells_iff` is the sender's side : the length field tells the bytes transmitted, if and
only if there is a payload and its length and the header's fit into 32 bits.
-/

namespace NetBabbler

open EStateM BabblerProtocol BigEndian

/-! ## The format on raw bytes -/

/-- The number in the `n` bytes at offset `i`. -/
def field (bs : List UInt8) (i n : Nat) : Nat :=
  ofBE ((bs.drop i).take n)

/-- The sum of the bytes. -/
def byteSum (bs : List UInt8) : Nat :=
  (bs.map UInt8.toNat).sum

/-- The `j`-th payload byte that belongs to the header at the start of `bs`, modulo 256. -/
def expected (bs : List UInt8) (j : Nat) : Int :=
  if field bs 0 4 = 0xaaffffee then (field bs 8 8 : Int) + j else (field bs 8 8 : Int) - j

/-- The checksum, the type and the payload of a packet in bytes. -/
structure WellFormed (bs : List UInt8) : Prop where
  checksum : field bs 20 4 = byteSum (bs.take 20)
  type : field bs 0 4 = 0xaaffffee ∨ field bs 0 4 = 0xeeffffaa
  payload : ∀ j, 1 ≤ j → j ≤ field bs 4 4 - 24 →
    ∃ b, bs[23 + j]? = some b ∧ (b.toNat : Int) = expected bs j % 256

theorem field_lt (bs : List UInt8) (i n : Nat) : field bs i n < 256 ^ n := by
  refine (ofBE_lt _).trans_le (Nat.pow_le_pow_right (by decide) ?_)
  rw [List.length_take]
  exact Nat.min_le_left _ _

section Fields

variable (bs : List UInt8)

@[simp] theorem toNat_type : (ProtocolHeader.ofBytes bs).type.toNat = field bs 0 4 := by
  have := field_lt bs 0 4
  rw [ProtocolHeader.ofBytes, UInt32.toNat_ofNat', field, List.drop_zero]
  exact Nat.mod_eq_of_lt (by simpa [field] using this)

@[simp] theorem toNat_length : (ProtocolHeader.ofBytes bs).length.toNat = field bs 4 4 := by
  rw [ProtocolHeader.ofBytes, UInt32.toNat_ofNat', field]
  exact Nat.mod_eq_of_lt (field_lt bs 4 4)

@[simp] theorem toNat_seq : (ProtocolHeader.ofBytes bs).seq.toNat = field bs 8 8 := by
  rw [ProtocolHeader.ofBytes, UInt64.toNat_ofNat', field]
  exact Nat.mod_eq_of_lt (field_lt bs 8 8)

@[simp] theorem toNat_options : (ProtocolHeader.ofBytes bs).options.toNat = field bs 16 4 := by
  rw [ProtocolHeader.ofBytes, UInt32.toNat_ofNat', field]
  exact Nat.mod_eq_of_lt (field_lt bs 16 4)

@[simp] theorem toNat_checksum : (ProtocolHeader.ofBytes bs).checksum.toNat = field bs 20 4 := by
  rw [ProtocolHeader.ofBytes, UInt32.toNat_ofNat', field]
  exact Nat.mod_eq_of_lt (field_lt bs 20 4)

end Fields

/-! ## The checksum -/

theorem byteSum_le (bs : List UInt8) : byteSum bs ≤ 255 * bs.length := by
  induction bs with
  | nil => exact Nat.le_refl 0
  | cons b bs ih =>
    have hb : b.toNat < 256 := b.toNat_lt
    rw [byteSum, List.map_cons, List.sum_cons, List.length_cons]
    rw [byteSum] at ih
    omega

/-- The sum of a few bytes does not wrap. -/
theorem toNat_foldl_add (bs : List UInt8) :
    ∀ c : UInt32, c.toNat + byteSum bs < 2 ^ 32 →
      (bs.foldl (fun sum b => sum + b.toUInt32) c).toNat = c.toNat + byteSum bs := by
  induction bs with
  | nil => exact fun c _ => rfl
  | cons b bs ih =>
    intro c hc
    rw [byteSum, List.map_cons, List.sum_cons, ← byteSum] at hc ⊢
    have hb : (c + b.toUInt32).toNat = c.toNat + b.toNat := by
      rw [UInt32.toNat_add, UInt8.toNat_toUInt32, Nat.mod_eq_of_lt (by omega)]
    rw [List.foldl_cons, ih _ (by omega), hb, Nat.add_assoc]

theorem toNat_calcChecksum (h : ProtocolHeader) :
    h.calcChecksum.toNat = byteSum h.checkedBytes := by
  have hle := byteSum_le h.checkedBytes
  rw [ProtocolHeader.length_checkedBytes] at hle
  have hsum := toNat_foldl_add h.checkedBytes 0 (by rw [UInt32.toNat_zero]; omega)
  rwa [UInt32.toNat_zero, Nat.zero_add] at hsum

/-- The checked bytes are the first 20 bytes of the header. -/
theorem checkedBytes_ofBytes {bs : List UInt8} (h : 24 ≤ bs.length) :
    (ProtocolHeader.ofBytes bs).checkedBytes = bs.take 20 := by
  have htake : ((ProtocolHeader.ofBytes bs).bytes).take 20 =
      (ProtocolHeader.ofBytes bs).checkedBytes :=
    List.take_left' (ProtocolHeader.length_checkedBytes _)
  rw [← htake, ProtocolHeader.bytes_ofBytes_take h, List.take_take]
  rfl

theorem checkChecksum_iff {bs : List UInt8} (h : 24 ≤ bs.length) :
    (ProtocolHeader.ofBytes bs).checkChecksum = true ↔ field bs 20 4 = byteSum (bs.take 20) := by
  rw [ProtocolHeader.checkChecksum, beq_iff_eq, ← UInt32.toNat_inj, toNat_checksum,
    toNat_calcChecksum, checkedBytes_ofBytes h]

theorem isRequest_iff (bs : List UInt8) :
    (ProtocolHeader.ofBytes bs).isRequest = true ↔ field bs 0 4 = 0xaaffffee := by
  rw [ProtocolHeader.isRequest, beq_iff_eq, ← UInt32.toNat_inj, toNat_type]
  rfl

theorem isResponse_iff (bs : List UInt8) :
    (ProtocolHeader.ofBytes bs).isResponse = true ↔ field bs 0 4 = 0xeeffffaa := by
  rw [ProtocolHeader.isResponse, beq_iff_eq, ← UInt32.toNat_inj, toNat_type]
  rfl

/-! ## The payload -/

theorem toNat_iterate_count (incr : Bool) (c : UInt8) (j : Nat) :
    (((count incr)^[j] c).toNat : Int) =
      (if incr then (c.toNat : Int) + j else (c.toNat : Int) - j) % 256 := by
  induction j with
  | zero =>
    have hc : c.toNat < 256 := c.toNat_lt
    split_ifs <;> simp <;> omega
  | succ j ih =>
    rw [Function.iterate_succ_apply', count]
    split_ifs at ih ⊢
    · rw [UInt8.toNat_add, UInt8.toNat_one]
      omega
    · rw [UInt8.toNat_sub, UInt8.toNat_one]
      omega

theorem getElem?_payload (incr : Bool) (c : UInt8) {n i : Nat} (h : i < n) :
    (payload incr c n)[i]? = some ((count incr)^[i + 1] c) := by
  rw [payload, List.getElem?_iterate _ _ _ _ h, Function.iterate_succ_apply]

/-- The bytes behind a header are its payload, if and only if each is the one expected. -/
theorem payload_iff (bs : List UInt8) (n : Nat) :
    payload (ProtocolHeader.ofBytes bs).isRequest (ProtocolHeader.ofBytes bs).seq.toUInt8 n <+:
        bs.drop 24 ↔
      ∀ j, 1 ≤ j → j ≤ n → ∃ b, bs[23 + j]? = some b ∧ (b.toNat : Int) = expected bs j % 256 := by
  have hvalue : ∀ j, (((count (ProtocolHeader.ofBytes bs).isRequest)^[j]
      (ProtocolHeader.ofBytes bs).seq.toUInt8).toNat : Int) = expected bs j % 256 := by
    intro j
    rw [toNat_iterate_count, UInt64.toNat_toUInt8, toNat_seq]
    by_cases hreq : field bs 0 4 = 0xaaffffee
    · simp only [expected, (isRequest_iff bs).mpr hreq, if_pos hreq, if_true]
      omega
    · have hnot : (ProtocolHeader.ofBytes bs).isRequest = false :=
        Bool.eq_false_iff.mpr fun h => hreq ((isRequest_iff bs).mp h)
      simp only [expected, hnot, if_neg hreq, Bool.false_eq_true, if_false]
      omega
  rw [List.prefix_iff_getElem?]
  constructor
  · intro hpre j h1 hj
    have hget := hpre (j - 1) (by rw [length_payload]; omega)
    rw [← List.getElem?_eq_getElem, getElem?_payload _ _ (by omega), List.getElem?_drop,
      show 24 + (j - 1) = 23 + j by omega, Nat.sub_add_cancel h1] at hget
    exact ⟨_, hget, hvalue j⟩
  · intro hall i hi
    rw [length_payload] at hi
    obtain ⟨b, hget, hb⟩ := hall (i + 1) (by omega) (by omega)
    rw [← List.getElem?_eq_getElem, getElem?_payload _ _ hi, List.getElem?_drop,
      show 24 + i = 23 + (i + 1) by omega, hget]
    congr 1
    rw [← UInt8.toNat_inj]
    have := hvalue (i + 1)
    omega

/-- With all bytes there that the length field announces, the well-formed ones are the messages. -/
theorem wellFormed_iff {bs : List UInt8} (h24 : 24 ≤ field bs 4 4)
    (hlen : field bs 4 4 ≤ bs.length) : WellFormed bs ↔ ∃ m : Message, m.encode <+: bs := by
  have hlong : 24 ≤ bs.length := h24.trans hlen
  have hencode : ∀ m : Message, ProtocolHeader.ofBytes bs = m.header →
      (m.encode <+: bs ↔ payload m.isRequest m.seq.toUInt8 m.payloadLen <+: bs.drop 24) := by
    intro m hm
    have hsplit := @List.prefix_append_right_inj _
      (payload m.isRequest m.seq.toUInt8 m.payloadLen) (bs.drop 24) (bs.take 24)
    rwa [List.take_append_drop, ← ProtocolHeader.bytes_ofBytes_take hlong, hm] at hsplit
  constructor
  · intro hwf
    have hacc : (ProtocolHeader.ofBytes bs).Acceptable := by
      refine ⟨(checkChecksum_iff hlong).mpr hwf.checksum, ?_, by rwa [toNat_length]⟩
      exact hwf.type.imp (isRequest_iff bs).mpr (isResponse_iff bs).mpr
    have hm := (Message.header_ofHeader hacc).symm
    refine ⟨.ofHeader _ hacc, (hencode _ hm).mpr ?_⟩
    show payload _ _ ((ProtocolHeader.ofBytes bs).length.toNat - 24) <+: _
    rw [toNat_length]
    exact (payload_iff bs _).mpr hwf.payload
  · rintro ⟨m, hpre⟩
    have hm := Message.ofBytes_of_isPrefix hpre
    have hlength : field bs 4 4 - 24 = m.payloadLen := by
      rw [← toNat_length, hm, Message.header_length, Nat.add_sub_cancel]
    have hacc := m.acceptable_header
    rw [← hm] at hacc
    refine ⟨(checkChecksum_iff hlong).mp hacc.1,
      hacc.2.1.imp (isRequest_iff bs).mp (isResponse_iff bs).mp, (payload_iff bs _).mp ?_⟩
    rw [hm, hlength, Message.header_isRequest, Message.header_seq]
    exact (hencode m hm).mp hpre

/-! ## What `receive` accepts -/

namespace BabblerProtocol

variable {s : BabblerProtocol} {spare : Nat}

/-- Bytes whose header does not pass the tests are rejected. -/
theorem receive_untested (hs : s.Supplied spare) (hwhole : s.Whole)
    (hlen : 24 ≤ s.pending.length) (hnot : ¬Tested (ProtocolHeader.ofBytes s.pending)) :
    Ends receive (fun _ _ => False) (fun f _ => ∃ what, f = .protocolException what) s := by
  simp only [receive, ends_bind]
  refine ((receiveHeader_pending hs.sound hs.stream).and
    (receiveHeader_spec hs.sound hs.stream)).mono ?_ ?_
  · rintro r s' ⟨⟨-, -, -, -, htested, -⟩, -⟩
    exact (hnot htested).elim
  · rintro f s' ⟨-, ⟨-, hlo, hhi⟩ | ⟨hf, -⟩ | ⟨-, h0, hready⟩⟩
    · unfold Whole at hwhole
      omega
    · exact hf
    · rw [length_pending hs.sound, h0, Nat.zero_add] at hlen
      exact (hready _ ⟨hs.serving, le_rfl, hlen⟩).elim

/-- With all bytes there that the length field announces, `receive` takes a message that is
there and rejects everything else. -/
theorem receive_decides (hs : s.Supplied spare) (hwhole : s.Whole)
    (h24 : 24 ≤ field s.pending 4 4) (hlen : field s.pending 4 4 ≤ s.pending.length) :
    Ends receive
      (fun r _ => ∃ m : Message, m.encode <+: s.pending ∧ r = (m.isRequest, m.options, m.seq))
      (fun f _ => (∃ what, f = .protocolException what) ∧
        ¬∃ m : Message, m.encode <+: s.pending) s := by
  have hfits : s.HeaderFits := fun _ _ _ => by rwa [toNat_length]
  refine ((receive_spec hs.sound hs.stream).and
    (hfits.inBounds hs.sound hs.stream).reads).mono ?_ ?_
  · rintro r s' ⟨⟨m, rfl, htook⟩, -⟩
    exact ⟨m, htook.isPrefix, rfl⟩
  · rintro f s' ⟨hfault, hbounds⟩
    have hfinished : ¬Unfinished s.pending := by
      rintro (hshort | ⟨m, hpre, hlt⟩)
      · omega
      · have hm := Message.Matches.header (.inr hpre) (h24.trans hlen)
        rw [← toNat_length, hm, Message.header_length] at hlen
        rw [Message.length_encode] at hlt
        omega
    cases f with
    | protocolException what => exact ⟨⟨what, rfl⟩, fun ⟨m, hpre⟩ => hfault.2 m trivial (.inl hpre)⟩
    | outOfBounds => exact (hbounds rfl).elim
    | bug =>
      obtain ⟨hlo, hhi⟩ := hfault
      unfold Whole at hwhole
      omega
    | hang => exact hfault.elim
    | errorException what => exact (hfinished (hfault hs.serving)).elim
    | eventException => exact (hfinished (hfault hs.serving)).elim
    | blocked => exact (hfinished (hfault hs.serving)).elim

/-- `receive` from an empty buffer takes the well-formed bytes, returns what their header says,
and rejects all others. -/
theorem receive_wellFormed_iff {bs : List UInt8} (hs : s.Sound) (hempty : s.bufContentSize = 0)
    (hin : s.socket.input = .stream bs) (hserves : s.socket.Serves bs.length)
    (h24 : 24 ≤ field bs 4 4) (hlen : max (field bs 4 4) 24 ≤ bs.length) :
    (Ends receive (fun _ _ => True) (fun _ _ => False) s ↔ WellFormed bs) ∧
      Ends receive
        (fun r _ => (r.1 = true ↔ field bs 0 4 = 0xaaffffee) ∧ r.2.1.toNat = field bs 16 4 ∧
          r.2.2.toNat = field bs 8 8)
        (fun f _ => ∃ what, f = .protocolException what) s := by
  have hinc : s.socket.incoming = bs := by rw [Socket.incoming, hin]
  have hpend : s.pending = bs := by
    rw [pending, unread, hempty, List.take_zero, List.nil_append, hinc]
  have hsup : s.Supplied 0 := by
    refine ⟨hs, by rw [Socket.IsStream, hinc, hin], ?_⟩
    rwa [hinc, Nat.add_zero]
  rw [max_eq_left h24] at hlen
  have hdecides := receive_decides hsup (.inl hempty) (by rwa [hpend]) (by rwa [hpend])
  rw [hpend] at hdecides
  refine ⟨?_, hdecides.mono ?_ fun _ _ hf => hf.1⟩
  · rw [wellFormed_iff h24 hlen]
    constructor
    · intro hok
      obtain ⟨-, -, -, -, m, hpre, -⟩ := hok.exists_ok_and hdecides
      exact ⟨m, hpre⟩
    · intro hm
      exact hdecides.mono (fun _ _ _ => trivial) fun _ _ hf => hf.2 hm
  · rintro _ s' ⟨m, hpre, rfl⟩
    have hm := Message.ofBytes_of_isPrefix hpre
    refine ⟨?_, ?_, ?_⟩
    · rw [← isRequest_iff, hm, Message.header_isRequest]
    · rw [← toNat_options, hm, Message.header_options]
    · rw [← toNat_seq, hm, Message.header_seq]

theorem receive_wellFormed_request :
    Ends receive (fun _ _ => True) (fun _ _ => False) (fresh (Message.request 7 100 0).encode) ↔
      WellFormed (Message.request 7 100 0).encode :=
  (receive_wellFormed_iff (sound_init (by decide) (by decide)) rfl rfl
    (Socket.serving_serves _ (by decide) _ 0) (by decide +kernel) (by decide +kernel)).1

/-! ## What the length field tells -/

/-- Between `s` and `s'` the header `h` and a payload went out, `n` bytes in all, as the header
says, and they were counted as one message. -/
structure Tells (h : ProtocolHeader) (incr : Bool) (n : Nat) (s s' : BabblerProtocol) : Prop where
  sent : s'.socket.sent = s.socket.sent ++ (h.bytes ++ payload incr h.seq.toUInt8 (n - 24))
  number : (h.bytes ++ payload incr h.seq.toUInt8 (n - 24)).length = n
  length : h.length.toNat = n
  octets : s'.stats.sentOctets = s.stats.sentOctets + Int64.ofNat n
  packets : s'.stats.sentPackets = s.stats.sentPackets + 1

variable {s' : BabblerProtocol} {m : Message} {dest : Option SockAddr}

/-- A message with a payload is told by its length field. -/
theorem Sent.tells (h : s.Sent dest m.wire m.packets s') (hpos : 0 < m.payloadLen) :
    Tells m.header m.isRequest (m.payloadLen + 24) s s' := by
  have hstats := h.stats
  rw [Message.wire_of_pos hpos, Message.packets_of_pos hpos, Message.length_encode,
    Nat.add_comm] at hstats
  refine ⟨?_, ?_, m.header_length, ?_, ?_⟩
  · rw [h.writes.sent, Message.wire_of_pos hpos, Nat.add_sub_cancel]
    rfl
  · rw [List.length_append, ProtocolHeader.length_bytes, length_payload]
    omega
  · rw [hstats]
    rfl
  · rw [hstats]
    rfl

/-- A message without payload is not transmitted, whatever its header says. -/
theorem Sent.not_tells (h : s.Sent dest m.wire m.packets s') (h0 : m.payloadLen = 0)
    (header : ProtocolHeader) (incr : Bool) (n : Nat) : ¬Tells header incr n s s' := by
  intro htells
  have hsent := htells.sent
  rw [h.writes.sent, List.append_cancel_left_eq, Message.wire, if_pos h0] at hsent
  have hlen := congrArg List.length hsent
  rw [List.length_append, ProtocolHeader.length_bytes, List.length_nil] at hlen
  omega

theorem sendRequest_tells_iff (hs : s.Sound) (seq : UInt64) {reqSize respSize : UInt32}
    (hreq : 24 ≤ reqSize) (hresp : respSize = 0 ∨ 24 ≤ respSize) :
    Ends (sendRequest seq reqSize respSize)
        (fun _ s' => Tells (.initRequest seq (reqSize - 24)
          (if respSize ≠ 0 then respSize - 24 else respSize)) true reqSize.toNat s s')
        (fun f _ => f.OfSocket) s ↔ 24 < reqSize.toNat := by
  have hspec := sendRequest_spec hs.length hs.room seq hreq hresp rfl
  have h24 : 24 ≤ reqSize.toNat := hreq
  have hlen : (Message.request seq reqSize respSize).payloadLen + 24 = reqSize.toNat :=
    Nat.sub_add_cancel h24
  rw [← Message.header_request seq hreq]
  constructor
  · intro htells
    by_contra hle
    obtain ⟨-, -, -, hnot⟩ := ((htells.and hspec).mono (fun _ _ h =>
      Sent.not_tells h.2.1 (by omega) _ _ _ h.1) fun _ _ hf => hf.2.2.1
      (if_pos (by omega))).exists_ok
    exact hnot
  · intro hlt
    refine hspec.mono (fun _ s' hsent => ?_) fun _ _ hf => hf.1
    rw [← hlen]
    exact hsent.1.tells (by omega)

theorem sendResponse_tells_iff (hs : s.Sound) (seq : UInt64) {respSize : UInt32}
    (hpos : 0 < respSize) (dest : Option SockAddr) :
    Ends (sendResponse seq respSize dest)
        (fun _ s' => Tells (.initResponse seq respSize) false (respSize.toNat + 24) s s')
        (fun f _ => f.OfSocket) s ↔ respSize.toNat + 24 < 2 ^ 32 := by
  have hspec := sendResponse_spec hs.length hs.room seq respSize dest rfl
  have h0 : 0 < respSize.toNat := hpos
  have hlt := respSize.toNat_lt
  have hpay : (Message.response seq respSize).payloadLen = (respSize.toNat + 24) % 2 ^ 32 - 24 := by
    show (respSize + 24).toNat - 24 = _
    rw [UInt32.toNat_add]
    rfl
  constructor
  · intro htells
    by_contra hle
    obtain ⟨-, -, -, hnot⟩ := ((htells.and hspec).mono (fun _ _ h =>
      Sent.not_tells h.2.1 (by omega) _ _ _ h.1) fun _ _ hf => hf.2.2.1
      (if_pos (by omega))).exists_ok
    exact hnot
  · intro hfits
    have hsum : (respSize + 24).toNat = respSize.toNat + 24 := by
      rw [UInt32.toNat_add]
      exact Nat.mod_eq_of_lt hfits
    have h24 : 24 ≤ respSize + 24 := by
      show 24 ≤ (respSize + 24).toNat
      omega
    refine hspec.mono (fun _ s' hsent => ?_) fun _ _ hf => hf.1
    rw [← Message.header_response seq h24, show respSize.toNat + 24 =
      (Message.response seq respSize).payloadLen + 24 by omega]
    exact hsent.1.tells (by omega)

/-- The length field tells the bytes transmitted, if and only if a request has a payload and the
length of a response does not wrap. -/
theorem tells_iff (hs : s.Sound) (seq : UInt64) :
    (∀ reqSize respSize : UInt32, 24 ≤ reqSize → respSize = 0 ∨ 24 ≤ respSize →
      (Ends (sendRequest seq reqSize respSize)
        (fun _ s' => Tells (.initRequest seq (reqSize - 24)
          (if respSize ≠ 0 then respSize - 24 else respSize)) true reqSize.toNat s s')
        (fun f _ => f.OfSocket) s ↔ 24 < reqSize.toNat)) ∧
    ∀ (respSize : UInt32) (dest : Option SockAddr), 0 < respSize →
      (Ends (sendResponse seq respSize dest)
        (fun _ s' => Tells (.initResponse seq respSize) false (respSize.toNat + 24) s s')
        (fun f _ => f.OfSocket) s ↔ respSize.toNat + 24 < 2 ^ 32) :=
  ⟨fun _ _ hreq hresp => sendRequest_tells_iff hs seq hreq hresp,
    fun _ dest hpos => sendResponse_tells_iff hs seq hpos dest⟩

/-- A request of 100 bytes, in two pieces, before a kernel that takes them whole. -/
theorem tells_request :
    Ends (sendRequest 7 100 50)
      (fun _ s' => Tells (.initRequest 7 (100 - 24) (50 - 24)) true 100
        (init (.serving [] 1 0 2) (List.replicate 64 0)) s')
      (fun _ _ => False) (init (.serving [] 1 0 2) (List.replicate 64 0)) := by
  have hreturns : Ends (sendRequest 7 100 50) (fun _ _ => True) (fun _ _ => False)
      (init (.serving [] 1 0 2) (List.replicate 64 0)) := by
    decide +kernel
  exact (hreturns.and (((tells_iff (sound_init (by decide) (by decide)) 7).1 100 50 (by decide)
    (.inr (by decide))).mpr (by decide))).mono (fun _ _ h => h.2) fun _ _ h => h.1

/-- A request of a header alone and a response whose length wraps are not transmitted. -/
theorem not_tells :
    (¬∀ (s : BabblerProtocol) (seq : UInt64) (reqSize respSize : UInt32), s.Sound →
      24 ≤ reqSize → respSize = 0 ∨ 24 ≤ respSize → Ends (sendRequest seq reqSize respSize)
        (fun _ s' => Tells (.initRequest seq (reqSize - 24)
          (if respSize ≠ 0 then respSize - 24 else respSize)) true reqSize.toNat s s')
        (fun f _ => f.OfSocket) s) ∧
    ¬∀ (s : BabblerProtocol) (seq : UInt64) (respSize : UInt32) (dest : Option SockAddr),
      s.Sound → 0 < respSize → Ends (sendResponse seq respSize dest)
        (fun _ s' => Tells (.initResponse seq respSize) false (respSize.toNat + 24) s s')
        (fun f _ => f.OfSocket) s := by
  have hs : (fresh []).Sound := sound_init (by decide) (by decide)
  constructor
  · intro h
    have htells := h (fresh []) 0 24 0 hs (by decide) (.inl rfl)
    exact absurd ((sendRequest_tells_iff hs 0 (by decide) (.inl rfl)).mp htells) (by decide)
  · intro h
    have htells := h (fresh []) 0 0xffffffff none hs (by decide)
    exact absurd ((sendResponse_tells_iff hs 0 (by decide) none).mp htells) (by decide)

end BabblerProtocol

end NetBabbler
