import NetBabbler.Keeping
import NetBabbler.Receiving

/-!
# What lies in the buffer

What `receive` does to the buffer on any channel, datagrams included. The buffer stays
sound (`receive_sound`), a message that lies whole in it is taken without the socket
(`receive_buffered`), and after the cancel event no other is (`receive_cancelled`).
-/

namespace NetBabbler

open EStateM

namespace BabblerProtocol

variable {s : BabblerProtocol} {m : Message}

/-! ## The invariant on any channel -/

/-- The part of `Sound` that holds in the middle of `receive` too. -/
structure Sized (n : Nat) (s : BabblerProtocol) : Prop where
  bufsize : s.bufsize = n
  length : s.buf.length = n

theorem Sound.sized (h : s.Sound) : s.Sized s.bufsize :=
  ⟨rfl, h.length⟩

/-- An emptied buffer is sound. -/
theorem Sized.sound {n : Nat} (h : s.Sized n) (hsize : 64 ≤ n) (hunsigned : n < 2 ^ 32) :
    ({ s with pBuf := 0, bufContentSize := 0 } : BabblerProtocol).Sound where
  size := by rw [h.bufsize]; exact hsize
  unsigned := by rw [h.bufsize]; exact hunsigned
  length := h.length.trans h.bufsize.symm
  bound := Nat.zero_le _
  empty _ := rfl

theorem recvInto_sized {n len atleast : Nat} (h : s.Sized n) (hlen : len ≤ n) :
    Ends (recvInto len atleast)
      (fun k s' => s'.Sized n ∧ s'.pBuf = s.pBuf ∧ s'.bufContentSize = k ∧ k ≤ len)
      (fun _ _ => True) s := by
  simp only [recvInto, onSocket, updateReceiveStats, ends_bind, ends_zoom, ends_modify, ends_pure]
  refine (Socket.recv_length len atleast s.socket).mono ?_ fun _ _ he => he
  intro bs sock hle
  have hstore : 0 + bs.length ≤ s.buf.length := by
    rw [h.length]
    omega
  exact ⟨⟨h.bufsize, (length_store hstore).trans h.length⟩, trivial, trivial, hle⟩

/-- `checkPayload` only looks. -/
theorem checkPayload_frame (incr : Bool) (data : List UInt8) (n : Nat) (v : UInt8) :
    Ends (checkPayload incr data n v) (fun _ s' => s' = s) (fun _ _ => True) s :=
  (checkPayload_spec incr data n v s).mono (fun _ _ h => h.1) fun _ _ _ => trivial

theorem receiveRest_sized (isRequest : Bool) {n : Nat} : ∀ (fuel : Nat) (t : Int) (v : UInt8)
    {s : BabblerProtocol}, s.Sized n → 0 ≤ t →
    Ends (receiveRest isRequest fuel t v) (fun t' s' => t' = 0 ∧ s'.Sized n) (fun _ _ => True) s
  | 0, _, _, _, _, _ => by
    rw [receiveRest, ends_throw]
    trivial
  | fuel + 1, t, v, s, h, ht => by
    rw [receiveRest, ends_ite]
    split_ifs with hpos
    · simp only [ends_bind, ends_get]
      have hsize := h.bufsize
      refine (recvInto_sized h (by omega)).mono ?_ fun _ _ he => he
      rintro k s₁ ⟨hsized, -, -, hk⟩
      refine (checkPayload_frame _ _ _ _).mono ?_ fun _ _ he => he
      rintro v' _ rfl
      exact receiveRest_sized isRequest fuel _ v' hsized (by omega)
    · rw [ends_pure]
      exact ⟨by omega, h⟩

theorem rcvLen_sound (hs : s.Sound) :
    Ends rcvLen (fun n s' => s'.Sound ∧ n = s'.bufContentSize) (fun _ _ => True) s := by
  simp only [rcvLen, ends_bind, ends_get, ends_ite, ends_pure]
  split_ifs with h0
  · refine (recvInto_sized hs.sized le_rfl).mono ?_ fun _ _ he => he
    rintro n s' ⟨hsized, hp, rfl, hle⟩
    have hp0 : s'.pBuf = 0 := hp.trans (hs.empty h0)
    have hbufsize := hsized.bufsize
    exact ⟨⟨hbufsize ▸ hs.size, hbufsize ▸ hs.unsigned, hsized.length.trans hbufsize.symm,
      by omega, fun _ => hp0⟩, rfl⟩
  · exact ⟨hs, trivial⟩

theorem receivePayload_sound (hs : s.Sound) (h : ProtocolHeader) :
    Ends (receivePayload h s.bufContentSize) (fun _ s' => s'.Sound) (fun _ _ => True) s := by
  simp only [receivePayload, ends_bind, ends_get]
  refine (checkPayload_frame _ _ _ _).mono ?_ fun _ _ he => he
  rintro v s' rfl
  rcases Nat.lt_or_ge h.length.toNat s'.bufContentSize with hlt | hge
  · rw [receiveRest_neg _ _ (by omega)]
    exact (consume_spec hs hlt).mono (fun _ _ h => h.1) fun _ _ he => he.elim
  · refine (receiveRest_sized _ _ _ _ hs.sized (by omega)).mono ?_ fun _ _ he => he
    rintro _ s₂ ⟨rfl, hsized⟩
    rw [consume, if_neg (by omega), ends_modify]
    exact hsized.sound hs.size hs.unsigned

/-- `receive` keeps the invariant, whatever the channel and the kernel. -/
theorem receive_sound (hs : s.Sound) :
    Ends receive (fun _ s' => s'.Sound) (fun _ _ => True) s := by
  simp only [receive, receiveHeader, headerAt, updateReceiveStats, ends_bind, ends_bugOn, ends_get,
    ends_throwIf, ends_pure, ends_modify]
  refine (rcvLen_sound hs).mono ?_ fun _ _ he => he
  rintro _ s₁ ⟨hs₁, rfl⟩
  split_ifs
  refine (receivePayload_sound hs₁ _).mono ?_ fun _ _ he => he
  exact fun _ _ hs₂ => hs₂.elsewhere _ _

theorem recvResponse_sound (hs : s.Sound) (seq : UInt64) :
    Ends (recvResponse seq) (fun _ s' => s'.Sound) (fun _ _ => True) s := by
  simp only [recvResponse, ends_bind, ends_throwIf]
  refine (receive_sound hs).mono ?_ fun _ _ he => he
  intro r s' hs'
  split_ifs
  exact hs'

/-- So does sending, whatever the sizes. -/
theorem sendRequest_sound (hs : s.Sound) (seq : UInt64) (reqSize respSize : UInt32) :
    Ends (sendRequest seq reqSize respSize) (fun _ s' => s'.Sound) (fun _ _ => True) s := by
  by_cases h : 24 ≤ reqSize ∧ (respSize = 0 ∨ 24 ≤ respSize)
  · refine (sendRequest_spec hs.length hs.room seq h.1 h.2 rfl).mono ?_ fun _ _ _ => trivial
    exact fun _ s' hsent => hsent.1.sound hs
  · exact (sendRequest_bug s seq h).mono (fun _ _ he => he.elim) fun _ _ _ => trivial

/-! ## A message in the buffer -/

/-- A response to the request `seq` lies in the buffer. -/
def Buffered (s : BabblerProtocol) (seq : UInt64) : Prop :=
  ∃ m : Message, m.isRequest = false ∧ m.seq = seq ∧ m.encode <+: s.unread

/-- The part of `receive` after the header tests, for a message in the buffer. -/
theorem receivePayload_buffered (hs : s.Sound) (hm : m.encode <+: s.unread) :
    Ends (receivePayload m.header s.bufContentSize)
      (fun _ s' => s'.socket = s.socket ∧ s'.stats = s.stats) (fun _ _ => False) s := by
  have hbound := hs.bound
  have hunsigned := hs.unsigned
  have hlen := hm.length_le
  rw [Message.length_encode, hs.length_unread] at hlen
  simp only [receivePayload, ProtocolHeader.ofNat_size, ProtocolHeader.size, ends_bind, ends_get]
  rw [toNat_payloadLen (by omega) (by omega), if_pos (by simp), Message.header_length,
    Message.header_isRequest, Message.header_seq,
    show min (m.payloadLen + 24) s.bufContentSize - 24 = m.payloadLen by omega]
  refine (checkPayload_spec _ _ _ _ s).mono ?_ ?_
  · rintro v s' ⟨rfl, -⟩
    rw [receiveRest_neg _ _ (by omega)]
    rcases Nat.lt_or_eq_of_le hlen with hlt | heq
    · rw [Nat.add_comm m.payloadLen]
      refine (consume_spec hs hlt).mono ?_ fun _ _ h => h
      exact fun _ _ h => ⟨h.2.1, h.2.2.2.2.1⟩
    · rw [consume, if_neg (by omega), ends_modify]
      exact ⟨rfl, rfl⟩
  · rintro f s' ⟨rfl, ⟨-, hnot⟩ | ⟨-, hlt⟩⟩
    · exact hnot (Message.Matches.payload (.inl hm) le_rfl)
    · rw [List.length_drop, hs.length_unread] at hlt
      omega

/-- `receive` takes a message in the buffer without the socket. -/
theorem receive_buffered (hs : s.Sound) (hm : m.encode <+: s.unread) :
    Ends receive
      (fun r s' => r = (m.isRequest, m.options, m.seq) ∧
        s'.stats.sentOctets = s.stats.sentOctets ∧
        s'.stats.receivedOctets = s.stats.receivedOctets)
      (fun _ _ => False) s := by
  have hlen := hm.length_le
  rw [Message.length_encode, hs.length_unread] at hlen
  have hacc := m.acceptable_header
  have hread : Ends receiveHeader (fun r s' => r = (m.header, s.bufContentSize) ∧ s' = s)
      (fun _ _ => False) s := by
    simp only [receiveHeader, rcvLen, headerAt, ProtocolHeader.size, ends_bind, ends_get, ends_ite,
      ends_pure, ends_bugOn, ends_throwIf, hs.length_unread, Message.ofBytes_of_isPrefix hm]
    rw [if_neg (by omega), if_neg (by omega), if_neg (by omega), if_neg (by simp),
      if_neg (by have := hacc.2.1; tauto)]
    exact ⟨trivial, trivial⟩
  simp only [receive, updateReceiveStats, ends_bind, ends_modify, ends_pure]
  refine hread.mono ?_ fun _ _ h => h
  rintro _ s₁ ⟨rfl, rfl⟩
  refine (receivePayload_buffered hs hm).mono ?_ fun _ _ h => h
  rintro _ s₂ ⟨-, hstats⟩
  simp [hstats]

theorem recvResponse_buffered (hs : s.Sound) {seq : UInt64} (h : s.Buffered seq) :
    Ends (recvResponse seq)
      (fun _ s' => s'.stats.sentOctets = s.stats.sentOctets ∧
        s'.stats.receivedOctets = s.stats.receivedOctets)
      (fun _ _ => False) s := by
  obtain ⟨m, hresp, rfl, hm⟩ := h
  simp only [recvResponse, ends_bind, ends_throwIf]
  refine (receive_buffered hs hm).mono ?_ fun _ _ h => h
  rintro _ s' ⟨rfl, hstats⟩
  simp [hresp, hstats]

/-! ## After the cancel event -/

theorem recvInto_cancelled (hc : s.socket.Cancelled) (len atleast : Nat) :
    Ends (recvInto len atleast) (fun _ _ => False) (fun _ _ => True) s := by
  simp only [recvInto, onSocket, ends_bind, ends_zoom]
  exact (Socket.recv_cancelled hc len atleast).mono (fun _ _ he => he.elim) fun _ _ he => he

/-- Only a header in the buffer is tested. -/
theorem receiveHeader_cancelled (hs : s.Sound) (hc : s.socket.Cancelled) :
    Ends receiveHeader
      (fun r s' => s' = s ∧ r = (ProtocolHeader.ofBytes s.unread, s.bufContentSize) ∧
        24 ≤ s.bufContentSize ∧ Tested (ProtocolHeader.ofBytes s.unread))
      (fun _ _ => True) s := by
  have hlen := hs.length_unread
  simp only [receiveHeader, rcvLen, headerAt, ProtocolHeader.size, ends_bind, ends_get, ends_ite,
    ends_pure, ends_bugOn, ends_throwIf]
  split_ifs with h0 hfrag _ hsum htype
  · exact (recvInto_cancelled hc _ _).mono (fun _ _ he => he.elim) fun _ _ he => he
  · refine ⟨trivial, trivial, by omega, by simpa using hsum, ?_⟩
    tauto

/-- Only a payload in the buffer is checked to its end. -/
theorem receivePayload_cancelled (hs : s.Sound) (hc : s.socket.Cancelled)
    (h24 : 24 ≤ s.bufContentSize) (hm : ProtocolHeader.ofBytes s.unread = m.header) :
    Ends (receivePayload m.header s.bufContentSize) (fun _ _ => m.encode <+: s.unread)
      (fun _ _ => True) s := by
  have hbound := hs.bound
  have hunsigned := hs.unsigned
  simp only [receivePayload, ProtocolHeader.ofNat_size, ProtocolHeader.size, ends_bind, ends_get]
  rw [toNat_payloadLen h24 (by omega), if_pos (by simp), Message.header_length,
    Message.header_isRequest, Message.header_seq]
  refine (checkPayload_spec _ _ _ _ s).mono ?_ fun _ _ _ => trivial
  rintro v s' ⟨rfl, -, hpay, -⟩
  rcases Nat.lt_or_ge s'.bufContentSize (m.payloadLen + 24) with hlt | hge
  · rw [receiveRest, if_pos (by omega)]
    simp only [ends_bind, ends_get]
    exact (recvInto_cancelled hc _ _).mono (fun _ _ he => he.elim) fun _ _ he => he
  · rw [show min (m.payloadLen + 24) s'.bufContentSize - 24 = m.payloadLen by omega] at hpay
    have hpre : m.encode <+: s'.unread := by
      rw [Message.encode, ← take_unread hs h24 hm hpay]
      exact List.take_prefix _ _
    refine ends_of_forall (fun _ _ => ?_) fun _ _ => trivial
    exact ends_of_forall (fun _ _ => hpre) fun _ _ => trivial

/-- After the cancel event only a message in the buffer is received. -/
theorem receive_cancelled (hs : s.Sound) (hc : s.socket.Cancelled) :
    Ends receive
      (fun r _ => ∃ m : Message, r = (m.isRequest, m.options, m.seq) ∧ m.encode <+: s.unread)
      (fun _ _ => True) s := by
  simp only [receive, updateReceiveStats, ends_bind, ends_modify, ends_pure]
  refine (receiveHeader_cancelled hs hc).mono ?_ fun _ _ he => he
  rintro _ s' ⟨rfl, rfl, h24, htested⟩
  rcases htested.message_or_short with ⟨m, hm⟩ | hshort
  · rw [hm]
    refine (receivePayload_cancelled hs hc h24 hm).mono ?_ fun _ _ he => he
    exact fun _ _ hpre => ⟨m, by simp, hpre⟩
  · exact (receivePayload_short hs h24 hshort).mono (fun _ _ he => he.elim) fun _ _ _ => trivial

theorem recvResponse_cancelled (hs : s.Sound) (hc : s.socket.Cancelled) (seq : UInt64) :
    Ends (recvResponse seq) (fun _ _ => s.Buffered seq) (fun _ _ => True) s := by
  simp only [recvResponse, ends_bind, ends_throwIf]
  refine (receive_cancelled hs hc).mono ?_ fun _ _ he => he
  rintro _ s' ⟨m, rfl, hpre⟩
  split_ifs with hreq hseq
  exact ⟨m, by simpa using hreq, (not_not.mp hseq).symm, hpre⟩

end BabblerProtocol

end NetBabbler
