import NetBabbler.Sending

/-!
# What receiving does

`Sound` is the representation invariant of the receive buffer. `receive_spec` says all
that `receive` does from a sound object on a stream, in terms of the bytes `pending` in
the buffer and the socket : it takes exactly one message from their front and is sound
again, or it fails, and then each fault names its cause (`ReceiveFault`). A kernel that
serves bytes lets it take any message that is there.
-/

namespace NetBabbler

open EStateM

namespace BabblerProtocol

/-! ## The representation invariant -/

/-- The invariant of the buffer : its unread bytes lie inside it, at its start if there are none. -/
structure Sound (s : BabblerProtocol) : Prop where
  size : 64 ≤ s.bufsize
  /-- The constructor takes an `unsigned`. -/
  unsigned : s.bufsize < 2 ^ 32
  length : s.buf.length = s.bufsize
  bound : s.pBuf + s.bufContentSize ≤ s.bufsize
  empty : s.bufContentSize = 0 → s.pBuf = 0

theorem Sound.length_unread {s : BabblerProtocol} (h : s.Sound) :
    s.unread.length = s.bufContentSize := by
  have := h.bound
  have := h.length
  simp only [unread, List.length_take, List.length_drop]
  omega

/-- There is room for a header and more. -/
theorem Sound.room {s : BabblerProtocol} (h : s.Sound) : 24 < s.bufsize := by
  have := h.size
  omega

/-- The invariant is about the buffer alone. -/
theorem Sound.elsewhere {s : BabblerProtocol} (h : s.Sound) (socket : Socket) (stats : Stats) :
    Sound { s with socket := socket, stats := stats } :=
  ⟨h.size, h.unsigned, h.length, h.bound, h.empty⟩

theorem length_pending {s : BabblerProtocol} (h : s.Sound) :
    s.pending.length = s.bufContentSize + s.socket.incoming.length := by
  rw [pending, List.length_append, h.length_unread]

/-- A header in the buffer is the one that is pending. -/
theorem ofBytes_pending {s : BabblerProtocol} (h : s.Sound) (h24 : 24 ≤ s.bufContentSize) :
    ProtocolHeader.ofBytes s.pending = ProtocolHeader.ofBytes s.unread := by
  rw [pending, ProtocolHeader.ofBytes_append (h24.trans_eq h.length_unread.symm)]

theorem sound_init {socket : Socket} {buf : List UInt8} (h : 64 ≤ buf.length)
    (h' : buf.length < 2 ^ 32) : (init socket buf).Sound :=
  ⟨h, h', rfl, by simp [init], fun _ => rfl⟩

/-- Sending keeps the invariant. -/
theorem Sent.sound {s s' : BabblerProtocol} {dest : Option SockAddr} {bs : List UInt8} {n : Nat}
    (h : s.Sent dest bs n s') (hs : s.Sound) : s'.Sound where
  size := by rw [h.bufsize]; exact hs.size
  unsigned := by rw [h.bufsize]; exact hs.unsigned
  length := by rw [h.length, h.bufsize]; exact hs.length
  bound := by rw [h.pBuf, h.bufContentSize, h.bufsize]; exact hs.bound
  empty := by rw [h.pBuf, h.bufContentSize]; exact hs.empty

/-! ## The payload check -/

/-- `checkPayload` compares with the counter until the first byte that differs or was not
received. -/
theorem checkPayload_spec (incr : Bool) : ∀ (data : List UInt8) (n : Nat) (v : UInt8)
    (s : BabblerProtocol),
    Ends (checkPayload incr data n v)
      (fun v' s' => s' = s ∧ n ≤ data.length ∧ data.take n = payload incr v n ∧
        v' = (count incr)^[n] v)
      (fun f s' => s' = s ∧
        ((∃ what, f = .protocolException what) ∧ ¬data.take n <+: payload incr v n ∨
          f = .outOfBounds ∧ data.length < n)) s
  | _, 0, v, s => by simp [checkPayload]
  | [], n + 1, v, s => by simp [checkPayload]
  | b :: data, n + 1, v, s => by
    simp only [checkPayload, ends_bind, ends_throwIf]
    by_cases hb : b = count incr v
    · rw [if_neg (not_not_intro hb)]
      refine (checkPayload_spec incr data n (count incr v) s).mono ?_ ?_
      · rintro v' s' ⟨rfl, hle, htake, rfl⟩
        refine ⟨rfl, by simpa using hle, ?_, rfl⟩
        rw [List.take_succ_cons, payload_succ, htake, hb]
      · rintro f s' ⟨rfl, ⟨hf, hnot⟩ | ⟨hf, hlt⟩⟩
        · refine ⟨rfl, .inl ⟨hf, ?_⟩⟩
          rwa [List.take_succ_cons, payload_succ, hb, List.prefix_cons_inj]
        · exact ⟨rfl, .inr ⟨hf, by simpa using hlt⟩⟩
    · rw [if_pos hb]
      refine ⟨trivial, .inl ⟨⟨_, rfl⟩, ?_⟩⟩
      rw [List.take_succ_cons, payload_succ, List.cons_prefix_cons]
      exact fun h => hb h.1

/-! ## Reading into the buffer -/

/-- From `s` the bytes `bs` came in, leaving `s'`. -/
structure Received (s : BabblerProtocol) (bs : List UInt8) (s' : BabblerProtocol) : Prop where
  reads : s.socket.Reads bs s'.socket
  bufsize : s'.bufsize = s.bufsize
  length : s'.buf.length = s.buf.length
  stats : s'.stats = s.stats.receive bs.length 0

theorem Received.refl {s : BabblerProtocol} (h : s.socket.IsStream) : s.Received [] s :=
  ⟨.refl h, rfl, rfl, by simp⟩

theorem Received.trans {s₁ s₂ s₃ : BabblerProtocol} {as bs : List UInt8}
    (h₁ : s₁.Received as s₂) (h₂ : s₂.Received bs s₃) : s₁.Received (as ++ bs) s₃ where
  reads := h₁.reads.trans h₂.reads
  bufsize := h₂.bufsize.trans h₁.bufsize
  length := h₂.length.trans h₁.length
  stats := by rw [h₂.stats, h₁.stats, Stats.receive_receive, List.length_append]

/-- Reading takes nothing from what is pending. -/
theorem Received.pending {s s' : BabblerProtocol} {bs : List UInt8} (h : s.Received bs s')
    (hunread : s'.unread = s.unread ++ bs) : s.pending = s'.pending := by
  rw [BabblerProtocol.pending, BabblerProtocol.pending, hunread, h.reads.incoming,
    List.append_assoc]

/-- The kernel serves bytes, `n` of them are there, and it has answers for `k`. -/
structure Ready (s : BabblerProtocol) (n k : Nat) : Prop where
  serves : s.socket.Serves k
  all : s.socket.incoming.length ≤ k
  enough : n ≤ s.socket.incoming.length

/-- `recvInto` on a stream. A kernel that serves bytes never makes it fail. -/
theorem recvInto_spec {s : BabblerProtocol} (hs : s.socket.IsStream)
    (hbuf : s.buf.length = s.bufsize) {len atleast : Nat} (hle : atleast ≤ len) (hpos : 0 < len)
    (hlen : len ≤ s.bufsize) :
    Ends (recvInto len atleast)
      (fun n s' => ∃ bs, n = bs.length ∧ s.Received bs s' ∧ bs.length ≤ len ∧
        atleast ≤ bs.length ∧ s'.buf.take bs.length = bs ∧ s'.bufContentSize = bs.length ∧
        s'.pBuf = s.pBuf ∧ s'.socket.polls.length < s.socket.polls.length ∧
        ∀ k, s.Ready (max 1 atleast) k → s'.socket.Serves (k - bs.length))
      (fun f _ => f.OfSocket ∧ ∀ k, ¬s.Ready (max 1 atleast) k) s := by
  simp only [recvInto, onSocket, updateReceiveStats, ends_bind, ends_zoom, ends_modify, ends_pure]
  have hserves : ∀ k, s.Ready (max 1 atleast) k → Ends (Socket.recv len atleast)
      (fun out s' => 0 < out.length ∧ s'.Serves (k - out.length)) (fun _ _ => False) s.socket :=
    fun k hk => by
      have := hk.enough
      exact Socket.recv_serves hs hle hpos hk.serves hk.all (by omega) (by omega)
  obtain ⟨hok, herr⟩ := ends_iff.mp (Socket.recv_spec hs hle)
  refine ends_iff.mpr ⟨fun bs sock hrun => ?_, fun f sock hrun => ?_⟩
  · obtain ⟨hreads, hle', hat, hpolls⟩ := hok bs sock hrun
    have hstore : 0 + bs.length ≤ s.buf.length := by omega
    refine ⟨bs, rfl, ⟨hreads, rfl, length_store hstore, ?_⟩, hle', hat, ?_, rfl, trivial, hpolls,
      fun k hk => ((hserves k hk).ok hrun).2⟩
    · simp only [Stats.receive, UInt64.toInt64_ofNat']
      rfl
    · simpa using take_store (Nat.zero_le s.buf.length) bs
  · exact ⟨herr f sock hrun, fun k hk => (hserves k hk).error hrun⟩

/-! ## The rest of a message -/

/-- The loop of `receive` has nothing to do when the message is complete. -/
theorem receiveRest_neg (incr : Bool) (fuel : Nat) {t : Int} (ht : t ≤ 0) (v : UInt8)
    {Q : Int → BabblerProtocol → Prop} {E : Fault → BabblerProtocol → Prop}
    {s : BabblerProtocol} : Ends (receiveRest incr (fuel + 1) t v) Q E s ↔ Q t s := by
  rw [receiveRest, if_neg (by omega), ends_pure]

/-- The loop of `receive` reads the rest of the payload and nothing past it. -/
theorem receiveRest_spec (incr : Bool) :
    ∀ (fuel n : Nat) (v : UInt8) {s : BabblerProtocol}, s.socket.IsStream →
      s.buf.length = s.bufsize → 0 < s.bufsize → s.socket.polls.length < fuel →
      Ends (receiveRest incr fuel n v)
        (fun t s' => t = 0 ∧ s.Received (payload incr v n) s' ∧
          ∀ k, s.Ready n k → s'.socket.Serves (k - n))
        (fun f _ => (∃ what, f = .protocolException what) ∧
            ¬s.socket.incoming.take n <+: payload incr v n ∨
          f.OfSocket ∧ (s.socket.Serves s.socket.incoming.length →
            s.socket.incoming.length < n ∧ s.socket.incoming <+: payload incr v n)) s
  | 0, _, _, _, _, _, _, hfuel => by omega
  | fuel + 1, 0, v, s, hs, _, _, _ => by
    rw [receiveRest_neg incr fuel (by simp)]
    exact ⟨rfl, .refl hs, fun k hk => hk.serves⟩
  | fuel + 1, n + 1, v, s, hs, hbuf, hsize, hfuel => by
    have hpos : ((n + 1 : Nat) : Int) > 0 := by omega
    simp only [receiveRest, if_pos hpos, ends_bind, ends_get, Int.toNat_natCast]
    refine (recvInto_spec hs hbuf (Nat.zero_le _) (by omega) (Nat.min_le_right _ _)).mono ?_ ?_
    · rintro m s₁ ⟨bs, rfl, hrec, hle, -, htake, -, -, hpolls, hserves⟩
      have hlen : s₁.buf.length = s₁.bufsize := by rw [hrec.length, hbuf, hrec.bufsize]
      have hn : bs.length ≤ n + 1 := by omega
      have hsplit : n + 1 = bs.length + (n + 1 - bs.length) := by omega
      have hincoming : s.socket.incoming.take (n + 1) =
          bs ++ s₁.socket.incoming.take (n + 1 - bs.length) := by
        rw [hrec.reads.incoming, List.take_append, List.take_of_length_le hn]
      have hready : ∀ k, s.Ready (n + 1) k → s₁.Ready (n + 1 - bs.length) (k - bs.length) := by
        intro k hk
        have hall := hk.all
        have henough := hk.enough
        have hcount := congrArg List.length hrec.reads.incoming
        rw [List.length_append] at hcount
        exact ⟨hserves k ⟨hk.serves, hk.all, by omega⟩, by omega, by omega⟩
      rw [htake]
      refine (checkPayload_spec incr bs bs.length v s₁).mono ?_ ?_
      · rintro v' s₁' ⟨rfl, -, hbs, rfl⟩
        rw [List.take_length] at hbs
        rw [show ((n + 1 : Nat) : Int) - bs.length = ((n + 1 - bs.length : Nat) : Int) by omega]
        refine (receiveRest_spec incr fuel (n + 1 - bs.length) _ hrec.reads.stream hlen
          (by rw [hrec.bufsize]; exact hsize) (by omega)).mono ?_ ?_
        · rintro t s₂ ⟨rfl, hrest, hserves'⟩
          refine ⟨rfl, ?_, fun k hk => ?_⟩
          · rw [hsplit, payload_add, ← hbs]
            exact hrec.trans hrest
          · have := hserves' _ (hready k hk)
            rwa [Nat.sub_sub, Nat.add_sub_cancel' hn] at this
        · rintro f s₂ (⟨hf, hnot⟩ | ⟨hf, hmore⟩)
          · refine .inl ⟨hf, ?_⟩
            rw [hincoming, hsplit, payload_add, ← hbs, Nat.add_sub_cancel_left]
            rwa [List.prefix_append_right_inj]
          · refine .inr ⟨hf, fun hk => ?_⟩
            have hcount := congrArg List.length hrec.reads.incoming
            rw [List.length_append] at hcount
            rcases Nat.eq_zero_or_pos s.socket.incoming.length with hnone | hpos
            · rw [List.length_eq_zero_iff.mp hnone]
              exact ⟨Nat.succ_pos n, List.nil_prefix⟩
            · have hk₁ := hserves _ ⟨hk, le_rfl, by omega⟩
              obtain ⟨hlt, hpre⟩ := hmore (by rwa [hcount, Nat.add_sub_cancel_left] at hk₁)
              refine ⟨by omega, ?_⟩
              rw [hrec.reads.incoming, hsplit, payload_add, ← hbs]
              exact (List.prefix_append_right_inj bs).mpr hpre
      · rintro f s₁' ⟨rfl, ⟨hf, hnot⟩ | ⟨hf, hlt⟩⟩
        · refine .inl ⟨hf, fun hpre => hnot ?_⟩
          rw [List.take_length]
          have hbs : bs <+: payload incr v (n + 1) :=
            (hincoming ▸ List.prefix_append bs _).trans hpre
          exact (eq_payload_of_isPrefix hbs) ▸ List.prefix_refl _
        · omega
    · rintro f s' ⟨hf, hnot⟩
      refine .inr ⟨hf, fun hk => ?_⟩
      have hnone : s.socket.incoming = [] := by
        by_contra hne
        have := List.length_pos_iff.mpr hne
        exact hnot _ ⟨hk, le_rfl, by omega⟩
      rw [hnone]
      exact ⟨Nat.succ_pos n, List.nil_prefix⟩

/-! ## The header -/

/-- `receive` starts from what is buffered, else from what `recv` brings. -/
theorem rcvLen_spec {s : BabblerProtocol} (hs : s.Sound) (hstream : s.socket.IsStream) :
    Ends rcvLen
      (fun n s' => ∃ bs, s.Received bs s' ∧ s'.Sound ∧ s'.unread = s.unread ++ bs ∧
        n = s'.bufContentSize ∧ 0 < n ∧ (n < 24 → s.bufContentSize = n) ∧
        ∀ k, s.Ready (24 - s.bufContentSize) k → s'.socket.Serves (k - bs.length))
      (fun f _ => f.OfSocket ∧ s.bufContentSize = 0 ∧ ∀ k, ¬s.Ready 24 k) s := by
  have hsize := hs.size
  simp only [rcvLen, ends_bind, ends_get, ends_ite, ends_pure]
  split_ifs with h0
  · refine (recvInto_spec hstream hs.length (show 24 ≤ s.bufsize by omega) (by omega)
      le_rfl).mono ?_ ?_
    · rintro n s' ⟨bs, rfl, hrec, hle, hat, htake, hcontent, hp, -, hserves⟩
      have hp0 : s'.pBuf = 0 := hp.trans (hs.empty h0)
      have hsound : s'.Sound := by
        refine ⟨?_, ?_, ?_, ?_, fun _ => hp0⟩
        · rw [hrec.bufsize]; exact hsize
        · rw [hrec.bufsize]; exact hs.unsigned
        · rw [hrec.length, hrec.bufsize]; exact hs.length
        · rw [hrec.bufsize]; omega
      refine ⟨bs, hrec, hsound, ?_, hcontent.symm, by omega, by omega, fun k hk => ?_⟩
      · simp only [unread, h0, hp0, hcontent, List.drop_zero, htake, List.take_zero,
          List.nil_append]
      · rw [h0] at hk
        exact hserves k hk
    · rintro f s' ⟨hf, hnot⟩
      exact ⟨hf, h0, hnot⟩
  · exact ⟨[], .refl hstream, hs, by simp, trivial, by omega, fun _ => trivial,
      fun k hk => hk.serves⟩

/-- The tests that `receive` makes on a header. -/
def Tested (h : ProtocolHeader) : Prop :=
  h.checkChecksum = true ∧ (h.isRequest = true ∨ h.isResponse = true)

/-- A header that passes the tests is that of a message, or announces less than itself. -/
theorem Tested.message_or_short {h : ProtocolHeader} (ht : Tested h) :
    (∃ m : Message, h = m.header) ∨ h.length.toNat < 24 := by
  rcases Nat.lt_or_ge h.length.toNat 24 with hlt | hge
  · exact .inr hlt
  · exact .inl ⟨_, (Message.header_ofHeader ⟨ht.1, ht.2, hge⟩).symm⟩

/-- `receive` up to the header tests. Afterwards the buffer holds the header and whatever
came with it. -/
theorem receiveHeader_spec {s : BabblerProtocol} (hs : s.Sound) (hstream : s.socket.IsStream) :
    Ends receiveHeader
      (fun r s' => ∃ bs, s.Received bs s' ∧ s'.Sound ∧ s'.unread = s.unread ++ bs ∧
        r = (ProtocolHeader.ofBytes s'.unread, s'.bufContentSize) ∧ 24 ≤ s'.bufContentSize ∧
        Tested (ProtocolHeader.ofBytes s'.unread) ∧
        ∀ k, s.Ready (24 - s.bufContentSize) k → s'.socket.Serves (k - bs.length))
      (fun f _ => f = .bug ∧ 0 < s.bufContentSize ∧ s.bufContentSize < 24 ∨
        (∃ what, f = .protocolException what) ∧ 24 ≤ s.pending.length ∧
          ¬Tested (ProtocolHeader.ofBytes s.pending) ∨
        f.OfSocket ∧ s.bufContentSize = 0 ∧ ∀ k, ¬s.Ready 24 k) s := by
  simp only [receiveHeader, headerAt, ProtocolHeader.size, ends_bind, ends_bugOn, ends_get,
    ends_throwIf, ends_pure]
  refine (rcvLen_spec hs hstream).mono ?_ fun f s' h => .inr (.inr h)
  rintro n s' ⟨bs, hrec, hsound, hunread, rfl, hpos, hshort, hserves⟩
  have hlen := hsound.length_unread
  by_cases hfrag : s'.bufContentSize < 24
  · rw [if_pos hfrag]
    rw [hshort hfrag]
    exact .inl ⟨trivial, hpos, hfrag⟩
  have hpending := hrec.pending hunread
  have hheader : ProtocolHeader.ofBytes s.pending = ProtocolHeader.ofBytes s'.unread := by
    rw [hpending, ofBytes_pending hsound (by omega)]
  have hlong : 24 ≤ s.pending.length := by
    rw [hpending, length_pending hsound]
    omega
  rw [if_neg hfrag, hlen, if_neg hfrag]
  by_cases hsum : (ProtocolHeader.ofBytes s'.unread).checkChecksum = true
  · rw [if_neg (by simpa using hsum)]
    by_cases htype : (ProtocolHeader.ofBytes s'.unread).isRequest = true ∨
        (ProtocolHeader.ofBytes s'.unread).isResponse = true
    · rw [if_neg (by tauto)]
      exact ⟨bs, hrec, hsound, hunread, rfl, by omega, ⟨hsum, htype⟩, hserves⟩
    · rw [if_pos (by tauto)]
      exact .inr (.inl ⟨⟨_, rfl⟩, hlong, fun h => htype (hheader ▸ h.2)⟩)
  · rw [if_pos (by simpa using hsum)]
    exact .inr (.inl ⟨⟨_, rfl⟩, hlong, fun h => hsum (hheader ▸ h.1)⟩)

/-! ## The payload -/

theorem toNat_min_ofNat (len : UInt32) {n : Nat} (hlt : n < 2 ^ 32) :
    (min len (UInt32.ofNat n)).toNat = min len.toNat n := by
  have hofNat : (UInt32.ofNat n).toNat = n := by
    rw [UInt32.toNat_ofNat', Nat.mod_eq_of_lt hlt]
  show (if len ≤ UInt32.ofNat n then len else UInt32.ofNat n).toNat = _
  split_ifs with h
  · rw [UInt32.le_iff_toNat_le, hofNat] at h
    rw [min_eq_left h]
  · rw [UInt32.le_iff_toNat_le, hofNat] at h
    rw [hofNat, min_eq_right (by omega)]

/-- The length that `receive` hands to `checkPayload`. It wraps for a message shorter than
its header. -/
theorem toNat_payloadLen {len : UInt32} {n : Nat} (hn : 24 ≤ n) (hlt : n < 2 ^ 32) :
    (min len (UInt32.ofNat n) - 24).toNat =
      if 24 ≤ len.toNat then min len.toNat n - 24 else 2 ^ 32 - 24 + len.toNat := by
  have hlen := len.toNat_lt
  rw [UInt32.toNat_sub, toNat_min_ofNat len hlt]
  simp only [UInt32.toNat_ofNat]
  split_ifs <;> omega

/-- A message announced shorter than its header is never taken. -/
theorem receivePayload_short {s : BabblerProtocol} (hs : s.Sound) (h24 : 24 ≤ s.bufContentSize)
    {h : ProtocolHeader} (hshort : h.length.toNat < 24) :
    Ends (receivePayload h s.bufContentSize) (fun _ _ => False)
      (fun f _ => (∃ what, f = .protocolException what) ∨ f = .outOfBounds) s := by
  have hbound := hs.bound
  have hunsigned := hs.unsigned
  simp only [receivePayload, ProtocolHeader.ofNat_size, ProtocolHeader.size, ends_bind, ends_get]
  rw [toNat_payloadLen h24 (by omega), if_neg (by omega)]
  refine (checkPayload_spec _ _ _ _ s).mono ?_ ?_
  · rintro v' s' ⟨-, hle, -⟩
    rw [List.length_drop, hs.length_unread] at hle
    omega
  · rintro f s' ⟨-, ⟨hf, -⟩ | ⟨hf, -⟩⟩
    · exact .inl hf
    · exact .inr hf

/-- The updates after a message leave the bytes behind it unread. -/
theorem consume_spec {s : BabblerProtocol} (hs : s.Sound) {len : Nat}
    (hlen : len < s.bufContentSize) :
    Ends (consume len (len - s.bufContentSize : Int))
      (fun _ s' => s'.Sound ∧ s'.socket = s.socket ∧ s'.bufsize = s.bufsize ∧
        s'.buf.length = s.buf.length ∧ s'.stats = s.stats ∧ s'.unread = s.unread.drop len ∧
        s'.pBuf = s.pBuf + len)
      (fun _ _ => False) s := by
  have hbound := hs.bound
  rw [consume, if_pos (by omega)]
  simp only [ends_bind, ends_modify, ends_get, ends_bugOn]
  rw [if_neg (by omega)]
  refine ⟨⟨hs.size, hs.unsigned, hs.length, ?_, ?_⟩, trivial, trivial, trivial, trivial, ?_,
    trivial⟩
  · show s.pBuf + len + (s.bufContentSize - len) ≤ s.bufsize
    omega
  · intro h0
    have : s.bufContentSize - len = 0 := h0
    omega
  · simp only [unread, List.drop_take, List.drop_drop]

/-- The front of what is unread, where its header is that of `m` and `k` bytes were checked. -/
theorem take_unread {s : BabblerProtocol} (hs : s.Sound) (h24 : 24 ≤ s.bufContentSize)
    {m : Message} (hm : ProtocolHeader.ofBytes s.unread = m.header) {k : Nat}
    (hpay : (s.unread.drop 24).take k = payload m.isRequest m.seq.toUInt8 k) :
    s.unread.take (24 + k) = m.header.bytes ++ payload m.isRequest m.seq.toUInt8 k := by
  have hlen := hs.length_unread
  have htake : s.unread.take 24 = m.header.bytes := by
    rw [← hm, ProtocolHeader.bytes_ofBytes_take (by omega)]
  rw [List.take_add, htake, hpay]

/-- From `s`, whose buffer begins with the message `m`, `m` was taken, which left `s'`. -/
structure Completed (s : BabblerProtocol) (m : Message) (s' : BabblerProtocol) : Prop where
  sound : s'.Sound
  pending : s.pending = m.encode ++ s'.pending
  left : s'.bufContentSize = 0 ∨ 24 ≤ s'.pBuf
  received : ∃ bs, s.Received bs s' ∧ ∀ k, s.Ready (24 + m.payloadLen - s.bufContentSize) k →
    s'.socket.Serves (k - bs.length)

/-- The cause of a fault while the rest of `m` is looked for. -/
def Incomplete (s : BabblerProtocol) (m : Message) (f : Fault) : Prop :=
  (∃ what, f = .protocolException what) ∧ ¬m.Matches s.pending ∨
    f.OfSocket ∧ (s.socket.Serves s.socket.incoming.length →
      s.pending.length < m.encode.length ∧ s.pending <+: m.encode)

/-- A message with more behind it in the buffer. -/
theorem consume_completed {s : BabblerProtocol} (hs : s.Sound) (hstream : s.socket.IsStream)
    {m : Message} (hfront : s.unread.take (24 + m.payloadLen) = m.encode)
    (hlt : m.payloadLen + 24 < s.bufContentSize) :
    Ends (consume (m.payloadLen + 24) ((m.payloadLen + 24 : Nat) - s.bufContentSize : Int))
      (fun _ s' => s.Completed m s') (fun _ _ => False) s := by
  refine (consume_spec hs hlt).mono ?_ fun _ _ h => h
  rintro _ s' ⟨hsound, hsock, hsize, hbuf, hstats, hunread, hpBuf⟩
  have hreads : s.socket.Reads [] s'.socket := by
    rw [hsock]
    exact .refl hstream
  refine ⟨hsound, ?_, .inr (by omega), [], ⟨hreads, hsize, hbuf, by simpa using hstats⟩,
    fun k hk => hsock ▸ hk.serves⟩
  rw [pending, pending, hunread, hsock, ← hfront, Nat.add_comm m.payloadLen, ← List.append_assoc,
    List.take_append_drop]

/-- A message that the buffer ends in, with `rest` bytes of it still to come. -/
theorem receiveRest_completed {s : BabblerProtocol} (hs : s.Sound) (hstream : s.socket.IsStream)
    {m : Message} {k rest : Nat}
    (hall : s.unread = m.header.bytes ++ payload m.isRequest m.seq.toUInt8 k)
    (hrest : m.payloadLen = k + rest) :
    Ends (receiveRest m.isRequest (s.socket.polls.length + 1) rest
        ((count m.isRequest)^[k] m.seq.toUInt8))
      (fun t s₁ => Ends (consume (m.payloadLen + 24) t) (fun _ s' => s.Completed m s')
        (fun _ _ => False) s₁)
      (fun f _ => s.Incomplete m f) s := by
  have hroom := hs.room
  have hcontent : s.bufContentSize = 24 + k := by
    rw [← hs.length_unread, hall, List.length_append, ProtocolHeader.length_bytes, length_payload]
  have hmissing : 24 + m.payloadLen - s.bufContentSize = rest := by omega
  refine (receiveRest_spec _ _ _ _ hstream hs.length (by omega) (Nat.lt_succ_self _)).mono ?_ ?_
  · rintro t s₁ ⟨rfl, hrec, hserves⟩
    rw [consume, if_neg (by omega), ends_modify]
    refine ⟨⟨hrec.bufsize ▸ hs.size, hrec.bufsize ▸ hs.unsigned,
      hrec.length.trans (hs.length.trans hrec.bufsize.symm), Nat.zero_le _, fun _ => rfl⟩, ?_,
      .inl rfl, _, ⟨hrec.reads, hrec.bufsize, hrec.length, hrec.stats⟩, fun j hj => ?_⟩
    · rw [pending, hall, hrec.reads.incoming, Message.encode, hrest, payload_add]
      simp [pending, unread]
    · rw [length_payload]
      exact hserves j (hmissing ▸ hj)
  · rintro f s₁ (⟨hf, hnot⟩ | ⟨hf, hmore⟩)
    · refine .inl ⟨hf, fun hmatch => hnot ?_⟩
      have hdrop : s.pending.drop 24 = s.unread.drop 24 ++ s.socket.incoming := by
        rw [pending, List.drop_append_of_le_length (by rw [hs.length_unread]; omega)]
      have hpre := hmatch.payload le_rfl
      rw [hdrop, hall, List.drop_left' m.header.length_bytes, List.take_append, length_payload,
        List.take_of_length_le (by simp; omega), hrest, payload_add, Nat.add_sub_cancel_left,
        List.prefix_append_right_inj] at hpre
      exact hpre
    · refine .inr ⟨hf, fun hk => ?_⟩
      obtain ⟨hlt, hpre⟩ := hmore hk
      refine ⟨by rw [length_pending hs, Message.length_encode]; omega, ?_⟩
      rw [pending, hall, Message.encode, hrest, payload_add, List.append_assoc,
        List.prefix_append_right_inj, List.prefix_append_right_inj]
      exact hpre

/-- The part of `receive` after the header tests, for the header of the message `m`. -/
theorem receivePayload_spec {s : BabblerProtocol} (hs : s.Sound) (hstream : s.socket.IsStream)
    (h24 : 24 ≤ s.bufContentSize) {m : Message}
    (hm : ProtocolHeader.ofBytes s.unread = m.header) :
    Ends (receivePayload m.header s.bufContentSize) (fun _ s' => s.Completed m s')
      (fun f _ => s.Incomplete m f) s := by
  have hbound := hs.bound
  have hunsigned := hs.unsigned
  have hlen := hs.length_unread
  simp only [receivePayload, ProtocolHeader.ofNat_size, ProtocolHeader.size, ends_bind, ends_get]
  rw [toNat_payloadLen h24 (by omega), if_pos (by simp), Message.header_length,
    Message.header_isRequest, Message.header_seq]
  obtain ⟨k, hk⟩ : ∃ k, k = min (m.payloadLen + 24) s.bufContentSize - 24 := ⟨_, rfl⟩
  have hkdata : k ≤ (s.unread.drop 24).length := by
    rw [List.length_drop]
    omega
  rw [← hk]
  refine (checkPayload_spec m.isRequest _ k _ s).mono ?_ ?_
  · rintro v' s₁ ⟨rfl, -, hpay, rfl⟩
    have hfront := take_unread hs h24 hm hpay
    rcases Nat.lt_or_ge (m.payloadLen + 24) s₁.bufContentSize with hlt | hge
    · have hkm : k = m.payloadLen := by omega
      rw [receiveRest_neg _ _ (by omega)]
      rw [hkm] at hfront
      exact (consume_completed hs hstream hfront hlt).mono (fun _ _ h => h) fun _ _ h => h.elim
    · obtain ⟨rest, hr⟩ : ∃ rest, rest = m.payloadLen + 24 - s₁.bufContentSize := ⟨_, rfl⟩
      have hall : s₁.unread = m.header.bytes ++ payload m.isRequest m.seq.toUInt8 k := by
        rw [← hfront, List.take_of_length_le (by omega)]
      rw [show ((m.payloadLen + 24 : Nat) : Int) - s₁.bufContentSize = (rest : Int) by omega]
      refine (receiveRest_completed hs hstream hall (show _ = k + rest by omega)).mono ?_
        fun _ _ h => h
      exact fun t s₂ h => h.mono (fun _ _ h => h) fun _ _ h => h.elim
  · rintro f s' ⟨rfl, ⟨hf, hnot⟩ | ⟨hf, hlt⟩⟩
    · refine .inl ⟨hf, fun hmatch => hnot ?_⟩
      have hpre := hmatch.payload (n := k) (by omega)
      rw [pending, List.drop_append_of_le_length (by omega),
        List.take_append_of_le_length hkdata] at hpre
      rw [eq_payload_of_isPrefix hpre, List.length_take, min_eq_left hkdata]
    · omega

/-! ## Receiving a message -/

/-- From `s`, `receive` took the message `m` and left `s'`. -/
structure Took (s : BabblerProtocol) (m : Message) (s' : BabblerProtocol) : Prop where
  pending : s.pending = m.encode ++ s'.pending
  sound : s'.Sound
  bufsize : s'.bufsize = s.bufsize
  left : s'.bufContentSize = 0 ∨ 24 ≤ s'.pBuf
  received : ∃ bs, s.socket.Reads bs s'.socket ∧ s'.stats = s.stats.receive bs.length 1 ∧
    ∀ k, s.socket.Serves k → s.socket.incoming.length ≤ k → s'.socket.Serves (k - bs.length)

/-- The cause of a fault in a call from `s` that waits for a message of `P`. -/
def ReceiveFault (s : BabblerProtocol) (P : Message → Prop) : Fault → Prop
  | .bug => 0 < s.bufContentSize ∧ s.bufContentSize < 24
  | .protocolException _ | .outOfBounds =>
    24 ≤ s.pending.length ∧ ∀ m, P m → ¬m.Matches s.pending
  | .errorException _ | .eventException | .blocked =>
    s.socket.Serves s.socket.incoming.length → Unfinished s.pending
  | .hang => False

variable {s s' : BabblerProtocol} {m m' : Message} {P P' : Message → Prop}

theorem ReceiveFault.mono {f : Fault} (h : s.ReceiveFault P f) (hP : ∀ m, P' m → P m) :
    s.ReceiveFault P' f := by
  cases f with
  | protocolException what => exact ⟨h.1, fun m hm => h.2 m (hP m hm)⟩
  | outOfBounds => exact ⟨h.1, fun m hm => h.2 m (hP m hm)⟩
  | _ => exact h

theorem receiveFault_ofSocket {f : Fault} (hf : f.OfSocket)
    (h : s.socket.Serves s.socket.incoming.length → Unfinished s.pending) :
    s.ReceiveFault P f := by
  cases f with
  | errorException what => exact h
  | eventException => exact h
  | blocked => exact h
  | _ => exact hf.elim

theorem Took.isPrefix (h : s.Took m s') : m.encode <+: s.pending :=
  ⟨_, h.pending.symm⟩

theorem Took.stream (h : s.Took m s') : s'.socket.IsStream :=
  h.received.choose_spec.1.stream

/-- Bytes whose header does not pass, or is shorter than itself, start no message. -/
theorem not_matches_of_header (hlen : 24 ≤ s.pending.length)
    (h : ¬(ProtocolHeader.ofBytes s.pending).Acceptable) : ¬m.Matches s.pending := by
  intro hm
  rw [hm.header hlen] at h
  exact h m.acceptable_header

/-- All that `receive` does on a stream. -/
theorem receive_spec (hs : s.Sound) (hstream : s.socket.IsStream) :
    Ends receive (fun r s' => ∃ m : Message, r = (m.isRequest, m.options, m.seq) ∧ s.Took m s')
      (fun f _ => s.ReceiveFault (fun _ => True) f) s := by
  have hunread := hs.length_unread
  have hcount := length_pending hs
  simp only [receive, updateReceiveStats, ends_bind, ends_modify, ends_pure]
  refine (receiveHeader_spec hs hstream).mono ?_ ?_
  · rintro ⟨h, n⟩ s₁ ⟨bs, hrec, hsound, hunread₁, hr, h24, htested, hserves⟩
    cases hr
    have hpending := hrec.pending hunread₁
    have hheader : ProtocolHeader.ofBytes s.pending = ProtocolHeader.ofBytes s₁.unread := by
      rw [hpending, ofBytes_pending hsound h24]
    have hlong : 24 ≤ s.pending.length := by
      rw [hpending, length_pending hsound]
      omega
    rcases htested.message_or_short with ⟨m, hm⟩ | hshort
    · have hready : ∀ k, s.socket.Serves k → s.socket.incoming.length ≤ k →
          m.encode <+: s.pending →
          s₁.Ready (24 + m.payloadLen - s₁.bufContentSize) (k - bs.length) := by
        intro k hk hle hpre
        have hbytes := congrArg List.length hrec.reads.incoming
        have hlen := hpre.length_le
        have hlen₁ := congrArg List.length hunread₁
        rw [List.length_append] at hbytes hlen₁
        rw [hsound.length_unread, hunread] at hlen₁
        rw [Message.length_encode] at hlen
        exact ⟨hserves k ⟨hk, hle, by omega⟩, by omega, by omega⟩
      rw [hm]
      refine (receivePayload_spec hsound hrec.reads.stream h24 hm).mono ?_ ?_
      · rintro _ s₂ ⟨hsound', hpend, hleft, cs, hrec', hserves'⟩
        refine ⟨m, by simp, hpending.trans hpend, hsound'.elsewhere _ _,
          hrec'.bufsize.trans hrec.bufsize, hleft, bs ++ cs, hrec.reads.trans hrec'.reads, ?_,
          fun k hk hle => ?_⟩
        · simp only [hrec'.stats, hrec.stats, Stats.receive, List.length_append, Int64.ofNat_add]
          simp [Int64.add_assoc]
        · have := hserves' _ (hready k hk hle ⟨_, (hpending.trans hpend).symm⟩)
          rwa [List.length_append, ← Nat.sub_sub]
      · rintro f s₂ (⟨⟨what, rfl⟩, hnot⟩ | ⟨hf, hmore⟩)
        · refine ⟨hlong, fun m' _ hm' => ?_⟩
          have : m' = m := Message.header_injective (by rw [← hm'.header hlong, hheader, hm])
          exact hnot (hpending ▸ this ▸ hm')
        · refine receiveFault_ofSocket hf fun hk => ?_
          have hk₁ := hserves _ ⟨hk, le_rfl, by omega⟩
          have hbytes := congrArg List.length hrec.reads.incoming
          rw [List.length_append] at hbytes
          obtain ⟨hlt, hpre⟩ := hmore (by rwa [hbytes, Nat.add_sub_cancel_left] at hk₁)
          exact hpending ▸ .inr ⟨m, hpre, hlt⟩
    · have hnone : ∀ m : Message, True → ¬m.Matches s.pending := fun m _ =>
        not_matches_of_header hlong fun hacc =>
          Nat.not_le_of_lt hshort (hheader ▸ hacc.2.2)
      refine (receivePayload_short hsound h24 hshort).mono (fun _ _ h => h.elim) ?_
      rintro f s₂ (⟨what, rfl⟩ | rfl)
      · exact ⟨hlong, hnone⟩
      · exact ⟨hlong, hnone⟩
  · rintro f s₁ (⟨rfl, hlo, hhi⟩ | ⟨⟨what, rfl⟩, hlong, hnot⟩ | ⟨hf, h0, hnot⟩)
    · exact ⟨hlo, hhi⟩
    · exact ⟨hlong, fun m _ => not_matches_of_header hlong fun hacc => hnot ⟨hacc.1, hacc.2.1⟩⟩
    · refine receiveFault_ofSocket hf fun hk => .inl ?_
      by_contra hlong
      exact hnot _ ⟨hk, le_rfl, by omega⟩

/-- A message that `recvRequest` takes. -/
def IsRequest (s : BabblerProtocol) (m : Message) : Prop :=
  m.encode <+: s.pending → m.isRequest = true

/-- A message that `recvResponse expSeq` takes. -/
def IsResponse (s : BabblerProtocol) (expSeq : UInt64) (m : Message) : Prop :=
  m.encode <+: s.pending → m.isRequest = false ∧ m.seq = expSeq

theorem Took.length (h : s.Took m s') : 24 ≤ s.pending.length := by
  have hlen := h.isPrefix.length_le
  rw [Message.length_encode] at hlen
  omega

theorem recvRequest_spec (hs : s.Sound) (hstream : s.socket.IsStream) :
    Ends recvRequest
      (fun r s' => ∃ m : Message, m.isRequest = true ∧ r = (m.seq, m.options) ∧ s.Took m s')
      (fun f _ => s.ReceiveFault s.IsRequest f) s := by
  simp only [recvRequest, ends_bind]
  refine (receive_spec hs hstream).mono ?_ fun f _ h => h.mono fun _ _ => trivial
  rintro _ s' ⟨m, rfl, htook⟩
  simp only [ends_throwIf, ends_pure]
  split_ifs with hreq
  · exact ⟨m, hreq, rfl, htook⟩
  · refine ⟨htook.length, fun m' hm' hmatch => ?_⟩
    rw [Message.eq_of_matches htook.isPrefix hmatch] at hm'
    exact hreq (hm' htook.isPrefix)

theorem recvResponse_spec (hs : s.Sound) (hstream : s.socket.IsStream) (expSeq : UInt64) :
    Ends (recvResponse expSeq)
      (fun _ s' => ∃ m : Message, (m.isRequest = false ∧ m.seq = expSeq) ∧ s.Took m s')
      (fun f _ => s.ReceiveFault (s.IsResponse expSeq) f) s := by
  simp only [recvResponse, ends_bind]
  refine (receive_spec hs hstream).mono ?_ fun f _ h => h.mono fun _ _ => trivial
  rintro _ s' ⟨m, rfl, htook⟩
  simp only [ends_throwIf]
  split_ifs with hreq hseq
  · refine ⟨htook.length, fun m' hm' hmatch => ?_⟩
    rw [Message.eq_of_matches htook.isPrefix hmatch] at hm'
    rw [(hm' htook.isPrefix).1] at hreq
    cases hreq
  · refine ⟨htook.length, fun m' hm' hmatch => ?_⟩
    rw [Message.eq_of_matches htook.isPrefix hmatch] at hm'
    exact hseq (hm' htook.isPrefix).2.symm
  · exact ⟨m, ⟨by simpa using hreq, (not_not.mp hseq).symm⟩, htook⟩

end BabblerProtocol

end NetBabbler
