import NetBabbler.Protocol

/-!
# What sending does

`sendLoop_spec` is the loop of `send` : whatever the buffer size and however `sendto`
splits its writes, the bytes that leave are what the buffer holds before `p` followed by
the payload, and each is counted once. `sendMessage_spec` is `sendRequest` and
`sendResponse` : a message goes out whole, and the buffer past it stays as it was.
-/

namespace NetBabbler

open EStateM

/-! ## Storing into the buffer -/

section Store

variable {buf bs : List UInt8} {p : Nat}

theorem length_store (h : p + bs.length ≤ buf.length) : (store buf p bs).length = buf.length := by
  simp only [store, List.length_append, List.length_take, List.length_drop]
  omega

theorem take_store (h : p ≤ buf.length) (bs : List UInt8) :
    (store buf p bs).take (p + bs.length) = buf.take p ++ bs :=
  List.take_left' (by simp [h])

/-- Storing changes nothing past the bytes stored. -/
theorem drop_store (h : p ≤ buf.length) {n : Nat} (hn : p + bs.length ≤ n) :
    (store buf p bs).drop n = buf.drop n := by
  have hlen : (buf.take p ++ bs).length = p + bs.length := by simp [h]
  rw [store, List.drop_append, List.drop_of_length_le (by omega), List.nil_append, hlen,
    List.drop_drop, Nat.add_sub_cancel' hn]

theorem store_nil : store buf p [] = buf := by
  simp [store]

theorem set_eq_store (h : p < buf.length) (b : UInt8) : buf.set p b = store buf p [b] := by
  simp [store, List.set_eq_take_append_cons_drop, h]

/-- Two neighbouring stores are one. -/
theorem store_store (h : p ≤ buf.length) (bs cs : List UInt8) :
    store (store buf p bs) (p + bs.length) cs = store buf p (bs ++ cs) := by
  rw [store, take_store h, drop_store h (by omega), store]
  simp [Nat.add_assoc]

end Store

/-! ## The chunks of `send` -/

namespace Stats

/-- The statistics after `octets` bytes and `packets` messages were sent. -/
def transmit (st : Stats) (octets packets : Nat) : Stats :=
  { st with
    sentOctets := st.sentOctets + Int64.ofNat octets
    sentPackets := st.sentPackets + Int64.ofNat packets }

/-- The statistics after `octets` bytes and `packets` messages were received. -/
def receive (st : Stats) (octets packets : Nat) : Stats :=
  { st with
    receivedOctets := st.receivedOctets + Int64.ofNat octets
    receivedPackets := st.receivedPackets + Int64.ofNat packets }

theorem transmit_transmit (st : Stats) (a b c d : Nat) :
    (st.transmit a b).transmit c d = st.transmit (a + c) (b + d) := by
  simp only [transmit, Int64.ofNat_add, Int64.add_assoc]

theorem receive_receive (st : Stats) (a b c d : Nat) :
    (st.receive a b).receive c d = st.receive (a + c) (b + d) := by
  simp only [receive, Int64.ofNat_add, Int64.add_assoc]

@[simp] theorem transmit_zero (st : Stats) : st.transmit 0 0 = st := by
  simp [transmit]

@[simp] theorem receive_zero (st : Stats) : st.receive 0 0 = st := by
  simp [receive]

end Stats

namespace BabblerProtocol

variable {incr : Bool} {totalLen : Nat}

/-- The inner loop of `send` stores the next payload bytes, up to the buffer's end. -/
theorem fill_eq : ∀ (room : Nat) {buf : List UInt8} {p sent : Nat} {counter : UInt8},
    p + room ≤ buf.length →
    fill incr totalLen room buf p sent counter =
      (store buf p (payload incr counter (min room (totalLen - sent))),
        p + min room (totalLen - sent), sent + min room (totalLen - sent),
        (count incr)^[min room (totalLen - sent)] counter)
  | 0, buf, p, sent, counter, _ => by simp [fill, store_nil]
  | room + 1, buf, p, sent, counter, h => by
    rw [fill]
    split_ifs with hlt
    · have hmin : min (room + 1) (totalLen - sent) = min room (totalLen - (sent + 1)) + 1 := by
        omega
      rw [fill_eq room (by rw [List.length_set]; omega), hmin, set_eq_store (by omega),
        payload_succ]
      have := store_store (by omega : p ≤ buf.length) [count incr counter]
        (payload incr (count incr counter) (min room (totalLen - (sent + 1))))
      rw [List.length_singleton] at this
      rw [this, Function.iterate_succ_apply]
      simp only [List.singleton_append, Prod.mk.injEq, true_and, and_true]
      exact ⟨by omega, by omega⟩
    · have hmin : min (room + 1) (totalLen - sent) = 0 := by omega
      simp [hmin, store_nil]

/-- From `s` the bytes `bs` of `packets` messages went out to `dest`, leaving `s'`. The
buffer past the header and past `bs` is as it was. -/
structure Sent (s : BabblerProtocol) (dest : Option SockAddr) (bs : List UInt8) (packets : Nat)
    (s' : BabblerProtocol) : Prop where
  writes : s.socket.Writes dest bs s'.socket
  bufsize : s'.bufsize = s.bufsize
  bufContentSize : s'.bufContentSize = s.bufContentSize
  pBuf : s'.pBuf = s.pBuf
  length : s'.buf.length = s.buf.length
  frame : ∀ n, 24 ≤ n → bs.length ≤ n → s'.buf.drop n = s.buf.drop n
  stats : s'.stats = s.stats.transmit bs.length packets

theorem Sent.trans {s₁ s₂ s₃ : BabblerProtocol} {dest : Option SockAddr} {as bs : List UInt8}
    {m n : Nat} (h₁ : s₁.Sent dest as m s₂) (h₂ : s₂.Sent dest bs n s₃) :
    s₁.Sent dest (as ++ bs) (m + n) s₃ where
  writes := h₁.writes.trans h₂.writes
  bufsize := h₂.bufsize.trans h₁.bufsize
  bufContentSize := h₂.bufContentSize.trans h₁.bufContentSize
  pBuf := h₂.pBuf.trans h₁.pBuf
  length := h₂.length.trans h₁.length
  frame k h24 hk := by
    rw [List.length_append] at hk
    rw [h₂.frame k h24 (by omega), h₁.frame k h24 (by omega)]
  stats := by rw [h₂.stats, h₁.stats, Stats.transmit_transmit, List.length_append]

/-- The loop of `send` sends what the buffer holds before `p` and the rest of the payload.
A kernel that accepts bytes never makes it fail. -/
theorem sendLoop_spec {dest : Option SockAddr} :
    ∀ (fuel : Nat) {s : BabblerProtocol} {p sent : Nat} {counter : UInt8},
      s.buf.length = s.bufsize → p < s.bufsize → sent < totalLen → totalLen - sent < fuel →
      Ends (sendLoop totalLen incr dest fuel p sent counter)
        (fun _ s' =>
          s.Sent dest (s.buf.take p ++ payload incr counter (totalLen - sent)) 1 s' ∧
          ∀ k, s.socket.Accepts k → p + (totalLen - sent) ≤ k →
            s'.socket.Accepts (k - (p + (totalLen - sent))))
        (fun f _ => f.OfSocket ∧ ¬s.socket.Accepts (p + (totalLen - sent))) s
  | 0, _, _, _, _, _, _, _, hfuel => by omega
  | fuel + 1, s, p, sent, counter, hlen, hp, hsent, hfuel => by
    obtain ⟨k, hk⟩ : ∃ k, k = min (s.bufsize - p) (totalLen - sent) := ⟨_, rfl⟩
    have hroom : p + (s.bufsize - p) ≤ s.buf.length := by omega
    have htake : (store s.buf p (payload incr counter k)).take (p + k) =
        s.buf.take p ++ payload incr counter k := by
      have := take_store (by omega : p ≤ s.buf.length) (payload incr counter k)
      rwa [length_payload] at this
    have hchunk : (s.buf.take p ++ payload incr counter k).length = p + k := by
      simp only [List.length_append, List.length_take, length_payload]
      omega
    simp only [sendLoop, if_pos hsent, ends_bind, ends_get, fill_eq _ hroom, ends_modify,
      onSocket, ends_zoom, updateTransmitStats, ← hk, htake]
    refine (Socket.send_spec dest _ _).mono ?_ ?_
    · rintro n sock ⟨rfl, hw, hacc⟩
      rw [hchunk] at hacc
      generalize hs' : (BabblerProtocol.mk sock _ _ _ _ _) = s'
      have hchunkSent : s.Sent dest (s.buf.take p ++ payload incr counter k)
          (if sent + k < totalLen then 0 else 1) s' := by
        subst hs'
        refine ⟨hw, rfl, rfl, rfl, ?_, fun n _ hn => ?_, ?_⟩
        · exact length_store (by rw [length_payload]; omega)
        · rw [hchunk] at hn
          exact drop_store (by omega) (by rw [length_payload]; omega)
        · simp only [Stats.transmit, hchunk, UInt64.toInt64_ofNat']
          split_ifs <;> rfl
      have hsock : s'.socket = sock := by rw [← hs']
      have hpayload : payload incr counter (totalLen - sent) = payload incr counter k ++
          payload incr ((count incr)^[k] counter) (totalLen - (sent + k)) := by
        rw [← payload_add]
        congr 1
        omega
      by_cases hmore : sent + k < totalLen
      · rw [if_pos hmore] at hchunkSent
        refine (sendLoop_spec fuel (hchunkSent.length.trans (hlen.trans hchunkSent.bufsize.symm))
          (by rw [hchunkSent.bufsize]; omega) hmore (by omega)).mono ?_ ?_
        · rintro _ s'' ⟨hrest, hacc'⟩
          refine ⟨?_, fun K hK hle => ?_⟩
          · rw [hpayload, ← List.append_assoc]
            simpa using hchunkSent.trans hrest
          · have hrest' := hacc' (K - (p + k)) (hsock ▸ hacc K hK (by omega) (by omega)) (by omega)
            rwa [Nat.sub_sub, show p + k + (0 + (totalLen - (sent + k))) = p + (totalLen - sent) by
              omega] at hrest'
        · rintro f s'' ⟨hf, hnot⟩
          refine ⟨hf, fun hK => hnot ?_⟩
          have := hacc _ hK (by omega) (by omega)
          rw [hsock]
          rwa [show p + (totalLen - sent) - (p + k) = 0 + (totalLen - (sent + k)) by omega] at this
      · have hall : totalLen - sent = k := by omega
        obtain ⟨fuel, rfl⟩ : ∃ n, fuel = n + 1 := ⟨fuel - 1, by omega⟩
        rw [if_neg hmore] at hchunkSent
        rw [sendLoop, if_neg hmore, ends_pure, hall, hsock]
        exact ⟨hchunkSent, fun K hK hle => hacc K hK hle (by omega)⟩
    · rintro f sock ⟨hf, hnot⟩
      refine ⟨hf, fun hacc => hnot ⟨by omega, hacc.some, ?_⟩⟩
      have := hacc.enough
      show _ ≤ s.socket.sendtos.length
      omega

/-! ## Requests and responses -/

/-- `send` with the header `h` in the buffer. Nothing goes out when the total length does
not exceed the header's. -/
theorem send_spec {s : BabblerProtocol} (hlen : s.buf.length = s.bufsize) (hsize : 24 < s.bufsize)
    {h : ProtocolHeader} (hbuf : s.buf.take 24 = h.bytes) (size : UInt32) (incr : Bool)
    (dest : Option SockAddr) {bs : List UInt8}
    (hbs : bs = if (size + 24).toNat - 24 = 0 then []
      else h.bytes ++ payload incr h.seq.toUInt8 ((size + 24).toNat - 24)) :
    Ends (send h size incr dest)
      (fun _ s' => s.Sent dest bs (if (size + 24).toNat - 24 = 0 then 0 else 1) s' ∧
        ∀ k, s.socket.Accepts k → bs.length ≤ k → s'.socket.Accepts (k - bs.length))
      (fun f _ => f.OfSocket ∧ bs ≠ [] ∧ ¬s.socket.Accepts bs.length) s := by
  subst hbs
  rw [send, ProtocolHeader.ofNat_size]
  generalize (size + 24).toNat = totalLen
  show Ends (sendLoop totalLen incr dest (totalLen + 1) 24 24 _) _ _ s
  by_cases hempty : totalLen - 24 = 0
  · rw [sendLoop, if_neg (by omega), ends_pure]
    simp only [hempty, if_true, List.length_nil, Nat.sub_zero]
    exact ⟨⟨.refl _ _, rfl, rfl, rfl, rfl, fun _ _ _ => rfl, by simp⟩, fun k hk _ => hk⟩
  · have hlength : (h.bytes ++ payload incr h.seq.toUInt8 (totalLen - 24)).length =
        24 + (totalLen - 24) := by simp
    refine (sendLoop_spec _ hlen hsize (by omega) (by omega)).mono ?_ ?_
    · rintro _ s' ⟨hsent, hacc⟩
      rw [hbuf] at hsent
      simp only [if_neg hempty, hlength]
      exact ⟨hsent, hacc⟩
    · rintro f s' ⟨hf, hnot⟩
      refine ⟨hf, ?_, by simpa only [if_neg hempty, hlength] using hnot⟩
      rw [if_neg hempty, ← List.length_pos_iff, hlength]
      omega

/-- Storing a header keeps the buffer's length and puts the header in front. -/
theorem store_header {s : BabblerProtocol} (hlen : s.buf.length = s.bufsize)
    (hsize : 24 < s.bufsize) (h : ProtocolHeader) :
    (store s.buf 0 h.bytes).length = s.bufsize ∧ (store s.buf 0 h.bytes).take 24 = h.bytes ∧
      ∀ n, 24 ≤ n → (store s.buf 0 h.bytes).drop n = s.buf.drop n := by
  refine ⟨by rw [length_store (by simp; omega), hlen], ?_, fun n hn => ?_⟩
  · have := take_store (Nat.zero_le s.buf.length) h.bytes
    simpa using this
  · exact drop_store (Nat.zero_le _) (by simpa using hn)

/-- A message of `sendRequest` or `sendResponse` goes out whole, or not at all when its
payload is empty. -/
theorem sendMessage_spec {s : BabblerProtocol} (hlen : s.buf.length = s.bufsize)
    (hsize : 24 < s.bufsize) (m : Message) {h : ProtocolHeader} {size : UInt32}
    (hpay : (size + 24).toNat - 24 = m.payloadLen) (hh : m.payloadLen ≠ 0 → h = m.header)
    (dest : Option SockAddr) :
    Ends (do
        modify fun s => { s with buf := store s.buf 0 h.bytes }
        send h size m.isRequest dest)
      (fun _ s' => s.Sent dest m.wire m.packets s' ∧
        ∀ k, s.socket.Accepts k → m.wire.length ≤ k → s'.socket.Accepts (k - m.wire.length))
      (fun f _ => f.OfSocket ∧ m.wire ≠ [] ∧ ¬s.socket.Accepts m.wire.length) s := by
  obtain ⟨hl, ht, hd⟩ := store_header hlen hsize h
  simp only [ends_bind, ends_modify]
  have hwire : m.wire = if (size + 24).toNat - 24 = 0 then []
      else h.bytes ++ payload m.isRequest h.seq.toUInt8 ((size + 24).toNat - 24) := by
    rw [hpay, Message.wire]
    split_ifs with h0
    · rfl
    · rw [hh h0]
      rfl
  refine (send_spec (s := { s with buf := store s.buf 0 h.bytes }) hl hsize ht size m.isRequest
    dest hwire).mono ?_ fun _ _ hf => hf
  rintro _ s' ⟨hsent, hacc⟩
  rw [hpay] at hsent
  refine ⟨⟨hsent.writes, hsent.bufsize, hsent.bufContentSize, hsent.pBuf,
    hsent.length.trans (hl.trans hlen.symm), fun n h24 hn => ?_, hsent.stats⟩, hacc⟩
  rw [hsent.frame n h24 hn]
  exact hd n h24

theorem sendResponse_spec {s : BabblerProtocol} (hlen : s.buf.length = s.bufsize)
    (hsize : 24 < s.bufsize) (seq : UInt64) (respSize : UInt32) (dest : Option SockAddr)
    {m : Message} (hm : m = Message.response seq respSize) :
    Ends (sendResponse seq respSize dest)
      (fun _ s' => s.Sent dest m.wire m.packets s' ∧
        ∀ k, s.socket.Accepts k → m.wire.length ≤ k → s'.socket.Accepts (k - m.wire.length))
      (fun f _ => f.OfSocket ∧ m.wire ≠ [] ∧ ¬s.socket.Accepts m.wire.length) s := by
  subst hm
  refine sendMessage_spec hlen hsize (Message.response seq respSize) rfl (fun h0 => ?_) dest
  refine (Message.header_response seq ?_).symm
  have : (respSize + 24).toNat - 24 ≠ 0 := h0
  show 24 ≤ (respSize + 24).toNat
  omega

/-- The assertions of `sendRequest`. -/
theorem sendRequest_bug (s : BabblerProtocol) (seq : UInt64) {reqSize respSize : UInt32}
    (h : ¬(24 ≤ reqSize ∧ (respSize = 0 ∨ 24 ≤ respSize))) :
    Ends (sendRequest seq reqSize respSize) (fun _ _ => False) (fun f s' => f = .bug ∧ s' = s) s := by
  simp only [sendRequest, ProtocolHeader.ofNat_size, ends_bind, ends_bugOn]
  by_cases hresp : respSize ≠ 0 ∧ respSize < 24
  · rw [if_pos hresp]
    exact ⟨trivial, trivial⟩
  rw [if_neg hresp]
  have hreq : reqSize < 24 := by
    by_contra hge
    refine h ⟨UInt32.not_lt.mp hge, ?_⟩
    by_cases h0 : respSize = 0
    · exact .inl h0
    · exact .inr (UInt32.not_lt.mp fun hlt => hresp ⟨h0, hlt⟩)
  rw [if_pos hreq]
  exact ⟨trivial, trivial⟩

/-- With sizes that its assertions let pass `sendRequest` sends its message. -/
theorem sendRequest_eq (seq : UInt64) {reqSize respSize : UInt32} (hreq : 24 ≤ reqSize)
    (hresp : respSize = 0 ∨ 24 ≤ respSize) :
    sendRequest seq reqSize respSize = (do
      let h := (Message.request seq reqSize respSize).header
      modify fun s => { s with buf := store s.buf 0 h.bytes }
      send h (reqSize - 24) true none) := by
  have hpos : ¬(respSize ≠ 0 ∧ respSize < 24) := by
    rintro ⟨h0, hlt⟩
    exact UInt32.not_lt.mpr (hresp.resolve_left h0) hlt
  simp only [sendRequest, ProtocolHeader.ofNat_size, bugOn, if_neg hpos,
    if_neg (UInt32.not_lt.mpr hreq), Message.header_request seq hreq]
  rfl

theorem sendRequest_spec {s : BabblerProtocol} (hlen : s.buf.length = s.bufsize)
    (hsize : 24 < s.bufsize) (seq : UInt64) {reqSize respSize : UInt32} (hreq : 24 ≤ reqSize)
    (hresp : respSize = 0 ∨ 24 ≤ respSize) {m : Message}
    (hm : m = Message.request seq reqSize respSize) :
    Ends (sendRequest seq reqSize respSize)
      (fun _ s' => s.Sent none m.wire m.packets s' ∧
        ∀ k, s.socket.Accepts k → m.wire.length ≤ k → s'.socket.Accepts (k - m.wire.length))
      (fun f _ => f.OfSocket ∧ m.wire ≠ [] ∧ ¬s.socket.Accepts m.wire.length) s := by
  subst hm
  rw [sendRequest_eq seq hreq hresp]
  exact sendMessage_spec hlen hsize (Message.request seq reqSize respSize)
    (Message.request_payloadLen seq reqSize respSize) (fun _ => rfl) none

end BabblerProtocol

end NetBabbler
