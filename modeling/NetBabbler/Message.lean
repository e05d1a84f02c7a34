import NetBabbler.Header

/-!
# Messages

The format that both ends agree on, independent of buffers and reads : a message is a
header followed by a payload that counts up (request) or down (response) from the
sequence number, modulo 256. `Message` holds exactly the headers that a receiver takes,
so `encode` has no invalid input, and `Message.ofHeader` turns a header that passes the
receiver's tests into its message.

`Matches` says that the bytes `bs` start with a message, or may still do so once more
bytes arrive, and `Unfinished` that more must arrive. It is what a receiver that has seen
`bs` can know.
-/

namespace NetBabbler

/-! ## The payload counter -/

/-- `++counter` in a request, `--counter` in a response. -/
def count (incr : Bool) (c : UInt8) : UInt8 :=
  if incr then c + 1 else c - 1

/-- The `n` payload bytes that follow the counter value `c`. -/
def payload (incr : Bool) (c : UInt8) (n : Nat) : List UInt8 :=
  List.iterate (count incr) (count incr c) n

@[simp] theorem length_payload (incr : Bool) (c : UInt8) (n : Nat) :
    (payload incr c n).length = n :=
  List.length_iterate ..

@[simp] theorem payload_zero (incr : Bool) (c : UInt8) : payload incr c 0 = [] := rfl

theorem payload_succ (incr : Bool) (c : UInt8) (n : Nat) :
    payload incr c (n + 1) = count incr c :: payload incr (count incr c) n := rfl

/-- A payload cut at `m` goes on with the counter after `m` steps. -/
theorem payload_add (incr : Bool) (c : UInt8) (m n : Nat) :
    payload incr c (m + n) = payload incr c m ++ payload incr ((count incr)^[m] c) n := by
  rw [payload, List.iterate_add, ← Function.iterate_succ_apply, Function.iterate_succ_apply']
  rfl

theorem take_payload (incr : Bool) (c : UInt8) (n k : Nat) :
    (payload incr c n).take k = payload incr c (min k n) := by
  rw [payload, List.take_iterate]
  rfl

theorem drop_payload (incr : Bool) (c : UInt8) (n k : Nat) :
    (payload incr c n).drop k = payload incr ((count incr)^[min k n] c) (n - k) := by
  have hsplit : n = min k n + (n - k) := by omega
  conv_lhs => rw [hsplit, payload_add]
  rcases Nat.le_total k n with hle | hle
  · rw [min_eq_left hle, List.drop_left' (length_payload _ _ _)]
  · rw [Nat.sub_eq_zero_of_le hle, payload_zero, List.append_nil]
    exact List.drop_of_length_le (by rw [length_payload]; omega)

/-- A part of a payload is the payload of its length. -/
theorem eq_payload_of_isPrefix {incr : Bool} {c : UInt8} {n : Nat} {bs : List UInt8}
    (h : bs <+: payload incr c n) : bs = payload incr c bs.length := by
  have hle : bs.length ≤ n := by simpa using h.length_le
  rw [List.prefix_iff_eq_take.mp h, take_payload, length_payload, min_eq_left hle]

/-! ## Messages -/

/-- The header tests of a receiver that also insists on the header's own length. -/
def ProtocolHeader.Acceptable (h : ProtocolHeader) : Prop :=
  h.checkChecksum = true ∧ (h.isRequest = true ∨ h.isResponse = true) ∧ 24 ≤ h.length.toNat

/-- A packet of the program, given by what its header and its payload are made from. -/
@[ext]
structure Message where
  isRequest : Bool
  seq : UInt64
  options : UInt32
  payloadLen : Nat
  fits : payloadLen + 24 < 2 ^ 32

namespace Message

/-- The header of a message, with its checksum. -/
def header (m : Message) : ProtocolHeader :=
  let h : ProtocolHeader :=
    { type := if m.isRequest then 0xaaffffee else 0xeeffffaa
      length := UInt32.ofNat (m.payloadLen + 24)
      seq := m.seq
      options := m.options
      checksum := 0 }
  { h with checksum := h.calcChecksum }

/-- The bytes of the message on the wire. -/
def encode (m : Message) : List UInt8 :=
  m.header.bytes ++ payload m.isRequest m.seq.toUInt8 m.payloadLen

@[simp] theorem length_encode (m : Message) : m.encode.length = 24 + m.payloadLen := by
  simp [encode]

theorem take_encode (m : Message) : m.encode.take 24 = m.header.bytes :=
  List.take_left' m.header.length_bytes

theorem drop_encode (m : Message) :
    m.encode.drop 24 = payload m.isRequest m.seq.toUInt8 m.payloadLen :=
  List.drop_left' m.header.length_bytes

@[simp] theorem header_length (m : Message) : m.header.length.toNat = m.payloadLen + 24 := by
  have := m.fits
  simp only [header, UInt32.toNat_ofNat']
  omega

@[simp] theorem header_seq (m : Message) : m.header.seq = m.seq := rfl

@[simp] theorem header_options (m : Message) : m.header.options = m.options := rfl

@[simp] theorem header_isRequest (m : Message) : m.header.isRequest = m.isRequest := by
  cases h : m.isRequest <;> simp [header, ProtocolHeader.isRequest, h]

@[simp] theorem header_isResponse (m : Message) : m.header.isResponse = !m.isRequest := by
  cases h : m.isRequest <;> simp [header, ProtocolHeader.isResponse, h]

@[simp] theorem header_checkChecksum (m : Message) : m.header.checkChecksum = true := by
  simp [ProtocolHeader.checkChecksum, header, ProtocolHeader.calcChecksum,
    ProtocolHeader.checkedBytes]

/-- The header tells the whole message. -/
theorem header_injective {m m' : Message} (h : m.header = m'.header) : m = m' := by
  have hlen := congrArg (fun h => h.length.toNat) h
  have hseq := congrArg ProtocolHeader.seq h
  have hopt := congrArg ProtocolHeader.options h
  have hreq := congrArg ProtocolHeader.isRequest h
  simp only [header_length, header_seq, header_options, header_isRequest] at hlen hseq hopt hreq
  exact Message.ext hreq hseq hopt (by omega)

/-- The header `sendRequest` writes is a message's header. -/
theorem header_eq_initRequest (m : Message) (h : m.isRequest = true) :
    m.header = ProtocolHeader.initRequest m.seq (UInt32.ofNat m.payloadLen) m.options := by
  simp [header, ProtocolHeader.initRequest, h, UInt32.ofNat_add]

/-- The header `sendResponse` writes is a message's header. -/
theorem header_eq_initResponse (m : Message) (h : m.isRequest = false) (ho : m.options = 0) :
    m.header = ProtocolHeader.initResponse m.seq (UInt32.ofNat m.payloadLen) := by
  simp [header, ProtocolHeader.initResponse, h, ho, UInt32.ofNat_add]

/-- What is transmitted for the message : nothing at all when the payload is empty. -/
def wire (m : Message) : List UInt8 :=
  if m.payloadLen = 0 then [] else m.encode

/-- The number of messages that `wire` is. -/
def packets (m : Message) : Nat :=
  if m.payloadLen = 0 then 0 else 1

theorem wire_of_pos {m : Message} (h : 0 < m.payloadLen) : m.wire = m.encode := by
  rw [wire, if_neg (by omega)]

theorem packets_of_pos {m : Message} (h : 0 < m.payloadLen) : m.packets = 1 := by
  rw [packets, if_neg (by omega)]

/-- The message of `sendRequest`. -/
def request (seq : UInt64) (reqSize respSize : UInt32) : Message where
  isRequest := true
  seq := seq
  options := if respSize ≠ 0 then respSize - 24 else respSize
  payloadLen := reqSize.toNat - 24
  fits := by
    have := reqSize.toNat_lt
    omega

/-- The message of `sendResponse`. The payload is empty where `respSize + 24` wraps. -/
def response (seq : UInt64) (respSize : UInt32) : Message where
  isRequest := false
  seq := seq
  options := 0
  payloadLen := (respSize + 24).toNat - 24
  fits := by
    have := (respSize + 24).toNat_lt
    omega

theorem request_options (seq : UInt64) (reqSize : UInt32) {respSize : UInt32} (h : respSize ≠ 0) :
    (request seq reqSize respSize).options = respSize - 24 :=
  if_pos h

theorem request_payloadLen (seq : UInt64) (reqSize respSize : UInt32) :
    (reqSize - 24 + 24).toNat - 24 = (request seq reqSize respSize).payloadLen := by
  rw [UInt32.sub_add_cancel]
  rfl

theorem response_payloadLen (seq : UInt64) (respSize : UInt32) :
    (response seq (respSize - 24)).payloadLen = respSize.toNat - 24 := by
  show (respSize - 24 + 24).toNat - 24 = _
  rw [UInt32.sub_add_cancel]

theorem header_request (seq : UInt64) {reqSize respSize : UInt32} (h : 24 ≤ reqSize) :
    (request seq reqSize respSize).header = ProtocolHeader.initRequest seq (reqSize - 24)
      (if respSize ≠ 0 then respSize - 24 else respSize) := by
  rw [header_eq_initRequest _ rfl]
  congr 1
  rw [← UInt32.toNat_inj, UInt32.toNat_sub_of_le _ _ h]
  have := reqSize.toNat_lt
  simp only [request, UInt32.toNat_ofNat', UInt32.toNat_ofNat]
  omega

theorem header_response (seq : UInt64) {respSize : UInt32} (h : 24 ≤ respSize + 24) :
    (response seq respSize).header = ProtocolHeader.initResponse seq respSize := by
  rw [header_eq_initResponse _ rfl rfl]
  congr 1
  rw [← UInt32.toNat_inj]
  have h' : 24 ≤ (respSize + 24).toNat := h
  have := respSize.toNat_lt
  simp only [response, UInt32.toNat_ofNat', UInt32.toNat_add, UInt32.toNat_ofNat] at h' ⊢
  omega

/-- The message that an acceptable header announces. -/
def ofHeader (h : ProtocolHeader) (hacc : h.Acceptable) : Message where
  isRequest := h.isRequest
  seq := h.seq
  options := h.options
  payloadLen := h.length.toNat - 24
  fits := by
    have hlen := hacc.2.2
    have := h.length.toNat_lt
    omega

theorem header_ofHeader {h : ProtocolHeader} (hacc : h.Acceptable) :
    (ofHeader h hacc).header = h := by
  have ht : (ofHeader h hacc).header.type = h.type := by
    show (if h.isRequest = true then (0xaaffffee : UInt32) else 0xeeffffaa) = h.type
    split_ifs with hr
    · exact (by simpa [ProtocolHeader.isRequest] using hr : h.type = 0xaaffffee).symm
    · exact (by simpa [ProtocolHeader.isResponse] using hacc.2.1.resolve_left hr :
        h.type = 0xeeffffaa).symm
  have hl : (ofHeader h hacc).header.length = h.length := by
    show UInt32.ofNat (h.length.toNat - 24 + 24) = h.length
    rw [Nat.sub_add_cancel hacc.2.2, UInt32.ofNat_toNat]
  have hc : (ofHeader h hacc).header.checksum = h.checksum := by
    have h₁ := header_checkChecksum (ofHeader h hacc)
    have h₂ := hacc.1
    simp only [ProtocolHeader.checkChecksum, beq_iff_eq] at h₁ h₂
    rw [h₁, h₂]
    simp only [ProtocolHeader.calcChecksum, ProtocolHeader.checkedBytes, ht, hl]
    rfl
  exact ProtocolHeader.ext ht hl rfl rfl hc

theorem acceptable_header (m : Message) : m.header.Acceptable := by
  refine ⟨m.header_checkChecksum, ?_, by simp⟩
  cases h : m.isRequest <;> simp [h]

/-- A buffer that starts with a message starts with the message's header. -/
theorem ofBytes_of_isPrefix {m : Message} {bs : List UInt8} (h : m.encode <+: bs) :
    ProtocolHeader.ofBytes bs = m.header := by
  obtain ⟨rest, rfl⟩ := h
  rw [encode, List.append_assoc, ProtocolHeader.ofBytes_bytes]

end Message

/-! ## What a receiver can know -/

/-- `bs` starts with the message `m`, or is a part of it so far. -/
def Message.Matches (m : Message) (bs : List UInt8) : Prop :=
  m.encode <+: bs ∨ bs <+: m.encode

/-- `bs` is a part of a message so far, or of its header. -/
def Unfinished (bs : List UInt8) : Prop :=
  bs.length < 24 ∨ ∃ m : Message, bs <+: m.encode ∧ bs.length < m.encode.length

namespace Message

theorem Matches.header {m : Message} {bs : List UInt8} (h : m.Matches bs) (hlen : 24 ≤ bs.length) :
    ProtocolHeader.ofBytes bs = m.header := by
  rcases h with h | ⟨rest, hrest⟩
  · exact ofBytes_of_isPrefix h
  · have htake : bs.take 24 = m.header.bytes := by
      rw [← m.take_encode, ← hrest, List.take_append_of_le_length hlen]
    rw [← List.take_append_drop 24 bs, htake, ProtocolHeader.ofBytes_bytes]

/-- What follows the header agrees with the payload as far as both go. -/
theorem Matches.payload {m : Message} {bs : List UInt8} (h : m.Matches bs) {n : Nat}
    (hn : n ≤ m.payloadLen) :
    (bs.drop 24).take n <+: NetBabbler.payload m.isRequest m.seq.toUInt8 m.payloadLen := by
  rw [← m.drop_encode]
  rcases h with ⟨rest, rfl⟩ | hpre
  · rw [List.drop_append_of_le_length (by simp),
      List.take_append_of_le_length (by simpa using hn)]
    exact List.take_prefix _ _
  · exact (List.take_prefix _ _).trans (hpre.drop 24)

/-- Only one message matches, once a message is there. -/
theorem eq_of_matches {m m' : Message} {bs : List UInt8} (h : m.encode <+: bs)
    (h' : m'.Matches bs) : m' = m := by
  have hlen := h.length_le
  rw [length_encode] at hlen
  apply header_injective
  rw [← h'.header (by omega), ofBytes_of_isPrefix h]

end Message

/-- With a message there, nothing is unfinished. -/
theorem not_unfinished {m : Message} {bs : List UInt8} (h : m.encode <+: bs) :
    ¬Unfinished bs := by
  have hlen := h.length_le
  rintro (hshort | ⟨m', hpre, hlt⟩)
  · rw [Message.length_encode] at hlen
    omega
  · rw [Message.eq_of_matches h (.inr hpre)] at hlt
    omega

end NetBabbler
