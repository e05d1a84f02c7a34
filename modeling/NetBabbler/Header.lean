import NetBabbler.BigEndian

/-!
# The protocol header

`ProtocolHeader` is `cProtocolHeader` of `protocol.hpp`, with its fields as the values
that `ntohl` and `be64toh` read off the 24 bytes; `bytes` is its place in the buffer and
`ofBytes` the cast of a buffer position to a header. The two are inverse to each other
(`ofBytes_bytes`, `bytes_ofBytes`), so a header on the wire is a header in memory.
-/

namespace NetBabbler

open BigEndian

/-- `cProtocolHeader`, in host order. -/
@[ext]
structure ProtocolHeader where
  type : UInt32
  length : UInt32
  seq : UInt64
  options : UInt32
  checksum : UInt32
  deriving DecidableEq, Repr

namespace ProtocolHeader

/-- `sizeof (cProtocolHeader)`. -/
abbrev size : Nat := 24

@[simp] theorem ofNat_size : UInt32.ofNat size = 24 := rfl

/-- The bytes before the checksum field. -/
def checkedBytes (h : ProtocolHeader) : List UInt8 :=
  toBE 4 h.type.toNat ++ toBE 4 h.length.toNat ++ toBE 8 h.seq.toNat ++ toBE 4 h.options.toNat

/-- The header as it lies in the buffer. -/
def bytes (h : ProtocolHeader) : List UInt8 :=
  h.checkedBytes ++ toBE 4 h.checksum.toNat

/-- The header that starts at the head of `bs`. -/
def ofBytes (bs : List UInt8) : ProtocolHeader where
  type := UInt32.ofNat (ofBE (bs.take 4))
  length := UInt32.ofNat (ofBE ((bs.drop 4).take 4))
  seq := UInt64.ofNat (ofBE ((bs.drop 8).take 8))
  options := UInt32.ofNat (ofBE ((bs.drop 16).take 4))
  checksum := UInt32.ofNat (ofBE ((bs.drop 20).take 4))

/-- The sum of the bytes in front of the checksum. -/
def calcChecksum (h : ProtocolHeader) : UInt32 :=
  h.checkedBytes.foldl (fun sum b => sum + b.toUInt32) 0

/-- The checksum that the header carries is its own. -/
def checkChecksum (h : ProtocolHeader) : Bool :=
  h.checksum == h.calcChecksum

/-- The header of a request that asks for `respLength` bytes. -/
def initRequest (sequence : UInt64) (payloadLength respLength : UInt32) : ProtocolHeader :=
  let h : ProtocolHeader :=
    { type := 0xaaffffee
      length := payloadLength + UInt32.ofNat size
      seq := sequence
      options := respLength
      checksum := 0 }
  { h with checksum := h.calcChecksum }

/-- The type is that of a request. -/
def isRequest (h : ProtocolHeader) : Bool :=
  h.type == 0xaaffffee

/-- The header of a response. -/
def initResponse (sequence : UInt64) (payloadLength : UInt32) : ProtocolHeader :=
  let h : ProtocolHeader :=
    { type := 0xeeffffaa
      length := payloadLength + UInt32.ofNat size
      seq := sequence
      options := 0
      checksum := 0 }
  { h with checksum := h.calcChecksum }

/-- The type is that of a response. -/
def isResponse (h : ProtocolHeader) : Bool :=
  h.type == 0xeeffffaa

/-! ## Headers and their bytes -/

@[simp] theorem length_checkedBytes (h : ProtocolHeader) : h.checkedBytes.length = 20 := by
  simp [checkedBytes]

@[simp] theorem length_bytes (h : ProtocolHeader) : h.bytes.length = 24 := by
  simp [bytes]

/-- Reading a header off a buffer that starts with its bytes gives the header. -/
theorem ofBytes_bytes (h : ProtocolHeader) (rest : List UInt8) :
    ofBytes (h.bytes ++ rest) = h := by
  have h32 : ∀ x : UInt32, UInt32.ofNat (ofBE (toBE 4 x.toNat)) = x := fun x => by
    rw [ofBE_toBE_of_lt (by simpa using x.toNat_lt), UInt32.ofNat_toNat]
  have h64 : ∀ x : UInt64, UInt64.ofNat (ofBE (toBE 8 x.toNat)) = x := fun x => by
    rw [ofBE_toBE_of_lt (by simpa using x.toNat_lt), UInt64.ofNat_toNat]
  have past : ∀ k n i, k ≤ i → (toBE k n).drop i = [] := fun k n i hi =>
    List.drop_eq_nil_of_le (by simpa using hi)
  simp [ofBytes, bytes, checkedBytes, List.drop_append, past, h32, h64]

/-- The 24 bytes of a header are the bytes it was read from. -/
theorem bytes_ofBytes {bs : List UInt8} (h : bs.length = 24) : (ofBytes bs).bytes = bs := by
  have h32 : ∀ cs : List UInt8, cs.length = 4 → toBE 4 (UInt32.ofNat (ofBE cs)).toNat = cs :=
    fun cs hcs => by
      have hlt := ofBE_lt cs
      rw [UInt32.toNat_ofNat', Nat.mod_eq_of_lt (by simpa [hcs] using hlt), ← hcs, toBE_ofBE]
  have h64 : ∀ cs : List UInt8, cs.length = 8 → toBE 8 (UInt64.ofNat (ofBE cs)).toNat = cs :=
    fun cs hcs => by
      have hlt := ofBE_lt cs
      rw [UInt64.toNat_ofNat', Nat.mod_eq_of_lt (by simpa [hcs] using hlt), ← hcs, toBE_ofBE]
  simp only [bytes, checkedBytes, ofBytes]
  rw [h32 _ (by simp [h]), h32 _ (by simp [h]), h64 _ (by simp [h]), h32 _ (by simp [h]),
    h32 _ (by simp [h])]
  have split : ∀ (i n : Nat), bs.drop i = (bs.drop i).take n ++ bs.drop (i + n) := fun i n => by
    rw [← List.drop_drop, List.take_append_drop]
  have last : (bs.drop 20).take 4 = bs.drop 20 := List.take_of_length_le (by simp [h])
  rw [last]
  conv_rhs => rw [← List.drop_zero (l := bs), split 0 4, split 4 4, split 8 8, split 16 4]
  simp

/-- The header depends on the first 24 bytes only. -/
theorem ofBytes_append {bs : List UInt8} (h : 24 ≤ bs.length) (cs : List UInt8) :
    ofBytes (bs ++ cs) = ofBytes bs := by
  have hhead : (ofBytes (bs.take 24)).bytes = bs.take 24 := bytes_ofBytes (by simp [h])
  have hsplit : bs = (ofBytes (bs.take 24)).bytes ++ bs.drop 24 := by
    rw [hhead, List.take_append_drop]
  rw [hsplit, List.append_assoc, ofBytes_bytes, ofBytes_bytes]

/-- The header read off a buffer is what the buffer starts with. -/
theorem bytes_ofBytes_take {bs : List UInt8} (h : 24 ≤ bs.length) :
    (ofBytes bs).bytes = bs.take 24 := by
  have hlen : (bs.take 24).length = 24 := by simp [h]
  have hhead := ofBytes_append hlen.ge (bs.drop 24)
  rw [List.take_append_drop] at hhead
  rw [hhead, bytes_ofBytes hlen]

@[simp] theorem checkChecksum_initRequest (s : UInt64) (n r : UInt32) :
    (initRequest s n r).checkChecksum = true := by
  simp [checkChecksum, initRequest, calcChecksum, checkedBytes]

@[simp] theorem checkChecksum_initResponse (s : UInt64) (n : UInt32) :
    (initResponse s n).checkChecksum = true := by
  simp [checkChecksum, initResponse, calcChecksum, checkedBytes]

end ProtocolHeader

end NetBabbler
