import NetBabbler.Format
import NetBabbler.Interleaving

/-!
# Corrupted messages

`Corrupted m bs` : on its way, one byte of the header of `m` or any bytes of its payload
were altered. `receive_corrupted` : `receive` throws a `cProtocolException` on the
result, whatever the buffer size and however it arrives.

A header byte is caught by the checksum, which is a sum of at most 20 bytes and so does
not wrap : a byte under the sum moves the sum and not the field, a byte of the field moves
the field and not the sum (`not_checkChecksum_set`). A payload is caught because the header
leaves only one.
-/

namespace NetBabbler

open EStateM BabblerProtocol BigEndian Interleaving

/-- `bs` is the message `m` with one byte of its header, or any of its payload, altered. -/
structure Corrupted (m : Message) (bs : List UInt8) : Prop where
  length : bs.length = m.encode.length
  altered : bs ≠ m.encode
  place : bs.take 24 = m.encode.take 24 ∨ ∃ i < 24, ∃ b, bs = m.encode.set i b

/-! ## The header -/

variable {bs : List UInt8} {i : Nat} {b : UInt8}

/-- The byte sum moves by as much as the byte. -/
theorem byteSum_set_inj (hi : i < bs.length) (h : byteSum (bs.set i b) = byteSum bs) :
    bs.set i b = bs := by
  have hsum := sum_map_set UInt8.toNat b (List.getElem?_eq_getElem hi)
  have hb : b.toNat = bs[i].toNat := by
    rw [byteSum, byteSum] at h
    omega
  rw [UInt8.toNat_inj.mp hb, List.set_getElem_self]

/-- No byte of a header with the right checksum can be altered alone. -/
theorem not_checkChecksum_set (hlen : 24 ≤ bs.length)
    (h : (ProtocolHeader.ofBytes bs).checkChecksum = true) (hi : i < 24)
    (hne : bs.set i b ≠ bs) : ¬(ProtocolHeader.ofBytes (bs.set i b)).checkChecksum = true := by
  rw [checkChecksum_iff hlen] at h
  rw [checkChecksum_iff (by rwa [List.length_set])]
  intro hset
  rcases Nat.lt_or_ge i 20 with hsum | hfield
  · -- the field stays and the sum moves
    have hsame : field (bs.set i b) 20 4 = field bs 20 4 := by
      rw [field, List.drop_set_of_lt hsum, field]
    rw [hsame, h, List.take_set] at hset
    have htake := byteSum_set_inj (by rw [List.length_take]; omega) hset.symm
    refine hne ?_
    rw [← List.take_append_drop 20 (bs.set i b), List.take_set, htake, List.drop_set_of_lt hsum,
      List.take_append_drop]
  · -- the sum stays and the field moves
    have hsame : (bs.set i b).take 20 = bs.take 20 := List.take_set_of_le hfield
    rw [hsame, ← h] at hset
    have hbytes : ((bs.set i b).drop 20).take 4 = (bs.drop 20).take 4 :=
      ofBE_inj (by simp) hset
    have hrest : ((bs.set i b).drop 20).drop 4 = (bs.drop 20).drop 4 := by
      rw [List.drop_drop, List.drop_drop, List.drop_set_of_lt hi]
    refine hne ?_
    rw [← List.take_append_drop 20 (bs.set i b), hsame,
      ← List.take_append_drop 4 ((bs.set i b).drop 20), hbytes, hrest, List.take_append_drop,
      List.take_append_drop]

/-! ## The receiver -/

namespace BabblerProtocol

variable {s : BabblerProtocol} {m : Message} {spare : Nat}

/-- An altered header fails its checksum. -/
theorem receive_corruptedHeader (hs : s.Supplied spare) (hwhole : s.Whole) (hi : i < 24)
    (hne : m.encode.set i b ≠ m.encode) (hpre : m.encode.set i b <+: s.pending) :
    Ends receive (fun _ _ => False) (fun f _ => ∃ what, f = .protocolException what) s := by
  have hlen : 24 ≤ m.encode.length := by
    rw [Message.length_encode]
    omega
  have hset : 24 ≤ (m.encode.set i b).length := by rwa [List.length_set]
  obtain ⟨rest, hrest⟩ := hpre
  have hheader : ProtocolHeader.ofBytes s.pending = ProtocolHeader.ofBytes (m.encode.set i b) := by
    rw [← hrest, ProtocolHeader.ofBytes_append hset]
  refine receive_untested hs hwhole ?_ fun htested => ?_
  · rw [← hrest, List.length_append]
    omega
  · refine not_checkChecksum_set hlen ?_ hi hne (hheader ▸ htested.1)
    rw [Message.ofBytes_of_isPrefix (List.prefix_refl m.encode)]
    exact m.header_checkChecksum

/-- An altered payload is not the one that the header announces. -/
theorem receive_corruptedPayload (hs : s.Supplied spare) (hwhole : s.Whole)
    (hlen : bs.length = m.encode.length) (hne : bs ≠ m.encode)
    (hhead : bs.take 24 = m.encode.take 24) (hpre : bs <+: s.pending) :
    Ends receive (fun _ _ => False) (fun f _ => ∃ what, f = .protocolException what) s := by
  have hlong := hpre.length_le
  rw [Message.length_encode] at hlen
  obtain ⟨rest, hrest⟩ := hpre
  have hheader : ProtocolHeader.ofBytes s.pending = m.header := by
    rw [← hrest, ProtocolHeader.ofBytes_append (by omega), ← List.take_append_drop 24 bs, hhead,
      m.take_encode, ProtocolHeader.ofBytes_bytes]
  have hfield : field s.pending 4 4 = m.payloadLen + 24 := by
    rw [← toNat_length, hheader, Message.header_length]
  refine (receive_decides hs hwhole (by omega) (by omega)).mono ?_ fun _ _ hf => hf.1
  rintro _ _ ⟨m', hm', -⟩
  have heq : m' = m := Message.header_injective (by rw [← Message.ofBytes_of_isPrefix hm', hheader])
  subst heq
  refine hne (List.IsPrefix.eq_of_length (List.prefix_of_prefix_length_le ⟨rest, hrest⟩ hm' ?_) ?_)
  · rw [hlen, Message.length_encode]
  · rw [hlen, Message.length_encode]

/-- A corrupted message is rejected. -/
theorem receive_corrupted (hs : s.Supplied spare) (hwhole : s.Whole) (hbs : Corrupted m bs)
    (hpre : bs <+: s.pending) :
    Ends receive (fun _ _ => False) (fun f _ => ∃ what, f = .protocolException what) s := by
  rcases hbs.place with hhead | ⟨i, hi, b, rfl⟩
  · exact receive_corruptedPayload hs hwhole hbs.length hbs.altered hhead hpre
  · exact receive_corruptedHeader hs hwhole hi hbs.altered hpre

/-- A fresh receiver in front of the stream `bs`. -/
theorem supplied_fresh (bs : List UInt8) : (fresh bs).Supplied 0 :=
  ⟨sound_init (by simp) (by simp), rfl, Socket.serving_serves bs (by decide) bs.length 0⟩

theorem receive_corrupted_length :
    Ends receive (fun _ _ => False) (fun f _ => ∃ what, f = .protocolException what)
      (fresh ((Message.request 7 100 0).encode.set 7 99)) :=
  receive_corrupted (m := .request 7 100 0)
    (supplied_fresh ((Message.request 7 100 0).encode.set 7 99)) (.inl rfl)
    ⟨List.length_set, by decide +kernel, .inr ⟨7, by decide, 99, rfl⟩⟩ (List.prefix_refl _)

end BabblerProtocol

end NetBabbler
