import NetBabbler.Supplied

/-!
# Bounds of the receive buffer

`Reachable` are the states of a protocol object whose peer and kernel do as they please.
They are all sound (`Reachable.sound`). `receive_inBounds_iff` : from a reachable state
every read of `receive` stays inside the bytes received, and the length it hands to
`checkPayload` does not wrap, exactly where the header it finds does not announce a
message shorter than a header.
-/

namespace NetBabbler

open EStateM

namespace BabblerProtocol

/-- The states of a protocol object on a stream, after calls that returned. -/
inductive Reachable : BabblerProtocol → Prop
  | init {socket : Socket} {buf : List UInt8} : 64 ≤ buf.length → buf.length < 2 ^ 32 →
      socket.IsStream → Reachable (init socket buf)
  /-- Peer and kernel go on in any way. -/
  | network {s : BabblerProtocol} {socket : Socket} : Reachable s → socket.IsStream →
      Reachable { s with socket := socket }
  | sendRequest {s s' : BabblerProtocol} {seq : UInt64} {reqSize respSize : UInt32} :
      Reachable s → sendRequest seq reqSize respSize s = .ok () s' → Reachable s'
  | sendResponse {s s' : BabblerProtocol} {seq : UInt64} {respSize : UInt32}
      {dest : Option SockAddr} :
      Reachable s → sendResponse seq respSize dest s = .ok () s' → Reachable s'
  | receive {s s' : BabblerProtocol} {r : Bool × UInt32 × UInt64} :
      Reachable s → receive s = .ok r s' → Reachable s'

theorem Reachable.sound {s : BabblerProtocol} (h : Reachable s) : s.Sound ∧ s.socket.IsStream := by
  induction h with
  | init h64 hbuf hstream => exact ⟨sound_init h64 hbuf, hstream⟩
  | network _ hstream ih =>
    exact ⟨ih.1.elsewhere _ _, hstream⟩
  | @sendRequest s s' seq reqSize respSize _ hrun ih =>
    by_cases hpre : 24 ≤ reqSize ∧ (respSize = 0 ∨ 24 ≤ respSize)
    · have hsent := ((sendRequest_spec ih.1.length ih.1.room seq hpre.1 hpre.2 rfl).ok hrun).1
      exact ⟨hsent.sound ih.1, hsent.stream ih.2⟩
    · exact ((sendRequest_bug s seq hpre).ok hrun).elim
  | @sendResponse s s' seq respSize dest _ hrun ih =>
    have hsent := ((sendResponse_spec ih.1.length ih.1.room seq respSize dest rfl).ok hrun).1
    exact ⟨hsent.sound ih.1, hsent.stream ih.2⟩
  | receive _ hrun ih =>
    obtain ⟨m, -, htook⟩ := (receive_spec ih.1 ih.2).ok hrun
    exact ⟨htook.sound, htook.stream⟩

/-- A `receive` from `s` stays inside the bytes received. -/
structure InBounds (s : BabblerProtocol) : Prop where
  /-- No read outside `m_pBuf .. m_pBuf + content`. -/
  reads : Ends receive (fun _ _ => True) (fun f _ => f ≠ .outOfBounds) s
  /-- These bytes lie in the buffer. -/
  buffer : Ends receiveHeader (fun _ s' => s'.pBuf + s'.bufContentSize ≤ s'.bufsize)
    (fun _ _ => True) s
  /-- `min (len, rcvLen) - sizeof (cProtocolHeader)` does not wrap. -/
  length : Ends receiveHeader (fun r _ => 24 ≤ (min r.1.length (UInt32.ofNat r.2)).toNat)
    (fun _ _ => True) s

/-- A header that `receive` gets to see and that passes its tests announces at least itself. -/
def HeaderFits (s : BabblerProtocol) : Prop :=
  s.Whole → 24 ≤ s.pending.length → Tested (ProtocolHeader.ofBytes s.pending) →
    24 ≤ (ProtocolHeader.ofBytes s.pending).length.toNat

instance (h : ProtocolHeader) : Decidable (Tested h) :=
  inferInstanceAs (Decidable (_ ∧ _))

instance (s : BabblerProtocol) : Decidable s.HeaderFits :=
  inferInstanceAs (Decidable (_ → _))

/-- `s` before another kernel. -/
def withPolls (s : BabblerProtocol) (polls : List Poll) : BabblerProtocol :=
  { s with socket := { s.socket with polls := polls } }

variable {s : BabblerProtocol}

/-- The header tests succeed only on the header that is pending. -/
theorem receiveHeader_pending (hs : s.Sound) (hstream : s.socket.IsStream) :
    Ends receiveHeader
      (fun r s' => s'.Sound ∧ s'.socket.IsStream ∧ 24 ≤ s'.bufContentSize ∧
        24 ≤ s.pending.length ∧ Tested (ProtocolHeader.ofBytes s.pending) ∧
        ProtocolHeader.ofBytes s'.unread = ProtocolHeader.ofBytes s.pending ∧
        r = (ProtocolHeader.ofBytes s.pending, s'.bufContentSize))
      (fun f _ => f ≠ .outOfBounds) s := by
  refine (receiveHeader_spec hs hstream).mono ?_ ?_
  · rintro r s' ⟨bs, hrec, hsound, hunread, rfl, h24, htested, -⟩
    have hpending := hrec.pending hunread
    have hheader : ProtocolHeader.ofBytes s.pending = ProtocolHeader.ofBytes s'.unread := by
      rw [hpending, ofBytes_pending hsound h24]
    refine ⟨hsound, hrec.reads.stream, h24, ?_, hheader ▸ htested, hheader.symm, by rw [hheader]⟩
    rw [hpending, length_pending hsound]
    omega
  · rintro f s' (⟨rfl, -⟩ | ⟨⟨what, rfl⟩, -⟩ | ⟨hf, -⟩)
    · exact Fault.noConfusion
    · exact Fault.noConfusion
    · rintro rfl
      exact hf

/-- From a state in which the header fits, `receive` stays in bounds. -/
theorem HeaderFits.inBounds (hfits : s.HeaderFits) (hs : s.Sound) (hstream : s.socket.IsStream) :
    s.InBounds := by
  by_cases hwhole : s.Whole
  swap
  · have hbug := receiveHeader_of_not_whole hwhole
    refine ⟨?_, hbug.mono (fun _ _ he => he.elim) fun _ _ _ => trivial,
      hbug.mono (fun _ _ he => he.elim) fun _ _ _ => trivial⟩
    refine (receive_of_not_whole hwhole).mono (fun _ _ he => he.elim) ?_
    rintro f _ rfl
    exact Fault.noConfusion
  have hheader := receiveHeader_pending hs hstream
  refine ⟨?_, hheader.mono (fun r s' h => h.1.bound) fun _ _ _ => trivial, ?_⟩
  · simp only [receive, updateReceiveStats, ends_bind, ends_modify, ends_pure]
    refine hheader.mono ?_ fun _ _ hf => hf
    rintro r s' ⟨hsound, hstream', h24, hlong, htested, hunread, rfl⟩
    obtain ⟨m, hm⟩ := htested.message_or_short.resolve_right
      (Nat.not_lt_of_le (hfits hwhole hlong htested))
    rw [hm] at hunread ⊢
    refine (receivePayload_spec hsound hstream' h24 hunread).mono (fun _ _ _ => trivial) ?_
    rintro f _ (⟨⟨what, rfl⟩, -⟩ | ⟨hf, -⟩)
    · exact Fault.noConfusion
    · rintro rfl
      exact hf
  · refine hheader.mono ?_ fun _ _ _ => trivial
    rintro r s' ⟨hsound, -, h24, hlong, htested, -, rfl⟩
    have hbound := hsound.bound
    have hunsigned := hsound.unsigned
    rw [toNat_min_ofNat _ (by omega)]
    exact le_min (hfits hwhole hlong htested) h24

/-- Before a kernel that serves all bytes the header is seen. -/
theorem InBounds.headerFits (hs : s.Sound) (hstream : s.socket.IsStream)
    (hserves : s.socket.Serves s.socket.incoming.length) (h : s.InBounds) : s.HeaderFits := by
  intro hwhole hlong htested
  have hseen : Ends receiveHeader (fun r _ => r.1 = ProtocolHeader.ofBytes s.pending)
      (fun _ _ => False) s := by
    refine ((receiveHeader_pending hs hstream).and (receiveHeader_spec hs hstream)).mono ?_ ?_
    · rintro r s' ⟨⟨-, -, -, -, -, -, rfl⟩, -⟩
      rfl
    · rintro f s' ⟨-, ⟨-, hlo, hhi⟩ | ⟨-, -, hnot⟩ | ⟨-, h0, hnot⟩⟩
      · unfold Whole at hwhole
        omega
      · exact hnot htested
      · refine hnot _ ⟨hserves, le_rfl, ?_⟩
        rw [length_pending hs] at hlong
        omega
  obtain ⟨r, s', -, hr, hfits⟩ := hseen.exists_ok_and h.length
  rw [← hr]
  have hmin : (min r.1.length (UInt32.ofNat r.2)).toNat ≤ r.1.length.toNat := by
    show (if r.1.length ≤ UInt32.ofNat r.2 then r.1.length else UInt32.ofNat r.2).toNat ≤ _
    split_ifs with hle
    · exact le_rfl
    · exact Nat.le_of_lt (UInt32.not_le.mp hle)
  omega

/-- From every reachable state and before every kernel `receive` stays in bounds, if and only
if the header it finds does not announce less than a header. -/
theorem receive_inBounds_iff (h : Reachable s) :
    (∀ polls, (s.withPolls polls).InBounds) ↔ s.HeaderFits := by
  obtain ⟨hs, hstream⟩ := h.sound
  have hsound : ∀ polls, (s.withPolls polls).Sound := fun _ => hs.elsewhere _ _
  constructor
  · intro hall
    have hserves := Socket.serving_serves s.socket.incoming Nat.zero_lt_one
      s.socket.incoming.length 0
    exact InBounds.headerFits
      (s := s.withPolls (Socket.serving s.socket.incoming 1 s.socket.incoming.length 0).polls)
      (hsound _) hstream
      ⟨hserves.data, hserves.enough⟩ (hall _)
  · exact fun hfits polls => HeaderFits.inBounds hfits (hsound polls) hstream

/-- A fresh protocol object in front of the stream `bs`. -/
def fresh (bs : List UInt8) : BabblerProtocol :=
  .init (.serving bs 24 bs.length 0) (List.replicate 64 0)

theorem reachable_fresh (bs : List UInt8) : Reachable (fresh bs) :=
  .init (by decide) (by decide) rfl

theorem receive_inBounds_request : (fresh (Message.request 7 100 0).encode).InBounds :=
  (receive_inBounds_iff (reachable_fresh (Message.request 7 100 0).encode)).mpr
    (by decide +kernel) (fresh (Message.request 7 100 0).encode).socket.polls

/-- A header with the right checksum that announces a message of no bytes at all. -/
def emptyHeader : ProtocolHeader :=
  let h : ProtocolHeader := { type := 0xaaffffee, length := 0, seq := 7, options := 0, checksum := 0 }
  { h with checksum := h.calcChecksum }

/-- The payload of a message shorter than its header is looked for behind the bytes received. -/
theorem receive_not_inBounds : ¬∀ s : BabblerProtocol, Reachable s → s.InBounds := by
  intro h
  have hreads := (h (fresh emptyHeader.bytes) (reachable_fresh _)).reads
  exact absurd hreads (by decide +kernel)

end BabblerProtocol

end NetBabbler
