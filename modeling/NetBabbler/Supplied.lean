import NetBabbler.Receiving

/-!
# Under a kernel that keeps going

`Supplied s spare` : the kernel hands over all bytes on their way to `s`, in pieces of its
choice, and has answers for `spare` more. Then receiving takes the message that is there,
unless less than a header of it lies in the buffer (`Whole`).
-/

namespace NetBabbler

open EStateM

/-- A kernel that hands over `bs` in pieces of `n` bytes, answers `reads` reads and takes
`writes` writes whole. -/
def Socket.serving (bs : List UInt8) (n reads writes : Nat) : Socket where
  input := .stream bs
  peer := none
  output := []
  polls := List.replicate reads (.ready ⟨false, some (.data n), false⟩)
  sendtos := List.replicate writes (.accepted (2 ^ 32))
  errno := 0
  reads := []

theorem Socket.serving_serves (bs : List UInt8) {n : Nat} (hn : 0 < n) (reads writes : Nat) :
    (serving bs n reads writes).Serves reads := by
  refine ⟨fun p hp => ⟨n, hn, List.eq_of_mem_replicate hp⟩, ?_⟩
  simp [serving]

theorem Socket.serving_accepts (bs : List UInt8) (n reads writes : Nat) :
    (serving bs n reads writes).Accepts writes := by
  refine ⟨fun r hr => ⟨2 ^ 32, by decide, List.eq_of_mem_replicate hr⟩, ?_⟩
  simp [serving]

namespace BabblerProtocol

/-- A kernel that hands over all that comes in, and answers `spare` more reads. -/
structure Supplied (s : BabblerProtocol) (spare : Nat) : Prop where
  sound : s.Sound
  stream : s.socket.IsStream
  serves : s.socket.Serves (s.socket.incoming.length + spare)

theorem Supplied.serving {s : BabblerProtocol} {spare : Nat} (h : s.Supplied spare) :
    s.socket.Serves s.socket.incoming.length :=
  ⟨h.serves.data, (Nat.le_add_right _ _).trans h.serves.enough⟩

/-- No part of a header alone is buffered. -/
def Whole (s : BabblerProtocol) : Prop :=
  s.bufContentSize = 0 ∨ 24 ≤ s.bufContentSize

instance (s : BabblerProtocol) : Decidable s.Whole :=
  inferInstanceAs (Decidable (_ ∨ _))

variable {s s' : BabblerProtocol} {m : Message} {P : Message → Prop} {spare room : Nat}

/-- A part of a header alone in the buffer is never received. -/
theorem receiveHeader_of_not_whole (h : ¬s.Whole) :
    Ends receiveHeader (fun _ _ => False) (fun f _ => f = .bug) s := by
  unfold Whole at h
  have h0 : s.bufContentSize ≠ 0 := by omega
  have hlt : s.bufContentSize < ProtocolHeader.size := by
    show s.bufContentSize < 24
    omega
  simp only [receiveHeader, rcvLen, ends_bind, ends_get, ends_ite, ends_pure, ends_bugOn,
    if_neg h0, if_pos hlt]

theorem receive_of_not_whole (h : ¬s.Whole) :
    Ends receive (fun _ _ => False) (fun f _ => f = .bug) s := by
  simp only [receive, ends_bind]
  exact (receiveHeader_of_not_whole h).mono (fun _ _ he => he.elim) fun _ _ he => he

theorem Took.supplied (h : s.Took m s') (hs : s.Supplied spare) : s'.Supplied spare := by
  obtain ⟨bs, hreads, -, hserves⟩ := h.received
  have hcount := congrArg List.length hreads.incoming
  rw [List.length_append] at hcount
  refine ⟨h.sound, hreads.stream, ?_⟩
  have := hserves _ hs.serves (Nat.le_add_right _ _)
  rwa [hcount, Nat.add_assoc, Nat.add_sub_cancel_left] at this

theorem Took.accepts (h : s.Took m s') (hs : s.socket.Accepts room) : s'.socket.Accepts room := by
  obtain ⟨bs, hreads, -⟩ := h.received
  exact ⟨by rw [hreads.sendtos]; exact hs.some, by rw [hreads.sendtos]; exact hs.enough⟩

theorem Sent.stream {dest : Option SockAddr} {bs : List UInt8} {n : Nat}
    (h : s.Sent dest bs n s') (hs : s.socket.IsStream) : s'.socket.IsStream := by
  rw [Socket.IsStream, h.writes.input, h.writes.incoming]
  exact hs

theorem Sent.supplied {dest : Option SockAddr} {bs : List UInt8} {n : Nat}
    (h : s.Sent dest bs n s') (hs : s.Supplied spare) : s'.Supplied spare := by
  refine ⟨h.sound hs.sound, h.stream hs.stream, ?_, ?_⟩
  · rw [h.writes.polls]
    exact hs.serves.data
  · rw [h.writes.polls, h.writes.incoming]
    exact hs.serves.enough

/-- What is unread stays so when less is sent than lies before it. -/
theorem Sent.unread {dest : Option SockAddr} {bs : List UInt8} {n : Nat}
    (h : s.Sent dest bs n s')
    (hroom : s.bufContentSize = 0 ∨ 24 ≤ s.pBuf ∧ bs.length ≤ s.pBuf) :
    s'.unread = s.unread := by
  rw [BabblerProtocol.unread, BabblerProtocol.unread, h.bufContentSize, h.pBuf]
  rcases hroom with h0 | ⟨h24, hle⟩
  · rw [h0, List.take_zero, List.take_zero]
  · rw [h.frame _ h24 hle]

/-- A receiver that waits for a message which is there has nothing to fear. -/
theorem ReceiveFault.absurd {f : Fault} (h : s.ReceiveFault P f) (hs : s.Supplied spare)
    (hwhole : s.Whole) (hP : P m) (hm : m.encode <+: s.pending) : False := by
  cases f with
  | bug =>
    obtain ⟨hlo, hhi⟩ := h
    unfold Whole at hwhole
    omega
  | protocolException what => exact h.2 m hP (.inl hm)
  | outOfBounds => exact h.2 m hP (.inl hm)
  | errorException what => exact not_unfinished hm (h hs.serving)
  | eventException => exact not_unfinished hm (h hs.serving)
  | blocked => exact not_unfinished hm (h hs.serving)
  | hang => exact h

/-- The message taken is the one that was there. -/
theorem Took.eq {m' : Message} (h : s.Took m' s') (hm : m.encode <+: s.pending) : m' = m :=
  Message.eq_of_matches hm (.inl h.isPrefix)

theorem recvRequest_supplied (hs : s.Supplied spare) (hwhole : s.Whole)
    (hreq : m.isRequest = true) (hm : m.encode <+: s.pending) :
    Ends recvRequest
      (fun r s' => r = (m.seq, m.options) ∧ s.Took m s' ∧ s'.Supplied spare)
      (fun _ _ => False) s := by
  refine (recvRequest_spec hs.sound hs.stream).mono ?_ fun f _ hf =>
    hf.absurd hs hwhole (fun _ => hreq) hm
  rintro r s' ⟨m', -, rfl, htook⟩
  obtain rfl := htook.eq hm
  exact ⟨rfl, htook, htook.supplied hs⟩

theorem recvResponse_supplied (hs : s.Supplied spare) (hwhole : s.Whole)
    (hresp : m.isRequest = false) (hm : m.encode <+: s.pending) :
    Ends (recvResponse m.seq) (fun _ s' => s.Took m s' ∧ s'.Supplied spare)
      (fun _ _ => False) s := by
  refine (recvResponse_spec hs.sound hs.stream m.seq).mono ?_ fun f _ hf =>
    hf.absurd hs hwhole (fun _ => ⟨hresp, rfl⟩) hm
  rintro _ s' ⟨m', -, htook⟩
  obtain rfl := htook.eq hm
  exact ⟨htook, htook.supplied hs⟩

end BabblerProtocol

end NetBabbler
