import NetBabbler.Supplied

/-!
# Rows of receives

`Consumed bs ms s` : of the stream `bs` the messages `ms` were returned, and `s` is left.
The buffer, the socket and the statistics agree on how far the stream was read : what is
buffered and what is still in the socket are the stream without the lengths of `ms`.
`times_receive_consumed` : any number of `receive` calls keeps it.
-/

namespace NetBabbler

open EStateM

namespace BabblerProtocol

/-- The sum of the length fields. -/
def octets (ms : List Message) : Nat :=
  (ms.map fun m => m.header.length.toNat).sum

theorem octets_concat (ms : List Message) (m : Message) :
    octets (ms ++ [m]) = octets ms + m.encode.length := by
  rw [octets, octets, List.map_append, List.sum_append, List.map_singleton, List.sum_singleton,
    Message.header_length, Message.length_encode, Nat.add_comm m.payloadLen]

/-- What `receive` keeps once it has returned the messages `ms` of the stream `bs`. -/
structure Consumed (bs : List UInt8) (ms : List Message) (s : BabblerProtocol) : Prop where
  front : ms.flatMap Message.encode <+: bs
  rest : s.unread ++ s.socket.incoming = bs.drop (octets ms)
  bound : s.pBuf + s.bufContentSize ≤ s.bufsize
  empty : s.bufContentSize = 0 → s.pBuf = 0
  receivedOctets : s.stats.receivedOctets = Int64.ofNat (octets ms + s.bufContentSize)
  receivedPackets : s.stats.receivedPackets = Int64.ofNat ms.length

variable {s s' : BabblerProtocol} {bs : List UInt8} {ms : List Message} {m : Message}

theorem length_flatMap_encode (ms : List Message) :
    (ms.flatMap Message.encode).length = octets ms := by
  induction ms with
  | nil => rfl
  | cons m ms ih =>
    rw [List.flatMap_cons, List.length_append, ih, octets, octets, List.map_cons, List.sum_cons,
      Message.header_length, Message.length_encode, Nat.add_comm m.payloadLen]

/-- One message more. -/
theorem Consumed.took (h : Consumed bs ms s) (hs : s.Sound) (htook : s.Took m s') :
    Consumed bs (ms ++ [m]) s' := by
  obtain ⟨read, hreads, hstats, -⟩ := htook.received
  have hpend : bs.drop (octets ms) = m.encode ++ s'.pending := h.rest.symm.trans htook.pending
  have hsplit : bs = ms.flatMap Message.encode ++ (m.encode ++ s'.pending) := by
    obtain ⟨rest, hrest⟩ := h.front
    rw [← hpend, ← hrest, List.drop_left' (length_flatMap_encode ms)]
  have hcount : s.bufContentSize + read.length = m.encode.length + s'.bufContentSize := by
    have hlen := congrArg List.length htook.pending
    have hin := congrArg List.length hreads.incoming
    rw [List.length_append, length_pending hs, length_pending htook.sound] at hlen
    rw [List.length_append] at hin
    omega
  refine ⟨?_, ?_, htook.sound.bound, htook.sound.empty, ?_, ?_⟩
  · refine ⟨s'.pending, ?_⟩
    rw [List.flatMap_append, List.flatMap_singleton, hsplit, List.append_assoc]
  · rw [octets_concat, ← List.drop_drop, hpend, List.drop_left]
    rfl
  · rw [hstats, octets_concat]
    show s.stats.receivedOctets + Int64.ofNat read.length = _
    rw [h.receivedOctets, ← Int64.ofNat_add]
    congr 1
    omega
  · rw [hstats, List.length_append]
    show s.stats.receivedPackets + Int64.ofNat 1 = _
    rw [h.receivedPackets, ← Int64.ofNat_add]
    rfl

theorem consumed_init {socket : Socket} {buf : List UInt8} (hin : socket.input = .stream bs) :
    Consumed bs [] (init socket buf) := by
  refine ⟨List.nil_prefix, ?_, Nat.zero_le _, fun _ => rfl, rfl, rfl⟩
  have hinc : socket.incoming = bs := by rw [Socket.incoming, hin]
  simp [unread, init, octets, hinc]

theorem times_receive_spec :
    ∀ (n : Nat) {ms : List Message} {s : BabblerProtocol}, s.Sound → s.socket.IsStream →
      Consumed bs ms s →
      Ends (times receive n)
        (fun rs s' => ∃ ms', ms'.length = n ∧
          rs = ms'.map (fun m => (m.isRequest, m.options, m.seq)) ∧ Consumed bs (ms ++ ms') s')
        (fun _ _ => True) s
  | 0, ms, s, _, _, h => by
    rw [times, ends_pure]
    exact ⟨[], rfl, rfl, by rwa [List.append_nil]⟩
  | n + 1, ms, s, hs, hstream, h => by
    simp only [times, ends_bind, ends_pure]
    refine (receive_spec hs hstream).mono ?_ fun _ _ _ => trivial
    rintro _ s' ⟨m, rfl, htook⟩
    refine (times_receive_spec n htook.sound htook.stream (h.took hs htook)).mono ?_
      fun _ _ he => he
    rintro _ s'' ⟨ms', hlen, rfl, hconsumed⟩
    refine ⟨m :: ms', by rw [List.length_cons, hlen], rfl, ?_⟩
    rwa [List.append_assoc, List.singleton_append] at hconsumed

/-- Any number of calls consumes one message each, on every stream and before every kernel. -/
theorem times_receive_consumed {socket : Socket} (hin : socket.input = .stream bs)
    {buf : List UInt8} (h64 : 64 ≤ buf.length) (hbuf : buf.length < 2 ^ 32) (n : Nat) :
    Ends (times receive n)
      (fun rs s' => ∃ ms, ms.length = n ∧
        rs = ms.map (fun m => (m.isRequest, m.options, m.seq)) ∧ Consumed bs ms s')
      (fun _ _ => True) (init socket buf) := by
  have hstream : socket.IsStream := by rw [Socket.IsStream, Socket.incoming, hin]
  exact times_receive_spec n (sound_init h64 hbuf) hstream (consumed_init hin)

/-- Two requests in pieces of 64 bytes, both of which are received. -/
theorem times_receive_two : Ends (times receive 2)
    (fun rs s' => ∃ ms, ms.length = 2 ∧ rs = ms.map (fun m => (m.isRequest, m.options, m.seq)) ∧
      Consumed ([Message.request 0 40 0, .request 1 50 0].flatMap Message.encode) ms s')
    (fun _ _ => False)
    (init (.serving ([Message.request 0 40 0, .request 1 50 0].flatMap Message.encode) 64 9 0)
      (List.replicate 64 0)) := by
  have hreturns : Ends (times receive 2) (fun _ _ => True) (fun _ _ => False)
      (init (.serving ([Message.request 0 40 0, .request 1 50 0].flatMap Message.encode) 64 9 0)
        (List.replicate 64 0)) := by
    decide +kernel
  exact (hreturns.and (times_receive_consumed rfl (by decide) (by decide) 2)).mono
    (fun _ _ h => h.2) fun _ _ h => h.1

end BabblerProtocol

end NetBabbler
