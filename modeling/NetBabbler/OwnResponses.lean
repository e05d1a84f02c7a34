import NetBabbler.Requestor
import Mathlib.Data.List.ReduceOption

/-!
# Rounds and their responses

What a requestor can believe of the server when rounds return. `countedJob` is `doJob`
with the sequence number of the response that it waited for. `times_countedJob_own` :
whatever the server sends and however it arrives, the rounds that returned have taken the
responses to their own requests off the front of the stream, one after the other, as long
as no request is written over bytes that are still unread (`Clear`).
-/

namespace NetBabbler

open EStateM BabblerProtocol

namespace Requestor

/-- `doJob`; returns the sequence number of the response it waited for. -/
def countedJob : EStateM Fault Requestor (Option UInt64) := do
  let r ← get
  doJob
  pure (if (r.check .recv).2 ≠ 0 then some (r.seq + 1) else none)

/-- The request of the coming round. -/
def request (r : Requestor) : Message :=
  .request (r.seq + 1) (r.check .send).2 (r.check .recv).2

/-- The request of the coming round fits in front of what is buffered. -/
def Clear (r : Requestor) : Prop :=
  r.protocol.bufContentSize = 0 ∨ r.request.wire.length ≤ r.protocol.pBuf

instance (r : Requestor) : Decidable r.Clear :=
  inferInstanceAs (Decidable (_ ∨ _))

/-- The stream `bs` starts with the messages `ms`, which are responses to the requests `seqs`. -/
structure OwnResponses (bs : List UInt8) (seqs : List UInt64) (ms : List Message) : Prop where
  front : ms.flatMap Message.encode <+: bs
  responses : ∀ m ∈ ms, m.isRequest = false
  seqs : ms.map Message.seq = seqs

/-- A requestor that has taken `ms` off the stream `bs` in `k` rounds. -/
structure Believes (bs : List UInt8) (k : Nat) (ms : List Message) (r : Requestor) : Prop where
  sound : r.protocol.Sound
  stream : r.protocol.socket.IsStream
  left : r.protocol.bufContentSize = 0 ∨ 24 ≤ r.protocol.pBuf
  stream_eq : bs = ms.flatMap Message.encode ++ r.protocol.pending
  seq : r.seq = UInt64.ofNat k

variable {bs : List UInt8} {k : Nat} {ms : List Message} {r : Requestor}

/-- A request that fits in front of what is buffered leaves all that is pending alone. -/
theorem sendRequest_clear {s : BabblerProtocol} (hs : s.Sound) (hstream : s.socket.IsStream)
    (hleft : s.bufContentSize = 0 ∨ 24 ≤ s.pBuf) (seq : UInt64) (reqSize respSize : UInt32)
    (hclear : s.bufContentSize = 0 ∨
      (Message.request seq reqSize respSize).wire.length ≤ s.pBuf) :
    Ends (sendRequest seq reqSize respSize)
      (fun _ s' => s'.Sound ∧ s'.socket.IsStream ∧ (s'.bufContentSize = 0 ∨ 24 ≤ s'.pBuf) ∧
        s'.pending = s.pending) (fun _ _ => True) s := by
  by_cases hsizes : 24 ≤ reqSize ∧ (respSize = 0 ∨ 24 ≤ respSize)
  · refine (sendRequest_spec hs.length hs.room seq hsizes.1 hsizes.2 rfl).mono ?_
      fun _ _ _ => trivial
    rintro _ s' ⟨hsent, -⟩
    have hroom : s.bufContentSize = 0 ∨ 24 ≤ s.pBuf ∧
        (Message.request seq reqSize respSize).wire.length ≤ s.pBuf := by
      rcases hleft with h0 | h24
      · exact .inl h0
      · exact hclear.imp_right fun hle => ⟨h24, hle⟩
    refine ⟨hsent.sound hs, hsent.stream hstream, ?_, ?_⟩
    · rwa [hsent.bufContentSize, hsent.pBuf]
    · rw [pending, pending, hsent.unread hroom, hsent.writes.incoming]
  · exact (sendRequest_bug s seq hsizes).mono (fun _ _ h => h.elim) fun _ _ _ => trivial

/-- A round takes the response it waits for off the stream, or nothing if it waits for none. -/
theorem Believes.countedJob (h : Believes bs k ms r) (hclear : r.Clear) :
    Ends countedJob
      (fun seq r' => (seq = none ∧ Believes bs (k + 1) ms r') ∨
        ∃ m : Message, m.isRequest = false ∧ seq = some m.seq ∧ m.seq = UInt64.ofNat (k + 1) ∧
          Believes bs (k + 1) (ms ++ [m]) r')
      (fun _ _ => True) r := by
  have hseq : r.seq + 1 = UInt64.ofNat (k + 1) := by
    rw [h.seq, UInt64.ofNat_add]
    rfl
  rw [Requestor.countedJob]
  simp only [ends_bind, ends_get, ends_pure]
  refine ends_doJob (fun _ _ _ _ => trivial) fun _ => ?_
  refine (sendRequest_clear h.sound h.stream h.left _ _ _ hclear).mono ?_ fun _ _ _ => trivial
  rintro _ s₁ ⟨hsound, hstream, hleft, hpend⟩
  split_ifs with hwaits
  · refine (recvResponse_spec hsound hstream _).mono ?_ fun _ _ _ => trivial
    rintro _ s₂ ⟨m, ⟨hresp, hm⟩, htook⟩
    refine .inr ⟨m, hresp, by rw [hm], hm.trans hseq,
      ⟨htook.sound, htook.stream, htook.left, ?_, hseq⟩⟩
    rw [h.stream_eq, ← hpend, htook.pending, List.flatMap_append, List.flatMap_singleton,
      List.append_assoc]
    rfl
  · refine .inl ⟨rfl, hsound, hstream, hleft, ?_, hseq⟩
    rw [h.stream_eq, ← hpend]
    rfl

/-- Any number of rounds. -/
theorem times_countedJob_spec :
    ∀ (n : Nat) {k : Nat} {ms : List Message} {r : Requestor}, Believes bs k ms r →
      Along countedJob Clear n r →
      Ends (times countedJob n)
        (fun seqs r' => ∃ ms', (∀ m ∈ ms', m.isRequest = false) ∧
          ms'.map Message.seq = seqs.reduceOption ∧
          List.Sublist (ms'.map Message.seq) ((List.range' (k + 1) n).map UInt64.ofNat) ∧
          Believes bs (k + n) (ms ++ ms') r')
        (fun _ _ => True) r
  | 0, k, ms, r, h, _ => by
    rw [times, ends_pure]
    exact ⟨[], by simp, rfl, List.Sublist.refl _, by rwa [List.append_nil]⟩
  | n + 1, k, ms, r, h, hclear => by
    simp only [times, ends_bind, ends_pure]
    refine ((h.countedJob hclear.1).and hclear.2).mono ?_ fun _ _ _ => trivial
    rintro seq r₁ ⟨⟨rfl, h₁⟩ | ⟨m, hresp, rfl, hm, h₁⟩, hrest⟩
    · refine (times_countedJob_spec n h₁ hrest).mono ?_ fun _ _ he => he
      rintro seqs r' ⟨ms', hms', hseqs, hsub, h'⟩
      refine ⟨ms', hms', by rw [List.reduceOption_cons_of_none, hseqs], ?_, ?_⟩
      · rw [List.range'_succ, List.map_cons]
        exact hsub.cons _
      · rwa [Nat.add_assoc, Nat.add_comm 1] at h'
    · refine (times_countedJob_spec n h₁ hrest).mono ?_ fun _ _ he => he
      rintro seqs r' ⟨ms', hms', hseqs, hsub, h'⟩
      refine ⟨m :: ms', ?_, by rw [List.reduceOption_cons_of_some, List.map_cons, hseqs], ?_, ?_⟩
      · intro m' hm'
        rcases List.mem_cons.mp hm' with rfl | hm'
        · exact hresp
        · exact hms' m' hm'
      · rw [List.range'_succ, List.map_cons, List.map_cons, hm]
        exact hsub.cons_cons _
      · rwa [List.append_assoc, List.singleton_append, Nat.add_assoc, Nat.add_comm 1] at h'

/-- Sequence numbers of rounds in order increase, as long as the counter does not wrap. -/
theorem pairwise_seqs {n : Nat} (hn : n < 2 ^ 64) {seqs : List UInt64}
    (h : List.Sublist seqs ((List.range' 1 n).map UInt64.ofNat)) : seqs.Pairwise (· < ·) := by
  refine List.Pairwise.sublist h (List.pairwise_map.mpr ?_)
  have hrange : (List.range' 1 n).Pairwise (· < ·) := List.pairwise_lt_range'
  refine hrange.imp_of_mem fun ha hb hlt => ?_
  rw [List.mem_range'_1] at ha hb
  rw [UInt64.lt_iff_toNat_lt, UInt64.toNat_ofNat', UInt64.toNat_ofNat', Nat.mod_eq_of_lt (by omega),
    Nat.mod_eq_of_lt (by omega)]
  omega

/-- Rounds that return have each had their own response, whatever the server sends, if no request
was written over unread bytes. -/
theorem times_countedJob_own {socket : Socket} (hin : socket.input = .stream bs)
    {buf : List UInt8} (h64 : 64 ≤ buf.length) (hbuf : buf.length < 2 ^ 32) (c : ComSettings)
    (sendLimit recvLimit : Int64) (rng : Nat → Nat) (n : Nat)
    (hclear : Along countedJob Clear n (init socket buf c sendLimit recvLimit rng)) :
    Ends (times countedJob n)
      (fun seqs _ => (∃ ms, OwnResponses bs seqs.reduceOption ms) ∧
        (n < 2 ^ 64 → seqs.reduceOption.Pairwise (· < ·)))
      (fun _ _ => True) (init socket buf c sendLimit recvLimit rng) := by
  have hinc : socket.incoming = bs := by rw [Socket.incoming, hin]
  have hstart : Believes bs 0 [] (init socket buf c sendLimit recvLimit rng) := by
    refine ⟨sound_init h64 hbuf, ?_, .inl rfl, ?_, rfl⟩
    · show socket.IsStream
      rw [Socket.IsStream, hinc, hin]
    · show bs = [] ++ (BabblerProtocol.init socket buf).pending
      simp [pending, unread, BabblerProtocol.init, hinc]
  refine (times_countedJob_spec n hstart hclear).mono ?_ fun _ _ _ => trivial
  rintro seqs r' ⟨ms, hms, hseqs, hsub, h⟩
  refine ⟨⟨ms, ⟨r'.protocol.pending, ?_⟩, hms, hseqs⟩, fun hn => ?_⟩
  · rw [h.stream_eq, List.nil_append]
  · rw [← hseqs]
    exact pairwise_seqs hn (by simpa using hsub)

/-- A requestor that gets the stream `bs` in one read, with requests and responses of one size
each. -/
def oneRead (bs : List UInt8) (bufsize : Nat) (reqSize respSize : UInt32) : Requestor :=
  init (.serving bs 1000 2 2) (List.replicate bufsize 0)
    ⟨reqSize, reqSize, respSize, respSize, 0, false⟩ (-1) (-1) fun _ => 0

/-- Two rounds that have their responses. -/
theorem times_countedJob_own_two : Ends (times countedJob 2)
    (fun seqs _ => (∃ ms, OwnResponses
        ((Message.response 1 26).encode ++ (Message.response 2 26).encode) seqs.reduceOption ms) ∧
      (2 < 2 ^ 64 → seqs.reduceOption.Pairwise (· < ·)))
    (fun _ _ => False)
    (oneRead ((Message.response 1 26).encode ++ (Message.response 2 26).encode) 100 50 50) := by
  have hreturns : Ends (times countedJob 2) (fun _ _ => True) (fun _ _ => False)
      (oneRead ((Message.response 1 26).encode ++ (Message.response 2 26).encode) 100 50 50) := by
    decide +kernel
  exact (hreturns.and (times_countedJob_own rfl (by simp) (by simp) _ _ _ _ 2
    (by decide +kernel))).mono (fun _ _ h => h.2) fun _ _ h => h.1

/-- A response to the first request, and what looks like one to the second but for its first
byte. -/
def forged : List UInt8 :=
  (Message.response 1 235).encode ++ (Message.response 2 235).encode.set 0 0

/-- The second request repairs the byte that it is written over. -/
theorem not_times_countedJob_own :
    ¬∀ (bs : List UInt8) (socket : Socket) (buf : List UInt8) (c : ComSettings)
      (sendLimit recvLimit : Int64) (rng : Nat → Nat) (n : Nat), socket.input = .stream bs →
      64 ≤ buf.length → buf.length < 2 ^ 32 →
      Ends (times countedJob n)
        (fun seqs _ => (∃ ms, OwnResponses bs seqs.reduceOption ms) ∧
          (n < 2 ^ 64 → seqs.reduceOption.Pairwise (· < ·)))
        (fun _ _ => True) (init socket buf c sendLimit recvLimit rng) := by
  intro h
  have hlen : (List.replicate 600 (0 : UInt8)).length = 600 := List.length_replicate
  have hown := h forged (.serving forged 1000 2 2) (List.replicate 600 0)
    ⟨260, 260, 259, 259, 0, false⟩ (-1) (-1) (fun _ => 0) 2 rfl (by omega) (by omega)
  have hrun : Ends (times countedJob 2) (fun seqs _ => seqs = [some 1, some 2])
      (fun _ _ => False) (oneRead forged 600 260 259) := by
    decide +kernel
  obtain ⟨_, _, -, rfl, ⟨ms, hms⟩, -⟩ := hrun.exists_ok_and hown
  obtain ⟨m₁, m₂, rfl⟩ : ∃ m₁ m₂, ms = [m₁, m₂] :=
    List.length_eq_two.mp (by simpa using congrArg List.length hms.seqs)
  have hfront := hms.front
  rw [List.flatMap_cons, List.flatMap_singleton] at hfront
  have hfirst : m₁ = .response 1 235 := Message.eq_of_matches (List.prefix_append _ _)
    (.inl ((List.prefix_append _ _).trans hfront))
  rw [hfirst, forged, List.prefix_append_right_inj] at hfront
  have hresp := m₂.header_isResponse
  rw [hms.responses m₂ (by simp), ← Message.ofBytes_of_isPrefix hfront] at hresp
  exact absurd hresp (by decide +kernel)

end Requestor

end NetBabbler
