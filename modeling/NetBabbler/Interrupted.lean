import NetBabbler.Buffered
import NetBabbler.Requestor
import NetBabbler.Responder

/-!
# Messages cut short

What is on the wire when a call fails. A `send` that fails has handed over a proper part of
its message, from the start, and counted all of it but for less than a buffer
(`sendRequest_fails`, `sendResponse_fails`); a `receive` sends nothing, however it ends
(`unsaid_receive`).

So at the end of any number of rounds, whatever the peer and the kernel did, the bytes that a
requestor or a responder sent are whole messages in order and a part of one further message
(`Requestor.times_doJob_requests`, `Responder.times_doJob_responses`).
-/

namespace NetBabbler

open EStateM

/-! ## Sending -/

/-- A `send` that fails took less than it was asked to, from the start. -/
theorem Socket.sendtoLoop_fails (dest : Option SockAddr) :
    ∀ (answers : List Sendto) {s : Socket} {data : List UInt8}, s.sendtos = answers →
      data ≠ [] →
      Ends (sendtoLoop dest data answers) (fun _ _ => True)
        (fun _ s' => ∃ bs, bs <+: data ∧ bs.length < data.length ∧ s.Writes dest bs s') s
  | [], s, data, _, hne => by
    rw [sendtoLoop, ends_throw]
    exact ⟨[], List.nil_prefix, List.length_pos_of_ne_nil hne, .refl s dest⟩
  | answer :: answers, s, data, hans, hne => by
    have hsuf : answers <:+ s.sendtos := hans ▸ List.suffix_cons _ _
    simp only [sendtoLoop, ends_bind, ends_modify]
    rcases answer with n | err
    · simp only [ends_bind, ends_modify, ends_ite, ends_pure]
      have hwrites : s.Writes dest (data.take (min n data.length)) { s with
          sendtos := answers, output := s.output ++ [(dest, data.take (min n data.length))] } :=
        ⟨⟨_, rfl, by simp, by simp⟩, rfl, rfl, rfl, hsuf⟩
      split_ifs with hmore
      · have hrest : data.drop (min n data.length) ≠ [] :=
          List.ne_nil_of_length_pos (by rw [List.length_drop]; omega)
        refine (sendtoLoop_fails dest answers rfl hrest).mono (fun _ _ h => h) ?_
        rintro f s' ⟨bs, hpre, hlt, hw⟩
        refine ⟨data.take (min n data.length) ++ bs, ?_, ?_, hwrites.trans hw⟩
        · obtain ⟨rest, hrest⟩ := hpre
          exact ⟨rest, by rw [List.append_assoc, hrest, List.take_append_drop]⟩
        · rw [List.length_append, List.length_take]
          rw [List.length_drop] at hlt
          omega
    · simp only [ends_bind, ends_modify, ends_throw]
      exact ⟨[], List.nil_prefix, List.length_pos_of_ne_nil hne,
        ⟨⟨[], by simp, rfl, by simp⟩, rfl, rfl, rfl, hsuf⟩⟩

namespace BabblerProtocol

variable {incr : Bool} {totalLen : Nat}

/-- From `s` a proper part of `bs` went out to `dest`, leaving `s'`, and all of it but for less
than a buffer is counted. -/
structure CutShort (s : BabblerProtocol) (dest : Option SockAddr) (bs : List UInt8)
    (s' : BabblerProtocol) : Prop where
  bufsize : s'.bufsize = s.bufsize
  part : ∃ ds n, ds <+: bs ∧ ds.length < bs.length ∧ s.socket.Writes dest ds s'.socket ∧
    n ≤ ds.length ∧ ds.length < n + s.bufsize ∧ s'.stats = s.stats.transmit n 0

theorem Sent.cutShort {s₁ s₂ s₃ : BabblerProtocol} {dest : Option SockAddr} {as bs : List UInt8}
    (h₁ : s₁.Sent dest as 0 s₂) (h₂ : s₂.CutShort dest bs s₃) :
    s₁.CutShort dest (as ++ bs) s₃ := by
  obtain ⟨ds, n, hpre, hlt, hw, hn, hlag, hstats⟩ := h₂.part
  refine ⟨h₂.bufsize.trans h₁.bufsize, as ++ ds, as.length + n, ?_, ?_, h₁.writes.trans hw, ?_, ?_,
    ?_⟩
  · rwa [List.prefix_append_right_inj]
  · rw [List.length_append, List.length_append]
    omega
  · rw [List.length_append]
    omega
  · rw [h₁.bufsize] at hlag
    rw [List.length_append]
    omega
  · rw [hstats, h₁.stats, Stats.transmit_transmit]

/-- The loop of `send` fails in one of its calls on the socket. -/
theorem sendLoop_fails {dest : Option SockAddr} :
    ∀ (fuel : Nat) {s : BabblerProtocol} {p sent : Nat} {counter : UInt8},
      s.buf.length = s.bufsize → p < s.bufsize → sent < totalLen → totalLen - sent < fuel →
      Ends (sendLoop totalLen incr dest fuel p sent counter) (fun _ _ => True)
        (fun _ s' =>
          s.CutShort dest (s.buf.take p ++ payload incr counter (totalLen - sent)) s') s
  | 0, _, _, _, _, _, _, _, hfuel => by omega
  | fuel + 1, s, p, sent, counter, hlen, hp, hsent, hfuel => by
    obtain ⟨k, hk⟩ : ∃ k, k = min (s.bufsize - p) (totalLen - sent) := ⟨_, rfl⟩
    have hroom : p + (s.bufsize - p) ≤ s.buf.length := by omega
    have htake : (store s.buf p (payload incr counter k)).take (p + k) =
        s.buf.take p ++ payload incr counter k := by
      have := take_store (by omega : p ≤ s.buf.length) (payload incr counter k)
      rwa [length_payload] at this
    have hchunk : (s.buf.take p ++ payload incr counter k).length = p + k := by
      simp only [List.length_append, List.length_take, length_payload]
      omega
    have hpayload : s.buf.take p ++ payload incr counter (totalLen - sent) =
        s.buf.take p ++ payload incr counter k ++
          payload incr ((count incr)^[k] counter) (totalLen - (sent + k)) := by
      rw [List.append_assoc, ← payload_add]
      congr 2
      omega
    simp only [sendLoop, if_pos hsent, ends_bind, ends_get, fill_eq _ hroom, ends_modify,
      onSocket, ends_zoom, updateTransmitStats, ← hk, htake]
    have hne : s.buf.take p ++ payload incr counter k ≠ [] :=
      List.ne_nil_of_length_pos (by omega)
    have hfails : Ends (Socket.send (s.buf.take p ++ payload incr counter k) dest)
        (fun _ _ => True)
        (fun _ sock => ∃ bs, bs <+: s.buf.take p ++ payload incr counter k ∧
          bs.length < p + k ∧ s.socket.Writes dest bs sock) s.socket := by
      simp only [Socket.send, ends_bind, ends_get, ends_pure]
      exact hchunk ▸ Socket.sendtoLoop_fails dest _ rfl hne
    refine ((Socket.send_spec dest _ _).and hfails).mono ?_ ?_
    · rintro n sock ⟨⟨rfl, hw, -⟩, -⟩
      generalize hs' : (BabblerProtocol.mk sock _ _ _ _ _) = s'
      by_cases hmore : sent + k < totalLen
      · have hchunkSent : s.Sent dest (s.buf.take p ++ payload incr counter k) 0 s' := by
          subst hs'
          refine ⟨hw, rfl, rfl, rfl, ?_, fun n _ hn => ?_, ?_⟩
          · exact length_store (by rw [length_payload]; omega)
          · rw [hchunk] at hn
            exact drop_store (by omega) (by rw [length_payload]; omega)
          · simp only [Stats.transmit, hchunk, UInt64.toInt64_ofNat', if_pos hmore]
            rfl
        rw [hpayload]
        refine (sendLoop_fails fuel (hchunkSent.length.trans (hlen.trans hchunkSent.bufsize.symm))
          (by rw [hchunkSent.bufsize]; omega) hmore (by omega)).mono (fun _ _ h => h) ?_
        intro f s'' hcut
        exact hchunkSent.cutShort (by simpa using hcut)
      · obtain ⟨fuel, rfl⟩ : ∃ n, fuel = n + 1 := ⟨fuel - 1, by omega⟩
        rw [sendLoop, if_neg hmore, ends_pure]
        trivial
    · rintro f sock ⟨-, bs, hpre, hlt, hw⟩
      refine ⟨rfl, bs, 0, ?_, ?_, hw, Nat.zero_le _, ?_, by simp⟩
      · rw [hpayload]
        exact hpre.trans (List.prefix_append _ _)
      · rw [hpayload, List.length_append, hchunk]
        omega
      · show bs.length < 0 + s.bufsize
        omega

/-- A message that `sendRequest` or `sendResponse` could not send whole. -/
theorem sendMessage_fails {s : BabblerProtocol} (hlen : s.buf.length = s.bufsize)
    (hsize : 24 < s.bufsize) (m : Message) {h : ProtocolHeader} {size : UInt32}
    (hpay : (size + 24).toNat - 24 = m.payloadLen) (hh : m.payloadLen ≠ 0 → h = m.header)
    (dest : Option SockAddr) :
    Ends (do
        modify fun s => { s with buf := store s.buf 0 h.bytes }
        send h size m.isRequest dest)
      (fun _ _ => True) (fun _ s' => s.CutShort dest m.wire s') s := by
  obtain ⟨hl, ht, -⟩ := store_header hlen hsize h
  simp only [ends_bind, ends_modify, send, ProtocolHeader.ofNat_size]
  show Ends (sendLoop (size + 24).toNat _ _ ((size + 24).toNat + 1) 24 24 _) _ _ _
  by_cases hempty : m.payloadLen = 0
  · rw [sendLoop, if_neg (by omega), ends_pure]
    trivial
  · refine (sendLoop_fails (s := { s with buf := store s.buf 0 h.bytes }) _ hl hsize (by omega)
      (by omega)).mono (fun _ _ h => h) ?_
    rintro f s' ⟨hsize', hpart⟩
    have hwire : (store s.buf 0 h.bytes).take 24 ++
        payload m.isRequest h.seq.toUInt8 ((size + 24).toNat - 24) = m.wire := by
      rw [ht, hpay, Message.wire_of_pos (Nat.pos_of_ne_zero hempty), hh hempty]
      rfl
    rw [hwire] at hpart
    exact ⟨hsize', hpart⟩

theorem sendResponse_fails {s : BabblerProtocol} (hlen : s.buf.length = s.bufsize)
    (hsize : 24 < s.bufsize) (seq : UInt64) (respSize : UInt32) (dest : Option SockAddr) :
    Ends (sendResponse seq respSize dest) (fun _ _ => True)
      (fun _ s' => s.CutShort dest (Message.response seq respSize).wire s') s := by
  refine sendMessage_fails hlen hsize (Message.response seq respSize) rfl (fun h0 => ?_) dest
  refine (Message.header_response seq ?_).symm
  have : (respSize + 24).toNat - 24 ≠ 0 := h0
  show 24 ≤ (respSize + 24).toNat
  omega

theorem sendRequest_fails {s : BabblerProtocol} (hlen : s.buf.length = s.bufsize)
    (hsize : 24 < s.bufsize) (seq : UInt64) (reqSize respSize : UInt32) :
    Ends (sendRequest seq reqSize respSize) (fun _ _ => True)
      (fun f s' => f = .bug ∧ s' = s ∨
        s.CutShort none (Message.request seq reqSize respSize).wire s') s := by
  by_cases h : 24 ≤ reqSize ∧ (respSize = 0 ∨ 24 ≤ respSize)
  · rw [sendRequest_eq seq h.1 h.2]
    exact (sendMessage_fails hlen hsize (Message.request seq reqSize respSize)
      (Message.request_payloadLen seq reqSize respSize) (fun _ => rfl) none).mono
        (fun _ _ he => he) fun _ _ he => .inr he
  · exact (sendRequest_bug s seq h).mono (fun _ _ he => he.elim) fun _ _ he => .inl he

end BabblerProtocol

/-! ## Receiving -/

namespace Socket

/-- Nothing more was sent. -/
def SameOutput (s s' : Socket) : Prop :=
  s'.output = s.output

theorem recvfrom_output (asked : Nat) (answer : Recvfrom) (s : Socket) :
    (recvfrom asked answer s).2.output = s.output := by
  cases answer with
  | data n =>
    rw [recvfrom]
    split <;> rfl
  | _ => rfl

theorem recvReady_output (len : Nat) (received : List UInt8) (answer : Option Recvfrom) :
    Advances SameOutput (recvReady len received answer) := by
  intro s
  cases answer with
  | none =>
    rw [recvReady, ends_pure]
    exact rfl
  | some answer =>
    have hout := recvfrom_output (len - received.length) answer s
    simp only [ends_recvReady]
    split
    · exact hout
    · exact hout

theorem recvLoop_output (len atleast : Nat) :
    ∀ (polls : List Poll) (received : List UInt8),
      Advances SameOutput (recvLoop len atleast received polls)
  | [], received => fun _ => by
    rw [recvLoop, ends_throw]
    exact rfl
  | poll :: polls, received => fun s => by
    simp only [recvLoop, ends_bind, ends_modify]
    rcases poll with err | _ | revents
    · simp only [ends_bind, ends_modify, ends_throw]
      exact rfl
    · rw [ends_throw]
      exact rfl
    · simp only [ends_bind, ends_throwIf, ends_ite, ends_pure]
      have hready := recvReady_output len received revents.input { s with polls := polls }
      split_ifs
      · exact rfl
      · exact hready
      · refine hready.mono (fun out s' hout => ?_) fun _ _ hout => hout
        split_ifs
        · exact (recvLoop_output len atleast polls out s').mono (fun _ _ h => h.trans hout)
            fun _ _ h => h.trans hout
        · exact hout

theorem recv_output (len atleast : Nat) : Advances SameOutput (recv len atleast) := by
  intro s
  simp only [recv, ends_bind, ends_bugOn, ends_get]
  split_ifs
  · exact rfl
  · exact recvLoop_output len atleast s.polls [] s

end Socket

namespace BabblerProtocol

/-- Nothing was sent, or counted as sent, between `s` and `s'`. -/
structure Unsaid (s s' : BabblerProtocol) : Prop where
  bufsize : s'.bufsize = s.bufsize
  output : s'.socket.output = s.socket.output
  octets : s'.stats.sentOctets = s.stats.sentOctets
  packets : s'.stats.sentPackets = s.stats.sentPackets

theorem Unsaid.refl (s : BabblerProtocol) : s.Unsaid s :=
  ⟨rfl, rfl, rfl, rfl⟩

theorem Unsaid.trans (s₁ s₂ s₃ : BabblerProtocol) (h₁ : s₁.Unsaid s₂) (h₂ : s₂.Unsaid s₃) :
    s₁.Unsaid s₃ :=
  ⟨h₂.bufsize.trans h₁.bufsize, h₂.output.trans h₁.output, h₂.octets.trans h₁.octets,
    h₂.packets.trans h₁.packets⟩

theorem unsaid_throwIf (c : Prop) [Decidable c] (f : Fault) : Advances Unsaid (throwIf c f) :=
  .ite (fun _ => advances_throw .refl f) fun _ => advances_pure .refl ()

theorem unsaid_bugOn (c : Prop) [Decidable c] : Advances Unsaid (bugOn c) :=
  .ite (fun _ => advances_throw .refl _) fun _ => advances_pure .refl ()

theorem unsaid_recvInto (len atleast : Nat) : Advances Unsaid (recvInto len atleast) :=
  .bind Unsaid.trans ((Socket.recv_output len atleast).zoom fun _ _ h => ⟨rfl, h, rfl, rfl⟩) fun _ =>
    .bind Unsaid.trans (advances_modify fun _ => ⟨rfl, rfl, rfl, rfl⟩) fun _ =>
      .bind Unsaid.trans (advances_modify fun _ => ⟨rfl, rfl, rfl, rfl⟩) fun _ => advances_pure .refl _

theorem unsaid_receiveHeader : Advances Unsaid receiveHeader := by
  have hrcvLen : Advances Unsaid rcvLen :=
    .bind Unsaid.trans (advances_get .refl) fun s =>
      .ite (fun _ => unsaid_recvInto _ _) fun _ => advances_pure .refl _
  have hheaderAt : Advances Unsaid headerAt :=
    .bind Unsaid.trans (advances_get .refl) fun s =>
      .bind Unsaid.trans (unsaid_throwIf _ _) fun _ => advances_pure .refl _
  refine .bind Unsaid.trans hrcvLen fun n => .bind Unsaid.trans (unsaid_bugOn _) fun _ => ?_
  exact .bind Unsaid.trans hheaderAt fun header => .bind Unsaid.trans (unsaid_throwIf _ _) fun _ =>
    .bind Unsaid.trans (unsaid_throwIf _ _) fun _ => advances_pure .refl _

theorem unsaid_checkPayload (incr : Bool) : ∀ (data : List UInt8) (len : Nat) (v : UInt8),
    Advances Unsaid (checkPayload incr data len v)
  | _, 0, v => by
    rw [checkPayload]
    exact advances_pure .refl v
  | [], _ + 1, _ => advances_throw .refl _
  | _ :: data, len + 1, v =>
    .bind Unsaid.trans (unsaid_throwIf _ _) fun _ => unsaid_checkPayload incr data len _

theorem unsaid_receiveRest (isRequest : Bool) : ∀ (fuel : Nat) (n : Int) (v : UInt8),
    Advances Unsaid (receiveRest isRequest fuel n v)
  | 0, _, _ => advances_throw .refl _
  | fuel + 1, n, v => by
    rw [receiveRest]
    refine .ite (fun _ => ?_) fun _ => advances_pure .refl n
    exact .bind Unsaid.trans (advances_get .refl) fun _ =>
      .bind Unsaid.trans (unsaid_recvInto _ _) fun _ =>
        .bind Unsaid.trans (advances_get .refl) fun _ =>
          .bind Unsaid.trans (unsaid_checkPayload _ _ _ _) fun _ =>
            unsaid_receiveRest isRequest fuel _ _

/-- However `receive` ends, it sends nothing. -/
theorem unsaid_receive : Advances Unsaid receive := by
  have hconsume : ∀ len n, Advances Unsaid (consume len n) := fun len n =>
    .ite (fun _ => .bind Unsaid.trans (advances_modify fun _ => ⟨rfl, rfl, rfl, rfl⟩) fun _ =>
      .bind Unsaid.trans (advances_get .refl) fun _ => unsaid_bugOn _)
      fun _ => advances_modify fun _ => ⟨rfl, rfl, rfl, rfl⟩
  have hpayload : ∀ header n, Advances Unsaid (receivePayload header n) := fun header n =>
    .bind Unsaid.trans (advances_get .refl) fun _ =>
      .bind Unsaid.trans (unsaid_checkPayload _ _ _ _) fun _ =>
        .bind Unsaid.trans (unsaid_receiveRest _ _ _ _) fun _ => hconsume _ _
  exact .bind Unsaid.trans unsaid_receiveHeader fun _ =>
    .bind Unsaid.trans (hpayload _ _) fun _ =>
      .bind Unsaid.trans (advances_modify fun _ => ⟨rfl, rfl, rfl, rfl⟩) fun _ => advances_pure .refl _

theorem unsaid_recvRequest : Advances Unsaid recvRequest :=
  .bind Unsaid.trans unsaid_receive fun _ => .bind Unsaid.trans (unsaid_throwIf _ _) fun _ =>
    advances_pure .refl _

theorem unsaid_recvResponse (expSeq : UInt64) : Advances Unsaid (recvResponse expSeq) :=
  .bind Unsaid.trans unsaid_receive fun _ => .bind Unsaid.trans (unsaid_throwIf _ _) fun _ =>
    unsaid_throwIf _ _

theorem recvRequest_sound {s : BabblerProtocol} (hs : s.Sound) :
    Ends recvRequest (fun _ s' => s'.Sound) (fun _ _ => True) s := by
  simp only [recvRequest, ends_bind, ends_throwIf, ends_pure]
  refine (receive_sound hs).mono (fun r s' hs' => ?_) fun _ _ _ => trivial
  split_ifs
  exact hs'

/-! ## Whole runs -/

/-- Since `s₀`, `s` sent the messages `ms` whole and in order, and counted them. -/
structure Wrote (s₀ : BabblerProtocol) (ms : List Message) (s : BabblerProtocol) : Prop where
  bufsize : s.bufsize = s₀.bufsize
  bytes : s.socket.sent = s₀.socket.sent ++ ms.flatMap Message.wire
  octets : s.stats.sentOctets = s₀.stats.sentOctets + Int64.ofNat (ms.flatMap Message.wire).length
  packets : s.stats.sentPackets = s₀.stats.sentPackets + Int64.ofNat (ms.map Message.packets).sum

/-- Since `s₀`, `s` sent the messages `ms` whole and in order, and a proper part of `m`. It
counted the whole messages, and of the bytes all but for less than a buffer. -/
structure WrotePart (s₀ : BabblerProtocol) (ms : List Message) (m : Message)
    (s : BabblerProtocol) : Prop where
  bytes : ∃ ds n, ds <+: m.wire ∧ ds.length < m.wire.length ∧
    s.socket.sent = s₀.socket.sent ++ ms.flatMap Message.wire ++ ds ∧
    n ≤ ds.length ∧ ds.length < n + s₀.bufsize ∧ s.stats.sentOctets = s₀.stats.sentOctets +
      Int64.ofNat ((ms.flatMap Message.wire).length + n)
  packets : s.stats.sentPackets = s₀.stats.sentPackets + Int64.ofNat (ms.map Message.packets).sum

variable {s₀ s s' : BabblerProtocol} {ms : List Message} {m : Message} {dest : Option SockAddr}

theorem Wrote.refl (s : BabblerProtocol) : Wrote s [] s := by
  refine ⟨rfl, ?_, ?_, ?_⟩ <;> simp

theorem Wrote.unsaid (h : Wrote s₀ ms s) (hs : s.Unsaid s') : Wrote s₀ ms s' := by
  refine ⟨hs.bufsize.trans h.bufsize, ?_, hs.octets.trans h.octets, hs.packets.trans h.packets⟩
  rw [Socket.sent, hs.output]
  exact h.bytes

theorem Wrote.sent (h : Wrote s₀ ms s) (hs : s.Sent dest m.wire m.packets s') :
    Wrote s₀ (ms ++ [m]) s' := by
  refine ⟨hs.bufsize.trans h.bufsize, ?_, ?_, ?_⟩
  · rw [hs.writes.sent, h.bytes, List.flatMap_append, List.flatMap_singleton, List.append_assoc]
  · rw [hs.stats, List.flatMap_append, List.flatMap_singleton, List.length_append, Int64.ofNat_add,
      ← Int64.add_assoc, ← h.octets]
    rfl
  · rw [hs.stats, List.map_append, List.map_singleton, List.sum_append, List.sum_singleton,
      Int64.ofNat_add, ← Int64.add_assoc, ← h.packets]
    rfl

theorem Wrote.cutShort (h : Wrote s₀ ms s) (hs : s.CutShort dest m.wire s') :
    WrotePart s₀ ms m s' := by
  obtain ⟨ds, n, hpre, hlt, hw, hn, hlag, hstats⟩ := hs.part
  refine ⟨⟨ds, n, hpre, hlt, by rw [hw.sent, h.bytes], hn, h.bufsize ▸ hlag, ?_⟩, ?_⟩
  · rw [hstats, Int64.ofNat_add, ← Int64.add_assoc, ← h.octets]
    rfl
  · rw [hstats, ← h.packets]
    exact Int64.add_zero _

end BabblerProtocol

namespace Requestor

open BabblerProtocol

variable {r₀ r : Requestor} {ms : List Message}

/-- Requests with the numbers that follow `seq`. -/
def Numbered (seq : UInt64) (ms : List Message) : Prop :=
  ∀ i m, ms[i]? = some m →
    ∃ reqSize respSize, m = Message.request (seq + UInt64.ofNat (i + 1)) reqSize respSize

theorem Numbered.concat {seq : UInt64} (h : Numbered seq ms) (reqSize respSize : UInt32) :
    Numbered seq
      (ms ++ [.request (seq + UInt64.ofNat ms.length + 1) reqSize respSize]) := by
  intro i m hm
  rcases Nat.lt_trichotomy i ms.length with hlt | rfl | hgt
  · rw [List.getElem?_append_left hlt] at hm
    exact h i m hm
  · rw [List.getElem?_append_right le_rfl, Nat.sub_self] at hm
    obtain rfl := Option.some.inj hm
    refine ⟨reqSize, respSize, ?_⟩
    rw [UInt64.ofNat_add, ← UInt64.add_assoc]
    rfl
  · rw [List.getElem?_eq_none (by rw [List.length_append, List.length_singleton]; omega)] at hm
    cases hm

/-- A requestor between two rounds, since `r₀`. -/
structure Rounded (r₀ : Requestor) (ms : List Message) (r : Requestor) : Prop where
  sound : r.protocol.Sound
  seq : r.seq = r₀.seq + UInt64.ofNat ms.length
  numbered : Numbered r₀.seq ms
  wrote : Wrote r₀.protocol ms r.protocol

/-- A round sends its request whole, or fails. -/
theorem Rounded.doJob (h : Rounded r₀ ms r) :
    Ends doJob (fun _ r' => ∃ m, Rounded r₀ (ms ++ [m]) r')
      (fun _ r' => Wrote r₀.protocol ms r'.protocol ∨
        ∃ m, Numbered r₀.seq (ms ++ [m]) ∧ (Wrote r₀.protocol (ms ++ [m]) r'.protocol ∨
          WrotePart r₀.protocol ms m r'.protocol)) r := by
  refine ends_doJob (fun r' hprotocol _ _ => .inl (hprotocol ▸ h.wrote)) fun hopen => ?_
  obtain ⟨reqSize, hreqSize⟩ : ∃ n, n = (r.check .send).2 := ⟨_, rfl⟩
  obtain ⟨respSize, hrespSize⟩ : ∃ n, n = (r.check .recv).2 := ⟨_, rfl⟩
  rw [← hreqSize, ← hrespSize]
  have hnumbered := h.numbered.concat reqSize respSize
  rw [← h.seq] at hnumbered
  have hseq : r.seq + 1 = r₀.seq + UInt64.ofNat
      (ms ++ [Message.request (r.seq + 1) reqSize respSize]).length := by
    rw [List.length_append, List.length_singleton, UInt64.ofNat_add, ← UInt64.add_assoc, ← h.seq]
    rfl
  by_cases hsizes : 24 ≤ reqSize ∧ (respSize = 0 ∨ 24 ≤ respSize)
  · have hspec := sendRequest_spec h.sound.length h.sound.room (r.seq + 1) hsizes.1 hsizes.2 rfl
    have hfails := sendRequest_fails h.sound.length h.sound.room (r.seq + 1) reqSize respSize
    refine ((hspec.and hfails)).mono ?_ ?_
    · rintro _ s₁ ⟨⟨hsent, -⟩, -⟩
      have hwrote := h.wrote.sent hsent
      have hsound := hsent.sound h.sound
      split_ifs
      · refine ((recvResponse_sound hsound _).and (unsaid_recvResponse _ s₁)).mono ?_ ?_
        · rintro _ s₂ ⟨hs₂, hunsaid⟩
          exact ⟨_, hs₂, hseq, hnumbered, hwrote.unsaid hunsaid⟩
        · rintro _ s₂ ⟨-, hunsaid⟩
          exact .inr ⟨_, hnumbered, .inl (hwrote.unsaid hunsaid)⟩
      · exact ⟨_, hsound, hseq, hnumbered, hwrote⟩
    · rintro f s₁ ⟨⟨hf, -⟩, ⟨rfl, -⟩ | hcut⟩
      · cases hf
      · exact .inr ⟨_, hnumbered, .inr (h.wrote.cutShort hcut)⟩
  · refine (sendRequest_bug _ _ hsizes).mono (fun _ _ hf => hf.elim) ?_
    rintro f s₁ ⟨-, rfl⟩
    exact .inl h.wrote

/-- A kernel that takes most of the second request, and fails then. -/
def failing : Socket :=
  { Socket.serving [] 1 0 0 with sendtos := [.accepted 40, .accepted 30, .error ECONNRESET] }

/-- Of its second request that requestor sent 30 bytes, and counted none of them. -/
example : Ends (times doJob 3) (fun _ _ => False)
    (fun f r => f = .errorException (.errno ECONNRESET) ∧ r.protocol.socket.sent.length = 70 ∧
      r.protocol.stats.sentOctets = 40)
    (init failing (List.replicate 64 0) ⟨40, 40, 0, 0, 0, false⟩ 0 0 fun _ => 0) := by
  decide +kernel

end Requestor

namespace Responder

open BabblerProtocol

variable {s₀ s : BabblerProtocol} {ms : List Message}

/-- A round sends the response whole, or fails. -/
theorem doJob_wire (hs : s.Sound) (hwrote : Wrote s₀ ms s) (isConnectionless : Bool) :
    Ends (doJob isConnectionless)
      (fun r s' => s'.Sound ∧ Wrote s₀ (ms ++ [.response r.1 r.2]) s')
      (fun _ s' => Wrote s₀ ms s' ∨ ∃ seq respSize, WrotePart s₀ ms (.response seq respSize) s')
      s := by
  simp only [doJob, ends_bind, ends_get, ends_pure]
  refine ((recvRequest_sound hs).and (unsaid_recvRequest s)).mono ?_ ?_
  · rintro ⟨seq, options⟩ s₁ ⟨hs₁, hunsaid⟩
    have hwrote₁ := hwrote.unsaid hunsaid
    refine ((sendResponse_spec hs₁.length hs₁.room seq options _ rfl).and
      (sendResponse_fails hs₁.length hs₁.room seq options _)).mono ?_ ?_
    · rintro _ s₂ ⟨⟨hsent, -⟩, -⟩
      exact ⟨hsent.sound hs₁, hwrote₁.sent hsent⟩
    · rintro _ s₂ ⟨-, hcut⟩
      exact .inr ⟨seq, options, hwrote₁.cutShort hcut⟩
  · rintro _ s₁ ⟨-, hunsaid⟩
    exact .inl (hwrote.unsaid hunsaid)

/-- A responder with one request to answer, in a kernel that fails in the response. -/
def failing : Socket :=
  { Socket.serving (Message.request 1 40 40).encode 64 4 0 with
    sendtos := [.accepted 30, .error ECONNRESET] }

end Responder

end NetBabbler
