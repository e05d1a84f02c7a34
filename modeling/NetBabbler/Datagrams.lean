import NetBabbler.Buffered

/-!
# Datagrams

`recv` takes one datagram after the other and loses what it did not ask for
(`recv_datagrams`). `send` hands the kernel a buffer at a time, so that over a kernel that
takes each datagram whole a message travels in chunks of the buffer's size
(`sendRequest_chunked`, `sendResponse_chunked`).
-/

namespace NetBabbler

open EStateM

/-- A datagram with the address it came from. -/
abbrev Datagram := SockAddr × List UInt8

/-! ## One read -/

namespace Socket

/-- A read that finds no datagram, or the first one. -/
def Reading (s : Socket) (len : Nat) (queue : List Datagram) (out : List UInt8) (s' : Socket) :
    Prop :=
  out = [] ∧ s'.input = .datagrams queue ∧ s'.peer = s.peer ∨
    ∃ src d rest, queue = (src, d) :: rest ∧ out = d.take len ∧
      s'.input = .datagrams rest ∧ s'.peer = some src

theorem recvfrom_datagrams {s : Socket} {queue : List Datagram} (hin : s.input = .datagrams queue)
    (asked : Nat) (answer : Recvfrom) :
    s.Reading asked queue ((recvfrom asked answer s).1.getD []) (recvfrom asked answer s).2 := by
  cases answer with
  | data n =>
    rw [recvfrom, hin]
    rcases queue with _ | ⟨⟨src, d⟩, rest⟩
    · exact .inl ⟨rfl, rfl, rfl⟩
    · exact .inr ⟨src, d, rest, rfl, rfl, rfl, rfl⟩
  | wouldBlock => exact .inl ⟨rfl, hin, rfl⟩
  | shutdown => exact .inl ⟨rfl, hin, rfl⟩
  | error err => exact .inl ⟨rfl, hin, rfl⟩

theorem recvReady_datagrams {s : Socket} {queue : List Datagram} (hin : s.input = .datagrams queue)
    (len : Nat) (answer : Option Recvfrom) :
    Ends (recvReady len [] answer) (fun out s' => s.Reading len queue out s')
      (fun _ _ => True) s := by
  cases answer with
  | none =>
    rw [recvReady, ends_pure]
    exact .inl ⟨rfl, hin, rfl⟩
  | some answer =>
    simp only [ends_recvReady, List.length_nil, Nat.sub_zero, List.nil_append]
    split
    · trivial
    · exact recvfrom_datagrams hin len answer

theorem recvLoop_datagrams {queue : List Datagram} {len atleast : Nat}
    (hfront : ∀ d ∈ queue.head?, max 1 atleast ≤ (d.2.take len).length) :
    ∀ (polls : List Poll) {s : Socket}, s.input = .datagrams queue →
      Ends (recvLoop len atleast [] polls)
        (fun out s' => s.Reading len queue out s' ∧ atleast ≤ out.length) (fun _ _ => True) s
  | [], s, _ => by
    rw [recvLoop, ends_throw]
    trivial
  | poll :: polls, s, hin => by
    simp only [recvLoop, ends_bind, ends_modify]
    rcases poll with err | _ | revents
    · simp
    · simp
    · simp only [ends_bind, ends_throwIf]
      by_cases hup : revents.hangup = true
      · simp [hup]
      rw [if_neg hup]
      refine (recvReady_datagrams (s := { s with polls := polls }) hin len revents.input).mono ?_
        fun _ _ _ => trivial
      intro out s' hread
      by_cases hcancel : revents.cancel = true
      · simp [hcancel]
      rw [if_neg hcancel, ends_ite]
      split_ifs with hmore
      · rcases hread with ⟨rfl, hin', hpeer⟩ | ⟨src, d, rest, hqueue, rfl, -⟩
        · refine (recvLoop_datagrams hfront polls hin').mono ?_ fun _ _ _ => trivial
          intro out s'' h
          obtain ⟨⟨rfl, hin'', hpeer'⟩ | htaken, hat⟩ := h
          · exact ⟨.inl ⟨rfl, hin'', hpeer'.trans hpeer⟩, hat⟩
          · exact ⟨.inr htaken, hat⟩
        · have hlen : max 1 atleast ≤ (d.take len).length := hfront (src, d) (by rw [hqueue]; rfl)
          omega
      · rw [ends_pure]
        exact ⟨hread, by omega⟩

/-- A `recv` on datagrams takes no more than the first, where that is long enough. -/
theorem recv_datagrams {s : Socket} {queue : List Datagram} (hin : s.input = .datagrams queue)
    {len atleast : Nat} (hfront : ∀ d ∈ queue.head?, max 1 atleast ≤ (d.2.take len).length) :
    Ends (recv len atleast) (fun out s' => s.Reading len queue out s' ∧ atleast ≤ out.length)
      (fun _ _ => True) s := by
  simp only [recv, ends_bind, ends_bugOn, ends_get]
  split_ifs
  exact recvLoop_datagrams hfront s.polls hin

/-- From `s` the first datagram was read, which leaves `rest` and answers for `k` reads. -/
structure Takes (s : Socket) (src : SockAddr) (rest : List Datagram) (k : Nat) (s' : Socket) :
    Prop where
  input : s'.input = .datagrams rest
  peer : s'.peer = some src
  output : s'.output = s.output
  sendtos : s'.sendtos = s.sendtos
  serves : s'.Serves k

/-- A kernel that serves datagrams hands over the first of them, as much of it as asked for. -/
theorem recv_serves_datagram {s : Socket} {src : SockAddr} {d : List UInt8}
    {rest : List Datagram} (hin : s.input = .datagrams ((src, d) :: rest)) {len atleast k : Nat}
    (hd : max 1 atleast ≤ (d.take len).length) (hserves : s.Serves (k + 1)) :
    Ends (recv len atleast) (fun out s' => out = d.take len ∧ s.Takes src rest k s')
      (fun _ _ => False) s := by
  have hlen : (d.take len).length ≤ len := List.length_take_le _ _
  have henough := hserves.enough
  rcases hpolls : s.polls with _ | ⟨poll, polls⟩
  · rw [hpolls, List.length_nil] at henough
    omega
  obtain ⟨n, -, rfl⟩ := hserves.data poll (by simp [hpolls])
  obtain ⟨b, bs, htake⟩ : ∃ b bs, d.take len = b :: bs :=
    List.exists_cons_of_length_pos (by omega)
  have hmore : ¬(b :: bs).length < atleast := by
    rw [← htake]
    omega
  have hserves' : ∀ p ∈ polls, ∃ n, 0 < n ∧ p = .ready ⟨false, some (.data n), false⟩ :=
    fun p hp => hserves.data p (by simp [hpolls, hp])
  rw [hpolls, List.length_cons] at henough
  simp only [recv, ends_bind, ends_bugOn, ends_get, hpolls, recvLoop, ends_modify, ends_throwIf,
    recvReady, ends_modifyGet, List.length_nil, Nat.sub_zero, recvfrom, hin, Channel.take, htake,
    Bool.false_eq_true, if_false, ends_pure, ends_ite, List.nil_append]
  rw [if_neg (by omega), if_neg hmore]
  exact ⟨trivial, rfl, rfl, rfl, rfl, hserves', Nat.le_of_succ_le_succ henough⟩

/-- Every coming `sendto` takes a datagram of up to `limit` bytes whole. -/
def TakesWhole (s : Socket) (limit : Nat) : Prop :=
  ∀ r ∈ s.sendtos, ∃ n, limit ≤ n ∧ r = .accepted n

/-- A kernel that takes datagrams whole sends no more than one. -/
theorem send_whole {s : Socket} {limit : Nat} (h : s.TakesWhole limit) {data : List UInt8}
    (hle : data.length ≤ limit) (dest : Option SockAddr) :
    Ends (send data dest)
      (fun _ s' => s'.output = s.output ++ [(dest, data)] ∧ s'.TakesWhole limit)
      (fun _ _ => True) s := by
  simp only [send, ends_bind, ends_get, ends_pure]
  rcases hans : s.sendtos with _ | ⟨answer, answers⟩
  · simp [sendtoLoop]
  · obtain ⟨n, hn, rfl⟩ := h answer (by simp [hans])
    have hmin : min n data.length = data.length := by omega
    simp only [sendtoLoop, ends_bind, ends_modify, hmin, Nat.lt_irrefl, if_false, ends_pure,
      List.take_length]
    exact ⟨trivial, fun r hr => h r (by simp [hans, show r ∈ answers from hr])⟩

end Socket

/-! ## Chunks -/

/-- `pieces` is `bs` cut after every `n` bytes. -/
def Chunked (n : Nat) : List UInt8 → List (List UInt8) → Prop
  | bs, [] => bs = []
  | bs, piece :: pieces => bs ≠ [] ∧ piece = bs.take n ∧ Chunked n (bs.drop n) pieces

section Chunks

variable {n : Nat} {bs : List UInt8} {piece : List UInt8} {pieces : List (List UInt8)}

theorem Chunked.flatten : ∀ {pieces : List (List UInt8)} {bs : List UInt8}, Chunked n bs pieces →
    pieces.flatten = bs
  | [], _, h => h.symm
  | piece :: pieces, bs, ⟨_, hpiece, hrest⟩ => by
    rw [List.flatten_cons, hrest.flatten, hpiece, List.take_append_drop]

/-- No chunk is empty, nor longer than `n`. -/
theorem Chunked.length (hn : 0 < n) : ∀ {pieces : List (List UInt8)} {bs : List UInt8},
    Chunked n bs pieces → ∀ piece ∈ pieces, 0 < piece.length ∧ piece.length ≤ n
  | [], _, _ => by simp
  | piece :: pieces, bs, ⟨hne, hpiece, hrest⟩ => by
    have hpos := List.length_pos_iff.mpr hne
    have hlen : piece.length = min n bs.length := by rw [hpiece, List.length_take]
    intro p hp
    rcases List.mem_cons.mp hp with rfl | hp
    · omega
    · exact hrest.length hn p hp

/-- There are no more chunks than bytes. -/
theorem Chunked.length_le (hn : 0 < n) (h : Chunked n bs pieces) : pieces.length ≤ bs.length := by
  rw [← h.flatten, List.length_flatten]
  have hone := List.card_nsmul_le_sum (pieces.map List.length) 1 fun k hk => by
    obtain ⟨piece, hpiece, rfl⟩ := List.mem_map.mp hk
    exact (h.length hn piece hpiece).1
  simpa using hone

end Chunks

namespace BabblerProtocol

variable {s : BabblerProtocol} {limit : Nat} {dest : Option SockAddr}

/-! ## Sending -/

/-- The loop of `send` cuts what the buffer holds before `p` and the rest of the payload after
every `bufsize` bytes. -/
theorem sendLoop_chunked {incr : Bool} {totalLen : Nat} :
    ∀ (fuel : Nat) {s : BabblerProtocol} {p sent : Nat} {counter : UInt8},
      s.buf.length = s.bufsize → p < s.bufsize → sent < totalLen → s.bufsize ≤ limit →
      s.socket.TakesWhole limit →
      Ends (sendLoop totalLen incr dest fuel p sent counter)
        (fun _ s' => ∃ pieces,
          Chunked s.bufsize (s.buf.take p ++ payload incr counter (totalLen - sent)) pieces ∧
          s'.socket.output = s.socket.output ++ pieces.map (dest, ·))
        (fun _ _ => True) s
  | 0, _, _, _, _, _, _, _, _, _ => by
    rw [sendLoop, ends_throw]
    trivial
  | fuel + 1, s, p, sent, counter, hlen, hp, hsent, hlimit, hwhole => by
    obtain ⟨k, hk⟩ : ∃ k, k = min (s.bufsize - p) (totalLen - sent) := ⟨_, rfl⟩
    have hroom : p + (s.bufsize - p) ≤ s.buf.length := by omega
    have hbefore : (s.buf.take p).length = p := by
      rw [List.length_take]
      omega
    have htake : (store s.buf p (payload incr counter k)).take (p + k) =
        s.buf.take p ++ payload incr counter k := by
      have := take_store (by omega : p ≤ s.buf.length) (payload incr counter k)
      rwa [length_payload] at this
    have hchunk : s.buf.take p ++ payload incr counter k =
        (s.buf.take p ++ payload incr counter (totalLen - sent)).take s.bufsize := by
      have hall : (s.buf.take p).take s.bufsize = s.buf.take p :=
        List.take_of_length_le (by omega)
      rw [List.take_append, hbefore, hall, take_payload, ← hk]
    have hne : s.buf.take p ++ payload incr counter (totalLen - sent) ≠ [] := by
      refine List.ne_nil_of_length_pos ?_
      rw [List.length_append, length_payload]
      omega
    simp only [sendLoop, if_pos hsent, ends_bind, ends_get, fill_eq _ hroom, ends_modify,
      onSocket, ends_zoom, updateTransmitStats, ← hk, htake]
    refine (Socket.send_whole hwhole ?_ dest).mono ?_ fun _ _ _ => trivial
    · rw [hchunk]
      exact (List.length_take_le _ _).trans hlimit
    · rintro n sock ⟨hout, hwhole'⟩
      have hl : (store s.buf p (payload incr counter k)).length = s.bufsize :=
        (length_store (by rw [length_payload]; omega)).trans hlen
      generalize store s.buf p (payload incr counter k) = buf at hl
      rcases Nat.lt_or_ge (sent + k) totalLen with hmore | hlast
      · have hdrop : (s.buf.take p ++ payload incr counter (totalLen - sent)).drop s.bufsize =
            payload incr ((count incr)^[k] counter) (totalLen - (sent + k)) := by
          have hroomy : s.bufsize - p = k := by omega
          rw [List.drop_append, List.drop_of_length_le (by omega), List.nil_append, hbefore,
            drop_payload, hroomy, min_eq_left (by omega), Nat.sub_sub]
        generalize hs' : (BabblerProtocol.mk sock _ _ _ _ _) = s'
        have hsock : s'.socket = sock := by rw [← hs']
        have hsize : s'.bufsize = s.bufsize := by rw [← hs']
        have hl' : s'.buf.length = s'.bufsize := by
          rw [hsize, ← hl, ← hs']
        refine (sendLoop_chunked fuel hl' (hsize ▸ Nat.zero_lt_of_lt hp) hmore (hsize ▸ hlimit)
          (hsock ▸ hwhole')).mono ?_ fun _ _ _ => trivial
        rintro _ s'' ⟨pieces, hpieces, hout'⟩
        refine ⟨_ :: pieces, ⟨hne, rfl, ?_⟩, ?_⟩
        · rw [hdrop]
          exact hsize ▸ hpieces
        · rw [hout', hsock, hout, hchunk, List.map_cons, List.append_assoc]
          rfl
      · obtain rfl | ⟨fuel, rfl⟩ : fuel = 0 ∨ ∃ n, fuel = n + 1 := by
          cases fuel with
          | zero => exact .inl rfl
          | succ n => exact .inr ⟨n, rfl⟩
        · rw [sendLoop, ends_throw]
          trivial
        · rw [sendLoop, if_neg (by omega), ends_pure]
          refine ⟨[_], ⟨hne, rfl, ?_⟩, ?_⟩
          · refine List.drop_of_length_le ?_
            rw [List.length_append, hbefore, length_payload]
            omega
          · rw [hout, hchunk]
            rfl

/-- The loop of `send` with the header of the message `m` in the buffer. -/
theorem send_chunked (hs : s.Sound) (hlimit : s.bufsize ≤ limit)
    (hwhole : s.socket.TakesWhole limit) (m : Message) {h : ProtocolHeader} {size : UInt32}
    (hpay : (size + 24).toNat - 24 = m.payloadLen) (hh : m.payloadLen ≠ 0 → h = m.header)
    (dest : Option SockAddr) :
    Ends (do
        modify fun s => { s with buf := store s.buf 0 h.bytes }
        send h size m.isRequest dest)
      (fun _ s' => ∃ pieces, Chunked s.bufsize m.wire pieces ∧
        s'.socket.output = s.socket.output ++ pieces.map (dest, ·))
      (fun _ _ => True) s := by
  obtain ⟨hl, ht, -⟩ := store_header hs.length hs.room h
  simp only [ends_bind, ends_modify, send, ProtocolHeader.ofNat_size]
  generalize (size + 24).toNat = totalLen at hpay
  show Ends (sendLoop totalLen m.isRequest dest (totalLen + 1) 24 24 _) _ _ _
  by_cases hempty : m.payloadLen = 0
  · rw [sendLoop, if_neg (by omega), ends_pure]
    exact ⟨[], by rw [Message.wire, if_pos hempty]; rfl, by simp⟩
  · refine (sendLoop_chunked _ (s := { s with buf := store s.buf 0 h.bytes }) hl hs.room
      (by omega) hlimit hwhole).mono ?_ fun _ _ _ => trivial
    rintro _ s' ⟨pieces, hpieces, hout⟩
    refine ⟨pieces, ?_, hout⟩
    rw [ht, hpay, hh hempty] at hpieces
    rw [Message.wire, if_neg hempty]
    exact hpieces

theorem sendRequest_chunked (hs : s.Sound) (hlimit : s.bufsize ≤ limit)
    (hwhole : s.socket.TakesWhole limit) (seq : UInt64) {reqSize respSize : UInt32} :
    Ends (sendRequest seq reqSize respSize)
      (fun _ s' => ∃ pieces,
        Chunked s.bufsize (Message.request seq reqSize respSize).wire pieces ∧
        s'.socket.output = s.socket.output ++ pieces.map (none, ·))
      (fun _ _ => True) s := by
  by_cases hsizes : 24 ≤ reqSize ∧ (respSize = 0 ∨ 24 ≤ respSize)
  swap
  · exact (sendRequest_bug s seq hsizes).mono (fun _ _ he => he.elim) fun _ _ _ => trivial
  rw [sendRequest_eq seq hsizes.1 hsizes.2]
  exact send_chunked hs hlimit hwhole (Message.request seq reqSize respSize)
    (Message.request_payloadLen seq reqSize respSize) (fun _ => rfl) none

theorem sendResponse_chunked (hs : s.Sound) (hlimit : s.bufsize ≤ limit)
    (hwhole : s.socket.TakesWhole limit) (seq : UInt64) (respSize : UInt32) :
    Ends (sendResponse seq respSize dest)
      (fun _ s' => ∃ pieces, Chunked s.bufsize (Message.response seq respSize).wire pieces ∧
        s'.socket.output = s.socket.output ++ pieces.map (dest, ·))
      (fun _ _ => True) s := by
  refine send_chunked hs hlimit hwhole (Message.response seq respSize) rfl (fun h0 => ?_) dest
  refine (Message.header_response seq ?_).symm
  have : (respSize + 24).toNat - 24 ≠ 0 := h0
  show 24 ≤ (respSize + 24).toNat
  omega

end BabblerProtocol

end NetBabbler
