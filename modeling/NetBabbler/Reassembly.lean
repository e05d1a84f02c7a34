import NetBabbler.Datagrams

/-!
# Messages from datagrams

`receive_datagrams` is all that `receive` does from an empty buffer, under any kernel : the
header is in the first datagram, and the datagrams that the announced length spans
(`continuation`) are taken with it. `receive_chunked` : from a kernel that serves them, the
chunks of a message are put together again where each fits into the buffer, and
`receive_room` : from no kernel are they where one does not.
-/

namespace NetBabbler

open EStateM

namespace BabblerProtocol

variable {s : BabblerProtocol}

/-! ## Receiving under any kernel -/

/-- The datagrams that reads of at most `bufsize` bytes take until `n` bytes are there. -/
def spanned (bufsize : Nat) : Nat → List Datagram → List Datagram
  | 0, _ => []
  | _ + 1, [] => []
  | n + 1, (src, d) :: queue =>
    (src, d) :: spanned bufsize (n + 1 - (d.take (min (n + 1) bufsize)).length) queue

theorem recvInto_datagrams {queue : List Datagram} (hin : s.socket.input = .datagrams queue)
    {n len atleast : Nat} (hs : s.Sized n) (hlen : len ≤ n)
    (hfront : ∀ d ∈ queue.head?, max 1 atleast ≤ (d.2.take len).length) :
    Ends (recvInto len atleast)
      (fun k s' => ∃ out, k = out.length ∧ s.socket.Reading len queue out s'.socket ∧
        atleast ≤ out.length ∧ s'.Sized n ∧ s'.pBuf = s.pBuf ∧ s'.bufContentSize = k ∧
        s'.buf.take k = out)
      (fun _ _ => True) s := by
  simp only [recvInto, onSocket, updateReceiveStats, ends_bind, ends_zoom, ends_modify, ends_pure]
  refine ((Socket.recv_datagrams hin hfront).and (Socket.recv_length len atleast s.socket)).mono ?_
    fun _ _ _ => trivial
  rintro out sock ⟨⟨hread, hat⟩, hle⟩
  have hstore : 0 + out.length ≤ s.buf.length := by
    rw [hs.length]
    omega
  refine ⟨out, rfl, hread, hat, ⟨hs.bufsize, (length_store hstore).trans hs.length⟩, trivial,
    trivial, ?_⟩
  simpa using take_store (Nat.zero_le s.buf.length) out

/-- The loop of `receive` takes the datagrams that the missing bytes span. -/
theorem receiveRest_datagrams (incr : Bool) {bufsize : Nat} (hpos : 0 < bufsize) :
    ∀ (fuel n : Nat) (v : UInt8) {s : BabblerProtocol} {queue : List Datagram}, s.Sized bufsize →
      s.socket.input = .datagrams queue → (∀ d ∈ queue, d.2 ≠ []) →
      Ends (receiveRest incr fuel n v)
        (fun t s' => t = 0 ∧ s'.Sized bufsize ∧ n ≤ (queue.flatMap Prod.snd).length ∧
          (∃ rest, queue = spanned bufsize n queue ++ rest ∧ s'.socket.input = .datagrams rest) ∧
          (s'.socket.peer = s.socket.peer ∨
            ∃ d ∈ spanned bufsize n queue, s'.socket.peer = some d.1))
        (fun _ _ => True) s
  | 0, _, _, _, _, _, _, _ => by
    rw [receiveRest, ends_throw]
    trivial
  | fuel + 1, 0, v, s, queue, hs, hin, _ => by
    rw [receiveRest_neg incr fuel (by simp)]
    exact ⟨rfl, hs, Nat.zero_le _, ⟨queue, by simp [spanned], hin⟩, .inl rfl⟩
  | fuel + 1, n + 1, v, s, queue, hs, hin, hne => by
    have hmore : ((n + 1 : Nat) : Int) > 0 := by omega
    simp only [receiveRest, if_pos hmore, ends_bind, ends_get, Int.toNat_natCast, hs.bufsize]
    have hfront : ∀ d ∈ queue.head?, max 1 0 ≤ (d.2.take (min (n + 1) bufsize)).length := by
      intro d hd
      have := List.length_pos_iff.mpr (hne d (List.mem_of_mem_head? hd))
      rw [List.length_take]
      omega
    refine (recvInto_datagrams hin hs (Nat.min_le_right _ _) hfront).mono ?_ fun _ _ _ => trivial
    rintro k s₁ ⟨out, rfl, hread, -, hs₁, -⟩
    refine (checkPayload_frame _ _ _ _).mono ?_ fun _ _ _ => trivial
    rintro v' _ rfl
    rcases hread with ⟨rfl, hin₁, hpeer₁⟩ | ⟨src, d, rest, rfl, rfl, hin₁, hpeer₁⟩
    · rw [List.length_nil, Nat.cast_zero, Int.sub_zero]
      have hrec := receiveRest_datagrams incr hpos fuel (n + 1) v' hs₁ hin₁ hne
      rwa [hpeer₁] at hrec
    · have hk : (d.take (min (n + 1) bufsize)).length ≤ n + 1 := by
        rw [List.length_take]
        omega
      have hd : (d.take (min (n + 1) bufsize)).length ≤ d.length := by
        rw [List.length_take]
        omega
      rw [show ((n + 1 : Nat) : Int) - ((d.take (min (n + 1) bufsize)).length : Nat) =
        ((n + 1 - (d.take (min (n + 1) bufsize)).length : Nat) : Int) by omega]
      refine (receiveRest_datagrams incr hpos fuel _ v' hs₁ hin₁ fun p hp =>
        hne p (List.mem_cons_of_mem _ hp)).mono ?_ fun _ _ _ => trivial
      rintro t s₂ ⟨rfl, hs₂, hle, ⟨rest', hrest, hin₂⟩, hpeer₂⟩
      refine ⟨rfl, hs₂, ?_, ⟨rest', ?_, hin₂⟩, .inr ?_⟩
      · show n + 1 ≤ (d ++ rest.flatMap Prod.snd).length
        rw [List.length_append]
        omega
      · rw [spanned, List.cons_append, ← hrest]
      · rw [spanned]
        rcases hpeer₂ with hpeer₂ | ⟨p, hp, hpeer₂⟩
        · exact ⟨(src, d), List.mem_cons_self, hpeer₂.trans hpeer₁⟩
        · exact ⟨p, List.mem_cons_of_mem _ hp, hpeer₂⟩

/-- The datagrams that a `receive` of at most `bufsize` bytes a read takes after `d`, which the
header is in. -/
def continuation (bufsize : Nat) (d : List UInt8) (queue : List Datagram) : List Datagram :=
  spanned bufsize ((ProtocolHeader.ofBytes d).length.toNat - (d.take bufsize).length) queue

/-- From `s`, `receive` took the datagram `(src, d)` and what continues it in `queue`, which left
`s'`. -/
structure Assembled (s : BabblerProtocol) (src : SockAddr) (d : List UInt8)
    (queue : List Datagram) (s' : BabblerProtocol) : Prop where
  tested : Tested (ProtocolHeader.ofBytes d)
  bufsize : s'.bufsize = s.bufsize
  enough : (ProtocolHeader.ofBytes d).length.toNat ≤
    (d.take s.bufsize).length + (queue.flatMap Prod.snd).length
  input : ∃ rest, queue = continuation s.bufsize d queue ++ rest ∧
    s'.socket.input = .datagrams rest
  peer : s'.socket.peer = some src ∨
    ∃ p ∈ continuation s.bufsize d queue, s'.socket.peer = some p.1
  emptied : (d.take s.bufsize).length ≤ (ProtocolHeader.ofBytes d).length.toNat →
    s'.bufContentSize = 0

/-- From an empty buffer the header is taken from the first datagram. -/
theorem receiveHeader_datagrams (hs : s.Sound) (hempty : s.bufContentSize = 0)
    {queue : List Datagram} (hin : s.socket.input = .datagrams queue)
    (hfront : ∀ d ∈ queue.head?, 24 ≤ d.2.length) :
    Ends receiveHeader
      (fun r s' => ∃ src d rest, queue = (src, d) :: rest ∧
        r = (ProtocolHeader.ofBytes d, (d.take s.bufsize).length) ∧
        Tested (ProtocolHeader.ofBytes d) ∧ s'.Sized s.bufsize ∧
        s'.socket.input = .datagrams rest ∧ s'.socket.peer = some src)
      (fun _ _ => True) s := by
  have hroom := hs.room
  have hlong : ∀ d ∈ queue.head?, max 1 ProtocolHeader.size ≤ (d.2.take s.bufsize).length := by
    intro d hd
    have := hfront d hd
    rw [List.length_take]
    show max 1 24 ≤ _
    omega
  simp only [receiveHeader, rcvLen, headerAt, ends_bind, ends_get, ends_ite, ends_pure, ends_bugOn,
    ends_throwIf, if_pos hempty]
  refine (recvInto_datagrams hin hs.sized le_rfl hlong).mono ?_ fun _ _ _ => trivial
  rintro k s₁ ⟨out, rfl, hread, hat, hsized, hp, hcontent, htake⟩
  have hunread : s₁.unread = out := by
    rw [unread, hp, hs.empty hempty, hcontent, List.drop_zero, htake]
  rcases hread with ⟨rfl, -⟩ | ⟨src, d, rest, rfl, rfl, hin₁, hpeer₁⟩
  · exact absurd hat (by decide)
  have hheader : ProtocolHeader.ofBytes (d.take s.bufsize) = ProtocolHeader.ofBytes d := by
    have := ProtocolHeader.ofBytes_append hat (d.drop s.bufsize)
    rwa [List.take_append_drop, eq_comm] at this
  rw [hunread, hheader]
  split_ifs with hshort hsum htype
  refine ⟨src, d, rest, rfl, rfl, ⟨by simpa using hsum, ?_⟩, hsized, hin₁, hpeer₁⟩
  tauto

/-- All that `receive` does from an empty buffer on datagrams, the first of which is as long as a
header. -/
theorem receive_datagrams (hs : s.Sound) (hempty : s.bufContentSize = 0)
    {queue : List Datagram} (hin : s.socket.input = .datagrams queue)
    (hfront : ∀ d ∈ queue.head?, 24 ≤ d.2.length) (hne : ∀ d ∈ queue, d.2 ≠ []) :
    Ends receive
      (fun r s' => ∃ src d rest, queue = (src, d) :: rest ∧
        r = ((ProtocolHeader.ofBytes d).isRequest, (ProtocolHeader.ofBytes d).options,
          (ProtocolHeader.ofBytes d).seq) ∧
        s.Assembled src d rest s')
      (fun _ _ => True) s := by
  have hroom := hs.room
  simp only [receive, updateReceiveStats, receivePayload, ends_bind, ends_get, ends_modify,
    ends_pure]
  refine (receiveHeader_datagrams hs hempty hin hfront).mono ?_ fun _ _ _ => trivial
  rintro _ s₁ ⟨src, d, rest, rfl, rfl, htested, hsized, hin₁, hpeer₁⟩
  dsimp only
  refine (checkPayload_frame _ _ _ _).mono ?_ fun _ _ _ => trivial
  rintro v _ rfl
  rcases Nat.lt_or_ge (ProtocolHeader.ofBytes d).length.toNat (d.take s.bufsize).length
    with hlt | hge
  · have hspan : continuation s.bufsize d rest = [] := by
      rw [continuation, Nat.sub_eq_zero_of_le (Nat.le_of_lt hlt), spanned]
    rw [receiveRest_neg _ _ (by omega), consume, if_pos (by omega)]
    simp only [ends_bind, ends_modify, ends_get, ends_bugOn]
    split_ifs
    refine ⟨src, d, rest, rfl, rfl, htested, hsized.bufsize, by omega,
      ⟨rest, by rw [hspan]; rfl, hin₁⟩, .inl hpeer₁, fun hle => ?_⟩
    omega
  · have hmissing : ((ProtocolHeader.ofBytes d).length.toNat : Int) -
        ((d.take s.bufsize).length : Nat) =
        (((ProtocolHeader.ofBytes d).length.toNat - (d.take s.bufsize).length : Nat) : Int) := by
      omega
    rw [hmissing]
    refine (receiveRest_datagrams _ (by omega) _ _ _ hsized hin₁ fun p hp =>
      hne p (List.mem_cons_of_mem _ hp)).mono ?_ fun _ _ _ => trivial
    rintro t s₂ ⟨rfl, hsized₂, hle, hinput, hpeer₂⟩
    rw [consume, if_neg (by omega), ends_modify]
    rw [hpeer₁] at hpeer₂
    exact ⟨src, d, rest, rfl, rfl, htested, hsized₂.bufsize, by omega, hinput, hpeer₂,
      fun _ => rfl⟩

/-! ## Receiving from a kernel that serves datagrams -/

theorem recvInto_serves_datagram {src : SockAddr} {d : List UInt8} {rest : List Datagram}
    (hin : s.socket.input = .datagrams ((src, d) :: rest)) {n len atleast k : Nat}
    (hs : s.Sized n) (hlen : len ≤ n) (hd : d.length ≤ len) (hd' : max 1 atleast ≤ d.length)
    (hserves : s.socket.Serves (k + 1)) :
    Ends (recvInto len atleast)
      (fun j s' => j = d.length ∧ s.socket.Takes src rest k s'.socket ∧ s'.Sized n ∧
        s'.pBuf = s.pBuf ∧ s'.bufContentSize = d.length ∧ s'.buf.take d.length = d)
      (fun _ _ => False) s := by
  have htake : d.take len = d := List.take_of_length_le hd
  simp only [recvInto, onSocket, updateReceiveStats, ends_bind, ends_zoom, ends_modify, ends_pure]
  refine (Socket.recv_serves_datagram hin (htake.symm ▸ hd') hserves).mono ?_ fun _ _ he => he
  rintro out sock ⟨rfl, htakes⟩
  rw [htake]
  have hstore : 0 + d.length ≤ s.buf.length := by
    rw [hs.length]
    omega
  refine ⟨rfl, htakes, ⟨hs.bufsize, (length_store hstore).trans hs.length⟩, trivial, rfl, ?_⟩
  simpa using take_store (Nat.zero_le s.buf.length) d

/-- The loop of `receive` puts the chunks of a payload together, where each fits into the
buffer. -/
theorem receiveRest_chunked (incr : Bool) {bufsize cut : Nat} {src : SockAddr} {k : Nat}
    (hcut : 0 < cut) :
    ∀ (pieces : List (List UInt8)) (fuel n : Nat) (v : UInt8) {s : BabblerProtocol},
      s.Sized bufsize → Chunked cut (payload incr v n) pieces → min n cut ≤ bufsize →
      s.socket.input = .datagrams (pieces.map (src, ·)) → s.socket.peer = some src →
      s.socket.Serves (k + pieces.length) → pieces.length < fuel →
      Ends (receiveRest incr fuel n v)
        (fun t s' => t = 0 ∧ s.socket.Takes src [] k s'.socket ∧ s'.Sized bufsize)
        (fun _ _ => False) s
  | [], fuel, n, v, s, hs, hchunked, _, hin, hpeer, hserves, hfuel => by
    have hn : n = 0 := by
      rw [← length_payload incr v n, show payload incr v n = [] from hchunked, List.length_nil]
    obtain ⟨fuel, rfl⟩ : ∃ j, fuel = j + 1 := ⟨fuel - 1, by omega⟩
    rw [hn, receiveRest_neg incr fuel (by simp)]
    exact ⟨rfl, ⟨hin, hpeer, rfl, rfl, hserves⟩, hs⟩
  | piece :: pieces, fuel, n, v, s, hs, hchunked, hfit, hin, hpeer, hserves, hfuel => by
    obtain ⟨hne, hpiece, hrest⟩ := hchunked
    have hn : 0 < n := by
      rw [← length_payload incr v n]
      exact List.length_pos_iff.mpr hne
    rw [take_payload] at hpiece
    have hlen : piece.length = min cut n := by rw [hpiece, length_payload]
    rw [drop_payload, ← hlen] at hrest
    obtain ⟨fuel, rfl⟩ : ∃ j, fuel = j + 1 := ⟨fuel - 1, by omega⟩
    have hmore : (n : Int) > 0 := by omega
    simp only [receiveRest, if_pos hmore, ends_bind, ends_get, Int.toNat_natCast, hs.bufsize]
    refine (recvInto_serves_datagram hin hs (Nat.min_le_right _ _) (by omega) (by omega)
      hserves).mono ?_ fun _ _ he => he
    rintro _ s₁ ⟨rfl, htakes, hs₁, -, -, htake⟩
    rw [htake]
    refine (checkPayload_spec incr piece piece.length v s₁).mono ?_ ?_
    · rintro v' _ ⟨rfl, -, -, rfl⟩
      rw [show (n : Int) - (piece.length : Nat) = ((n - cut : Nat) : Int) by omega]
      refine (receiveRest_chunked incr hcut pieces fuel (n - cut) _ hs₁ hrest (by omega)
        htakes.input htakes.peer htakes.serves (by simpa using hfuel)).mono ?_ fun _ _ he => he
      rintro t s₂ ⟨rfl, htakes', hs₂⟩
      exact ⟨rfl, ⟨htakes'.input, htakes'.peer, htakes'.output.trans htakes.output,
        htakes'.sendtos.trans htakes.sendtos, htakes'.serves⟩, hs₂⟩
    · rintro f _ ⟨-, ⟨-, hnot⟩ | ⟨-, hlt⟩⟩
      · refine hnot ?_
        rw [List.take_length, hlen, ← hpiece]
      · omega

/-- The first datagram of the message `m` that fits into the empty buffer. -/
theorem receiveHeader_chunked (hs : s.Sound) (hempty : s.bufContentSize = 0) {m : Message}
    {src : SockAddr} {d : List UInt8} {rest : List Datagram} {k : Nat}
    (hin : s.socket.input = .datagrams ((src, d) :: rest)) (hm : d <+: m.encode)
    (h24 : 24 ≤ d.length) (hfit : d.length ≤ s.bufsize) (hserves : s.socket.Serves (k + 1)) :
    Ends receiveHeader
      (fun r s' => r = (m.header, d.length) ∧ s.socket.Takes src rest k s'.socket ∧
        s'.Sized s.bufsize ∧ s'.unread = d)
      (fun _ _ => False) s := by
  have hacc := m.acceptable_header
  have hheader : ProtocolHeader.ofBytes d = m.header := Message.Matches.header (.inr hm) h24
  simp only [receiveHeader, rcvLen, headerAt, ends_bind, ends_get, ends_ite, ends_pure, ends_bugOn,
    ends_throwIf, if_pos hempty]
  refine (recvInto_serves_datagram hin hs.sized le_rfl hfit (show max 1 24 ≤ _ by omega)
    hserves).mono ?_ fun _ _ he => he
  rintro _ s₁ ⟨rfl, htakes, hsized, hp, hcontent, htake⟩
  have hunread : s₁.unread = d := by
    rw [unread, hp, hs.empty hempty, hcontent, List.drop_zero, htake]
  have hshort : ¬d.length < ProtocolHeader.size := by
    show ¬d.length < 24
    omega
  have htype : ¬(¬m.header.isRequest = true ∧ ¬m.header.isResponse = true) := fun h =>
    hacc.2.1.elim h.1 h.2
  rw [hunread, hheader, if_neg hshort, if_neg hshort, if_neg (by simp), if_neg htype]
  exact ⟨rfl, htakes, hsized, rfl⟩

/-- `receive` puts the chunks of a message together, where each fits into the buffer. -/
theorem receive_chunked (hs : s.Sound) (hempty : s.bufContentSize = 0) {m : Message}
    {src : SockAddr} {pieces : List (List UInt8)} {cut k : Nat} (h24 : 24 < cut)
    (hchunked : Chunked cut m.encode pieces) (hfit : min m.encode.length cut ≤ s.bufsize)
    (hin : s.socket.input = .datagrams (pieces.map (src, ·)))
    (hserves : s.socket.Serves (k + pieces.length)) :
    Ends receive
      (fun r s' => r = (m.isRequest, m.options, m.seq) ∧ s.socket.Takes src [] k s'.socket ∧
        s'.bufContentSize = 0 ∧ s'.bufsize = s.bufsize)
      (fun _ _ => False) s := by
  have hlong := Message.length_encode m
  have hfits := m.fits
  have hunsigned := hs.unsigned
  rcases pieces with _ | ⟨piece, pieces⟩
  · rw [show m.encode = [] from hchunked, List.length_nil] at hlong
    omega
  obtain ⟨-, hpiece, hrest⟩ := hchunked
  have hlen : piece.length = min cut (24 + m.payloadLen) := by
    rw [hpiece, List.length_take, hlong]
  have hpre : piece <+: m.encode := hpiece ▸ List.take_prefix _ _
  simp only [receive, updateReceiveStats, receivePayload, ProtocolHeader.ofNat_size,
    ProtocolHeader.size, ends_bind, ends_get, ends_modify, ends_pure]
  refine (receiveHeader_chunked hs hempty hin hpre (by omega) (by omega) hserves).mono ?_
    fun _ _ he => he
  rintro _ s₁ ⟨rfl, htakes, hsized, hunread⟩
  obtain ⟨j, hj⟩ : ∃ j, j = piece.length - 24 := ⟨_, rfl⟩
  have hpayload : piece.drop 24 = payload m.isRequest m.seq.toUInt8 j := by
    rw [hpiece, List.drop_take, m.drop_encode, take_payload]
    congr 1
    omega
  have hdrop : m.encode.drop cut = payload m.isRequest
      ((count m.isRequest)^[j] m.seq.toUInt8) (m.payloadLen - j) := by
    rw [show cut = 24 + (cut - 24) by omega, ← List.drop_drop, m.drop_encode, drop_payload,
      show min (cut - 24) m.payloadLen = j by omega,
      show m.payloadLen - (cut - 24) = m.payloadLen - j by omega]
  dsimp only
  rw [toNat_payloadLen (by omega) (by omega), if_pos (by simp), Message.header_length,
    Message.header_isRequest, Message.header_seq, hunread, hpayload,
    show min (m.payloadLen + 24) piece.length - 24 = j by omega]
  refine (checkPayload_spec _ _ _ _ s₁).mono ?_ ?_
  · rintro v _ ⟨rfl, -, -, rfl⟩
    have hpolls : k + pieces.length ≤ _ := htakes.serves.enough
    rw [show ((m.payloadLen + 24 : Nat) : Int) - (piece.length : Nat) =
      ((m.payloadLen - j : Nat) : Int) by omega]
    refine (receiveRest_chunked m.isRequest (by omega) pieces _ _ _ hsized (hdrop ▸ hrest)
      (by omega) htakes.input htakes.peer htakes.serves (by omega)).mono ?_ fun _ _ he => he
    rintro t s₂ ⟨rfl, htakes', hsized'⟩
    rw [consume, if_neg (by omega), ends_modify]
    exact ⟨by simp, ⟨htakes'.input, htakes'.peer, htakes'.output.trans htakes.output,
      htakes'.sendtos.trans htakes.sendtos, htakes'.serves⟩, rfl, hsized'.bufsize⟩
  · rintro f _ ⟨-, ⟨-, hnot⟩ | ⟨-, hlt⟩⟩
    · refine hnot ?_
      rw [List.take_of_length_le (by rw [length_payload])]
    · rw [length_payload] at hlt
      omega

/-- A `receive` that returned from the chunks of a message had room for each of them. -/
theorem receive_room (hs : s.Sound) (hempty : s.bufContentSize = 0) {m : Message}
    {src : SockAddr} {pieces : List (List UInt8)} {cut : Nat} (h24 : 24 < cut)
    (hchunked : Chunked cut m.encode pieces)
    (hin : s.socket.input = .datagrams (pieces.map (src, ·))) :
    Ends receive (fun _ _ => min m.encode.length cut ≤ s.bufsize) (fun _ _ => True) s := by
  have hlong := Message.length_encode m
  have hpos := hchunked.length (by omega)
  rcases pieces with _ | ⟨piece, pieces⟩
  · rw [show m.encode = [] from hchunked, List.length_nil] at hlong
    omega
  obtain ⟨-, hpiece, hrest⟩ := hchunked
  have hlen : piece.length = min cut (24 + m.payloadLen) := by
    rw [hpiece, List.length_take, hlong]
  have hpre : piece <+: m.encode := hpiece ▸ List.take_prefix _ _
  have hheader : ProtocolHeader.ofBytes piece = m.header :=
    Message.Matches.header (.inr hpre) (by omega)
  refine (receive_datagrams hs hempty hin ?_ ?_).mono ?_ fun _ _ _ => trivial
  · intro d hd
    obtain rfl : (src, piece) = d := Option.some.inj hd
    show 24 ≤ piece.length
    omega
  · intro d hd
    obtain ⟨p, hp, rfl⟩ := List.mem_map.mp hd
    exact List.ne_nil_of_length_pos (hpos p hp).1
  · rintro _ s' ⟨_, _, _, hqueue, -, hassembled⟩
    cases hqueue
    have henough := hassembled.enough
    have hbytes : (pieces.map fun bs => (src, bs)).flatMap Prod.snd = pieces.flatten := by
      rw [List.flatMap_map]
      exact List.flatMap_id
    rw [hheader, Message.header_length, List.length_take, hbytes, hrest.flatten, List.length_drop,
      hlong] at henough
    omega

end BabblerProtocol

end NetBabbler
