import NetBabbler.LockStep
import NetBabbler.Reassembly

/-!
# Messages in one datagram each

What the calls of both ends do to messages that are one datagram each and fit into the
buffers, under any kernel. A `receive` takes the first datagram of the queue and finds the
message, or fails in the socket and leaves no more than that datagram behind
(`receive_unfragmented`). A message is sent in one datagram or not at all
(`sendRequest_unfragmented`, `sendResponse_unfragmented`).
-/

namespace NetBabbler

open EStateM

/-! ## One read -/

namespace Socket

/-- A read of a queue that took its first datagram. -/
structure Took (s : Socket) (queue : List Datagram) (out : List UInt8) (s' : Socket) : Prop where
  front : ∃ src rest, queue = (src, out) :: rest ∧ s'.input = .datagrams rest ∧
    s'.peer = some src
  output : s'.output = s.output

/-- A read of a queue that failed, perhaps after it took the first datagram. -/
structure Left (s : Socket) (queue : List Datagram) (s' : Socket) : Prop where
  input : s'.input = .datagrams queue ∨ s'.input = .datagrams queue.tail
  output : s'.output = s.output

/-- The kernel hands over a datagram at the next `poll`. -/
def HandsOver (polls : List Poll) : Prop :=
  ∃ n rest, polls = .ready ⟨false, some (.data n), false⟩ :: rest

/-- A `recvfrom` takes the first datagram whole, or nothing. -/
theorem recvfrom_unfragmented {s : Socket} {queue : List Datagram}
    (hin : s.input = .datagrams queue) {len : Nat}
    (hfront : ∀ d ∈ queue.head?, 24 ≤ d.2.length ∧ d.2.length ≤ len) (answer : Recvfrom) :
    (∃ d, (recvfrom len answer s).1 = some d ∧ d ≠ [] ∧
        s.Took queue d (recvfrom len answer s).2) ∨
      (recvfrom len answer s).1.getD [] = [] ∧
        (recvfrom len answer s).2.input = .datagrams queue ∧
        (recvfrom len answer s).2.output = s.output ∧
        (queue ≠ [] → ∀ n, answer ≠ .data n) := by
  cases answer with
  | data n =>
    rw [recvfrom, hin]
    rcases queue with _ | ⟨⟨src, d⟩, rest⟩
    · exact .inr ⟨rfl, rfl, rfl, fun h => absurd rfl h⟩
    · obtain ⟨h24, hlen⟩ : 24 ≤ d.length ∧ d.length ≤ len := hfront (src, d) rfl
      rw [Channel.take, List.take_of_length_le hlen]
      exact .inl ⟨d, rfl, List.ne_nil_of_length_pos (by omega), ⟨src, rest, rfl, rfl, rfl⟩, rfl⟩
  | wouldBlock => exact .inr ⟨rfl, hin, rfl, fun _ _ => by simp⟩
  | shutdown => exact .inr ⟨rfl, hin, rfl, fun _ _ => by simp⟩
  | error err => exact .inr ⟨rfl, hin, rfl, fun _ _ => by simp⟩

theorem recvReady_unfragmented {s : Socket} {queue : List Datagram}
    (hin : s.input = .datagrams queue) {len : Nat}
    (hfront : ∀ d ∈ queue.head?, 24 ≤ d.2.length ∧ d.2.length ≤ len) (answer : Option Recvfrom) :
    Ends (recvReady len [] answer)
      (fun out s' => s.Took queue out s' ∨
        out = [] ∧ s'.input = .datagrams queue ∧ s'.output = s.output ∧
          (queue ≠ [] → ∀ n, answer ≠ some (.data n)))
      (fun f s' => f.OfSocket ∧ s'.input = .datagrams queue ∧ s'.output = s.output ∧
        (queue ≠ [] → ∀ n, answer ≠ some (.data n))) s := by
  rcases answer with _ | answer
  · rw [recvReady, ends_pure]
    exact .inr ⟨rfl, hin, rfl, fun _ _ => by simp⟩
  · rw [ends_recvReady]
    dsimp only
    rw [List.length_nil, Nat.sub_zero, List.nil_append]
    rcases recvfrom_unfragmented hin hfront answer with
      ⟨d, hd, hne, htook⟩ | ⟨hnil, hin', hout, hnone⟩
    · rw [hd, Option.getD_some, if_neg (fun h => hne h.1)]
      exact .inl htook
    · have hnone' : queue ≠ [] → ∀ n, some answer ≠ some (.data n) :=
        fun hne n h => hnone hne n (Option.some.inj h)
      split
      · exact ⟨trivial, hin', hout, hnone'⟩
      · exact .inr ⟨hnil, hin', hout, hnone'⟩

theorem recvLoop_unfragmented {queue : List Datagram} {len : Nat}
    (hfront : ∀ d ∈ queue.head?, 24 ≤ d.2.length ∧ d.2.length ≤ len) :
    ∀ (polls : List Poll) {s : Socket}, s.input = .datagrams queue →
      Ends (recvLoop len 24 [] polls) (fun out s' => s.Took queue out s')
        (fun f s' => f.OfSocket ∧ s.Left queue s' ∧ (queue ≠ [] → ¬HandsOver polls)) s
  | [], s, hin => by
    rw [recvLoop, ends_throw]
    refine ⟨trivial, ⟨.inl hin, rfl⟩, ?_⟩
    rintro - ⟨n, rest, hpolls⟩
    cases hpolls
  | poll :: polls, s, hin => by
    simp only [recvLoop, ends_bind, ends_modify]
    rcases poll with err | _ | revents
    · simp only [ends_bind, ends_modify, ends_throw]
      refine ⟨trivial, ⟨.inl hin, rfl⟩, ?_⟩
      rintro - ⟨n, rest, hpolls⟩
      cases hpolls
    · rw [ends_throw]
      refine ⟨trivial, ⟨.inl hin, rfl⟩, ?_⟩
      rintro - ⟨n, rest, hpolls⟩
      cases hpolls
    · simp only [ends_bind, ends_throwIf]
      by_cases hup : revents.hangup = true
      · rw [if_pos hup]
        refine ⟨trivial, ⟨.inl hin, rfl⟩, ?_⟩
        rintro - ⟨n, rest, hpolls⟩
        cases hpolls
        cases hup
      rw [if_neg hup]
      refine (recvReady_unfragmented (s := { s with polls := polls }) hin hfront
        revents.input).mono ?_ ?_
      · rintro out s' (htook | ⟨rfl, hin', hout, hnone⟩)
        · have hlong : ¬out.length < 24 := by
            obtain ⟨⟨src, rest, rfl, -⟩, -⟩ := htook
            have := (hfront (src, out) rfl).1
            simp only at this
            omega
          by_cases hcancel : revents.cancel = true
          · rw [if_pos hcancel]
            obtain ⟨⟨src, rest, rfl, hin', -⟩, hout⟩ := htook
            refine ⟨trivial, ⟨.inr hin', hout⟩, ?_⟩
            rintro - ⟨n, rest, hpolls⟩
            cases hpolls
            cases hcancel
          · rw [if_neg hcancel, ends_ite, if_neg hlong, ends_pure]
            exact ⟨htook.front, htook.output⟩
        · have hno : queue ≠ [] → ¬HandsOver (.ready revents :: polls) := by
            rintro hne ⟨n, rest, hpolls⟩
            cases hpolls
            exact hnone hne n rfl
          by_cases hcancel : revents.cancel = true
          · rw [if_pos hcancel]
            exact ⟨trivial, ⟨.inl hin', hout⟩, hno⟩
          · rw [if_neg hcancel, ends_ite, if_pos (by simp)]
            refine (recvLoop_unfragmented hfront polls hin').mono ?_ ?_
            · exact fun out s'' h => ⟨h.front, h.output.trans hout⟩
            · exact fun f s'' h => ⟨h.1, ⟨h.2.1.input, h.2.1.output.trans hout⟩, hno⟩
      · rintro f s' ⟨hf, hin', hout, hnone⟩
        refine ⟨hf, ⟨.inl hin', hout⟩, ?_⟩
        rintro hne ⟨n, rest, hpolls⟩
        cases hpolls
        exact hnone hne n rfl

/-- A `recv` of a header's length at least takes the first datagram. -/
theorem recv_unfragmented {s : Socket} {queue : List Datagram} (hin : s.input = .datagrams queue)
    {len : Nat} (hlen : 24 ≤ len)
    (hfront : ∀ d ∈ queue.head?, 24 ≤ d.2.length ∧ d.2.length ≤ len) :
    Ends (recv len 24) (fun out s' => s.Took queue out s')
      (fun f s' => f.OfSocket ∧ s.Left queue s' ∧ (queue ≠ [] → ¬HandsOver s.polls)) s := by
  simp only [recv, ends_bind, ends_bugOn, ends_get]
  rw [if_neg (by omega)]
  exact recvLoop_unfragmented hfront s.polls hin

end Socket

namespace BabblerProtocol

variable {s s' : BabblerProtocol} {m : Message} {limit : Nat} {queue : List Datagram}

/-! ## Receiving -/

/-- Nothing is buffered at this end, and the buffer has room for `limit` bytes. -/
structure Rested (limit : Nat) (s : BabblerProtocol) : Prop where
  sound : s.Sound
  buffered : s.bufContentSize = 0
  room : limit ≤ s.bufsize
  output : s.socket.output = []

theorem rested_init {socket : Socket} {buf : List UInt8} (h64 : 64 ≤ buf.length)
    (hbuf : buf.length < 2 ^ 32) (hlimit : limit ≤ buf.length) (hout : socket.output = []) :
    (init socket buf).Rested limit :=
  ⟨sound_init h64 hbuf, rfl, hlimit, hout⟩

/-- What does not reach the buffer leaves an end at rest. -/
theorem Rested.elsewhere (h : s.Rested limit) {socket : Socket} (stats : Stats)
    (hout : socket.output = []) : { s with socket := socket, stats := stats }.Rested limit :=
  ⟨h.sound.elsewhere _ _, h.buffered, h.room, hout⟩

/-- The first datagram is a message that fits into `limit` bytes. -/
def Fronted (limit : Nat) (queue : List Datagram) : Prop :=
  ∀ d ∈ queue.head?, ∃ m : Message, d.2 = m.encode ∧ d.2.length ≤ limit

theorem Fronted.length (h : Fronted limit queue) {n : Nat} (hn : limit ≤ n) :
    ∀ d ∈ queue.head?, 24 ≤ d.2.length ∧ d.2.length ≤ n := by
  intro d hd
  obtain ⟨m, hm, hle⟩ := h d hd
  refine ⟨?_, hle.trans hn⟩
  rw [hm, Message.length_encode]
  omega

/-- The failure of a call that receives from `queue`. -/
def Failed (s : BabblerProtocol) (queue : List Datagram) (f : Fault) (s' : BabblerProtocol) :
    Prop :=
  f.OfSocket ∧ s.socket.Left queue s'.socket ∧ (queue ≠ [] → ¬Socket.HandsOver s.socket.polls)

theorem recvInto_unfragmented (hs : s.Rested limit) (hin : s.socket.input = .datagrams queue)
    (hfront : Fronted limit queue) :
    Ends (recvInto s.bufsize ProtocolHeader.size)
      (fun k s' => ∃ d, k = d.length ∧ s.socket.Took queue d s'.socket ∧ s'.Sized s.bufsize ∧
        s'.unread = d ∧ d.length ≤ limit)
      (s.Failed queue) s := by
  have hroom := hs.sound.room
  simp only [recvInto, onSocket, updateReceiveStats, ends_bind, ends_zoom, ends_modify, ends_pure]
  refine (Socket.recv_unfragmented hin (by omega) (hfront.length hs.room)).mono ?_
    fun _ _ he => he
  rintro d sock ⟨⟨src, rest, rfl, hin', hpeer⟩, hout⟩
  obtain ⟨-, -, hle⟩ := hfront (src, d) rfl
  have hle' : d.length ≤ limit := hle
  have hroom' := hs.room
  have hlen : s.buf.length = s.bufsize := hs.sound.length
  refine ⟨d, rfl, ⟨⟨src, rest, rfl, hin', hpeer⟩, hout⟩, ⟨rfl, ?_⟩, ?_, hle'⟩
  · exact (length_store (by omega)).trans hlen
  · rw [unread, hs.sound.empty hs.buffered, List.drop_zero]
    have htake := take_store (Nat.zero_le s.buf.length) d
    rwa [Nat.zero_add, List.take_zero, List.nil_append] at htake

theorem receiveHeader_unfragmented (hs : s.Rested limit)
    (hin : s.socket.input = .datagrams queue) (hfront : Fronted limit queue) :
    Ends receiveHeader
      (fun r s' => ∃ m : Message, r = (m.header, m.encode.length) ∧
        s.socket.Took queue m.encode s'.socket ∧ s'.Sized s.bufsize ∧ s'.unread = m.encode ∧
        m.encode.length ≤ limit)
      (s.Failed queue) s := by
  simp only [receiveHeader, rcvLen, headerAt, ends_bind, ends_get, ends_ite, ends_pure, ends_bugOn,
    ends_throwIf, if_pos hs.buffered]
  refine (recvInto_unfragmented hs hin hfront).mono ?_ fun _ _ he => he
  rintro _ s₁ ⟨d, rfl, htook, hsized, hunread, hle⟩
  obtain ⟨m, rfl⟩ : ∃ m : Message, d = m.encode := by
    obtain ⟨⟨src, rest, rfl, -⟩, -⟩ := htook
    obtain ⟨m, hm, -⟩ := hfront (src, d) rfl
    exact ⟨m, hm⟩
  have hacc := m.acceptable_header
  have hheader : ProtocolHeader.ofBytes m.encode = m.header :=
    Message.ofBytes_of_isPrefix (List.prefix_refl _)
  have hshort : ¬m.encode.length < ProtocolHeader.size := by
    rw [Message.length_encode]
    show ¬24 + _ < 24
    omega
  have htype : ¬(¬m.header.isRequest = true ∧ ¬m.header.isResponse = true) := fun h =>
    hacc.2.1.elim h.1 h.2
  rw [hunread, hheader, if_neg hshort, if_neg hshort, if_neg (by simp), if_neg htype]
  exact ⟨m, rfl, htook, hsized, rfl, hle⟩

/-- `receive` takes the first datagram and the message that it is, or fails in the socket. -/
theorem receive_unfragmented (hs : s.Rested limit) (hin : s.socket.input = .datagrams queue)
    (hfront : Fronted limit queue) :
    Ends receive
      (fun r s' => s'.Rested limit ∧ ∃ m : Message, r = (m.isRequest, m.options, m.seq) ∧
        s.socket.Took queue m.encode s'.socket)
      (s.Failed queue) s := by
  simp only [receive, updateReceiveStats, receivePayload, ProtocolHeader.ofNat_size,
    ProtocolHeader.size, ends_bind, ends_get, ends_modify, ends_pure]
  refine (receiveHeader_unfragmented hs hin hfront).mono ?_ fun _ _ he => he
  rintro _ s₁ ⟨m, rfl, htook, hsized, hunread, hle⟩
  have hlong := Message.length_encode m
  have hfits := m.fits
  dsimp only
  rw [toNat_payloadLen (by omega) (by omega), if_pos (by simp), Message.header_length,
    Message.header_isRequest, Message.header_seq, hunread, m.drop_encode,
    show min (m.payloadLen + 24) m.encode.length - 24 = m.payloadLen by omega]
  refine (checkPayload_spec _ _ _ _ s₁).mono ?_ ?_
  · rintro v _ ⟨rfl, -, -, rfl⟩
    rw [receiveRest_neg _ _ (by omega), consume, if_neg (by omega), ends_modify]
    have hsound := hsized.sound hs.sound.size hs.sound.unsigned
    refine ⟨⟨hsound.elsewhere _ _, rfl, ?_, htook.output.trans hs.output⟩, m, by simp,
      htook.front, htook.output⟩
    exact hs.room.trans hsized.bufsize.ge
  · rintro f _ ⟨-, ⟨-, hnot⟩ | ⟨-, hlt⟩⟩
    · refine absurd ?_ hnot
      rw [List.take_of_length_le (by rw [length_payload])]
    · rw [length_payload] at hlt
      omega

/-- `recvResponse` from a queue whose first datagram is a response. -/
theorem recvResponse_unfragmented (hs : s.Rested limit)
    (hin : s.socket.input = .datagrams queue) (hfront : Fronted limit queue)
    (hresp : ∀ m : Message, ∀ src, queue.head? = some (src, m.encode) → m.isRequest = false)
    (seq : UInt64) :
    Ends (recvResponse seq)
      (fun _ s' => s'.Rested limit ∧ ∃ m : Message, m.seq = seq ∧
        s.socket.Took queue m.encode s'.socket)
      (fun f s' => s.Failed queue f s' ∨ f = .protocolException "Unexpected sequence number" ∧
        ∃ m : Message, m.seq ≠ seq ∧ s.socket.Took queue m.encode s'.socket) s := by
  simp only [recvResponse, ends_bind, ends_throwIf]
  refine (receive_unfragmented hs hin hfront).mono ?_ fun _ _ he => .inl he
  rintro _ s' ⟨hs', m, rfl, htook⟩
  obtain ⟨⟨src, rest, rfl, -⟩, -⟩ := id htook
  rw [if_neg (by simp [hresp m src rfl])]
  dsimp only
  split_ifs with hseq
  · exact .inr ⟨trivial, m, fun h => hseq h.symm, htook⟩
  · exact ⟨hs', m, (not_not.mp hseq).symm, htook⟩

theorem recvRequest_unfragmented (hs : s.Rested limit)
    (hin : s.socket.input = .datagrams queue) (hfront : Fronted limit queue)
    (hreq : ∀ m : Message, ∀ src, queue.head? = some (src, m.encode) → m.isRequest = true) :
    Ends recvRequest
      (fun r s' => s'.Rested limit ∧ ∃ m : Message, r = (m.seq, m.options) ∧
        s.socket.Took queue m.encode s'.socket)
      (s.Failed queue) s := by
  simp only [recvRequest, ends_bind, ends_throwIf, ends_pure]
  refine (receive_unfragmented hs hin hfront).mono ?_ fun _ _ he => he
  rintro _ s' ⟨hs', m, rfl, htook⟩
  obtain ⟨⟨src, rest, rfl, -⟩, -⟩ := id htook
  rw [if_neg (not_not_intro (hreq m src rfl))]
  exact ⟨hs', m, rfl, htook⟩

end BabblerProtocol

/-! ## Sending -/

/-- The datagrams that a message is, where it fits into the buffer. -/
def Message.datagrams (m : Message) : List (List UInt8) :=
  if m.payloadLen = 0 then [] else [m.encode]

namespace Socket

/-- Every coming `sendto` takes a datagram of up to `limit` bytes whole, or fails. -/
def WholeOrNone (s : Socket) (limit : Nat) : Prop :=
  ∀ r ∈ s.sendtos, (∃ err, r = .error err) ∨ ∃ n, limit ≤ n ∧ r = .accepted n

/-- What a failed `send` leaves alone. -/
structure Unsent (s : Socket) (s' : Socket) : Prop where
  output : s'.output = s.output
  input : s'.input = s.input

/-- The kernel takes the next datagram. -/
def TakesOver (sendtos : List Sendto) : Prop :=
  ∃ n rest, sendtos = .accepted n :: rest

theorem send_unfragmented {s : Socket} {limit : Nat} (h : s.WholeOrNone limit) {data : List UInt8}
    (hle : data.length ≤ limit) (dest : Option SockAddr) :
    Ends (send data dest) (fun _ s' => s'.output = s.output ++ [(dest, data)])
      (fun f s' => f.OfSocket ∧ s.Unsent s' ∧ ¬TakesOver s.sendtos) s := by
  simp only [send, ends_bind, ends_get, ends_pure]
  rcases hans : s.sendtos with _ | ⟨answer, answers⟩
  · rw [sendtoLoop, ends_throw]
    exact ⟨trivial, ⟨rfl, rfl⟩, by simp [TakesOver]⟩
  · rcases h answer (by simp [hans]) with ⟨err, rfl⟩ | ⟨n, hn, rfl⟩
    · simp only [sendtoLoop, ends_bind, ends_modify, ends_throw]
      exact ⟨trivial, ⟨rfl, rfl⟩, by simp [TakesOver]⟩
    · have hmin : min n data.length = data.length := by omega
      simp only [sendtoLoop, ends_bind, ends_modify, hmin, Nat.lt_irrefl, if_false, ends_pure,
        List.take_length]

end Socket

namespace BabblerProtocol

variable {s s' : BabblerProtocol} {m : Message} {limit : Nat} {dest : Option SockAddr}

/-- A message that fits into the buffer goes through the loop of `send` once. -/
theorem sendLoop_unfragmented {incr : Bool} {totalLen p sent fuel : Nat} {counter : UInt8}
    (hlen : s.buf.length = s.bufsize) (hsent : sent < totalLen)
    (hfit : p + (totalLen - sent) ≤ s.bufsize) (hlimit : p + (totalLen - sent) ≤ limit)
    (hkernel : s.socket.WholeOrNone limit) :
    Ends (sendLoop totalLen incr dest (fuel + 2) p sent counter)
      (fun _ s' => s'.socket.output = s.socket.output ++
        [(dest, s.buf.take p ++ payload incr counter (totalLen - sent))])
      (fun f s' => f.OfSocket ∧ s.socket.Unsent s'.socket ∧ ¬Socket.TakesOver s.socket.sendtos)
      s := by
  have hroom : p + (s.bufsize - p) ≤ s.buf.length := by omega
  have hmin : min (s.bufsize - p) (totalLen - sent) = totalLen - sent := by omega
  have htake : (store s.buf p (payload incr counter (totalLen - sent))).take
      (p + (totalLen - sent)) = s.buf.take p ++ payload incr counter (totalLen - sent) := by
    have := take_store (by omega : p ≤ s.buf.length) (payload incr counter (totalLen - sent))
    rwa [length_payload] at this
  simp only [sendLoop, if_pos hsent, ends_bind, ends_get, fill_eq _ hroom, hmin, ends_modify,
    onSocket, ends_zoom, updateTransmitStats, htake]
  refine (Socket.send_unfragmented hkernel ?_ dest).mono ?_ fun _ _ he => he
  · rw [List.length_append, List.length_take, length_payload]
    omega
  · intro n sock hout
    rw [if_neg (by omega), ends_pure]
    exact hout

theorem sendMessage_unfragmented (hs : s.Rested limit) (hkernel : s.socket.WholeOrNone limit)
    (m : Message) {h : ProtocolHeader} {size : UInt32}
    (hpay : (size + 24).toNat - 24 = m.payloadLen) (hh : m.payloadLen ≠ 0 → h = m.header)
    (hfit : m.encode.length ≤ limit) (dest : Option SockAddr) :
    Ends (do
        modify fun s => { s with buf := store s.buf 0 h.bytes }
        send h size m.isRequest dest)
      (fun _ s' => (Link.flush s').Rested limit ∧ s'.socket.input = s.socket.input ∧
        s'.socket.output = m.datagrams.map (dest, ·))
      (fun f s' => f.OfSocket ∧ s.socket.Unsent s'.socket ∧
        ¬Socket.TakesOver s.socket.sendtos) s := by
  obtain ⟨hl, ht, -⟩ := store_header hs.sound.length hs.sound.room h
  have hlong := Message.length_encode m
  have hroom := hs.room
  have hout : Ends (do
        modify fun s => { s with buf := store s.buf 0 h.bytes }
        send h size m.isRequest dest)
      (fun _ s' => s'.socket.output = m.datagrams.map (dest, ·))
      (fun _ s' => s.socket.Unsent s'.socket ∧ ¬Socket.TakesOver s.socket.sendtos) s := by
    simp only [ends_bind, ends_modify, send, ProtocolHeader.ofNat_size]
    generalize htotal : (size + 24).toNat = totalLen at hpay
    show Ends (sendLoop totalLen m.isRequest dest (totalLen + 1) 24 24 _) _ _ _
    by_cases hempty : m.payloadLen = 0
    · rw [sendLoop, if_neg (by omega), ends_pure, Message.datagrams, if_pos hempty]
      exact hs.output
    · obtain ⟨fuel, rfl⟩ : ∃ n, totalLen = n + 1 := ⟨totalLen - 1, by omega⟩
      refine (sendLoop_unfragmented (s := { s with buf := store s.buf 0 h.bytes }) hl (by omega)
        (by show 24 + (fuel + 1 - 24) ≤ s.bufsize; omega) (by omega) hkernel).mono ?_
        fun _ _ he => he.2
      intro _ s' hout
      rw [ht, hpay, hh hempty] at hout
      rw [hout, Message.datagrams, if_neg hempty]
      show s.socket.output ++ _ = _
      rw [hs.output]
      rfl
  refine ((sendMessage_spec hs.sound.length hs.sound.room m hpay hh dest).and hout).mono ?_
    fun _ _ he => ⟨he.1.1, he.2⟩
  rintro _ s' ⟨⟨hsent, -⟩, hout⟩
  exact ⟨⟨(hsent.sound hs.sound).elsewhere _ _, hsent.bufContentSize.trans hs.buffered,
    hs.room.trans hsent.bufsize.ge, rfl⟩, hsent.writes.input, hout⟩

theorem sendRequest_unfragmented (hs : s.Rested limit) (hkernel : s.socket.WholeOrNone limit)
    (seq : UInt64) {reqSize respSize : UInt32} (hreq : 24 ≤ reqSize)
    (hresp : respSize = 0 ∨ 24 ≤ respSize) (hfit : reqSize.toNat ≤ limit) :
    Ends (sendRequest seq reqSize respSize)
      (fun _ s' => (Link.flush s').Rested limit ∧ s'.socket.input = s.socket.input ∧
        s'.socket.output = (Message.request seq reqSize respSize).datagrams.map (none, ·))
      (fun f s' => f.OfSocket ∧ s.socket.Unsent s'.socket ∧
        ¬Socket.TakesOver s.socket.sendtos) s := by
  rw [sendRequest_eq seq hreq hresp]
  have h24 : 24 ≤ reqSize.toNat := hreq
  refine sendMessage_unfragmented hs hkernel (Message.request seq reqSize respSize)
    (Message.request_payloadLen seq reqSize respSize) (fun _ => rfl) ?_ none
  rw [Message.length_encode]
  show 24 + (reqSize.toNat - 24) ≤ limit
  omega

theorem sendResponse_unfragmented (hs : s.Rested limit) (hkernel : s.socket.WholeOrNone limit)
    (seq : UInt64) {respSize : UInt32} (hfit : respSize.toNat + 24 ≤ limit)
    (dest : Option SockAddr) :
    Ends (sendResponse seq respSize dest)
      (fun _ s' => (Link.flush s').Rested limit ∧ s'.socket.input = s.socket.input ∧
        s'.socket.output = (Message.response seq respSize).datagrams.map (dest, ·))
      (fun f s' => f.OfSocket ∧ s.socket.Unsent s'.socket ∧
        ¬Socket.TakesOver s.socket.sendtos) s := by
  refine sendMessage_unfragmented hs hkernel (Message.response seq respSize) rfl (fun h0 => ?_) ?_
    dest
  · refine (Message.header_response seq ?_).symm
    have : (respSize + 24).toNat - 24 ≠ 0 := h0
    show 24 ≤ (respSize + 24).toNat
    omega
  · rw [Message.length_encode]
    show 24 + ((respSize + 24).toNat - 24) ≤ limit
    have hadd : (respSize + 24).toNat ≤ respSize.toNat + 24 := by
      rw [UInt32.toNat_add]
      exact Nat.mod_le _ _
    omega

end BabblerProtocol

end NetBabbler
