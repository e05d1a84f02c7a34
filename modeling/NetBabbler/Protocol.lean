import NetBabbler.Message
import NetBabbler.Socket

/-!
# The protocol object

`cBabblerProtocol` of `protocol.cpp` : one buffer that both directions share, a read
pointer into it, and the statistics. `send` lays the header and as much payload as fits
into the buffer, hands it to the socket and goes on from the buffer's start; `receive`
takes one message, from what is left in the buffer or from the socket.

The buffer is a list of bytes and `pBuf` an offset into it. A read that leaves the bytes
received is the fault `outOfBounds` : the source does not test for it, so the model stops
where the source would go on with bytes nobody sent.
-/

namespace NetBabbler

open EStateM

/-! ## The state -/

/-- `cStats`. -/
structure Stats where
  sentPackets : Int64 := 0
  sentOctets : Int64 := 0
  receivedPackets : Int64 := 0
  receivedOctets : Int64 := 0
  errors : Int64 := 0
  timeouts : Int64 := 0
  deriving DecidableEq, Repr

/-- `cBabblerProtocol`, with its socket. -/
structure BabblerProtocol where
  socket : Socket
  bufsize : Nat
  bufContentSize : Nat
  buf : List UInt8
  /-- `m_pBuf - m_buf`. -/
  pBuf : Nat
  stats : Stats

/-- `buf` with `bs` stored at offset `p`. -/
def store (buf : List UInt8) (p : Nat) (bs : List UInt8) : List UInt8 :=
  buf.take p ++ bs ++ buf.drop (p + bs.length)

namespace BabblerProtocol

/-- The constructor. The buffer comes uninitialised from `new`. -/
def init (socket : Socket) (buf : List UInt8) : BabblerProtocol where
  socket := socket
  bufsize := buf.length
  bufContentSize := 0
  buf := buf
  pBuf := 0
  stats := {}

/-- The bytes received and not yet consumed. -/
def unread (s : BabblerProtocol) : List UInt8 :=
  (s.buf.drop s.pBuf).take s.bufContentSize

/-- All bytes a coming `receive` can see. -/
def pending (s : BabblerProtocol) : List UInt8 :=
  s.unread ++ s.socket.incoming

/-- A call on `m_socket`. -/
def onSocket {α : Type} : EStateM Fault Socket α → EStateM Fault BabblerProtocol α :=
  zoom socket fun sock s => { s with socket := sock }

/-- `cBabblerProtocol::updateTransmitStats`. -/
def updateTransmitStats (sentOctets sentPackets : UInt64) :
    EStateM Fault BabblerProtocol Unit :=
  modify fun s => { s with stats := { s.stats with
    sentOctets := s.stats.sentOctets + sentOctets.toInt64
    sentPackets := s.stats.sentPackets + sentPackets.toInt64 } }

/-- `cBabblerProtocol::updateReceiveStats`. -/
def updateReceiveStats (receivedOctets receivedPackets : UInt64) :
    EStateM Fault BabblerProtocol Unit :=
  modify fun s => { s with stats := { s.stats with
    receivedOctets := s.stats.receivedOctets + receivedOctets.toInt64
    receivedPackets := s.stats.receivedPackets + receivedPackets.toInt64 } }

/-! ## Sending -/

/-- `for (; sent < totalLen && p < (m_buf + m_bufsize); sent++)`, with `room` bytes from
`p` to the buffer's end. -/
def fill (incr : Bool) (totalLen : Nat) :
    Nat → List UInt8 → Nat → Nat → UInt8 → List UInt8 × Nat × Nat × UInt8
  | 0, buf, p, sent, counter => (buf, p, sent, counter)
  | room + 1, buf, p, sent, counter =>
    if sent < totalLen then
      fill incr totalLen room (buf.set p (count incr counter)) (p + 1) (sent + 1)
        (count incr counter)
    else (buf, p, sent, counter)

/-- `while (sent < totalLen)` of `send`. -/
def sendLoop (totalLen : Nat) (incr : Bool) (dest : Option SockAddr) :
    Nat → Nat → Nat → UInt8 → EStateM Fault BabblerProtocol Unit
  | 0, _, _, _ => throw .hang
  | fuel + 1, p, sent, counter =>
    if sent < totalLen then do
      let s ← get
      let (buf, p, sent, counter) := fill incr totalLen (s.bufsize - p) s.buf p sent counter
      modify fun s => { s with buf := buf }
      let sentLen ← onSocket (Socket.send (buf.take p) dest)
      updateTransmitStats (UInt64.ofNat sentLen) (if sent < totalLen then 0 else 1)
      sendLoop totalLen incr dest fuel 0 sent counter
    else pure ()

/-- `send`. The header `h` is in the buffer already. -/
def send (h : ProtocolHeader) (size : UInt32) (incr : Bool) (dest : Option SockAddr) :
    EStateM Fault BabblerProtocol Unit :=
  let totalLen := (size + UInt32.ofNat ProtocolHeader.size).toNat
  sendLoop totalLen incr dest (totalLen + 1) ProtocolHeader.size ProtocolHeader.size
    h.seq.toUInt8

/-- `cBabblerProtocol::sendRequest`. -/
def sendRequest (seq : UInt64) (reqSize respSize : UInt32) :
    EStateM Fault BabblerProtocol Unit := do
  -- zero is allowed -> no response
  bugOn (respSize ≠ 0 ∧ respSize < UInt32.ofNat ProtocolHeader.size)
  let respSize := if respSize ≠ 0 then respSize - UInt32.ofNat ProtocolHeader.size else respSize
  bugOn (reqSize < UInt32.ofNat ProtocolHeader.size)
  let reqSize := reqSize - UInt32.ofNat ProtocolHeader.size
  let h := ProtocolHeader.initRequest seq reqSize respSize
  modify fun s => { s with buf := store s.buf 0 h.bytes }
  send h reqSize true none

/-- `cBabblerProtocol::sendResponse`. -/
def sendResponse (seq : UInt64) (respSize : UInt32) (dest : Option SockAddr) :
    EStateM Fault BabblerProtocol Unit := do
  let h := ProtocolHeader.initResponse seq respSize
  modify fun s => { s with buf := store s.buf 0 h.bytes }
  send h respSize false dest

/-! ## Receiving -/

/-- `m_socket.recv (m_buf, len, atleast)` with the updates that follow it. -/
def recvInto (len atleast : Nat) : EStateM Fault BabblerProtocol Nat := do
  let data ← onSocket (Socket.recv len atleast)
  modify fun s => { s with buf := store s.buf 0 data, bufContentSize := data.length }
  updateReceiveStats (UInt64.ofNat data.length) 0
  pure data.length

/-- `rcvLen` at the start of `receive` : what is buffered, else what `recv` brings. -/
def rcvLen : EStateM Fault BabblerProtocol Nat := do
  let s ← get
  if s.bufContentSize = 0 then recvInto s.bufsize ProtocolHeader.size
  else pure s.bufContentSize

/-- The header at `m_pBuf`. -/
def headerAt : EStateM Fault BabblerProtocol ProtocolHeader := do
  let s ← get
  throwIf (s.unread.length < ProtocolHeader.size) .outOfBounds
  pure (ProtocolHeader.ofBytes s.unread)

/-- The part of `receive` up to the header tests. -/
def receiveHeader : EStateM Fault BabblerProtocol (ProtocolHeader × Nat) := do
  let rcvLen ← rcvLen
  -- FIXME currently we can't handle fragmented headers
  bugOn (rcvLen < ProtocolHeader.size)
  let h ← headerAt
  throwIf (¬h.checkChecksum) (.protocolException "Wrong header checksum")
  throwIf (¬h.isRequest ∧ ¬h.isResponse) (.protocolException "Unknown packet type")
  pure (h, rcvLen)

/-- `checkPayload`. The list is what was received from `data` on. -/
def checkPayload (incr : Bool) :
    List UInt8 → Nat → UInt8 → EStateM Fault BabblerProtocol UInt8
  | _, 0, expVal => pure expVal
  | [], _ + 1, _ => throw .outOfBounds
  | b :: data, len + 1, expVal => do
    throwIf (b ≠ count incr expVal) (.protocolException "Corrupted packet")
    checkPayload incr data len (count incr expVal)

/-- `while (toBeReceived > 0)` of `receive`; returns `toBeReceived`. -/
def receiveRest (isRequest : Bool) : Nat → Int → UInt8 → EStateM Fault BabblerProtocol Int
  | 0, _, _ => throw .hang
  | fuel + 1, toBeReceived, expVal =>
    if toBeReceived > 0 then do
      let s ← get
      let rcvLen ← recvInto (min toBeReceived.toNat s.bufsize) 0
      let s ← get
      let expVal ← checkPayload isRequest (s.buf.take rcvLen) rcvLen expVal
      receiveRest isRequest fuel (toBeReceived - rcvLen) expVal
    else pure toBeReceived

/-- `m_pBuf` and `m_bufContentSize` after a message of length `len`. -/
def consume (len : Nat) (toBeReceived : Int) : EStateM Fault BabblerProtocol Unit :=
  if toBeReceived < 0 then do
    modify fun s => { s with pBuf := s.pBuf + len, bufContentSize := s.bufContentSize - len }
    let s ← get
    bugOn (s.pBuf ≥ s.bufsize)
  else modify fun s => { s with pBuf := 0, bufContentSize := 0 }

/-- The part of `receive` after the header tests. -/
def receivePayload (h : ProtocolHeader) (rcvLen : Nat) : EStateM Fault BabblerProtocol Unit := do
  let toBeReceived : Int := h.length.toNat - rcvLen
  let s ← get
  -- min (len, rcvLen) - sizeof (cProtocolHeader), as checkPayload's unsigned parameter
  let len := min h.length (UInt32.ofNat rcvLen) - UInt32.ofNat ProtocolHeader.size
  let expVal ← checkPayload h.isRequest (s.unread.drop ProtocolHeader.size) len.toNat
    h.seq.toUInt8
  let toBeReceived ← receiveRest h.isRequest (s.socket.polls.length + 1) toBeReceived expVal
  consume h.length.toNat toBeReceived

/-- `receive`; returns `isRequest`, `options` and the sequence number. -/
def receive : EStateM Fault BabblerProtocol (Bool × UInt32 × UInt64) := do
  let (h, rcvLen) ← receiveHeader
  receivePayload h rcvLen
  updateReceiveStats 0 1
  pure (h.isRequest, h.options, h.seq)

/-- `cBabblerProtocol::recvResponse`. -/
def recvResponse (expSeq : UInt64) : EStateM Fault BabblerProtocol Unit := do
  let (isRequest, _, seq) ← receive
  throwIf (isRequest = true) (.protocolException "Unexpected packet type")
  throwIf (expSeq ≠ seq) (.protocolException "Unexpected sequence number")

/-- `recvRequest`; returns `seq` and `expRespLen`. -/
def recvRequest : EStateM Fault BabblerProtocol (UInt64 × UInt32) := do
  let (isRequest, expRespLen, seq) ← receive
  throwIf (¬isRequest) (.protocolException "Unexpected packet type")
  pure (seq, expRespLen)

end BabblerProtocol

end NetBabbler
