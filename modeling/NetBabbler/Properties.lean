/-!
# Socket properties

`cSocket::Properties` : the family, the type and the protocol that a socket is made with. The
command line chooses the family, the destination or the server chooses the rest.
-/

namespace NetBabbler

/-! ## Constants of the system -/

/-- Any family. -/
def AF_UNSPEC : Nat := 0

/-- IPv4. -/
def AF_INET : Nat := 2

/-- IPv6. -/
def AF_INET6 : Nat := 10

/-- A stream of bytes. -/
def SOCK_STREAM : Nat := 1

/-- Datagrams. -/
def SOCK_DGRAM : Nat := 2

/-- Packets of the network layer. -/
def SOCK_RAW : Nat := 3

/-- Datagrams over a connection. -/
def SOCK_DCCP : Nat := 6

/-- DCCP over IP. -/
def IPPROTO_DCCP : Nat := 33

/-- SCTP over IP. -/
def IPPROTO_SCTP : Nat := 132

/-! ## Properties -/

/-- `cSocket::Properties`. -/
structure Properties where
  family : Nat
  type : Nat
  protocol : Nat
  deriving DecidableEq, Repr

namespace Properties

/-- `cSocket::Properties::tcp`, of a family. -/
def tcp (family : Nat := AF_UNSPEC) : Properties :=
  ⟨family, SOCK_STREAM, 0⟩

/-- `cSocket::Properties::udp`, of a family. -/
def udp (family : Nat := AF_UNSPEC) : Properties :=
  ⟨family, SOCK_DGRAM, 0⟩

/-- `cSocket::Properties::sctp`, of a family. -/
def sctp (family : Nat := AF_UNSPEC) : Properties :=
  ⟨family, SOCK_STREAM, IPPROTO_SCTP⟩

/-- `cSocket::Properties::dccp`, of a family. -/
def dccp (family : Nat := AF_UNSPEC) : Properties :=
  ⟨family, SOCK_DCCP, IPPROTO_DCCP⟩

/-- `cSocket::Properties::raw`, of a family. -/
def raw (protocol : UInt8) (family : Nat := AF_UNSPEC) : Properties :=
  ⟨family, SOCK_RAW, protocol.toNat⟩

/-- `none` where `BUG_ON` fires. -/
def toFamily (ipv4 ipv6 : Bool) : Option Nat :=
  if !ipv4 && !ipv6 then none
  else if ipv4 && ipv6 then some AF_UNSPEC
  else some (if ipv4 then AF_INET else AF_INET6)

/-- Neither a stream nor DCCP. -/
def isConnectionless (prop : Properties) : Bool :=
  !(prop.type == SOCK_STREAM || prop.type == SOCK_DCCP)

end Properties

/-- The protocols of clients and servers, but for raw packets. -/
inductive Protocol where
  | tcp
  | sctp
  | dccp
  | udp
  deriving DecidableEq, Repr

/-- The function of `cSocket::Properties` for a protocol, of a family. -/
def Protocol.properties (family : Nat) : Protocol → Properties
  | .tcp => .tcp family
  | .sctp => .sctp family
  | .dccp => .dccp family
  | .udp => .udp family

/-- The protocol has no say in the family. -/
@[simp] theorem Protocol.family_properties (protocol : Protocol) (family : Nat) :
    (protocol.properties family).family = family := by
  cases protocol <;> rfl

end NetBabbler
