import DhtScraper.Fetch.InOrder

/-!
# The shared uTP socket

All outgoing uTP connections of a process share one UDP socket, which hands a datagram to the
connection that its sender and its connection id name.  A step is a datagram, a new connection, a
callback or call of a connection, or the end of the socket; a datagram holds arbitrary bytes and
comes from an arbitrary address.

A connection object stays known by its number when it has left the table, since its owner still holds
it.
-/

namespace DhtScraper

open Library

/-- What happens to a connection of the socket. -/
inductive LinkEvent where
  | received (packet : UtpPacket)
  | sendAck
  | checkResend
  | write (data : Bytes)
  | read (length : ℕ) (deadlinePassed : Bool) (closedReason : FetchReason)
  | close (sendReset : Bool)

namespace UtpSession

def handle (s : UtpSession) (now : ℚ) : LinkEvent → Except Failure UtpSession
  | .received packet => do
    let c ← s.connection.packetReceived now packet
    return { s with connection := c }
  | .sendAck => do
    let c ← s.connection.sendAck now
    return { s with connection := c }
  | .checkResend => do
    let c ← s.connection.checkResend now
    return { s with connection := c }
  | .write data => do
    let c ← s.connection.write now data
    return { s with connection := c }
  | .read length deadlinePassed closedReason => do
    let (outcome, c) ← s.connection.readExactly length deadlinePassed closedReason
    return { connection := c, consumed := s.consumed ++ match outcome with
      | .data bytes => bytes
      | _ => [] }
  | .close sendReset => do
    let c ← s.connection.close now sendReset
    return { s with connection := c }

end UtpSession

/-- A connection that has a socket for itself. -/
def linkMachine : Machine UtpSession (ℚ × LinkEvent) where
  step s label := (s.handle label.1 label.2).toOption

/-- A `UtpConnection` object. -/
structure UtpLink where
  address : Address
  session : UtpSession

/-- The key of a connection in the table: the address of its peer, and the id in the peer's packets. -/
def UtpLink.key (link : UtpLink) : Address × ℕ := (link.address, link.session.connection.recvId)

/-- A `UtpSocket`.  `transportOpen` tells that there is a transport and that it is not closing. -/
structure UtpSocket where
  connections : OrderedMap (Address × ℕ) ℕ
  links : OrderedMap ℕ UtpLink
  created : ℕ
  transportOpen : Bool
  packetsSent : ℕ

namespace UtpSocket

def new : UtpSocket where
  connections := .empty
  links := .empty
  created := 0
  transportOpen := true
  packetsSent := 0

/-- The packets that were handed to `send` count while the transport is open. -/
def countSent (s : UtpSocket) (n : ℕ) : UtpSocket :=
  { s with packetsSent := s.packetsSent + if s.transportOpen then n else 0 }

/-- Something happens to a connection; one that is closed by it is forgotten. -/
def handle (s : UtpSocket) (number : ℕ) (now : ℚ) (event : LinkEvent) : Except Failure UtpSocket :=
  match s.links.get? number with
  | none => .ok s
  | some link => do
    let session ← link.session.handle now event
    let forgotten := link.session.connection.closed = false ∧ session.connection.closed
    let s := s.countSent (session.connection.sent.length - link.session.connection.sent.length)
    return { s with
      connections := if forgotten then s.connections.erase link.key else s.connections
      links := s.links.insert number { link with session := session } }

/-- The loop of `connect` over the ids, from a random one on. -/
def freeId (s : UtpSocket) (address : Address) : ℕ → ℕ → Option ℕ
  | 0, _ => none
  | fuel + 1, recvId =>
    if s.connections.contains (address, recvId) then
      s.freeId address fuel ((recvId + 1) % (sequenceMask + 1))
    else some recvId

/-- `connect` up to its wait; without a free id its loop never ends. -/
def connect (s : UtpSocket) (address : Address) (recvId : ℕ) (now : ℚ) : Except Failure UtpSocket :=
  match s.freeId address (sequenceMask + 1) recvId with
  | none => .error .outOfFuel
  | some recvId => do
    let session ← UtpSession.connect recvId now
    let link : UtpLink := { address := address, session := session }
    let s := s.countSent session.connection.sent.length
    return { s with
      connections := s.connections.insert link.key s.created
      links := s.links.insert s.created link
      created := s.created + 1 }

def datagramReceived (s : UtpSocket) (data : Bytes) (address : Address) (now : ℚ) :
    Except Failure UtpSocket :=
  match decodeUtpPacket data with
  | none => .ok s
  | some packet =>
    match s.connections.get? (address, packet.connectionId) with
    | none => .ok s
    | some number => s.handle number now (.received packet)

def closeEach (now : ℚ) : List ℕ → UtpSocket → Except Failure UtpSocket
  | [], s => .ok s
  | number :: rest, s => do
    let s ← s.handle number now (.close true)
    closeEach now rest s

def close (s : UtpSocket) (now : ℚ) : Except Failure UtpSocket := do
  let s ← closeEach now s.connections.values s
  let s := { s with transportOpen := false }
  assert (s.connections.size = 0)
  return s

end UtpSocket

inductive SocketStep where
  | connect (address : Address) (recvId : ℕ)
  | datagram (data : Bytes) (address : Address)
  | call (number : ℕ) (event : LinkEvent)
  | close

namespace UtpSocket

def step (s : UtpSocket) (now : ℚ) : SocketStep → Except Failure UtpSocket
  | .connect address recvId => s.connect address recvId now
  | .datagram data address => s.datagramReceived data address now
  | .call number event => s.handle number now event
  | .close => s.close now

/-- No step is taken where an assertion fails. -/
def machine : Machine UtpSocket (ℚ × SocketStep) where
  step s label := (s.step label.1 label.2).toOption

end UtpSocket

/-- The callbacks that are scheduled, and the calls that the owner of a connection makes. -/
def UtpLink.Expects (link : UtpLink) : LinkEvent → Prop
  | .received _ => False
  | .sendAck => link.session.connection.ackScheduled
  | .checkResend => link.session.connection.resendTimer
  | .write data => data ≠ []
  | .read length _ _ => 0 < length
  | .close _ => True

instance (link : UtpLink) (event : LinkEvent) : Decidable (link.Expects event) := by
  cases event <;> unfold UtpLink.Expects <;> infer_instance

/-- What can happen next: any datagram, a new connection while there are fewer than there are ids, and
what the connections expect. -/
def UtpSocket.Allowed (s : UtpSocket) (label : ℚ × SocketStep) : Prop :=
  match label.2 with
  | .connect _ recvId => recvId ≤ sequenceMask ∧ s.connections.size ≤ sequenceMask
  | .datagram _ _ => True
  | .call number event => ∃ link ∈ s.links.get? number, link.Expects event
  | .close => True

instance (s : UtpSocket) (label : ℚ × SocketStep) : Decidable (s.Allowed label) := by
  obtain ⟨now, step⟩ := label
  cases step <;> unfold UtpSocket.Allowed <;> infer_instance

end DhtScraper
