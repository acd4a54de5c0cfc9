import DhtScraper.Fetch.ByteStream
import DhtScraper.Library.OrderedMap

/-!
# A uTP connection

One outgoing connection: the packets it sends, what it does with the packets of the peer, and the
reads of a session.  Every function takes one reading of the clock, in seconds.  What the connection
hands to its socket is the list `sent`.
-/

namespace DhtScraper

open Library

def stData : ℕ := 0
def stFin : ℕ := 1
def stState : ℕ := 2
def stReset : ℕ := 3
def stSyn : ℕ := 4
def utpVersion : ℕ := 1
def headerSize : ℕ := 20
def sequenceMask : ℕ := 0xFFFF
def timestampMask : ℕ := 0xFFFFFFFF
def maxPayload : ℕ := 1200
def receiveWindow : ℕ := 2 ^ 20
def maxOutOfOrder : ℕ := 1024
def initialResendSeconds : ℚ := 1
def maxResends : ℕ := 4

structure UtpPacket where
  packetType : ℕ
  connectionId : ℕ
  timestamp : ℕ
  timestampDifference : ℕ
  window : ℕ
  seqNr : ℕ
  ackNr : ℕ
  payload : Bytes
  deriving DecidableEq

/-! ## Packets -/

def encodeUtpPacket (packet : UtpPacket) : Except Failure Bytes := do
  assert ((stData ≤ packet.packetType ∧ packet.packetType ≤ stSyn) ∧ packet.connectionId ≤ sequenceMask)
  if 2 ^ 32 ≤ packet.window then .error .structError
  else do
    let header := toBigEndian 1 (packet.packetType * 16 + utpVersion) ++ (toBigEndian 1 0 ++
      (toBigEndian 2 packet.connectionId ++
      (toBigEndian 4 (packet.timestamp % (timestampMask + 1)) ++
      (toBigEndian 4 (packet.timestampDifference % (timestampMask + 1)) ++
      (toBigEndian 4 packet.window ++
      (toBigEndian 2 (packet.seqNr % (sequenceMask + 1)) ++
      toBigEndian 2 (packet.ackNr % (sequenceMask + 1))))))))
    let result := header ++ packet.payload
    assert (result.length = headerSize + packet.payload.length)
    return result

/-- The loop of `decode_utp_packet` over the extensions; it answers where the payload begins.  Every
round moves the offset by at least two. -/
def skipExtensions (data : Bytes) : ℕ → ℕ → ℕ → Option ℕ
  | 0, _, _ => none
  | fuel + 1, extension, offset =>
    if extension = 0 then some offset
    else
      let length := (data.getD (offset + 1) 0).toNat
      if data.length < offset + 2 ∨ data.length < offset + 2 + length then none
      else skipExtensions data fuel (data.getD offset 0).toNat (offset + 2 + length)

def decodeUtpPacket (data : Bytes) : Option UtpPacket :=
  if data.length < headerSize then none
  else
    let typeVersion := fromBigEndian (slice data 0 1)
    let extension := fromBigEndian (slice data 1 2)
    if typeVersion % 16 ≠ utpVersion ∨ stSyn < typeVersion / 16 then none
    else (skipExtensions data (data.length + 1) extension headerSize).map fun offset ↦
      { packetType := typeVersion / 16
        connectionId := fromBigEndian (slice data 2 4)
        timestamp := fromBigEndian (slice data 4 8)
        timestampDifference := fromBigEndian (slice data 8 12)
        window := fromBigEndian (slice data 12 16)
        seqNr := fromBigEndian (slice data 16 18)
        ackNr := fromBigEndian (slice data 18 20)
        payload := data.drop offset }

/-- `later` comes after `earlier`, up to half of the sequence numbers away. -/
def sequenceAfter (later earlier : ℕ) : Bool :=
  later ≠ earlier && (later + (sequenceMask + 1) - earlier) % (sequenceMask + 1) < 0x8000

def microseconds (now : ℚ) : ℕ := (⌊now * 1000000⌋ % (timestampMask + 1)).toNat

/-- The delay of a packet as the receiver sees it. -/
def microsecondsSince (now : ℚ) (timestamp : ℕ) : ℕ :=
  (microseconds now + (timestampMask + 1) - timestamp % (timestampMask + 1)) % (timestampMask + 1)

/-! ## The connection -/

/-- An entry of `unacked`: the packet, when it was last sent and how often it was sent again. -/
structure Unacked where
  packet : Bytes
  sentAt : ℚ
  resends : ℕ
  deriving DecidableEq

/-- A `UtpConnection`.  `deliveries` counts the calls of `deliver`; the source does not keep it. -/
structure UtpConnection where
  recvId : ℕ
  sendId : ℕ
  seqNr : ℕ := 1
  ackNr : ℕ := 0
  connectedState : Bool := false
  closed : Bool := false
  error : Option FetchReason := none
  replyMicro : ℕ := 0
  buffer : Bytes := []
  receivedAny : Bool := false
  outOfOrder : OrderedMap ℕ Bytes := OrderedMap.empty
  eofSeq : Option ℕ := none
  unacked : OrderedMap ℕ Unacked := OrderedMap.empty
  connected : Option Bool := none
  readable : Bool := false
  ackScheduled : Bool := false
  resendTimer : Bool := false
  sent : List Bytes := []
  deliveries : ℕ := 0
  deriving DecidableEq

namespace UtpConnection

def create (recvId : ℕ) : Except Failure UtpConnection := do
  assert (recvId ≤ sequenceMask)
  return { recvId := recvId, sendId := (recvId + 1) % (sequenceMask + 1) }

def sendPacket (c : UtpConnection) (now : ℚ) (packetType seqNr : ℕ) (payload : Bytes) :
    Except Failure (Bytes × UtpConnection) := do
  assert (c.closed = false ∨ packetType = stReset)
  let packet ← encodeUtpPacket {
    packetType := packetType
    connectionId := if packetType = stSyn then c.recvId else c.sendId
    timestamp := microseconds now
    timestampDifference := c.replyMicro
    window := receiveWindow - c.buffer.length
    seqNr := seqNr
    ackNr := c.ackNr
    payload := payload }
  assert (headerSize ≤ packet.length)
  return (packet, { c with sent := c.sent ++ [packet] })

def armResend (c : UtpConnection) : Except Failure UtpConnection := do
  assert (c.unacked.size ≠ 0 ∨ c.closed)
  return if c.resendTimer = false ∧ c.closed = false then { c with resendTimer := true } else c

/-- Send a packet that has to be acknowledged and take the next sequence number. -/
def sendUnacked (c : UtpConnection) (now : ℚ) (packetType : ℕ) (payload : Bytes) :
    Except Failure UtpConnection := do
  let (packet, c) ← c.sendPacket now packetType c.seqNr payload
  return { c with
    unacked := c.unacked.insert c.seqNr ⟨packet, now, 0⟩
    seqNr := (c.seqNr + 1) % (sequenceMask + 1) }

def sendSyn (c : UtpConnection) (now : ℚ) : Except Failure UtpConnection := do
  assert (c.connectedState = false)
  let c ← c.sendUnacked now stSyn []
  let c ← c.armResend
  assert (c.unacked.size ≠ 0)
  return c

/-- The payloads of a write: `data[start:start + MAX_PAYLOAD]` for the starts in order. -/
def chunks (data : Bytes) : List Bytes :=
  (List.range ((data.length + maxPayload - 1) / maxPayload)).map fun i ↦
    slice data (i * maxPayload) (i * maxPayload + maxPayload)

def sendChunks (now : ℚ) : List Bytes → UtpConnection → Except Failure UtpConnection
  | [], c => .ok c
  | chunk :: rest, c => do
    let c ← c.sendUnacked now stData chunk
    sendChunks now rest c

def write (c : UtpConnection) (now : ℚ) (data : Bytes) : Except Failure UtpConnection := do
  assert (data ≠ [])
  if c.closed then return c
  else do
    let c ← sendChunks now (chunks data) c
    let c ← c.armResend
    assert (c.unacked.size ≠ 0)
    return c

def acknowledge (c : UtpConnection) (ackNr : ℕ) : Except Failure UtpConnection := do
  assert (ackNr ≤ sequenceMask)
  let unacked := c.unacked.filterKeys fun seqNr ↦ sequenceAfter seqNr ackNr
  assert (∀ seqNr ∈ unacked.keys, sequenceAfter seqNr ackNr)
  return { c with unacked := unacked }

def deliver (c : UtpConnection) (seqNr : ℕ) (payload : Bytes) : Except Failure UtpConnection := do
  assert (seqNr = (c.ackNr + 1) % (sequenceMask + 1))
  return { c with
    ackNr := seqNr
    buffer := c.buffer ++ payload
    receivedAny := c.receivedAny || !payload.isEmpty
    readable := true
    deliveries := c.deliveries + 1 }

def scheduleAck (c : UtpConnection) : Except Failure UtpConnection := do
  assert c.connectedState
  return { c with ackScheduled := true }

/-- One round of the loop of `data_received` over the packets that arrived early. -/
def followingRound (c : UtpConnection) : Except Failure (UtpConnection ⊕ UtpConnection) :=
  let following := (c.ackNr + 1) % (sequenceMask + 1)
  match c.outOfOrder.get? following with
  | none => .ok (.inr c)
  | some payload => do
    let c ← { c with outOfOrder := c.outOfOrder.erase following }.deliver following payload
    return .inl c

def dataReceived (c : UtpConnection) (seqNr : ℕ) (payload : Bytes) : Except Failure UtpConnection := do
  assert (seqNr ≤ sequenceMask)
  let received : Except Failure UtpConnection :=
    if seqNr = (c.ackNr + 1) % (sequenceMask + 1) then do
      let c ← c.deliver seqNr payload
      loop (fun _ ↦ .outOfFuel) followingRound (c.outOfOrder.size + 1) c
    else if sequenceAfter seqNr c.ackNr ∧ c.outOfOrder.size < maxOutOfOrder then
      .ok { c with outOfOrder := c.outOfOrder.insert seqNr payload }
    else .ok c
  let c ← received
  let c ← c.scheduleAck
  assert (c.outOfOrder.get? ((c.ackNr + 1) % (sequenceMask + 1)) = none)
  return c

def close (c : UtpConnection) (now : ℚ) (sendReset : Bool) : Except Failure UtpConnection :=
  if c.closed then .ok c
  else do
    let farewell : Except Failure UtpConnection :=
      if sendReset ∧ c.connectedState then do
        let (_, c) ← c.sendPacket now stState c.seqNr []
        let (_, c) ← c.sendPacket now stReset c.seqNr []
        return c
      else .ok c
    let c ← farewell
    return { c with closed := true, resendTimer := false }

def fail (c : UtpConnection) (now : ℚ) (reason : FetchReason) : Except Failure UtpConnection := do
  assert (reason ∈ [FetchReason.closed, .timeout, .connectTimeout])
  let c ← { c with
    error := some (c.error.getD reason)
    connected := some (c.connected.getD false)
    readable := true }.close now false
  assert c.closed
  return c

def packetReceived (c : UtpConnection) (now : ℚ) (packet : UtpPacket) : Except Failure UtpConnection :=
  if c.closed then .ok c
  else
    let c := { c with replyMicro := microsecondsSince now packet.timestamp }
    if packet.packetType = stReset then c.fail now .closed
    else if c.connectedState = false then
      if packet.packetType ≠ stState then .ok c
      else do
        let c ← { c with
          ackNr := (packet.seqNr + sequenceMask) % (sequenceMask + 1)
          connectedState := true }.acknowledge packet.ackNr
        return { c with connected := some (c.connected.getD true) }
    else do
      let c ← c.acknowledge packet.ackNr
      let received : Except Failure UtpConnection :=
        if packet.packetType = stData then c.dataReceived packet.seqNr packet.payload
        else if packet.packetType = stFin then
          { c with eofSeq := some packet.seqNr }.dataReceived packet.seqNr []
        else .ok c
      let c ← received
      assert c.connectedState
      return c

def sendAck (c : UtpConnection) (now : ℚ) : Except Failure UtpConnection := do
  let c := { c with ackScheduled := false }
  if c.closed then return c
  else do
    let (_, c) ← c.sendPacket now stState c.seqNr []
    return c

/-- An entry that was not acknowledged for too long since it was last sent. -/
def Overdue (now : ℚ) (entry : Unacked) : Prop :=
  ¬(now - entry.sentAt < initialResendSeconds * 2 ^ entry.resends)

instance (now : ℚ) (entry : Unacked) : Decidable (Overdue now entry) :=
  inferInstanceAs (Decidable (¬_))

/-- The loop of `check_resend` over the entries; the Boolean tells whether it gave up. -/
def resendEntries (now : ℚ) : List (ℕ × Unacked) → UtpConnection → Except Failure (UtpConnection × Bool)
  | [], c => .ok (c, false)
  | (seqNr, entry) :: rest, c =>
    if ¬Overdue now entry then resendEntries now rest c
    else if maxResends ≤ entry.resends then do
      let c ← c.fail now (if c.connectedState then .timeout else .connectTimeout)
      return (c, true)
    else resendEntries now rest { c with
      unacked := c.unacked.insert seqNr { entry with sentAt := now, resends := entry.resends + 1 }
      sent := c.sent ++ [entry.packet] }

def checkResend (c : UtpConnection) (now : ℚ) : Except Failure UtpConnection :=
  let c := { c with resendTimer := false }
  if c.closed then .ok c
  else do
    let (c, gaveUp) ← resendEntries now c.unacked.items c
    if gaveUp then return c
    else do
      let armed : Except Failure UtpConnection := if c.unacked.size ≠ 0 then c.armResend else .ok c
      let c ← armed
      assert (c.closed = false)
      return c

/-- What one pass of the loop of `read_exactly` comes to. -/
inductive ReadOutcome where
  | data (bytes : Bytes)
  | ended (reason : FetchReason)
  | timeout
  | waiting
  deriving DecidableEq

def readExactly (c : UtpConnection) (length : ℕ) (deadlinePassed : Bool) (closedReason : FetchReason) :
    Except Failure (ReadOutcome × UtpConnection) := do
  assert (0 < length)
  if c.buffer.length < length then
    if c.error.isSome ∨ (c.eofSeq.isSome ∧ some c.ackNr = c.eofSeq) then
      return (.ended (if c.error = some .timeout then .timeout
        else if c.receivedAny then .closed else closedReason), c)
    else if deadlinePassed then return (.timeout, c)
    else return (.waiting, { c with readable := false })
  else do
    let result := c.buffer.take length
    assert (result.length = length)
    return (.data result, { c with buffer := c.buffer.drop length })

end UtpConnection

end DhtScraper
