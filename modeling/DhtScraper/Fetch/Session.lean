import DhtScraper.Fetch.ByteStream
import DhtScraper.Fetch.PeerWire
import DhtScraper.Library.OrderedMap

/-!
# A metadata session

Handshake, extended handshake, then the pieces of the metadata with a window of outstanding
requests.  `tooDeep` tells which message bodies exceed the interpreter's limits: they are nested
deeper than its stack or hold an integer of more digits than `int` takes.  The session treats both
alike.
-/

namespace DhtScraper

open Library

def pieceWindow : ℕ := 8

def peerIdPrefix : Bytes := ascii ['-', 'D', 'S', '0', '0', '0', '2', '-']

/-- `generate_peer_id`, with the answer of `os.urandom`. -/
def generatePeerId (random : Bytes) : Except Failure Bytes := do
  assert (peerIdPrefix.length < nodeIdLength)
  let result := peerIdPrefix ++ random
  assert (result.length = nodeIdLength)
  return result

def openingMessages (infoHash random : Bytes) : Except Failure Bytes := do
  assert (infoHash.length = nodeIdLength)
  let peerId ← generatePeerId random
  let handshake ← encodeHandshake infoHash peerId
  let extendedHandshake ← encodeExtendedHandshake
  let result := handshake ++ extendedHandshake
  assert (handshakeLength < result.length)
  return result

def readFrame (stream : ByteStream) : Except Interrupted ((ℤ × Bytes) × ByteStream) := do
  let (header, stream) ← stream.readExactly frameHeaderLength .closed
  let length ← stream.call (decodeFrameLength header)
  if length = 0 then
    return ((keepAliveId, []), stream)
  else if maxFrameLength < length then
    stream.raise (.fetch .frameTooLarge)
  else do
    let (body, stream) ← stream.readExactly length .closed
    let result : ℤ × Bytes := ((body.getD 0 0).toNat, body.drop 1)
    let _ ← stream.call (assert (0 ≤ result.1 ∧ result.1 ≤ 255))
    return (result, stream)

def readHandshake (stream : ByteStream) (infoHash : Bytes) : Except Interrupted ByteStream := do
  let _ ← stream.call (assert (infoHash.length = nodeIdLength))
  let (data, stream) ← stream.readExactly handshakeLength .closedOnHandshake
  match decodeHandshake data with
  | .error (.valueError _) => stream.raise (.fetch .badHandshake)
  | .error failure => stream.raise (.failure failure)
  | .ok (remoteHash, _, supportsExtensions) =>
    if remoteHash ≠ infoHash then stream.raise (.fetch .hashMismatch)
    else if !supportsExtensions then stream.raise (.fetch .noExtensions)
    else return stream

section Receive

variable (tooDeep : Bytes → Bool)

/-- One round of the loop of `receive_extended`. -/
def receiveExtendedRound (extensionId : ℕ) (stream : ByteStream) :
    Except Interrupted (ByteStream ⊕ ((Payload × Bytes) × ByteStream)) := do
  let ((messageId, body), stream) ← readFrame stream
  if messageId ≠ messageExtended then
    return .inl stream
  else if tooDeep body then
    stream.raise (.fetch .badExtendedMessage)
  else match decodeExtendedMessage body with
    | .error (.valueError _) => stream.raise (.fetch .badExtendedMessage)
    | .error failure => stream.raise (.failure failure)
    | .ok (receivedId, payload, trailing) =>
      if receivedId = extensionId then return .inr ((payload, trailing), stream)
      else return .inl stream

/-- Every round reads at least one byte, which bounds the number of rounds. -/
def receiveExtended (extensionId : ℕ) (stream : ByteStream) :
    Except Interrupted ((Payload × Bytes) × ByteStream) := do
  let _ ← stream.call (assert (extensionId ≤ 255))
  loop (fun stream ↦ ⟨.failure .outOfFuel, stream.log⟩) (receiveExtendedRound tooDeep extensionId)
    (stream.incoming.length + 1) stream

def receiveExtendedHandshake (stream : ByteStream) : Except Interrupted ((ℕ × ℕ) × ByteStream) := do
  let ((payload, _), stream) ← receiveExtended tooDeep extendedHandshakeId stream
  match readExtendedHandshake payload with
  | .error (.valueError text) => stream.raise (metadataFetchError text)
  | .error failure => stream.raise (.failure failure)
  | .ok (theirId, metadataSize) => do
    let _ ← stream.call (assert ((1 ≤ theirId ∧ theirId ≤ 255) ∧ 0 < metadataSize))
    return ((theirId.toNat, metadataSize.toNat), stream)

/-- One round of the loop of `receive_piece`.  The numbers of a decoded message are not negative. -/
def receivePieceRound (outstanding : Finset ℕ) (metadataSize : ℕ) (stream : ByteStream) :
    Except Interrupted (ByteStream ⊕ ((ℕ × Bytes) × ByteStream)) := do
  let ((payload, data), stream) ← receiveExtended tooDeep utMetadataLocalId stream
  match decodeMetadataMessage payload with
  | .error (.valueError _) => stream.raise (.fetch .badPiece)
  | .error failure => stream.raise (.failure failure)
  | .ok (msgType, piece, totalSize) =>
    if piece.toNat ∉ outstanding then return .inl stream
    else if msgType = msgTypeReject then stream.raise (.fetch .reject)
    else if msgType ≠ msgTypeData then return .inl stream
    else do
      let expected ← stream.call (expectedPieceLength metadataSize piece.toNat)
      if data.length ≠ expected ∨ (totalSize ≠ none ∧ totalSize ≠ some (metadataSize : ℤ)) then
        stream.raise (.fetch .badPiece)
      else return .inr ((piece.toNat, data), stream)

def receivePiece (outstanding : Finset ℕ) (metadataSize : ℕ) (stream : ByteStream) :
    Except Interrupted ((ℕ × Bytes) × ByteStream) := do
  let _ ← stream.call (assert (outstanding.Nonempty ∧ 0 < metadataSize))
  let ((piece, data), stream) ← loop (fun stream ↦ ⟨.failure .outOfFuel, stream.log⟩)
    (receivePieceRound tooDeep outstanding metadataSize) (stream.incoming.length + 1) stream
  let _ ← stream.call (assert (piece ∈ outstanding))
  return ((piece, data), stream)

/-- The local variables of `request_pieces`. -/
structure PieceRequests where
  pieces : OrderedMap ℕ Bytes
  outstanding : Finset ℕ
  nextPiece : ℕ
  deriving DecidableEq

/-- One round of the inner loop of `request_pieces`: the next request, while the window has room. -/
def requestRound (theirId count : ℕ) (state : PieceRequests × ByteStream) :
    Except Interrupted ((PieceRequests × ByteStream) ⊕ (PieceRequests × ByteStream)) :=
  let (requests, stream) := state
  if requests.nextPiece < count ∧ requests.outstanding.card < pieceWindow then do
    let request ← stream.call (encodeMetadataRequest theirId requests.nextPiece)
    let stream ← stream.write request
    return .inl ({ requests with
      outstanding := insert requests.nextPiece requests.outstanding
      nextPiece := requests.nextPiece + 1 }, stream)
  else return .inr (requests, stream)

/-- One round of the outer loop of `request_pieces`. -/
def pieceRound (theirId metadataSize count : ℕ) (state : PieceRequests × ByteStream) :
    Except Interrupted ((PieceRequests × ByteStream) ⊕ (PieceRequests × ByteStream)) :=
  if state.1.pieces.size < count then do
    let (requests, stream) ← loop (fun (_, stream) ↦ ⟨.failure .outOfFuel, stream.log⟩)
      (requestRound theirId count) (count + 1) state
    let ((piece, data), stream) ← receivePiece tooDeep requests.outstanding metadataSize stream
    return .inl ({ requests with
      outstanding := requests.outstanding.erase piece
      pieces := requests.pieces.insert piece data }, stream)
  else return .inr state

/-- `pieces[index]` for the indices in order; `KeyError` is not among the failures, a missing piece
counts as a failed assertion. -/
def joinPieces (pieces : OrderedMap ℕ Bytes) (indices : List ℕ) : Except Failure Bytes :=
  match indices with
  | [] => .ok []
  | index :: rest =>
    match pieces.get? index with
    | none => .error .assertionError
    | some data => do
      let tail ← joinPieces pieces rest
      return data ++ tail

def requestPieces (theirId metadataSize : ℕ) (stream : ByteStream) :
    Except Interrupted (Bytes × ByteStream) := do
  let _ ← stream.call (assert ((1 ≤ theirId ∧ theirId ≤ 255) ∧ 0 < metadataSize))
  let count ← stream.call (pieceCount metadataSize)
  let (requests, stream) ← loop (fun (_, stream) ↦ ⟨.failure .outOfFuel, stream.log⟩)
    (pieceRound tooDeep theirId metadataSize count) (count + 1) (⟨OrderedMap.empty, ∅, 0⟩, stream)
  let result ← stream.call (joinPieces requests.pieces (List.range count))
  let _ ← stream.call (assert (result.length = metadataSize))
  return (result, stream)

def runSession (stream : ByteStream) (infoHash random : Bytes) (sendHandshakes : Bool) :
    Except Interrupted (Bytes × ByteStream) := do
  let _ ← stream.call (assert (infoHash.length = nodeIdLength))
  let opened : Except Interrupted ByteStream :=
    if sendHandshakes then do
      let opening ← stream.call (openingMessages infoHash random)
      stream.write opening
    else .ok stream
  let stream ← opened
  let stream ← readHandshake stream infoHash
  let ((theirId, metadataSize), stream) ← receiveExtendedHandshake tooDeep stream
  let (result, stream) ← requestPieces tooDeep theirId metadataSize stream
  let _ ← stream.call (assert (result.length = metadataSize))
  return (result, stream)

end Receive

end DhtScraper
