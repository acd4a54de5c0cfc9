import DhtScraper.Codec.RoundTrip
import DhtScraper.Library.Loop

/-!
# Peer wire messages

The handshake, the frames and the extended messages of a metadata session, and the arithmetic of
metadata pieces.  A dictionary payload is the list of its items.
-/

namespace DhtScraper

open BencodeValue Library

/-- The items of a decoded dictionary. -/
abbrev Payload := List (Bytes × BencodeValue)

def handshakeLength : ℕ := 68
def protocolName : Bytes :=
  ascii ['B', 'i', 't', 'T', 'o', 'r', 'r', 'e', 'n', 't', ' ', 'p', 'r', 'o', 't', 'o', 'c', 'o', 'l']
def extensionReservedIndex : ℕ := 5
def extensionBit : UInt8 := 0x10
def frameHeaderLength : ℕ := 4
def messageExtended : ℕ := 20
def extendedHandshakeId : ℕ := 0
def utMetadataLocalId : ℕ := 1
def metadataPieceSize : ℕ := 16384
def maxMetadataSize : ℕ := 4 * 1024 * 1024
def maxFrameLength : ℕ := 1024 * 1024
def msgTypeRequest : ℤ := 0
def msgTypeData : ℤ := 1
def msgTypeReject : ℤ := 2
def clientVersion : Bytes :=
  ascii ['d', 'h', 't', '_', 's', 'c', 'r', 'a', 'p', 'e', 'r', ' ', '2', '.', '0']
def keepAliveId : ℤ := -1

def keyM : Bytes := ascii ['m']
def keyV : Bytes := ascii ['v']
def keyUtMetadata : Bytes := ascii ['u', 't', '_', 'm', 'e', 't', 'a', 'd', 'a', 't', 'a']
def keyMetadataSize : Bytes :=
  ascii ['m', 'e', 't', 'a', 'd', 'a', 't', 'a', '_', 's', 'i', 'z', 'e']
def keyMsgType : Bytes := ascii ['m', 's', 'g', '_', 't', 'y', 'p', 'e']
def keyPiece : Bytes := ascii ['p', 'i', 'e', 'c', 'e']
def keyTotalSize : Bytes := ascii ['t', 'o', 't', 'a', 'l', '_', 's', 'i', 'z', 'e']

/-! ## Handshake -/

def encodeHandshake (infoHash peerId : Bytes) : Except Failure Bytes := do
  assert (infoHash.length = nodeIdLength ∧ peerId.length = nodeIdLength)
  let reserved := (List.replicate 8 (0 : UInt8)).modify extensionReservedIndex (· ||| extensionBit)
  let result := protocolName.length.toUInt8 :: (protocolName ++ reserved ++ infoHash ++ peerId)
  assert (result.length = handshakeLength ∧ slice result 28 48 = infoHash)
  return result

/-- The info hash, the peer id and whether the peer supports extensions. -/
def decodeHandshake (data : Bytes) : Except Failure (Bytes × Bytes × Bool) :=
  if data.length ≠ handshakeLength ∨ data[0]? ≠ some protocolName.length.toUInt8 ∨
      slice data 1 20 ≠ protocolName then
    .error (.valueError "bad_handshake")
  else do
    let supportsExtensions := (data.getD (20 + extensionReservedIndex) 0 &&& extensionBit) ≠ 0
    let infoHash := slice data 28 48
    let peerId := slice data 48 68
    assert (infoHash.length = nodeIdLength ∧ peerId.length = nodeIdLength)
    return (infoHash, peerId, supportsExtensions)

/-! ## Frames -/

/-- `struct.pack("!I", value)`. -/
def packLength (value : ℕ) : Except Failure Bytes :=
  if value < 2 ^ 32 then .ok (toBigEndian 4 value) else .error .structError

def encodeFrame (messageId : ℕ) (payload : Bytes) : Except Failure Bytes := do
  assert (messageId ≤ 255)
  let header ← packLength (1 + payload.length)
  let result := header ++ messageId.toUInt8 :: payload
  assert (result.length = frameHeaderLength + 1 + payload.length)
  return result

def decodeFrameLength (header : Bytes) : Except Failure ℕ := do
  assert (header.length = frameHeaderLength)
  return fromBigEndian header

/-! ## Extended messages -/

def encodeExtendedMessage (extensionId : ℕ) (payload : Payload) (trailing : Bytes) :
    Except Failure Bytes := do
  assert (extensionId ≤ 255)
  let result ← encodeFrame messageExtended
    (extensionId.toUInt8 :: (encodeBencode (.dict payload) ++ trailing))
  assert (result[4]? = some messageExtended.toUInt8 ∧ result[5]? = some extensionId.toUInt8)
  return result

/-- `decode_extended_message` on a body within the limits of the interpreter. -/
def decodeExtendedMessage (body : Bytes) : Except Failure (ℕ × Payload × Bytes) :=
  if body.length < 2 then .error (.valueError "bad_extended_message")
  else do
    let extensionId := (body.getD 0 0).toNat
    let (payload, nextIndex) ← decodeValueAt body 1
    match payload with
    | .dict items => do
      assert (extensionId ≤ 255)
      return (extensionId, items, body.drop nextIndex)
    | _ => .error (.valueError "bad_extended_message")

def encodeExtendedHandshake : Except Failure Bytes := do
  let result ← encodeExtendedMessage extendedHandshakeId
    [(keyM, .dict [(keyUtMetadata, .int utMetadataLocalId)]), (keyV, .bytes clientVersion)] []
  assert (result[5]? = some extendedHandshakeId.toUInt8)
  return result

/-- The peer's id for `ut_metadata` and the size of the metadata. -/
def readExtendedHandshake (payload : Payload) : Except Failure (ℤ × ℤ) :=
  let theirId := match payload.lookup keyM with
    | some (.dict extensions) => extensions.lookup keyUtMetadata
    | _ => none
  match theirId with
  | some (.int theirId) =>
    if ¬(1 ≤ theirId ∧ theirId ≤ 255) then .error (.valueError "no_ut_metadata")
    else match payload.lookup keyMetadataSize with
      | some (.int metadataSize) =>
        if metadataSize ≤ 0 then .error (.valueError "no_ut_metadata")
        else if maxMetadataSize < metadataSize then .error (.valueError "too_large")
        else do
          assert ((1 ≤ theirId ∧ theirId ≤ 255) ∧ 0 < metadataSize ∧ metadataSize ≤ maxMetadataSize)
          return (theirId, metadataSize)
      | _ => .error (.valueError "no_ut_metadata")
  | _ => .error (.valueError "no_ut_metadata")

def encodeMetadataRequest (theirId piece : ℕ) : Except Failure Bytes := do
  assert (1 ≤ theirId ∧ theirId ≤ 255)
  let result ← encodeExtendedMessage theirId
    [(keyMsgType, .int msgTypeRequest), (keyPiece, .int piece)] []
  assert (result[5]? = some theirId.toUInt8)
  return result

/-- The message type, the piece and the total size of a `ut_metadata` message. -/
def decodeMetadataMessage (payload : Payload) : Except Failure (ℤ × ℤ × Option ℤ) :=
  match payload.lookup keyMsgType, payload.lookup keyPiece with
  | some (.int msgType), some (.int piece) =>
    if msgType < 0 ∨ piece < 0 then .error (.valueError "bad_piece")
    else match payload.lookup keyTotalSize with
      | none => do
        assert (0 ≤ msgType ∧ 0 ≤ piece)
        return (msgType, piece, none)
      | some (.int totalSize) =>
        if totalSize < 0 then .error (.valueError "bad_piece")
        else do
          assert (0 ≤ msgType ∧ 0 ≤ piece)
          return (msgType, piece, some totalSize)
      | some _ => .error (.valueError "bad_piece")
  | _, _ => .error (.valueError "bad_piece")

/-! ## Pieces -/

def pieceCount (metadataSize : ℕ) : Except Failure ℕ := do
  assert (0 < metadataSize)
  let result := (metadataSize + metadataPieceSize - 1) / metadataPieceSize
  assert (1 ≤ result ∧ (result - 1) * metadataPieceSize < metadataSize ∧
    metadataSize ≤ result * metadataPieceSize)
  return result

def expectedPieceLength (metadataSize piece : ℕ) : Except Failure ℕ := do
  let count ← pieceCount metadataSize
  assert (0 < metadataSize ∧ piece < count)
  let result := min metadataPieceSize (metadataSize - piece * metadataPieceSize)
  assert (0 < result ∧ result ≤ metadataPieceSize)
  return result

/-! ## What is written is read back -/

theorem packLength_eq_ok {value : ℕ} (h : value < 2 ^ 32) :
    packLength value = .ok (toBigEndian 4 value) := if_pos h

theorem decodeFrameLength_packLength {value : ℕ} (h : value < 2 ^ 32) :
    decodeFrameLength (toBigEndian 4 value) = .ok value := by
  have hlength : (toBigEndian 4 value).length = frameHeaderLength := length_toBigEndian 4 value
  rw [decodeFrameLength, assert_true hlength, ok_bind, fromBigEndian_toBigEndian (by simpa using h)]
  rfl

/-- The part of a handshake before the info hash, with the bit for extensions set. -/
def handshakeStart : Bytes :=
  protocolName.length.toUInt8 ::
    (protocolName ++ (List.replicate 8 (0 : UInt8)).modify extensionReservedIndex (· ||| extensionBit))

theorem encodeHandshake_eq {infoHash peerId : Bytes} (hhash : infoHash.length = nodeIdLength)
    (hpeer : peerId.length = nodeIdLength) :
    encodeHandshake infoHash peerId = .ok (handshakeStart ++ (infoHash ++ peerId)) := by
  have hstart : handshakeStart.length = 28 := by decide
  have hresult : protocolName.length.toUInt8 :: (protocolName ++
      (List.replicate 8 (0 : UInt8)).modify extensionReservedIndex (· ||| extensionBit) ++ infoHash ++
        peerId) = handshakeStart ++ (infoHash ++ peerId) := by simp [handshakeStart]
  have hlength : (handshakeStart ++ (infoHash ++ peerId)).length = handshakeLength := by
    rw [List.length_append, List.length_append, hstart, hhash, hpeer]
    rfl
  have hdrop : (handshakeStart ++ (infoHash ++ peerId)).drop 28 = infoHash ++ peerId := by
    rw [← hstart, List.drop_left]
  have hslice : slice (handshakeStart ++ (infoHash ++ peerId)) 28 48 = infoHash := by
    have hread := slice_of_drop hdrop
    rwa [hhash] at hread
  rw [encodeHandshake, assert_true ⟨hhash, hpeer⟩, ok_bind]
  simp only [hresult]
  rw [assert_true ⟨hlength, hslice⟩, ok_bind]
  rfl

/-- A frame is the length of what follows, the message id and the payload. -/
theorem encodeFrame_eq {messageId : ℕ} {payload : Bytes} (hid : messageId ≤ 255)
    (hlength : 1 + payload.length < 2 ^ 32) : encodeFrame messageId payload =
      .ok (toBigEndian 4 (1 + payload.length) ++ messageId.toUInt8 :: payload) := by
  rw [encodeFrame, assert_true hid, ok_bind, packLength_eq_ok hlength, ok_bind]
  simp only
  rw [assert_true (by simp [frameHeaderLength]; omega), ok_bind]
  rfl

/-- The body of an extended message: its id, the encoded dictionary, then bytes that belong to no
dictionary. -/
def extendedBody (extensionId : ℕ) (payload : Payload) (trailing : Bytes) : Bytes :=
  extensionId.toUInt8 :: (encodeBencode (.dict payload) ++ trailing)

theorem encodeExtendedMessage_eq {extensionId : ℕ} {payload : Payload} {trailing : Bytes}
    (hid : extensionId ≤ 255)
    (hlength : 1 + (extendedBody extensionId payload trailing).length < 2 ^ 32) :
    encodeExtendedMessage extensionId payload trailing =
      .ok (toBigEndian 4 (1 + (extendedBody extensionId payload trailing).length) ++
        messageExtended.toUInt8 :: extendedBody extensionId payload trailing) := by
  have hframe := encodeFrame_eq (show messageExtended ≤ 255 by decide) hlength
  rw [encodeExtendedMessage, assert_true hid, ok_bind]
  simp only [extendedBody] at hframe ⊢
  rw [hframe, ok_bind, assert_true ?_, ok_bind]
  · rfl
  · have hheader := length_toBigEndian 4
      (1 + (extensionId.toUInt8 :: (encodeBencode (.dict payload) ++ trailing)).length)
    constructor <;> rw [List.getElem?_append_right (by omega), hheader] <;> rfl

theorem encodeExtendedHandshake_eq : ∃ frame, encodeExtendedHandshake = .ok frame ∧ frame ≠ [] := by
  have hframe : encodeExtendedMessage extendedHandshakeId
      [(keyM, .dict [(keyUtMetadata, .int utMetadataLocalId)]), (keyV, .bytes clientVersion)] [] = _ :=
    encodeExtendedMessage_eq (by decide) (by decide +kernel)
  rw [encodeExtendedHandshake, hframe, ok_bind, assert_true (by decide +kernel), ok_bind]
  exact ⟨_, rfl, by simp⟩

/-- A message is not encoded exactly when its length does not fit the four bytes of the header. -/
theorem encodeExtendedMessage_of_le {extensionId : ℕ} {payload : Payload} {trailing : Bytes}
    (hid : extensionId ≤ 255)
    (hlength : 2 ^ 32 ≤ 1 + (extendedBody extensionId payload trailing).length) :
    encodeExtendedMessage extensionId payload trailing = .error .structError := by
  rw [encodeExtendedMessage, assert_true hid, ok_bind, encodeFrame,
    assert_true (show messageExtended ≤ 255 by decide), ok_bind, packLength]
  simp only [extendedBody] at hlength
  rw [if_neg (by omega), error_bind, error_bind]

theorem two_le_length_encode_dict (items : Payload) : 2 ≤ (encodeBencode (.dict items)).length := by
  rw [encodeBencode]
  simp

theorem decodeExtendedMessage_body {extensionId : ℕ} {payload : Payload} (trailing : Bytes)
    (hid : extensionId ≤ 255) (h : (BencodeValue.dict payload).WellFormed) :
    ∃ read, decodeExtendedMessage (extendedBody extensionId payload trailing) =
      .ok (extensionId, read, trailing) ∧ (BencodeValue.dict payload).Same (.dict read) := by
  obtain ⟨value, hread, hsame⟩ := decodeValueAt_encode h [extensionId.toUInt8] trailing
  cases hsame with
  | @dict _ read hkeys hvalues =>
    refine ⟨read, ?_, .dict hkeys hvalues⟩
    have hbyte : (extensionId.toUInt8).toNat = extensionId := by
      rw [UInt8.toNat_ofNat']
      omega
    have hlen := two_le_length_encode_dict payload
    have hdrop : (extendedBody extensionId payload trailing).drop
        ([extensionId.toUInt8].length + (encodeBencode (.dict payload)).length) = trailing := by
      have hbody : extendedBody extensionId payload trailing =
          ([extensionId.toUInt8] ++ encodeBencode (.dict payload)) ++ trailing := by
        simp [extendedBody]
      rw [hbody, ← List.length_append, List.drop_left]
    have hread' : decodeValueAt (extendedBody extensionId payload trailing) 1 = .ok (.dict read,
        [extensionId.toUInt8].length + (encodeBencode (.dict payload)).length) := hread
    have hhead : ((extendedBody extensionId payload trailing).getD 0 0).toNat = extensionId := hbyte
    have hlong : ¬(extendedBody extensionId payload trailing).length < 2 := by
      simp only [extendedBody, List.length_cons, List.length_append]
      omega
    rw [decodeExtendedMessage, if_neg hlong]
    simp only [hhead, hread', ok_bind, hdrop]
    rw [assert_true hid, ok_bind]
    rfl

/-- Encoding is undone by decoding in any context: whatever stands before and after the encoded
value, the decoder reads the value and stops at its end, so decoding an encoded value gives it back
and the order of insertion of a dictionary is invisible.  A frame that an extended message was
encoded to gives the id, the dictionary and the trailing bytes back after its length and message id;
the encoder refuses only a message that is too long for the length in its header. -/
theorem encode_undone :
    (∀ value : BencodeValue, value.WellFormed → ∀ before after : Bytes,
      ∃ read, decodeValueAt (before ++ encodeBencode value ++ after) before.length =
        .ok (read, before.length + (encodeBencode value).length) ∧ value.Same read) ∧
    (∀ value : BencodeValue, value.WellFormed →
      ∃ read, decodeBencode (encodeBencode value) = .ok read ∧ value.Same read) ∧
    (∀ left right : BencodeValue, left.WellFormed → right.WellFormed → left.Same right →
      encodeBencode left = encodeBencode right) ∧
    ∀ (extensionId : ℕ) (payload : Payload) (trailing : Bytes), extensionId ≤ 255 →
      (BencodeValue.dict payload).WellFormed →
        match encodeExtendedMessage extensionId payload trailing with
        | .ok frame => ∃ read, decodeExtendedMessage (frame.drop 5) =
            .ok (extensionId, read, trailing) ∧ (BencodeValue.dict payload).Same (.dict read)
        | .error failure => failure = .structError ∧
            2 ^ 32 ≤ 2 + (encodeBencode (.dict payload)).length + trailing.length := by
  refine ⟨fun _ h ↦ decodeValueAt_encode h, fun _ h ↦ decodeBencode_encode h,
    fun _ _ ↦ encode_eq_of_same, ?_⟩
  intro extensionId payload trailing hid h
  have hlength : (extendedBody extensionId payload trailing).length =
      1 + (encodeBencode (.dict payload)).length + trailing.length := by
    simp only [extendedBody, List.length_cons, List.length_append]
    omega
  by_cases hfits : 1 + (extendedBody extensionId payload trailing).length < 2 ^ 32
  · have hframe : (toBigEndian 4 (1 + (extendedBody extensionId payload trailing).length) ++
        messageExtended.toUInt8 :: extendedBody extensionId payload trailing).drop 5 =
          extendedBody extensionId payload trailing := rfl
    rw [encodeExtendedMessage_eq hid hfits]
    simp only [hframe]
    exact decodeExtendedMessage_body trailing hid h
  · rw [encodeExtendedMessage_of_le hid (by omega)]
    exact ⟨rfl, by omega⟩

/-- A request for piece 0, with bytes behind it that look like a dictionary. -/
theorem encode_undone_request :
    match encodeExtendedMessage 3 [(keyMsgType, .int 0), (keyPiece, .int 0)] [100, 101] with
    | .ok frame => ∃ read, decodeExtendedMessage (frame.drop 5) = .ok (3, read, [100, 101]) ∧
        (BencodeValue.dict [(keyMsgType, .int 0), (keyPiece, .int 0)]).Same (.dict read)
    | .error failure => failure = .structError ∧ 2 ^ 32 ≤
        2 + (encodeBencode (.dict [(keyMsgType, .int 0), (keyPiece, .int 0)])).length +
          [(100 : UInt8), 101].length :=
  encode_undone.2.2.2 3 [(keyMsgType, .int 0), (keyPiece, .int 0)] [100, 101] (by decide)
    (.dict (by decide) fun item hitem ↦ by
      rcases List.mem_cons.mp hitem with rfl | hitem
      · exact .int 0
      · rw [List.mem_singleton.mp hitem]
        exact .int 0)

/-! ## What the functions answer

The decoders raise nothing but `ValueError`, and what they return has the form their assertions ask
for.
-/

def IsValueError (failure : Failure) : Prop := ∃ text, failure = .valueError text

theorem decodeHandshake_ends (data : Bytes) :
    Ends (decodeHandshake data) (fun _ ↦ True) IsValueError := by
  rw [decodeHandshake]
  split
  case isTrue => exact ⟨_, rfl⟩
  case isFalse h =>
    have hlength : data.length = 68 := by
      by_contra hne
      exact h (.inl hne)
    have hhash : (slice data 28 48).length = nodeIdLength := length_slice (by omega)
    have hpeer : (slice data 48 68).length = nodeIdLength := length_slice (by omega)
    simp only
    rw [assert_true ⟨hhash, hpeer⟩, ok_bind]
    trivial

theorem decodeFrameLength_ends {header : Bytes} (h : header.length = frameHeaderLength) :
    decodeFrameLength header = .ok (fromBigEndian header) := by
  rw [decodeFrameLength, assert_true h, ok_bind]
  rfl

theorem decodeExtendedMessage_ends (body : Bytes) :
    Ends (decodeExtendedMessage body) (fun _ ↦ True) IsValueError := by
  rw [decodeExtendedMessage]
  split
  case isTrue => exact ⟨_, rfl⟩
  case isFalse hlength =>
    have houtcome : Outcome Sentence body 1 (decodeValueAt body 1) := decodeValueAt_outcome (by omega)
    have hid : (body.getD 0 0).toNat ≤ 255 := by
      have hlt := (body.getD 0 0).toNat_lt
      omega
    simp only
    cases hread : decodeValueAt body 1 with
    | error failure =>
      rw [hread] at houtcome
      exact houtcome
    | ok result =>
      rw [ok_bind]
      obtain ⟨value, next⟩ := result
      cases value with
      | dict items =>
        simp only
        rw [assert_true hid, ok_bind]
        trivial
      | int _ => exact ⟨_, rfl⟩
      | bytes _ => exact ⟨_, rfl⟩
      | list _ => exact ⟨_, rfl⟩

theorem readExtendedHandshake_ends (payload : Payload) :
    Ends (readExtendedHandshake payload)
      (fun (theirId, metadataSize) ↦
        (1 ≤ theirId ∧ theirId ≤ 255) ∧ 0 < metadataSize ∧ metadataSize ≤ maxMetadataSize)
      (fun failure ↦ failure = .valueError "no_ut_metadata" ∨ failure = .valueError "too_large") := by
  rw [readExtendedHandshake]
  split
  case h_2 => exact .inl rfl
  case h_1 theirId _ =>
    split
    case isTrue => exact .inl rfl
    case isFalse hid =>
      split
      case h_2 => exact .inl rfl
      case h_1 metadataSize _ =>
        split
        case isTrue => exact .inl rfl
        case isFalse hpos =>
          split
          case isTrue => exact .inr rfl
          case isFalse hmax =>
            have hall : (1 ≤ theirId ∧ theirId ≤ 255) ∧ 0 < metadataSize ∧
                metadataSize ≤ maxMetadataSize :=
              ⟨not_not.mp hid, not_le.mp hpos, not_lt.mp hmax⟩
            rw [assert_true hall, ok_bind]
            exact hall

theorem decodeMetadataMessage_ends (payload : Payload) :
    Ends (decodeMetadataMessage payload) (fun (msgType, piece, _) ↦ 0 ≤ msgType ∧ 0 ≤ piece)
      IsValueError := by
  rw [decodeMetadataMessage]
  split
  case h_2 => exact ⟨_, rfl⟩
  case h_1 msgType piece _ _ =>
    split
    case isTrue => exact ⟨_, rfl⟩
    case isFalse hneg =>
      have hall : 0 ≤ msgType ∧ 0 ≤ piece := by omega
      split
      case h_1 =>
        rw [assert_true hall, ok_bind]
        exact hall
      case h_2 =>
        split
        case isTrue => exact ⟨_, rfl⟩
        case isFalse =>
          rw [assert_true hall, ok_bind]
          exact hall
      case h_3 => exact ⟨_, rfl⟩

/-- The number of pieces of metadata of a size. -/
def numPieces (metadataSize : ℕ) : ℕ := (metadataSize + metadataPieceSize - 1) / metadataPieceSize

/-- The length of a piece. -/
def pieceLength (metadataSize piece : ℕ) : ℕ :=
  min metadataPieceSize (metadataSize - piece * metadataPieceSize)

theorem numPieces_spec {metadataSize : ℕ} (h : 0 < metadataSize) :
    1 ≤ numPieces metadataSize ∧ (numPieces metadataSize - 1) * metadataPieceSize < metadataSize ∧
      metadataSize ≤ numPieces metadataSize * metadataPieceSize := by
  simp only [numPieces, metadataPieceSize]
  omega

theorem pieceCount_eq {metadataSize : ℕ} (h : 0 < metadataSize) :
    pieceCount metadataSize = .ok (numPieces metadataSize) := by
  have hspec := numPieces_spec h
  rw [pieceCount, assert_true h, ok_bind]
  simp only [numPieces] at hspec ⊢
  rw [assert_true hspec, ok_bind]
  rfl

theorem pieceLength_pos {metadataSize piece : ℕ} (h : piece < numPieces metadataSize) :
    0 < pieceLength metadataSize piece := by
  simp only [numPieces, pieceLength, metadataPieceSize] at h ⊢
  omega

theorem expectedPieceLength_eq {metadataSize piece : ℕ} (hpos : 0 < metadataSize)
    (h : piece < numPieces metadataSize) :
    expectedPieceLength metadataSize piece = .ok (pieceLength metadataSize piece) := by
  have hlength : 0 < pieceLength metadataSize piece ∧
      pieceLength metadataSize piece ≤ metadataPieceSize := ⟨pieceLength_pos h, min_le_left _ _⟩
  rw [expectedPieceLength, pieceCount_eq hpos, ok_bind, assert_true ⟨hpos, h⟩, ok_bind]
  simp only [pieceLength] at hlength ⊢
  rw [assert_true hlength, ok_bind]
  rfl

/-- The lengths of the first pieces add up to where the next one begins. -/
theorem sum_pieceLength {metadataSize count : ℕ} (h : count ≤ numPieces metadataSize) :
    ((List.range count).map (pieceLength metadataSize)).sum =
      min metadataSize (count * metadataPieceSize) := by
  induction count with
  | zero => simp
  | succ count ih =>
    rw [List.range_succ, List.map_append, List.sum_append, ih (by omega)]
    simp only [numPieces, pieceLength, metadataPieceSize, List.map_cons, List.map_nil,
      List.sum_cons, List.sum_nil] at h ⊢
    omega

theorem numPieces_le {metadataSize : ℕ} (h : metadataSize ≤ maxMetadataSize) :
    numPieces metadataSize ≤ 256 := by
  simp only [maxMetadataSize, numPieces, metadataPieceSize] at h ⊢
  omega

theorem length_digitsOf_le {value count : ℕ} (hpos : 0 < count) (h : value < 10 ^ count) :
    (digitsOf value).length ≤ count := by
  rw [digitsOf, ascii, List.length_map]
  exact (Nat.length_toDigits_le_iff (by decide) hpos).mpr h

theorem length_encodeInt (value : ℕ) : (encodeInt value).length = 2 + (digitsOf value).length := by
  have hsign : ¬((value : ℤ) < 0) := by omega
  rw [encodeInt, if_neg hsign, Int.natAbs_natCast]
  simp only [List.length_append, List.length_cons, List.length_nil]
  omega

theorem length_encode_dict (items : Payload) : (encodeBencode (.dict items)).length =
    2 + ((encodeParts items).map fun part ↦ part.2.length).sum := by
  have hsum : (((encodeParts items).insertionSort keyLe).map fun part ↦ part.2.length).sum =
      ((encodeParts items).map fun part ↦ part.2.length).sum :=
    ((List.perm_insertionSort keyLe _).map _).sum_eq
  calc (encodeBencode (.dict items)).length
      = 1 + (((encodeParts items).insertionSort keyLe).map fun part ↦ part.2.length).sum + 1 := by
        rw [encodeBencode]
        simp [List.length_flatMap, Nat.add_comm]
    _ = 2 + ((encodeParts items).map fun part ↦ part.2.length).sum := by
        rw [hsum]
        omega

/-- The payload of a request for a piece. -/
def requestPayload (piece : ℕ) : Payload := [(keyMsgType, .int msgTypeRequest), (keyPiece, .int piece)]

/-- The bytes of a request for a piece. -/
def metadataRequest (theirId piece : ℕ) : Bytes :=
  toBigEndian 4 (1 + (extendedBody theirId (requestPayload piece) []).length) ++
    messageExtended.toUInt8 :: extendedBody theirId (requestPayload piece) []

theorem length_requestBody (theirId : ℕ) {piece : ℕ} (h : piece < 1000) :
    (extendedBody theirId (requestPayload piece) []).length < 100 := by
  have hdigits : (digitsOf piece).length ≤ 3 := length_digitsOf_le (by decide) h
  have hkeys : (encodeBytes keyMsgType ++ encodeInt msgTypeRequest).length = 13 ∧
      (encodeBytes keyPiece).length = 7 := by decide
  have hdict : (encodeBencode (.dict (requestPayload piece))).length =
      2 + (13 + (7 + (2 + (digitsOf piece).length))) := by
    rw [length_encode_dict]
    simp only [requestPayload, encodeParts, encodeBencode, List.map_cons, List.map_nil,
      List.sum_cons, List.sum_nil, hkeys.1, List.length_append, hkeys.2,
      length_encodeInt, Nat.add_zero]
  rw [extendedBody, List.append_nil, List.length_cons, hdict]
  omega

theorem encodeMetadataRequest_eq {theirId piece : ℕ} (hid : 1 ≤ theirId ∧ theirId ≤ 255)
    (hpiece : piece < 1000) :
    encodeMetadataRequest theirId piece = .ok (metadataRequest theirId piece) := by
  have hlength := length_requestBody theirId hpiece
  have hbyte : (metadataRequest theirId piece)[5]? = some theirId.toUInt8 := by
    rw [metadataRequest, List.getElem?_append_right (by simp), length_toBigEndian]
    rfl
  rw [encodeMetadataRequest, assert_true hid, ok_bind]
  have hencode : encodeExtendedMessage theirId (requestPayload piece) [] = _ :=
    encodeExtendedMessage_eq hid.2 (by omega)
  simp only [requestPayload, metadataRequest] at hencode hbyte ⊢
  rw [hencode, ok_bind, assert_true hbyte, ok_bind]
  rfl

theorem metadataRequest_ne_nil (theirId piece : ℕ) : metadataRequest theirId piece ≠ [] := by
  simp [metadataRequest]

theorem requestPayload_wellFormed (piece : ℕ) :
    (BencodeValue.dict (requestPayload piece)).WellFormed := by
  refine .dict (by simp only [requestPayload, List.map_cons, List.map_nil]; decide) ?_
  intro item hitem
  rcases List.mem_cons.mp hitem with rfl | hitem
  · exact .int _
  · rw [List.mem_singleton.mp hitem]
    exact .int _

theorem lookup_of_same {left right : Payload} {key : Bytes} {value : BencodeValue}
    (h : (BencodeValue.dict left).Same (.dict right)) (hleft : left.lookup key = some value) :
    ∃ value', right.lookup key = some value' ∧ value.Same value' := by
  cases h with
  | dict hkeys hvalues =>
    have hpresent : (right.lookup key).isSome := by
      rw [← hkeys, hleft]
      rfl
    obtain ⟨value', hright⟩ := Option.isSome_iff_exists.mp hpresent
    exact ⟨value', hright, hvalues key value value' hleft hright⟩

theorem lookup_int_of_same {left right : Payload} {key : Bytes} {value : ℤ}
    (h : (BencodeValue.dict left).Same (.dict right)) (hleft : left.lookup key = some (.int value)) :
    right.lookup key = some (.int value) := by
  obtain ⟨value', hright, hsame⟩ := lookup_of_same h hleft
  cases hsame
  exact hright

theorem lookup_none_of_same {left right : Payload} {key : Bytes}
    (h : (BencodeValue.dict left).Same (.dict right)) (hleft : left.lookup key = none) :
    right.lookup key = none := by
  cases h with
  | dict hkeys hvalues =>
    rw [← Option.isNone_iff_eq_none, ← Option.not_isSome, Bool.not_eq_true', ← hkeys, hleft]
    rfl

/-- A request tells which piece it asks for. -/
theorem metadataRequest_inj {theirId piece piece' : ℕ} (hid : theirId ≤ 255)
    (h : metadataRequest theirId piece = metadataRequest theirId piece') : piece = piece' := by
  have hbody : extendedBody theirId (requestPayload piece) [] =
      extendedBody theirId (requestPayload piece') [] := by
    have hdrop := congrArg (List.drop 5) h
    exact hdrop
  obtain ⟨read, hread, hsame⟩ := decodeExtendedMessage_body [] hid (requestPayload_wellFormed piece)
  obtain ⟨read', hread', hsame'⟩ :=
    decodeExtendedMessage_body [] hid (requestPayload_wellFormed piece')
  have heq : read = read' := by
    rw [hbody, hread'] at hread
    cases hread
    rfl
  have hpiece : read.lookup keyPiece = some (.int piece) := lookup_int_of_same hsame rfl
  have hpiece' : read.lookup keyPiece = some (.int piece') := heq ▸ lookup_int_of_same hsame' rfl
  rw [hpiece] at hpiece'
  simpa using hpiece'

end DhtScraper
