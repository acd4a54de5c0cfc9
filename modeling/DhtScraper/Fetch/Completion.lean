import DhtScraper.Fetch.Frames

/-!
# A session with an honest peer

A peer that answers the requests it has received, in any order and with any noise around its
answers, gets the session to return the metadata.  What the peer has received when it sends a frame
is what the session has written on the bytes before that frame.
-/

namespace DhtScraper

open Library

/-- The transfers of a session, whichever way it ended. -/
def transfers (outcome : Except Interrupted (Bytes × ByteStream)) : List Transfer :=
  match outcome with
  | .ok (_, stream) => stream.log
  | .error interrupted => interrupted.log

def Requested (theirId piece : ℕ) (log : List Transfer) : Prop :=
  .wrote (metadataRequest theirId piece) ∈ log

/-- An extended handshake that names the id for `ut_metadata` and the size of the metadata. -/
def Announces (tooDeep : Bytes → Bool) (theirId metadataSize : ℕ) (bytes : Bytes) : Prop :=
  ∃ body payload trailing extensions, bytes = extendedFrame body ∧ Readable tooDeep body ∧
    decodeExtendedMessage body = .ok (extendedHandshakeId, payload, trailing) ∧
    payload.lookup keyM = some (.dict extensions) ∧
    extensions.lookup keyUtMetadata = some (.int theirId) ∧
    payload.lookup keyMetadataSize = some (.int metadataSize)

/-- The session on the opening of a peer and what the peer has sent after it. -/
def sessionOn (tooDeep : Bytes → Bool) (infoHash random : Bytes) (sendHandshakes : Bool)
    (opening received : Bytes) (ending : Ending) : Except Interrupted (Bytes × ByteStream) :=
  runSession tooDeep ⟨opening ++ received, ending, []⟩ infoHash random sendHandshakes

/-- The opening of a peer that has the metadata: a handshake, noise and the extended handshake.  Its
extended messages are not `avoided` ones. -/
structure Greets (avoided : Bytes → Bool) (infoHash metadata : Bytes) (theirId : ℕ)
    (handshake : Bytes) (greeting : List Bytes) (hello : Bytes) : Prop where
  size : 1 ≤ metadata.length ∧ metadata.length ≤ maxMetadataSize
  id : 1 ≤ theirId ∧ theirId ≤ 255
  supports : ∃ peerId, decodeHandshake handshake = .ok (infoHash, peerId, true)
  quiet : ∀ bytes ∈ greeting, Noise avoided extendedHandshakeId bytes
  announces : Announces avoided theirId metadata.length hello

/-- The bytes of an honest peer: its opening, then answers among noise.  An answer is only given to a
request that was received, and every request is answered. -/
structure HonestPeer (avoided tooDeep : Bytes → Bool) (infoHash random : Bytes)
    (sendHandshakes : Bool) (metadata : Bytes) (theirId : ℕ) (handshake : Bytes)
    (greeting : List Bytes) (hello : Bytes) (answers : List Bytes) : Prop
    extends Greets avoided infoHash metadata theirId handshake greeting hello where
  frames : ∀ bytes ∈ answers, Noise avoided utMetadataLocalId bytes ∨
    ∃ piece, CarriesPiece avoided metadata piece bytes
  asked : ∀ before bytes after piece, answers = before ++ bytes :: after →
    CarriesPiece avoided metadata piece bytes → Requested theirId piece (transfers
      (sessionOn tooDeep infoHash random sendHandshakes
        (handshake ++ greeting.flatten ++ hello) before.flatten .deadline))
  answered : ∀ piece, Requested theirId piece (transfers
      (sessionOn tooDeep infoHash random sendHandshakes
        (handshake ++ greeting.flatten ++ hello) answers.flatten .deadline)) →
    ∃ bytes ∈ answers, CarriesPiece avoided metadata piece bytes

/-! ## Requests -/

theorem mem_writes {log : List Transfer} {data : Bytes} : data ∈ writes log ↔ .wrote data ∈ log := by
  simp only [writes, List.mem_filterMap]
  constructor
  · rintro ⟨transfer, hmem, htransfer⟩
    cases transfer with
    | wrote written =>
      cases htransfer
      exact hmem
    | read => cases htransfer
  · intro hmem
    exact ⟨_, hmem, rfl⟩

/-- Nothing written so far is a request. -/
def NoRequests (theirId : ℕ) (log : List Transfer) : Prop := ∀ piece, ¬Requested theirId piece log

section Requests

variable {theirId metadataSize : ℕ} {before log : List Transfer} {next : ℕ} {outstanding : Finset ℕ}
  {received : ℕ → Option Bytes}

theorem Exchange.requested_iff_lt (hid : theirId ≤ 255) (hbefore : NoRequests theirId before)
    (h : Exchange theirId metadataSize log next outstanding received) (piece : ℕ) :
    Requested theirId piece (before ++ log) ↔ piece < next := by
  have hnone : Transfer.wrote (metadataRequest theirId piece) ∉ before := hbefore piece
  rw [Requested, List.mem_append, or_iff_right hnone, ← mem_writes, h.writes_eq, List.mem_map]
  constructor
  · rintro ⟨piece', hmem, heq⟩
    rw [← metadataRequest_inj hid heq]
    exact List.mem_range.mp hmem
  · intro hlt
    exact ⟨piece, List.mem_range.mpr hlt, rfl⟩

/-- The inner loop of `request_pieces` asks for the same pieces whatever the stream holds. -/
theorem requestLoop_eq (hid : 1 ≤ theirId ∧ theirId ≤ 255) (hmax : metadataSize ≤ maxMetadataSize)
    {fuel : ℕ} {requests : PieceRequests}
    (hfuel : numPieces metadataSize - requests.nextPiece < fuel) :
    ∃ asked, ∀ before stream, Progress theirId metadataSize before (requests, stream) →
      ∃ next, loop (fun (_, stream) ↦ ⟨.failure .outOfFuel, stream.log⟩)
          (requestRound theirId (numPieces metadataSize)) fuel (requests, stream) = .ok (asked, next) ∧
        next.incoming = stream.incoming := by
  induction fuel generalizing requests with
  | zero => omega
  | succ fuel ih =>
    by_cases hroom : requests.nextPiece < numPieces metadataSize ∧
        requests.outstanding.card < pieceWindow
    · have hfewer : numPieces metadataSize - (requests.nextPiece + 1) < fuel := by omega
      obtain ⟨asked, hasked⟩ := @ih { requests with
        outstanding := insert requests.nextPiece requests.outstanding
        nextPiece := requests.nextPiece + 1 } hfewer
      refine ⟨asked, fun before stream hprogress ↦ ?_⟩
      have hle := numPieces_le hmax
      have hround : requestRound theirId (numPieces metadataSize) (requests, stream) =
          .ok (.inl ({ requests with
              outstanding := insert requests.nextPiece requests.outstanding
              nextPiece := requests.nextPiece + 1 },
            { stream with
              log := stream.log ++ [.wrote (metadataRequest theirId requests.nextPiece)] })) := by
        rw [requestRound, if_pos hroom,
          ByteStream.call_eq_ok (encodeMetadataRequest_eq hid (by omega)), ok_bind,
          ByteStream.write, if_neg (metadataRequest_ne_nil _ _), ok_bind]
        rfl
      have hnext := ((requestRound_ends hid hmax hprogress).of_ok hround).1.1
      obtain ⟨next, hloop, hincoming⟩ := hasked before _ hnext
      exact ⟨next, by rw [loop_next hround, hloop], hincoming⟩
    · refine ⟨requests, fun before stream hprogress ↦ ⟨stream, ?_, rfl⟩⟩
      rw [loop_break]
      rw [requestRound, if_neg hroom]
      rfl

end Requests

/-! ## Up to the first request -/

/-- What `request_pieces` and `run_session` do after the last piece. -/
def finishPieces (metadataSize : ℕ) (state : PieceRequests × ByteStream) :
    Except Interrupted (Bytes × ByteStream) := do
  let result ← state.2.call (joinPieces state.1.pieces (List.range (numPieces metadataSize)))
  let _ ← state.2.call (assert (result.length = metadataSize))
  let _ ← state.2.call (assert (result.length = metadataSize))
  return (result, state.2)

/-- The outer loop of `request_pieces`. -/
def pieceLoop (tooDeep : Bytes → Bool) (theirId metadataSize fuel : ℕ)
    (state : PieceRequests × ByteStream) : Except Interrupted (PieceRequests × ByteStream) :=
  loop (fun (_, stream) ↦ ⟨.failure .outOfFuel, stream.log⟩)
    (pieceRound tooDeep theirId metadataSize (numPieces metadataSize)) fuel state

theorem readHandshake_eq {stream : ByteStream} {infoHash handshake peerId rest : Bytes}
    (hhash : infoHash.length = nodeIdLength)
    (hhandshake : decodeHandshake handshake = .ok (infoHash, peerId, true))
    (hincoming : stream.incoming = handshake ++ rest) :
    ∃ next, readHandshake stream infoHash = .ok next ∧ stream.ReadUpTo rest next := by
  have hlength : handshake.length = handshakeLength := by
    by_contra hne
    rw [decodeHandshake, if_pos (.inl hne)] at hhandshake
    cases hhandshake
  have hne : handshake ≠ [] := by
    rintro rfl
    cases hlength
  obtain ⟨next, hread, hadvanced, hrest⟩ := stream.readExactly_append .closedOnHandshake hincoming hne
  rw [hlength] at hread
  refine ⟨next, ?_, hrest, _, hadvanced⟩
  rw [readHandshake, ByteStream.call_eq_ok (assert_true hhash), ok_bind, hread, ok_bind]
  simp only [hhandshake]
  rw [if_neg (not_not.mpr rfl), if_neg (by decide)]
  rfl

theorem readExtendedHandshake_eq {payload extensions : Payload} {theirId metadataSize : ℕ}
    (hid : 1 ≤ theirId ∧ theirId ≤ 255) (hpos : 0 < metadataSize)
    (hmax : metadataSize ≤ maxMetadataSize) (hm : payload.lookup keyM = some (.dict extensions))
    (htheir : extensions.lookup keyUtMetadata = some (.int theirId))
    (hsize : payload.lookup keyMetadataSize = some (.int metadataSize)) :
    readExtendedHandshake payload = .ok ((theirId : ℤ), (metadataSize : ℤ)) := by
  have hid' : (1 : ℤ) ≤ theirId ∧ (theirId : ℤ) ≤ 255 := by omega
  have hall : (1 ≤ (theirId : ℤ) ∧ (theirId : ℤ) ≤ 255) ∧ 0 < (metadataSize : ℤ) ∧
      (metadataSize : ℤ) ≤ maxMetadataSize := by omega
  simp only [readExtendedHandshake, hm, htheir, hsize]
  rw [if_neg (not_not.mpr hid'), if_neg (by omega), if_neg (by omega), assert_true hall, ok_bind]
  rfl

theorem receiveExtendedHandshake_eq {tooDeep : Bytes → Bool} {stream : ByteStream}
    {greeting : List Bytes} {hello rest : Bytes} {theirId metadataSize : ℕ}
    (hid : 1 ≤ theirId ∧ theirId ≤ 255) (hpos : 0 < metadataSize)
    (hmax : metadataSize ≤ maxMetadataSize)
    (hgreeting : ∀ bytes ∈ greeting, Noise tooDeep extendedHandshakeId bytes)
    (hhello : Announces tooDeep theirId metadataSize hello)
    (hincoming : stream.incoming = greeting.flatten ++ (hello ++ rest)) :
    ∃ next, receiveExtendedHandshake tooDeep stream = .ok ((theirId, metadataSize), next) ∧
      stream.ReadUpTo rest next := by
  obtain ⟨body, payload, trailing, extensions, rfl, hreadable, hdecoded, hm, htheir, hsize⟩ := hhello
  obtain ⟨next, hread, hnext⟩ :=
    receiveExtended_awaited (by decide) hgreeting hreadable hdecoded hincoming
  refine ⟨next, ?_, hnext⟩
  have hbounds : (1 ≤ (theirId : ℤ) ∧ (theirId : ℤ) ≤ 255) ∧ 0 < (metadataSize : ℤ) := by omega
  rw [receiveExtendedHandshake, hread, ok_bind]
  simp only [readExtendedHandshake_eq hid hpos hmax hm htheir hsize]
  rw [ByteStream.call_eq_ok (assert_true hbounds), ok_bind]
  rfl

theorem requestPieces_eq {tooDeep : Bytes → Bool} {stream : ByteStream} {theirId metadataSize : ℕ}
    (hid : 1 ≤ theirId ∧ theirId ≤ 255) (hpos : 0 < metadataSize) :
    (do
      let (result, stream) ← requestPieces tooDeep theirId metadataSize stream
      let _ ← stream.call (assert (result.length = metadataSize))
      return (result, stream)) =
    (do
      let state ← pieceLoop tooDeep theirId metadataSize (numPieces metadataSize + 1)
        (⟨OrderedMap.empty, ∅, 0⟩, stream)
      finishPieces metadataSize state) := by
  rw [requestPieces, ByteStream.call_eq_ok (assert_true ⟨hid, hpos⟩), ok_bind,
    ByteStream.call_eq_ok (pieceCount_eq hpos), ok_bind, pieceLoop]
  simp only [bind_assoc, finishPieces, pure_bind]

theorem metadataRequest_ne_opening (theirId piece : ℕ) (rest : Bytes) :
    metadataRequest theirId piece ≠ handshakeStart ++ rest := by
  intro h
  have hbyte : (metadataRequest theirId piece)[4]? = some messageExtended.toUInt8 := by
    rw [metadataRequest, List.getElem?_append_right (by simp), length_toBigEndian]
    rfl
  have hstart : (handshakeStart ++ rest)[4]? = some 84 := by
    rw [List.getElem?_append_left (by decide)]
    rfl
  rw [h, hstart] at hbyte
  cases hbyte

/-- What is written before the first request is no request. -/
theorem noRequests_opening {infoHash random rest : Bytes} (theirId : ℕ) (sendHandshakes : Bool)
    (hopening : openingMessages infoHash random = .ok (handshakeStart ++ rest)) (reads : List Bytes) :
    NoRequests theirId (openingTransfers sendHandshakes infoHash random ++ reads.map .read) := by
  intro piece hrequested
  rcases List.mem_append.mp hrequested with hmem | hmem
  · cases sendHandshakes with
    | false => cases hmem
    | true =>
      simp only [openingTransfers, hopening, List.mem_singleton, Transfer.wrote.injEq] at hmem
      exact metadataRequest_ne_opening theirId piece rest hmem
  · obtain ⟨data, -, hdata⟩ := List.mem_map.mp hmem
    cases hdata

/-- A session whose peer greets with a message beyond the interpreter's limits ends before its first
request. -/
theorem session_tooDeep {tooDeep : Bytes → Bool} {infoHash random handshake body peerId : Bytes}
    (sendHandshakes : Bool) (hhash : infoHash.length = nodeIdLength)
    (hrandom : peerIdPrefix.length + random.length = nodeIdLength)
    (hhandshake : decodeHandshake handshake = .ok (infoHash, peerId, true))
    (hfits : body.length + 1 ≤ maxFrameLength) (hdeep : tooDeep body) (rest : Bytes)
    (ending : Ending) :
    ∃ log, runSession tooDeep ⟨handshake ++ (extendedFrame body ++ rest), ending, []⟩ infoHash random
        sendHandshakes = .error ⟨.fetch .badExtendedMessage, log⟩ ∧
          ∀ theirId, NoRequests theirId log := by
  obtain ⟨opening, hopening⟩ := openingMessages_eq hhash hrandom
  obtain ⟨opened, hopened, hincoming, hlog⟩ := sendOpening_eq
    (handshake ++ (extendedFrame body ++ rest)) ending sendHandshakes hopening
  obtain ⟨greeted, hread, hgreeted⟩ := readHandshake_eq hhash hhandshake hincoming
  obtain ⟨next, hround, hnext⟩ :=
    receiveExtendedRound_tooDeep extendedHandshakeId hfits hdeep hgreeted.1
  obtain ⟨-, reads, hadvanced⟩ := hgreeted.trans hnext
  refine ⟨next.log, ?_, fun theirId ↦ ?_⟩
  · have hextended : receiveExtended tooDeep extendedHandshakeId greeted =
        .error ⟨.fetch .badExtendedMessage, next.log⟩ := by
      rw [receiveExtended, ByteStream.call_eq_ok (assert_true (by decide)), ok_bind, loop_raise hround]
    rw [runSession, ByteStream.call_eq_ok (assert_true hhash), ok_bind]
    simp only
    rw [hopened, ok_bind, hread, ok_bind, receiveExtendedHandshake, hextended, error_bind, error_bind]
  · rw [hadvanced.log, hlog]
    exact noRequests_opening theirId sendHandshakes hopening reads

section Greets

variable {tooDeep : Bytes → Bool} {infoHash random metadata : Bytes} {sendHandshakes : Bool}
  {theirId : ℕ} {handshake hello : Bytes} {greeting : List Bytes}

/-- The session reads the opening and comes to `request_pieces`. -/
theorem sessionOn_greeted (hhash : infoHash.length = nodeIdLength)
    (hrandom : peerIdPrefix.length + random.length = nodeIdLength)
    (hpeer : Greets tooDeep infoHash metadata theirId handshake greeting hello) (rest : Bytes)
    (ending : Ending) :
    ∃ stream, sessionOn tooDeep infoHash random sendHandshakes
        (handshake ++ greeting.flatten ++ hello) rest ending =
          (do
            let (result, stream) ← requestPieces tooDeep theirId metadata.length stream
            let _ ← stream.call (assert (result.length = metadata.length))
            return (result, stream)) ∧
      stream.incoming = rest ∧ NoRequests theirId stream.log := by
  obtain ⟨opening, hopening⟩ := openingMessages_eq hhash hrandom
  obtain ⟨peerId, hhandshake⟩ := hpeer.supports
  obtain ⟨opened, hopened, hincoming, hlog⟩ := sendOpening_eq
    (handshake ++ greeting.flatten ++ hello ++ rest) ending sendHandshakes hopening
  have hbytes : opened.incoming = handshake ++ (greeting.flatten ++ (hello ++ rest)) := by
    rw [hincoming]
    simp only [List.append_assoc]
  obtain ⟨greeted, hread, hgreeted⟩ := readHandshake_eq hhash hhandshake hbytes
  obtain ⟨stream, hextended, hstream⟩ := receiveExtendedHandshake_eq hpeer.id hpeer.size.1
    hpeer.size.2 hpeer.quiet hpeer.announces hgreeted.1
  obtain ⟨hrest, reads, hadvanced⟩ := hgreeted.trans hstream
  refine ⟨stream, ?_, hrest, ?_⟩
  · rw [sessionOn, runSession, ByteStream.call_eq_ok (assert_true hhash), ok_bind]
    simp only
    rw [hopened, ok_bind, hread, ok_bind, hextended, ok_bind]
  · rw [hadvanced.log, hlog]
    exact noRequests_opening theirId sendHandshakes hopening reads

/-- Only pieces of the metadata are requested, whatever comes after the opening. -/
theorem requested_lt (hhash : infoHash.length = nodeIdLength)
    (hrandom : peerIdPrefix.length + random.length = nodeIdLength)
    (hpeer : Greets tooDeep infoHash metadata theirId handshake greeting hello) {rest : Bytes}
    {ending : Ending} {piece : ℕ}
    (h : Requested theirId piece (transfers (sessionOn tooDeep infoHash random sendHandshakes
      (handshake ++ greeting.flatten ++ hello) rest ending))) : piece < numPieces metadata.length := by
  obtain ⟨stream, hsession, -, hnone⟩ := sessionOn_greeted hhash hrandom hpeer rest ending
  have hends := requestPieces_ends tooDeep hpeer.id hpeer.size.1 hpeer.size.2 stream
  rw [hsession] at h
  cases hpieces : requestPieces tooDeep theirId metadata.length stream with
  | error interrupted =>
    rw [hpieces] at hends h
    obtain ⟨reason, log, next, outstanding, received, rfl, hexchange⟩ := hends
    exact ((hexchange.requested_iff_lt hpeer.id.2 hnone piece).mp h).trans_le hexchange.next_le
  | ok fetched =>
    rw [hpieces] at hends h
    obtain ⟨result, next⟩ := fetched
    obtain ⟨log, received, hlog, hfetched⟩ := hends
    simp only [ok_bind] at h
    rw [ByteStream.call_eq_ok (assert_true hfetched.length), ok_bind] at h
    have hrequested : Requested theirId piece (stream.log ++ log) := hlog ▸ h
    exact (hfetched.exchange.requested_iff_lt hpeer.id.2 hnone piece).mp hrequested

/-- Then it comes to the loop of `request_pieces`. -/
theorem sessionOn_eq (hhash : infoHash.length = nodeIdLength)
    (hrandom : peerIdPrefix.length + random.length = nodeIdLength)
    (hpeer : Greets tooDeep infoHash metadata theirId handshake greeting hello) (rest : Bytes)
    (ending : Ending) :
    ∃ stream, sessionOn tooDeep infoHash random sendHandshakes
        (handshake ++ greeting.flatten ++ hello) rest ending =
          (do
            let state ← pieceLoop tooDeep theirId metadata.length (numPieces metadata.length + 1)
              (⟨OrderedMap.empty, ∅, 0⟩, stream)
            finishPieces metadata.length state) ∧
      stream.incoming = rest ∧ NoRequests theirId stream.log := by
  obtain ⟨stream, hsession, hstream⟩ := sessionOn_greeted hhash hrandom hpeer rest ending
  exact ⟨stream, hsession.trans (requestPieces_eq hpeer.id hpeer.size.1), hstream⟩

end Greets

/-! ## Frame by frame -/

/-- The session waits for a piece: it has read the frames `read`, of which it skipped the last ones
since it began the current round of the outer loop with `requests`, and `asked` are the local
variables after the inner loop of that round. -/
structure Waiting (tooDeep : Bytes → Bool) (theirId : ℕ) (metadata : Bytes)
    (session : Bytes → Ending → Except Interrupted (Bytes × ByteStream)) (read : List Bytes)
    (requests asked : PieceRequests) (skipped : List Bytes) : Prop where
  session_eq : ∀ rest ending, ∃ stream fuel before, session (read.flatten ++ rest) ending =
      (do
        let state ← pieceLoop tooDeep theirId metadata.length fuel (requests, stream)
        finishPieces metadata.length state) ∧
    stream.incoming = skipped.flatten ++ rest ∧
    numPieces metadata.length - requests.pieces.size < fuel ∧
    Progress theirId metadata.length before (requests, stream) ∧ NoRequests theirId before
  asks : ∀ before stream, Progress theirId metadata.length before (requests, stream) →
    ∃ next, loop (fun (_, stream) ↦ ⟨.failure .outOfFuel, stream.log⟩)
        (requestRound theirId (numPieces metadata.length)) (numPieces metadata.length + 1)
        (requests, stream) = .ok (asked, next) ∧
      next.incoming = stream.incoming
  missing : requests.pieces.size < numPieces metadata.length
  skips : ∀ bytes ∈ skipped, Skipped tooDeep metadata asked.outstanding bytes
  taken : ∀ bytes ∈ read, ∀ piece, CarriesPiece tooDeep metadata piece bytes →
    (requests.pieces.get? piece).isSome
  correct : ∀ piece data, requests.pieces.get? piece = some data → data = pieceOf metadata piece

section Waiting

variable {tooDeep : Bytes → Bool} {theirId : ℕ} {metadata : Bytes}
  {session : Bytes → Ending → Except Interrupted (Bytes × ByteStream)} {read : List Bytes}
  {requests asked : PieceRequests} {skipped : List Bytes}

/-- The inner loop of the round, from a state of the stream. -/
theorem Waiting.asked_progress (hid : 1 ≤ theirId ∧ theirId ≤ 255)
    (hmax : metadata.length ≤ maxMetadataSize)
    (h : Waiting tooDeep theirId metadata session read requests asked skipped)
    {before : List Transfer} {stream : ByteStream}
    (hprogress : Progress theirId metadata.length before (requests, stream)) :
    ∃ next, loop (fun (_, stream) ↦ ⟨.failure .outOfFuel, stream.log⟩)
        (requestRound theirId (numPieces metadata.length)) (numPieces metadata.length + 1)
        (requests, stream) = .ok (asked, next) ∧
      next.incoming = stream.incoming ∧ Progress theirId metadata.length before (asked, next) ∧
      asked.pieces = requests.pieces ∧ asked.outstanding.Nonempty := by
  obtain ⟨next, hloop, hincoming⟩ := h.asks before stream hprogress
  obtain ⟨⟨hnext, hpieces⟩, hfull⟩ := (requestLoop_ends hid hmax hprogress).of_ok hloop
  refine ⟨next, hloop, hincoming, hnext, hpieces, ?_⟩
  have hsizes := hnext.sizes
  have hmissing := h.missing
  simp only at hpieces hfull hsizes
  by_contra hnone
  rw [Finset.not_nonempty_iff_eq_empty] at hnone
  rw [hnone, Finset.card_empty] at hsizes hfull
  rw [hpieces] at hsizes
  exact hfull ⟨by omega, by decide⟩

/-- When nothing more comes the session ends having requested the pieces it waits for. -/
theorem Waiting.starved (hid : 1 ≤ theirId ∧ theirId ≤ 255) (hpos : 0 < metadata.length)
    (hmax : metadata.length ≤ maxMetadataSize)
    (h : Waiting tooDeep theirId metadata session read requests asked skipped) (ending : Ending)
    (piece : ℕ) : Requested theirId piece (transfers (session read.flatten ending)) ↔
      piece ∈ asked.outstanding ∨ (requests.pieces.get? piece).isSome := by
  obtain ⟨stream, fuel, before, hsession, hincoming, hfuel, hprogress, hbefore⟩ :=
    h.session_eq [] ending
  obtain ⟨next, hloop, hnext, ⟨⟨log, hlog, hexchange⟩, -⟩, hpieces, hsome⟩ :=
    h.asked_progress hid hmax hprogress
  obtain ⟨fuel, rfl⟩ : ∃ n, fuel = n + 1 := ⟨fuel - 1, by omega⟩
  rw [List.append_nil] at hsession hincoming
  obtain ⟨interrupted, hstarved, reason, reads, rfl⟩ :=
    receivePiece_starved hpos hsome h.skips (hnext.trans hincoming)
  have hround : pieceRound tooDeep theirId metadata.length (numPieces metadata.length)
      (requests, stream) = .error ⟨.fetch reason, next.log ++ reads.map .read⟩ := by
    rw [pieceRound, if_pos h.missing, hloop, ok_bind]
    simp only
    rw [hstarved]
    rfl
  have hexchange' := hexchange.skips reads
  rw [hsession, pieceLoop, loop_raise hround, error_bind, transfers, hlog, List.append_assoc]
  rw [hexchange'.requested_iff_lt hid.2 hbefore, (hexchange'.requested_iff piece).1, ← hpieces]

/-- A frame that is skipped changes nothing. -/
theorem Waiting.skip {bytes : Bytes}
    (h : Waiting tooDeep theirId metadata session read requests asked skipped)
    (hskip : Skipped tooDeep metadata asked.outstanding bytes)
    (htaken : ∀ piece, CarriesPiece tooDeep metadata piece bytes →
      (requests.pieces.get? piece).isSome) :
    Waiting tooDeep theirId metadata session (read ++ [bytes]) requests asked (skipped ++ [bytes]) where
  session_eq := by
    intro rest ending
    obtain ⟨stream, fuel, before, hsession, hincoming, hrest⟩ := h.session_eq (bytes ++ rest) ending
    refine ⟨stream, fuel, before, ?_, ?_, hrest⟩
    · simpa using hsession
    · simpa using hincoming
  asks := h.asks
  missing := h.missing
  skips := by
    intro other hother
    rcases List.mem_append.mp hother with hother | hother
    · exact h.skips other hother
    · rwa [List.mem_singleton.mp hother]
  taken := by
    intro other hother
    rcases List.mem_append.mp hother with hother | hother
    · exact h.taken other hother
    · rwa [List.mem_singleton.mp hother]
  correct := h.correct

/-- The pieces of the metadata joined in order are the metadata. -/
theorem flatMap_pieceOf (metadata : Bytes) (count : ℕ) :
    (List.range count).flatMap (pieceOf metadata) = metadata.take (count * metadataPieceSize) := by
  induction count with
  | zero => simp
  | succ count ih =>
    have hle : count * metadataPieceSize ≤ (count + 1) * metadataPieceSize :=
      Nat.mul_le_mul_right _ (Nat.le_succ count)
    rw [List.range_succ, List.flatMap_append, ih, List.flatMap_singleton, pieceOf, slice]
    have hsplit := List.take_append_drop (count * metadataPieceSize)
      (metadata.take ((count + 1) * metadataPieceSize))
    rwa [List.take_take, Nat.min_eq_left hle] at hsplit

/-- With all pieces there the session returns the metadata. -/
theorem finishPieces_eq {state : PieceRequests × ByteStream} (hpos : 0 < metadata.length)
    (hall : ∀ index < numPieces metadata.length,
      state.1.pieces.get? index = some (pieceOf metadata index)) :
    finishPieces metadata.length state = .ok (metadata, state.2) := by
  have hjoin : joinPieces state.1.pieces (List.range (numPieces metadata.length)) = .ok metadata := by
    rw [joinPieces_eq fun index hindex ↦ by rw [hall index (List.mem_range.mp hindex)]; rfl]
    congr 1
    calc (List.range (numPieces metadata.length)).flatMap
          (fun index ↦ (state.1.pieces.get? index).getD [])
        = (List.range (numPieces metadata.length)).flatMap (pieceOf metadata) := by
          apply List.flatMap_congr
          intro index hindex
          rw [hall index (List.mem_range.mp hindex)]
          rfl
      _ = metadata := by
          rw [flatMap_pieceOf, List.take_of_length_le (numPieces_spec hpos).2.2]
  rw [finishPieces, ByteStream.call_eq_ok hjoin, ok_bind, ByteStream.call_eq_ok (assert_true rfl)]
  rfl

/-- A session that has everything returns the metadata whatever still comes. -/
def Completes (metadata : Bytes)
    (session : Bytes → Ending → Except Interrupted (Bytes × ByteStream)) (read : List Bytes) : Prop :=
  ∀ rest ending, ∃ stream, session (read.flatten ++ rest) ending = .ok (metadata, stream)

/-- A session that is at the start of a round of the outer loop waits for a piece, or has all. -/
theorem waiting_or_completes (hid : 1 ≤ theirId ∧ theirId ≤ 255) (hpos : 0 < metadata.length)
    (hmax : metadata.length ≤ maxMetadataSize)
    (hsession : ∀ rest ending, ∃ stream fuel before, session (read.flatten ++ rest) ending =
        (do
          let state ← pieceLoop tooDeep theirId metadata.length fuel (requests, stream)
          finishPieces metadata.length state) ∧
      stream.incoming = rest ∧ numPieces metadata.length - requests.pieces.size < fuel ∧
      Progress theirId metadata.length before (requests, stream) ∧ NoRequests theirId before)
    (htaken : ∀ bytes ∈ read, ∀ piece, CarriesPiece tooDeep metadata piece bytes →
      (requests.pieces.get? piece).isSome)
    (hcorrect : ∀ piece data, requests.pieces.get? piece = some data → data = pieceOf metadata piece) :
    Completes metadata session read ∨
      ∃ asked, Waiting tooDeep theirId metadata session read requests asked [] := by
  by_cases hmissing : requests.pieces.size < numPieces metadata.length
  · have hfuel : numPieces metadata.length - requests.nextPiece < numPieces metadata.length + 1 := by
      omega
    obtain ⟨asked, hasks⟩ := requestLoop_eq hid hmax hfuel
    exact .inr ⟨asked, hsession, hasks, hmissing, by simp, htaken, hcorrect⟩
  · left
    intro rest ending
    obtain ⟨stream, fuel, before, heq, -, hfuel, ⟨⟨log, -, hexchange⟩, hsizes⟩, -⟩ :=
      hsession rest ending
    obtain ⟨fuel, rfl⟩ : ∃ n, fuel = n + 1 := ⟨fuel - 1, by omega⟩
    have hnext := hexchange.next_le
    simp only at hexchange hsizes hnext
    have hall : ∀ index < numPieces metadata.length,
        requests.pieces.get? index = some (pieceOf metadata index) := by
      intro index hindex
      have hnone : requests.outstanding = ∅ := by
        rw [← Finset.card_eq_zero]
        omega
      have hpresent : (requests.pieces.get? index).isSome := by
        simpa [hnone] using (hexchange.requested_iff index).1.mp (by omega)
      obtain ⟨data, hdata⟩ := Option.isSome_iff_exists.mp hpresent
      rw [hdata, hcorrect index data hdata]
    have hround : pieceRound tooDeep theirId metadata.length (numPieces metadata.length)
        (requests, stream) = .ok (.inr (requests, stream)) := by
      rw [pieceRound, if_neg hmissing]
      rfl
    refine ⟨stream, ?_⟩
    rw [heq, pieceLoop, loop_break hround, ok_bind]
    exact finishPieces_eq hpos hall

/-- An answer to an outstanding request is taken. -/
theorem Waiting.take {bytes : Bytes} {piece : ℕ} (hid : 1 ≤ theirId ∧ theirId ≤ 255)
    (hpos : 0 < metadata.length) (hmax : metadata.length ≤ maxMetadataSize)
    (h : Waiting tooDeep theirId metadata session read requests asked skipped)
    (hpiece : CarriesPiece tooDeep metadata piece bytes) (hmem : piece ∈ asked.outstanding) :
    Completes metadata session (read ++ [bytes]) ∨ ∃ requests' asked',
      Waiting tooDeep theirId metadata session (read ++ [bytes]) requests' asked' [] := by
  obtain ⟨hpieces, hlt⟩ : asked.pieces = requests.pieces ∧ piece < numPieces metadata.length := by
    obtain ⟨stream, fuel, before, -, -, -, hprogress, -⟩ := h.session_eq [] .closed
    obtain ⟨next, -, -, ⟨⟨log, -, hexchange⟩, -⟩, hpieces, -⟩ := h.asked_progress hid hmax hprogress
    exact ⟨hpieces, lt_of_lt_of_le ((hexchange.requested_iff piece).1.mpr (.inl hmem))
      hexchange.next_le⟩
  let requests' : PieceRequests := { asked with
    outstanding := asked.outstanding.erase piece
    pieces := asked.pieces.insert piece (pieceOf metadata piece) }
  have hget : ∀ index, requests'.pieces.get? index =
      if index = piece then some (pieceOf metadata piece) else requests.pieces.get? index := by
    intro index
    rw [← hpieces]
    exact OrderedMap.get?_insert _ _ _ _
  have hresult : Completes metadata session (read ++ [bytes]) ∨ ∃ asked',
      Waiting tooDeep theirId metadata session (read ++ [bytes]) requests' asked' [] := by
    apply waiting_or_completes hid hpos hmax
    · intro rest ending
      obtain ⟨stream, fuel, before, hsession, hincoming, hfuel, hprogress, hbefore⟩ :=
        h.session_eq (bytes ++ rest) ending
      obtain ⟨next, hloop, hnext, hnextProgress, -, -⟩ := h.asked_progress hid hmax hprogress
      obtain ⟨last, hreceive, hlast⟩ :=
        receivePiece_piece hpos h.skips hpiece hmem hlt (hnext.trans hincoming)
      have hasked : ∀ index ∈ asked.outstanding, index < numPieces metadata.length := by
        obtain ⟨⟨log, -, hexchange⟩, -⟩ := hnextProgress
        exact fun index hindex ↦
          lt_of_lt_of_le ((hexchange.requested_iff index).1.mpr (.inl hindex)) hexchange.next_le
      have hread := ((receivePiece_ends tooDeep hpos ⟨piece, hmem⟩ hasked next).of_ok hreceive).2
      obtain ⟨hlastProgress, hsize⟩ := hnextProgress.received hmem hread
      obtain ⟨fuel, rfl⟩ : ∃ n, fuel = n + 1 := ⟨fuel - 1, by omega⟩
      have hround : pieceRound tooDeep theirId metadata.length (numPieces metadata.length)
          (requests, stream) = .ok (.inl (requests', last)) := by
        rw [pieceRound, if_pos h.missing, hloop, ok_bind]
        simp only
        rw [hreceive, ok_bind]
        rfl
      refine ⟨last, fuel, before, ?_, hlast.1, ?_, hlastProgress, hbefore⟩
      · have hsession' : session ((read ++ [bytes]).flatten ++ rest) ending =
            session (read.flatten ++ (bytes ++ rest)) ending := by simp
        rw [hsession', hsession, pieceLoop, loop_next hround, pieceLoop]
      · have hmissing := h.missing
        rw [hpieces] at hsize
        simp only [requests', hpieces, hsize]
        omega
    · intro other hother piece' hcarries
      rw [hget]
      split
      case isTrue => rfl
      case isFalse hne =>
        rcases List.mem_append.mp hother with hother | hother
        · exact h.taken other hother piece' hcarries
        · rw [List.mem_singleton.mp hother] at hcarries
          exact absurd (hcarries.piece_eq hpiece) hne
    · intro index data hdata
      rw [hget] at hdata
      split at hdata
      case isTrue heq => rw [heq, ← Option.some.inj hdata]
      case isFalse => exact h.correct index data hdata
  rcases hresult with hdone | ⟨asked', hwaiting⟩
  · exact .inl hdone
  · exact .inr ⟨_, asked', hwaiting⟩

end Waiting

/-! ## The messages of an encoder -/

/-- The payload of a `DATA` message, with or without the total size. -/
def dataPayload (piece : ℕ) : Option ℕ → Payload
  | none => [(keyMsgType, .int msgTypeData), (keyPiece, .int piece)]
  | some size => [(keyMsgType, .int msgTypeData), (keyPiece, .int piece), (keyTotalSize, .int size)]

theorem dataPayload_wellFormed (piece : ℕ) (totalSize : Option ℕ) :
    (BencodeValue.dict (dataPayload piece totalSize)).WellFormed := by
  cases totalSize with
  | none =>
    refine .dict (by simp only [dataPayload, List.map_cons, List.map_nil]; decide) ?_
    simp only [dataPayload, List.forall_mem_cons, List.not_mem_nil, false_implies, implies_true,
      and_true]
    exact ⟨.int _, .int _⟩
  | some size =>
    refine .dict (by simp only [dataPayload, List.map_cons, List.map_nil]; decide) ?_
    simp only [dataPayload, List.forall_mem_cons, List.not_mem_nil, false_implies, implies_true,
      and_true]
    exact ⟨.int _, .int _, .int _⟩

theorem length_dataPayload {piece : ℕ} {totalSize : Option ℕ} (hpiece : piece < 1000)
    (htotal : ∀ size ∈ totalSize, size ≤ maxMetadataSize) :
    (encodeBencode (.dict (dataPayload piece totalSize))).length ≤ 100 := by
  have hdigits : (digitsOf piece).length ≤ 3 := length_digitsOf_le (by decide) hpiece
  have hkeys : (encodeBytes keyMsgType).length = 10 ∧ (encodeInt msgTypeData).length = 3 ∧
      (encodeBytes keyPiece).length = 7 ∧ (encodeBytes keyTotalSize).length = 13 := by decide
  rw [length_encode_dict]
  cases totalSize with
  | none =>
    simp only [dataPayload, encodeParts, encodeBencode, List.map_cons, List.map_nil,
      List.sum_cons, List.sum_nil, hkeys, List.length_append, length_encodeInt]
    omega
  | some size =>
    have hsize : size < 10 ^ 7 := by
      have hle := htotal size rfl
      simp only [maxMetadataSize] at hle
      omega
    have hdigits' : (digitsOf size).length ≤ 7 := length_digitsOf_le (by decide) hsize
    simp only [dataPayload, encodeParts, encodeBencode, List.map_cons, List.map_nil,
      List.sum_cons, List.sum_nil, hkeys, List.length_append, length_encodeInt]
    omega

/-- What `encode_extended_message` makes of a piece carries that piece. -/
theorem carriesPiece_of_encoded {tooDeep : Bytes → Bool} {metadata : Bytes} {piece : ℕ}
    {totalSize : Option ℕ} (hmax : metadata.length ≤ maxMetadataSize) (hpiece : piece < 1000)
    (htotal : totalSize = none ∨ totalSize = some metadata.length)
    (hshallow : tooDeep
      (extendedBody utMetadataLocalId (dataPayload piece totalSize) (pieceOf metadata piece)) = false) :
    CarriesPiece tooDeep metadata piece (extendedFrame
      (extendedBody utMetadataLocalId (dataPayload piece totalSize) (pieceOf metadata piece))) := by
  have hsize : ∀ size ∈ totalSize, size ≤ maxMetadataSize := by
    rintro size hmem
    rcases htotal with rfl | rfl
    · cases hmem
    · rwa [← Option.some.inj hmem]
  have hdict := length_dataPayload hpiece hsize
  have hslice : (pieceOf metadata piece).length ≤ metadataPieceSize := by
    rw [length_pieceOf]
    exact min_le_left _ _
  obtain ⟨read, hread, hsame⟩ := decodeExtendedMessage_body (pieceOf metadata piece)
    (show utMetadataLocalId ≤ 255 by decide) (dataPayload_wellFormed piece totalSize)
  refine ⟨_, rfl, ⟨?_, hshallow⟩, ⟨⟨read, totalSize.map Nat.cast, hread, ?_, ?_⟩⟩⟩
  · simp only [extendedBody, List.length_cons, List.length_append, maxFrameLength]
    simp only [metadataPieceSize] at hslice
    omega
  · have hmsg : read.lookup keyMsgType = some (.int msgTypeData) := by
      apply lookup_int_of_same hsame
      cases totalSize <;> rfl
    have hpiece' : read.lookup keyPiece = some (.int piece) := by
      apply lookup_int_of_same hsame
      cases totalSize <;> rfl
    have hnonneg : ¬(msgTypeData < 0 ∨ (piece : ℤ) < 0) := by simp [msgTypeData]
    have hbounds : 0 ≤ msgTypeData ∧ 0 ≤ (piece : ℤ) := by simp [msgTypeData]
    cases totalSize with
    | none =>
      have hnone : read.lookup keyTotalSize = none := lookup_none_of_same hsame rfl
      simp only [decodeMetadataMessage, hmsg, hpiece', hnone]
      rw [if_neg hnonneg, assert_true hbounds, ok_bind]
      rfl
    | some size =>
      have hsome : read.lookup keyTotalSize = some (.int size) := lookup_int_of_same hsame rfl
      simp only [decodeMetadataMessage, hmsg, hpiece', hsome]
      rw [if_neg hnonneg, if_neg (by omega), assert_true hbounds, ok_bind]
      rfl
  · rcases htotal with rfl | rfl
    · exact .inl rfl
    · exact .inr rfl

/-- The payload of an extended handshake. -/
def helloPayload (theirId metadataSize : ℕ) : Payload :=
  [(keyM, .dict [(keyUtMetadata, .int theirId)]), (keyMetadataSize, .int metadataSize)]

theorem helloPayload_wellFormed (theirId metadataSize : ℕ) :
    (BencodeValue.dict (helloPayload theirId metadataSize)).WellFormed := by
  refine .dict (by simp only [helloPayload, List.map_cons, List.map_nil]; decide) ?_
  simp only [helloPayload, List.forall_mem_cons, List.not_mem_nil, false_implies, implies_true,
    and_true]
  refine ⟨.dict (by simp) ?_, .int _⟩
  simp only [List.forall_mem_cons, List.not_mem_nil, false_implies, implies_true, and_true]
  exact .int _

theorem announces_of_encoded {tooDeep : Bytes → Bool} {theirId metadataSize : ℕ}
    (hreadable : Readable tooDeep
      (extendedBody extendedHandshakeId (helloPayload theirId metadataSize) [])) :
    Announces tooDeep theirId metadataSize
      (extendedFrame (extendedBody extendedHandshakeId (helloPayload theirId metadataSize) [])) := by
  obtain ⟨read, hread, hsame⟩ := decodeExtendedMessage_body []
    (show extendedHandshakeId ≤ 255 by decide) (helloPayload_wellFormed theirId metadataSize)
  have hkey : (helloPayload theirId metadataSize).lookup keyM =
      some (.dict [(keyUtMetadata, .int theirId)]) := rfl
  obtain ⟨value, hm, hvalue⟩ := lookup_of_same hsame hkey
  cases hvalue with
  | @dict _ extensions hkeys hvalues =>
    have htheir : extensions.lookup keyUtMetadata = some (.int theirId) :=
      lookup_int_of_same (.dict hkeys hvalues) rfl
    exact ⟨_, read, [], extensions, rfl, hreadable, hread, hm, htheir, lookup_int_of_same hsame rfl⟩

section Honest

variable {tooDeep : Bytes → Bool} {infoHash random metadata : Bytes} {sendHandshakes : Bool}
  {theirId : ℕ} {handshake hello : Bytes} {greeting answers : List Bytes}

/-- After every prefix of its answers, an honest peer has the session waiting with all those answers
taken, or done. -/
theorem waiting_of_honest (hhash : infoHash.length = nodeIdLength)
    (hrandom : peerIdPrefix.length + random.length = nodeIdLength)
    (hpeer : HonestPeer tooDeep tooDeep infoHash random sendHandshakes metadata theirId handshake
      greeting hello answers) (read : List Bytes) (hread : read <+: answers) :
    Completes metadata (sessionOn tooDeep infoHash random sendHandshakes
        (handshake ++ greeting.flatten ++ hello)) read ∨
      ∃ requests asked skipped, Waiting tooDeep theirId metadata
        (sessionOn tooDeep infoHash random sendHandshakes (handshake ++ greeting.flatten ++ hello))
        read requests asked skipped := by
  induction read using List.reverseRecOn with
  | nil =>
    have hstart : Completes metadata (sessionOn tooDeep infoHash random sendHandshakes
          (handshake ++ greeting.flatten ++ hello)) [] ∨
        ∃ asked, Waiting tooDeep theirId metadata (sessionOn tooDeep infoHash random sendHandshakes
          (handshake ++ greeting.flatten ++ hello)) [] ⟨OrderedMap.empty, ∅, 0⟩ asked [] := by
      apply waiting_or_completes hpeer.id hpeer.size.1 hpeer.size.2 ?_ (by simp) (by simp)
      intro rest ending
      obtain ⟨stream, hsession, hincoming, hquiet⟩ :=
        sessionOn_eq hhash hrandom hpeer.toGreets rest ending
      exact ⟨stream, _, stream.log, hsession, hincoming, Nat.lt_succ_of_le (Nat.sub_le _ _),
        ⟨⟨[], (List.append_nil _).symm, .start⟩, rfl⟩, hquiet⟩
    rcases hstart with hdone | ⟨asked, hwaiting⟩
    · exact .inl hdone
    · exact .inr ⟨_, asked, [], hwaiting⟩
  | append_singleton read bytes ih =>
    obtain ⟨after, hafter⟩ := hread
    rw [List.append_assoc] at hafter
    rcases ih ⟨_, hafter⟩ with hdone | ⟨requests, asked, skipped, hwaiting⟩
    · left
      intro rest ending
      obtain ⟨stream, hstream⟩ := hdone (bytes ++ rest) ending
      exact ⟨stream, by simpa using hstream⟩
    · have hframe := hpeer.frames bytes (by rw [← hafter]; simp)
      rcases hframe with hnoise | ⟨piece, hpiece⟩
      · exact .inr ⟨requests, asked, _, hwaiting.skip (.inl hnoise) fun piece hpiece ↦
          (hpiece.not_noise hnoise).elim⟩
      · have hasked := hpeer.asked read bytes after piece hafter.symm hpiece
        have hknown := (hwaiting.starved hpeer.id hpeer.size.1 hpeer.size.2 _ piece).mp hasked
        by_cases hmem : piece ∈ asked.outstanding
        · rcases hwaiting.take hpeer.id hpeer.size.1 hpeer.size.2 hpiece hmem with
            hdone | ⟨requests', asked', hwaiting'⟩
          · exact .inl hdone
          · exact .inr ⟨requests', asked', [], hwaiting'⟩
        · refine .inr ⟨requests, asked, _, hwaiting.skip (.inr ⟨piece, hpiece, hmem⟩) ?_⟩
          intro piece' hpiece'
          rw [hpiece'.piece_eq hpiece]
          exact hknown.resolve_left hmem

/-- A session with an honest peer returns the metadata. -/
theorem honest_session_returns (hhash : infoHash.length = nodeIdLength)
    (hrandom : peerIdPrefix.length + random.length = nodeIdLength)
    (hpeer : HonestPeer tooDeep tooDeep infoHash random sendHandshakes metadata theirId handshake
      greeting hello answers) (ending : Ending) :
    ∃ stream, runSession tooDeep
      ⟨handshake ++ greeting.flatten ++ hello ++ answers.flatten, ending, []⟩ infoHash random
        sendHandshakes = .ok (metadata, stream) := by
  rcases waiting_of_honest hhash hrandom hpeer answers List.prefix_rfl with
    hdone | ⟨requests, asked, skipped, hwaiting⟩
  · obtain ⟨stream, hstream⟩ := hdone [] ending
    exact ⟨stream, by simpa [sessionOn] using hstream⟩
  · exfalso
    obtain ⟨stream, fuel, before, -, -, -, hprogress, -⟩ := hwaiting.session_eq [] ending
    obtain ⟨next, -, -, ⟨⟨log, -, hexchange⟩, -⟩, hpieces, piece, hmem⟩ :=
      hwaiting.asked_progress hpeer.id hpeer.size.2 hprogress
    have hrequested := (hwaiting.starved hpeer.id hpeer.size.1 hpeer.size.2 .deadline piece).mpr
      (.inl hmem)
    obtain ⟨bytes, hbytes, hcarries⟩ := hpeer.answered piece hrequested
    have htaken := hwaiting.taken bytes hbytes piece hcarries
    rw [← hpieces] at htaken
    exact (hexchange.requested_iff piece).2 ⟨hmem, htaken⟩

end Honest

/-! A peer with metadata of two pieces: it sends noise of all kinds, answers the second request first
and twice, and the first request without the total size. -/

def sampleInfoHash : Bytes := List.replicate 20 1
def sampleRandom : Bytes := List.replicate 12 2
def sampleHandshake : Bytes := handshakeStart ++ (sampleInfoHash ++ List.replicate 20 3)
def sampleMetadataBytes : Bytes := List.replicate metadataPieceSize 7 ++ [8]
def sampleHello : Bytes := extendedFrame (extendedBody extendedHandshakeId (helloPayload 3 16385) [])

/-- A message for an extension that the session does not know. -/
def sampleNoise : Bytes := extendedFrame (extendedBody 9 (dataPayload 4 none) [1, 2])

def sampleGreeting : List Bytes := [frame [], frame [5, 255], sampleNoise]

def sampleAnswer (piece : ℕ) (totalSize : Option ℕ) (data : Bytes) : Bytes :=
  extendedFrame (extendedBody utMetadataLocalId (dataPayload piece totalSize) data)

def sampleAnswers : List Bytes :=
  [sampleAnswer 1 (some 16385) [8], sampleNoise, sampleAnswer 1 (some 16385) [8],
    sampleAnswer 0 none (List.replicate metadataPieceSize 7)]

theorem length_sampleMetadataBytes : sampleMetadataBytes.length = 16385 := by
  rw [sampleMetadataBytes, List.length_append, List.length_replicate]
  rfl

theorem sampleAnswer_second :
    CarriesPiece (fun _ ↦ false) sampleMetadataBytes 1 (sampleAnswer 1 (some 16385) [8]) := by
  have hdata : pieceOf sampleMetadataBytes 1 = [8] := by
    rw [pieceOf, slice, List.take_of_length_le (length_sampleMetadataBytes.trans_le (by decide)),
      one_mul,
      sampleMetadataBytes, List.drop_left' List.length_replicate]
  have hcarries : CarriesPiece (fun _ ↦ false) sampleMetadataBytes 1
      (sampleAnswer 1 (some sampleMetadataBytes.length) (pieceOf sampleMetadataBytes 1)) :=
    carriesPiece_of_encoded (length_sampleMetadataBytes.trans_le (by decide)) (by decide) (.inr rfl) rfl
  rwa [hdata, length_sampleMetadataBytes] at hcarries

theorem sampleAnswer_first : CarriesPiece (fun _ ↦ false) sampleMetadataBytes 0
    (sampleAnswer 0 none (List.replicate metadataPieceSize 7)) := by
  have hdata : pieceOf sampleMetadataBytes 0 = List.replicate metadataPieceSize 7 := by
    have hstop : (0 + 1) * metadataPieceSize = metadataPieceSize := by decide
    rw [pieceOf, slice, zero_mul, List.drop_zero, hstop, sampleMetadataBytes,
      List.take_left' List.length_replicate]
  have hcarries : CarriesPiece (fun _ ↦ false) sampleMetadataBytes 0
      (sampleAnswer 0 none (pieceOf sampleMetadataBytes 0)) :=
    carriesPiece_of_encoded (length_sampleMetadataBytes.trans_le (by decide)) (by decide) (.inl rfl) rfl
  rwa [hdata] at hcarries

theorem sampleNoise_noise {awaited : ℕ} (h : 9 ≠ awaited) :
    Noise (fun _ ↦ false) awaited sampleNoise := by
  obtain ⟨read, hread, -⟩ := decodeExtendedMessage_body [1, 2] (show 9 ≤ 255 by decide)
    (dataPayload_wellFormed 4 none)
  exact .extended ⟨by decide +kernel, rfl⟩ hread h

theorem sampleGreets : Greets (fun _ ↦ false) sampleInfoHash sampleMetadataBytes 3 sampleHandshake
    sampleGreeting sampleHello where
  size := by
    rw [length_sampleMetadataBytes]
    decide
  id := by decide
  supports := ⟨List.replicate 20 3, by decide +kernel⟩
  quiet := by
    intro bytes hmem
    simp only [sampleGreeting, List.mem_cons, List.not_mem_nil, or_false] at hmem
    rcases hmem with rfl | rfl | rfl
    · exact .keepAlive
    · exact .other (by decide) (by decide)
    · exact sampleNoise_noise (by decide)
  announces := by
    rw [length_sampleMetadataBytes]
    exact announces_of_encoded ⟨by decide +kernel, rfl⟩

theorem sampleHonestPeer : HonestPeer (fun _ ↦ false) (fun _ ↦ false) sampleInfoHash sampleRandom true
    sampleMetadataBytes 3 sampleHandshake sampleGreeting sampleHello sampleAnswers where
  toGreets := sampleGreets
  frames := by
    intro bytes hmem
    simp only [sampleAnswers, List.mem_cons, List.not_mem_nil, or_false] at hmem
    rcases hmem with rfl | rfl | rfl | rfl
    · exact .inr ⟨1, sampleAnswer_second⟩
    · exact .inl (sampleNoise_noise (by decide))
    · exact .inr ⟨1, sampleAnswer_second⟩
    · exact .inr ⟨0, sampleAnswer_first⟩
  asked := by
    intro before bytes after piece hsplit hpiece
    rcases before with _ | ⟨first, _ | ⟨second, _ | ⟨third, _ | ⟨fourth, rest⟩⟩⟩⟩
    · obtain ⟨rfl, -⟩ := List.cons.inj hsplit
      rw [hpiece.piece_eq sampleAnswer_second, Requested]
      decide +kernel
    · simp only [sampleAnswers, List.cons_append, List.nil_append, List.cons.injEq] at hsplit
      obtain ⟨rfl, rfl, -⟩ := hsplit
      exact (hpiece.not_noise (sampleNoise_noise (by decide))).elim
    · simp only [sampleAnswers, List.cons_append, List.nil_append, List.cons.injEq] at hsplit
      obtain ⟨rfl, rfl, rfl, -⟩ := hsplit
      rw [hpiece.piece_eq sampleAnswer_second, Requested]
      decide +kernel
    · simp only [sampleAnswers, List.cons_append, List.nil_append, List.cons.injEq] at hsplit
      obtain ⟨rfl, rfl, rfl, rfl, -⟩ := hsplit
      rw [hpiece.piece_eq sampleAnswer_first, Requested]
      decide +kernel
    · simp [sampleAnswers] at hsplit
  answered := by
    intro piece hrequested
    have hlt := requested_lt (by decide) (by decide) sampleGreets hrequested
    rw [length_sampleMetadataBytes] at hlt
    have hcases : piece = 0 ∨ piece = 1 := by
      have hcount : numPieces 16385 = 2 := by decide
      omega
    rcases hcases with rfl | rfl
    · exact ⟨_, .tail _ (.tail _ (.tail _ (.head _))), sampleAnswer_first⟩
    · exact ⟨_, .head _, sampleAnswer_second⟩

theorem honest_session_returns_sample : ∃ stream, runSession (fun _ ↦ false)
    ⟨sampleHandshake ++ sampleGreeting.flatten ++ sampleHello ++ sampleAnswers.flatten, .closed, []⟩
      sampleInfoHash sampleRandom true = .ok (sampleMetadataBytes, stream) :=
  honest_session_returns (by decide) (by decide) sampleHonestPeer .closed

/-! An interpreter whose stack is too small for the messages of an honest peer. -/

mutual

/-- The number of lists and dictionaries that are nested in a value. -/
def depth : BencodeValue → ℕ
  | .int _ => 0
  | .bytes _ => 0
  | .list items => depthOfItems items + 1
  | .dict items => depthOfEntries items + 1

def depthOfItems : List BencodeValue → ℕ
  | [] => 0
  | item :: rest => max (depth item) (depthOfItems rest)

def depthOfEntries : List (Bytes × BencodeValue) → ℕ
  | [] => 0
  | (_, value) :: rest => max (depth value) (depthOfEntries rest)

end

/-- The decoder runs out of stack on values that are nested `limit` times. -/
def exceedsStack (limit : ℕ) (body : Bytes) : Bool :=
  match decodeExtendedMessage body with
  | .ok (_, payload, _) => limit ≤ depth (.dict payload)
  | .error _ => false

def nestedList : ℕ → BencodeValue
  | 0 => .list []
  | n + 1 => .list [nestedList n]

/-- An extended message whose only value is a nested list. -/
def nestedBody (n : ℕ) : Bytes := extendedBody 9 [(ascii ['x'], nestedList n)] []

theorem depth_nestedList (n : ℕ) : depth (nestedList n) = n + 1 := by
  induction n with
  | zero => rfl
  | succ n ih =>
    rw [nestedList, depth, depthOfItems, depthOfItems, ih]
    rfl

theorem nestedList_wellFormed (n : ℕ) : (nestedList n).WellFormed := by
  induction n with
  | zero => exact .list fun item hitem ↦ absurd hitem List.not_mem_nil
  | succ n ih => exact .list fun item hitem ↦ List.mem_singleton.mp hitem ▸ ih

theorem length_encode_nestedList (n : ℕ) : (encodeBencode (nestedList n)).length = 2 * n + 2 := by
  induction n with
  | zero => rfl
  | succ n ih =>
    rw [nestedList, encodeBencode, encodeEach, encodeEach]
    simp only [List.flatten_cons, List.flatten_nil, List.append_nil, List.length_append,
      List.length_cons, List.length_nil, ih]
    omega

/-- A nested list is the same as no other value. -/
theorem eq_of_same_nestedList (n : ℕ) : ∀ {value : BencodeValue}, (nestedList n).Same value →
    value = nestedList n := by
  induction n with
  | zero =>
    intro value h
    cases h with
    | list hlength h => rw [List.eq_nil_of_length_eq_zero hlength.symm, nestedList]
  | succ n ih =>
    intro value h
    cases h with
    | list hlength h =>
      obtain ⟨item, rfl⟩ := List.length_eq_one_iff.mp hlength.symm
      rw [ih (h 0 _ item rfl rfl), nestedList]

theorem depth_le_of_lookup {items : List (Bytes × BencodeValue)} {key : Bytes} {value : BencodeValue}
    (h : items.lookup key = some value) : depth value ≤ depthOfEntries items := by
  induction items with
  | nil => cases h
  | cons item rest ih =>
    obtain ⟨key', value'⟩ := item
    rw [List.lookup_cons] at h
    rw [depthOfEntries]
    split at h
    · rw [← Option.some.inj h]
      exact le_max_left _ _
    · exact (ih h).trans (le_max_right _ _)

theorem nestedBody_spec (n : ℕ) : ∃ read, decodeExtendedMessage (nestedBody n) = .ok (9, read, []) ∧
    n + 2 ≤ depth (.dict read) := by
  have hwellFormed : (BencodeValue.dict [(ascii ['x'], nestedList n)]).WellFormed :=
    .dict (List.nodup_singleton _) fun item hitem ↦
      List.mem_singleton.mp hitem ▸ nestedList_wellFormed n
  obtain ⟨read, hread, hsame⟩ := decodeExtendedMessage_body [] (show 9 ≤ 255 by decide) hwellFormed
  refine ⟨read, hread, ?_⟩
  obtain ⟨value, hlookup, hvalue⟩ := lookup_of_same hsame (List.lookup_cons_self)
  have hdepth := depth_le_of_lookup hlookup
  rw [eq_of_same_nestedList n hvalue, depth_nestedList] at hdepth
  rw [depth]
  omega

/-- A message for another extension that is nested more deeply than the interpreter decodes ends the
session of a peer that does what an honest peer does. -/
theorem session_nestedBody {n limit : ℕ} (hlimit : limit ≤ n + 2)
    (hfits : (nestedBody n).length + 1 ≤ maxFrameLength) :
    HonestPeer (fun _ ↦ false) (exceedsStack limit) sampleInfoHash sampleRandom true
        sampleMetadataBytes 3 sampleHandshake [extendedFrame (nestedBody n)] sampleHello [] ∧
      ∀ rest ending, ∃ log, runSession (exceedsStack limit)
        ⟨sampleHandshake ++ (extendedFrame (nestedBody n) ++ rest), ending, []⟩ sampleInfoHash
          sampleRandom true = .error ⟨.fetch .badExtendedMessage, log⟩ := by
  obtain ⟨peerId, hhandshake⟩ := sampleGreets.supports
  obtain ⟨read, hread, hdepth⟩ := nestedBody_spec n
  have hdeep : exceedsStack limit (nestedBody n) := by
    rw [exceedsStack, hread]
    exact decide_eq_true (hlimit.trans hdepth)
  have hhash : sampleInfoHash.length = nodeIdLength := by decide
  have hrandom : peerIdPrefix.length + sampleRandom.length = nodeIdLength := by decide
  have hends (rest : Bytes) (ending : Ending) :=
    session_tooDeep true hhash hrandom hhandshake hfits hdeep rest ending
  refine ⟨{ toGreets := { sampleGreets with quiet := ?_ }, frames := ?_, asked := ?_, answered := ?_ },
    fun rest ending ↦ (hends rest ending).imp fun log h ↦ h.1⟩
  · intro bytes hmem
    rw [List.mem_singleton.mp hmem]
    exact .extended ⟨hfits, rfl⟩ hread (by decide)
  · exact fun bytes hmem ↦ absurd hmem List.not_mem_nil
  · exact fun before bytes after piece hsplit ↦ absurd hsplit.symm
      (List.append_ne_nil_of_right_ne_nil _ (List.cons_ne_nil _ _))
  · intro piece hrequested
    obtain ⟨log, hsession, hnone⟩ := hends (sampleHello ++ [].flatten) .deadline
    have hbytes : sampleHandshake ++ [extendedFrame (nestedBody n)].flatten ++ sampleHello ++
        ([] : List Bytes).flatten =
          sampleHandshake ++ (extendedFrame (nestedBody n) ++ (sampleHello ++ [].flatten)) := by
      simp only [List.flatten_cons, List.flatten_nil, List.append_nil, List.append_assoc]
    rw [sessionOn, hbytes, hsession] at hrequested
    exact absurd hrequested (hnone 3 piece)

theorem length_nestedBody (n : ℕ) : (nestedBody n).length = 2 * n + 8 := by
  have hkey : (encodeBytes (ascii ['x'])).length = 3 := by decide
  simp only [nestedBody, extendedBody, List.length_cons, List.length_append, List.length_nil,
    length_encode_dict, encodeParts, List.map_cons, List.map_nil, List.sum_cons, List.sum_nil, hkey,
    length_encode_nestedList]
  omega

theorem nested_message_ends_session :
    HonestPeer (fun _ ↦ false) (exceedsStack 500) sampleInfoHash sampleRandom true
        sampleMetadataBytes 3 sampleHandshake [extendedFrame (nestedBody 500)] sampleHello [] ∧
      ∀ rest ending, ∃ log, runSession (exceedsStack 500)
        ⟨sampleHandshake ++ (extendedFrame (nestedBody 500) ++ rest), ending, []⟩ sampleInfoHash
          sampleRandom true = .error ⟨.fetch .badExtendedMessage, log⟩ :=
  session_nestedBody (by decide) ((congrArg (· + 1) (length_nestedBody 500)).trans_le (by decide))

end DhtScraper
