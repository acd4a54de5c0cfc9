import DhtScraper.Fetch.Session

/-!
# What a metadata session does on its stream

Whatever bytes arrive, a session ends with the metadata or with a fetch error, and its log is the
record of an exchange: requests for the pieces in order while the window has room, and pieces taken
from messages that answer an outstanding request.
-/

namespace DhtScraper

open Library

/-- A `DATA` message for a piece: what `receive_extended` and `receive_piece` read off its body. -/
structure PieceMessage (metadataSize : ℕ) (body : Bytes) (piece : ℕ) (data : Bytes) : Prop where
  decoded : ∃ payload totalSize, decodeExtendedMessage body = .ok (utMetadataLocalId, payload, data) ∧
    decodeMetadataMessage payload = .ok (msgTypeData, piece, totalSize) ∧
    (totalSize = none ∨ totalSize = some (metadataSize : ℤ))

/-- The records of an exchange of pieces: how many pieces were requested, which requests are
outstanding, and which pieces were received. -/
inductive Exchange (theirId metadataSize : ℕ) :
    List Transfer → ℕ → Finset ℕ → (ℕ → Option Bytes) → Prop where
  | start : Exchange theirId metadataSize [] 0 ∅ fun _ ↦ none
  | request {log : List Transfer} {next : ℕ} {outstanding : Finset ℕ} {received : ℕ → Option Bytes}
      (h : Exchange theirId metadataSize log next outstanding received)
      (hcount : next < numPieces metadataSize) (hwindow : outstanding.card < pieceWindow) :
      Exchange theirId metadataSize (log ++ [.wrote (metadataRequest theirId next)]) (next + 1)
        (insert next outstanding) received
  | piece {log : List Transfer} {next piece : ℕ} {outstanding : Finset ℕ}
      {received : ℕ → Option Bytes} {header body data : Bytes}
      (h : Exchange theirId metadataSize log next outstanding received)
      (houtstanding : piece ∈ outstanding)
      (hframe : decodeFrameLength header = .ok (body.length + 1))
      (hmessage : PieceMessage metadataSize body piece data)
      (hlength : data.length = pieceLength metadataSize piece) :
      Exchange theirId metadataSize
        (log ++ [.read header, .read (messageExtended.toUInt8 :: body)]) next
        (outstanding.erase piece) (Function.update received piece (some data))
  | skip {log : List Transfer} {next : ℕ} {outstanding : Finset ℕ} {received : ℕ → Option Bytes}
      {data : Bytes} (h : Exchange theirId metadataSize log next outstanding received) :
      Exchange theirId metadataSize (log ++ [.read data]) next outstanding received

/-- What was written, in order. -/
def writes (log : List Transfer) : List Bytes :=
  log.filterMap fun transfer ↦ match transfer with
    | .wrote data => some data
    | .read _ => none

@[simp]
theorem writes_append (log more : List Transfer) : writes (log ++ more) = writes log ++ writes more :=
  List.filterMap_append

namespace Exchange

variable {theirId metadataSize next : ℕ} {log : List Transfer} {outstanding : Finset ℕ}
  {received : ℕ → Option Bytes}

theorem skips (h : Exchange theirId metadataSize log next outstanding received) (reads : List Bytes) :
    Exchange theirId metadataSize (log ++ reads.map .read) next outstanding received := by
  induction reads generalizing log with
  | nil => simpa using h
  | cons data rest ih =>
    have hskip : Exchange theirId metadataSize (log ++ [.read data]) next outstanding received := h.skip
    have htail := ih hskip
    rwa [List.append_assoc] at htail

/-- The requests are those for the first pieces, in order. -/
theorem writes_eq (h : Exchange theirId metadataSize log next outstanding received) :
    writes log = (List.range next).map (metadataRequest theirId) := by
  induction h with
  | start => rfl
  | request h hcount hwindow ih =>
    rw [writes_append, ih, List.range_succ, List.map_append]
    rfl
  | piece h houtstanding hframe hmessage hlength ih =>
    rw [writes_append, ih]
    exact List.append_nil _
  | skip h ih =>
    rw [writes_append, ih]
    exact List.append_nil _

theorem next_le (h : Exchange theirId metadataSize log next outstanding received) :
    next ≤ numPieces metadataSize := by
  induction h with
  | start => exact Nat.zero_le _
  | request h hcount hwindow ih => exact hcount
  | piece h houtstanding hframe hmessage hlength ih => exact ih
  | skip h ih => exact ih

theorem card_le (h : Exchange theirId metadataSize log next outstanding received) :
    outstanding.card ≤ pieceWindow := by
  induction h with
  | start => exact Nat.zero_le _
  | request h hcount hwindow ih => exact (Finset.card_insert_le _ _).trans hwindow
  | piece h houtstanding hframe hmessage hlength ih => exact (Finset.card_erase_le).trans ih
  | skip h ih => exact ih

/-- Every requested piece is either outstanding or received, and no piece is both. -/
theorem requested_iff (h : Exchange theirId metadataSize log next outstanding received) (index : ℕ) :
    (index < next ↔ index ∈ outstanding ∨ (received index).isSome) ∧
      ¬(index ∈ outstanding ∧ (received index).isSome) := by
  induction h with
  | start => simp
  | @request log next outstanding received h hcount hwindow ih =>
    rw [Finset.mem_insert]
    by_cases hnew : index = next
    · subst hnew
      have hfresh : ¬(index ∈ outstanding ∨ (received index).isSome) := fun hold ↦
        lt_irrefl index (ih.1.mpr hold)
      exact ⟨⟨fun _ ↦ .inl (.inl rfl), fun _ ↦ Nat.lt_succ_self _⟩, fun hboth ↦ hfresh (.inr hboth.2)⟩
    · rw [or_iff_right hnew]
      refine ⟨⟨fun hlt ↦ ih.1.mp (by omega), fun hold ↦ ?_⟩, ih.2⟩
      have hlt := ih.1.mpr hold
      omega
  | @piece log next piece outstanding received header body data h houtstanding hframe hmessage
      hlength ih =>
    rw [Finset.mem_erase]
    by_cases hpiece : index = piece
    · subst hpiece
      have hlt := ih.1.mpr (.inl houtstanding)
      simp [hlt]
    · rw [Function.update_of_ne hpiece]
      simpa [hpiece] using ih
  | skip h ih => exact ih

/-- A received piece has the length it must have. -/
theorem length_received (h : Exchange theirId metadataSize log next outstanding received)
    {piece : ℕ} {data : Bytes} (hdata : received piece = some data) :
    data.length = pieceLength metadataSize piece := by
  induction h with
  | start => cases hdata
  | request h hcount hwindow ih => exact ih hdata
  | @piece log next piece' outstanding received header body data' h houtstanding hframe hmessage
      hlength ih =>
    by_cases hpiece : piece = piece'
    · rw [hpiece, Function.update_self, Option.some.injEq] at hdata
      rw [hpiece, ← hdata, hlength]
    · rw [Function.update_of_ne hpiece] at hdata
      exact ih hdata
  | skip h ih => exact ih hdata

/-- Every earlier part of the record is the record of an exchange too. -/
theorem of_prefix (h : Exchange theirId metadataSize log next outstanding received)
    {earlier : List Transfer} (hearlier : earlier <+: log) :
    ∃ next' outstanding' received',
      Exchange theirId metadataSize earlier next' outstanding' received' := by
  induction h with
  | start =>
    rw [List.prefix_nil.mp hearlier]
    exact ⟨_, _, _, .start⟩
  | request h hcount hwindow ih =>
    rcases List.prefix_concat_iff.mp hearlier with rfl | hearlier
    · exact ⟨_, _, _, h.request hcount hwindow⟩
    · exact ih hearlier
  | @piece log next piece outstanding received header body data h houtstanding hframe hmessage
      hlength ih =>
    have hsplit : log ++ [.read header, .read (messageExtended.toUInt8 :: body)] =
        log ++ [.read header] ++ [.read (messageExtended.toUInt8 :: body)] := by simp
    rw [hsplit] at hearlier
    rcases List.prefix_concat_iff.mp hearlier with rfl | hearlier
    · rw [← hsplit]
      exact ⟨_, _, _, h.piece houtstanding hframe hmessage hlength⟩
    rcases List.prefix_concat_iff.mp hearlier with rfl | hearlier
    · exact ⟨_, _, _, h.skip⟩
    · exact ih hearlier
  | skip h ih =>
    rcases List.prefix_concat_iff.mp hearlier with rfl | hearlier
    · exact ⟨_, _, _, h.skip⟩
    · exact ih hearlier

/-- The requests of an exchange: each piece is requested at most once, in order, and at no time are
more requests outstanding than the window allows. -/
structure Orderly (theirId metadataSize : ℕ) (log : List Transfer) (next : ℕ) : Prop where
  requests : writes log = (List.range next).map (metadataRequest theirId)
  count : next ≤ numPieces metadataSize
  window : ∀ earlier, earlier <+: log → ∃ next' outstanding' received',
    Exchange theirId metadataSize earlier next' outstanding' received' ∧
      outstanding'.card ≤ pieceWindow

theorem orderly (h : Exchange theirId metadataSize log next outstanding received) :
    Orderly theirId metadataSize log next where
  requests := h.writes_eq
  count := h.next_le
  window := by
    intro earlier hearlier
    obtain ⟨next', outstanding', received', h'⟩ := h.of_prefix hearlier
    exact ⟨next', outstanding', received', h', h'.card_le⟩

end Exchange

/-! ## The functions of the session -/

namespace ByteStream

variable {stream next : ByteStream}

/-- A fetch error was raised after some reads. -/
def Interrupts (stream : ByteStream) (interrupted : Interrupted) : Prop :=
  ∃ reason, ∃ reads : List Bytes, interrupted = ⟨.fetch reason, stream.log ++ reads.map .read⟩

theorem interrupts_raise (reason : FetchReason) :
    stream.Interrupts ⟨.fetch reason, stream.log⟩ := ⟨reason, [], by simp⟩

theorem Advanced.interrupts {reads : List Bytes} {interrupted : Interrupted}
    (h : stream.Advanced reads next) (h' : next.Interrupts interrupted) :
    stream.Interrupts interrupted := by
  obtain ⟨reason, more, rfl⟩ := h'
  exact ⟨reason, reads ++ more, by rw [h.log, List.map_append, List.append_assoc]⟩

theorem Advanced.length_eq {reads : List Bytes} (h : stream.Advanced reads next) :
    stream.incoming.length = reads.flatten.length + next.incoming.length := by
  rw [h.incoming, List.length_append]

theorem readExactly_interrupts {length : ℕ} (closedReason : FetchReason) (h : 0 < length) :
    Ends (stream.readExactly length closedReason)
      (fun (data, next) ↦ data.length = length ∧ stream.Advanced [data] next) stream.Interrupts :=
  (readExactly_ends closedReason h).mono (fun _ hread ↦ hread) fun _ ⟨reason, herror⟩ ↦
    herror ▸ interrupts_raise reason

end ByteStream

/-- What `read_frame` reads: the header of a keep-alive, or a header and the body it announces. -/
inductive FrameRead (stream next : ByteStream) : ℤ → Bytes → Prop where
  | keepAlive {header : Bytes} (h : stream.Advanced [header] next)
      (hheader : header.length = frameHeaderLength) : FrameRead stream next keepAliveId []
  | message {header body : Bytes} {messageId : UInt8}
      (h : stream.Advanced [header, messageId :: body] next)
      (hheader : header.length = frameHeaderLength)
      (hframe : decodeFrameLength header = .ok (body.length + 1)) :
      FrameRead stream next messageId.toNat body

theorem readFrame_ends (stream : ByteStream) :
    Ends (readFrame stream) (fun ((messageId, body), next) ↦ FrameRead stream next messageId body)
      stream.Interrupts := by
  rw [readFrame]
  apply (stream.readExactly_interrupts .closed (show 0 < frameHeaderLength by decide)).bind
  rintro ⟨header, afterHeader⟩ ⟨hheader, hadvanced⟩
  have hdecode := decodeFrameLength_ends hheader
  simp only
  rw [ByteStream.call_eq_ok hdecode, ok_bind]
  split
  case isTrue => exact .keepAlive hadvanced hheader
  case isFalse hzero =>
    split
    case isTrue => exact hadvanced.interrupts (ByteStream.interrupts_raise _)
    case isFalse =>
      have hread := (afterHeader.readExactly_interrupts .closed (Nat.pos_of_ne_zero hzero)).mono
        (fun _ hread ↦ hread) (fun _ ↦ hadvanced.interrupts)
      apply hread.bind
      rintro ⟨body, next⟩ ⟨hbody, hadvanced'⟩
      cases body with
      | nil => exact absurd hbody.symm hzero
      | cons messageId rest =>
        have hid : (0 : ℤ) ≤ messageId.toNat ∧ (messageId.toNat : ℤ) ≤ 255 := by
          have hlt := messageId.toNat_lt
          omega
        simp only [List.getD_cons_zero, List.drop_succ_cons, List.drop_zero]
        rw [ByteStream.call_eq_ok (assert_true hid), ok_bind]
        refine .message (hadvanced.trans hadvanced') hheader ?_
        rw [hdecode, ← hbody]
        rfl

theorem FrameRead.advanced {stream next : ByteStream} {messageId : ℤ} {body : Bytes}
    (h : FrameRead stream next messageId body) :
    ∃ reads, stream.Advanced reads next ∧ next.incoming.length < stream.incoming.length := by
  cases h with
  | keepAlive h hheader =>
    refine ⟨_, h, ?_⟩
    rw [h.length_eq]
    simp [hheader, frameHeaderLength]
  | message h hheader hframe =>
    refine ⟨_, h, ?_⟩
    rw [h.length_eq]
    simp [hheader, frameHeaderLength]

theorem readHandshake_ends (stream : ByteStream) {infoHash : Bytes}
    (hhash : infoHash.length = nodeIdLength) :
    Ends (readHandshake stream infoHash) (fun next ↦ ∃ data, stream.Advanced [data] next)
      stream.Interrupts := by
  rw [readHandshake, ByteStream.call_eq_ok (assert_true hhash), ok_bind]
  apply (stream.readExactly_interrupts .closedOnHandshake (show 0 < handshakeLength by decide)).bind
  rintro ⟨data, next⟩ ⟨-, hadvanced⟩
  have hdecode := decodeHandshake_ends data
  simp only
  cases hresult : decodeHandshake data with
  | error failure =>
    obtain ⟨text, rfl⟩ := hdecode.of_error hresult
    exact hadvanced.interrupts (ByteStream.interrupts_raise _)
  | ok result =>
    obtain ⟨remoteHash, peerId, supportsExtensions⟩ := result
    simp only
    split
    case isTrue => exact hadvanced.interrupts (ByteStream.interrupts_raise _)
    case isFalse =>
      split
      case isTrue => exact hadvanced.interrupts (ByteStream.interrupts_raise _)
      case isFalse => exact ⟨data, hadvanced⟩

/-- A message of the extension protocol was read, after frames that were skipped. -/
def ExtendedRead (stream next : ByteStream) (extensionId : ℕ) (payload : Payload) (trailing : Bytes) :
    Prop :=
  ∃ skipped header body, stream.Advanced (skipped ++ [header, messageExtended.toUInt8 :: body]) next ∧
    header.length = frameHeaderLength ∧ decodeFrameLength header = .ok (body.length + 1) ∧
    decodeExtendedMessage body = .ok (extensionId, payload, trailing)

theorem ExtendedRead.length_lt {stream next : ByteStream} {extensionId : ℕ} {payload : Payload}
    {trailing : Bytes} (h : ExtendedRead stream next extensionId payload trailing) :
    next.incoming.length < stream.incoming.length := by
  obtain ⟨skipped, header, body, hadvanced, hheader, -, -⟩ := h
  rw [hadvanced.length_eq]
  simp

theorem ExtendedRead.after {stream mid next : ByteStream} {extensionId : ℕ} {payload : Payload}
    {trailing : Bytes} {reads : List Bytes} (h : stream.Advanced reads mid)
    (h' : ExtendedRead mid next extensionId payload trailing) :
    ExtendedRead stream next extensionId payload trailing := by
  obtain ⟨skipped, header, body, hadvanced, hrest⟩ := h'
  refine ⟨reads ++ skipped, header, body, ?_, hrest⟩
  rw [List.append_assoc]
  exact h.trans hadvanced

section Receive

variable (tooDeep : Bytes → Bool)

theorem receiveExtendedRound_ends (extensionId : ℕ) (stream : ByteStream) :
    Ends (receiveExtendedRound tooDeep extensionId stream)
      (Sum.elim
        (fun next ↦ ∃ reads, stream.Advanced reads next ∧
          next.incoming.length < stream.incoming.length)
        fun ((payload, trailing), next) ↦ ExtendedRead stream next extensionId payload trailing)
      stream.Interrupts := by
  rw [receiveExtendedRound]
  apply (readFrame_ends stream).bind
  rintro ⟨⟨messageId, body⟩, next⟩ hframe
  obtain ⟨reads, hadvanced, hshorter⟩ := hframe.advanced
  simp only
  split
  case isTrue => exact ⟨reads, hadvanced, hshorter⟩
  case isFalse hid =>
    split
    case isTrue => exact hadvanced.interrupts (ByteStream.interrupts_raise _)
    case isFalse =>
      have hdecode := decodeExtendedMessage_ends body
      cases hresult : decodeExtendedMessage body with
      | error failure =>
        obtain ⟨text, rfl⟩ := hdecode.of_error hresult
        exact hadvanced.interrupts (ByteStream.interrupts_raise _)
      | ok result =>
        obtain ⟨receivedId, payload, trailing⟩ := result
        simp only
        split
        case isFalse => exact ⟨reads, hadvanced, hshorter⟩
        case isTrue hreceived =>
          rw [hreceived] at hresult
          cases hframe with
          | keepAlive h hheader => exact absurd (by decide) hid
          | @message header _ byte h hheader hlength =>
            have hbyte : byte = messageExtended.toUInt8 := by
              have hnat : byte.toNat = messageExtended := by simpa using hid
              rw [← hnat]
              simp
            subst hbyte
            exact ⟨[], header, body, h, hheader, hlength, hresult⟩

theorem receiveExtended_ends {extensionId : ℕ} (hid : extensionId ≤ 255) (stream : ByteStream) :
    Ends (receiveExtended tooDeep extensionId stream)
      (fun ((payload, trailing), next) ↦ ExtendedRead stream next extensionId payload trailing)
      stream.Interrupts := by
  rw [receiveExtended, ByteStream.call_eq_ok (assert_true hid), ok_bind]
  apply loop_ends (I := fun mid ↦ ∃ reads, stream.Advanced reads mid) (fun mid ↦ mid.incoming.length)
  · rintro mid ⟨reads, hadvanced⟩
    apply (receiveExtendedRound_ends tooDeep extensionId mid).mono
    · rintro (next | ⟨⟨payload, trailing⟩, next⟩) hround
      · obtain ⟨more, hnext, hshorter⟩ := hround
        exact ⟨⟨_, hadvanced.trans hnext⟩, hshorter⟩
      · exact hround.after hadvanced
    · intro interrupted hinterrupted
      exact hadvanced.interrupts hinterrupted
  · exact ⟨[], .refl⟩
  · exact Nat.lt_succ_self _

theorem receiveExtendedHandshake_ends (stream : ByteStream) :
    Ends (receiveExtendedHandshake tooDeep stream)
      (fun ((theirId, metadataSize), next) ↦ ∃ payload trailing,
        ExtendedRead stream next extendedHandshakeId payload trailing ∧
        readExtendedHandshake payload = .ok (theirId, metadataSize) ∧
        (1 ≤ theirId ∧ theirId ≤ 255) ∧ 0 < metadataSize ∧ metadataSize ≤ maxMetadataSize)
      stream.Interrupts := by
  rw [receiveExtendedHandshake]
  apply (receiveExtended_ends tooDeep (show extendedHandshakeId ≤ 255 by decide) stream).bind
  rintro ⟨⟨payload, trailing⟩, next⟩ hread
  have hpayload := readExtendedHandshake_ends payload
  obtain ⟨skipped, header, body, hadvanced, -⟩ := id hread
  simp only
  cases hresult : readExtendedHandshake payload with
  | error failure =>
    rcases hpayload.of_error hresult with rfl | rfl
    · exact hadvanced.interrupts ⟨.noUtMetadata, [], by simp [metadataFetchError]; rfl⟩
    · exact hadvanced.interrupts ⟨.tooLarge, [], by simp [metadataFetchError]; rfl⟩
  | ok result =>
    obtain ⟨theirId, metadataSize⟩ := result
    obtain ⟨hid, hpos, hmax⟩ := hpayload.of_ok hresult
    simp only
    rw [ByteStream.call_eq_ok (assert_true ⟨hid, hpos⟩), ok_bind]
    have hbounds : (1 ≤ theirId.toNat ∧ theirId.toNat ≤ 255) ∧ 0 < metadataSize.toNat ∧
        metadataSize.toNat ≤ maxMetadataSize := by omega
    refine ⟨payload, trailing, hread, ?_, hbounds⟩
    rw [hresult, Int.toNat_of_nonneg (by omega), Int.toNat_of_nonneg (by omega)]

/-- A piece was read, after frames that were skipped. -/
def PieceRead (stream next : ByteStream) (metadataSize piece : ℕ) (data : Bytes) : Prop :=
  ∃ skipped header body, stream.Advanced (skipped ++ [header, messageExtended.toUInt8 :: body]) next ∧
    decodeFrameLength header = .ok (body.length + 1) ∧ PieceMessage metadataSize body piece data ∧
    data.length = pieceLength metadataSize piece

theorem PieceRead.after {stream mid next : ByteStream} {metadataSize piece : ℕ} {data : Bytes}
    {reads : List Bytes} (h : stream.Advanced reads mid)
    (h' : PieceRead mid next metadataSize piece data) :
    PieceRead stream next metadataSize piece data := by
  obtain ⟨skipped, header, body, hadvanced, hrest⟩ := h'
  refine ⟨reads ++ skipped, header, body, ?_, hrest⟩
  rw [List.append_assoc]
  exact h.trans hadvanced

variable {metadataSize : ℕ} {outstanding : Finset ℕ}

theorem receivePieceRound_ends (hpos : 0 < metadataSize)
    (houtstanding : ∀ piece ∈ outstanding, piece < numPieces metadataSize) (stream : ByteStream) :
    Ends (receivePieceRound tooDeep outstanding metadataSize stream)
      (Sum.elim
        (fun next ↦ ∃ reads, stream.Advanced reads next ∧
          next.incoming.length < stream.incoming.length)
        fun ((piece, data), next) ↦ piece ∈ outstanding ∧ PieceRead stream next metadataSize piece data)
      stream.Interrupts := by
  rw [receivePieceRound]
  apply (receiveExtended_ends tooDeep (show utMetadataLocalId ≤ 255 by decide) stream).bind
  rintro ⟨⟨payload, data⟩, next⟩ hread
  have hshorter := hread.length_lt
  obtain ⟨skipped, header, body, hadvanced, hheader, hframe, hdecoded⟩ := hread
  have hpayload := decodeMetadataMessage_ends payload
  simp only
  cases hresult : decodeMetadataMessage payload with
  | error failure =>
    obtain ⟨text, rfl⟩ := hpayload.of_error hresult
    exact hadvanced.interrupts (ByteStream.interrupts_raise _)
  | ok result =>
    obtain ⟨msgType, piece, totalSize⟩ := result
    have hpiece : ((piece.toNat : ℕ) : ℤ) = piece :=
      Int.toNat_of_nonneg (hpayload.of_ok hresult).2
    simp only
    split
    case isTrue => exact ⟨_, hadvanced, hshorter⟩
    case isFalse hmem =>
      have hasked : piece.toNat ∈ outstanding := not_not.mp hmem
      split
      case isTrue => exact hadvanced.interrupts (ByteStream.interrupts_raise _)
      case isFalse =>
        split
        case isTrue => exact ⟨_, hadvanced, hshorter⟩
        case isFalse hdata =>
          rw [ByteStream.call_eq_ok (expectedPieceLength_eq hpos (houtstanding _ hasked)), ok_bind]
          split
          case isTrue => exact hadvanced.interrupts (ByteStream.interrupts_raise _)
          case isFalse hfits =>
            obtain ⟨hlength, htotal⟩ := not_or.mp hfits
            refine ⟨hasked, skipped, header, body, hadvanced, hframe,
              ⟨payload, totalSize, hdecoded, ?_, ?_⟩,
              not_not.mp hlength⟩
            · rw [hresult, hpiece, not_not.mp hdata]
            · by_contra hne
              exact htotal (not_or.mp hne)

theorem receivePiece_ends (hpos : 0 < metadataSize) (hsome : outstanding.Nonempty)
    (houtstanding : ∀ piece ∈ outstanding, piece < numPieces metadataSize) (stream : ByteStream) :
    Ends (receivePiece tooDeep outstanding metadataSize stream)
      (fun ((piece, data), next) ↦ piece ∈ outstanding ∧ PieceRead stream next metadataSize piece data)
      stream.Interrupts := by
  rw [receivePiece, ByteStream.call_eq_ok (assert_true ⟨hsome, hpos⟩), ok_bind]
  apply Ends.bind
  · apply loop_ends (I := fun mid ↦ ∃ reads, stream.Advanced reads mid)
      (Q := fun ((piece, data), next) ↦ piece ∈ outstanding ∧
        PieceRead stream next metadataSize piece data) (E := stream.Interrupts)
      (fun mid ↦ mid.incoming.length)
    · rintro mid ⟨reads, hadvanced⟩
      apply (receivePieceRound_ends tooDeep hpos houtstanding mid).mono
      · rintro (next | ⟨⟨piece, data⟩, next⟩) hround
        · obtain ⟨more, hnext, hshorter⟩ := hround
          exact ⟨⟨_, hadvanced.trans hnext⟩, hshorter⟩
        · exact ⟨hround.1, hround.2.after hadvanced⟩
      · intro interrupted hinterrupted
        exact hadvanced.interrupts hinterrupted
    · exact ⟨[], .refl⟩
    · exact Nat.lt_succ_self _
  · rintro ⟨⟨piece, data⟩, next⟩ hpiece
    simp only
    rw [ByteStream.call_eq_ok (assert_true hpiece.1), ok_bind]
    exact hpiece

end Receive

/-! ## The pieces -/

/-- The exchange so far, as the local variables of `request_pieces` know it. -/
structure Progress (theirId metadataSize : ℕ) (before : List Transfer)
    (state : PieceRequests × ByteStream) : Prop where
  exchange : ∃ log, state.2.log = before ++ log ∧ Exchange theirId metadataSize log
    state.1.nextPiece state.1.outstanding state.1.pieces.get?
  sizes : state.1.pieces.size + state.1.outstanding.card = state.1.nextPiece

/-- A fetch error was raised in an exchange. -/
def ExchangeInterrupted (theirId metadataSize : ℕ) (before : List Transfer)
    (interrupted : Interrupted) : Prop :=
  ∃ reason log next outstanding received, interrupted = ⟨.fetch reason, before ++ log⟩ ∧
    Exchange theirId metadataSize log next outstanding received

section Pieces

variable {theirId metadataSize : ℕ} {before : List Transfer}

theorem requestRound_ends (hid : 1 ≤ theirId ∧ theirId ≤ 255) (hmax : metadataSize ≤ maxMetadataSize)
    {state : PieceRequests × ByteStream} (h : Progress theirId metadataSize before state) :
    Ends (requestRound theirId (numPieces metadataSize) state)
      (Sum.elim
        (fun next ↦ (Progress theirId metadataSize before next ∧ next.1.pieces = state.1.pieces) ∧
          numPieces metadataSize - next.1.nextPiece < numPieces metadataSize - state.1.nextPiece)
        fun last ↦ last = state ∧ ¬(state.1.nextPiece < numPieces metadataSize ∧
          state.1.outstanding.card < pieceWindow))
      fun _ ↦ False := by
  obtain ⟨requests, stream⟩ := state
  obtain ⟨⟨log, hlog, hexchange⟩, hsizes⟩ := h
  simp only at hlog hexchange hsizes
  rw [requestRound]
  simp only
  split
  case isFalse hfull => exact ⟨rfl, hfull⟩
  case isTrue hroom =>
    have hle := numPieces_le hmax
    have hfresh : requests.nextPiece ∉ requests.outstanding := fun hmem ↦
      lt_irrefl _ ((hexchange.requested_iff _).1.mpr (.inl hmem))
    rw [ByteStream.call_eq_ok (encodeMetadataRequest_eq hid (by omega)), ok_bind, ByteStream.write,
      if_neg (metadataRequest_ne_nil _ _), ok_bind]
    refine ⟨⟨⟨⟨_, ?_, hexchange.request hroom.1 hroom.2⟩, ?_⟩, rfl⟩, ?_⟩
    · simp only
      rw [hlog, List.append_assoc]
    · simp only
      rw [Finset.card_insert_of_notMem hfresh]
      omega
    · simp only
      omega

/-- After the inner loop the window is full or everything was requested. -/
theorem requestLoop_ends (hid : 1 ≤ theirId ∧ theirId ≤ 255) (hmax : metadataSize ≤ maxMetadataSize)
    {state : PieceRequests × ByteStream} (h : Progress theirId metadataSize before state) :
    Ends (loop (fun (_, stream) ↦ ⟨.failure .outOfFuel, stream.log⟩)
        (requestRound theirId (numPieces metadataSize)) (numPieces metadataSize + 1) state)
      (fun last ↦ (Progress theirId metadataSize before last ∧ last.1.pieces = state.1.pieces) ∧
        ¬(last.1.nextPiece < numPieces metadataSize ∧ last.1.outstanding.card < pieceWindow))
      fun _ ↦ False := by
  apply loop_ends (I := fun mid ↦ Progress theirId metadataSize before mid ∧
    mid.1.pieces = state.1.pieces) (fun mid ↦ numPieces metadataSize - mid.1.nextPiece)
  · rintro mid ⟨hmid, hpieces⟩
    apply (requestRound_ends hid hmax hmid).mono
    · rintro (next | last) hround
      · exact ⟨⟨hround.1.1, hround.1.2.trans hpieces⟩, hround.2⟩
      · obtain ⟨rfl, hfull⟩ := hround
        exact ⟨⟨hmid, hpieces⟩, hfull⟩
    · intro _ hnever
      exact hnever
  · exact ⟨h, rfl⟩
  · omega

/-- A received piece moves from the outstanding requests to the pieces. -/
theorem Progress.received {requests : PieceRequests} {stream next : ByteStream} {piece : ℕ}
    {data : Bytes} (h : Progress theirId metadataSize before (requests, stream))
    (hasked : piece ∈ requests.outstanding)
    (hread : PieceRead stream next metadataSize piece data) :
    Progress theirId metadataSize before ({ requests with
      outstanding := requests.outstanding.erase piece
      pieces := requests.pieces.insert piece data }, next) ∧
    (requests.pieces.insert piece data).size = requests.pieces.size + 1 := by
  obtain ⟨⟨log, hlog, hexchange⟩, hsizes⟩ := h
  obtain ⟨skipped, header, body, hadvanced, hframe, hmessage, hlength⟩ := hread
  simp only at hlog hexchange hsizes
  have habsent : requests.pieces.get? piece = none := by
    by_contra hpresent
    exact (hexchange.requested_iff piece).2 ⟨hasked, Option.isSome_iff_ne_none.mpr hpresent⟩
  have hupdate : (requests.pieces.insert piece data).get? =
      Function.update requests.pieces.get? piece (some data) := by
    funext index
    rw [OrderedMap.get?_insert, Function.update_apply]
  have hsize := OrderedMap.size_insert_of_absent data habsent
  refine ⟨⟨⟨log ++ skipped.map .read ++ [.read header, .read (messageExtended.toUInt8 :: body)],
    ?_, ?_⟩, ?_⟩, hsize⟩
  · simp only
    rw [hadvanced.log, hlog]
    simp
  · simp only
    rw [hupdate]
    exact (hexchange.skips skipped).piece hasked hframe hmessage hlength
  · have hcard := Finset.card_erase_add_one hasked
    simp only
    omega

variable (tooDeep : Bytes → Bool)

theorem pieceRound_ends (hid : 1 ≤ theirId ∧ theirId ≤ 255) (hpos : 0 < metadataSize)
    (hmax : metadataSize ≤ maxMetadataSize) {state : PieceRequests × ByteStream}
    (h : Progress theirId metadataSize before state) :
    Ends (pieceRound tooDeep theirId metadataSize (numPieces metadataSize) state)
      (Sum.elim
        (fun next ↦ Progress theirId metadataSize before next ∧
          numPieces metadataSize - next.1.pieces.size < numPieces metadataSize - state.1.pieces.size)
        fun last ↦ last = state ∧ numPieces metadataSize ≤ state.1.pieces.size)
      (ExchangeInterrupted theirId metadataSize before) := by
  rw [pieceRound]
  split
  case isFalse hall => exact ⟨rfl, not_lt.mp hall⟩
  case isTrue hmissing =>
    apply ((requestLoop_ends hid hmax h).mono (fun _ hlast ↦ hlast) fun _ ↦ False.elim).bind
    rintro ⟨requests, stream⟩ ⟨⟨hprogress, hpieces⟩, hfull⟩
    obtain ⟨⟨log, hlog, hexchange⟩, hsizes⟩ := id hprogress
    simp only at hpieces hfull hlog hexchange hsizes ⊢
    have hsome : requests.outstanding.Nonempty := by
      by_contra hnone
      rw [Finset.not_nonempty_iff_eq_empty] at hnone
      rw [hnone, Finset.card_empty] at hsizes hfull
      rw [hpieces] at hsizes
      exact hfull ⟨by omega, by decide⟩
    have hasked : ∀ piece ∈ requests.outstanding, piece < numPieces metadataSize := fun piece hmem ↦
      lt_of_lt_of_le ((hexchange.requested_iff piece).1.mpr (.inl hmem)) hexchange.next_le
    have hinterrupted : ∀ interrupted, stream.Interrupts interrupted →
        ExchangeInterrupted theirId metadataSize before interrupted := by
      rintro _ ⟨reason, reads, rfl⟩
      refine ⟨reason, log ++ reads.map .read, _, _, _, ?_, hexchange.skips reads⟩
      rw [hlog, List.append_assoc]
    have hpiece := (receivePiece_ends tooDeep hpos hsome hasked stream).mono
      (fun _ hread ↦ hread) hinterrupted
    apply hpiece.bind
    rintro ⟨⟨piece, data⟩, next⟩ ⟨hmem, hread⟩
    obtain ⟨hnext, hsize⟩ := hprogress.received hmem hread
    refine ⟨hnext, ?_⟩
    simp only
    rw [hsize, hpieces]
    omega

theorem joinPieces_eq {pieces : OrderedMap ℕ Bytes} {indices : List ℕ}
    (h : ∀ index ∈ indices, (pieces.get? index).isSome) :
    joinPieces pieces indices = .ok (indices.flatMap fun index ↦ (pieces.get? index).getD []) := by
  induction indices with
  | nil => rfl
  | cons index rest ih =>
    obtain ⟨data, hdata⟩ := Option.isSome_iff_exists.mp (h index List.mem_cons_self)
    rw [joinPieces, hdata]
    simp only
    rw [ih fun other hother ↦ h other (List.mem_cons_of_mem _ hother), ok_bind, List.flatMap_cons,
      hdata]
    rfl

/-- The pieces together are as long as the metadata. -/
theorem Exchange.length_join {log : List Transfer} {next : ℕ} {outstanding : Finset ℕ}
    {received : ℕ → Option Bytes} (hpos : 0 < metadataSize)
    (h : Exchange theirId metadataSize log next outstanding received)
    (hall : ∀ index < numPieces metadataSize, (received index).isSome) :
    ((List.range (numPieces metadataSize)).flatMap fun index ↦ (received index).getD []).length =
      metadataSize := by
  have hlengths : (List.range (numPieces metadataSize)).map
      (fun index ↦ ((received index).getD []).length) =
        (List.range (numPieces metadataSize)).map (pieceLength metadataSize) := by
    apply List.map_congr_left
    intro index hindex
    obtain ⟨data, hdata⟩ := Option.isSome_iff_exists.mp (hall index (List.mem_range.mp hindex))
    rw [hdata]
    exact h.length_received hdata
  calc ((List.range (numPieces metadataSize)).flatMap fun index ↦ (received index).getD []).length
      = ((List.range (numPieces metadataSize)).map (pieceLength metadataSize)).sum := by
        rw [List.length_flatMap, hlengths]
    _ = min metadataSize (numPieces metadataSize * metadataPieceSize) := sum_pieceLength le_rfl
    _ = metadataSize := min_eq_left (numPieces_spec hpos).2.2

/-- What `request_pieces` answers: the payloads of one message for each piece, in order. -/
structure Fetched (theirId metadataSize : ℕ) (log : List Transfer) (received : ℕ → Option Bytes)
    (result : Bytes) : Prop where
  exchange : Exchange theirId metadataSize log (numPieces metadataSize) ∅ received
  complete : ∀ index < numPieces metadataSize, (received index).isSome
  joined : result =
    (List.range (numPieces metadataSize)).flatMap fun index ↦ (received index).getD []
  length : result.length = metadataSize

theorem requestPieces_ends (hid : 1 ≤ theirId ∧ theirId ≤ 255) (hpos : 0 < metadataSize)
    (hmax : metadataSize ≤ maxMetadataSize) (stream : ByteStream) :
    Ends (requestPieces tooDeep theirId metadataSize stream)
      (fun (result, next) ↦ ∃ log received, next.log = stream.log ++ log ∧
        Fetched theirId metadataSize log received result)
      (ExchangeInterrupted theirId metadataSize stream.log) := by
  rw [requestPieces, ByteStream.call_eq_ok (assert_true ⟨hid, hpos⟩), ok_bind,
    ByteStream.call_eq_ok (pieceCount_eq hpos), ok_bind]
  apply Ends.bind
  · apply loop_ends (I := Progress theirId metadataSize stream.log)
      (Q := fun last ↦ Progress theirId metadataSize stream.log last ∧
        numPieces metadataSize ≤ last.1.pieces.size)
      (E := ExchangeInterrupted theirId metadataSize stream.log)
      (fun mid ↦ numPieces metadataSize - mid.1.pieces.size)
    · intro mid hmid
      apply (pieceRound_ends tooDeep hid hpos hmax hmid).mono
      · rintro (next | last) hround
        · exact hround
        · obtain ⟨rfl, hall⟩ := hround
          exact ⟨hmid, hall⟩
      · intro _ hinterrupted
        exact hinterrupted
    · exact ⟨⟨[], (List.append_nil _).symm, .start⟩, rfl⟩
    · omega
  · rintro ⟨requests, next⟩ ⟨⟨⟨log, hlog, hexchange⟩, hsizes⟩, hall⟩
    simp only at hlog hexchange hsizes hall ⊢
    have hnext := hexchange.next_le
    have hdone : requests.nextPiece = numPieces metadataSize := by omega
    have hnone : requests.outstanding = ∅ := by
      rw [← Finset.card_eq_zero]
      omega
    rw [hdone, hnone] at hexchange
    have hcomplete : ∀ index < numPieces metadataSize, (requests.pieces.get? index).isSome := by
      intro index hindex
      simpa using (hexchange.requested_iff index).1.mp hindex
    have hlength := hexchange.length_join hpos hcomplete
    rw [ByteStream.call_eq_ok (joinPieces_eq fun index hindex ↦
      hcomplete index (List.mem_range.mp hindex)), ok_bind,
      ByteStream.call_eq_ok (assert_true hlength), ok_bind]
    exact ⟨log, _, hlog, hexchange, hcomplete, rfl, hlength⟩

end Pieces

/-! ## The session -/

theorem openingMessages_eq {infoHash random : Bytes} (hhash : infoHash.length = nodeIdLength)
    (hrandom : peerIdPrefix.length + random.length = nodeIdLength) :
    ∃ rest, openingMessages infoHash random = .ok (handshakeStart ++ rest) := by
  have hid : (peerIdPrefix ++ random).length = nodeIdLength := by rw [List.length_append, hrandom]
  have hpeer : generatePeerId random = .ok (peerIdPrefix ++ random) := by
    rw [generatePeerId, assert_true (by decide), ok_bind]
    simp only
    rw [assert_true hid, ok_bind]
    rfl
  obtain ⟨extended, hextended, hne⟩ := encodeExtendedHandshake_eq
  have hpos := List.length_pos_of_ne_nil hne
  have hlength : handshakeLength <
      (handshakeStart ++ (infoHash ++ (peerIdPrefix ++ random)) ++ extended).length := by
    have hstart : handshakeStart.length = 28 := by decide
    simp only [List.length_append, hstart, hhash, hrandom, handshakeLength, nodeIdLength]
    omega
  rw [openingMessages, assert_true hhash, ok_bind, hpeer, ok_bind, encodeHandshake_eq hhash hid,
    ok_bind, hextended, ok_bind]
  simp only
  rw [assert_true hlength, ok_bind, List.append_assoc]
  exact ⟨_, rfl⟩

/-- The own opening messages, when the session sends them. -/
def openingTransfers (sendHandshakes : Bool) (infoHash random : Bytes) : List Transfer :=
  match sendHandshakes, openingMessages infoHash random with
  | true, .ok opening => [.wrote opening]
  | _, _ => []

theorem sendOpening_eq {infoHash random rest : Bytes} (incoming : Bytes) (ending : Ending)
    (sendHandshakes : Bool)
    (hopening : openingMessages infoHash random = .ok (handshakeStart ++ rest)) :
    ∃ opened : ByteStream, (if sendHandshakes then do
        let opening ← (⟨incoming, ending, []⟩ : ByteStream).call (openingMessages infoHash random)
        (⟨incoming, ending, []⟩ : ByteStream).write opening
      else .ok ⟨incoming, ending, []⟩) = .ok opened ∧ opened.incoming = incoming ∧
      opened.log = openingTransfers sendHandshakes infoHash random := by
  cases sendHandshakes with
  | false => exact ⟨_, rfl, rfl, rfl⟩
  | true =>
    have hsent : openingTransfers true infoHash random = [.wrote (handshakeStart ++ rest)] := by
      simp only [openingTransfers, hopening]
    rw [if_pos rfl, ByteStream.call_eq_ok hopening, ok_bind, ByteStream.write,
      if_neg (by simp [handshakeStart]), hsent]
    exact ⟨_, rfl, rfl, rfl⟩

/-- The transfers before the first request: the own opening messages, what was read, and last the
extended handshake that names the id and the size. -/
def Greeted (sendHandshakes : Bool) (infoHash random : Bytes) (log : List Transfer)
    (theirId metadataSize : ℕ) : Prop :=
  ∃ reads header body payload trailing,
    log = openingTransfers sendHandshakes infoHash random ++
      (reads ++ [header, messageExtended.toUInt8 :: body]).map .read ∧
    decodeExtendedMessage body = .ok (extendedHandshakeId, payload, trailing) ∧
    readExtendedHandshake payload = .ok (theirId, metadataSize)

/-- What a session that returns has done. -/
def SessionReturned (sendHandshakes : Bool) (infoHash random : Bytes) (log : List Transfer)
    (result : Bytes) : Prop :=
  ∃ theirId metadataSize greeting exchange received, log = greeting ++ exchange ∧
    Greeted sendHandshakes infoHash random greeting theirId metadataSize ∧
    Fetched theirId metadataSize exchange received result ∧
    Exchange.Orderly theirId metadataSize exchange (numPieces metadataSize)

/-- What a session that raises a fetch error has done. -/
def SessionInterrupted (sendHandshakes : Bool) (infoHash random : Bytes) (log : List Transfer) : Prop :=
  (∃ reads : List Bytes,
      log = openingTransfers sendHandshakes infoHash random ++ reads.map .read) ∨
    ∃ theirId metadataSize greeting exchange next outstanding received, log = greeting ++ exchange ∧
      Greeted sendHandshakes infoHash random greeting theirId metadataSize ∧
      Exchange theirId metadataSize exchange next outstanding received ∧
      Exchange.Orderly theirId metadataSize exchange next

/-- A metadata session survives any peer: whatever bytes arrive and however the stream ends, it returns
metadata of the announced size, joined from one message for each piece, or raises a fetch error; and
its requests are for each piece at most once, in order and never more than the window allows. -/
theorem session_survives (tooDeep : Bytes → Bool) (incoming : Bytes) (ending : Ending)
    {infoHash random : Bytes} (sendHandshakes : Bool) (hhash : infoHash.length = nodeIdLength)
    (hrandom : peerIdPrefix.length + random.length = nodeIdLength) :
    Ends (runSession tooDeep ⟨incoming, ending, []⟩ infoHash random sendHandshakes)
      (fun (result, stream) ↦ SessionReturned sendHandshakes infoHash random stream.log result)
      (fun interrupted ↦ (∃ reason, interrupted.error = .fetch reason) ∧
        SessionInterrupted sendHandshakes infoHash random interrupted.log) := by
  obtain ⟨rest, hopening⟩ := openingMessages_eq hhash hrandom
  obtain ⟨opened, hopened, -, hlog⟩ :=
    sendOpening_eq incoming ending sendHandshakes hopening
  have hearly : ∀ interrupted, opened.Interrupts interrupted →
      (∃ reason, interrupted.error = .fetch reason) ∧
        SessionInterrupted sendHandshakes infoHash random interrupted.log := by
    rintro _ ⟨reason, reads, rfl⟩
    exact ⟨⟨reason, rfl⟩, .inl ⟨reads, by rw [← hlog]⟩⟩
  rw [runSession, ByteStream.call_eq_ok (assert_true hhash), ok_bind]
  simp only
  rw [hopened, ok_bind]
  apply ((readHandshake_ends opened hhash).mono (fun _ hread ↦ hread) hearly).bind
  rintro greeted ⟨handshake, hgreeted⟩
  have hextended := (receiveExtendedHandshake_ends tooDeep greeted).mono (fun _ hread ↦ hread)
    fun interrupted hinterrupted ↦ hearly interrupted (hgreeted.interrupts hinterrupted)
  apply hextended.bind
  rintro ⟨⟨theirId, metadataSize⟩, next⟩ ⟨payload, trailing, hread, hpayload, hid, hpos, hmax⟩
  obtain ⟨skipped, header, body, hadvanced, hheader, hframe, hdecoded⟩ := hread.after hgreeted
  simp only at hpayload hid hpos hmax ⊢
  have hgreeting : Greeted sendHandshakes infoHash random next.log theirId metadataSize :=
    ⟨skipped, header, body, payload, trailing, by rw [hadvanced.log, hlog], hdecoded, hpayload⟩
  apply ((requestPieces_ends tooDeep hid hpos hmax next).mono (fun _ hdone ↦ hdone) ?_).bind
  · rintro ⟨result, last⟩ ⟨exchange, received, hexchange, hfetched⟩
    simp only
    rw [ByteStream.call_eq_ok (assert_true hfetched.length), ok_bind]
    exact ⟨theirId, metadataSize, next.log, exchange, received, hexchange, hgreeting, hfetched,
      hfetched.exchange.orderly⟩
  · rintro _ ⟨reason, exchange, asked, outstanding, received, rfl, hexchange⟩
    exact ⟨⟨reason, rfl⟩, .inr ⟨theirId, metadataSize, next.log, exchange, asked, outstanding, received,
      rfl, hgreeting, hexchange, hexchange.orderly⟩⟩

/-- The error that interrupts a session. -/
def interruption : Except Interrupted (Bytes × ByteStream) → Option Interrupted
  | .ok _ => none
  | .error interrupted => some interrupted

theorem eq_error_of_interruption {outcome : Except Interrupted (Bytes × ByteStream)}
    {interrupted : Interrupted} (h : interruption outcome = some interrupted) :
    outcome = .error interrupted := by
  cases outcome with
  | ok => cases h
  | error => rw [Option.some.inj h]

/-- An extended message of a peer. -/
def peerMessage (extensionId : ℕ) (payload : Payload) (data : Bytes) : Bytes :=
  toBigEndian 4 (1 + (extendedBody extensionId payload data).length) ++
    messageExtended.toUInt8 :: extendedBody extensionId payload data

/-- A peer with metadata of two pieces, of which it sends the second. -/
def halfAnswered : Bytes :=
  handshakeStart ++ (List.replicate 20 1 ++ List.replicate 20 3) ++
    peerMessage extendedHandshakeId
      [(keyM, .dict [(keyUtMetadata, .int 3)]), (keyMetadataSize, .int 16385)] [] ++
    peerMessage utMetadataLocalId [(keyMsgType, .int msgTypeData), (keyPiece, .int 1)] [8]

/-- Both pieces were requested when the peer closes the stream. -/
theorem session_survives_close : ∃ interrupted,
    runSession (fun _ ↦ false) ⟨halfAnswered, .closed, []⟩ (List.replicate 20 1)
        (List.replicate 12 2) true = .error interrupted ∧
      interrupted.error = .fetch .closed ∧
      .wrote (metadataRequest 3 0) ∈ interrupted.log ∧
      .wrote (metadataRequest 3 1) ∈ interrupted.log ∧
      SessionInterrupted true (List.replicate 20 1) (List.replicate 12 2) interrupted.log := by
  have hcomputed : (interruption (runSession (fun _ ↦ false) ⟨halfAnswered, .closed, []⟩
      (List.replicate 20 1) (List.replicate 12 2) true)).any fun interrupted ↦
        interrupted.error = .fetch .closed ∧ .wrote (metadataRequest 3 0) ∈ interrupted.log ∧
          .wrote (metadataRequest 3 1) ∈ interrupted.log := by
    decide +kernel
  obtain ⟨interrupted, hended, hlog⟩ := (Option.any_eq_true _ _).mp hcomputed
  obtain ⟨hreason, hfirst, hsecond⟩ := of_decide_eq_true hlog
  have herror := eq_error_of_interruption hended
  have hhash : (List.replicate 20 (1 : UInt8)).length = nodeIdLength := by decide
  have hrandom : peerIdPrefix.length + (List.replicate 12 (2 : UInt8)).length = nodeIdLength := by
    decide
  refine ⟨interrupted, herror, hreason, hfirst, hsecond, ?_⟩
  generalize halfAnswered = incoming at herror
  have hsurvives := session_survives (fun _ ↦ false) incoming .closed true hhash hrandom
  rw [herror] at hsurvives
  exact hsurvives.2

end DhtScraper
