import DhtScraper.Fetch.Exchange

/-!
# Frames on a stream

How the receiving functions of a session advance over whole frames: frames that carry nothing they
wait for are skipped, and the first frame that does is what they answer.
-/

namespace DhtScraper

open Library

/-- A message with the length in front. -/
def frame (message : Bytes) : Bytes := toBigEndian 4 message.length ++ message

theorem frame_ne_nil (message : Bytes) : frame message ≠ [] := by
  simp [frame, toBigEndian]

/-- An extended message that a session can read: it fits a frame and the limits of the
interpreter. -/
structure Readable (tooDeep : Bytes → Bool) (body : Bytes) : Prop where
  fits : body.length + 1 ≤ maxFrameLength
  shallow : tooDeep body = false

def extendedFrame (body : Bytes) : Bytes := frame (messageExtended.toUInt8 :: body)

/-- Frames that are skipped while an extended message with the awaited id is expected: keep-alives,
messages of other kinds, and well-formed extended messages for other ids. -/
inductive Noise (tooDeep : Bytes → Bool) (awaited : ℕ) : Bytes → Prop where
  | keepAlive : Noise tooDeep awaited (frame [])
  | other {messageId : UInt8} {payload : Bytes} (h : messageId ≠ messageExtended.toUInt8)
      (hfits : payload.length + 1 ≤ maxFrameLength) :
      Noise tooDeep awaited (frame (messageId :: payload))
  | extended {body trailing : Bytes} {extensionId : ℕ} {payload : Payload}
      (hreadable : Readable tooDeep body)
      (hdecoded : decodeExtendedMessage body = .ok (extensionId, payload, trailing))
      (hid : extensionId ≠ awaited) : Noise tooDeep awaited (extendedFrame body)

theorem extendedFrame_inj {body body' : Bytes} (h : extendedFrame body = extendedFrame body') :
    body = body' := by
  have hdrop := congrArg (List.drop 5) h
  exact hdrop

theorem Noise.ne_nil {tooDeep : Bytes → Bool} {awaited : ℕ} {bytes : Bytes}
    (h : Noise tooDeep awaited bytes) : bytes ≠ [] := by
  cases h <;> exact frame_ne_nil _

/-- Noise is not a message with the awaited id. -/
theorem Noise.not_awaited {tooDeep : Bytes → Bool} {awaited : ℕ} {body trailing : Bytes}
    {payload : Payload} (h : Noise tooDeep awaited (extendedFrame body))
    (hdecoded : decodeExtendedMessage body = .ok (awaited, payload, trailing)) : False := by
  generalize hbytes : extendedFrame body = bytes at h
  cases h with
  | keepAlive =>
    have hdrop := congrArg (List.drop 4) hbytes
    cases hdrop
  | other hother hfits =>
    have hdrop : messageExtended.toUInt8 :: body = _ :: _ := congrArg (List.drop 4) hbytes
    exact hother (List.cons.inj hdrop).1.symm
  | extended hreadable hdecoded' hid =>
    rw [← extendedFrame_inj hbytes, hdecoded] at hdecoded'
    cases hdecoded'
    exact hid rfl

namespace ByteStream

variable {stream : ByteStream} {rest : Bytes}

/-- The stream after everything before `rest` was read. -/
def ReadUpTo (stream : ByteStream) (rest : Bytes) (next : ByteStream) : Prop :=
  next.incoming = rest ∧ ∃ reads, stream.Advanced reads next

theorem ReadUpTo.trans {mid next : ByteStream} {rest' : Bytes} (h : stream.ReadUpTo rest mid)
    (h' : mid.ReadUpTo rest' next) : stream.ReadUpTo rest' next := by
  obtain ⟨-, reads, hadvanced⟩ := h
  obtain ⟨hrest, more, hadvanced'⟩ := h'
  exact ⟨hrest, _, hadvanced.trans hadvanced'⟩

theorem readUpTo_refl (h : stream.incoming = rest) : stream.ReadUpTo rest stream :=
  ⟨h, [], .refl⟩

/-- An ended stream answers no read. -/
theorem readExactly_ended {length : ℕ} (closedReason : FetchReason) (h : stream.incoming = [])
    (hpos : 0 < length) :
    ∃ reason, stream.readExactly length closedReason = .error ⟨.fetch reason, stream.log⟩ := by
  rw [readExactly, if_neg (by omega), if_neg (by rw [h]; simpa using Nat.ne_of_gt hpos)]
  exact ⟨_, rfl⟩

end ByteStream

section ReadFrame

variable {stream : ByteStream} {rest : Bytes}

theorem readFrame_message {messageId : UInt8} {body : Bytes}
    (h : stream.incoming = frame (messageId :: body) ++ rest)
    (hfits : body.length + 1 ≤ maxFrameLength) :
    ∃ next, readFrame stream = .ok ((messageId.toNat, body), next) ∧ stream.ReadUpTo rest next := by
  have hlong : (messageId :: body).length < 2 ^ 32 := by
    simp only [maxFrameLength] at hfits
    simp only [List.length_cons]
    omega
  rw [frame, List.append_assoc] at h
  obtain ⟨mid, hheader, hmid, hincoming⟩ := stream.readExactly_append .closed h (by simp [toBigEndian])
  rw [length_toBigEndian] at hheader
  obtain ⟨next, hbody, hnext, hrest⟩ := mid.readExactly_append .closed hincoming (List.cons_ne_nil _ _)
  have hid : (0 : ℤ) ≤ messageId.toNat ∧ (messageId.toNat : ℤ) ≤ 255 := by
    have hlt := messageId.toNat_lt
    omega
  refine ⟨next, ?_, hrest, _, hmid.trans hnext⟩
  rw [readFrame]
  simp only [frameHeaderLength]
  rw [hheader, ok_bind]
  simp only
  rw [ByteStream.call_eq_ok (decodeFrameLength_packLength hlong), ok_bind, if_neg (by simp),
    if_neg (by simp only [List.length_cons]; omega), hbody, ok_bind]
  simp only [List.getD_cons_zero, List.drop_succ_cons, List.drop_zero]
  rw [ByteStream.call_eq_ok (assert_true hid), ok_bind]
  rfl

theorem readFrame_keepAlive (h : stream.incoming = frame [] ++ rest) :
    ∃ next, readFrame stream = .ok ((keepAliveId, []), next) ∧ stream.ReadUpTo rest next := by
  rw [frame, List.append_nil] at h
  obtain ⟨next, hheader, hnext, hrest⟩ := stream.readExactly_append .closed h (by simp [toBigEndian])
  rw [length_toBigEndian] at hheader
  refine ⟨next, ?_, hrest, _, hnext⟩
  have hlength : decodeFrameLength (toBigEndian 4 ([] : Bytes).length) = .ok 0 :=
    decodeFrameLength_packLength (by decide)
  rw [readFrame]
  simp only [frameHeaderLength]
  rw [hheader, ok_bind]
  simp only
  rw [ByteStream.call_eq_ok hlength, ok_bind, if_pos rfl]
  rfl

theorem readFrame_ended (h : stream.incoming = []) :
    ∃ reason, readFrame stream = .error ⟨.fetch reason, stream.log⟩ := by
  obtain ⟨reason, hread⟩ := stream.readExactly_ended .closed h (show 0 < frameHeaderLength by decide)
  rw [readFrame, hread]
  exact ⟨reason, rfl⟩

end ReadFrame

section Receive

variable {tooDeep : Bytes → Bool} {awaited : ℕ} {stream : ByteStream} {rest : Bytes}

theorem toNat_messageExtended : ((messageExtended.toUInt8.toNat : ℕ) : ℤ) = messageExtended := rfl

theorem receiveExtendedRound_noise {bytes : Bytes} (h : Noise tooDeep awaited bytes)
    (hincoming : stream.incoming = bytes ++ rest) :
    ∃ next, receiveExtendedRound tooDeep awaited stream = .ok (.inl next) ∧
      stream.ReadUpTo rest next := by
  cases h with
  | keepAlive =>
    obtain ⟨next, hread, hnext⟩ := readFrame_keepAlive hincoming
    refine ⟨next, ?_, hnext⟩
    rw [receiveExtendedRound, hread, ok_bind]
    simp only
    rw [if_pos (by decide)]
    rfl
  | @other messageId payload hother hfits =>
    obtain ⟨next, hread, hnext⟩ := readFrame_message hincoming hfits
    refine ⟨next, ?_, hnext⟩
    have hid : (messageId.toNat : ℤ) ≠ messageExtended := by
      intro heq
      apply hother
      have hnat : messageId.toNat = messageExtended := by simpa using heq
      rw [← hnat]
      simp
    rw [receiveExtendedRound, hread, ok_bind]
    simp only
    rw [if_pos hid]
    rfl
  | extended hreadable hdecoded hid =>
    obtain ⟨next, hread, hnext⟩ := readFrame_message hincoming hreadable.fits
    refine ⟨next, ?_, hnext⟩
    rw [receiveExtendedRound, hread, ok_bind]
    simp only [hdecoded]
    rw [if_neg (not_not.mpr toNat_messageExtended), if_neg (by simp [hreadable.shallow]), if_neg hid]
    rfl

theorem receiveExtendedRound_awaited {body trailing : Bytes} {payload : Payload}
    (hreadable : Readable tooDeep body)
    (hdecoded : decodeExtendedMessage body = .ok (awaited, payload, trailing))
    (hincoming : stream.incoming = extendedFrame body ++ rest) :
    ∃ next, receiveExtendedRound tooDeep awaited stream = .ok (.inr ((payload, trailing), next)) ∧
      stream.ReadUpTo rest next := by
  obtain ⟨next, hread, hnext⟩ := readFrame_message hincoming hreadable.fits
  refine ⟨next, ?_, hnext⟩
  rw [receiveExtendedRound, hread, ok_bind]
  simp only [hdecoded]
  rw [if_neg (not_not.mpr toNat_messageExtended), if_neg (by simp [hreadable.shallow]), if_pos trivial]
  rfl

theorem receiveExtendedRound_tooDeep (awaited : ℕ) {body : Bytes}
    (hfits : body.length + 1 ≤ maxFrameLength) (hdeep : tooDeep body)
    (hincoming : stream.incoming = extendedFrame body ++ rest) :
    ∃ next : ByteStream, receiveExtendedRound tooDeep awaited stream =
        .error ⟨.fetch .badExtendedMessage, next.log⟩ ∧ stream.ReadUpTo rest next := by
  obtain ⟨next, hread, hnext⟩ := readFrame_message hincoming hfits
  refine ⟨next, ?_, hnext⟩
  rw [receiveExtendedRound, hread, ok_bind]
  simp only
  rw [if_neg (not_not.mpr toNat_messageExtended), if_pos hdeep]
  rfl

/-- Skipping noise takes one round for each frame. -/
theorem receiveExtendedLoop_noise {exhausted : ByteStream → Interrupted} {noise : List Bytes}
    (hnoise : ∀ bytes ∈ noise, Noise tooDeep awaited bytes) (fuel : ℕ)
    (hincoming : stream.incoming = noise.flatten ++ rest) :
    ∃ next, loop exhausted (receiveExtendedRound tooDeep awaited) (fuel + noise.length) stream =
      loop exhausted (receiveExtendedRound tooDeep awaited) fuel next ∧ stream.ReadUpTo rest next := by
  induction noise generalizing stream with
  | nil => exact ⟨stream, rfl, ByteStream.readUpTo_refl hincoming⟩
  | cons bytes noise ih =>
    rw [List.flatten_cons, List.append_assoc] at hincoming
    obtain ⟨mid, hround, hmid⟩ := receiveExtendedRound_noise (hnoise bytes List.mem_cons_self) hincoming
    obtain ⟨next, hloop, hnext⟩ := ih (fun other hother ↦ hnoise other (List.mem_cons_of_mem _ hother))
      hmid.1
    refine ⟨next, ?_, hmid.trans hnext⟩
    rw [List.length_cons, ← Nat.add_assoc, loop_next hround, hloop]

theorem length_le_length_flatten {parts : List Bytes} (h : ∀ part ∈ parts, part ≠ []) :
    parts.length ≤ parts.flatten.length := by
  induction parts with
  | nil => exact le_rfl
  | cons part parts ih =>
    have hpart := List.length_pos_of_ne_nil (h part List.mem_cons_self)
    have hrest := ih fun other hother ↦ h other (List.mem_cons_of_mem _ hother)
    rw [List.flatten_cons, List.length_append, List.length_cons]
    omega

/-- The first awaited message behind noise is what `receive_extended` answers. -/
theorem receiveExtended_awaited {noise : List Bytes} {body trailing : Bytes} {payload : Payload}
    (hawaited : awaited ≤ 255) (hnoise : ∀ bytes ∈ noise, Noise tooDeep awaited bytes)
    (hreadable : Readable tooDeep body)
    (hdecoded : decodeExtendedMessage body = .ok (awaited, payload, trailing))
    (hincoming : stream.incoming = noise.flatten ++ (extendedFrame body ++ rest)) :
    ∃ next, receiveExtended tooDeep awaited stream = .ok ((payload, trailing), next) ∧
      stream.ReadUpTo rest next := by
  have hle := length_le_length_flatten fun bytes hmem ↦ (hnoise bytes hmem).ne_nil
  obtain ⟨fuel, hfuel⟩ : ∃ fuel, stream.incoming.length + 1 = fuel + 1 + noise.length := by
    refine ⟨stream.incoming.length - noise.length, ?_⟩
    rw [hincoming, List.length_append]
    omega
  rw [receiveExtended, ByteStream.call_eq_ok (assert_true hawaited), ok_bind, hfuel]
  obtain ⟨mid, hloop, hmid⟩ := receiveExtendedLoop_noise hnoise (fuel + 1) hincoming
  obtain ⟨next, hround, hnext⟩ := receiveExtendedRound_awaited hreadable hdecoded hmid.1
  exact ⟨next, by rw [hloop, loop_break hround], hmid.trans hnext⟩

/-- On noise alone `receive_extended` waits until the stream ends. -/
theorem receiveExtended_starved {noise : List Bytes} (hawaited : awaited ≤ 255)
    (hnoise : ∀ bytes ∈ noise, Noise tooDeep awaited bytes)
    (hincoming : stream.incoming = noise.flatten) :
    ∃ interrupted, receiveExtended tooDeep awaited stream = .error interrupted ∧
      stream.Interrupts interrupted := by
  have hle := length_le_length_flatten fun bytes hmem ↦ (hnoise bytes hmem).ne_nil
  obtain ⟨fuel, hfuel⟩ : ∃ fuel, stream.incoming.length + 1 = fuel + 1 + noise.length := by
    refine ⟨stream.incoming.length - noise.length, ?_⟩
    rw [hincoming]
    omega
  rw [receiveExtended, ByteStream.call_eq_ok (assert_true hawaited), ok_bind, hfuel]
  obtain ⟨mid, hloop, hended, reads, hadvanced⟩ := receiveExtendedLoop_noise hnoise (fuel + 1)
    (hincoming.trans (List.append_nil _).symm)
  obtain ⟨reason, hread⟩ := readFrame_ended hended
  have hround : receiveExtendedRound tooDeep awaited mid = .error ⟨.fetch reason, mid.log⟩ := by
    rw [receiveExtendedRound, hread]
    rfl
  exact ⟨_, by rw [hloop, loop_raise hround], hadvanced.interrupts (ByteStream.interrupts_raise _)⟩

end Receive

/-! ## Pieces -/

/-- The part of the metadata that a piece carries. -/
def pieceOf (metadata : Bytes) (piece : ℕ) : Bytes :=
  slice metadata (piece * metadataPieceSize) ((piece + 1) * metadataPieceSize)

/-- A `DATA` message with a piece of the metadata. -/
def CarriesPiece (tooDeep : Bytes → Bool) (metadata : Bytes) (piece : ℕ) (bytes : Bytes) : Prop :=
  ∃ body, bytes = extendedFrame body ∧ Readable tooDeep body ∧
    PieceMessage metadata.length body piece (pieceOf metadata piece)

section Pieces

variable {tooDeep : Bytes → Bool} {metadata : Bytes} {outstanding : Finset ℕ} {stream : ByteStream}
  {rest : Bytes} {piece : ℕ}

theorem CarriesPiece.ne_nil {bytes : Bytes} (h : CarriesPiece tooDeep metadata piece bytes) :
    bytes ≠ [] := by
  obtain ⟨body, rfl, -⟩ := h
  exact frame_ne_nil _

theorem CarriesPiece.not_noise {bytes : Bytes} (h : CarriesPiece tooDeep metadata piece bytes)
    (hnoise : Noise tooDeep utMetadataLocalId bytes) : False := by
  obtain ⟨body, rfl, -, ⟨⟨payload, totalSize, hdecoded, -⟩⟩⟩ := h
  exact hnoise.not_awaited hdecoded

theorem CarriesPiece.piece_eq {bytes : Bytes} {piece' : ℕ}
    (h : CarriesPiece tooDeep metadata piece bytes) (h' : CarriesPiece tooDeep metadata piece' bytes) :
    piece = piece' := by
  obtain ⟨body, rfl, -, ⟨⟨payload, totalSize, hdecoded, hmessage, -⟩⟩⟩ := h
  obtain ⟨body', hbody, -, ⟨⟨payload', totalSize', hdecoded', hmessage', -⟩⟩⟩ := h'
  obtain rfl := extendedFrame_inj hbody
  rw [hdecoded, Except.ok.injEq, Prod.mk.injEq, Prod.mk.injEq] at hdecoded'
  rw [hdecoded'.2.1, hmessage', Except.ok.injEq, Prod.mk.injEq, Prod.mk.injEq] at hmessage
  exact Int.ofNat_inj.mp hmessage.2.1.symm

/-- Frames that are skipped while pieces are expected: noise and pieces that are not outstanding. -/
def Skipped (tooDeep : Bytes → Bool) (metadata : Bytes) (outstanding : Finset ℕ) (bytes : Bytes) :
    Prop :=
  Noise tooDeep utMetadataLocalId bytes ∨
    ∃ piece, CarriesPiece tooDeep metadata piece bytes ∧ piece ∉ outstanding

theorem length_pieceOf (metadata : Bytes) (piece : ℕ) :
    (pieceOf metadata piece).length = pieceLength metadata.length piece := by
  simp only [pieceOf, slice, pieceLength, List.length_drop, List.length_take, metadataPieceSize]
  omega

theorem receivePieceRound_piece (outstanding : Finset ℕ) {noise : List Bytes} {bytes : Bytes}
    (hnoise : ∀ bytes ∈ noise, Noise tooDeep utMetadataLocalId bytes)
    (hpiece : CarriesPiece tooDeep metadata piece bytes)
    (hincoming : stream.incoming = noise.flatten ++ (bytes ++ rest)) :
    ∃ next, stream.ReadUpTo rest next ∧
      (piece ∉ outstanding →
        receivePieceRound tooDeep outstanding metadata.length stream = .ok (.inl next)) ∧
      (piece ∈ outstanding → piece < numPieces metadata.length → 0 < metadata.length →
        receivePieceRound tooDeep outstanding metadata.length stream =
          .ok (.inr ((piece, pieceOf metadata piece), next))) := by
  obtain ⟨body, rfl, hreadable, ⟨⟨payload, totalSize, hdecoded, hmessage, htotal⟩⟩⟩ := hpiece
  obtain ⟨next, hread, hnext⟩ := receiveExtended_awaited (by decide) hnoise hreadable hdecoded hincoming
  refine ⟨next, hnext, fun hmem ↦ ?_, fun hmem hlt hpos ↦ ?_⟩
  · rw [receivePieceRound, hread, ok_bind]
    simp only [hmessage, Int.toNat_natCast]
    rw [if_pos hmem]
    rfl
  · have hfits : ¬((pieceOf metadata piece).length ≠ pieceLength metadata.length piece ∨
        (totalSize ≠ none ∧ totalSize ≠ some (metadata.length : ℤ))) := by
      rintro (hlength | hsize)
      · exact hlength (length_pieceOf metadata piece)
      · rcases htotal with htotal | htotal
        · exact hsize.1 htotal
        · exact hsize.2 htotal
    rw [receivePieceRound, hread, ok_bind]
    simp only [hmessage, Int.toNat_natCast]
    rw [if_neg (not_not.mpr hmem), if_neg (by decide), if_neg (not_not.mpr rfl),
      ByteStream.call_eq_ok (expectedPieceLength_eq hpos hlt), ok_bind, if_neg hfits]
    rfl

/-- Rounds of `receive_piece` that skip frames leave only noise before what follows them. -/
theorem receivePieceLoop_skipped {exhausted : ByteStream → Interrupted} {skipped : List Bytes}
    (hskipped : ∀ bytes ∈ skipped, Skipped tooDeep metadata outstanding bytes)
    (noise : List Bytes) (hnoise : ∀ bytes ∈ noise, Noise tooDeep utMetadataLocalId bytes) {fuel : ℕ}
    (hfuel : skipped.length < fuel)
    (hincoming : stream.incoming = noise.flatten ++ (skipped.flatten ++ rest)) :
    ∃ next, ∃ noise' : List Bytes, ∃ fuel', loop exhausted
        (receivePieceRound tooDeep outstanding metadata.length) fuel stream = loop exhausted
        (receivePieceRound tooDeep outstanding metadata.length) (fuel' + 1) next ∧
      (∀ bytes ∈ noise', Noise tooDeep utMetadataLocalId bytes) ∧
      stream.ReadUpTo (noise'.flatten ++ rest) next := by
  induction skipped generalizing stream noise fuel with
  | nil =>
    obtain ⟨fuel', rfl⟩ : ∃ n, fuel = n + 1 := ⟨fuel - 1, by simp at hfuel; omega⟩
    exact ⟨stream, noise, fuel', rfl, hnoise, ByteStream.readUpTo_refl (by simpa using hincoming)⟩
  | cons bytes skipped ih =>
    rw [List.flatten_cons, List.append_assoc] at hincoming
    rw [List.length_cons] at hfuel
    have hlater : ∀ other ∈ skipped, Skipped tooDeep metadata outstanding other := fun other hother ↦
      hskipped other (List.mem_cons_of_mem _ hother)
    rcases hskipped bytes List.mem_cons_self with hbytes | ⟨piece, hbytes, hmem⟩
    · apply ih hlater (noise ++ [bytes]) ?_ (by omega) (by simpa using hincoming)
      intro other hother
      rcases List.mem_append.mp hother with hother | hother
      · exact hnoise other hother
      · rwa [List.mem_singleton.mp hother]
    · obtain ⟨mid, hmid, hround, -⟩ := receivePieceRound_piece outstanding hnoise hbytes hincoming
      obtain ⟨fuel', rfl⟩ : ∃ n, fuel = n + 1 := ⟨fuel - 1, by omega⟩
      have hfuel' : skipped.length < fuel' := by omega
      obtain ⟨next, noise', fuel'', hloop, hnoise', hnext⟩ := ih hlater [] (by simp) hfuel'
        (hmid.1.trans (List.nil_append _).symm)
      exact ⟨next, noise', fuel'', by rw [loop_next (hround hmem), hloop], hnoise', hmid.trans hnext⟩

theorem Skipped.ne_nil {bytes : Bytes} (h : Skipped tooDeep metadata outstanding bytes) :
    bytes ≠ [] := by
  rcases h with h | ⟨piece, h, -⟩
  · exact h.ne_nil
  · exact h.ne_nil

/-- The first outstanding piece behind skipped frames is what `receive_piece` answers. -/
theorem receivePiece_piece {skipped : List Bytes} {bytes : Bytes} (hpos : 0 < metadata.length)
    (hskipped : ∀ bytes ∈ skipped, Skipped tooDeep metadata outstanding bytes)
    (hpiece : CarriesPiece tooDeep metadata piece bytes) (hmem : piece ∈ outstanding)
    (hlt : piece < numPieces metadata.length)
    (hincoming : stream.incoming = skipped.flatten ++ (bytes ++ rest)) :
    ∃ next, receivePiece tooDeep outstanding metadata.length stream =
        .ok ((piece, pieceOf metadata piece), next) ∧ stream.ReadUpTo rest next := by
  have hle := length_le_length_flatten fun bytes hmem ↦ (hskipped bytes hmem).ne_nil
  have hfuel : skipped.length < stream.incoming.length + 1 := by
    rw [hincoming, List.length_append]
    omega
  rw [receivePiece, ByteStream.call_eq_ok (assert_true ⟨⟨piece, hmem⟩, hpos⟩), ok_bind]
  obtain ⟨mid, noise, fuel, hloop, hnoise, hmid⟩ :=
    receivePieceLoop_skipped hskipped [] (by simp) hfuel hincoming
  obtain ⟨next, hnext, -, hround⟩ := receivePieceRound_piece outstanding hnoise hpiece hmid.1
  rw [hloop, loop_break (hround hmem hlt hpos), ok_bind]
  simp only
  rw [ByteStream.call_eq_ok (assert_true hmem), ok_bind]
  exact ⟨next, rfl, hmid.trans hnext⟩

/-- On skipped frames alone `receive_piece` waits until the stream ends. -/
theorem receivePiece_starved {skipped : List Bytes} (hpos : 0 < metadata.length)
    (hsome : outstanding.Nonempty)
    (hskipped : ∀ bytes ∈ skipped, Skipped tooDeep metadata outstanding bytes)
    (hincoming : stream.incoming = skipped.flatten) :
    ∃ interrupted, receivePiece tooDeep outstanding metadata.length stream = .error interrupted ∧
      stream.Interrupts interrupted := by
  have hle := length_le_length_flatten fun bytes hmem ↦ (hskipped bytes hmem).ne_nil
  have hfuel : skipped.length < stream.incoming.length + 1 := by
    rw [hincoming]
    omega
  rw [receivePiece, ByteStream.call_eq_ok (assert_true ⟨hsome, hpos⟩), ok_bind]
  obtain ⟨mid, noise, fuel, hloop, hnoise, hrest, reads, hadvanced⟩ :=
    receivePieceLoop_skipped hskipped [] (by simp) hfuel
      (hincoming.trans (List.append_nil skipped.flatten).symm)
  obtain ⟨interrupted, hstarved, hinterrupted⟩ :=
    receiveExtended_starved (by decide) hnoise (hrest.trans (List.append_nil _))
  have hround : receivePieceRound tooDeep outstanding metadata.length mid = .error interrupted := by
    rw [receivePieceRound, hstarved]
    rfl
  rw [hloop, loop_raise hround]
  exact ⟨interrupted, rfl, hadvanced.interrupts hinterrupted⟩

end Pieces

end DhtScraper
