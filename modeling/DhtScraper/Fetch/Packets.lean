import DhtScraper.Fetch.Utp

/-!
# uTP packets on the wire

A packet is a header, a chain of extensions and a payload.  The decoder of `Fetch.Utp` reads bytes
with a default; here it is also given with reads that raise beyond the end and with a bound on the
rounds of its loop, to show that neither matters for any byte string.
-/

namespace DhtScraper

/-! ## Extensions -/

/-- A block of the chain. -/
structure Extension where
  type : UInt8
  data : Bytes
  type_ne : type ≠ 0
  length_le : data.length ≤ 255

/-- The type that the header, or the block before, announces. -/
def firstType : List Extension → UInt8
  | [] => 0
  | extension :: _ => extension.type

def chainBytes : List Extension → Bytes
  | [] => []
  | extension :: rest =>
    firstType rest :: extension.data.length.toUInt8 :: (extension.data ++ chainBytes rest)

/-- The packet with a chain of extensions behind its header. -/
def withExtensions (encoded : Bytes) (chain : List Extension) : Bytes :=
  slice encoded 0 1 ++ (firstType chain :: (slice encoded 2 headerSize ++
    (chainBytes chain ++ encoded.drop headerSize)))

/-- The loop of `decode_utp_packet` finds a block that the byte string does not hold. -/
inductive RunsPast (data : Bytes) : ℕ → ℕ → Prop
  | head {extension offset : ℕ} : extension ≠ 0 → data.length < offset + 2 →
      RunsPast data extension offset
  | body {extension offset : ℕ} {length : UInt8} : extension ≠ 0 → data[offset + 1]? = some length →
      data.length < offset + 2 + length.toNat → RunsPast data extension offset
  | next {extension offset : ℕ} {following length : UInt8} : extension ≠ 0 →
      data[offset]? = some following → data[offset + 1]? = some length →
        offset + 2 + length.toNat ≤ data.length →
          RunsPast data following.toNat (offset + 2 + length.toNat) → RunsPast data extension offset

/-! ## Reads that raise -/

/-- `data[index]`. -/
def byteAt (data : Bytes) (index : ℕ) : Except Failure UInt8 :=
  match data[index]? with
  | some byte => .ok byte
  | none => .error .indexError

/-- The loop over the extensions. -/
def walkExtensions (data : Bytes) : ℕ → ℕ → ℕ → Except Failure (Option ℕ)
  | 0, _, _ => .error .outOfFuel
  | fuel + 1, extension, offset =>
    if extension = 0 then .ok (some offset)
    else if data.length < offset + 2 then .ok none
    else do
      let length ← byteAt data (offset + 1)
      if data.length < offset + 2 + length.toNat then .ok none
      else do
        let following ← byteAt data offset
        walkExtensions data fuel following.toNat (offset + 2 + length.toNat)

/-- `decode_utp_packet`. -/
def readUtpPacket (data : Bytes) : Except Failure (Option UtpPacket) :=
  if data.length < headerSize then .ok none
  else
    let typeVersion := fromBigEndian (slice data 0 1)
    let extension := fromBigEndian (slice data 1 2)
    if typeVersion % 16 ≠ utpVersion ∨ stSyn < typeVersion / 16 then .ok none
    else do
      let walked ← walkExtensions data (data.length + 1) extension headerSize
      match walked with
      | none => .ok none
      | some offset =>
        let result : UtpPacket :=
          { packetType := typeVersion / 16
            connectionId := fromBigEndian (slice data 2 4)
            timestamp := fromBigEndian (slice data 4 8)
            timestampDifference := fromBigEndian (slice data 8 12)
            window := fromBigEndian (slice data 12 16)
            seqNr := fromBigEndian (slice data 16 18)
            ackNr := fromBigEndian (slice data 18 20)
            payload := data.drop offset }
        assert (result.packetType ≤ stSyn)
        return some result

section Walk

variable {data rest : Bytes} {fuel extension offset : ℕ}

theorem byteAt_of_getElem? {byte : UInt8} (h : data[offset]? = some byte) :
    byteAt data offset = .ok byte := by
  rw [byteAt, h]

/-- The loop comes to its end, without a read beyond the byte string. -/
theorem walkExtensions_spec : ∀ (fuel : ℕ) {extension offset : ℕ}, offset ≤ data.length →
    data.length < fuel + offset →
      walkExtensions data fuel extension offset =
          .ok (skipExtensions data fuel extension offset) ∧
        (skipExtensions data fuel extension offset = none ↔ RunsPast data extension offset) := by
  intro fuel
  induction fuel with
  | zero =>
    intro extension offset hle hfuel
    omega
  | succ fuel ih =>
    intro extension offset hle hfuel
    rw [walkExtensions, skipExtensions]
    by_cases hzero : extension = 0
    · rw [if_pos hzero, if_pos hzero]
      refine ⟨rfl, (fun h ↦ by cases h), fun h ↦ ?_⟩
      cases h <;> contradiction
    · rw [if_neg hzero, if_neg hzero]
      by_cases hhead : data.length < offset + 2
      · rw [if_pos hhead, if_pos (Or.inl hhead)]
        exact ⟨rfl, fun _ ↦ .head hzero hhead, fun _ ↦ rfl⟩
      · obtain ⟨following, hfollowing⟩ : ∃ following, data[offset]? = some following :=
          ⟨_, List.getElem?_eq_getElem (by omega)⟩
        obtain ⟨length, hlength⟩ : ∃ length, data[offset + 1]? = some length :=
          ⟨_, List.getElem?_eq_getElem (by omega)⟩
        have hnext : (data.getD offset 0) = following := by
          rw [List.getD_eq_getElem?_getD, hfollowing, Option.getD_some]
        have hcount : (data.getD (offset + 1) 0) = length := by
          rw [List.getD_eq_getElem?_getD, hlength, Option.getD_some]
        rw [if_neg hhead, byteAt_of_getElem? hlength, ok_bind, hcount, hnext]
        by_cases hbody : data.length < offset + 2 + length.toNat
        · rw [if_pos hbody, if_pos (Or.inr hbody)]
          exact ⟨rfl, fun _ ↦ .body hzero hlength hbody, fun _ ↦ rfl⟩
        · rw [if_neg hbody, if_neg (not_or.mpr ⟨hhead, hbody⟩), byteAt_of_getElem? hfollowing,
            ok_bind]
          obtain ⟨hwalk, hpast⟩ := @ih following.toNat (offset + 2 + length.toNat)
            (by omega) (by omega)
          refine ⟨hwalk, fun h ↦ ?_, fun h ↦ ?_⟩
          · exact .next hzero hfollowing hlength (by omega) (hpast.mp h)
          · cases h with
            | head _ hshort => exact absurd hshort hhead
            | body _ hread hshort =>
              rw [hlength, Option.some.injEq] at hread
              exact absurd (hread ▸ hshort) hbody
            | next _ hread hread' _ hlater =>
              rw [hfollowing, Option.some.injEq] at hread
              rw [hlength, Option.some.injEq] at hread'
              rw [← hread, ← hread'] at hlater
              exact hpast.mpr hlater

/-- A chain of extensions is skipped. -/
theorem skipExtensions_chain (chain : List Extension) : ∀ {fuel offset : ℕ},
    data.drop offset = chainBytes chain ++ rest → offset ≤ data.length →
      data.length < fuel + offset →
        skipExtensions data fuel (firstType chain).toNat offset =
          some (offset + (chainBytes chain).length) := by
  induction chain with
  | nil =>
    intro fuel offset _ hle hfuel
    cases fuel with
    | zero => omega
    | succ fuel => exact if_pos rfl
  | cons extension chain ih =>
    intro fuel offset hdrop hle hfuel
    cases fuel with
    | zero => omega
    | succ fuel =>
      have hlength := congrArg List.length hdrop
      simp only [List.length_drop, chainBytes, List.cons_append, List.length_cons,
        List.length_append] at hlength
      have hfollowing : data[offset]? = some (firstType chain) := getElem?_of_drop hdrop
      have hsecond : data.drop (offset + 1) = extension.data.length.toUInt8 ::
          (extension.data ++ chainBytes chain ++ rest) := by
        have hone : data.drop offset = [firstType chain] ++ (extension.data.length.toUInt8 ::
          (extension.data ++ chainBytes chain ++ rest)) := hdrop
        exact drop_of_drop hone
      have hread : data[offset + 1]? = some extension.data.length.toUInt8 :=
        getElem?_of_drop hsecond
      have hcount : extension.data.length.toUInt8.toNat = extension.data.length := by
        rw [UInt8.toNat_ofNat']
        exact Nat.mod_eq_of_lt (Nat.lt_succ_of_le extension.length_le)
      have hrest : data.drop (offset + 2 + extension.data.length) = chainBytes chain ++ rest := by
        have htwo : data.drop (offset + 2) = extension.data ++ (chainBytes chain ++ rest) := by
          rw [← List.append_assoc]
          have hone : data.drop (offset + 1) = [extension.data.length.toUInt8] ++
            (extension.data ++ chainBytes chain ++ rest) := hsecond
          exact drop_of_drop hone
        exact drop_of_drop htwo
      have htype : extension.type.toNat ≠ 0 := fun h ↦ extension.type_ne (UInt8.toNat_inj.mp h)
      have hfits : ¬ (data.length < offset + 2 ∨
          data.length < offset + 2 + extension.data.length) := by omega
      rw [skipExtensions, firstType, if_neg htype, List.getD_eq_getElem?_getD, hread,
        List.getD_eq_getElem?_getD, hfollowing]
      simp only [Option.getD_some]
      rw [hcount, if_neg hfits, ih hrest (by omega) (by omega), chainBytes]
      simp only [List.length_cons, List.length_append]
      exact congrArg some (by omega)

end Walk

/-! ## Headers -/

/-- The bytes of a header that announces an extension. -/
def headerBytes (packet : UtpPacket) (extension : UInt8) : Bytes :=
  toBigEndian 1 (packet.packetType * 16 + utpVersion) ++ ([extension] ++
    (toBigEndian 2 packet.connectionId ++
    (toBigEndian 4 (packet.timestamp % (timestampMask + 1)) ++
    (toBigEndian 4 (packet.timestampDifference % (timestampMask + 1)) ++
    (toBigEndian 4 packet.window ++
    (toBigEndian 2 (packet.seqNr % (sequenceMask + 1)) ++
    toBigEndian 2 (packet.ackNr % (sequenceMask + 1))))))))

/-- The fields as a packet carries them. -/
def UtpPacket.masked (packet : UtpPacket) : UtpPacket :=
  { packet with
    timestamp := packet.timestamp % (timestampMask + 1)
    timestampDifference := packet.timestampDifference % (timestampMask + 1)
    seqNr := packet.seqNr % (sequenceMask + 1)
    ackNr := packet.ackNr % (sequenceMask + 1) }

/-- A packet whose fields fit into their widths. -/
structure UtpPacket.Encodable (packet : UtpPacket) : Prop where
  type : packet.packetType ≤ stSyn
  id : packet.connectionId ≤ sequenceMask
  window : packet.window < 2 ^ 32

section Headers

variable {packet : UtpPacket}

theorem encodeUtpPacket_eq (h : packet.Encodable) :
    encodeUtpPacket packet = .ok (headerBytes packet 0 ++ packet.payload) := by
  have hfields : (stData ≤ packet.packetType ∧ packet.packetType ≤ stSyn) ∧
      packet.connectionId ≤ sequenceMask := ⟨⟨Nat.zero_le _, h.type⟩, h.id⟩
  have hlength : (headerBytes packet 0 ++ packet.payload).length =
      headerSize + packet.payload.length := by
    simp [headerBytes, headerSize]
    omega
  rw [encodeUtpPacket, assert_true hfields, ok_bind, if_neg (not_le.mpr h.window)]
  exact (congrArg (· >>= _) (assert_true hlength)).trans rfl

theorem withExtensions_encoded (chain : List Extension) :
    withExtensions (headerBytes packet 0 ++ packet.payload) chain =
      headerBytes packet (firstType chain) ++ (chainBytes chain ++ packet.payload) := rfl

theorem length_headerBytes (packet : UtpPacket) (extension : UInt8) :
    (headerBytes packet extension).length = headerSize := by
  simp [headerBytes, headerSize]

theorem encodable_of_encode {encoded : Bytes} (h : encodeUtpPacket packet = .ok encoded) :
    packet.Encodable := by
  rw [encodeUtpPacket] at h
  obtain ⟨_, hfields, h⟩ := bind_eq_ok.mp h
  rw [assert_eq_ok] at hfields
  split at h
  case isTrue => cases h
  case isFalse hwindow => exact ⟨hfields.1.2, hfields.2, not_le.mp hwindow⟩

/-- What the decoder reads of a header. -/
theorem decodeUtpPacket_header (h : packet.Encodable) (extension : UInt8) (body : Bytes) :
    decodeUtpPacket (headerBytes packet extension ++ body) =
      (skipExtensions (headerBytes packet extension ++ body)
        ((headerBytes packet extension ++ body).length + 1) extension.toNat headerSize).map
          fun offset ↦ { packet.masked with
            payload := (headerBytes packet extension ++ body).drop offset } := by
  generalize hdata : headerBytes packet extension ++ body = data
  have htypes : packet.packetType ≤ 4 := h.type
  have htype : packet.packetType * 16 + utpVersion < 256 ^ 1 := by
    simp only [utpVersion]
    omega
  have hid : packet.connectionId < 256 ^ 2 := Nat.lt_succ_of_le h.id
  have htimestamp : packet.timestamp % (timestampMask + 1) < 256 ^ 4 := Nat.mod_lt _ (by decide)
  have hdifference : packet.timestampDifference % (timestampMask + 1) < 256 ^ 4 :=
    Nat.mod_lt _ (by decide)
  have hwindow : packet.window < 256 ^ 4 := h.window
  have hseq : packet.seqNr % (sequenceMask + 1) < 256 ^ 2 := Nat.mod_lt _ (by decide)
  have hack : packet.ackNr % (sequenceMask + 1) < 256 ^ 2 := Nat.mod_lt _ (by decide)
  have hlength : ¬ data.length < headerSize := by
    rw [← hdata, List.length_append, length_headerBytes]
    omega
  have h0 : slice data 0 1 = toBigEndian 1 (packet.packetType * 16 + utpVersion) := by
    rw [← hdata]; rfl
  have h1 : slice data 1 2 = [extension] := by rw [← hdata]; rfl
  have h2 : slice data 2 4 = toBigEndian 2 packet.connectionId := by rw [← hdata]; rfl
  have h4 : slice data 4 8 = toBigEndian 4 (packet.timestamp % (timestampMask + 1)) := by
    rw [← hdata]; rfl
  have h8 : slice data 8 12 = toBigEndian 4 (packet.timestampDifference % (timestampMask + 1)) := by
    rw [← hdata]; rfl
  have h12 : slice data 12 16 = toBigEndian 4 packet.window := by rw [← hdata]; rfl
  have h16 : slice data 16 18 = toBigEndian 2 (packet.seqNr % (sequenceMask + 1)) := by
    rw [← hdata]; rfl
  have h18 : slice data 18 20 = toBigEndian 2 (packet.ackNr % (sequenceMask + 1)) := by
    rw [← hdata]; rfl
  have hextension : fromBigEndian [extension] = extension.toNat := by simp [fromBigEndian]
  have hversion : ¬((packet.packetType * 16 + utpVersion) % 16 ≠ utpVersion ∨
      stSyn < (packet.packetType * 16 + utpVersion) / 16) := by
    simp only [stSyn, utpVersion]
    omega
  have hdiv : (packet.packetType * 16 + utpVersion) / 16 = packet.packetType := by
    simp only [utpVersion]
    omega
  rw [decodeUtpPacket, if_neg hlength]
  simp only [h0, h1, h2, h4, h8, h12, h16, h18, fromBigEndian_toBigEndian htype,
    fromBigEndian_toBigEndian hid, fromBigEndian_toBigEndian htimestamp,
    fromBigEndian_toBigEndian hdifference, fromBigEndian_toBigEndian hwindow,
    fromBigEndian_toBigEndian hseq, fromBigEndian_toBigEndian hack, hextension]
  rw [if_neg hversion, hdiv]
  rfl

/-- The decoder reads a packet through any chain of extensions. -/
theorem decodeUtpPacket_withExtensions (h : packet.Encodable) (chain : List Extension) :
    decodeUtpPacket (withExtensions (headerBytes packet 0 ++ packet.payload) chain) =
      some packet.masked := by
  have hdrop : (headerBytes packet (firstType chain) ++
      (chainBytes chain ++ packet.payload)).drop headerSize = chainBytes chain ++ packet.payload :=
    List.drop_left' (length_headerBytes _ _)
  have hlength := congrArg List.length hdrop
  rw [List.length_drop] at hlength
  have hheader : (headerBytes packet (firstType chain) ++
      (chainBytes chain ++ packet.payload)).length = headerSize +
        (chainBytes chain ++ packet.payload).length := by
    rw [List.length_append, length_headerBytes]
  rw [withExtensions_encoded, decodeUtpPacket_header h,
    skipExtensions_chain chain hdrop (by omega) (by omega), Option.map_some, drop_of_drop hdrop]
  rfl

theorem decodeUtpPacket_encode {encoded : Bytes} (h : encodeUtpPacket packet = .ok encoded) :
    decodeUtpPacket encoded = some packet.masked := by
  have hencodable := encodable_of_encode h
  rw [encodeUtpPacket_eq hencodable, Except.ok.injEq] at h
  rw [← h]
  exact decodeUtpPacket_withExtensions hencodable []

/-- The decoder never reads beyond the byte string, and refuses exactly four kinds of them. -/
theorem readUtpPacket_eq (data : Bytes) : readUtpPacket data = .ok (decodeUtpPacket data) ∧
    (decodeUtpPacket data = none ↔ data.length < headerSize ∨ (data.headD 0).toNat % 16 ≠ utpVersion ∨
      stSyn < (data.headD 0).toNat / 16 ∨ RunsPast data (data.getD 1 0).toNat headerSize) := by
  rw [readUtpPacket, decodeUtpPacket]
  by_cases hshort : data.length < headerSize
  · rw [if_pos hshort, if_pos hshort]
    exact ⟨rfl, fun _ ↦ Or.inl hshort, fun _ ↦ rfl⟩
  · obtain ⟨first, second, rest, rfl⟩ : ∃ first second rest, data = first :: second :: rest := by
      match data, hshort with
      | first :: second :: rest, _ => exact ⟨first, second, rest, rfl⟩
      | [], h => exact absurd (by decide) h
      | [_], h => exact absurd (by simp [headerSize]) h
    have hfirst : fromBigEndian (slice (first :: second :: rest) 0 1) = first.toNat := by
      simp [slice, fromBigEndian]
    have hsecond : fromBigEndian (slice (first :: second :: rest) 1 2) = second.toNat := by
      simp [slice, fromBigEndian]
    rw [if_neg hshort, if_neg hshort]
    simp only [hfirst, hsecond, List.headD_cons, List.getD_cons_succ, List.getD_cons_zero]
    by_cases hversion : first.toNat % 16 ≠ utpVersion ∨ stSyn < first.toNat / 16
    · rw [if_pos hversion, if_pos hversion]
      refine ⟨rfl, fun _ ↦ Or.inr ?_, fun _ ↦ rfl⟩
      exact hversion.elim Or.inl fun htype ↦ Or.inr (Or.inl htype)
    · obtain ⟨hwalk, hpast⟩ := @walkExtensions_spec (first :: second :: rest)
        ((first :: second :: rest).length + 1) second.toNat _ (not_lt.mp hshort) (by omega)
      have htype : first.toNat / 16 ≤ stSyn := by
        rw [not_or] at hversion
        exact not_lt.mp hversion.2
      rw [if_neg hversion, if_neg hversion, hwalk, ok_bind, Option.map_eq_none_iff, hpast]
      rw [not_or] at hversion
      constructor
      · cases skipExtensions (first :: second :: rest) ((first :: second :: rest).length + 1)
          second.toNat headerSize with
        | none => rfl
        | some offset =>
          rw [assert_true htype]
          rfl
      · constructor
        · exact fun h ↦ Or.inr (Or.inr (Or.inr h))
        · rintro (h | h | h | h)
          · exact absurd h hshort
          · exact absurd h hversion.1
          · exact absurd h hversion.2
          · exact h

/-- Packets decode to what was encoded, through any chain of extensions; the decoder comes to its end
on every byte string. -/
theorem utp_packets_exact :
    (∀ (packet : UtpPacket) (chain : List Extension), packet.packetType ≤ 4 →
      packet.connectionId ≤ 0xFFFF → packet.window < 2 ^ 32 → ∃ encoded,
        encodeUtpPacket packet = .ok encoded ∧
          readUtpPacket (withExtensions encoded chain) = .ok (some packet.masked)) ∧
      ∀ data, ∃ result, readUtpPacket data = .ok result ∧
        (result = none ↔ data.length < 20 ∨ (data.headD 0).toNat % 16 ≠ 1 ∨
          4 < (data.headD 0).toNat / 16 ∨ RunsPast data (data.getD 1 0).toNat 20) := by
  constructor
  · intro packet chain htype hid hwindow
    have hencodable : packet.Encodable := ⟨htype, hid, hwindow⟩
    refine ⟨_, encodeUtpPacket_eq hencodable, ?_⟩
    rw [(readUtpPacket_eq _).1, decodeUtpPacket_withExtensions hencodable chain]
  · intro data
    exact ⟨_, readUtpPacket_eq data⟩

/-- A greeting with one extension of four bytes. -/
theorem utp_packets_exact_hello :
    let packet : UtpPacket :=
      ⟨stData, 0x1234, 7, 9, 65536, 65535, 2, ascii "hello".toList⟩
    let extension : Extension := ⟨1, [255, 0, 0, 0], by decide, by decide⟩
    ∃ encoded, encodeUtpPacket packet = .ok encoded ∧
      readUtpPacket (withExtensions encoded [extension]) = .ok (some packet) :=
  utp_packets_exact.1 _ _ (by decide) (by decide) (by decide)

end Headers

end DhtScraper
