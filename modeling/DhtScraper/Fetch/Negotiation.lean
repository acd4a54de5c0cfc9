import DhtScraper.Fetch.StreamEncryption
import DhtScraper.Fetch.PeerWire
import DhtScraper.Library.Machine

/-!
# An encrypted session with a conforming responder

The responder is the one of the tests, with pads of any allowed length.  In a conversation each side
receives what the other one writes.  Every conversation ends with both sides in possession of the
same ciphers in the same states, and from there each side reads what the other one wrote, however
the bytes are cut on the way.

A responder mistakes a request for something else in two cases: it closes the connection when the
public key begins like a plaintext handshake, and it looks for the request too early when the pad
after the public key contains the hash that announces the request.
-/

namespace DhtScraper

open Library

def plaintextPrefix : Bytes := 19 :: protocolName

/-- A socket whose plain bytes come first; the rest is decrypted when it is read. -/
structure CipherConnection where
  conn : ByteStream
  pending : Bytes
  decryptor : Option Rc4
  encryptor : Option Rc4

/-- `read_exact`.  Its `ConnectionError` is told as the end of a stream. -/
def readExact (conn : ByteStream) (length : ℕ) : Except Interrupted (Bytes × ByteStream) :=
  if length = 0 then .ok ([], conn) else conn.readExactly length .closed

/-- One round of the search for the sync hash: it ends with success or at the limit. -/
def syncRound (sync : Bytes) (search : Bytes × ByteStream) :
    Except Interrupted ((Bytes × ByteStream) ⊕ (Bool × ByteStream)) :=
  let (scanned, conn) := search
  if sync <:+ scanned then .ok (.inr (true, conn))
  else do
    let (byte, conn) ← readExact conn 1
    let scanned := scanned ++ byte
    if maxPadLength + sync.length < scanned.length then return .inr (false, conn)
    else return .inl (scanned, conn)

def searchSync (sync : Bytes) (conn : ByteStream) : Except Interrupted (Bool × ByteStream) :=
  loop (fun search ↦ ⟨.failure .outOfFuel, search.2.log⟩) (syncRound sync)
    (maxPadLength + sync.length + 2) ([], conn)

section Responder

variable (digest : Bytes → Bytes)

/-- `handle_connection` after the sync hash was found: check and read the request. -/
def readRequest (infoHash secret : Bytes) (select : ℕ) (conn : ByteStream) :
    Except Interrupted (Option (Bytes × Rc4 × Rc4) × ByteStream) := do
  let (obfuscated, conn) ← readExact conn 20
  let expected := xorBytes (digest (req2 ++ infoHash)) (digest (req3 ++ secret))
  if obfuscated ≠ expected then return (none, conn)
  else do
    let decryptor ← conn.call (mseCipher (digest (keyA ++ secret ++ infoHash)))
    let encryptor ← conn.call (mseCipher (digest (keyB ++ secret ++ infoHash)))
    let (header, conn) ← readExact conn 14
    let (header, decryptor) ← conn.call (decryptor.crypt header)
    let verification := header.take 8
    let provide := fromBigEndian ((header.drop 8).take 4)
    let padLength := fromBigEndian (header.drop 12)
    if verification ≠ verificationConstant ∨ provide &&& select = 0 then return (none, conn)
    else do
      let (pad, conn) ← readExact conn padLength
      let (_, decryptor) ← conn.call (decryptor.crypt pad)
      let (length, conn) ← readExact conn 2
      let (length, decryptor) ← conn.call (decryptor.crypt length)
      let (payload, conn) ← readExact conn (fromBigEndian length)
      let (payload, decryptor) ← conn.call (decryptor.crypt payload)
      return (some (payload, decryptor, encryptor), conn)

/-- `handle_connection` after the public keys: find the request, read it and answer it. -/
def answerRequest (infoHash secret : Bytes) (select : ℕ) (pad : Bytes) (conn : ByteStream) :
    Except Interrupted (Option CipherConnection × ByteStream) := do
  let (found, conn) ← searchSync (digest (req1 ++ secret)) conn
  if found = false then return (none, conn)
  else do
    let (received, conn) ← readRequest digest infoHash secret select conn
    match received with
    | none => return (none, conn)
    | some (payload, decryptor, encryptor) => do
      let (hidden, encryptor) ← conn.call (encryptor.crypt (selection select pad))
      let conn ← conn.write hidden
      let (decryptor, encryptor) := if select = cryptoPlaintext then (none, none)
        else (some decryptor, some encryptor)
      return (some ⟨conn, payload, decryptor, encryptor⟩, conn)

/-- `FakeMsePeer.handle_connection`, with the pads it sends: `none` when it gives the connection up,
otherwise the connection it serves metadata on. -/
def handleConnection (infoHash : Bytes) (select : ℕ) (privateKey helloPad pad : Bytes)
    (conn : ByteStream) : Except Interrupted (Option CipherConnection × ByteStream) := do
  let (first, conn) ← readExact conn plaintextPrefix.length
  if first = plaintextPrefix then return (none, conn)
  else do
    let (last, conn) ← readExact conn (dhKeyLength - first.length)
    let conn ← conn.write (dhPublic (fromBigEndian privateKey) ++ helloPad)
    answerRequest digest infoHash
      (dhSecret (fromBigEndian (first ++ last)) (fromBigEndian privateKey)) select pad conn

end Responder

/-! ## Reading without writing -/

section Silent

variable {α β : Type} {conn conn' : ByteStream} {data rest : Bytes} {length : ℕ}

/-- A part of a run that writes nothing; `last` is the stream at its end. -/
def Silent (conn : ByteStream) (x : Except Interrupted α) (last : α → ByteStream) : Prop :=
  Ends x (fun result ↦ ByteStream.sent (last result).log = ByteStream.sent conn.log)
    (fun interrupted ↦ ByteStream.sent interrupted.log = ByteStream.sent conn.log)

theorem Silent.bind {x : Except Interrupted α} {f : α → Except Interrupted β}
    {last : α → ByteStream} {last' : β → ByteStream} (h : Silent conn x last)
    (hf : ∀ a, Silent (last a) (f a) last') : Silent conn (x >>= f) last' := by
  apply Ends.bind h
  intro a ha
  apply (hf a).mono
  · exact fun result hresult ↦ hresult.trans ha
  · exact fun interrupted hinterrupted ↦ hinterrupted.trans ha

theorem silent_readExact (conn : ByteStream) (length : ℕ) :
    Silent conn (readExact conn length) Prod.snd := by
  unfold readExact
  by_cases hzero : length = 0
  · rw [if_pos hzero]
    rfl
  · rw [if_neg hzero]
    apply (ByteStream.readExactly_ends .closed (Nat.pos_of_ne_zero hzero)).mono
    · exact fun result h ↦ h.2.sent
    · rintro interrupted ⟨reason, rfl⟩
      rfl

theorem silent_call (conn : ByteStream) (result : Except Failure α) :
    Silent conn (conn.call result) fun _ ↦ conn := by
  cases result <;> rfl

theorem readExact_of_length (h : conn.incoming = data ++ rest) (hlength : data.length = length) :
    ∃ next, readExact conn length = .ok (data, next) ∧ next.incoming = rest ∧
      ByteStream.sent next.log = ByteStream.sent conn.log := by
  by_cases hzero : length = 0
  · have hnil : data = [] := List.length_eq_zero_iff.mp (hlength.trans hzero)
    subst hnil
    exact ⟨conn, if_pos hzero, h, rfl⟩
  · obtain ⟨next, hread, hadvanced, hnext⟩ := ByteStream.readExactly_of_length .closed h hlength
      (Nat.pos_of_ne_zero hzero)
    exact ⟨next, (if_neg hzero).trans hread, hnext, hadvanced.sent⟩

theorem silent_searchSync (sync : Bytes) (conn : ByteStream) :
    Silent conn (searchSync sync conn) Prod.snd := by
  apply loop_ends
    (I := fun search ↦ ByteStream.sent search.2.log = ByteStream.sent conn.log ∧
      search.1.length ≤ maxPadLength + sync.length)
    (fun search ↦ maxPadLength + sync.length + 1 - search.1.length)
  · rintro ⟨scanned, now⟩ ⟨hnow, hlength⟩
    rw [syncRound]
    simp only
    split
    · exact hnow
    · apply Ends.bind ((ByteStream.readExactly_ends .closed Nat.one_pos).mono (fun _ h ↦ h) ?_)
      · rintro ⟨byte, next⟩ ⟨hbyte, hnext⟩
        simp only at hlength ⊢
        split
        · exact hnext.sent.trans hnow
        · rename_i hlimit
          rw [List.length_append] at hlimit
          refine ⟨⟨hnext.sent.trans hnow, ?_⟩, ?_⟩
          · simp only [List.length_append]
            omega
          · simp only [List.length_append]
            omega
      · rintro interrupted ⟨reason, rfl⟩
        exact hnow
  · exact ⟨rfl, Nat.zero_le _⟩
  · simp

/-- The responder finds the sync hash at its first place. -/
theorem searchSync_finds {sync before : Bytes} (hfirst : FirstAfter before sync)
    (hbefore : before.length ≤ maxPadLength) (h : conn.incoming = before ++ sync ++ rest) :
    ∃ next, searchSync sync conn = .ok (true, next) ∧ next.incoming = rest ∧
      ByteStream.sent next.log = ByteStream.sent conn.log := by
  have hloop : ∀ (left : ℕ) (scanned : Bytes) (fuel : ℕ) (conn : ByteStream),
      scanned ++ conn.incoming = before ++ sync ++ rest →
      scanned.length + left = before.length + sync.length → left < fuel →
      ∃ next, loop (fun search ↦ ⟨.failure .outOfFuel, search.2.log⟩) (syncRound sync) fuel
          (scanned, conn) = .ok (true, next) ∧ next.incoming = rest ∧
        ByteStream.sent next.log = ByteStream.sent conn.log := by
    intro left
    induction left with
    | zero =>
      intro scanned fuel conn hincoming hleft hfuel
      obtain ⟨fuel, rfl⟩ : ∃ n, fuel = n + 1 := ⟨fuel - 1, by omega⟩
      obtain ⟨rfl, hrest⟩ := List.append_inj hincoming (by simpa using hleft)
      exact ⟨conn, loop_break (if_pos (List.suffix_append before sync)), hrest, rfl⟩
    | succ left ih =>
      intro scanned fuel conn hincoming hleft hfuel
      obtain ⟨fuel, rfl⟩ : ∃ n, fuel = n + 1 := ⟨fuel - 1, by omega⟩
      -- a match here would be an earlier place of the sync hash
      have hearly : ¬sync <:+ scanned := by
        rintro ⟨skipped, rfl⟩
        rw [List.length_append] at hleft
        apply hfirst skipped.length (by omega)
        have hdrop : sync ++ conn.incoming = (before ++ sync).drop skipped.length ++ rest := by
          have hboth := congrArg (List.drop skipped.length) hincoming
          rwa [List.append_assoc, List.drop_left, List.drop_append_of_le_length (by
            rw [List.length_append]
            omega)] at hboth
        apply List.prefix_of_prefix_length_le ⟨conn.incoming, hdrop⟩ (List.prefix_append _ _)
        rw [List.length_drop, List.length_append]
        omega
      obtain ⟨byte, arrived, harrived⟩ : ∃ byte arrived, conn.incoming = byte :: arrived := by
        apply List.exists_cons_of_ne_nil
        intro hnil
        have hlengths := congrArg List.length hincoming
        simp only [hnil, List.length_append, List.length_nil] at hlengths
        omega
      obtain ⟨conn', hread, hconn', hsent⟩ :=
        @readExact_of_length conn [byte] arrived 1 harrived rfl
      have hround : syncRound sync (scanned, conn) = .ok (.inl (scanned ++ [byte], conn')) := by
        rw [syncRound]
        simp only
        rw [if_neg hearly, hread, ok_bind]
        simp only
        rw [if_neg (by rw [List.length_append, List.length_singleton]; omega)]
        rfl
      obtain ⟨next, hrun, hnext, hsent'⟩ := ih (scanned ++ [byte]) fuel conn'
        (by rw [hconn', List.append_assoc, ← hincoming, harrived]; rfl)
        (by rw [List.length_append, List.length_singleton]; omega) (by omega)
      refine ⟨next, ?_, hnext, hsent'.trans hsent⟩
      rw [loop_next hround]
      exact hrun
  exact hloop (before.length + sync.length) [] _ conn h (by simp) (by omega)

end Silent

/-! ## The responder's side -/

section Responder

variable {digest : Bytes → Bytes} {infoHash payload secret rest : Bytes} {select : ℕ}
  {conn : ByteStream}

theorem silent_readRequest (digest : Bytes → Bytes) (infoHash secret : Bytes) (select : ℕ)
    (conn : ByteStream) : Silent conn (readRequest digest infoHash secret select conn) Prod.snd := by
  unfold readRequest
  apply (silent_readExact conn 20).bind
  rintro ⟨obfuscated, conn⟩
  simp only
  split
  · rfl
  apply (silent_call conn _).bind
  intro decryptor
  apply (silent_call conn _).bind
  intro encryptor
  apply (silent_readExact conn 14).bind
  rintro ⟨header, conn⟩
  apply (silent_call conn _).bind
  rintro ⟨header, decryptor⟩
  simp only
  split
  · rfl
  apply (silent_readExact conn _).bind
  rintro ⟨pad, conn⟩
  apply (silent_call conn _).bind
  rintro ⟨pad, decryptor⟩
  apply (silent_readExact conn 2).bind
  rintro ⟨length, conn⟩
  apply (silent_call conn _).bind
  rintro ⟨length, decryptor⟩
  apply (silent_readExact conn _).bind
  rintro ⟨payload, conn⟩
  apply (silent_call conn _).bind
  rintro ⟨payload, decryptor⟩
  rfl

/-- The responder reads a request to its end. -/
theorem readRequest_of (hdigest : ∀ data, (digest data).length = 20)
    (hselect : select = cryptoPlaintext ∨ select = cryptoRc4) (hpayload : payload.length ≤ 0xFFFF)
    (h : conn.incoming = hiddenInfoHash digest infoHash secret ++
      (hiddenRequest digest infoHash payload secret).1 ++ rest) :
    ∃ next, readRequest digest infoHash secret select conn =
        .ok (some (payload, (hiddenRequest digest infoHash payload secret).2,
          sessionCipher digest keyB secret infoHash), next) ∧
      next.incoming = rest ∧ ByteStream.sent next.log = ByteStream.sent conn.log := by
  let header := verificationConstant ++
    (toBigEndian 4 (cryptoRc4 ||| cryptoPlaintext) ++ toBigEndian 2 0)
  obtain ⟨headerSent, first, hheader⟩ : ∃ headerSent first,
      rc4.crypt (sessionCipher digest keyA secret infoHash) header = (headerSent, first) :=
    ⟨_, _, rfl⟩
  obtain ⟨lengthSent, second, hlength⟩ : ∃ lengthSent second,
      rc4.crypt first (toBigEndian 2 payload.length) = (lengthSent, second) := ⟨_, _, rfl⟩
  have hwhole : hiddenRequest digest infoHash payload secret =
      (headerSent ++ (lengthSent ++ (rc4.crypt second payload).1),
        (rc4.crypt second payload).2) := by
    have hsplit : requestHeader payload ++ payload =
        header ++ (toBigEndian 2 payload.length ++ payload) := by
      simp only [requestHeader, header, List.append_assoc]
    rw [hiddenRequest, hsplit, rc4.crypt_append, hheader, rc4.crypt_append, hlength]
  have hheaderBack := rc4.crypt_crypt (sessionCipher digest keyA secret infoHash) header
  have hlengthBack := rc4.crypt_crypt first (toBigEndian 2 payload.length)
  have hheaderLength := rc4.length_crypt (sessionCipher digest keyA secret infoHash) header
  have hlengthLength := rc4.length_crypt first (toBigEndian 2 payload.length)
  rw [hheader] at hheaderBack hheaderLength
  rw [hlength] at hlengthBack hlengthLength
  have hhidden : (hiddenInfoHash digest infoHash secret).length = 20 := by
    rw [hiddenInfoHash, xorBytes, List.length_zipWith, hdigest, hdigest, Nat.min_self]
  have hpayloadValue : fromBigEndian (toBigEndian 2 payload.length) = payload.length :=
    fromBigEndian_toBigEndian (lt_of_le_of_lt hpayload (by decide))
  have hcipher (name : Bytes) : mseCipher (digest (name ++ secret ++ infoHash)) =
      .ok (sessionCipher digest name secret infoHash) := mseCipher_eq (hdigest _)
  have hsame : ¬(hiddenInfoHash digest infoHash secret ≠
      xorBytes (digest (req2 ++ infoHash)) (digest (req3 ++ secret))) := not_not_intro rfl
  have hnoPad : fromBigEndian (header.drop 12) = 0 := by decide
  have hvalid : ¬(header.take 8 ≠ verificationConstant ∨
      fromBigEndian ((header.drop 8).take 4) &&& select = 0) := by
    rcases hselect with rfl | rfl <;> decide
  rw [hwhole] at h ⊢
  obtain ⟨conn₁, hread₁, hconn₁, hsent₁⟩ := readExact_of_length
    (h.trans (List.append_assoc _ _ _)) hhidden
  obtain ⟨conn₂, hread₂, hconn₂, hsent₂⟩ := readExact_of_length
    (hconn₁.trans (List.append_assoc _ _ _)) hheaderLength
  obtain ⟨conn₃, hread₃, hconn₃, hsent₃⟩ := readExact_of_length
    (hconn₂.trans (List.append_assoc _ _ _)) (hlengthLength.trans (length_toBigEndian 2 _))
  obtain ⟨conn₄, hread₄, hconn₄, hsent₄⟩ := readExact_of_length hconn₃
    (rc4.length_crypt second payload)
  refine ⟨conn₄, ?_, hconn₄, hsent₄.trans (hsent₃.trans (hsent₂.trans hsent₁))⟩
  unfold readRequest
  rw [hread₁, ok_bind]
  simp only
  rw [if_neg hsame, ByteStream.call_eq_ok (hcipher keyA), ok_bind,
    ByteStream.call_eq_ok (hcipher keyB), ok_bind, show 14 = header.length from rfl, hread₂, ok_bind]
  simp only
  rw [Rc4.crypt_eq, hheaderBack, ByteStream.call_eq_ok rfl, ok_bind]
  simp only
  rw [if_neg hvalid, hnoPad, readExact, if_pos rfl, ok_bind]
  simp only
  rw [Rc4.crypt_eq, rc4.crypt_nil, ByteStream.call_eq_ok rfl, ok_bind]
  simp only
  rw [hread₃, ok_bind]
  simp only
  rw [Rc4.crypt_eq, hlengthBack, ByteStream.call_eq_ok rfl, ok_bind]
  simp only
  rw [hpayloadValue, hread₄, ok_bind]
  simp only
  rw [Rc4.crypt_eq, rc4.crypt_crypt, ByteStream.call_eq_ok rfl, ok_bind]
  rfl

/-- Behind a public key the responder sends its own and looks for the request. -/
theorem handleConnection_of_public {privateKey helloPad pad remote : Bytes}
    (h : conn.incoming = remote ++ rest) (hlength : remote.length = dhKeyLength)
    (hmagic : remote.take plaintextPrefix.length ≠ plaintextPrefix) :
    ∃ next : ByteStream, next.incoming = rest ∧
      ByteStream.sent next.log =
        ByteStream.sent conn.log ++ (dhPublic (fromBigEndian privateKey) ++ helloPad) ∧
      handleConnection digest infoHash select privateKey helloPad pad conn =
        answerRequest digest infoHash
          (dhSecret (fromBigEndian remote) (fromBigEndian privateKey)) select pad next := by
  have hfirst : (remote.take plaintextPrefix.length).length = plaintextPrefix.length :=
    List.length_take_of_le (by rw [hlength]; decide)
  have hsplit : conn.incoming = remote.take plaintextPrefix.length ++
      (remote.drop plaintextPrefix.length ++ rest) := by
    rw [h, ← List.append_assoc, List.take_append_drop]
  obtain ⟨conn₁, hread₁, hconn₁, hsent₁⟩ := readExact_of_length hsplit hfirst
  have hsecond : (remote.drop plaintextPrefix.length).length =
      dhKeyLength - (remote.take plaintextPrefix.length).length := by
    rw [List.length_drop, hlength, hfirst]
  obtain ⟨conn₂, hread₂, hconn₂, hsent₂⟩ := readExact_of_length hconn₁ hsecond
  refine ⟨{ conn₂ with log := conn₂.log ++
    [.wrote (dhPublic (fromBigEndian privateKey) ++ helloPad)] }, hconn₂, ?_, ?_⟩
  · rw [ByteStream.sent_wrote, hsent₂, hsent₁]
  · unfold handleConnection
    rw [hread₁, ok_bind]
    simp only
    rw [if_neg hmagic, hread₂, ok_bind]
    simp only
    rw [ByteStream.write_eq_ok (dhPublic_ne_nil _ _), ok_bind, List.take_append_drop]

/-- What was sent before stays the beginning of what is sent. -/
theorem answerRequest_extends (digest : Bytes → Bytes) (infoHash secret pad : Bytes) (select : ℕ)
    (conn : ByteStream) :
    Ends (answerRequest digest infoHash secret select pad conn)
      (fun result ↦ ByteStream.sent conn.log <+: ByteStream.sent result.2.log)
      (fun interrupted ↦ ByteStream.sent conn.log <+: ByteStream.sent interrupted.log) := by
  unfold answerRequest
  apply Ends.bind ((silent_searchSync _ conn).mono (fun _ h ↦ h) fun _ h ↦ h ▸ List.prefix_rfl)
  rintro ⟨found, conn₁⟩ hsearch
  simp only at hsearch ⊢
  split
  · exact hsearch ▸ List.prefix_rfl
  apply Ends.bind ((silent_readRequest digest infoHash secret select conn₁).mono (fun _ h ↦ h)
    fun _ h ↦ (h.trans hsearch) ▸ List.prefix_rfl)
  rintro ⟨received, conn₂⟩ hread
  have hsame := hread.trans hsearch
  simp only at hsame ⊢
  cases received with
  | none => exact hsame ▸ List.prefix_rfl
  | some received =>
    obtain ⟨payload, decryptor, encryptor⟩ := received
    simp only
    rw [ByteStream.call_eq_ok (Rc4.crypt_eq _ _), ok_bind]
    unfold ByteStream.write
    split
    · exact hsame ▸ List.prefix_rfl
    · rw [ok_bind, ← hsame]
      split <;> exact ⟨_, (ByteStream.sent_wrote _ _).symm⟩

/-- The responder answers a request that comes behind a pad. -/
theorem answerRequest_of (hdigest : ∀ data, (digest data).length = 20)
    (hselect : select = cryptoPlaintext ∨ select = cryptoRc4) (hpayload : payload.length ≤ 0xFFFF)
    {before pad : Bytes} (hfirst : FirstAfter before (syncHash digest secret))
    (hbefore : before.length ≤ maxPadLength)
    (h : conn.incoming = before ++ request digest infoHash payload secret ++ rest) :
    ∃ peer, answerRequest digest infoHash secret select pad conn = .ok (some peer, peer.conn) ∧
      peer.conn.incoming = rest ∧ peer.pending = payload ∧
      ByteStream.sent peer.conn.log = ByteStream.sent conn.log ++
        (rc4.crypt (sessionCipher digest keyB secret infoHash) (selection select pad)).1 ∧
      peer.decryptor = (if select = cryptoRc4 then
        some (hiddenRequest digest infoHash payload secret).2 else none) ∧
      peer.encryptor = if select = cryptoRc4 then
        some (rc4.crypt (sessionCipher digest keyB secret infoHash) (selection select pad)).2
        else none := by
  have hsplit : conn.incoming = before ++ syncHash digest secret ++
      (hiddenInfoHash digest infoHash secret ++
        (hiddenRequest digest infoHash payload secret).1 ++ rest) := by
    rw [h, request]
    simp only [List.append_assoc]
  obtain ⟨conn₁, hsearch, hconn₁, hsent₁⟩ := searchSync_finds hfirst hbefore hsplit
  obtain ⟨conn₂, hread, hconn₂, hsent₂⟩ := readRequest_of hdigest hselect hpayload hconn₁
  obtain ⟨hidden, last, hhidden⟩ : ∃ hidden last,
      rc4.crypt (sessionCipher digest keyB secret infoHash) (selection select pad) =
        (hidden, last) := ⟨_, _, rfl⟩
  have hnonempty : hidden ≠ [] := by
    have hlength := rc4.length_crypt (sessionCipher digest keyB secret infoHash)
      (selection select pad)
    rw [hhidden] at hlength
    apply List.ne_nil_of_length_pos
    rw [hlength, selection, List.length_append]
    exact Nat.add_pos_left (by decide) _
  rw [hhidden]
  refine ⟨⟨{ conn₂ with log := conn₂.log ++ [.wrote hidden] }, payload,
    if select = cryptoRc4 then some (hiddenRequest digest infoHash payload secret).2 else none,
    if select = cryptoRc4 then some last else none⟩, ?_, hconn₂, rfl, ?_, rfl, rfl⟩
  · rw [syncHash] at hsearch
    unfold answerRequest
    rw [hsearch, ok_bind]
    simp only
    rw [if_neg Bool.noConfusion, hread, ok_bind]
    simp only
    rw [Rc4.crypt_eq, hhidden, ByteStream.call_eq_ok rfl, ok_bind]
    simp only
    rw [ByteStream.write_eq_ok hnonempty, ok_bind]
    rcases hselect with rfl | rfl <;> rfl
  · rw [ByteStream.sent_wrote, hsent₂, hsent₁]

/-- What follows the sync hash is not the hidden info hash: the responder gives up. -/
theorem answerRequest_refuses {before other pad : Bytes}
    (hfirst : FirstAfter before (syncHash digest secret)) (hbefore : before.length ≤ maxPadLength)
    (h : conn.incoming = before ++ syncHash digest secret ++ (other ++ rest))
    (hlength : other.length = 20) (hother : other ≠ hiddenInfoHash digest infoHash secret) :
    ∃ next, answerRequest digest infoHash secret select pad conn = .ok (none, next) ∧
      ByteStream.sent next.log = ByteStream.sent conn.log := by
  obtain ⟨conn₁, hsearch, hconn₁, hsent₁⟩ := searchSync_finds hfirst hbefore h
  obtain ⟨conn₂, hread, -, hsent₂⟩ := readExact_of_length hconn₁ hlength
  rw [syncHash] at hsearch
  rw [hiddenInfoHash] at hother
  refine ⟨conn₂, ?_, hsent₂.trans hsent₁⟩
  unfold answerRequest readRequest
  rw [hsearch, ok_bind]
  simp only
  rw [if_neg Bool.noConfusion, hread, ok_bind]
  simp only
  rw [if_pos hother]
  rfl

end Responder

end DhtScraper
