import DhtScraper.Fetch.ByteStream
import DhtScraper.Library.Keystream
import Mathlib.Data.Vector.Basic

/-!
# Message stream encryption, the outgoing side

RC4, the cipher of a session, streams that encrypt what is written and decrypt what is read, and
`negotiate_encryption`.  The hash function and the answers of the random source are arguments.

Whatever arrives, a negotiation ends in a stream or in a fetch error, and the search for the
verification constant reads at most `MAX_PAD_LENGTH` bytes after its first window.
-/

namespace DhtScraper

open Library

def dhPrime : ℕ :=
  0xFFFFFFFFFFFFFFFFC90FDAA22168C234C4C6628B80DC1CD129024E088A67CC74020BBEA63B139B22514A08798E3404DDEF9519B3CD3A431B302B0A6DF25F14374FE1356D6D51C245E485B576625E7EC6F44C42E9A63A36210000000000090563

def dhGenerator : ℕ := 2

def dhKeyLength : ℕ := 96

def verificationConstant : Bytes := List.replicate 8 0

def cryptoPlaintext : ℕ := 1

def cryptoRc4 : ℕ := 2

def maxPadLength : ℕ := 512

def ourPadMax : ℕ := 64

def rc4Discard : ℕ := 1024

/-! ## RC4 -/

abbrev Rc4State := Vector UInt8 256

namespace Rc4State

def initial : Rc4State := Vector.ofFn fun i ↦ i.val.toUInt8

def value (state : Rc4State) (index : UInt8) : UInt8 := state.get ⟨index.toNat, index.toNat_lt⟩

def exchange (state : Rc4State) (i j : UInt8) : Rc4State :=
  state.swap i.toNat j.toNat i.toNat_lt j.toNat_lt

theorem exchange_perm (state : Rc4State) (i j : UInt8) :
    (state.exchange i j).toList.Perm state.toList :=
  Vector.perm_iff_toList_perm.mp (Vector.swap_perm _ _)

end Rc4State

structure Rc4 where
  state : Rc4State
  i : UInt8
  j : UInt8

namespace Rc4

/-- One round of the key schedule. -/
def scheduleRound (key : Bytes) (scheduled : Rc4State × UInt8) (i : ℕ) : Rc4State × UInt8 :=
  let j := scheduled.2 + scheduled.1.value i.toUInt8 + key.getD (i % key.length) 0
  (scheduled.1.exchange i.toUInt8 j, j)

def schedule (key : Bytes) : Rc4State :=
  ((List.range 256).foldl (scheduleRound key) (.initial, 0)).1

/-- The constructor; a sorted list equals `list(range(256))` when it is a permutation of it. -/
def init (key : Bytes) : Except Failure Rc4 := do
  assert (1 ≤ key.length ∧ key.length ≤ 256)
  let state := schedule key
  assert (state.toList.Perm Rc4State.initial.toList)
  return ⟨state, 0, 0⟩

/-- One round of the loop of `crypt`, up to the masking. -/
def next (cipher : Rc4) : UInt8 × Rc4 :=
  let i := cipher.i + 1
  let j := cipher.j + cipher.state.value i
  let state := cipher.state.exchange i j
  (state.value (state.value i + state.value j), ⟨state, i, j⟩)

end Rc4

def rc4 : StreamCipher Rc4 UInt8 UInt8 where
  next := Rc4.next
  mask key byte := byte ^^^ key
  involutive key byte := by
    change byte ^^^ key ^^^ key = byte
    rw [UInt8.xor_assoc, UInt8.xor_self, UInt8.xor_zero]

namespace Rc4

def crypt (cipher : Rc4) (data : Bytes) : Except Failure (Bytes × Rc4) := do
  let (result, cipher) := rc4.crypt cipher data
  assert (result.length = data.length)
  return (result, cipher)

theorem crypt_eq (cipher : Rc4) (data : Bytes) : cipher.crypt data = .ok (rc4.crypt cipher data) := by
  unfold crypt
  simp only
  rw [assert_true (rc4.length_crypt cipher data)]
  rfl

theorem schedule_perm (key : Bytes) : (schedule key).toList.Perm Rc4State.initial.toList := by
  have hfold : ∀ (rounds : List ℕ) (scheduled : Rc4State × UInt8),
      (rounds.foldl (scheduleRound key) scheduled).1.toList.Perm scheduled.1.toList := by
    intro rounds
    induction rounds with
    | nil => exact fun scheduled ↦ List.Perm.refl _
    | cons i rest ih => exact fun scheduled ↦ (ih _).trans (scheduled.1.exchange_perm _ _)
  exact hfold (List.range 256) (.initial, 0)

theorem init_eq {key : Bytes} (h : 1 ≤ key.length ∧ key.length ≤ 256) :
    init key = .ok ⟨schedule key, 0, 0⟩ := by
  unfold init
  rw [assert_true h, ok_bind]
  simp only
  rw [assert_true (schedule_perm key)]
  rfl

/-- The first index counts the bytes, modulo 256. -/
theorem i_crypt (cipher : Rc4) (data : Bytes) :
    (rc4.crypt cipher data).2.i = cipher.i + data.length.toUInt8 := by
  induction data generalizing cipher with
  | nil => simp
  | cons byte rest ih =>
    rw [StreamCipher.crypt_cons, ih]
    change cipher.i + 1 + rest.length.toUInt8 = cipher.i + (rest.length + 1).toUInt8
    rw [UInt8.add_assoc, Nat.toUInt8_eq, Nat.toUInt8_eq, UInt8.ofNat_add, UInt8.add_comm 1]
    rfl

end Rc4

def mseCipher (key : Bytes) : Except Failure Rc4 := do
  assert (key.length = 20)
  let cipher ← Rc4.init key
  let (_, cipher) ← cipher.crypt (List.replicate rc4Discard 0)
  assert (cipher.i.toNat = rc4Discard % 256)
  return cipher

/-- The cipher that `mse_cipher` makes. -/
def mseState (key : Bytes) : Rc4 :=
  (rc4.crypt ⟨Rc4.schedule key, 0, 0⟩ (List.replicate rc4Discard 0)).2

theorem mseCipher_eq {key : Bytes} (h : key.length = 20) : mseCipher key = .ok (mseState key) := by
  have hindex : (mseState key).i.toNat = rc4Discard % 256 := by
    rw [mseState, Rc4.i_crypt, List.length_replicate]
    change (0 + rc4Discard.toUInt8).toNat = rc4Discard % 256
    decide
  unfold mseCipher
  rw [assert_true h, ok_bind, Rc4.init_eq (by omega), ok_bind, Rc4.crypt_eq, ok_bind]
  simp only
  rw [← mseState, assert_true hindex]
  rfl

/-! ## Key exchange -/

/-- `pow(base, exponent, modulus)`, by repeated squaring. -/
def powMod (base exponent modulus : ℕ) : ℕ :=
  if h : exponent = 0 then 1 % modulus
  else
    let half := powMod (base * base % modulus) (exponent / 2) modulus
    if exponent % 2 = 1 then base * half % modulus else half
termination_by exponent
decreasing_by omega

theorem powMod_eq (base exponent modulus : ℕ) :
    powMod base exponent modulus = base ^ exponent % modulus := by
  induction exponent using Nat.strongRecOn generalizing base with
  | ind exponent ih =>
    rw [powMod]
    by_cases h : exponent = 0
    · rw [dif_pos h, h, pow_zero]
    · have hhalf : powMod (base * base % modulus) (exponent / 2) modulus =
          base ^ (2 * (exponent / 2)) % modulus := by
        rw [ih _ (by omega), ← Nat.pow_mod, pow_mul, pow_two]
      rw [dif_neg h]
      simp only [hhalf]
      by_cases hodd : exponent % 2 = 1
      · rw [if_pos hodd, Nat.mul_mod_mod, mul_comm, ← pow_succ]
        congr 2
        omega
      · rw [if_neg hodd]
        congr 2
        omega

def dhPublic (privateKey : ℕ) : Bytes := toBigEndian dhKeyLength (powMod dhGenerator privateKey dhPrime)

def dhSecret (remote privateKey : ℕ) : Bytes :=
  toBigEndian dhKeyLength (powMod remote privateKey dhPrime)

theorem powMod_lt_key (base exponent : ℕ) : powMod base exponent dhPrime < 256 ^ dhKeyLength := by
  have hprime : dhPrime < 256 ^ dhKeyLength := by decide
  rw [powMod_eq]
  exact (Nat.mod_lt _ (by decide)).trans hprime

/-- Both sides derive the same secret. -/
theorem dhSecret_comm (ours theirs : ℕ) :
    dhSecret (fromBigEndian (dhPublic theirs)) ours =
      dhSecret (fromBigEndian (dhPublic ours)) theirs := by
  have hagree (first second : ℕ) : powMod (fromBigEndian (dhPublic first)) second dhPrime =
      dhGenerator ^ (first * second) % dhPrime := by
    rw [dhPublic, fromBigEndian_toBigEndian (powMod_lt_key _ _), powMod_eq, powMod_eq,
      ← Nat.pow_mod, pow_mul]
  rw [dhSecret, dhSecret, hagree, hagree, mul_comm]

theorem dhPublic_ne_nil (privateKey : ℕ) (pad : Bytes) : dhPublic privateKey ++ pad ≠ [] := by
  apply List.ne_nil_of_length_pos
  rw [List.length_append, dhPublic, length_toBigEndian]
  exact Nat.add_pos_left (by decide) _

theorem length_dhPublic (privateKey : ℕ) : (dhPublic privateKey).length = dhKeyLength :=
  length_toBigEndian _ _

-- a number modulo the prime is never to be computed
attribute [irreducible] dhPublic dhSecret

section Digest

variable (digest : Bytes → Bytes)

def sha1 (parts : List Bytes) : Except Failure Bytes := do
  assert (parts ≠ [])
  let result := digest parts.flatten
  assert (result.length = 20)
  return result

theorem sha1_eq {digest : Bytes → Bytes} (hdigest : ∀ data, (digest data).length = 20)
    {parts : List Bytes} (h : parts ≠ []) : sha1 digest parts = .ok (digest parts.flatten) := by
  unfold sha1
  rw [assert_true h, ok_bind]
  simp only
  rw [assert_true (hdigest _)]
  rfl

def keyA : Bytes := ascii ['k', 'e', 'y', 'A']

def keyB : Bytes := ascii ['k', 'e', 'y', 'B']

def req1 : Bytes := ascii ['r', 'e', 'q', '1']

def req2 : Bytes := ascii ['r', 'e', 'q', '2']

def req3 : Bytes := ascii ['r', 'e', 'q', '3']

/-- The byte-wise exclusive or of two byte strings, as long as the shorter one. -/
def xorBytes (left right : Bytes) : Bytes := List.zipWith (· ^^^ ·) left right

end Digest

/-! ## Encrypted streams -/

structure EncryptedStream where
  inner : ByteStream
  encryptor : Option Rc4
  decryptor : Option Rc4

/-- Encrypt or decrypt when there is a cipher. -/
def cryptOptional (cipher : Option Rc4) (data : Bytes) : Except Failure (Bytes × Option Rc4) :=
  match cipher with
  | none => .ok (data, none)
  | some cipher => do
    let (result, cipher) ← cipher.crypt data
    return (result, some cipher)

theorem cryptOptional_eq (cipher : Option Rc4) (data : Bytes) :
    cryptOptional cipher data = .ok (rc4.optional.crypt cipher data) := by
  cases cipher with
  | none => rw [cryptOptional, rc4.optional_crypt_none]
  | some cipher =>
    rw [cryptOptional, Rc4.crypt_eq, rc4.optional_crypt_some]
    rfl

namespace EncryptedStream

/-- The constructor. -/
def init (inner : ByteStream) (encryptor decryptor : Option Rc4) :
    Except Failure EncryptedStream := do
  assert (encryptor.isNone = decryptor.isNone)
  return ⟨inner, encryptor, decryptor⟩

def readExactly (stream : EncryptedStream) (length : ℕ) (closedReason : FetchReason) :
    Except Interrupted (Bytes × EncryptedStream) := do
  let _ ← stream.inner.call (assert (0 < length))
  let (data, inner) ← stream.inner.readExactly length closedReason
  let (result, decryptor) ← inner.call (cryptOptional stream.decryptor data)
  let _ ← inner.call (assert (result.length = length))
  return (result, { stream with inner := inner, decryptor := decryptor })

def write (stream : EncryptedStream) (data : Bytes) : Except Interrupted EncryptedStream := do
  let _ ← stream.inner.call (assert (data ≠ []))
  let (result, encryptor) ← stream.inner.call (cryptOptional stream.encryptor data)
  let inner ← stream.inner.write result
  return { stream with inner := inner, encryptor := encryptor }

end EncryptedStream

/-! ## The negotiation -/

section Negotiation

/-- One round of the search: the window moves on by a byte until it is the marker. -/
def searchRound (marker : Bytes) (search : (Bytes × ℕ) × ByteStream) :
    Except Interrupted (((Bytes × ℕ) × ByteStream) ⊕ ByteStream) :=
  let ((window, scanned), stream) := search
  if window = marker then .ok (.inr stream)
  else if maxPadLength ≤ scanned then stream.raise (.fetch .encryptionFailed)
  else do
    let (byte, stream) ← stream.readExactly 1 .closed
    return .inl ((window.drop 1 ++ byte, scanned + 1), stream)

def searchMarker (marker window : Bytes) (stream : ByteStream) : Except Interrupted ByteStream :=
  loop (fun search ↦ ⟨.failure .outOfFuel, search.2.log⟩) (searchRound marker) (maxPadLength + 2)
    ((window, 0), stream)

/-- `negotiate_encryption` from the search for the verification constant on. -/
def awaitSelection (encryptor decryptor : Rc4) (stream : ByteStream) :
    Except Interrupted EncryptedStream := do
  let (marker, _) ← stream.call (decryptor.crypt verificationConstant)
  let (window, stream) ← stream.readExactly marker.length .closed
  let stream ← searchMarker marker window stream
  let (_, decryptor) ← stream.call (decryptor.crypt verificationConstant)
  let (answer, stream) ← stream.readExactly 6 .closed
  let (answer, decryptor) ← stream.call (decryptor.crypt answer)
  let select := fromBigEndian (answer.take 4)
  let padLength := fromBigEndian (answer.drop 4)
  if select ≠ cryptoPlaintext ∧ select ≠ cryptoRc4 ∨ maxPadLength < padLength then
    stream.raise (.fetch .encryptionFailed)
  else do
    let padRead : Except Interrupted (Rc4 × ByteStream) :=
      if padLength = 0 then .ok (decryptor, stream)
      else do
        let (pad, stream) ← stream.readExactly padLength .closed
        let (_, decryptor) ← stream.call (decryptor.crypt pad)
        return (decryptor, stream)
    let (decryptor, stream) ← padRead
    stream.call (if select = cryptoRc4 then
      EncryptedStream.init stream (some encryptor) (some decryptor)
    else EncryptedStream.init stream none none)

def requestHeader (initialPayload : Bytes) : Bytes :=
  verificationConstant ++ (toBigEndian 4 (cryptoRc4 ||| cryptoPlaintext) ++ toBigEndian 2 0 ++
    toBigEndian 2 initialPayload.length)

variable (digest : Bytes → Bytes)

/-- What answers the key of the other side, with the ciphers of the session. -/
def cryptoRequest (infoHash initialPayload secret : Bytes) : Except Failure (Bytes × Rc4 × Rc4) := do
  let encryptor ← sha1 digest [keyA, secret, infoHash] >>= mseCipher
  let decryptor ← sha1 digest [keyB, secret, infoHash] >>= mseCipher
  let hashOfHash ← sha1 digest [req2, infoHash]
  let hashOfSecret ← sha1 digest [req3, secret]
  let header := requestHeader initialPayload
  let sync ← sha1 digest [req1, secret]
  let (hiddenHeader, encryptor) ← encryptor.crypt header
  let (hiddenPayload, encryptor) ← encryptor.crypt initialPayload
  return (sync ++ xorBytes hashOfHash hashOfSecret ++ hiddenHeader ++ hiddenPayload, encryptor,
    decryptor)

/-- `negotiate_encryption`, with the answers of `os.urandom` for the key and for the pad. -/
def negotiateEncryption (infoHash initialPayload privateKey pad : Bytes) (stream : ByteStream) :
    Except Interrupted EncryptedStream := do
  let _ ← stream.call (assert (infoHash.length = nodeIdLength ∧
    0 < initialPayload.length ∧ initialPayload.length ≤ 0xFFFF))
  let stream ← stream.write (dhPublic (fromBigEndian privateKey) ++ pad)
  let (remote, stream) ← stream.readExactly dhKeyLength .closedOnHandshake
  let secret := dhSecret (fromBigEndian remote) (fromBigEndian privateKey)
  let (request, encryptor, decryptor) ← stream.call
    (cryptoRequest digest infoHash initialPayload secret)
  let stream ← stream.write request
  awaitSelection encryptor decryptor stream

end Negotiation

/-! ## The search -/

/-- Read one by one, never more than `MAX_PAD_LENGTH` of them. -/
def FewSingles (reads : List Bytes) : Prop :=
  reads.length ≤ maxPadLength ∧ ∀ data ∈ reads, data.length = 1

/-- Whatever arrives, the search reads at most `MAX_PAD_LENGTH` bytes after its first window. -/
theorem searchMarker_ends (marker window : Bytes) (stream : ByteStream) :
    Ends (searchMarker marker window stream)
      (fun next ↦ ∃ reads, FewSingles reads ∧ stream.Advanced reads next)
      (fun interrupted ↦ ∃ reason reads, FewSingles reads ∧
        interrupted = ⟨.fetch reason, stream.log ++ reads.map .read⟩) := by
  apply loop_ends (I := fun search ↦ ∃ reads, search.1.2 = reads.length ∧ FewSingles reads ∧
    stream.Advanced reads search.2) (fun search ↦ maxPadLength + 1 - search.1.2)
  · rintro ⟨⟨window, scanned⟩, now⟩ ⟨reads, hscanned, hfew, hnow⟩
    change scanned = reads.length at hscanned
    subst hscanned
    rw [searchRound]
    simp only
    by_cases hfound : window = marker
    · rw [if_pos hfound]
      exact ⟨reads, hfew, hnow⟩
    · rw [if_neg hfound]
      by_cases hlimit : maxPadLength ≤ reads.length
      · rw [if_pos hlimit]
        exact ⟨.encryptionFailed, reads, hfew, by rw [hnow.log]⟩
      · rw [if_neg hlimit]
        apply (ByteStream.readExactly_ends .closed Nat.one_pos).mono (fun _ h ↦ h) ?_ |>.bind
        · rintro ⟨byte, next⟩ ⟨hlength, hnext⟩
          refine ⟨⟨reads ++ [byte], by simp, ⟨?_, ?_⟩, hnow.trans hnext⟩, ?_⟩
          · rw [List.length_append, List.length_singleton]
            omega
          · simpa [or_imp, forall_and, hlength] using hfew.2
          · simp only
            omega
        · rintro interrupted ⟨reason, rfl⟩
          exact ⟨reason, reads, hfew, by rw [hnow.log]⟩
  · exact ⟨[], rfl, ⟨Nat.zero_le _, by simp⟩, ByteStream.Advanced.refl⟩
  · simp

/-- After these bytes the pattern appears for the first time. -/
def FirstAfter (before pattern : Bytes) : Prop :=
  ∀ k < before.length, ¬pattern <+: (before ++ pattern).drop k

theorem firstAfter_nil (pattern : Bytes) : FirstAfter [] pattern :=
  fun k hk ↦ absurd hk (Nat.not_lt_zero k)

theorem firstAfter_replicate {byte first : UInt8} (h : byte ≠ first) (n : ℕ) (rest : Bytes) :
    FirstAfter (List.replicate n byte) (first :: rest) := by
  intro k hk hprefix
  rw [List.length_replicate] at hk
  obtain ⟨m, rfl⟩ : ∃ m, n = k + (m + 1) := ⟨n - k - 1, by omega⟩
  rw [List.replicate_add, List.append_assoc, List.drop_left' List.length_replicate,
    List.replicate_succ, List.cons_append, List.cons_prefix_cons] at hprefix
  exact h hprefix.1.symm

theorem FirstAfter.tail {byte : UInt8} {before pattern : Bytes}
    (h : FirstAfter (byte :: before) pattern) : FirstAfter before pattern := by
  intro k hk hprefix
  exact h (k + 1) (by simpa using hk) hprefix

/-- The search finds the marker at its first place. -/
theorem searchMarker_finds {marker window before rest : Bytes} {stream : ByteStream}
    (hfirst : FirstAfter before marker) (hfew : before.length ≤ maxPadLength)
    (hmarker : marker ≠ []) (hwindow : window.length = marker.length)
    (hincoming : window ++ stream.incoming = before ++ marker ++ rest) :
    ∃ reads next, searchMarker marker window stream = .ok next ∧ stream.Advanced reads next ∧
      next.incoming = rest := by
  have hloop : ∀ (before window : Bytes) (scanned fuel : ℕ) (stream : ByteStream),
      FirstAfter before marker → window.length = marker.length →
      window ++ stream.incoming = before ++ marker ++ rest →
      scanned + before.length ≤ maxPadLength → before.length < fuel →
      ∃ reads next, loop (fun search ↦ ⟨.failure .outOfFuel, search.2.log⟩) (searchRound marker)
          fuel ((window, scanned), stream) = .ok next ∧ stream.Advanced reads next ∧
        next.incoming = rest := by
    intro before
    induction before with
    | nil =>
      intro window scanned fuel stream _ hwindow hincoming _ hfuel
      obtain ⟨fuel, rfl⟩ : ∃ n, fuel = n + 1 := ⟨fuel - 1, by omega⟩
      rw [List.nil_append] at hincoming
      obtain ⟨hfound, hrest⟩ := List.append_inj hincoming hwindow
      refine ⟨[], stream, ?_, ByteStream.Advanced.refl, hrest⟩
      exact loop_break (if_pos hfound)
    | cons byte before ih =>
      intro window scanned fuel stream hfirst hwindow hincoming hscanned hfuel
      obtain ⟨fuel, rfl⟩ : ∃ n, fuel = n + 1 := ⟨fuel - 1, by omega⟩
      rw [List.length_cons] at hscanned hfuel
      -- the window is too early, so it is not the marker
      have hother : window ≠ marker := by
        rintro rfl
        apply hfirst 0 (Nat.succ_pos _)
        have hwhole : window <+: byte :: before ++ window ++ rest := ⟨stream.incoming, hincoming⟩
        apply List.prefix_of_prefix_length_le hwhole
        · exact ⟨rest, rfl⟩
        · rw [List.drop_zero, List.length_append, List.length_cons]
          omega
      obtain ⟨first, window, rfl⟩ : ∃ first window', window = first :: window' := by
        apply List.exists_cons_of_ne_nil
        rintro rfl
        exact hmarker (List.length_eq_zero_iff.mp hwindow.symm)
      rw [List.cons_append, List.cons_append, List.cons_append, List.cons.injEq] at hincoming
      have hlengths := congrArg List.length hincoming.2
      simp only [List.length_append, List.length_cons] at hlengths hwindow
      obtain ⟨next, arrived, hnext⟩ : ∃ next arrived, stream.incoming = next :: arrived := by
        apply List.exists_cons_of_ne_nil
        intro hnil
        rw [hnil, List.length_nil] at hlengths
        omega
      obtain ⟨stream', hread, hadvanced, harrived⟩ :=
        @ByteStream.readExactly_append stream [next] arrived .closed hnext (List.cons_ne_nil _ _)
      have hround : searchRound marker ((first :: window, scanned), stream) =
          .ok (.inl ((window ++ [next], scanned + 1), stream')) := by
        rw [searchRound]
        simp only
        rw [if_neg hother, if_neg (by omega)]
        change (stream.readExactly [next].length .closed >>= _) = _
        rw [hread]
        rfl
      obtain ⟨reads, last, hrun, hreads, hlast⟩ := ih (window ++ [next]) (scanned + 1) fuel stream'
        hfirst.tail (by simpa using hwindow)
        (by rw [harrived, List.append_assoc, ← hincoming.2, hnext]; rfl) (by omega) (by omega)
      refine ⟨[next] :: reads, last, ?_, hadvanced.trans hreads, hlast⟩
      rw [loop_next hround]
      exact hrun
  exact hloop before window 0 (maxPadLength + 2) stream hfirst hwindow hincoming (by omega)
    (by omega)

/-! ## What is sent and what comes back -/

section Messages

variable (digest : Bytes → Bytes)

def sessionCipher (name secret infoHash : Bytes) : Rc4 :=
  mseState (digest (name ++ secret ++ infoHash))

def syncHash (secret : Bytes) : Bytes := digest (req1 ++ secret)

def hiddenInfoHash (infoHash secret : Bytes) : Bytes :=
  xorBytes (digest (req2 ++ infoHash)) (digest (req3 ++ secret))

/-- The encrypted part of the request, and the cipher after it. -/
def hiddenRequest (infoHash initialPayload secret : Bytes) : Bytes × Rc4 :=
  rc4.crypt (sessionCipher digest keyA secret infoHash)
    (requestHeader initialPayload ++ initialPayload)

def request (infoHash initialPayload secret : Bytes) : Bytes :=
  syncHash digest secret ++ hiddenInfoHash digest infoHash secret ++
    (hiddenRequest digest infoHash initialPayload secret).1

/-- The answer to a request, before it is encrypted. -/
def selection (select : ℕ) (pad : Bytes) : Bytes :=
  verificationConstant ++ (toBigEndian 4 select ++ toBigEndian 2 pad.length ++ pad)

variable {digest}

theorem cryptoRequest_eq (hdigest : ∀ data, (digest data).length = 20)
    (infoHash initialPayload secret : Bytes) :
    cryptoRequest digest infoHash initialPayload secret =
      .ok (request digest infoHash initialPayload secret,
        (hiddenRequest digest infoHash initialPayload secret).2,
        sessionCipher digest keyB secret infoHash) := by
  have htwo (name data : Bytes) : sha1 digest [name, data] = .ok (digest (name ++ data)) := by
    rw [sha1_eq hdigest (List.cons_ne_nil _ _)]
    simp
  have hcipher (name : Bytes) : (sha1 digest [name, secret, infoHash] >>= mseCipher) =
      .ok (sessionCipher digest name secret infoHash) := by
    rw [sha1_eq hdigest (List.cons_ne_nil _ _), ok_bind, mseCipher_eq (hdigest _), sessionCipher]
    simp
  unfold cryptoRequest
  rw [hcipher, ok_bind, hcipher, ok_bind, htwo, ok_bind, htwo, ok_bind]
  simp only
  rw [htwo, ok_bind, Rc4.crypt_eq, ok_bind, Rc4.crypt_eq, ok_bind,
    request, hiddenRequest, rc4.crypt_append]
  simp only [List.append_assoc]
  rfl

theorem init_ends {stream last : ByteStream} {encryptor decryptor : Rc4} {select : ℕ}
    {reads : List Bytes} (h : stream.Advanced reads last) :
    Ends (last.call (if select = cryptoRc4 then
        EncryptedStream.init last (some encryptor) (some decryptor)
      else EncryptedStream.init last none none))
      (fun encrypted ↦ ∃ reads : List Bytes, encrypted.inner.log = stream.log ++ reads.map .read)
      (fun interrupted ↦ ∃ reason, ∃ reads : List Bytes,
        interrupted = ⟨.fetch reason, stream.log ++ reads.map .read⟩) := by
  split
  · exact ⟨reads, h.log⟩
  · exact ⟨reads, h.log⟩

/-- Whatever arrives, waiting for the selection writes nothing and fails only with a fetch error. -/
theorem awaitSelection_ends (encryptor decryptor : Rc4) (stream : ByteStream) :
    Ends (awaitSelection encryptor decryptor stream)
      (fun encrypted ↦ ∃ reads : List Bytes, encrypted.inner.log = stream.log ++ reads.map .read)
      (fun interrupted ↦ ∃ reason, ∃ reads : List Bytes,
        interrupted = ⟨.fetch reason, stream.log ++ reads.map .read⟩) := by
  unfold awaitSelection
  rw [ByteStream.call_eq_ok (decryptor.crypt_eq verificationConstant), ok_bind]
  simp only
  have hmarker : 0 < (rc4.crypt decryptor verificationConstant).1.length := by
    rw [rc4.length_crypt]
    decide
  apply Ends.bind ((ByteStream.readExactly_ends .closed hmarker).mono (fun _ h ↦ h) ?_)
  · rintro ⟨window, afterWindow⟩ ⟨-, hwindow⟩
    apply Ends.bind ((searchMarker_ends _ window afterWindow).mono (fun _ h ↦ h) ?_)
    · rintro afterSearch ⟨reads, -, hsearch⟩
      rw [ByteStream.call_eq_ok (decryptor.crypt_eq verificationConstant), ok_bind]
      apply Ends.bind ((ByteStream.readExactly_ends .closed (by decide)).mono (fun _ h ↦ h) ?_)
      · rintro ⟨answer, afterAnswer⟩ ⟨-, hanswer⟩
        have hall := (hwindow.trans hsearch).trans hanswer
        simp only
        rw [ByteStream.call_eq_ok (Rc4.crypt_eq _ _), ok_bind]
        split
        · exact ⟨.encryptionFailed, _, by rw [hall.log]⟩
        · split
          · exact init_ends hall
          · apply Ends.bind (Q := fun drained : Rc4 × ByteStream ↦
              ∃ reads, stream.Advanced reads drained.2)
            · apply Ends.bind ((ByteStream.readExactly_ends .closed (by omega)).mono
                (fun _ h ↦ h) ?_)
              · rintro ⟨pad, afterPad⟩ ⟨-, hpad⟩
                simp only
                rw [ByteStream.call_eq_ok (Rc4.crypt_eq _ _), ok_bind]
                exact ⟨_, hall.trans hpad⟩
              · rintro interrupted ⟨reason, rfl⟩
                exact ⟨reason, _, by rw [hall.log]⟩
            · rintro ⟨drained, afterPad⟩ ⟨reads, hreads⟩
              exact init_ends hreads
      · rintro interrupted ⟨reason, rfl⟩
        exact ⟨reason, _, by rw [(hwindow.trans hsearch).log]⟩
    · rintro interrupted ⟨reason, reads, -, rfl⟩
      exact ⟨reason, [window] ++ reads, by rw [hwindow.log, List.map_append, List.append_assoc]⟩
  · rintro interrupted ⟨reason, rfl⟩
    exact ⟨reason, [], by simp⟩

/-- A valid selection is found behind its pad and read to its end. -/
theorem awaitSelection_finds {encryptor decryptor : Rc4} {select : ℕ} {before pad rest : Bytes}
    {stream : ByteStream} (hselect : select = cryptoPlaintext ∨ select = cryptoRc4)
    (hfirst : FirstAfter before (rc4.crypt decryptor verificationConstant).1)
    (hbefore : before.length ≤ maxPadLength) (hpad : pad.length ≤ maxPadLength)
    (hincoming : stream.incoming =
      before ++ (rc4.crypt decryptor (selection select pad)).1 ++ rest) :
    ∃ encrypted, awaitSelection encryptor decryptor stream = .ok encrypted ∧
      encrypted.inner.incoming = rest ∧
      encrypted.encryptor = (if select = cryptoRc4 then some encryptor else none) ∧
      encrypted.decryptor = if select = cryptoRc4 then
        some (rc4.crypt decryptor (selection select pad)).2 else none := by
  obtain ⟨marker, first, hmarker⟩ : ∃ marker first,
      rc4.crypt decryptor verificationConstant = (marker, first) := ⟨_, _, rfl⟩
  obtain ⟨header, second, hheader⟩ : ∃ header second,
      rc4.crypt first (toBigEndian 4 select ++ toBigEndian 2 pad.length) = (header, second) :=
    ⟨_, _, rfl⟩
  have hall : rc4.crypt decryptor (selection select pad) =
      (marker ++ (header ++ (rc4.crypt second pad).1), (rc4.crypt second pad).2) := by
    rw [selection, rc4.crypt_append, hmarker, rc4.crypt_append, hheader]
  have hmarkerLength : marker.length = 8 := by
    have hlength := rc4.length_crypt decryptor verificationConstant
    rwa [hmarker] at hlength
  have hheaderLength : header.length = 6 := by
    have hlength := rc4.length_crypt first (toBigEndian 4 select ++ toBigEndian 2 pad.length)
    rw [hheader] at hlength
    simpa using hlength
  have hplain : rc4.crypt first header =
      (toBigEndian 4 select ++ toBigEndian 2 pad.length, second) := by
    have hback := rc4.crypt_crypt first (toBigEndian 4 select ++ toBigEndian 2 pad.length)
    rwa [hheader] at hback
  rw [hmarker] at hfirst
  rw [hall]
  rw [hall] at hincoming
  have hpositive : 0 < marker.length := by omega
  have henough : marker.length ≤ stream.incoming.length := by
    rw [hincoming]
    simp only [List.length_append]
    omega
  obtain ⟨afterWindow, hwindow, -, hafterWindow⟩ := ByteStream.readExactly_of_length .closed
    (List.take_append_drop marker.length stream.incoming).symm (List.length_take_of_le henough)
    hpositive
  have hsplit : stream.incoming.take marker.length ++ afterWindow.incoming =
      before ++ marker ++ (header ++ (rc4.crypt second pad).1 ++ rest) := by
    rw [hafterWindow, List.take_append_drop, hincoming]
    simp only [List.append_assoc]
  obtain ⟨-, afterSearch, hsearch, -, hafterSearch⟩ := searchMarker_finds hfirst hbefore
    (List.ne_nil_of_length_pos hpositive) (List.length_take_of_le henough) hsplit
  obtain ⟨afterHeader, hread, -, hafterHeader⟩ := ByteStream.readExactly_of_length .closed
    (hafterSearch.trans (List.append_assoc _ _ _)) hheaderLength (by decide)
  have hselectValue : fromBigEndian ((toBigEndian 4 select ++ toBigEndian 2 pad.length).take 4) =
      select := by
    rw [List.take_left' (length_toBigEndian 4 select), fromBigEndian_toBigEndian]
    rcases hselect with rfl | rfl <;> decide
  have hpadValue : fromBigEndian ((toBigEndian 4 select ++ toBigEndian 2 pad.length).drop 4) =
      pad.length := by
    rw [List.drop_left' (length_toBigEndian 4 select), fromBigEndian_toBigEndian]
    exact lt_of_le_of_lt hpad (by decide)
  have hvalid : ¬(select ≠ cryptoPlaintext ∧ select ≠ cryptoRc4 ∨ maxPadLength < pad.length) := by
    rintro (hbad | hbad)
    · exact hselect.elim hbad.1 hbad.2
    · omega
  obtain ⟨afterPad, hdrained, hafterPad⟩ : ∃ afterPad : ByteStream,
      (if pad.length = 0 then (.ok (second, afterHeader) : Except Interrupted (Rc4 × ByteStream))
        else do
          let (pad, stream) ← afterHeader.readExactly pad.length .closed
          let (_, decryptor) ← stream.call (second.crypt pad)
          return (decryptor, stream)) = .ok ((rc4.crypt second pad).2, afterPad) ∧
      afterPad.incoming = rest := by
    by_cases hempty : pad.length = 0
    · have hnil := List.length_eq_zero_iff.mp hempty
      subst hnil
      exact ⟨afterHeader, rfl, hafterHeader⟩
    · obtain ⟨afterPad, hpadRead, -, hafterPad⟩ := ByteStream.readExactly_of_length .closed
        hafterHeader (rc4.length_crypt second pad) (Nat.pos_of_ne_zero hempty)
      refine ⟨afterPad, ?_, hafterPad⟩
      rw [if_neg hempty, hpadRead, ok_bind]
      simp only
      rw [ByteStream.call_eq_ok (Rc4.crypt_eq _ _), rc4.crypt_crypt]
      rfl
  refine ⟨⟨afterPad, if select = cryptoRc4 then some encryptor else none,
    if select = cryptoRc4 then some (rc4.crypt second pad).2 else none⟩, ?_, hafterPad, rfl, rfl⟩
  unfold awaitSelection
  rw [Rc4.crypt_eq, hmarker, ByteStream.call_eq_ok rfl, ok_bind]
  simp only
  rw [hwindow, ok_bind]
  simp only
  rw [hsearch, ok_bind, ByteStream.call_eq_ok rfl, ok_bind]
  simp only
  rw [hread, ok_bind]
  simp only
  rw [Rc4.crypt_eq, hplain, ByteStream.call_eq_ok rfl, ok_bind]
  simp only
  rw [hselectValue, hpadValue, if_neg hvalid, hdrained, ok_bind]
  by_cases hrc4 : select = cryptoRc4
  · simp only [if_pos hrc4]
    rfl
  · simp only [if_neg hrc4]
    rfl

/-! ## The negotiation -/

variable {infoHash initialPayload : Bytes} {stream : ByteStream}

/-- Behind the key of the other side: the request is sent and the selection awaited. -/
theorem negotiateEncryption_of_public (hdigest : ∀ data, (digest data).length = 20)
    (hvalid : infoHash.length = nodeIdLength ∧ 0 < initialPayload.length ∧
      initialPayload.length ≤ 0xFFFF)
    (privateKey pad : Bytes) {remote rest : Bytes} (h : stream.incoming = remote ++ rest)
    (hlength : remote.length = dhKeyLength) :
    ∃ next : ByteStream, next.incoming = rest ∧
      ByteStream.sent next.log = ByteStream.sent stream.log ++
        (dhPublic (fromBigEndian privateKey) ++ pad) ++
        request digest infoHash initialPayload
          (dhSecret (fromBigEndian remote) (fromBigEndian privateKey)) ∧
      negotiateEncryption digest infoHash initialPayload privateKey pad stream =
        awaitSelection
          (hiddenRequest digest infoHash initialPayload
            (dhSecret (fromBigEndian remote) (fromBigEndian privateKey))).2
          (sessionCipher digest keyB
            (dhSecret (fromBigEndian remote) (fromBigEndian privateKey)) infoHash) next := by
  obtain ⟨afterKey, hread, hadvanced, hafterKey⟩ := @ByteStream.readExactly_of_length
    { stream with log := stream.log ++ [.wrote (dhPublic (fromBigEndian privateKey) ++ pad)] }
    remote rest dhKeyLength .closedOnHandshake h hlength (by decide)
  let secret := dhSecret (fromBigEndian remote) (fromBigEndian privateKey)
  refine ⟨{ afterKey with log := afterKey.log ++
    [.wrote (request digest infoHash initialPayload secret)] }, hafterKey, ?_, ?_⟩
  · rw [ByteStream.sent_wrote, hadvanced.sent, ByteStream.sent_wrote]
  · have hrequest : request digest infoHash initialPayload secret ≠ [] := by
      apply List.ne_nil_of_length_pos
      rw [request, List.append_assoc, List.length_append, syncHash, hdigest]
      exact Nat.add_pos_left (by decide) _
    unfold negotiateEncryption
    rw [assert_true hvalid, ByteStream.call_eq_ok rfl, ok_bind,
      ByteStream.write_eq_ok (dhPublic_ne_nil _ _), ok_bind, hread, ok_bind]
    simp only
    rw [cryptoRequest_eq hdigest, ByteStream.call_eq_ok rfl, ok_bind]
    simp only
    rw [ByteStream.write_eq_ok hrequest, ok_bind]

/-- Before the key of the other side is there, only our own was sent. -/
theorem negotiateEncryption_of_short
    (hvalid : infoHash.length = nodeIdLength ∧ 0 < initialPayload.length ∧
      initialPayload.length ≤ 0xFFFF) (privateKey pad : Bytes)
    (h : stream.incoming.length < dhKeyLength) :
    ∃ reason, negotiateEncryption digest infoHash initialPayload privateKey pad stream =
      .error ⟨.fetch reason,
        stream.log ++ [.wrote (dhPublic (fromBigEndian privateKey) ++ pad)]⟩ := by
  obtain ⟨reason, hread⟩ := @ByteStream.readExactly_of_short
    { stream with log := stream.log ++ [.wrote (dhPublic (fromBigEndian privateKey) ++ pad)] }
    dhKeyLength .closedOnHandshake h
  refine ⟨reason, ?_⟩
  unfold negotiateEncryption
  rw [assert_true hvalid, ByteStream.call_eq_ok rfl, ok_bind,
    ByteStream.write_eq_ok (dhPublic_ne_nil _ _), ok_bind, hread, error_bind]

/-- Whatever arrives, a negotiation ends in a stream or in a fetch error. -/
theorem negotiateEncryption_ends (hdigest : ∀ data, (digest data).length = 20)
    (hvalid : infoHash.length = nodeIdLength ∧ 0 < initialPayload.length ∧
      initialPayload.length ≤ 0xFFFF) (privateKey pad : Bytes) (stream : ByteStream) :
    Ends (negotiateEncryption digest infoHash initialPayload privateKey pad stream)
      (fun _ ↦ True) (fun interrupted ↦ ∃ reason, interrupted.error = .fetch reason) := by
  by_cases hshort : stream.incoming.length < dhKeyLength
  · obtain ⟨reason, hrun⟩ := negotiateEncryption_of_short hvalid privateKey pad hshort
    rw [hrun]
    exact ⟨reason, rfl⟩
  · obtain ⟨next, -, -, hrun⟩ := negotiateEncryption_of_public hdigest hvalid privateKey pad
      (List.take_append_drop dhKeyLength stream.incoming).symm
      (List.length_take_of_le (Nat.not_lt.mp hshort))
    rw [hrun]
    apply (awaitSelection_ends _ _ next).mono
    · exact fun _ _ ↦ trivial
    · rintro interrupted ⟨reason, reads, rfl⟩
      exact ⟨reason, rfl⟩

end Messages

end DhtScraper
