import Mathlib.Tactic

/-!
# UTF-8 with replacement

Decoding of arbitrary bytes, one byte after the other: every maximal part of a broken sequence becomes
one replacement character.  What was encoded is decoded to itself.
-/

namespace DhtScraper.Library

/-- The character in place of what is not UTF-8. -/
def replacementCharacter : Char := Char.ofNat 0xFFFD

/-- A sequence that is not finished: how many bytes it still needs, the range of the next one, and
the bits read so far. -/
structure Utf8Sequence where
  needed : ℕ
  low : ℕ := 0x80
  high : ℕ := 0xBF
  bits : ℕ
  deriving DecidableEq

/-- What the first byte of a sequence says; `none` for a byte that starts no sequence. -/
def leadByte (byte : ℕ) : Option Utf8Sequence :=
  if byte ≤ 0x7F then some { needed := 0, bits := byte }
  else if 0xC2 ≤ byte ∧ byte ≤ 0xDF then some { needed := 1, bits := byte - 0xC0 }
  else if 0xE0 ≤ byte ∧ byte ≤ 0xEF then
    some {
      needed := 2
      low := if byte = 0xE0 then 0xA0 else 0x80
      high := if byte = 0xED then 0x9F else 0xBF
      bits := byte - 0xE0 }
  else if 0xF0 ≤ byte ∧ byte ≤ 0xF4 then
    some {
      needed := 3
      low := if byte = 0xF0 then 0x90 else 0x80
      high := if byte = 0xF4 then 0x8F else 0xBF
      bits := byte - 0xF0 }
  else none

/-- A sequence goes on, or its character is complete. -/
def Utf8Sequence.settle (s : Utf8Sequence) : List Char × Option Utf8Sequence :=
  if s.needed = 0 then ([Char.ofNat s.bits], none) else ([], some s)

/-- A byte between two sequences. -/
def startSequence (byte : ℕ) : List Char × Option Utf8Sequence :=
  match leadByte byte with
  | none => ([replacementCharacter], none)
  | some s => s.settle

/-- The characters that a byte completes, and the sequence it leaves unfinished. -/
def utf8Step : Option Utf8Sequence → ℕ → List Char × Option Utf8Sequence
  | none, byte => startSequence byte
  | some s, byte =>
    if s.low ≤ byte ∧ byte ≤ s.high then
      Utf8Sequence.settle { needed := s.needed - 1, bits := s.bits * 64 + (byte - 0x80) }
    else
      let (text, next) := startSequence byte
      (replacementCharacter :: text, next)

def decodeUtf8From : Option Utf8Sequence → List UInt8 → List Char
  | none, [] => []
  | some _, [] => [replacementCharacter]
  | pending, byte :: rest =>
    let (text, next) := utf8Step pending byte.toNat
    text ++ decodeUtf8From next rest

/-- Decoding that never fails. -/
def decodeUtf8 (value : List UInt8) : List Char := decodeUtf8From none value

/-! ## Encoded text -/

def encodeUtf8 (text : List Char) : List UInt8 := text.flatMap String.utf8EncodeChar

theorem decodeUtf8From_cons {pending next : Option Utf8Sequence} {byte : UInt8} {n : ℕ}
    {text : List Char}
    (hbyte : byte.toNat = n) (h : utf8Step pending n = (text, next)) (rest : List UInt8) :
    decodeUtf8From pending (byte :: rest) = text ++ decodeUtf8From next rest := by
  subst hbyte
  cases pending <;> simp only [decodeUtf8From, h]

theorem toNat_ofNat_of_lt {n : ℕ} (h : n < 256) : (UInt8.ofNat n).toNat = n := by
  simp [Nat.mod_eq_of_lt h]

/-- A byte that begins a sequence. -/
theorem utf8Step_lead {byte : ℕ} {s : Utf8Sequence} (h : leadByte byte = some s)
    (hneeded : s.needed ≠ 0) :
    utf8Step none byte = ([], some s) := by
  simp only [utf8Step, startSequence, h, Utf8Sequence.settle, if_neg hneeded]

/-- A byte that goes on with a sequence which needs more. -/
theorem utf8Step_middle {s : Utf8Sequence} {byte : ℕ} (hlow : s.low ≤ byte) (hhigh : byte ≤ s.high)
    (hneeded : 1 < s.needed) : utf8Step (some s) byte =
      ([], some { needed := s.needed - 1, bits := s.bits * 64 + (byte - 0x80) }) := by
  simp only [utf8Step, if_pos (And.intro hlow hhigh), Utf8Sequence.settle]
  rw [if_neg (by omega)]

/-- The last byte of a sequence. -/
theorem utf8Step_last {s : Utf8Sequence} {byte : ℕ} (hlow : s.low ≤ byte) (hhigh : byte ≤ s.high)
    (hneeded : s.needed = 1) : utf8Step (some s) byte =
      ([Char.ofNat (s.bits * 64 + (byte - 0x80))], none) := by
  simp only [utf8Step, if_pos (And.intro hlow hhigh), Utf8Sequence.settle, hneeded]
  rfl

theorem leadByte_two {byte : ℕ} (hlow : 0xC2 ≤ byte) (hhigh : byte ≤ 0xDF) :
    leadByte byte = some { needed := 1, bits := byte - 0xC0 } := by
  rw [leadByte, if_neg (by omega), if_pos ⟨hlow, hhigh⟩]

theorem leadByte_three {byte : ℕ} (hlow : 0xE0 ≤ byte) (hhigh : byte ≤ 0xEF) :
    leadByte byte = some {
      needed := 2
      low := if byte = 0xE0 then 0xA0 else 0x80
      high := if byte = 0xED then 0x9F else 0xBF
      bits := byte - 0xE0 } := by
  rw [leadByte, if_neg (by omega), if_neg (by omega), if_pos ⟨hlow, hhigh⟩]

theorem leadByte_four {byte : ℕ} (hlow : 0xF0 ≤ byte) (hhigh : byte ≤ 0xF4) :
    leadByte byte = some {
      needed := 3
      low := if byte = 0xF0 then 0x90 else 0x80
      high := if byte = 0xF4 then 0x8F else 0xBF
      bits := byte - 0xF0 } := by
  rw [leadByte, if_neg (by omega), if_neg (by omega), if_neg (by omega), if_pos ⟨hlow, hhigh⟩]

section Characters

variable {v : ℕ} (rest : List UInt8)

theorem decodeUtf8From_one (h : v ≤ 0x7F) :
    decodeUtf8From none (UInt8.ofNat v :: rest) = Char.ofNat v :: decodeUtf8From none rest := by
  have hstep : utf8Step none v = ([Char.ofNat v], none) := by
    simp only [utf8Step, startSequence, leadByte, if_pos h, Utf8Sequence.settle, if_true]
  exact decodeUtf8From_cons (toNat_ofNat_of_lt (by omega)) hstep rest

theorem decodeUtf8From_two (hlow : 0x7F < v) (hhigh : v ≤ 0x7FF) :
    decodeUtf8From none (UInt8.ofNat (v / 64 % 0x20 + 0xC0) :: UInt8.ofNat (v % 0x40 + 0x80) :: rest) =
      Char.ofNat v :: decodeUtf8From none rest := by
  have hvalue : (v / 64 % 0x20 + 0xC0 - 0xC0) * 64 + (v % 0x40 + 0x80 - 0x80) = v := by omega
  calc decodeUtf8From none
        (UInt8.ofNat (v / 64 % 0x20 + 0xC0) :: UInt8.ofNat (v % 0x40 + 0x80) :: rest)
      = [] ++ decodeUtf8From (some { needed := 1, bits := v / 64 % 0x20 + 0xC0 - 0xC0 })
          (UInt8.ofNat (v % 0x40 + 0x80) :: rest) :=
        decodeUtf8From_cons (toNat_ofNat_of_lt (by omega))
          (utf8Step_lead (leadByte_two (by omega) (by omega)) one_ne_zero) _
    _ = [] ++ ([Char.ofNat ((v / 64 % 0x20 + 0xC0 - 0xC0) * 64 + (v % 0x40 + 0x80 - 0x80))] ++
          decodeUtf8From none rest) := by
        rw [decodeUtf8From_cons (toNat_ofNat_of_lt (by omega))
          (utf8Step_last (by simp) (by dsimp only; omega) rfl)]
    _ = Char.ofNat v :: decodeUtf8From none rest := by
        rw [hvalue, List.nil_append, List.singleton_append]

theorem decodeUtf8From_three (hlow : 0x7FF < v) (hhigh : v ≤ 0xFFFF)
    (hvalid : v < 0xD800 ∨ 0xDFFF < v) :
    decodeUtf8From none (UInt8.ofNat (v / 4096 % 0x10 + 0xE0) ::
        UInt8.ofNat (v / 64 % 0x40 + 0x80) :: UInt8.ofNat (v % 0x40 + 0x80) :: rest) =
      Char.ofNat v :: decodeUtf8From none rest := by
  have hvalue : ((v / 4096 % 0x10 + 0xE0 - 0xE0) * 64 + (v / 64 % 0x40 + 0x80 - 0x80)) * 64 +
      (v % 0x40 + 0x80 - 0x80) = v := by omega
  -- no overlong sequence, and no surrogate
  have hfrom : (if v / 4096 % 0x10 + 0xE0 = 0xE0 then 0xA0 else 0x80) ≤ v / 64 % 0x40 + 0x80 := by
    split <;> omega
  have hto : v / 64 % 0x40 + 0x80 ≤ if v / 4096 % 0x10 + 0xE0 = 0xED then 0x9F else 0xBF := by
    split <;> omega
  rw [decodeUtf8From_cons (toNat_ofNat_of_lt (by omega))
      (utf8Step_lead (leadByte_three (by omega) (by omega)) two_ne_zero),
    decodeUtf8From_cons (toNat_ofNat_of_lt (by omega))
      (utf8Step_middle hfrom hto one_lt_two),
    decodeUtf8From_cons (toNat_ofNat_of_lt (by omega))
      (utf8Step_last (by simp) (by dsimp only; omega) rfl), hvalue]
  rfl

theorem decodeUtf8From_four (hlow : 0xFFFF < v) (hhigh : v < 0x110000) :
    decodeUtf8From none (UInt8.ofNat (v / 262144 % 0x08 + 0xF0) ::
        UInt8.ofNat (v / 4096 % 0x40 + 0x80) :: UInt8.ofNat (v / 64 % 0x40 + 0x80) ::
          UInt8.ofNat (v % 0x40 + 0x80) :: rest) =
      Char.ofNat v :: decodeUtf8From none rest := by
  have hvalue : (((v / 262144 % 0x08 + 0xF0 - 0xF0) * 64 + (v / 4096 % 0x40 + 0x80 - 0x80)) * 64 +
      (v / 64 % 0x40 + 0x80 - 0x80)) * 64 + (v % 0x40 + 0x80 - 0x80) = v := by omega
  have hfrom : (if v / 262144 % 0x08 + 0xF0 = 0xF0 then 0x90 else 0x80) ≤ v / 4096 % 0x40 + 0x80 := by
    split <;> omega
  have hto : v / 4096 % 0x40 + 0x80 ≤ if v / 262144 % 0x08 + 0xF0 = 0xF4 then 0x8F else 0xBF := by
    split <;> omega
  rw [decodeUtf8From_cons (toNat_ofNat_of_lt (by omega))
      (utf8Step_lead (leadByte_four (by omega) (by omega)) three_ne_zero),
    decodeUtf8From_cons (toNat_ofNat_of_lt (by omega))
      (utf8Step_middle hfrom hto (by simp)),
    decodeUtf8From_cons (toNat_ofNat_of_lt (by omega))
      (utf8Step_middle (by simp) (by dsimp only; omega) (by simp)),
    decodeUtf8From_cons (toNat_ofNat_of_lt (by omega))
      (utf8Step_last (by simp) (by dsimp only; omega) rfl), hvalue]
  rfl

end Characters

/-- The bytes of a character are decoded to it. -/
theorem decodeUtf8From_char (c : Char) (rest : List UInt8) :
    decodeUtf8From none (String.utf8EncodeChar c ++ rest) = c :: decodeUtf8From none rest := by
  have hvalid : c.toNat < 0xD800 ∨ 0xDFFF < c.toNat ∧ c.toNat < 0x110000 := c.valid
  have hchar : Char.ofNat c.toNat = c := Char.ofNat_toNat c
  by_cases hone : c.toNat ≤ 0x7F
  · have hbytes : String.utf8EncodeChar c = [UInt8.ofNat c.toNat] := if_pos hone
    rw [hbytes, List.singleton_append, decodeUtf8From_one rest hone, hchar]
  · by_cases htwo : c.toNat ≤ 0x7FF
    · have hbytes : String.utf8EncodeChar c = [UInt8.ofNat (c.toNat / 64 % 0x20 + 0xC0),
          UInt8.ofNat (c.toNat % 0x40 + 0x80)] := (if_neg hone).trans (if_pos htwo)
      rw [hbytes]
      exact (decodeUtf8From_two rest (by omega) htwo).trans (by rw [hchar])
    · by_cases hthree : c.toNat ≤ 0xFFFF
      · have hbytes : String.utf8EncodeChar c = [UInt8.ofNat (c.toNat / 4096 % 0x10 + 0xE0),
            UInt8.ofNat (c.toNat / 64 % 0x40 + 0x80), UInt8.ofNat (c.toNat % 0x40 + 0x80)] :=
          (if_neg hone).trans ((if_neg htwo).trans (if_pos hthree))
        rw [hbytes]
        exact (decodeUtf8From_three rest (by omega) hthree (by omega)).trans (by rw [hchar])
      · have hbytes : String.utf8EncodeChar c = [UInt8.ofNat (c.toNat / 262144 % 0x08 + 0xF0),
            UInt8.ofNat (c.toNat / 4096 % 0x40 + 0x80), UInt8.ofNat (c.toNat / 64 % 0x40 + 0x80),
            UInt8.ofNat (c.toNat % 0x40 + 0x80)] :=
          (if_neg hone).trans ((if_neg htwo).trans (if_neg hthree))
        rw [hbytes]
        exact (decodeUtf8From_four rest (by omega) (by omega)).trans (by rw [hchar])

theorem decodeUtf8_encodeUtf8 (text : List Char) : decodeUtf8 (encodeUtf8 text) = text := by
  induction text with
  | nil => rfl
  | cons c rest ih =>
    rw [encodeUtf8, List.flatMap_cons, decodeUtf8, decodeUtf8From_char]
    exact congrArg (c :: ·) ih

end DhtScraper.Library
