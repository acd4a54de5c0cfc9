import DhtScraper.Codec.Bytes
import DhtScraper.Library.QueryString

/-!
# Bytes in hexadecimal

Every byte is written with two lower-case digits; digits of both cases are read.
-/

namespace DhtScraper

open Library

/-- `bytes.hex()`. -/
def hex (value : Bytes) : Text :=
  value.flatMap fun byte ↦ [Nat.digitChar (byte.toNat / 16), Nat.digitChar (byte.toNat % 16)]

/-- `bytes.fromhex` of a text without blanks. -/
def fromHex : Text → Option Bytes
  | [] => some []
  | high :: low :: rest => do
    let high ← digitValue high
    let low ← digitValue low
    let rest ← fromHex rest
    return UInt8.ofNat (16 * high + low) :: rest
  | [_] => none

theorem hex_cons (byte : UInt8) (rest : Bytes) : hex (byte :: rest) =
    Nat.digitChar (byte.toNat / 16) :: Nat.digitChar (byte.toNat % 16) :: hex rest := rfl

theorem length_hex (value : Bytes) : (hex value).length = value.length * 2 := by
  induction value with
  | nil => rfl
  | cons byte rest ih =>
    rw [hex_cons, List.length_cons, List.length_cons, List.length_cons, ih]
    omega

theorem exists_digit_of_mem_hex {value : Bytes} {c : Char} (h : c ∈ hex value) :
    ∃ n < 16, c = Nat.digitChar n := by
  obtain ⟨byte, -, hc⟩ := List.mem_flatMap.mp h
  have hbyte : byte.toNat < 256 := byte.toNat_lt
  simp only [List.mem_cons, List.not_mem_nil, or_false] at hc
  rcases hc with rfl | rfl
  · exact ⟨_, by omega, rfl⟩
  · exact ⟨_, by omega, rfl⟩

theorem fromHex_hex (value : Bytes) : fromHex (hex value) = some value := by
  induction value with
  | nil => rfl
  | cons byte rest ih =>
    have hbyte : byte.toNat < 256 := byte.toNat_lt
    rw [hex_cons, fromHex, digitValue_digitChar (by omega), digitValue_digitChar (by omega), ih]
    simp only [Option.bind_eq_bind, Option.bind_some, Nat.div_add_mod, UInt8.ofNat_toNat]
    rfl

theorem toLower_of_digitValue {c : Char} {n : ℕ} (h : digitValue c = some n) :
    n < 16 ∧ c.toLower = Nat.digitChar n := by
  have hc : c = Char.ofNat c.toNat := (Char.ofNat_toNat c).symm
  unfold digitValue at h
  split at h
  next hrange =>
    obtain ⟨hlow, hhigh⟩ : 48 ≤ c.toNat ∧ c.toNat ≤ 57 := hrange
    obtain rfl := Option.some.inj h
    rw [hc]
    generalize c.toNat = k at hlow hhigh
    interval_cases k <;> decide
  next =>
    split at h
    next hrange =>
      obtain ⟨hlow, hhigh⟩ : 97 ≤ c.toNat ∧ c.toNat ≤ 102 := hrange
      obtain rfl := Option.some.inj h
      rw [hc]
      generalize c.toNat = k at hlow hhigh
      interval_cases k <;> decide
    next =>
      split at h
      next hrange =>
        obtain ⟨hlow, hhigh⟩ : 65 ≤ c.toNat ∧ c.toNat ≤ 70 := hrange
        obtain rfl := Option.some.inj h
        rw [hc]
        generalize c.toNat = k at hlow hhigh
        interval_cases k <;> decide
      next => cases h

theorem digitValue_toLower (c : Char) : digitValue c.toLower = digitValue c := by
  have hc : c = Char.ofNat c.toNat := (Char.ofNat_toNat c).symm
  by_cases hrange : 65 ≤ c.toNat ∧ c.toNat ≤ 90
  · obtain ⟨hlow, hhigh⟩ := hrange
    rw [hc]
    generalize c.toNat = k at hlow hhigh
    interval_cases k <;> decide
  · have hsame : c.toLower = c := dif_neg hrange
    rw [hsame]

theorem fromHex_toLower (text : Text) : fromHex (text.map Char.toLower) = fromHex text := by
  fun_induction fromHex text with
  | case1 => rfl
  | case2 high low rest ih =>
    simp only [List.map_cons, fromHex, digitValue_toLower, ih]
  | case3 c => rfl

theorem toLower_of_fromHex {text : Text} {value : Bytes} (h : fromHex text = some value) :
    text.map Char.toLower = hex value := by
  induction text using fromHex.induct generalizing value with
  | case1 => exact Option.some.inj h ▸ rfl
  | case2 high low rest ih =>
    obtain ⟨high', hhigh, h⟩ := Option.bind_eq_some_iff.mp h
    obtain ⟨low', hlow, h⟩ := Option.bind_eq_some_iff.mp h
    obtain ⟨bytes, hbytes, h⟩ := Option.bind_eq_some_iff.mp h
    obtain rfl := Option.some.inj h
    obtain ⟨hhigh16, hhighDigit⟩ := toLower_of_digitValue hhigh
    obtain ⟨hlow16, hlowDigit⟩ := toLower_of_digitValue hlow
    have hbyte : (UInt8.ofNat (16 * high' + low')).toNat = 16 * high' + low' :=
      toNat_ofNat_of_lt (by omega)
    rw [hex_cons, hbyte, show (16 * high' + low') / 16 = high' by omega,
      show (16 * high' + low') % 16 = low' by omega, List.map_cons, List.map_cons, hhighDigit,
      hlowDigit, ih hbytes]
  | case3 c => cases h

theorem not_mem_hex {c : Char} (h : digitValue c = none) (value : Bytes) : c ∉ hex value := by
  intro hmem
  obtain ⟨n, hn, rfl⟩ := exists_digit_of_mem_hex hmem
  rw [digitValue_digitChar hn] at h
  cases h

end DhtScraper
