import DhtScraper.Library.Utf8

/-!
# Query strings

Percent-encoding of texts over UTF-8, and the fields of a query string.  What was written into a field
is read back, whatever characters it has.
-/

namespace DhtScraper.Library

/-! ## Hexadecimal digits -/

def digitValue (c : Char) : Option ℕ :=
  if '0' ≤ c ∧ c ≤ '9' then some (c.toNat - 48)
  else if 'a' ≤ c ∧ c ≤ 'f' then some (c.toNat - 87)
  else if 'A' ≤ c ∧ c ≤ 'F' then some (c.toNat - 55)
  else none

def upperDigit (n : ℕ) : Char := (Nat.digitChar n).toUpper

theorem digitValue_digitChar {n : ℕ} (h : n < 16) : digitValue (Nat.digitChar n) = some n := by
  interval_cases n <;> decide

theorem digitValue_upperDigit {n : ℕ} (h : n < 16) : digitValue (upperDigit n) = some n := by
  interval_cases n <;> decide

/-! ## Percent-encoding -/

/-- The characters that stand for themselves. -/
def unreserved (c : Char) : Bool := c.isAlphanum || c = '_' || c = '.' || c = '-' || c = '~'

def quoteByte (byte : UInt8) : List Char :=
  if unreserved (Char.ofNat byte.toNat) then [Char.ofNat byte.toNat]
  else ['%', upperDigit (byte.toNat / 16), upperDigit (byte.toNat % 16)]

/-- Every byte of the encoded text stands for itself or is written with two digits. -/
def quote (text : List Char) : List Char := (encodeUtf8 text).flatMap quoteByte

/-- The bytes of a text in which `%` and two digits stand for a byte; elsewhere a `%` stands for
itself. -/
def unquoteBytes : List Char → List UInt8
  | '%' :: high :: low :: rest =>
    match digitValue high, digitValue low with
    | some high', some low' => UInt8.ofNat (16 * high' + low') :: unquoteBytes rest
    | _, _ => String.utf8EncodeChar '%' ++ unquoteBytes (high :: low :: rest)
  | c :: rest => String.utf8EncodeChar c ++ unquoteBytes rest
  | [] => []

def unquote (text : List Char) : List Char := decodeUtf8 (unquoteBytes text)

theorem utf8EncodeChar_ofNat {n : ℕ} (h : n < 128) :
    String.utf8EncodeChar (Char.ofNat n) = [UInt8.ofNat n] := by
  interval_cases n <;> rfl

theorem unquoteBytes_cons_ne {c : Char} (h : c ≠ '%') (rest : List Char) :
    unquoteBytes (c :: rest) = String.utf8EncodeChar c ++ unquoteBytes rest := by
  rw [unquoteBytes]
  intro _ _ _ heq
  exact absurd heq h

theorem unreserved_ofNat {n : ℕ} (hbyte : n < 256) (h : unreserved (Char.ofNat n) = true) :
    n < 128 ∧ Char.ofNat n ≠ '%' := by
  interval_cases n <;> first | exact ⟨by omega, by decide⟩ | exact absurd h (by decide)

theorem unquoteBytes_quoteByte (byte : UInt8) (rest : List Char) :
    unquoteBytes (quoteByte byte ++ rest) = byte :: unquoteBytes rest := by
  have hbyte : byte.toNat < 256 := byte.toNat_lt
  unfold quoteByte
  split
  next hsafe =>
    obtain ⟨hlow, hne⟩ := unreserved_ofNat hbyte hsafe
    rw [List.singleton_append, unquoteBytes_cons_ne hne, utf8EncodeChar_ofNat hlow, UInt8.ofNat_toNat,
      List.singleton_append]
  next =>
    have hhigh := digitValue_upperDigit (show byte.toNat / 16 < 16 by omega)
    have hlow := digitValue_upperDigit (show byte.toNat % 16 < 16 by omega)
    simp only [List.cons_append, List.nil_append]
    rw [unquoteBytes]
    simp only [hhigh, hlow]
    rw [Nat.div_add_mod, UInt8.ofNat_toNat]

theorem unquoteBytes_quote (bytes : List UInt8) : unquoteBytes (bytes.flatMap quoteByte) = bytes := by
  induction bytes with
  | nil => rfl
  | cons byte rest ih => rw [List.flatMap_cons, unquoteBytes_quoteByte, ih]

theorem unquote_quote (text : List Char) : unquote (quote text) = text := by
  rw [unquote, quote, unquoteBytes_quote, decodeUtf8_encodeUtf8]

/-- The characters of a percent-encoded text. -/
theorem of_mem_quote {text : List Char} {c : Char} (h : c ∈ quote text) : c = '%' ∨ unreserved c := by
  have hdigit (n : ℕ) (hn : n < 16) : unreserved (upperDigit n) = true := by
    interval_cases n <;> decide
  obtain ⟨byte, -, hc⟩ := List.mem_flatMap.mp h
  have hbyte : byte.toNat < 256 := byte.toNat_lt
  unfold quoteByte at hc
  split at hc
  next hsafe => exact .inr (List.mem_singleton.mp hc ▸ hsafe)
  next =>
    simp only [List.mem_cons, List.not_mem_nil, or_false] at hc
    rcases hc with rfl | rfl | rfl
    · exact .inl rfl
    · exact .inr (hdigit _ (by omega))
    · exact .inr (hdigit _ (by omega))

theorem not_mem_quote {c : Char} (hne : c ≠ '%') (h : unreserved c = false) (text : List Char) :
    c ∉ quote text := by
  intro hmem
  rcases of_mem_quote hmem with heq | hsafe
  · exact hne heq
  · rw [h] at hsafe
    cases hsafe

/-! ## Fields -/

/-- A plus sign is a blank. -/
def unquotePlus (text : List Char) : List Char := unquote (text.map fun c ↦ if c = '+' then ' ' else c)

/-- Key and value, at the first equals sign. -/
def readField (field : List Char) : List Char × List Char :=
  (unquotePlus (field.takeWhile (· ≠ '=')), unquotePlus ((field.dropWhile (· ≠ '=')).drop 1))

/-- The fields between the ampersands; empty ones are left out. -/
def readFields (query : List Char) : List (List Char × List Char) :=
  ((query.splitOn '&').filter (· ≠ [])).map readField

theorem unquotePlus_quote (text : List Char) : unquotePlus (quote text) = text := by
  have hsame : (quote text).map (fun c ↦ if c = '+' then ' ' else c) = quote text := by
    rw [List.map_congr_left (g := id), List.map_id]
    intro c hc
    have hplus : c ≠ '+' := fun heq ↦ not_mem_quote (by decide) (by decide) text (heq ▸ hc)
    exact if_neg hplus
  rw [unquotePlus, hsame, unquote_quote]

/-- What has no character with a meaning of its own is read as it is. -/
theorem unquotePlus_plain {text : List Char} (h : ∀ c ∈ text, c ≠ '%' ∧ c ≠ '+') :
    unquotePlus text = text := by
  have hsame : text.map (fun c ↦ if c = '+' then ' ' else c) = text := by
    rw [List.map_congr_left (g := id), List.map_id]
    exact fun c hc ↦ if_neg (h c hc).2
  have hbytes : ∀ rest : List Char, (∀ c ∈ rest, c ≠ '%') → unquoteBytes rest = encodeUtf8 rest := by
    intro rest hrest
    induction rest with
    | nil => rfl
    | cons c rest ih =>
      rw [unquoteBytes_cons_ne (hrest c List.mem_cons_self),
        ih fun d hd ↦ hrest d (List.mem_cons_of_mem c hd)]
      rfl
  rw [unquotePlus, hsame, unquote, hbytes text fun c hc ↦ (h c hc).1, decodeUtf8_encodeUtf8]

theorem readField_equals {key : List Char} (hkey : '=' ∉ key) (value : List Char) :
    readField (key ++ '=' :: value) = (unquotePlus key, unquotePlus value) := by
  have hequals : ∀ c ∈ key, decide (c ≠ '=') = true := fun c hc ↦ by
    rw [decide_eq_true_eq]
    exact fun heq ↦ hkey (heq ▸ hc)
  unfold readField
  rw [List.takeWhile_append_of_pos hequals, List.dropWhile_append_of_pos hequals]
  simp

/-- The texts between the ampersands are read one by one. -/
theorem readFields_intercalate {texts : List (List Char)} (hempty : [] ∉ texts)
    (hamp : ∀ text ∈ texts, '&' ∉ text) :
    readFields (['&'].intercalate texts) = texts.map readField := by
  cases htexts : texts with
  | nil => rfl
  | cons first rest =>
    rw [← htexts]
    have hfilter : texts.filter (· ≠ []) = texts := by
      refine List.filter_eq_self.mpr fun text htext ↦ ?_
      rw [decide_eq_true_eq]
      exact fun heq ↦ hempty (heq ▸ htext)
    rw [readFields, List.splitOn_intercalate '&' hamp (htexts ▸ List.cons_ne_nil _ _), hfilter]

end DhtScraper.Library
