import DhtScraper.Basic

/-!
# Byte strings and failing calls

The built-in operations on byte strings that the codecs use (`isdigit`, `find`, slices, `int`,
`str`, big-endian numbers), and the ways in which a call of the codecs can end other than by
returning.
-/

namespace DhtScraper

/-- How a call ends when it does not return.  `outOfFuel` is not an exception of the source: it is
what a bounded evaluation answers when its bound was too small. -/
inductive Failure where
  | valueError (text : String)
  | assertionError
  | structError
  | osError
  | indexError
  | outOfFuel
  deriving DecidableEq

/-- An `assert` statement. -/
def assert (condition : Prop) [Decidable condition] : Except Failure Unit :=
  if condition then .ok () else .error .assertionError

theorem assert_true {condition : Prop} [Decidable condition] (h : condition) :
    assert condition = .ok () := if_pos h

section Bind

variable {ε α β : Type} {x : Except ε α} {f : α → Except ε β}

@[simp]
theorem ok_bind (a : α) : (Except.ok a >>= f) = f a := rfl

@[simp]
theorem error_bind (e : ε) : (Except.error e >>= f) = .error e := rfl

theorem bind_eq_ok {b : β} : (x >>= f) = .ok b ↔ ∃ a, x = .ok a ∧ f a = .ok b := by
  cases x <;> simp

theorem assert_eq_ok {condition : Prop} [Decidable condition] {u : Unit} :
    assert condition = .ok u ↔ condition := by
  by_cases h : condition <;> simp [assert, h]

end Bind

/-- The bytes of an ASCII text. -/
def ascii (text : List Char) : Bytes := text.map fun c ↦ c.toNat.toUInt8

def isDigit (byte : UInt8) : Bool := 48 ≤ byte && byte ≤ 57

/-- `bytes.isdigit`: at least one byte, all of them ASCII digits. -/
def isdigit (text : Bytes) : Bool := !text.isEmpty && text.all isDigit

/-- `data.find(byte, start)`, with `none` for the answer -1. -/
def find (data : Bytes) (byte : UInt8) (start : ℕ) : Option ℕ :=
  ((data.drop start).findIdx? (· == byte)).map (· + start)

/-- `data[start:stop]`. -/
def slice (data : Bytes) (start stop : ℕ) : Bytes := (data.take stop).drop start

/-- `int(text)` for a text of digits. -/
def digitsValue (text : Bytes) : ℕ :=
  Nat.ofDigitChars 10 (text.map fun byte ↦ Char.ofNat byte.toNat) 0

/-- `str(value).encode("ascii")` for a natural number. -/
def digitsOf (value : ℕ) : Bytes := ascii (Nat.toDigits 10 value)

/-- The bytes of `value` in big-endian order, `count` of them. -/
def toBigEndian (count value : ℕ) : Bytes :=
  match count with
  | 0 => []
  | count + 1 => toBigEndian count (value / 256) ++ [(value % 256).toUInt8]

/-- The number that bytes in big-endian order stand for. -/
def fromBigEndian (data : Bytes) : ℕ := data.foldl (fun n byte ↦ 256 * n + byte.toNat) 0

@[simp]
theorem length_toBigEndian (count value : ℕ) : (toBigEndian count value).length = count := by
  induction count generalizing value with
  | zero => rfl
  | succ count ih => simp [toBigEndian, ih]

theorem fromBigEndian_toBigEndian {count value : ℕ} (h : value < 256 ^ count) :
    fromBigEndian (toBigEndian count value) = value := by
  induction count generalizing value with
  | zero =>
    simp only [pow_zero, Nat.lt_one_iff] at h
    simp [h, toBigEndian, fromBigEndian]
  | succ count ih =>
    have hdiv : value / 256 < 256 ^ count := by
      apply Nat.div_lt_of_lt_mul
      rwa [pow_succ, mul_comm] at h
    have hlow : (value % 256).toUInt8.toNat = value % 256 := by
      rw [UInt8.toNat_ofNat']
      omega
    calc fromBigEndian (toBigEndian (count + 1) value)
        = 256 * fromBigEndian (toBigEndian count (value / 256)) + value % 256 := by
          simp only [toBigEndian, fromBigEndian, List.foldl_append, List.foldl_cons, List.foldl_nil,
            hlow]
      _ = value := by
          rw [ih hdiv]
          exact Nat.div_add_mod value 256

theorem fromBigEndian_lt (data : Bytes) : fromBigEndian data < 256 ^ data.length := by
  induction data using List.reverseRecOn with
  | nil => decide
  | append_singleton data byte ih =>
    have hbyte : byte.toNat < 256 := byte.toNat_lt
    simp only [fromBigEndian, List.foldl_append, List.foldl_cons, List.foldl_nil,
      List.length_append, List.length_singleton, pow_succ] at ih ⊢
    omega

theorem toBigEndian_fromBigEndian (data : Bytes) :
    toBigEndian data.length (fromBigEndian data) = data := by
  induction data using List.reverseRecOn with
  | nil => rfl
  | append_singleton data byte ih =>
    have hbyte : byte.toNat < 256 := byte.toNat_lt
    have hvalue : fromBigEndian (data ++ [byte]) = 256 * fromBigEndian data + byte.toNat := by
      simp only [fromBigEndian, List.foldl_append, List.foldl_cons, List.foldl_nil]
    have hdiv : (256 * fromBigEndian data + byte.toNat) / 256 = fromBigEndian data := by omega
    have hmod : (256 * fromBigEndian data + byte.toNat) % 256 = byte.toNat := by omega
    have hlow : byte.toNat.toUInt8 = byte := by simp
    rw [List.length_append, List.length_singleton, hvalue, toBigEndian, hdiv, hmod, ih, hlow]

/-- Bytes of one length are known by the number they stand for. -/
theorem fromBigEndian_inj {data data' : Bytes} (hlength : data.length = data'.length)
    (h : fromBigEndian data = fromBigEndian data') : data = data' := by
  rw [← toBigEndian_fromBigEndian data, ← toBigEndian_fromBigEndian data', hlength, h]

section Slices

variable {data : Bytes} {start stop : ℕ}

theorem length_slice (h : stop ≤ data.length) : (slice data start stop).length = stop - start := by
  simp [slice, Nat.min_eq_left h]

theorem slice_append_drop (hle : start ≤ stop) :
    slice data start stop ++ data.drop stop = data.drop start := by
  have hsplit : data.drop start = (data.drop start).take (stop - start) ++
      (data.drop start).drop (stop - start) := (List.take_append_drop _ _).symm
  rw [hsplit, List.drop_drop, Nat.add_sub_cancel' hle, slice, List.drop_take]

/-- What lies between an index and the place where a known rest begins. -/
theorem slice_of_drop {text rest : Bytes} (h : data.drop start = text ++ rest) :
    slice data start (start + text.length) = text := by
  rw [slice, List.drop_take, h, Nat.add_sub_cancel_left]
  exact List.take_left

theorem drop_of_drop {text rest : Bytes} (h : data.drop start = text ++ rest) :
    data.drop (start + text.length) = rest := by
  rw [← List.drop_drop, h]
  exact List.drop_left

theorem getElem?_of_drop {byte : UInt8} {rest : Bytes} (h : data.drop start = byte :: rest) :
    data[start]? = some byte := by
  have hhead : (data.drop start)[0]? = some byte := by rw [h]; rfl
  rwa [List.getElem?_drop, Nat.add_zero] at hhead

theorem drop_of_getElem? {byte : UInt8} (h : data[start]? = some byte) :
    data.drop start = byte :: data.drop (start + 1) := by
  obtain ⟨hlt, hget⟩ := List.getElem?_eq_some_iff.mp h
  rw [List.drop_eq_getElem_cons hlt, hget]

end Slices

section Find

variable {data text rest : Bytes} {byte : UInt8} {start stop : ℕ}

/-- `find` answers the first place of the byte. -/
theorem find_of_drop (h : data.drop start = text ++ byte :: rest) (hfirst : byte ∉ text) :
    find data byte start = some (start + text.length) := by
  have htext : text.findIdx? (· == byte) = none := by
    rw [List.findIdx?_eq_none_iff]
    intro b hb
    have hne : b ≠ byte := fun heq ↦ hfirst (heq ▸ hb)
    simpa using hne
  simp [find, h, List.findIdx?_append, htext, List.findIdx?_cons, Nat.add_comm]

theorem drop_of_find (h : find data byte start = some stop) :
    ∃ text rest, data.drop start = text ++ byte :: rest ∧ byte ∉ text ∧
      stop = start + text.length := by
  obtain ⟨i, hi, rfl⟩ := Option.map_eq_some_iff.mp h
  obtain ⟨hlt, hbyte, hfirst⟩ := List.findIdx?_eq_some_iff_getElem.mp hi
  refine ⟨(data.drop start).take i, (data.drop start).drop (i + 1), ?_, ?_, ?_⟩
  · have hget : (data.drop start)[i] = byte := by simpa using hbyte
    rw [← hget, ← List.drop_eq_getElem_cons hlt, List.take_append_drop]
  · intro hmem
    obtain ⟨j, hj, hjbyte⟩ := List.mem_take_iff_getElem.mp hmem
    exact hfirst j (by omega) (by simpa using hjbyte)
  · rw [List.length_take, Nat.min_eq_left hlt.le, Nat.add_comm]

end Find

section Decimal

theorem isDigit_of_char {c : Char} (h : c.isDigit) :
    isDigit c.toNat.toUInt8 ∧ Char.ofNat c.toNat.toUInt8.toNat = c := by
  have hrange : 48 ≤ c.toNat ∧ c.toNat ≤ 57 := by
    rw [Char.isDigit, Bool.and_eq_true, decide_eq_true_iff, decide_eq_true_iff] at h
    exact ⟨UInt32.le_iff_toNat_le.mp h.1, UInt32.le_iff_toNat_le.mp h.2⟩
  have hbyte : c.toNat.toUInt8.toNat = c.toNat := by
    rw [UInt8.toNat_ofNat']
    omega
  constructor
  · rw [isDigit, Bool.and_eq_true, decide_eq_true_iff, decide_eq_true_iff, UInt8.le_iff_toNat_le,
      UInt8.le_iff_toNat_le, hbyte]
    exact hrange
  · rw [hbyte, Char.ofNat_toNat]

theorem isDigit_of_mem_digitsOf {value : ℕ} {byte : UInt8} (h : byte ∈ digitsOf value) :
    isDigit byte := by
  obtain ⟨c, hc, rfl⟩ := List.mem_map.mp h
  exact (isDigit_of_char (Nat.isDigit_of_mem_toDigits (by decide) (by decide) hc)).1

/-- `int(str(value)) = value`. -/
theorem digitsValue_digitsOf (value : ℕ) : digitsValue (digitsOf value) = value := by
  have hchars : (digitsOf value).map (fun byte ↦ Char.ofNat byte.toNat) = Nat.toDigits 10 value := by
    rw [digitsOf, ascii, List.map_map]
    conv_rhs => rw [← List.map_id (Nat.toDigits 10 value)]
    apply List.map_congr_left
    intro c hc
    exact (isDigit_of_char (Nat.isDigit_of_mem_toDigits (by decide) (by decide) hc)).2
  rw [digitsValue, hchars, Nat.ofDigitChars_ten_toDigits]

theorem digitsOf_ne_nil (value : ℕ) : digitsOf value ≠ [] := by
  simp [digitsOf, ascii]

theorem isdigit_digitsOf (value : ℕ) : isdigit (digitsOf value) := by
  simp only [isdigit, Bool.and_eq_true, Bool.not_eq_true', List.isEmpty_eq_false_iff, List.all_eq_true]
  exact ⟨digitsOf_ne_nil value, fun _ h ↦ isDigit_of_mem_digitsOf h⟩

/-- The decimal digits of a positive number start with a digit other than 0. -/
theorem digitsOf_cons {value : ℕ} (h : 0 < value) :
    ∃ first rest, digitsOf value = first :: rest ∧ first ≠ 48 := by
  induction value using Nat.strongRecOn with
  | ind value ih =>
    by_cases hlt : value < 10
    · refine ⟨(Nat.digitChar value).toNat.toUInt8, [], ?_, ?_⟩
      · simp [digitsOf, ascii, Nat.toDigits_of_lt_base hlt]
      · interval_cases value <;> decide
    · obtain ⟨first, rest, hdigits, hne⟩ := ih (value / 10) (by omega) (by omega)
      refine ⟨first, rest ++ [(Nat.digitChar (value % 10)).toNat.toUInt8], ?_, hne⟩
      rw [digitsOf, Nat.toDigits_of_base_le (by decide) (by omega), ascii, List.map_append]
      rw [digitsOf, ascii] at hdigits
      rw [hdigits]
      rfl

end Decimal

end DhtScraper
