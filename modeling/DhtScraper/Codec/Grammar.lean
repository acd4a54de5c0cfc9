import DhtScraper.Codec.Bencode

/-!
# The language that the decoder accepts

`Sentence text value` is the grammar of bencode, written without reference to the decoder.  The
decoder is sound for it (what it returns is the value of the text it consumed), complete (it reads
every sentence, whatever follows), and fails on everything else with a `ValueError`.  Unambiguity
and prefix freeness of the grammar then follow from the decoder being a function.
-/

namespace DhtScraper

open BencodeValue

/-- The text of an integer between `i` and `e`. -/
inductive IntText : Bytes → ℤ → Prop where
  | zero : IntText [48] 0
  | positive {first : UInt8} {rest : Bytes} (hfirst : isDigit first ∧ first ≠ 48)
      (hrest : ∀ byte ∈ rest, isDigit byte) : IntText (first :: rest) (digitsValue (first :: rest))
  | negative {first : UInt8} {rest : Bytes} (hfirst : isDigit first ∧ first ≠ 48)
      (hrest : ∀ byte ∈ rest, isDigit byte) :
      IntText (45 :: first :: rest) (-digitsValue (first :: rest))

/-- The text of a byte string: a decimal length, a colon, that many bytes. -/
inductive StringText : Bytes → Bytes → Prop where
  | intro {lengthText value : Bytes} (hdigits : isdigit lengthText)
      (hlength : value.length = digitsValue lengthText) :
      StringText (lengthText ++ 58 :: value) value

/-- One item of a dictionary: the text and value of its key, then those of its value. -/
abbrev EntryText := (Bytes × Bytes) × (Bytes × BencodeValue)

def EntryText.text (entry : EntryText) : Bytes := entry.1.1 ++ entry.2.1

def EntryText.item (entry : EntryText) : Bytes × BencodeValue := (entry.1.2, entry.2.2)

/-- `Sentence text value`: the grammar of bencode with the value of each sentence. -/
inductive Sentence : Bytes → BencodeValue → Prop where
  | int {text : Bytes} {value : ℤ} (h : IntText text value) :
      Sentence (105 :: text ++ [101]) (.int value)
  | bytes {text value : Bytes} (h : StringText text value) : Sentence text (.bytes value)
  | list {items : List (Bytes × BencodeValue)} (h : ∀ item ∈ items, Sentence item.1 item.2) :
      Sentence (108 :: (items.map Prod.fst).flatten ++ [101]) (.list (items.map Prod.snd))
  | dict {entries : List EntryText} (hkeys : ∀ entry ∈ entries, StringText entry.1.1 entry.1.2)
      (hvalues : ∀ entry ∈ entries, Sentence entry.2.1 entry.2.2) :
      Sentence (100 :: (entries.map EntryText.text).flatten ++ [101])
        (.dict (setItems [] (entries.map EntryText.item)))

/-- `text` stands in `data` from `index` to `next`. -/
def Spans (data : Bytes) (index : ℕ) (text : Bytes) (next : ℕ) : Prop :=
  data.drop index = text ++ data.drop next ∧ next = index + text.length

namespace Spans

variable {data text text' : Bytes} {index next last : ℕ}

theorem append (h : Spans data index text next) (h' : Spans data next text' last) :
    Spans data index (text ++ text') last := by
  constructor
  · rw [h.1, h'.1, List.append_assoc]
  · rw [h'.2, h.2, List.length_append, Nat.add_assoc]

theorem split (h : Spans data index (text ++ text') last) :
    Spans data index text (index + text.length) ∧
      Spans data (index + text.length) text' last := by
  have hdrop : data.drop index = text ++ (text' ++ data.drop last) := by
    rw [h.1, List.append_assoc]
  have hrest : data.drop (index + text.length) = text' ++ data.drop last := drop_of_drop hdrop
  refine ⟨⟨by rw [hrest, hdrop], rfl⟩, hrest, ?_⟩
  rw [h.2, List.length_append, Nat.add_assoc]

theorem nil (data : Bytes) (index : ℕ) : Spans data index [] index := ⟨rfl, rfl⟩

theorem of_drop {rest : Bytes} (h : data.drop index = text ++ rest) :
    Spans data index text (index + text.length) := ⟨by rw [drop_of_drop h, h], rfl⟩

theorem singleton {byte : UInt8} (h : data[index]? = some byte) :
    Spans data index [byte] (index + 1) := of_drop (drop_of_getElem? h)

theorem head {byte : UInt8} {rest : Bytes} (h : Spans data index (byte :: rest) next) :
    data[index]? = some byte := getElem?_of_drop (by rw [h.1]; rfl)

/-- The first byte of a text and the rest of it. -/
theorem uncons {byte : UInt8} (h : Spans data index (byte :: text) next) :
    data[index]? = some byte ∧ Spans data (index + 1) text next := by
  have hcons : Spans data index ([byte] ++ text) next := h
  exact ⟨h.head, hcons.split.2⟩

theorem slice_eq (h : Spans data index text next) : slice data index next = text := by
  rw [h.2]
  exact slice_of_drop h.1

/-- A text that is not empty ends within the data. -/
theorem le_length (h : Spans data index text next) (hne : text ≠ []) :
    index < next ∧ next ≤ data.length := by
  have hpos : 0 < text.length := List.length_pos_of_ne_nil hne
  have hlen := congrArg List.length h.1
  have hnext := h.2
  rw [List.length_append, List.length_drop, List.length_drop] at hlen
  omega

theorem slice_one {byte : UInt8} (h : data[index]? = some byte) :
    slice data index (index + 1) = [byte] := (singleton h).slice_eq

end Spans

theorem exists_of_isdigit {text : Bytes} (h : isdigit text) :
    ∃ first rest, text = first :: rest ∧ isDigit first ∧ ∀ byte ∈ rest, isDigit byte := by
  cases text with
  | nil => simp [isdigit] at h
  | cons first rest =>
    simp only [isdigit, List.isEmpty_cons, Bool.not_false, Bool.true_and, List.all_cons,
      Bool.and_eq_true, List.all_eq_true] at h
    exact ⟨first, rest, rfl, h⟩

theorem isdigit_cons {first : UInt8} {rest : Bytes} (hfirst : isDigit first)
    (hrest : ∀ byte ∈ rest, isDigit byte) : isdigit (first :: rest) := by
  simpa [isdigit, hfirst] using hrest

/-- A text of digits holds no delimiter. -/
theorem not_mem_of_isdigit {text : Bytes} {byte : UInt8} (h : isdigit text)
    (hbyte : isDigit byte = false) : byte ∉ text := by
  intro hmem
  simp only [isdigit, Bool.and_eq_true, List.all_eq_true] at h
  rw [h.2 byte hmem] at hbyte
  cases hbyte

/-! ## What a call returns -/

/-- A call that reads a text of the language `G` from `index` on, or fails with a `ValueError`. -/
def Outcome {α : Type} (G : Bytes → α → Prop) (data : Bytes) (index : ℕ) :
    Except Failure (α × ℕ) → Prop
  | .ok (value, next) => ∃ text, G text value ∧ Spans data index text next
  | .error failure => ∃ text, failure = .valueError text

namespace Outcome

variable {α β : Type} {G H' : Bytes → α → Prop} {H : Bytes → β → Prop} {data : Bytes}
  {index start : ℕ}

theorem valueError (text : String) : Outcome G data index (.error (.valueError text)) := ⟨text, rfl⟩

theorem returns {value : α} {text : Bytes} {next : ℕ} (h : G text value)
    (hspan : Spans data index text next) : Outcome G data index (.ok (value, next)) :=
  ⟨text, h, hspan⟩

theorem ite {condition : Prop} [Decidable condition] {x y : Except Failure (α × ℕ)}
    (hx : condition → Outcome G data index x) (hy : ¬condition → Outcome G data index y) :
    Outcome G data index (if condition then x else y) := by
  split
  · exact hx ‹_›
  · exact hy ‹_›

/-- A call that reads first with the language `G`, then goes on. -/
theorem bind {x : Except Failure (α × ℕ)} {f : α × ℕ → Except Failure (β × ℕ)}
    (hx : Outcome G data start x)
    (hf : ∀ value text next, x = .ok (value, next) → G text value → Spans data start text next →
      Outcome H data index (f (value, next))) : Outcome H data index (x >>= f) := by
  match x, hx with
  | .ok (value, next), ⟨text, hG, hspan⟩ => exact hf value text next rfl hG hspan
  | .error _, ⟨text, rfl⟩ => exact valueError text

theorem map {x : Except Failure (α × ℕ)} {f : α → β} (hx : Outcome G data index x)
    (h : ∀ text value, G text value → H text (f value)) :
    Outcome H data index (x.map fun result ↦ (f result.1, result.2)) := by
  match x, hx with
  | .ok (value, next), ⟨text, hG, hspan⟩ => exact returns (h text value hG) hspan
  | .error _, ⟨text, rfl⟩ => exact valueError text

/-- A call that goes on where an earlier call stopped. -/
theorem after {x : Except Failure (α × ℕ)} {text : Bytes} (hx : Outcome G data start x)
    (hspan : Spans data index text start) (h : ∀ rest value, G rest value → H' (text ++ rest) value) :
    Outcome H' data index x := by
  match x, hx with
  | .ok (value, next), ⟨rest, hG, hrest⟩ => exact returns (h rest value hG) (hspan.append hrest)
  | .error _, ⟨text, rfl⟩ => exact valueError text

end Outcome

/-- The three tests of `decode_int_at` let exactly the texts of integers through. -/
theorem intText_of_valid {text : Bytes}
    (hdigits : isdigit (if text.head? = some 45 then text.tail else text))
    (hzero : ¬(1 < (if text.head? = some 45 then text.tail else text).length ∧
      (if text.head? = some 45 then text.tail else text).head? = some 48))
    (hminus : text ≠ [45, 48]) : IntText text (intValue text) := by
  by_cases hneg : text.head? = some 45
  · simp only [if_pos hneg] at hdigits hzero
    obtain ⟨first, rest, htail, hfirst, hrest⟩ := exists_of_isdigit hdigits
    have htext : text = 45 :: first :: rest := by
      rw [← htail]
      exact (List.eq_cons_of_mem_head? hneg)
    have hne : first ≠ 48 := by
      rintro rfl
      cases rest with
      | nil => exact hminus htext
      | cons second rest => simp [htail] at hzero
    have hvalue : intValue text = -digitsValue (first :: rest) := by simp [intValue, htext]
    rw [hvalue, htext]
    exact .negative ⟨hfirst, hne⟩ hrest
  · simp only [if_neg hneg] at hdigits hzero
    obtain ⟨first, rest, rfl, hfirst, hrest⟩ := exists_of_isdigit hdigits
    have hvalue : intValue (first :: rest) = digitsValue (first :: rest) := by
      rw [intValue, if_neg hneg]
    by_cases hne : first = 48
    · subst hne
      cases rest with
      | nil => exact .zero
      | cons second rest => simp at hzero
    · rw [hvalue]
      exact .positive ⟨hfirst, hne⟩ hrest

theorem decodeIntAt_outcome {data : Bytes} {index : ℕ} (h : data[index]? = some 105) :
    Outcome Sentence data index (decodeIntAt data index) := by
  rw [decodeIntAt, assert_true h, ok_bind]
  cases hfind : find data 101 (index + 1) with
  | none => exact .valueError _
  | some stop =>
    obtain ⟨text, rest, hdrop, -, rfl⟩ := drop_of_find hfind
    have hspan : Spans data index (105 :: text ++ [101]) (index + 1 + text.length + 1) :=
      ((Spans.singleton h).append (Spans.of_drop hdrop)).append
        (Spans.singleton (getElem?_of_drop (drop_of_drop hdrop)))
    simp only [slice_of_drop hdrop]
    apply Outcome.ite
    · exact fun _ ↦ .valueError _
    · intro hvalid
      simp only [Bool.or_eq_true, Bool.not_eq_true', Bool.and_eq_true, decide_eq_true_eq, beq_iff_eq,
        not_or, Bool.not_eq_false] at hvalid
      rw [assert_true (by omega), ok_bind]
      exact .returns (.int (intText_of_valid hvalid.1.1 hvalid.1.2 hvalid.2)) hspan

theorem decodeBytesAt_outcome {data : Bytes} {index : ℕ} (hlt : index < data.length)
    (h : isdigit (slice data index (index + 1))) :
    Outcome StringText data index (decodeBytesAt data index) := by
  rw [decodeBytesAt, assert_true ⟨hlt, h⟩, ok_bind]
  cases hfind : find data 58 index with
  | none => exact .valueError _
  | some colon =>
    obtain ⟨lengthText, rest, hdrop, -, rfl⟩ := drop_of_find hfind
    simp only [slice_of_drop hdrop]
    apply Outcome.ite
    · exact fun _ ↦ .valueError _
    · intro hdigits
      apply Outcome.ite
      · exact fun _ ↦ .valueError _
      · intro hlong
        set start := index + lengthText.length + 1 with hstart
        set stop := start + digitsValue lengthText with hstop
        have hlength : (slice data start stop).length = digitsValue lengthText := by
          rw [length_slice (by omega), hstop, Nat.add_sub_cancel_left]
        have hvalue : Spans data start (slice data start stop) stop :=
          ⟨(slice_append_drop (by omega)).symm, by omega⟩
        have hcolon : Spans data (index + lengthText.length) [58] start :=
          Spans.singleton (getElem?_of_drop (drop_of_drop hdrop))
        rw [assert_true hlength, ok_bind]
        refine .returns (.intro (by simpa using hdigits) hlength) ?_
        exact (Spans.of_drop hdrop).append (hcolon.append hvalue)

/-! ## Every call ends

A call that starts at a place where `n` bytes are left returns, or fails with a `ValueError`, when
it may nest `3 * n` calls: the three kinds of calls between a value and a value inside it consume at
least one byte together. -/

/-- `decode_value_at` does what it should for every place that `fuel` is enough for. -/
def DecodesWithin (fuel : ℕ) : Prop :=
  ∀ (data : Bytes) (index : ℕ), index < data.length → 3 * (data.length - index) ≤ fuel →
    Outcome Sentence data index (decodeAt fuel data index)

/-- The items that a loop reads before the final `e`. -/
def ItemsText (items : List BencodeValue) (text : Bytes) (result : List BencodeValue) : Prop :=
  ∃ parts : List (Bytes × BencodeValue), (∀ part ∈ parts, Sentence part.1 part.2) ∧
    text = (parts.map Prod.fst).flatten ∧ result = items ++ parts.map Prod.snd

/-- The entries that a loop reads before the final `e`. -/
def EntriesText (items : List (Bytes × BencodeValue)) (text : Bytes)
    (result : List (Bytes × BencodeValue)) : Prop :=
  ∃ entries : List EntryText, (∀ entry ∈ entries, StringText entry.1.1 entry.1.2) ∧
    (∀ entry ∈ entries, Sentence entry.2.1 entry.2.2) ∧
    text = (entries.map EntryText.text).flatten ∧
    result = setItems items (entries.map EntryText.item)

theorem ItemsText.cons {items result : List BencodeValue} {item : BencodeValue}
    {first text : Bytes} (hfirst : Sentence first item) (h : ItemsText (items ++ [item]) text result) :
    ItemsText items (first ++ text) result := by
  obtain ⟨parts, hparts, rfl, rfl⟩ := h
  refine ⟨(first, item) :: parts, ?_, by simp, by simp⟩
  simpa [hfirst] using hparts

theorem EntriesText.cons {items result : List (Bytes × BencodeValue)} {value : BencodeValue}
    {key first second text : Bytes} (hkey : StringText first key) (hvalue : Sentence second value)
    (h : EntriesText (setItem items key value) text result) :
    EntriesText items (first ++ second ++ text) result := by
  obtain ⟨entries, hkeys, hvalues, rfl, rfl⟩ := h
  refine ⟨((first, key), (second, value)) :: entries, ?_, ?_, by simp [EntryText.text], rfl⟩
  · simpa [hkey] using hkeys
  · simpa [hvalue] using hvalues

theorem isdigit_head {data : Bytes} {index : ℕ} (hlt : index < data.length) :
    ∃ byte, data[index]? = some byte ∧ slice data index (index + 1) = [byte] := by
  have hget : data[index]? = some data[index] := List.getElem?_eq_getElem hlt
  exact ⟨_, hget, Spans.slice_one hget⟩

theorem Sentence.ne_nil {text : Bytes} {value : BencodeValue} (h : Sentence text value) :
    text ≠ [] := by
  cases h with
  | bytes h =>
    cases h
    simp
  | _ => simp

theorem StringText.ne_nil {text value : Bytes} (h : StringText text value) : text ≠ [] := by
  cases h
  simp

/-- The loop of `decode_list_at` reads items. -/
theorem decodeItems_outcome {fuel : ℕ} (hvalue : ∀ bound < fuel, DecodesWithin bound) :
    ∀ (data : Bytes) (index position : ℕ) (items : List BencodeValue),
      3 * (data.length - position) < fuel →
        Outcome (ItemsText items) data position (decodeItems fuel data index position items) := by
  induction fuel with
  | zero =>
    intro data index position items hfuel
    omega
  | succ fuel ih =>
    intro data index position items hfuel
    rw [decodeItems]
    apply Outcome.ite
    · exact fun _ ↦ .valueError _
    · intro hlt
      apply Outcome.ite
      · exact fun _ ↦ .returns ⟨[], by simp, rfl, by simp⟩ (Spans.nil data position)
      · intro _
        apply (hvalue fuel (by omega) data position (by omega) (by omega)).bind
        intro item text next _ hitem hspan
        have hle := hspan.le_length hitem.ne_nil
        have hrest := ih (fun bound h ↦ hvalue bound (by omega)) data index next (items ++ [item])
          (by omega)
        exact hrest.after hspan fun _ _ h ↦ h.cons hitem

theorem decodeItems_stop {fuel : ℕ} {data : Bytes} {index position next : ℕ}
    {items result : List BencodeValue}
    (h : decodeItems fuel data index position items = .ok (result, next)) :
    data[next]? = some 101 := by
  induction fuel generalizing position items with
  | zero => simp [decodeItems] at h
  | succ fuel ih =>
    rw [decodeItems] at h
    split at h
    · cases h
    · split at h
      · rename_i hend
        cases h
        exact hend
      · obtain ⟨⟨item, position⟩, -, h⟩ := bind_eq_ok.mp h
        exact ih h

/-- The loop of `decode_dict_at` reads keys with their values. -/
theorem decodeEntries_outcome {fuel : ℕ} (hvalue : ∀ bound < fuel, DecodesWithin bound) :
    ∀ (data : Bytes) (index position : ℕ) (items : List (Bytes × BencodeValue)),
      3 * (data.length - position) < fuel →
        Outcome (EntriesText items) data position
          (decodeEntries fuel data index position items) := by
  induction fuel with
  | zero =>
    intro data index position items hfuel
    omega
  | succ fuel ih =>
    intro data index position items hfuel
    rw [decodeEntries]
    apply Outcome.ite
    · exact fun _ ↦ .valueError _
    · intro hlt
      apply Outcome.ite
      · exact fun _ ↦ .returns ⟨[], by simp, by simp, rfl, rfl⟩ (Spans.nil data position)
      · intro _
        apply Outcome.ite
        · exact fun _ ↦ .valueError _
        · intro hdigit
          apply (decodeBytesAt_outcome (by omega) (by simpa using hdigit)).bind
          intro key keyText middle _ hkey hkeySpan
          have hkeyLe := hkeySpan.le_length hkey.ne_nil
          apply Outcome.ite
          · exact fun _ ↦ .valueError _
          · intro hmiddle
            apply (hvalue fuel (by omega) data middle (by omega) (by omega)).bind
            intro value text next _ hitem hspan
            have hle := hspan.le_length hitem.ne_nil
            have hrest := ih (fun bound h ↦ hvalue bound (by omega)) data index next
              (setItem items key value) (by omega)
            exact hrest.after (hkeySpan.append hspan) fun _ _ h ↦ h.cons hkey hitem

theorem decodeEntries_stop {fuel : ℕ} {data : Bytes} {index position next : ℕ}
    {items result : List (Bytes × BencodeValue)}
    (h : decodeEntries fuel data index position items = .ok (result, next)) :
    data[next]? = some 101 := by
  induction fuel generalizing position items with
  | zero => simp [decodeEntries] at h
  | succ fuel ih =>
    rw [decodeEntries] at h
    split at h
    · cases h
    · split at h
      · rename_i hend
        cases h
        exact hend
      · split at h
        · cases h
        · obtain ⟨⟨key, middle⟩, -, h⟩ := bind_eq_ok.mp h
          simp only at h
          split at h
          · cases h
          · obtain ⟨⟨value, position⟩, -, h⟩ := bind_eq_ok.mp h
            exact ih h

theorem decodeListAt_outcome {fuel : ℕ} (hvalue : ∀ bound < fuel, DecodesWithin bound)
    {data : Bytes} {index : ℕ} (hhead : data[index]? = some 108)
    (hfuel : 3 * (data.length - index) ≤ fuel + 1) :
    Outcome Sentence data index (decodeListAt fuel data index) := by
  have hlt : index < data.length := (List.getElem?_eq_some_iff.mp hhead).1
  cases fuel with
  | zero => omega
  | succ fuel =>
    rw [decodeListAt, assert_true hhead, ok_bind]
    apply (decodeItems_outcome (fun bound h ↦ hvalue bound (by omega)) data index (index + 1) []
      (by omega)).bind
    rintro result body position hok ⟨parts, hparts, rfl, rfl⟩ hspan
    have hall := ((Spans.singleton hhead).append hspan).append
      (Spans.singleton (decodeItems_stop hok))
    have hnext := hall.2
    simp only [List.length_append, List.length_singleton] at hnext
    simp only
    rw [assert_true (by omega), ok_bind]
    exact .returns (.list hparts) hall

theorem decodeDictAt_outcome {fuel : ℕ} (hvalue : ∀ bound < fuel, DecodesWithin bound)
    {data : Bytes} {index : ℕ} (hhead : data[index]? = some 100)
    (hfuel : 3 * (data.length - index) ≤ fuel + 1) :
    Outcome Sentence data index (decodeDictAt fuel data index) := by
  have hlt : index < data.length := (List.getElem?_eq_some_iff.mp hhead).1
  cases fuel with
  | zero => omega
  | succ fuel =>
    rw [decodeDictAt, assert_true hhead, ok_bind]
    apply (decodeEntries_outcome (fun bound h ↦ hvalue bound (by omega)) data index (index + 1) []
      (by omega)).bind
    rintro result body position hok ⟨entries, hkeys, hvalues, rfl, rfl⟩ hspan
    have hall := ((Spans.singleton hhead).append hspan).append
      (Spans.singleton (decodeEntries_stop hok))
    exact .returns (.dict hkeys hvalues) hall

theorem decodesWithin (fuel : ℕ) : DecodesWithin fuel := by
  induction fuel using Nat.strongRecOn with
  | ind fuel ih =>
    intro data index hlt hfuel
    cases fuel with
    | zero => omega
    | succ fuel =>
      obtain ⟨byte, hget, hhead⟩ := isdigit_head hlt
      rw [decodeAt, assert_true hlt, ok_bind, hhead]
      have hvalue : ∀ bound < fuel, DecodesWithin bound := fun bound h ↦ ih bound (by omega)
      have hbytes (h : isdigit [byte]) : Outcome Sentence data index
          ((decodeBytesAt data index).map fun result ↦ (.bytes result.1, result.2)) :=
        (decodeBytesAt_outcome hlt (by rwa [hhead])).map fun _ _ hstring ↦ .bytes hstring
      apply Outcome.bind (G := Sentence)
      · -- One case for each of the five branches on the first byte.
        apply Outcome.ite
        · intro h
          exact decodeIntAt_outcome (by rw [hget, List.singleton_inj.mp h])
        intro _
        apply Outcome.ite
        · intro h
          exact decodeListAt_outcome hvalue (by rw [hget, List.singleton_inj.mp h]) (by omega)
        intro _
        apply Outcome.ite
        · intro h
          exact decodeDictAt_outcome hvalue (by rw [hget, List.singleton_inj.mp h]) (by omega)
        intro _
        exact Outcome.ite hbytes fun _ ↦ .valueError _
      · intro value text next _ hsentence hspan
        simp only
        rw [assert_true (hspan.le_length hsentence.ne_nil), ok_bind]
        exact .returns hsentence hspan

theorem decodeValueAt_outcome {data : Bytes} {index : ℕ} (h : index < data.length) :
    Outcome Sentence data index (decodeValueAt data index) :=
  decodesWithin _ data index h (by omega)

/-! ## Every sentence is read -/

theorem IntText.valid {text : Bytes} {value : ℤ} (h : IntText text value) :
    101 ∉ text ∧ intValue text = value ∧ text ≠ [45, 48] ∧
      isdigit (if text.head? = some 45 then text.tail else text) ∧
      ¬(1 < (if text.head? = some 45 then text.tail else text).length ∧
        (if text.head? = some 45 then text.tail else text).head? = some 48) := by
  cases h with
  | zero => decide
  | @positive first rest hfirst hrest =>
    have hdigits : isdigit (first :: rest) := isdigit_cons hfirst.1 hrest
    have hminus : (first :: rest).head? ≠ some 45 := by
      rintro heq
      cases heq
      exact absurd hfirst.1 (by decide)
    have hnot : first :: rest ≠ [45, 48] := fun heq ↦ hminus (by rw [heq]; rfl)
    rw [if_neg hminus, intValue, if_neg hminus]
    exact ⟨not_mem_of_isdigit hdigits rfl, rfl, hnot, hdigits, fun h ↦ hfirst.2 (by simpa using h.2)⟩
  | @negative first rest hfirst hrest =>
    have hdigits : isdigit (first :: rest) := isdigit_cons hfirst.1 hrest
    have hnot : 45 :: first :: rest ≠ [45, 48] :=
      fun heq ↦ hfirst.2 (List.cons.inj (List.cons.inj heq).2).1
    refine ⟨?_, by simp [intValue], hnot, by simpa using hdigits, fun h ↦ hfirst.2 (by simpa using h.2)⟩
    rw [List.mem_cons, not_or]
    exact ⟨by decide, not_mem_of_isdigit hdigits rfl⟩

theorem decodeIntAt_of_text {data text : Bytes} {value : ℤ} {index next : ℕ} (h : IntText text value)
    (hspan : Spans data index (105 :: text ++ [101]) next) :
    decodeIntAt data index = .ok (.int value, next) := by
  obtain ⟨hend, hvalue, hminus, hdigits, hzero⟩ := h.valid
  obtain ⟨hfirst, hrest⟩ := hspan.uncons
  have hdrop : data.drop (index + 1) = text ++ 101 :: data.drop next := by
    rw [hrest.1]
    exact List.append_assoc _ _ _
  have hfind : find data 101 (index + 1) = some (index + 1 + text.length) := find_of_drop hdrop hend
  have hslice : slice data (index + 1) (index + 1 + text.length) = text :=
    (Spans.split hrest).1.slice_eq
  have hvalid : (!isdigit (if text.head? = some 45 then text.tail else text) ||
      (1 < (if text.head? = some 45 then text.tail else text).length &&
        (if text.head? = some 45 then text.tail else text).head? == some 48) ||
      text == [45, 48]) = false := by
    simp only [Bool.or_eq_false_iff, Bool.not_eq_false', Bool.and_eq_false_iff, decide_eq_false_iff_not,
      beq_eq_false_iff_ne, ne_eq]
    exact ⟨⟨hdigits, not_and_or.mp hzero⟩, hminus⟩
  have hnext : next = index + 1 + text.length + 1 := by
    rw [hspan.2]
    simp only [List.length_append, List.length_cons, List.length_nil]
    omega
  rw [decodeIntAt, assert_true hfirst, ok_bind, hfind]
  simp only [hslice, hvalid, Bool.false_eq_true, if_false, hvalue]
  rw [assert_true (by omega), ok_bind, hnext]
  rfl

theorem decodeBytesAt_of_text {data text value : Bytes} {index next : ℕ} (h : StringText text value)
    (hspan : Spans data index text next) :
    decodeBytesAt data index = .ok (value, next) := by
  cases h with
  | @intro lengthText _ hdigits hlength =>
    obtain ⟨first, rest, htext, hfirst, -⟩ := exists_of_isdigit hdigits
    have hhead : data[index]? = some first := by
      have hcons : Spans data index (first :: (rest ++ 58 :: value)) next := by rwa [htext] at hspan
      exact hcons.head
    have hdigit : isdigit (slice data index (index + 1)) := by
      rw [Spans.slice_one hhead]
      exact isdigit_cons hfirst (by simp)
    have hle := hspan.le_length (by simp)
    obtain ⟨hleft, hright⟩ := Spans.split hspan
    obtain ⟨-, hvalue⟩ := hright.uncons
    have hdrop : data.drop index = lengthText ++ 58 :: (value ++ data.drop next) := by
      rw [hspan.1, List.append_assoc]
      rfl
    have hfind : find data 58 index = some (index + lengthText.length) :=
      find_of_drop hdrop (not_mem_of_isdigit hdigits rfl)
    have hnext : index + lengthText.length + 1 + digitsValue lengthText = next := by
      rw [← hlength]
      exact hvalue.2.symm
    rw [decodeBytesAt, assert_true ⟨by omega, hdigit⟩, ok_bind, hfind]
    simp only [hleft.slice_eq, hdigits, Bool.not_true, Bool.false_eq_true, if_false, hnext]
    rw [if_neg (by omega), hvalue.slice_eq, assert_true hlength, ok_bind]
    rfl

theorem StringText.head {text value : Bytes} (h : StringText text value) :
    ∃ first rest, text = first :: rest ∧ isDigit first := by
  cases h with
  | @intro lengthText _ hdigits _ =>
    obtain ⟨first, rest, rfl, hfirst, -⟩ := exists_of_isdigit hdigits
    exact ⟨first, _, rfl, hfirst⟩

/-- No sentence starts with the byte that ends a list or a dictionary. -/
theorem Sentence.head {text : Bytes} {value : BencodeValue} (h : Sentence text value) :
    ∃ first rest, text = first :: rest ∧ first ≠ 101 := by
  cases h with
  | bytes h =>
    obtain ⟨first, rest, rfl, hfirst⟩ := h.head
    refine ⟨first, rest, rfl, ?_⟩
    rintro rfl
    cases hfirst
  | _ => exact ⟨_, _, rfl, by decide⟩

/-- The decoder reads this text as this value wherever it stands. -/
def ReadAs (text : Bytes) (value : BencodeValue) : Prop :=
  ∀ (data : Bytes) (index next fuel : ℕ), Spans data index text next → 3 * text.length ≤ fuel →
    decodeAt fuel data index = .ok (value, next)

theorem decodeItems_of_parts {data : Bytes} {next : ℕ} (index : ℕ) (parts : List (Bytes × BencodeValue))
    (hparts : ∀ part ∈ parts, Sentence part.1 part.2 ∧ ReadAs part.1 part.2)
    (hend : data[next]? = some 101) :
    ∀ (position fuel : ℕ) (items : List BencodeValue),
      Spans data position (parts.map Prod.fst).flatten next →
        3 * (parts.map Prod.fst).flatten.length < fuel →
          decodeItems fuel data index position items = .ok (items ++ parts.map Prod.snd, next) := by
  have hlt : next < data.length := (List.getElem?_eq_some_iff.mp hend).1
  induction parts with
  | nil =>
    intro position fuel items hspan hfuel
    obtain rfl : next = position := hspan.2
    cases fuel with
    | zero => omega
    | succ fuel =>
      rw [decodeItems, if_neg (by omega), if_pos hend]
      simp
  | cons part parts ih =>
    intro position fuel items hspan hfuel
    obtain ⟨⟨hsentence, hread⟩, hrest⟩ := List.forall_mem_cons.mp hparts
    obtain ⟨hfirst, hothers⟩ := Spans.split hspan
    obtain ⟨first, rest, htext, hne⟩ := hsentence.head
    have hhead : data[position]? ≠ some 101 := by
      rw [htext] at hfirst
      rw [hfirst.head]
      simpa using hne
    have hle := hfirst.le_length hsentence.ne_nil
    simp only [List.map_cons, List.flatten_cons, List.length_append] at hfuel
    cases fuel with
    | zero => omega
    | succ fuel =>
      rw [decodeItems, if_neg (by omega), if_neg hhead, hread _ _ _ _ hfirst (by omega), ok_bind]
      simp only
      rw [ih hrest _ _ _ hothers (by omega)]
      simp

theorem decodeEntries_of_entries {data : Bytes} {next : ℕ} (index : ℕ) (entries : List EntryText)
    (hkeys : ∀ entry ∈ entries, StringText entry.1.1 entry.1.2)
    (hvalues : ∀ entry ∈ entries, Sentence entry.2.1 entry.2.2 ∧ ReadAs entry.2.1 entry.2.2)
    (hend : data[next]? = some 101) :
    ∀ (position fuel : ℕ) (items : List (Bytes × BencodeValue)),
      Spans data position (entries.map EntryText.text).flatten next →
        3 * (entries.map EntryText.text).flatten.length < fuel →
          decodeEntries fuel data index position items =
            .ok (setItems items (entries.map EntryText.item), next) := by
  have hlt : next < data.length := (List.getElem?_eq_some_iff.mp hend).1
  induction entries with
  | nil =>
    intro position fuel items hspan hfuel
    obtain rfl : next = position := hspan.2
    cases fuel with
    | zero => omega
    | succ fuel =>
      rw [decodeEntries, if_neg (by omega), if_pos hend]
      rfl
  | cons entry entries ih =>
    intro position fuel items hspan hfuel
    obtain ⟨hkey, hotherKeys⟩ := List.forall_mem_cons.mp hkeys
    obtain ⟨⟨hsentence, hread⟩, hotherValues⟩ := List.forall_mem_cons.mp hvalues
    obtain ⟨hentry, hothers⟩ := Spans.split hspan
    obtain ⟨hkeySpan, hvalueSpan⟩ := Spans.split hentry
    obtain ⟨first, rest, htext, hdigit⟩ := hkey.head
    have hhead : data[position]? = some first := by
      rw [htext] at hkeySpan
      exact hkeySpan.head
    have hnotEnd : data[position]? ≠ some 101 := by
      rw [hhead]
      rintro heq
      cases heq
      cases hdigit
    have hisdigit : isdigit (slice data position (position + 1)) := by
      rw [Spans.slice_one hhead]
      exact isdigit_cons hdigit (by simp)
    have hkeyLe := hkeySpan.le_length hkey.ne_nil
    have hvalueLe := hvalueSpan.le_length hsentence.ne_nil
    simp only [List.map_cons, List.flatten_cons, List.length_append, EntryText.text] at hfuel
    cases fuel with
    | zero => omega
    | succ fuel =>
      rw [decodeEntries, if_neg (by omega), if_neg hnotEnd, if_neg (by simp [hisdigit]),
        decodeBytesAt_of_text hkey hkeySpan, ok_bind]
      simp only
      rw [if_neg (by omega), hread _ _ _ _ hvalueSpan (by omega), ok_bind]
      exact ih hotherKeys hotherValues _ _ _ hothers (by omega)

/-- What `decode_value_at` does once the branch on the first byte has answered. -/
theorem decodeAt_of_decoded {data : Bytes} {index next fuel : ℕ} {byte : UInt8} {value : BencodeValue}
    (hhead : data[index]? = some byte) (hle : index < next ∧ next ≤ data.length)
    (hdecoded : (if [byte] = [105] then decodeIntAt data index
      else if [byte] = [108] then decodeListAt fuel data index
      else if [byte] = [100] then decodeDictAt fuel data index
      else if isdigit [byte] then
        (decodeBytesAt data index).map fun result ↦ (.bytes result.1, result.2)
      else
        .error (.valueError ("unknown bencode prefix " ++ String.join ([byte].map reprByte) ++ " at " ++
          toString index))) = .ok (value, next)) :
    decodeAt (fuel + 1) data index = .ok (value, next) := by
  rw [decodeAt, assert_true (by omega), ok_bind, Spans.slice_one hhead]
  simp only [hdecoded, ok_bind]
  rw [assert_true hle, ok_bind]
  rfl

/-- Every sentence is read wherever it stands, and nothing of what follows it. -/
theorem Sentence.readAs {text : Bytes} {value : BencodeValue} (h : Sentence text value) :
    ReadAs text value := by
  induction h with
  | int h =>
    intro data index next fuel hspan hfuel
    simp only [List.length_append, List.length_cons, List.length_nil] at hfuel
    obtain ⟨fuel, rfl⟩ := Nat.exists_eq_succ_of_ne_zero (n := fuel) (by omega)
    exact decodeAt_of_decoded hspan.head (hspan.le_length (by simp)) (decodeIntAt_of_text h hspan)
  | @bytes text value h =>
    intro data index next fuel hspan hfuel
    obtain ⟨first, rest, rfl, hdigit⟩ := h.head
    rw [List.length_cons] at hfuel
    obtain ⟨fuel, rfl⟩ := Nat.exists_eq_succ_of_ne_zero (n := fuel) (by omega)
    refine decodeAt_of_decoded hspan.head (hspan.le_length (by simp)) ?_
    have hne (byte : UInt8) (hbyte : isDigit byte = false) : [first] ≠ [byte] := by
      intro heq
      rw [List.singleton_inj.mp heq, hbyte] at hdigit
      cases hdigit
    rw [if_neg (hne 105 rfl), if_neg (hne 108 rfl), if_neg (hne 100 rfl),
      if_pos (isdigit_cons hdigit (by simp)), decodeBytesAt_of_text h hspan]
    rfl
  | @list items h ih =>
    intro data index next fuel hspan hfuel
    obtain ⟨hhead, hbody⟩ := hspan.uncons
    obtain ⟨hitems, hend⟩ := Spans.split hbody
    simp only [List.length_append, List.length_cons, List.length_nil] at hfuel
    obtain ⟨fuel, rfl⟩ := Nat.exists_eq_add_of_le' (m := 3) (n := fuel) (by omega)
    have hloop := decodeItems_of_parts index items
      (fun part hpart ↦ ⟨h part hpart, ih part hpart⟩) hend.head (index + 1) (fuel + 1) [] hitems
      (by omega)
    refine decodeAt_of_decoded hhead (hspan.le_length (by simp)) ?_
    have hbranch : decodeListAt (fuel + 2) data index = .ok (.list (items.map Prod.snd), next) := by
      rw [decodeListAt, assert_true hhead, ok_bind, hloop, ok_bind, hend.2]
      simp only
      rw [assert_true (by omega), ok_bind]
      rfl
    exact hbranch
  | @dict entries hkeys hvalues ih =>
    intro data index next fuel hspan hfuel
    obtain ⟨hhead, hbody⟩ := hspan.uncons
    obtain ⟨hentries, hend⟩ := Spans.split hbody
    simp only [List.length_append, List.length_cons, List.length_nil] at hfuel
    obtain ⟨fuel, rfl⟩ := Nat.exists_eq_add_of_le' (m := 3) (n := fuel) (by omega)
    have hloop := decodeEntries_of_entries index entries hkeys
      (fun entry hentry ↦ ⟨hvalues entry hentry, ih entry hentry⟩) hend.head (index + 1) (fuel + 1) []
      hentries (by omega)
    refine decodeAt_of_decoded hhead (hspan.le_length (by simp)) ?_
    have hbranch : decodeDictAt (fuel + 2) data index =
        .ok (.dict (setItems [] (entries.map EntryText.item)), next) := by
      rw [decodeDictAt, assert_true hhead, ok_bind, hloop, ok_bind, hend.2]
      rfl
    exact hbranch

theorem Sentence.decodeValueAt_eq {data text : Bytes} {value : BencodeValue} {index next : ℕ}
    (h : Sentence text value) (hspan : Spans data index text next) :
    decodeValueAt data index = .ok (value, next) := by
  have hle := hspan.le_length h.ne_nil
  have hnext := hspan.2
  exact h.readAs data index next _ hspan (by omega)

/-- Two sentences that start at the same place are one. -/
theorem Sentence.unique {text text' : Bytes} {value value' : BencodeValue} (h : Sentence text value)
    (h' : Sentence text' value') (rest rest' : Bytes) (heq : text ++ rest = text' ++ rest') :
    text = text' ∧ value = value' := by
  have hspan : Spans (text ++ rest) 0 text (0 + text.length) := Spans.of_drop rfl
  have hspan' : Spans (text ++ rest) 0 text' (0 + text'.length) := Spans.of_drop heq
  have hread := h.decodeValueAt_eq hspan
  have hread' := h'.decodeValueAt_eq hspan'
  rw [hread] at hread'
  simp only [Except.ok.injEq, Prod.mk.injEq, Nat.zero_add] at hread'
  exact ⟨(List.append_inj heq hread'.2).1, hread'.1⟩

/-! ## The values of a dictionary -/

namespace BencodeValue

theorem lookup_cons_eq (item : Bytes × BencodeValue) (rest : List (Bytes × BencodeValue))
    (key : Bytes) : (item :: rest).lookup key =
      if key = item.1 then some item.2 else rest.lookup key := by
  obtain ⟨itemKey, value⟩ := item
  rw [List.lookup_cons]
  by_cases h : key = itemKey
  · simp [h]
  · have hbeq : (key == itemKey) = false := by simpa using h
    simp [h, hbeq]

theorem lookup_setItem (items : List (Bytes × BencodeValue)) (key key' : Bytes)
    (value : BencodeValue) : (setItem items key value).lookup key' =
      if key' = key then some value else items.lookup key' := by
  induction items with
  | nil => rw [setItem, lookup_cons_eq]
  | cons item rest ih =>
    by_cases hkey : item.1 = key
    · rw [setItem, if_pos hkey, lookup_cons_eq, lookup_cons_eq, hkey]
      by_cases h : key' = key <;> simp [h]
    · rw [setItem, if_neg hkey, lookup_cons_eq, lookup_cons_eq, ih]
      by_cases h : key' = item.1
      · have hne : key' ≠ key := fun heq ↦ hkey (h ▸ heq)
        simp [h, hkey]
      · simp [h]

theorem keys_setItem (items : List (Bytes × BencodeValue)) (key : Bytes) (value : BencodeValue) :
    (setItem items key value).map Prod.fst =
      if key ∈ items.map Prod.fst then items.map Prod.fst else items.map Prod.fst ++ [key] := by
  induction items with
  | nil => simp [setItem]
  | cons item rest ih =>
    by_cases hkey : item.1 = key
    · simp [setItem, hkey]
    · have hne : key ≠ item.1 := fun h ↦ hkey h.symm
      rw [setItem, if_neg hkey, List.map_cons, ih]
      by_cases h : key ∈ rest.map Prod.fst <;> simp [h, hne]

theorem nodup_keys_setItem {items : List (Bytes × BencodeValue)} (h : (items.map Prod.fst).Nodup)
    (key : Bytes) (value : BencodeValue) : ((setItem items key value).map Prod.fst).Nodup := by
  rw [keys_setItem]
  split
  · exact h
  · rename_i hnew
    rw [List.nodup_append]
    exact ⟨h, List.nodup_singleton _, by
      intro a ha b hb heq
      rw [List.mem_singleton] at hb
      exact hnew (hb ▸ heq ▸ ha)⟩

theorem nodup_keys_setItems {items : List (Bytes × BencodeValue)} (h : (items.map Prod.fst).Nodup)
    (entries : List (Bytes × BencodeValue)) : ((setItems items entries).map Prod.fst).Nodup := by
  induction entries generalizing items with
  | nil => exact h
  | cons entry entries ih => exact ih (nodup_keys_setItem h _ _)

/-- Of several values assigned to one key the last one stays. -/
theorem lookup_setItems (items entries : List (Bytes × BencodeValue)) (key : Bytes) :
    (setItems items entries).lookup key = (entries.reverse.lookup key).or (items.lookup key) := by
  induction entries generalizing items with
  | nil => simp [setItems]
  | cons entry entries ih =>
    have hstep : setItems items (entry :: entries) = setItems (setItem items entry.1 entry.2) entries :=
      rfl
    rw [hstep, ih, lookup_setItem, List.reverse_cons, List.lookup_append]
    rw [lookup_cons_eq, List.lookup_nil, Option.or_assoc]
    by_cases h : key = entry.1 <;> simp [h]

end BencodeValue

/-! ## The decoder is exactly the grammar -/

/-- What `decode_value_at` returns is the only sentence that starts there. -/
theorem decodeValueAt_exact {data : Bytes} {index : ℕ} (h : index < data.length) :
    match decodeValueAt data index with
    | .ok (value, next) => next ≤ data.length ∧ Sentence (slice data index next) value ∧
        ∀ text value', text <+: data.drop index → Sentence text value' →
          text = slice data index next
    | .error failure => (∃ text, failure = .valueError text) ∧
        ∀ text value, text <+: data.drop index → ¬Sentence text value := by
  have houtcome := decodeValueAt_outcome h
  cases hresult : decodeValueAt data index with
  | ok result =>
    rw [hresult] at houtcome
    obtain ⟨text, hsentence, hspan⟩ := houtcome
    have hslice := hspan.slice_eq
    simp only [hslice]
    refine ⟨(hspan.le_length hsentence.ne_nil).2, hsentence, ?_⟩
    rintro text' value' ⟨rest, hstart⟩ hsentence'
    exact (hsentence'.unique hsentence _ _ (hstart.trans hspan.1)).1
  | error failure =>
    rw [hresult] at houtcome
    refine ⟨houtcome, ?_⟩
    rintro text value ⟨rest, hstart⟩ hsentence
    have hread := hsentence.decodeValueAt_eq (Spans.of_drop hstart.symm)
    rw [hresult] at hread
    cases hread

theorem spans_all (data : Bytes) : Spans data 0 data data.length := by simp [Spans]

theorem decodeBencode_eq_ok_iff {data : Bytes} {value : BencodeValue} :
    decodeBencode data = .ok value ↔ Sentence data value := by
  constructor
  · intro h
    rw [decodeBencode] at h
    split at h
    · cases h
    · obtain ⟨⟨result, next⟩, hread, h⟩ := bind_eq_ok.mp h
      have hpos : 0 < data.length := by omega
      have houtcome := decodeValueAt_outcome hpos
      rw [hread] at houtcome
      obtain ⟨text, hsentence, hspan⟩ := houtcome
      simp only at h
      split at h
      · cases h
      · rename_i hnext
        obtain ⟨_, -, h⟩ := bind_eq_ok.mp h
        cases h
        have hall : text = data := by
          rw [← hspan.slice_eq, not_not.mp hnext, (spans_all data).slice_eq]
        exact hall ▸ hsentence
  · intro h
    have hne : ¬data.length = 0 := fun hzero ↦ h.ne_nil (List.length_eq_zero_iff.mp hzero)
    rw [decodeBencode, if_neg hne, h.decodeValueAt_eq (spans_all data), ok_bind]
    simp only
    rw [if_neg (by simp), assert_true trivial, ok_bind]
    rfl

/-- Whatever is not a sentence ends with a `ValueError`. -/
theorem decodeBencode_eq_error {data : Bytes} (h : ∀ value, ¬Sentence data value) :
    ∃ text, decodeBencode data = .error (.valueError text) := by
  rw [decodeBencode]
  split
  · exact ⟨_, rfl⟩
  · have hpos : 0 < data.length := by omega
    have houtcome := decodeValueAt_outcome hpos
    cases hread : decodeValueAt data 0 with
    | error failure =>
      rw [hread] at houtcome
      obtain ⟨text, rfl⟩ := houtcome
      exact ⟨text, rfl⟩
    | ok result =>
      rw [hread] at houtcome
      obtain ⟨text, hsentence, hspan⟩ := houtcome
      rw [ok_bind]
      simp only
      split
      · exact ⟨_, rfl⟩
      · rename_i hnext
        have hall : text = data := by
          rw [← hspan.slice_eq, not_not.mp hnext, (spans_all data).slice_eq]
        exact absurd (hall ▸ hsentence) (h _)

/-- `decode_bencode` returns a value for exactly the sentences, the value of the sentence, and fails
with a `ValueError` on everything else; a repeated key of a dictionary has its last value.  The
grammar is unambiguous, no sentence is a proper prefix of another, and where `decode_value_at`
returns, it has read the only sentence that starts there. -/
theorem decodeBencode_exact :
    (∀ data value, decodeBencode data = .ok value ↔ Sentence data value) ∧
    (∀ data, (∀ value, ¬Sentence data value) →
      ∃ text, decodeBencode data = .error (.valueError text)) ∧
    (∀ entries key, ((setItems [] entries).map Prod.fst).Nodup ∧
      (setItems [] entries).lookup key = entries.reverse.lookup key) ∧
    (∀ text value value', Sentence text value → Sentence text value' → value = value') ∧
    (∀ text rest value value', Sentence text value → Sentence (text ++ rest) value' → rest = []) ∧
    ∀ data index, index < data.length → match decodeValueAt data index with
      | .ok (value, next) => next ≤ data.length ∧ Sentence (slice data index next) value ∧
          ∀ text value', text <+: data.drop index → Sentence text value' →
            text = slice data index next
      | .error failure => (∃ text, failure = .valueError text) ∧
          ∀ text value, text <+: data.drop index → ¬Sentence text value := by
  refine ⟨fun _ _ ↦ decodeBencode_eq_ok_iff, fun _ ↦ decodeBencode_eq_error, ?_, ?_, ?_,
    fun _ _ ↦ decodeValueAt_exact⟩
  · intro entries key
    have hnodup : ((setItems [] entries).map Prod.fst).Nodup :=
      nodup_keys_setItems (by simp) entries
    refine ⟨hnodup, ?_⟩
    rw [lookup_setItems, List.lookup_nil, Option.or_none]
  · intro text value value' h h'
    exact (h.unique h' [] [] rfl).2
  · intro text rest value value' h h'
    have heq : text = text ++ rest := (h.unique h' rest [] (List.append_nil _).symm).1
    exact List.self_eq_append_right.mp heq

/-- The sentence `i0e`, and a text that is none. -/
theorem decodeBencode_exact_samples :
    decodeBencode [105, 48, 101] = .ok (.int 0) ∧
      ∃ text, decodeBencode [105, 101] = .error (.valueError text) := by
  constructor
  · exact (decodeBencode_exact.1 _ _).mpr (.int .zero)
  · apply decodeBencode_exact.2.1
    intro value h
    have hnone : decodeBencode [105, 101] = .ok value := (decodeBencode_exact.1 _ _).mpr h
    have hfails : (decodeBencode [105, 101]).toOption.isNone = true := by decide +kernel
    rw [hnone] at hfails
    cases hfails

end DhtScraper
