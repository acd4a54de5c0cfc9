import DhtScraper.Codec.Grammar
import Mathlib.Data.List.Sort

/-!
# Encoded values are read back

`encodeBencode` produces a sentence of the grammar whose value is the encoded one, so the decoder
reads it back in any context.  Values are compared as the source compares them: `Same` ignores the
order of insertion of a dictionary, and so does the encoder.
-/

namespace DhtScraper

namespace BencodeValue

/-- Every dictionary in the value has each key once. -/
inductive WellFormed : BencodeValue → Prop where
  | int (value : ℤ) : WellFormed (.int value)
  | bytes (value : Bytes) : WellFormed (.bytes value)
  | list {items : List BencodeValue} (h : ∀ item ∈ items, WellFormed item) : WellFormed (.list items)
  | dict {items : List (Bytes × BencodeValue)} (hkeys : (items.map Prod.fst).Nodup)
      (h : ∀ item ∈ items, WellFormed item.2) : WellFormed (.dict items)

/-- Equality of values: lists place by place, dictionaries key by key. -/
inductive Same : BencodeValue → BencodeValue → Prop where
  | int (value : ℤ) : Same (.int value) (.int value)
  | bytes (value : Bytes) : Same (.bytes value) (.bytes value)
  | list {left right : List BencodeValue} (hlength : left.length = right.length)
      (h : ∀ (i : ℕ) (l r : BencodeValue), left[i]? = some l → right[i]? = some r → Same l r) :
      Same (.list left) (.list right)
  | dict {left right : List (Bytes × BencodeValue)}
      (hkeys : ∀ key, (left.lookup key).isSome = (right.lookup key).isSome)
      (h : ∀ key l r, left.lookup key = some l → right.lookup key = some r → Same l r) :
      Same (.dict left) (.dict right)

theorem lookup_eq_some_iff {items : List (Bytes × BencodeValue)} (h : (items.map Prod.fst).Nodup)
    {key : Bytes} {value : BencodeValue} :
    items.lookup key = some value ↔ (key, value) ∈ items := by
  induction items with
  | nil => simp
  | cons item rest ih =>
    obtain ⟨hnew, hrest⟩ := List.nodup_cons.mp h
    rw [lookup_cons_eq, List.mem_cons]
    by_cases hkey : key = item.1
    · subst hkey
      have hnot : (item.1, value) ∉ rest := fun hmem ↦ hnew (List.mem_map.mpr ⟨_, hmem, rfl⟩)
      rw [if_pos rfl, Option.some.injEq, or_iff_left hnot]
      exact ⟨fun heq ↦ by rw [← heq], fun heq ↦ (congrArg Prod.snd heq).symm⟩
    · have hne : (key, value) ≠ item := fun heq ↦ hkey (congrArg Prod.fst heq)
      rw [if_neg hkey, ih hrest, or_iff_right hne]

/-- Dictionaries are the same when they have the same keys with the same values. -/
theorem Same.dict_of {left right : List (Bytes × BencodeValue)}
    (hleft : ∀ key l, left.lookup key = some l → ∃ r, right.lookup key = some r ∧ Same l r)
    (hright : ∀ key, (right.lookup key).isSome → (left.lookup key).isSome) :
    Same (.dict left) (.dict right) := by
  refine .dict (fun key ↦ ?_) fun key l r hl hr ↦ ?_
  · rw [Bool.eq_iff_iff]
    refine ⟨fun h ↦ ?_, hright key⟩
    obtain ⟨l, hl⟩ := Option.isSome_iff_exists.mp h
    obtain ⟨r, hr, -⟩ := hleft key l hl
    rw [hr]
    rfl
  · obtain ⟨r', hr', hsame⟩ := hleft key l hl
    rw [hr, Option.some.injEq] at hr'
    exact hr' ▸ hsame

/-- The dictionary that entries with distinct keys make. -/
theorem lookup_setItems_nil {entries : List (Bytes × BencodeValue)}
    (h : (entries.map Prod.fst).Nodup) {key : Bytes} {value : BencodeValue} :
    (setItems [] entries).lookup key = some value ↔ (key, value) ∈ entries := by
  have hreverse : (entries.reverse.map Prod.fst).Nodup := by
    rw [List.map_reverse]
    exact List.nodup_reverse.mpr h
  rw [lookup_setItems, List.lookup_nil, Option.or_none, lookup_eq_some_iff hreverse,
    List.mem_reverse]

end BencodeValue

open BencodeValue

/-! ## The encoder writes sentences -/

theorem intText_encode (value : ℤ) :
    IntText (if value < 0 then 45 :: digitsOf value.natAbs else digitsOf value.natAbs) value := by
  have hnumber (n : ℕ) (h : 0 < n) : ∃ first rest, digitsOf n = first :: rest ∧
      (isDigit first ∧ first ≠ 48) ∧ (∀ byte ∈ rest, isDigit byte) ∧
        digitsValue (first :: rest) = n := by
    obtain ⟨first, rest, hdigits, hne⟩ := digitsOf_cons h
    have hall (byte : UInt8) (hbyte : byte ∈ first :: rest) : isDigit byte :=
      isDigit_of_mem_digitsOf (hdigits ▸ hbyte)
    refine ⟨first, rest, hdigits, ⟨hall first (by simp), hne⟩,
      fun byte hbyte ↦ hall byte (List.mem_cons_of_mem _ hbyte), ?_⟩
    rw [← hdigits, digitsValue_digitsOf]
  by_cases hneg : value < 0
  · obtain ⟨first, rest, hdigits, hfirst, hrest, hvalue⟩ := hnumber value.natAbs (by omega)
    have h := IntText.negative hfirst hrest
    rw [hvalue, show (-(value.natAbs : ℤ)) = value by omega] at h
    rw [if_pos hneg, hdigits]
    exact h
  · rw [if_neg hneg]
    by_cases hzero : value = 0
    · subst hzero
      exact .zero
    · obtain ⟨first, rest, hdigits, hfirst, hrest, hvalue⟩ := hnumber value.natAbs (by omega)
      have h := IntText.positive hfirst hrest
      rw [hvalue, show ((value.natAbs : ℤ)) = value by omega] at h
      rw [hdigits]
      exact h

theorem stringText_encode (value : Bytes) : StringText (encodeBytes value) value :=
  .intro (isdigit_digitsOf _) (digitsValue_digitsOf _).symm

theorem encodeEach_eq (items : List BencodeValue) : encodeEach items = items.map encodeBencode := by
  induction items with
  | nil => rfl
  | cons item rest ih => rw [encodeEach, ih, List.map_cons]

/-- The part of a dictionary that one item becomes. -/
def encodePart (item : Bytes × BencodeValue) : Bytes × Bytes :=
  (item.1, encodeBytes item.1 ++ encodeBencode item.2)

theorem encodeParts_eq (items : List (Bytes × BencodeValue)) :
    encodeParts items = items.map encodePart := by
  induction items with
  | nil => rfl
  | cons item rest ih =>
    obtain ⟨key, value⟩ := item
    rw [encodeParts, ih, List.map_cons]
    rfl

/-- The order of the keys, on items. -/
def itemLe (left right : Bytes × BencodeValue) : Prop := left.1 ≤ right.1

instance : DecidableRel itemLe := fun left right ↦ inferInstanceAs (Decidable (left.1 ≤ right.1))

/-- Sorting the parts of a dictionary is sorting its items. -/
theorem sort_encodeParts (items : List (Bytes × BencodeValue)) :
    (encodeParts items).insertionSort keyLe = (items.insertionSort itemLe).map encodePart := by
  rw [encodeParts_eq, List.map_insertionSort itemLe keyLe]
  exact fun _ _ _ _ ↦ Iff.rfl

/-- What the encoder writes is a sentence, and its value is the encoded one. -/
theorem sentence_encode {value : BencodeValue} (h : value.WellFormed) :
    ∃ read, Sentence (encodeBencode value) read ∧ value.Same read := by
  induction h with
  | int value => exact ⟨_, .int (intText_encode value), .int value⟩
  | bytes value => exact ⟨_, .bytes (stringText_encode value), .bytes value⟩
  | @list items _ ih =>
    choose! read hread using ih
    have htext : (items.map fun item ↦ (encodeBencode item, read item)).map Prod.fst =
        encodeEach items := by
      rw [List.map_map, encodeEach_eq]
      rfl
    have hsentence : Sentence (encodeBencode (.list items)) (.list ((items.map fun item ↦
        (encodeBencode item, read item)).map Prod.snd)) := by
      rw [encodeBencode, ← htext]
      apply Sentence.list
      intro part hpart
      obtain ⟨item, hitem, rfl⟩ := List.mem_map.mp hpart
      exact (hread item hitem).1
    refine ⟨_, hsentence, .list (by simp) ?_⟩
    intro i l r hl hr
    rw [List.map_map, List.getElem?_map, hl] at hr
    cases hr
    exact (hread l (List.mem_of_getElem? hl)).2
  | @dict items hkeys _ ih =>
    choose! read hread using ih
    let sorted := items.insertionSort itemLe
    have hsorted : ∀ item, item ∈ sorted ↔ item ∈ items := fun item ↦
      List.mem_insertionSort itemLe
    let entries : List EntryText := sorted.map fun item ↦
      ((encodeBytes item.1, item.1), (encodeBencode item.2, read item))
    have htext : (entries.map EntryText.text).flatten =
        ((encodeParts items).insertionSort keyLe).flatMap Prod.snd := by
      rw [sort_encodeParts, List.map_map, List.flatMap_map, List.flatMap_def]
      rfl
    have hitems : entries.map EntryText.item = sorted.map fun item ↦ (item.1, read item) := by
      rw [List.map_map]
      rfl
    have hnodup : ((sorted.map fun item ↦ (item.1, read item)).map Prod.fst).Nodup := by
      rw [List.map_map]
      exact ((List.perm_insertionSort itemLe items).map Prod.fst).nodup_iff.mpr hkeys
    have hsentence : Sentence (encodeBencode (.dict items))
        (.dict (setItems [] (entries.map EntryText.item))) := by
      rw [encodeBencode, ← htext]
      apply Sentence.dict
      · intro entry hentry
        obtain ⟨item, -, rfl⟩ := List.mem_map.mp hentry
        exact stringText_encode item.1
      · intro entry hentry
        obtain ⟨item, hitem, rfl⟩ := List.mem_map.mp hentry
        exact (hread item ((hsorted item).mp hitem)).1
    refine ⟨_, hsentence, .dict_of ?_ ?_⟩
    · intro key l hl
      have hitem := (lookup_eq_some_iff hkeys).mp hl
      refine ⟨read (key, l), ?_, (hread _ hitem).2⟩
      rw [hitems, lookup_setItems_nil hnodup]
      exact List.mem_map.mpr ⟨(key, l), (hsorted _).mpr hitem, rfl⟩
    · intro key hsome
      obtain ⟨r, hr⟩ := Option.isSome_iff_exists.mp hsome
      rw [hitems, lookup_setItems_nil hnodup] at hr
      obtain ⟨item, hitem, heq⟩ := List.mem_map.mp hr
      have hkey : item.1 = key := congrArg Prod.fst heq
      rw [(lookup_eq_some_iff hkeys).mpr (show (key, item.2) ∈ items by
        rw [← hkey]
        exact (hsorted item).mp hitem)]
      rfl

/-! ## The order of insertion does not matter -/

instance : IsTrans (Bytes × Bytes) keyLe := ⟨fun _ _ _ h h' ↦ List.le_trans h h'⟩

instance : Std.Total keyLe := ⟨fun left right ↦ List.le_total left.1 right.1⟩

theorem keys_encodeParts (items : List (Bytes × BencodeValue)) :
    (encodeParts items).map Prod.fst = items.map Prod.fst := by
  rw [encodeParts_eq, List.map_map]
  rfl

/-- The parts of a dictionary come out in one order, whatever the order they are in. -/
theorem sort_parts_eq {left right : List (Bytes × Bytes)} (hkeys : (left.map Prod.fst).Nodup)
    (h : left.Perm right) : left.insertionSort keyLe = right.insertionSort keyLe := by
  have hperm : (left.insertionSort keyLe).Perm (right.insertionSort keyLe) :=
    (List.perm_insertionSort keyLe left).trans (h.trans (List.perm_insertionSort keyLe right).symm)
  refine hperm.eq_of_pairwise ?_ (List.pairwise_insertionSort keyLe left)
    (List.pairwise_insertionSort keyLe right)
  intro part part' hpart hpart' hle hle'
  have hmem : part ∈ left := (List.mem_insertionSort keyLe).mp hpart
  have hmem' : part' ∈ left := h.mem_iff.mpr ((List.mem_insertionSort keyLe).mp hpart')
  exact List.inj_on_of_nodup_map hkeys hmem hmem' (List.le_antisymm hle hle')

theorem encode_eq_of_same {left right : BencodeValue} (hleft : left.WellFormed)
    (hright : right.WellFormed) (h : left.Same right) :
    encodeBencode left = encodeBencode right := by
  induction h with
  | int value => rfl
  | bytes value => rfl
  | @list left right hlength h ih =>
    cases hleft with
    | list hleft =>
    cases hright with
    | list hright =>
    have heach : encodeEach left = encodeEach right := by
      rw [encodeEach_eq, encodeEach_eq]
      apply List.ext_getElem
      · simpa using hlength
      · intro i hi hi'
        rw [List.length_map] at hi hi'
        rw [List.getElem_map, List.getElem_map]
        exact ih i _ _ (List.getElem?_eq_getElem hi) (List.getElem?_eq_getElem hi')
          (hleft _ (List.getElem_mem hi)) (hright _ (List.getElem_mem hi'))
    rw [encodeBencode, encodeBencode, heach]
  | @dict left right hkeys h ih =>
    cases hleft with
    | dict hleftKeys hleft =>
    cases hright with
    | dict hrightKeys hright =>
    have hvalue (key : Bytes) (l r : BencodeValue) (hl : (key, l) ∈ left) (hr : (key, r) ∈ right) :
        encodePart (key, l) = encodePart (key, r) := by
      have heq := ih key l r ((lookup_eq_some_iff hleftKeys).mpr hl)
        ((lookup_eq_some_iff hrightKeys).mpr hr) (hleft _ hl) (hright _ hr)
      rw [encodePart, encodePart, heq]
    have hperm : (encodeParts left).Perm (encodeParts right) := by
      rw [List.perm_ext_iff_of_nodup]
      · intro part
        rw [encodeParts_eq, encodeParts_eq, List.mem_map, List.mem_map]
        constructor
        · rintro ⟨⟨key, l⟩, hl, rfl⟩
          have hsome := hkeys key
          rw [(lookup_eq_some_iff hleftKeys).mpr hl] at hsome
          obtain ⟨r, hr⟩ := Option.isSome_iff_exists.mp hsome.symm
          have hmem := (lookup_eq_some_iff hrightKeys).mp hr
          exact ⟨(key, r), hmem, (hvalue key l r hl hmem).symm⟩
        · rintro ⟨⟨key, r⟩, hr, rfl⟩
          have hsome := hkeys key
          rw [(lookup_eq_some_iff hrightKeys).mpr hr] at hsome
          obtain ⟨l, hl⟩ := Option.isSome_iff_exists.mp hsome
          have hmem := (lookup_eq_some_iff hleftKeys).mp hl
          exact ⟨(key, l), hmem, hvalue key l r hmem hr⟩
      · exact List.Nodup.of_map Prod.fst (keys_encodeParts left ▸ hleftKeys)
      · exact List.Nodup.of_map Prod.fst (keys_encodeParts right ▸ hrightKeys)
    rw [encodeBencode, encodeBencode, sort_parts_eq (keys_encodeParts left ▸ hleftKeys) hperm]

/-! ## Reading back -/

theorem decodeValueAt_encode {value : BencodeValue} (h : value.WellFormed) (before after : Bytes) :
    ∃ read, decodeValueAt (before ++ encodeBencode value ++ after) before.length =
      .ok (read, before.length + (encodeBencode value).length) ∧ value.Same read := by
  obtain ⟨read, hsentence, hsame⟩ := sentence_encode h
  have hdrop : (before ++ encodeBencode value ++ after).drop before.length =
      encodeBencode value ++ after := by
    rw [List.append_assoc, List.drop_left]
  exact ⟨read, hsentence.decodeValueAt_eq (Spans.of_drop hdrop), hsame⟩

theorem decodeBencode_encode {value : BencodeValue} (h : value.WellFormed) :
    ∃ read, decodeBencode (encodeBencode value) = .ok read ∧ value.Same read := by
  obtain ⟨read, hsentence, hsame⟩ := sentence_encode h
  exact ⟨read, decodeBencode_eq_ok_iff.mpr hsentence, hsame⟩

end DhtScraper
