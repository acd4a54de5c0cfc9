import Mathlib.Data.List.Nodup
import Mathlib.Data.List.Count
import Mathlib.Tactic

/-!
# Insertion-ordered maps

A finite map that remembers the order in which its keys were first inserted, with the update
discipline of insertion-ordered dictionaries: overwriting a key keeps its position, a new key goes
to the end, and a key can be moved to either end.  Keys are distinct by construction, so a map is
determined by its list of items, lookups are membership, and `get?` of every operation is given by
one equation.

The last section counts the values that satisfy a predicate, which is how a counter kept beside a
map is related to the map's contents.
-/

namespace DhtScraper.Library

/-- A finite map whose items are listed in insertion order, each key once. -/
structure OrderedMap (α β : Type*) where
  items : List (α × β)
  nodup : (items.map Prod.fst).Nodup

namespace OrderedMap

variable {α β : Type*}

def empty : OrderedMap α β := ⟨[], List.nodup_nil⟩

instance : Inhabited (OrderedMap α β) := ⟨empty⟩

@[ext]
theorem ext {m m' : OrderedMap α β} (h : m.items = m'.items) : m = m' := by
  cases m
  cases m'
  simpa using h

instance [DecidableEq α] [DecidableEq β] : DecidableEq (OrderedMap α β) := fun m m' ↦
  decidable_of_iff (m.items = m'.items) ⟨ext, fun h ↦ h ▸ rfl⟩

def keys (m : OrderedMap α β) : List α := m.items.map Prod.fst

def values (m : OrderedMap α β) : List β := m.items.map Prod.snd

def size (m : OrderedMap α β) : ℕ := m.items.length

/-- Keep the items whose key passes the test, in their order. -/
def filterKeys (m : OrderedMap α β) (p : α → Bool) : OrderedMap α β where
  items := m.items.filter fun item ↦ p item.1
  nodup := (m.nodup.sublist (List.filter_sublist.map Prod.fst))

/-- Remove the item that was inserted first. -/
def popFirst (m : OrderedMap α β) : Option ((α × β) × OrderedMap α β) :=
  match m with
  | ⟨[], _⟩ => none
  | ⟨item :: rest, h⟩ => some (item, ⟨rest, (List.nodup_cons.mp h).2⟩)

/-- Remove the `n` items that were inserted first. -/
def dropFirst (m : OrderedMap α β) (n : ℕ) : OrderedMap α β where
  items := m.items.drop n
  nodup := m.nodup.sublist ((List.drop_sublist n _).map Prod.fst)

/-- Replace every value, depending on its key. -/
def mapValues (m : OrderedMap α β) (f : α → β → β) : OrderedMap α β where
  items := m.items.map fun item ↦ (item.1, f item.1 item.2)
  nodup := by
    rw [List.map_map]
    exact m.nodup

theorem keys_mapValues (m : OrderedMap α β) (f : α → β → β) : (m.mapValues f).keys = m.keys := by
  rw [keys, mapValues, List.map_map]
  rfl

theorem size_mapValues (m : OrderedMap α β) (f : α → β → β) : (m.mapValues f).size = m.size :=
  List.length_map _

variable [DecidableEq α]

def get? (m : OrderedMap α β) (k : α) : Option β := m.items.lookup k

def contains (m : OrderedMap α β) (k : α) : Bool := (m.get? k).isSome

/-- Remove a key; nothing happens when it is absent. -/
def erase (m : OrderedMap α β) (k : α) : OrderedMap α β := m.filterKeys fun k' ↦ k' ≠ k

theorem get?_eq_some_iff {m : OrderedMap α β} {k : α} {v : β} :
    m.get? k = some v ↔ (k, v) ∈ m.items := by
  obtain ⟨items, nodup⟩ := m
  unfold get?
  induction items with
  | nil => simp
  | cons item rest ih =>
    obtain ⟨hhead, htail⟩ := List.nodup_cons.mp nodup
    rw [List.lookup_cons]
    by_cases hk : k = item.1
    · subst hk
      have hrest : (item.1, v) ∉ rest := fun h ↦ hhead (List.mem_map.mpr ⟨_, h, rfl⟩)
      constructor
      · intro h
        simp only [BEq.rfl] at h
        injection h with h
        subst h
        exact List.mem_cons_self
      · intro h
        simp only [List.mem_cons, hrest, or_false] at h
        have hv : v = item.2 := congrArg Prod.snd h
        rw [hv]
        simp
    · have hbeq : (k == item.1) = false := by simpa using hk
      have hne : (k, v) ≠ item := fun h ↦ hk (by rw [← h])
      rw [hbeq, List.mem_cons, ih htail]
      simp only [hne, false_or]

theorem get?_eq_none_iff {m : OrderedMap α β} {k : α} : m.get? k = none ↔ k ∉ m.keys := by
  rw [Option.eq_none_iff_forall_ne_some]
  constructor
  · intro h hk
    obtain ⟨item, hitem, rfl⟩ := List.mem_map.mp hk
    exact h item.2 (get?_eq_some_iff.mpr hitem)
  · intro h v hv
    exact h (List.mem_map.mpr ⟨_, get?_eq_some_iff.mp hv, rfl⟩)

theorem get?_isSome_iff {m : OrderedMap α β} {k : α} : (m.get? k).isSome ↔ k ∈ m.keys := by
  rw [← not_iff_not, Bool.not_eq_true, Option.isSome_eq_false_iff, Option.isNone_iff_eq_none,
    get?_eq_none_iff]

theorem mem_values_iff {m : OrderedMap α β} {v : β} : v ∈ m.values ↔ ∃ k, m.get? k = some v := by
  simp [values, get?_eq_some_iff]

@[simp]
theorem get?_empty (k : α) : (empty : OrderedMap α β).get? k = none := rfl

theorem get?_filterKeys (m : OrderedMap α β) (p : α → Bool) (k : α) :
    (m.filterKeys p).get? k = if p k then m.get? k else none := by
  ext v
  by_cases hp : p k <;> simp [get?_eq_some_iff, filterKeys, hp]

@[simp]
theorem get?_erase (m : OrderedMap α β) (k k' : α) :
    (m.erase k).get? k' = if k' = k then none else m.get? k' := by
  by_cases h : k' = k <;> simp [erase, get?_filterKeys, h]

theorem get?_of_erase {m : OrderedMap α β} {k k' : α} {v : β} (h : (m.erase k).get? k' = some v) :
    m.get? k' = some v := by
  rw [get?_erase] at h
  split at h
  · cases h
  · exact h

theorem erase_eq_self {m : OrderedMap α β} {k : α} (h : m.get? k = none) : m.erase k = m := by
  refine ext (List.filter_eq_self.mpr fun item hitem ↦ ?_)
  have hne : item.1 ≠ k := fun he ↦
    get?_eq_none_iff.mp h (he ▸ List.mem_map.mpr ⟨item, hitem, rfl⟩)
  simpa using hne

omit [DecidableEq α] in
theorem popFirst_eq_none_iff {m : OrderedMap α β} : m.popFirst = none ↔ m.items = [] := by
  obtain ⟨items, nodup⟩ := m
  cases items <;> simp [popFirst]

omit [DecidableEq α] in
theorem items_of_popFirst {m rest : OrderedMap α β} {item : α × β}
    (h : m.popFirst = some (item, rest)) : m.items = item :: rest.items := by
  obtain ⟨items, nodup⟩ := m
  cases items with
  | nil => cases h
  | cons first tail =>
    simp only [popFirst, Option.some.injEq, Prod.mk.injEq] at h
    rw [← h.1, ← h.2]

omit [DecidableEq α] in
theorem size_of_popFirst {m rest : OrderedMap α β} {item : α × β}
    (h : m.popFirst = some (item, rest)) : m.size = rest.size + 1 := by
  rw [size, items_of_popFirst h]
  rfl

theorem get?_of_popFirst {m rest : OrderedMap α β} {k : α} {v : β}
    (h : m.popFirst = some ((k, v), rest)) :
    m.get? k = some v ∧ ∀ k', rest.get? k' = if k' = k then none else m.get? k' := by
  obtain ⟨items, nodup⟩ := m
  cases items with
  | nil => simp [popFirst] at h
  | cons item tail =>
    simp only [popFirst, Option.some.injEq, Prod.mk.injEq] at h
    obtain ⟨rfl, rfl⟩ := h
    have hnotin : k ∉ tail.map Prod.fst := (List.nodup_cons.mp nodup).1
    refine ⟨by simp [get?], fun k' ↦ ?_⟩
    by_cases hk : k' = k
    · subst hk
      simp only [if_true]
      exact get?_eq_none_iff.mpr hnotin
    · have hbeq : (k' == k) = false := by simpa using hk
      simp [get?, List.lookup_cons, hk, hbeq]

/-- The items at the front of a map are not in the rest of it. -/
theorem get?_eq_none_of_items {m rest : OrderedMap α β} {taken : List (α × β)}
    (h : m.items = taken ++ rest.items) {k : α} {v : β} (hmem : (k, v) ∈ taken) :
    rest.get? k = none := by
  have hnodup := m.nodup
  rw [h, List.map_append, List.nodup_append] at hnodup
  rw [get?_eq_none_iff]
  intro hk
  exact hnodup.2.2 k (List.mem_map_of_mem hmem) k hk rfl

theorem get?_eq_some_iff_of_items {m rest : OrderedMap α β} {taken : List (α × β)}
    (h : m.items = taken ++ rest.items) {k : α} {v : β} :
    m.get? k = some v ↔ (k, v) ∈ taken ∨ rest.get? k = some v := by
  rw [get?_eq_some_iff, get?_eq_some_iff, h, List.mem_append]

/-! ## Insertion -/

/-- Append a key at the end of the order, replacing an old item with that key. -/
def insertLast (m : OrderedMap α β) (k : α) (v : β) : OrderedMap α β where
  items := (m.erase k).items ++ [(k, v)]
  nodup := by
    rw [List.map_append, List.nodup_append]
    refine ⟨(m.erase k).nodup, by simp, ?_⟩
    simp [erase, filterKeys]

/-- Put a key at the front of the order, replacing an old item with that key. -/
def insertFirst (m : OrderedMap α β) (k : α) (v : β) : OrderedMap α β where
  items := (k, v) :: (m.erase k).items
  nodup := by
    rw [List.map_cons, List.nodup_cons]
    exact ⟨by simp [erase, filterKeys], (m.erase k).nodup⟩

/-- Assign a key: the position of a present key is kept, a new key is appended. -/
def insert (m : OrderedMap α β) (k : α) (v : β) : OrderedMap α β :=
  if m.contains k then
    { items := m.items.map fun item ↦ if item.1 = k then (k, v) else item
      nodup := by
        have hkeys : (m.items.map fun item ↦ if item.1 = k then (k, v) else item).map Prod.fst =
            m.items.map Prod.fst := by
          rw [List.map_map]
          refine List.map_congr_left fun item _ ↦ ?_
          by_cases h : item.1 = k <;> simp [h]
        rw [hkeys]
        exact m.nodup }
  else m.insertLast k v

/-- Insert only when the key is absent; a present key keeps its value and its position. -/
def setDefault (m : OrderedMap α β) (k : α) (v : β) : OrderedMap α β :=
  if m.contains k then m else m.insertLast k v

@[simp]
theorem get?_insertLast (m : OrderedMap α β) (k k' : α) (v : β) :
    (m.insertLast k v).get? k' = if k' = k then some v else m.get? k' := by
  ext w
  rw [get?_eq_some_iff]
  by_cases h : k' = k
  · simp [insertLast, erase, filterKeys, h, eq_comm]
  · simp [get?_eq_some_iff, insertLast, erase, filterKeys, h]

@[simp]
theorem get?_insertFirst (m : OrderedMap α β) (k k' : α) (v : β) :
    (m.insertFirst k v).get? k' = if k' = k then some v else m.get? k' := by
  ext w
  rw [get?_eq_some_iff]
  by_cases h : k' = k
  · simp [insertFirst, erase, filterKeys, h, eq_comm]
  · simp [get?_eq_some_iff, insertFirst, erase, filterKeys, h]

@[simp]
theorem get?_insert (m : OrderedMap α β) (k k' : α) (v : β) :
    (m.insert k v).get? k' = if k' = k then some v else m.get? k' := by
  unfold insert
  by_cases hc : m.contains k
  · rw [if_pos hc]
    obtain ⟨w, hw⟩ := Option.isSome_iff_exists.mp hc
    ext x
    rw [get?_eq_some_iff, List.mem_map]
    by_cases h : k' = k
    · subst h
      rw [if_pos rfl, Option.some.injEq]
      constructor
      · rintro ⟨item, -, hitem⟩
        by_cases hi : item.1 = k'
        · simpa [hi] using hitem
        · rw [if_neg hi] at hitem
          exact absurd (by rw [hitem]) hi
      · rintro rfl
        exact ⟨(k', w), get?_eq_some_iff.mp hw, by simp⟩
    · rw [if_neg h, get?_eq_some_iff]
      constructor
      · rintro ⟨item, hmem, hitem⟩
        by_cases hi : item.1 = k
        · simp [hi, Ne.symm h] at hitem
        · rw [if_neg hi] at hitem
          exact hitem ▸ hmem
      · intro hmem
        exact ⟨(k', x), hmem, by simp [h]⟩
  · rw [if_neg hc, get?_insertLast]

theorem contains_insert_self (m : OrderedMap α β) (k : α) (v : β) : (m.insert k v).contains k := by
  simp [contains]

/-- Assigning a key that is present keeps the keys. -/
theorem keys_insert_of_contains {m : OrderedMap α β} {k : α} (h : m.contains k) (v : β) :
    (m.insert k v).keys = m.keys := by
  rw [insert, if_pos h, keys, keys, List.map_map]
  refine List.map_congr_left fun item _ ↦ ?_
  by_cases hitem : item.1 = k <;> simp [hitem]

/-- A key that is absent is put last. -/
theorem keys_insert_of_get?_none {m : OrderedMap α β} {k : α} (h : m.get? k = none) (v : β) :
    (m.insert k v).keys = m.keys ++ [k] := by
  have habsent : ¬ m.contains k := by simp [contains, h]
  rw [insert, if_neg habsent, keys, insertLast]
  simp [erase_eq_self h, keys]

/-- The keys do not depend on the value that is assigned. -/
theorem keys_insert_congr (m : OrderedMap α β) (k : α) (v w : β) :
    (m.insert k v).keys = (m.insert k w).keys := by
  by_cases h : m.contains k
  · rw [keys_insert_of_contains h, keys_insert_of_contains h]
  · have hnone : m.get? k = none := by simpa [contains] using h
    rw [keys_insert_of_get?_none hnone, keys_insert_of_get?_none hnone]

/-- The keys after an assignment: the key that is assigned and the others. -/
theorem keys_insert_perm (m : OrderedMap α β) (k : α) (v : β) :
    (m.insert k v).keys.Perm (k :: (m.erase k).keys) := by
  by_cases h : m.contains k
  · have herase : (m.erase k).keys = m.keys.erase k := by
      have hnodup : m.keys.Nodup := m.nodup
      rw [hnodup.erase_eq_filter, erase, filterKeys, keys, keys, List.filter_map]
      refine congrArg (List.map Prod.fst) (List.filter_congr fun item _ ↦ ?_)
      by_cases hitem : item.1 = k <;> simp [hitem]
    rw [keys_insert_of_contains h, herase]
    exact List.perm_cons_erase (get?_isSome_iff.mp h)
  · have hnone : m.get? k = none := by simpa [contains] using h
    rw [keys_insert_of_get?_none hnone, erase_eq_self hnone]
    exact List.perm_append_comm

@[simp]
theorem get?_setDefault (m : OrderedMap α β) (k k' : α) (v : β) :
    (m.setDefault k v).get? k' = if k' = k then some ((m.get? k).getD v) else m.get? k' := by
  unfold setDefault contains
  cases hk : m.get? k with
  | none => simp
  | some w =>
    by_cases h : k' = k
    · subst h
      simp [hk]
    · simp [h]

/-- A default item is either found or put in. -/
theorem get?_setDefault_cases {m : OrderedMap α β} {k k' : α} {v w : β}
    (h : (m.setDefault k v).get? k' = some w) : m.get? k' = some w ∨ k' = k ∧ w = v := by
  rw [get?_setDefault] at h
  by_cases hk : k' = k
  · subst hk
    rw [if_pos rfl, Option.some.injEq] at h
    cases hget : m.get? k' with
    | none =>
      rw [hget] at h
      exact Or.inr ⟨rfl, h.symm⟩
    | some old =>
      rw [hget] at h
      exact Or.inl (congrArg some h)
  · rw [if_neg hk] at h
    exact Or.inl h

/-- Assigning a key the value it has changes nothing. -/
theorem insert_self {m : OrderedMap α β} {k : α} {v : β} (h : m.get? k = some v) :
    m.insert k v = m := by
  have hc : m.contains k := by simp [contains, h]
  have hmap : m.items.map (fun item ↦ if item.1 = k then (k, v) else item) = m.items := by
    refine (List.map_congr_left fun item hitem ↦ ?_).trans (List.map_id _)
    by_cases hk : item.1 = k
    · have hitem' : m.get? k = some item.2 := get?_eq_some_iff.mpr (hk ▸ hitem)
      rw [h, Option.some.injEq] at hitem'
      rw [if_pos hk, hitem', ← hk]
      rfl
    · rw [if_neg hk]
      rfl
  rw [insert, if_pos hc]
  exact ext hmap

/-- Only the items with other keys stay when a key is assigned and removed again. -/
theorem erase_insert (m : OrderedMap α β) (k : α) (v : β) : (m.insert k v).erase k = m.erase k := by
  apply ext
  by_cases hc : m.contains k
  · rw [insert, if_pos hc]
    simp only [erase, filterKeys]
    rw [List.filter_map]
    have hsame : ((fun item : α × β ↦ decide (item.1 ≠ k)) ∘
        fun item : α × β ↦ if item.1 = k then (k, v) else item) =
          fun item ↦ decide (item.1 ≠ k) := by
      funext item
      by_cases hk : item.1 = k <;> simp [hk]
    rw [hsame]
    refine (List.map_congr_left fun item hitem ↦ ?_).trans (List.map_id _)
    have hk : item.1 ≠ k := by simpa using (List.mem_filter.mp hitem).2
    rw [if_neg hk]
    rfl
  · rw [insert, if_neg hc]
    simp [erase, filterKeys, insertLast, List.filter_append]

/-! ## Replacing the values -/

theorem get?_mapValues (m : OrderedMap α β) (f : α → β → β) (k : α) :
    (m.mapValues f).get? k = (m.get? k).map (f k) := by
  ext v
  rw [Option.map_eq_some_iff, get?_eq_some_iff]
  simp only [mapValues, List.mem_map, Prod.mk.injEq, get?_eq_some_iff]
  constructor
  · rintro ⟨item, hmem, rfl, rfl⟩
    exact ⟨item.2, hmem, rfl⟩
  · rintro ⟨v', hmem, rfl⟩
    exact ⟨(k, v'), hmem, rfl, rfl⟩

theorem contains_mapValues (m : OrderedMap α β) (f : α → β → β) (k : α) :
    (m.mapValues f).contains k = m.contains k := by
  rw [contains, get?_mapValues, Option.isSome_map, contains]

theorem erase_mapValues (m : OrderedMap α β) (f : α → β → β) (k : α) :
    (m.mapValues f).erase k = (m.erase k).mapValues f := by
  ext1
  simp only [erase, filterKeys, mapValues, List.filter_map]
  rfl

/-- An assignment after a replacement, when both replacements agree on the other keys. -/
theorem insert_mapValues (m : OrderedMap α β) {f g : α → β → β} {k : α} {v w : β}
    (hsame : ∀ k', k' ≠ k → f k' = g k') (hnew : g k v = w) :
    (m.mapValues f).insert k w = (m.insert k v).mapValues g := by
  have hrest : (m.erase k).mapValues f = (m.erase k).mapValues g := by
    ext1
    refine List.map_congr_left fun item hitem ↦ ?_
    have hne : item.1 ≠ k := of_decide_eq_true (List.mem_filter.mp hitem).2
    rw [hsame item.1 hne]
  by_cases hc : m.contains k
  · rw [insert, contains_mapValues, if_pos hc, insert, if_pos hc]
    ext1
    simp only [mapValues, List.map_map]
    refine List.map_congr_left fun item _ ↦ ?_
    by_cases hk : item.1 = k
    · simp [hk, hnew]
    · simp [hk, hsame item.1 hk]
  · rw [insert, contains_mapValues, if_neg hc, insert, if_neg hc]
    ext1
    simp only [insertLast, erase_mapValues, hrest]
    simp [mapValues, hnew]

theorem size_eq_zero_iff {m : OrderedMap α β} : m.size = 0 ↔ ∀ k, m.get? k = none := by
  rw [size, List.length_eq_zero_iff]
  constructor
  · intro h k
    rw [get?_eq_none_iff, keys, h]
    exact List.not_mem_nil
  · intro h
    rw [List.eq_nil_iff_forall_not_mem]
    intro item hitem
    have hget := get?_eq_some_iff.mpr hitem
    rw [h] at hget
    cases hget

theorem size_ne_zero_of_contains {m : OrderedMap α β} {k : α} (h : m.contains k) : m.size ≠ 0 := by
  intro hsize
  rw [contains, size_eq_zero_iff.mp hsize k] at h
  cases h

theorem size_insert_of_absent {m : OrderedMap α β} {k : α} (v : β) (h : m.get? k = none) :
    (m.insert k v).size = m.size + 1 := by
  have hc : ¬m.contains k := by simp [contains, h]
  have hitems : (m.erase k).items = m.items := by rw [erase_eq_self h]
  rw [insert, if_neg hc]
  simp [size, insertLast, hitems]

theorem size_insert_le (m : OrderedMap α β) (k : α) (v : β) : (m.insert k v).size ≤ m.size + 1 := by
  by_cases hc : m.contains k
  · rw [insert, if_pos hc]
    simp [size]
  · rw [size_insert_of_absent v (by simpa [contains] using hc)]

theorem size_erase_le (m : OrderedMap α β) (k : α) : (m.erase k).size ≤ m.size :=
  List.length_filter_le _ _

theorem size_erase_lt {m : OrderedMap α β} {k : α} {v : β} (h : m.get? k = some v) :
    (m.erase k).size < m.size := by
  apply List.length_filter_lt_length_iff_exists.mpr
  exact ⟨(k, v), get?_eq_some_iff.mp h, by simp⟩

theorem size_insertLast_le (m : OrderedMap α β) (k : α) (v : β) :
    (m.insertLast k v).size ≤ m.size + 1 := by
  have h := m.size_erase_le k
  simp only [size] at h
  simp only [size, insertLast, List.length_append, List.length_singleton]
  omega

/-! ## Counting values

The values of a map are compared with a counter that an implementation maintains by hand.
-/

/-- A map whose items are items of another one with a tested value is no larger than their number. -/
theorem size_le_countP {m m' : OrderedMap α β} {p : β → Bool}
    (h : ∀ k v, m.get? k = some v → m'.get? k = some v ∧ p v) : m.size ≤ m'.values.countP p := by
  have hsub : m.items ⊆ m'.items.filter fun item ↦ p item.2 := by
    intro item hitem
    obtain ⟨hget, hp⟩ := h item.1 item.2 (get?_eq_some_iff.mpr hitem)
    exact List.mem_filter.mpr ⟨get?_eq_some_iff.mp hget, hp⟩
  have hle := (List.subperm_of_subset m.nodup.of_map hsub).length_le
  rw [values, List.countP_map, List.countP_eq_length_filter]
  exact hle

/-- Removing a present key removes exactly its value from the count. -/
theorem countP_values_erase (m : OrderedMap α β) (p : β → Bool) {k : α} {v : β}
    (h : m.get? k = some v) :
    (m.erase k).values.countP p + (if p v then 1 else 0) = m.values.countP p := by
  obtain ⟨items, nodup⟩ := m
  rw [get?_eq_some_iff] at h
  simp only [values, erase, filterKeys]
  induction items with
  | nil => simp at h
  | cons item rest ih =>
    obtain ⟨hhead, htail⟩ := List.nodup_cons.mp nodup
    by_cases hk : item.1 = k
    · have hitem : item = (k, v) := by
        rcases List.mem_cons.mp h with h | h
        · exact h.symm
        · exact absurd (List.mem_map.mpr ⟨_, h, rfl⟩) (hk ▸ hhead)
      have hrest : rest.filter (fun item ↦ decide (item.1 ≠ k)) = rest := by
        refine List.filter_eq_self.mpr fun other hother ↦ ?_
        have hne : other.1 ≠ k := fun he ↦
          hhead (hk ▸ he ▸ List.mem_map.mpr ⟨other, hother, rfl⟩)
        simpa using hne
      subst hitem
      have hdrop : ((k, v) :: rest).filter (fun item ↦ decide (item.1 ≠ k)) = rest := by
        rw [List.filter_cons_of_neg (by simp), hrest]
      rw [hdrop, List.map_cons, List.countP_cons]
    · have hmem : (k, v) ∈ rest := by
        rcases List.mem_cons.mp h with h | h
        · exact absurd (by rw [← h]) hk
        · exact h
      have hrec := ih htail hmem
      have hkeep : (item :: rest).filter (fun item ↦ decide (item.1 ≠ k)) =
          item :: rest.filter (fun item ↦ decide (item.1 ≠ k)) :=
        List.filter_cons_of_pos (by simpa using hk)
      rw [hkeep, List.map_cons, List.map_cons, List.countP_cons, List.countP_cons]
      omega

/-- Appending an absent key adds exactly its value to the count. -/
theorem countP_values_insertLast (m : OrderedMap α β) (p : β → Bool) {k : α} (v : β)
    (h : m.get? k = none) :
    (m.insertLast k v).values.countP p = m.values.countP p + (if p v then 1 else 0) := by
  have hself : (m.erase k).items = m.items := congrArg items (erase_eq_self h)
  simp [values, insertLast, hself, List.countP_append]

/-- A predicate that changes at one value only, stored under one key only, changes the count at
most by that value. -/
theorem countP_values_update (m : OrderedMap α β) (p p' : β → Bool) {k : α} {v : β}
    (h : m.get? k = some v) (hunique : ∀ k', m.get? k' = some v → k' = k)
    (hsame : ∀ w, w ≠ v → p' w = p w) :
    m.values.countP p' + (if p v then 1 else 0) =
      m.values.countP p + (if p' v then 1 else 0) := by
  have hrest : (m.erase k).values.countP p' = (m.erase k).values.countP p := by
    refine List.countP_congr fun w hw ↦ ?_
    obtain ⟨k', hk'⟩ := mem_values_iff.mp hw
    rw [get?_erase] at hk'
    by_cases he : k' = k
    · simp [he] at hk'
    · rw [if_neg he] at hk'
      have hne : w ≠ v := fun hwv ↦ he (hunique k' (hwv ▸ hk'))
      rw [hsame w hne]
  have hp := m.countP_values_erase p h
  have hp' := m.countP_values_erase p' h
  omega

theorem perm_insert (m : OrderedMap α β) (k : α) (v : β) :
    (m.insert k v).items.Perm ((k, v) :: (m.erase k).items) := by
  have hcons : ((k, v) :: (m.erase k).items).Nodup := (m.insertFirst k v).nodup.of_map
  rw [List.perm_ext_iff_of_nodup (m.insert k v).nodup.of_map hcons]
  intro item
  rw [← get?_eq_some_iff, get?_insert, List.mem_cons, ← get?_eq_some_iff, get?_erase]
  by_cases hk : item.1 = k
  · rw [if_pos hk, if_pos hk, Option.some.injEq, ← hk]
    constructor
    · exact fun hv ↦ Or.inl (by rw [hv])
    · rintro (heq | hnone)
      · exact congrArg Prod.snd heq.symm
      · cases hnone
  · rw [if_neg hk, if_neg hk]
    exact ⟨Or.inr, fun h ↦ h.resolve_left fun heq ↦ hk (congrArg Prod.fst heq)⟩

theorem values_insert_perm (m : OrderedMap α β) (k : α) (v : β) :
    (m.insert k v).values.Perm (v :: (m.erase k).values) := (m.perm_insert k v).map Prod.snd

theorem values_perm {m : OrderedMap α β} {k : α} {v : β} (h : m.get? k = some v) :
    m.values.Perm (v :: (m.erase k).values) := by
  have hperm := m.values_insert_perm k v
  rwa [insert_self h] at hperm

/-- A sum over the values, when one of them is assigned. -/
theorem sum_values_insert {M : Type*} [AddCommMonoid M] (m : OrderedMap α β) (f : β → M) (k : α)
    (v : β) : ((m.insert k v).values.map f).sum = f v + ((m.erase k).values.map f).sum := by
  have hperm := ((m.perm_insert k v).map Prod.snd).map f
  rw [values, hperm.sum_eq]
  rfl

/-- A sum over the values, when one of them is taken out. -/
theorem sum_values_erase {M : Type*} [AddCommMonoid M] (m : OrderedMap α β) (f : β → M) {k : α}
    {v : β} (h : m.get? k = some v) :
    (m.values.map f).sum = f v + ((m.erase k).values.map f).sum := by
  rw [← sum_values_insert, insert_self h]

omit [DecidableEq α] in
/-- A sum over the values is kept when what is summed is kept of each value. -/
theorem sum_values_mapValues {M : Type*} [AddCommMonoid M] (m : OrderedMap α β) {g : α → β → β}
    {f : β → M} (hf : ∀ k v, f (g k v) = f v) :
    ((m.mapValues g).values.map f).sum = (m.values.map f).sum := by
  rw [values, values, mapValues, List.map_map, List.map_map, List.map_map]
  exact congrArg List.sum (List.map_congr_left fun item _ ↦ hf item.1 item.2)

/-- Items that add nothing to a sum can be taken out. -/
theorem sum_values_filterKeys {M : Type*} [AddCommMonoid M] (m : OrderedMap α β) {p : α → Bool}
    {f : β → M} (hf : ∀ k v, m.get? k = some v → p k = false → f v = 0) :
    ((m.filterKeys p).values.map f).sum = (m.values.map f).sum := by
  have hzero : ∀ item ∈ m.items, p item.1 = false → f item.2 = 0 := fun item hitem ↦
    hf item.1 item.2 (get?_eq_some_iff.mpr hitem)
  rw [values, values, List.map_map, List.map_map]
  change ((m.items.filter fun item ↦ p item.1).map (f ∘ Prod.snd)).sum = _
  revert hzero
  induction m.items with
  | nil => exact fun _ ↦ rfl
  | cons item rest ih =>
    intro hzero
    have hrest := ih fun other hother ↦ hzero other (List.mem_cons_of_mem _ hother)
    by_cases hp : p item.1
    · rw [List.filter_cons, if_pos hp, List.map_cons, List.map_cons, List.sum_cons,
        List.sum_cons, hrest]
    · have hnone : (f ∘ Prod.snd) item = 0 :=
        hzero item List.mem_cons_self (Bool.not_eq_true _ ▸ hp)
      rw [List.filter_cons, if_neg hp, List.map_cons, List.sum_cons, hnone, zero_add, hrest]

omit [DecidableEq α] in
theorem sum_values_filterKeys_le (m : OrderedMap α β) (p : α → Bool) (f : β → ℕ) :
    ((m.filterKeys p).values.map f).sum ≤ (m.values.map f).sum :=
  ((List.filter_sublist.map Prod.snd).map f).sum_le_sum fun _ _ ↦ Nat.zero_le _

/-- Assigning a key of an absent item adds exactly its value to a count. -/
theorem countP_values_insert (m : OrderedMap α β) (p : β → Bool) {k : α} (v : β)
    (h : m.get? k = none) :
    (m.insert k v).values.countP p = m.values.countP p + (if p v then 1 else 0) := by
  have hc : ¬m.contains k := by simp [contains, h]
  rw [insert, if_neg hc]
  exact m.countP_values_insertLast p v h

/-- Assigning a key adds at most its value to a count. -/
theorem countP_values_insert_le (m : OrderedMap α β) (p : β → Bool) (k : α) (v : β) :
    (m.insert k v).values.countP p ≤ m.values.countP p + (if p v then 1 else 0) := by
  have hperm := ((m.perm_insert k v).map Prod.snd).countP_eq p
  have hrest : (m.erase k).values.countP p ≤ m.values.countP p :=
    (List.filter_sublist.map Prod.snd).countP_le
  rw [List.map_cons, List.countP_cons] at hperm
  calc (m.insert k v).values.countP p
      = (m.erase k).values.countP p + (if p v then 1 else 0) := hperm
    _ ≤ m.values.countP p + (if p v then 1 else 0) := Nat.add_le_add_right hrest _

/-- When the values name their keys, a value occurs at most once. -/
theorem count_values [DecidableEq β] (m : OrderedMap α β) {f : β → α}
    (hf : ∀ k v, m.get? k = some v → f v = k) (v : β) :
    m.values.count v = if m.get? (f v) = some v then 1 else 0 := by
  have hzero : ∀ m' : OrderedMap α β, (∀ k, m'.get? k ≠ some v) → m'.values.count v = 0 := by
    intro m' hnone
    rw [List.count_eq_zero]
    intro hmem
    obtain ⟨k, hk⟩ := mem_values_iff.mp hmem
    exact hnone k hk
  split
  case isTrue hget =>
    have herase := m.countP_values_erase (fun w ↦ w == v) hget
    have hgone : (m.erase (f v)).values.count v = 0 := by
      apply hzero
      intro k hk
      rw [get?_erase] at hk
      split at hk
      next => cases hk
      next hne => exact hne (hf k v hk).symm
    rw [List.count] at hgone ⊢
    rw [hgone, beq_self_eq_true, if_pos rfl] at herase
    exact herase.symm
  case isFalse hget =>
    apply hzero
    intro k hk
    rw [hf k v hk] at hget
    exact hget hk

end OrderedMap

end DhtScraper.Library
