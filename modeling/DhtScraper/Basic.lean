import DhtScraper.Library.OrderedMap

/-!
# Bytes, texts, addresses

The value types shared by all components, and `remember`, the bounded recent map that the catalog
and the crawler both use.  Integers of the source are `ℤ` where they can be subtracted or come from
the network, times are exact rationals.
-/

namespace DhtScraper

open Library

abbrev Bytes := List UInt8

instance : LawfulBEq Bytes := inferInstance

/-- A string, as the list of its code points. -/
abbrev Text := List Char

/-- A host as `(ip, port)`. -/
abbrev Address := Text × ℤ

def nodeIdLength : ℕ := 20

section Remember

variable {α β : Type*} [DecidableEq α]

/-- `remember`: assign the key, move it to the end, then drop the oldest keys above the limit.  The
Boolean tells whether the key is new. -/
def remember (mapping : OrderedMap α β) (key : α) (value : β) (limit : ℕ) : OrderedMap α β × Bool :=
  let updated := mapping.insertLast key value
  (updated.dropFirst (updated.size - limit), !mapping.contains key)

/-- The two assertions of `remember`. -/
def rememberAsserts (mapping : OrderedMap α β) (key : α) (value : β) (limit : ℕ) : Prop :=
  let result := remember mapping key value limit
  1 ≤ limit ∧ (result.1.size ≤ limit ∧ result.1.contains key ∨ ¬ result.2)

instance (mapping : OrderedMap α β) (key : α) (value : β) (limit : ℕ) :
    Decidable (rememberAsserts mapping key value limit) := by
  unfold rememberAsserts
  infer_instance

theorem remember_items (mapping : OrderedMap α β) (key : α) (value : β) {limit : ℕ}
    (h : 1 ≤ limit) : ∃ older, (remember mapping key value limit).1.items = older ++ [(key, value)]
      ∧ older.Sublist (mapping.erase key).items := by
  let kept := (mapping.erase key).items
  refine ⟨kept.drop (kept.length + 1 - limit), ?_, List.drop_sublist _ _⟩
  have hle : kept.length + 1 - limit ≤ kept.length := by omega
  simp only [remember, OrderedMap.dropFirst, OrderedMap.insertLast, OrderedMap.size,
    List.length_append, List.length_singleton]
  exact List.drop_append_of_le_length hle

/-- While the keys fit the limit nothing is dropped. -/
theorem remember_of_fits (mapping : OrderedMap α β) (key : α) (value : β) {limit : ℕ}
    (h : (mapping.insertLast key value).size ≤ limit) :
    (remember mapping key value limit).1 = mapping.insertLast key value := by
  apply OrderedMap.ext
  simp [remember, OrderedMap.dropFirst, Nat.sub_eq_zero_of_le h]

theorem size_remember_le (mapping : OrderedMap α β) (key : α) (value : β) (limit : ℕ) :
    (remember mapping key value limit).1.size ≤ limit := by
  simp only [remember, OrderedMap.dropFirst, OrderedMap.size, List.length_drop]
  omega

/-- What is remembered is the new item or was there before. -/
theorem get?_remember_cases {mapping : OrderedMap α β} {key k : α} {value v : β} {limit : ℕ}
    (h : (remember mapping key value limit).1.get? k = some v) :
    k = key ∧ v = value ∨ mapping.get? k = some v := by
  have hmem := List.mem_of_mem_drop (OrderedMap.get?_eq_some_iff.mp h)
  have hget := OrderedMap.get?_eq_some_iff.mpr hmem
  rw [OrderedMap.get?_insertLast] at hget
  split at hget
  next heq => exact Or.inl ⟨heq, (Option.some.inj hget).symm⟩
  next => exact Or.inr hget

theorem remember_contains (mapping : OrderedMap α β) (key : α) (value : β) {limit : ℕ}
    (h : 1 ≤ limit) : (remember mapping key value limit).1.get? key = some value := by
  obtain ⟨older, hitems, -⟩ := remember_items mapping key value h
  rw [OrderedMap.get?_eq_some_iff, hitems]
  simp

/-- With a positive limit the assertions of `remember` hold for every mapping and key. -/
theorem remember_asserts (mapping : OrderedMap α β) (key : α) (value : β) {limit : ℕ}
    (h : 1 ≤ limit) : rememberAsserts mapping key value limit := by
  refine ⟨h, Or.inl ⟨size_remember_le _ _ _ _, ?_⟩⟩
  simp [OrderedMap.contains, remember_contains mapping key value h]

end Remember

end DhtScraper
