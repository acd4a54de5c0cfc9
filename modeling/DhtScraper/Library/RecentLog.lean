import DhtScraper.Library.OrderedMap
import Mathlib.Data.Finset.Card

/-!
# What a bounded recent map remembers

A map keeps the keys that were renewed last, up to a limit, and a key can be dropped by hand.  Its
content is read against the log of its edits: what it answers for a key is what the last edit of the
key left, and a key is only forgotten when at least as many other keys as the limit were renewed
since.
-/

namespace DhtScraper.Library

/-- One edit of a bounded recent map. -/
inductive RecentEdit (α β : Type*) where
  | renew (key : α) (value : β)
  | drop (key : α)

variable {α β : Type*} [DecidableEq α]

/-- Put a key at the end, and drop the first keys above the limit. -/
def OrderedMap.renew (m : OrderedMap α β) (k : α) (v : β) (limit : ℕ) : OrderedMap α β :=
  (m.insertLast k v).dropFirst ((m.insertLast k v).size - limit)

namespace RecentEdit

def apply (limit : ℕ) (m : OrderedMap α β) : RecentEdit α β → OrderedMap α β
  | renew key value => m.renew key value limit
  | drop key => m.erase key

/-- The map that the edits lead to. -/
def replay (limit : ℕ) (log : List (RecentEdit α β)) : OrderedMap α β :=
  log.foldl (apply limit) .empty

/-- What the last edit of the key left. -/
def standing (log : List (RecentEdit α β)) (k : α) : Option β :=
  log.foldl (fun value edit ↦ match edit with
    | renew key value' => if k = key then some value' else value
    | drop key => if k = key then none else value) none

/-- The other keys that were renewed since the key was. -/
def renewedSince (log : List (RecentEdit α β)) (k : α) : Finset α :=
  log.foldl (fun others edit ↦ match edit with
    | renew key _ => if k = key then ∅ else insert key others
    | drop _ => others) ∅

variable {limit : ℕ} {log : List (RecentEdit α β)} {k : α} {v : β}

theorem replay_concat (edit : RecentEdit α β) :
    replay limit (log ++ [edit]) = apply limit (replay limit log) edit := List.foldl_concat _ _ _ _

theorem standing_renew (key : α) (value : β) :
    standing (log ++ [renew key value]) k = if k = key then some value else standing log k :=
  List.foldl_concat _ _ _ _

theorem standing_drop (key : α) :
    standing (log ++ [drop key]) k = if k = key then none else standing log k :=
  List.foldl_concat _ _ _ _

theorem renewedSince_renew (key : α) (value : β) :
    renewedSince (log ++ [renew key value]) k =
      if k = key then ∅ else insert key (renewedSince log k) :=
  List.foldl_concat _ _ _ _

theorem renewedSince_drop (key : α) : renewedSince (log ++ [drop key]) k = renewedSince log k :=
  List.foldl_concat _ _ _ _

/-- What the map answers is what the last edit of the key left. -/
theorem standing_of_get? (h : (replay limit log).get? k = some v) : standing log k = some v := by
  induction log using List.reverseRecOn with
  | nil => exact absurd h (by simp [replay])
  | append_singleton log edit ih =>
    rw [replay_concat] at h
    cases edit with
    | renew key value =>
      have hmem := List.mem_of_mem_drop (OrderedMap.get?_eq_some_iff.mp h)
      have hget := OrderedMap.get?_eq_some_iff.mpr hmem
      rw [OrderedMap.get?_insertLast] at hget
      rw [standing_renew]
      split at hget
      next heq => rw [if_pos heq, hget]
      next hne => rw [if_neg hne, ih hget]
    | drop key =>
      have hget : ((replay limit log).erase key).get? k = some v := h
      rw [OrderedMap.get?_erase] at hget
      rw [standing_drop]
      split at hget
      next => cases hget
      next hne => rw [if_neg hne, ih hget]

/-- The item is in the map, and the keys behind it were renewed since. -/
def Placed (items : List (α × β)) (k : α) (v : β) (since : Finset α) : Prop :=
  ∃ before after, items = before ++ (k, v) :: after ∧ ∀ other ∈ after.map Prod.fst, other ∈ since

omit [DecidableEq α] in
theorem Placed.filter {items : List (α × β)} {since : Finset α} (h : Placed items k v since)
    {p : α × β → Bool} (hp : p (k, v)) : Placed (items.filter p) k v since := by
  obtain ⟨before, after, rfl, hafter⟩ := h
  refine ⟨before.filter p, after.filter p, by simp [List.filter_append, hp], ?_⟩
  exact fun other hother ↦ hafter other ((List.filter_sublist.map Prod.fst).subset hother)

theorem Placed.concat {items : List (α × β)} {since : Finset α} (h : Placed items k v since) (key : α)
    (value : β) : Placed (items ++ [(key, value)]) k v (insert key since) := by
  obtain ⟨before, after, rfl, hafter⟩ := h
  refine ⟨before, after ++ [(key, value)], by simp, fun other hother ↦ ?_⟩
  rw [List.map_append, List.mem_append] at hother
  rcases hother with hold | hnew
  · exact Finset.mem_insert_of_mem (hafter other hold)
  · exact Finset.mem_insert.mpr (Or.inl (List.mem_singleton.mp hnew))

/-- Dropping the first items above the limit spares an item with fewer keys behind it. -/
theorem Placed.drop {items : List (α × β)} {since : Finset α} (h : Placed items k v since)
    (hnodup : (items.map Prod.fst).Nodup) (limit : ℕ) :
    limit ≤ since.card ∨ Placed (items.drop (items.length - limit)) k v since := by
  obtain ⟨before, after, rfl, hafter⟩ := h
  rcases le_or_gt limit after.length with hmany | hfew
  · left
    have hkeys : (after.map Prod.fst).Nodup := by
      refine hnodup.sublist (List.Sublist.map Prod.fst ?_)
      exact (List.sublist_cons_self _ _).trans (List.sublist_append_right _ _)
    have hsubset : (after.map Prod.fst).toFinset ⊆ since :=
      fun other hother ↦ hafter other (List.mem_toFinset.mp hother)
    have hcard := Finset.card_le_card hsubset
    rw [List.toFinset_card_of_nodup hkeys, List.length_map] at hcard
    omega
  · right
    refine ⟨before.drop ((before ++ (k, v) :: after).length - limit), after, ?_, hafter⟩
    refine List.drop_append_of_le_length ?_
    rw [List.length_append, List.length_cons]
    omega

/-- A key is in its place unless too many others were renewed since. -/
theorem placed_replay (h : standing log k = some v) :
    limit ≤ (renewedSince log k).card ∨ Placed (replay limit log).items k v (renewedSince log k) := by
  induction log using List.reverseRecOn with
  | nil => cases h
  | append_singleton log edit ih =>
    rw [replay_concat]
    cases edit with
    | renew key value =>
      rw [standing_renew] at h
      rw [renewedSince_renew]
      have hdrop {since : Finset α}
          (hplaced : Placed ((replay limit log).insertLast key value).items k v since) :=
        hplaced.drop ((replay limit log).insertLast key value).nodup limit
      split
      next heq =>
        rw [if_pos heq] at h
        obtain rfl := Option.some.inj h
        exact hdrop ⟨((replay limit log).erase key).items, [], by rw [heq]; rfl, by simp⟩
      next hne =>
        rw [if_neg hne] at h
        rcases ih h with hmany | hplaced
        · exact Or.inl (hmany.trans (Finset.card_le_card (Finset.subset_insert _ _)))
        · have hkept : Placed ((replay limit log).erase key).items k v (renewedSince log k) :=
            hplaced.filter (decide_eq_true hne)
          exact hdrop (hkept.concat key value)
    | drop key =>
      rw [standing_drop] at h
      rw [renewedSince_drop]
      split at h
      next => cases h
      next hne => exact (ih h).imp id fun hplaced ↦ hplaced.filter (decide_eq_true hne)

/-- A key is remembered while fewer other keys than the limit were renewed since. -/
theorem get?_of_standing (h : standing log k = some v) (hfew : (renewedSince log k).card < limit) :
    (replay limit log).get? k = some v := by
  obtain ⟨before, after, hitems, -⟩ := (placed_replay h).resolve_left (not_le.mpr hfew)
  rw [OrderedMap.get?_eq_some_iff, hitems]
  simp

end RecentEdit

end DhtScraper.Library
