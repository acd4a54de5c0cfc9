import Mathlib.Algebra.BigOperators.Group.Finset.Basic
import Mathlib.Algebra.Order.BigOperators.Group.Finset
import Mathlib.Tactic

/-!
# Sums over owned accounts

Accounts are numbered in the order of their creation and each belongs to an owner.  `tally` sums a
quantity over the accounts of one owner; it follows the changes of single accounts and the creation
of new ones.  Parcels are amounts addressed to accounts: what has been sent to an owner is the tally
of what has been sent to its accounts.
-/

namespace DhtScraper.Library

variable {α ι M : Type*} [DecidableEq α] [AddCommGroup M]

/-- The sum of `value` over the first `n` accounts that belong to `h`. -/
def tally (n : ℕ) (owner : ℕ → α) (value : ℕ → M) (h : α) : M :=
  ∑ r ∈ Finset.range n, if owner r = h then value r else 0

theorem tally_congr {n : ℕ} {owner owner' : ℕ → α} {value value' : ℕ → M} {h : α}
    (howner : ∀ r < n, owner' r = owner r) (hvalue : ∀ r < n, owner r = h → value' r = value r) :
    tally n owner' value' h = tally n owner value h := by
  apply Finset.sum_congr rfl
  intro r hr
  have hlt := Finset.mem_range.mp hr
  rw [howner r hlt]
  by_cases hh : owner r = h
  · rw [if_pos hh, if_pos hh, hvalue r hlt hh]
  · rw [if_neg hh, if_neg hh]

theorem tally_succ (n : ℕ) (owner : ℕ → α) (value : ℕ → M) (h : α) :
    tally (n + 1) owner value h = tally n owner value h + if owner n = h then value n else 0 :=
  Finset.sum_range_succ _ n

theorem tally_add (n : ℕ) (owner : ℕ → α) (value value' : ℕ → M) (h : α) :
    tally n owner (fun r ↦ value r + value' r) h = tally n owner value h + tally n owner value' h := by
  unfold tally
  rw [← Finset.sum_add_distrib]
  apply Finset.sum_congr rfl
  intro r _
  split <;> simp

/-- When one account changes, the tally of its owner changes by the difference. -/
theorem tally_change {n : ℕ} {owner : ℕ → α} (value : ℕ → M) {value' : ℕ → M} {r : ℕ} (hr : r < n)
    (hother : ∀ r' ≠ r, value' r' = value r') (h : α) :
    tally n owner value' h =
      tally n owner value h + if owner r = h then value' r - value r else 0 := by
  have hmem : r ∈ Finset.range n := Finset.mem_range.mpr hr
  have hrest : ∑ r' ∈ (Finset.range n).erase r, (if owner r' = h then value' r' else 0) =
      ∑ r' ∈ (Finset.range n).erase r, if owner r' = h then value r' else 0 := by
    apply Finset.sum_congr rfl
    intro r' hr'
    rw [hother r' (Finset.ne_of_mem_erase hr')]
  unfold tally
  rw [← Finset.add_sum_erase _ _ hmem, ← Finset.add_sum_erase _ _ hmem, hrest]
  by_cases hh : owner r = h
  · simp only [hh, if_true]
    abel
  · simp only [hh, if_false]
    abel

theorem tally_le [PartialOrder M] [IsOrderedAddMonoid M] {n : ℕ} {owner : ℕ → α}
    {value value' : ℕ → M} {h : α} (hle : ∀ r < n, owner r = h → value r ≤ value' r) :
    tally n owner value h ≤ tally n owner value' h := by
  apply Finset.sum_le_sum
  intro r hr
  by_cases hh : owner r = h
  · rw [if_pos hh, if_pos hh]
    exact hle r (Finset.mem_range.mp hr) hh
  · rw [if_neg hh, if_neg hh]

/-- A tally of nonnegative values is at least the sum over some of the accounts. -/
theorem sum_le_tally [PartialOrder M] [IsOrderedAddMonoid M] {n : ℕ} {owner : ℕ → α}
    {value : ℕ → M} {h : α} {accounts : Finset ℕ} (hlt : ∀ r ∈ accounts, r < n)
    (hvalue : ∀ r < n, 0 ≤ value r) :
    ∑ r ∈ accounts with owner r = h, value r ≤ tally n owner value h := by
  rw [tally, ← Finset.sum_filter]
  apply Finset.sum_le_sum_of_subset_of_nonneg
  · apply Finset.filter_subset_filter
    exact fun r hr ↦ Finset.mem_range.mpr (hlt r hr)
  · intro r hr _
    exact hvalue r (Finset.mem_range.mp (Finset.mem_filter.mp hr).1)

/-! ## Parcels -/

/-- The amount that the parcels bring to the account `r`. -/
def sentTo (account : ι → ℕ) (amount : ι → M) (parcels : List ι) (r : ℕ) : M :=
  ((parcels.filter fun parcel ↦ account parcel = r).map amount).sum

@[simp]
theorem sentTo_nil (account : ι → ℕ) (amount : ι → M) (r : ℕ) : sentTo account amount [] r = 0 := rfl

theorem sentTo_cons (account : ι → ℕ) (amount : ι → M) (parcel : ι) (parcels : List ι) (r : ℕ) :
    sentTo account amount (parcel :: parcels) r =
      (if r = account parcel then amount parcel else 0) + sentTo account amount parcels r := by
  by_cases hr : account parcel = r
  · simp [sentTo, hr]
  · simp [sentTo, hr, Ne.symm hr]

theorem sentTo_eq_zero {account : ι → ℕ} {amount : ι → M} {parcels : List ι} {r : ℕ}
    (hnone : r ∉ parcels.map account) : sentTo account amount parcels r = 0 := by
  have hfilter : (parcels.filter fun parcel ↦ account parcel = r) = [] := by
    rw [List.filter_eq_nil_iff]
    intro parcel hparcel
    simpa using fun heq : account parcel = r ↦ hnone (heq ▸ List.mem_map_of_mem hparcel)
  simp [sentTo, hfilter]

/-- An account that is addressed once gets just that parcel. -/
theorem sentTo_eq_amount {account : ι → ℕ} {amount : ι → M} {parcels : List ι}
    (hnodup : (parcels.map account).Nodup) {parcel : ι} (hparcel : parcel ∈ parcels) :
    sentTo account amount parcels (account parcel) = amount parcel := by
  induction parcels with
  | nil => cases hparcel
  | cons first rest ih =>
    obtain ⟨hfirst, hrest⟩ := List.nodup_cons.mp hnodup
    rw [sentTo_cons]
    rcases List.mem_cons.mp hparcel with rfl | hmem
    · rw [if_pos rfl, sentTo_eq_zero hfirst, add_zero]
    · have hne : account parcel ≠ account first := fun heq ↦
        hfirst (heq ▸ List.mem_map_of_mem hmem)
      rw [if_neg hne, zero_add, ih hrest hmem]

/-- What an owner was sent is the tally of what its accounts were sent. -/
theorem tally_sentTo {n : ℕ} {owner : ℕ → α} {account : ι → ℕ} {amount : ι → M} {parcels : List ι}
    (hlt : ∀ parcel ∈ parcels, account parcel < n) (h : α) :
    tally n owner (sentTo account amount parcels) h =
      ((parcels.filter fun parcel ↦ owner (account parcel) = h).map amount).sum := by
  induction parcels with
  | nil => simp [tally]
  | cons first rest ih =>
    have hrest := ih fun parcel hparcel ↦ hlt parcel (List.mem_cons_of_mem _ hparcel)
    have hfirst := hlt first List.mem_cons_self
    have hone : tally n owner (fun r ↦ if r = account first then amount first else 0) h =
        if owner (account first) = h then amount first else 0 := by
      have hzero : tally n owner (fun _ ↦ (0 : M)) h = 0 := by simp [tally]
      rw [tally_change (fun _ ↦ (0 : M)) hfirst (fun r' hne ↦ if_neg hne), hzero, zero_add,
        if_pos rfl, sub_zero]
    calc tally n owner (sentTo account amount (first :: rest)) h
        = tally n owner (fun r ↦ (if r = account first then amount first else 0) +
            sentTo account amount rest r) h := by
          simp only [← sentTo_cons]
      _ = (if owner (account first) = h then amount first else 0) +
            ((rest.filter fun parcel ↦ owner (account parcel) = h).map amount).sum := by
          rw [tally_add, hone, hrest]
      _ = _ := by by_cases hh : owner (account first) = h <;> simp [hh]

/-! ## Translating parcels -/

/-- A translation that may fail at single items succeeds on a list when it succeeds on each item. -/
theorem forall₂_of_mapM {κ : Type*} {f : ι → Option κ} {items : List ι} {results : List κ}
    (h : items.mapM f = some results) : List.Forall₂ (fun item result ↦ f item = some result)
      items results := by
  induction items generalizing results with
  | nil =>
    rw [List.mapM_nil] at h
    cases h
    exact List.Forall₂.nil
  | cons item rest ih =>
    simp only [List.mapM_cons, Option.bind_eq_bind, Option.bind_eq_some_iff] at h
    obtain ⟨result, hresult, results', hresults, heq⟩ := h
    cases heq
    exact List.Forall₂.cons hresult (ih hresults)

/-- A list is translated when each of its items is. -/
theorem isSome_mapM {κ : Type*} {f : ι → Option κ} {items : List ι}
    (h : ∀ item ∈ items, (f item).isSome) : (items.mapM f).isSome := by
  induction items with
  | nil => rfl
  | cons item rest ih =>
    obtain ⟨result, hresult⟩ := Option.isSome_iff_exists.mp (h item List.mem_cons_self)
    obtain ⟨results, hresults⟩ := Option.isSome_iff_exists.mp
      (ih fun other hother ↦ h other (List.mem_cons_of_mem _ hother))
    rw [List.mapM_cons, hresult, hresults]
    rfl

/-- An item of a translated list has a translation in it. -/
theorem exists_of_forall₂ {κ : Type*} {R : ι → κ → Prop} {items : List ι} {results : List κ}
    (h : List.Forall₂ R items results) {item : ι} (hitem : item ∈ items) :
    ∃ result ∈ results, R item result := by
  induction h with
  | nil => cases hitem
  | cons hfirst _ ih =>
    rcases List.mem_cons.mp hitem with rfl | hrest
    · exact ⟨_, List.mem_cons_self, hfirst⟩
    · obtain ⟨result, hresult, hr⟩ := ih hrest
      exact ⟨result, List.mem_cons_of_mem _ hresult, hr⟩

/-- Parcels that are translated one by one keep their owners' shares. -/
theorem sum_filter_of_forall₂ {κ : Type*} {owner : ι → α} {owner' : κ → α} {amount : ι → M}
    {amount' : κ → M} {parcels : List ι} {parcels' : List κ}
    (h : List.Forall₂ (fun parcel parcel' ↦
      owner' parcel' = owner parcel ∧ amount' parcel' = amount parcel) parcels parcels') (x : α) :
    ((parcels'.filter fun parcel ↦ owner' parcel = x).map amount').sum =
      ((parcels.filter fun parcel ↦ owner parcel = x).map amount).sum := by
  induction h with
  | nil => rfl
  | @cons parcel parcel' _ _ hfirst hrest ih =>
    obtain ⟨howner, hamount⟩ := hfirst
    by_cases hx : owner' parcel' = x
    · rw [List.filter_cons_of_pos (by simpa using hx),
        List.filter_cons_of_pos (by simpa [← howner] using hx), List.map_cons, List.map_cons,
        List.sum_cons, List.sum_cons, ih, hamount]
    · rw [List.filter_cons_of_neg (by simpa using hx),
        List.filter_cons_of_neg (by simpa [← howner] using hx), ih]

end DhtScraper.Library
