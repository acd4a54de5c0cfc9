import Mathlib.Data.List.Sort
import Mathlib.Tactic

/-!
# Selecting the first elements of a stable order

`takeFirst r n l` is the list of the first `n` elements of `l` after a stable sort by `r`.  With
`r` a comparison of keys this is the usual "n smallest" selection, and with the converse comparison
the "n largest" one; equal keys keep their order of appearance in both.  `byKeys` compares by several
keys, the later ones deciding ties.
-/

namespace DhtScraper.Library

variable {α : Type*} (r : α → α → Prop) [DecidableRel r]

def takeFirst (n : ℕ) (l : List α) : List α := (l.insertionSort r).take n

theorem mem_of_mem_takeFirst {n : ℕ} {l : List α} {x : α} (h : x ∈ takeFirst r n l) : x ∈ l :=
  (List.mem_insertionSort r).mp (List.mem_of_mem_take h)

theorem nodup_takeFirst {n : ℕ} {l : List α} (h : l.Nodup) : (takeFirst r n l).Nodup :=
  ((List.perm_insertionSort r l).nodup_iff.mpr h).sublist (List.take_sublist _ _)

theorem length_takeFirst (n : ℕ) (l : List α) : (takeFirst r n l).length = min n l.length := by
  simp [takeFirst, List.length_insertionSort]

/-! ## Selecting among the elements with a property -/

theorem filter_orderedInsert [IsTrans α r] (p : α → Bool) (x : α) {l : List α}
    (h : l.Pairwise r) : (l.orderedInsert r x).filter p =
      if p x then (l.filter p).orderedInsert r x else l.filter p := by
  induction l with
  | nil => by_cases hx : p x <;> simp [hx]
  | cons y l ih =>
    rw [List.pairwise_cons] at h
    by_cases hxy : r x y
    · rw [List.orderedInsert_cons_of_le r l hxy, List.filter_cons]
      -- everything behind `y` is behind `x` as well
      have hfirst : ((y :: l).filter p).orderedInsert r x = x :: (y :: l).filter p := by
        cases hrest : (y :: l).filter p with
        | nil => rfl
        | cons z rest =>
          apply List.orderedInsert_cons_of_le
          have hmem : z ∈ y :: l := List.mem_of_mem_filter (hrest ▸ List.mem_cons_self)
          rcases List.mem_cons.mp hmem with heq | htail
          · exact heq ▸ hxy
          · exact IsTrans.trans x y z hxy (h.1 z htail)
      rw [hfirst]
    · rw [List.orderedInsert_of_not_le r l hxy, List.filter_cons, List.filter_cons, ih h.2]
      by_cases hy : p y
      · simp only [hy, if_true]
        rw [List.orderedInsert_of_not_le r _ hxy]
        split <;> rfl
      · simp only [hy, if_false, Bool.false_eq_true]

/-- A stable sort does not depend on the elements that are left out. -/
theorem filter_insertionSort [Std.Total r] [IsTrans α r] (p : α → Bool) (l : List α) :
    (l.insertionSort r).filter p = (l.filter p).insertionSort r := by
  induction l with
  | nil => rfl
  | cons x l ih =>
    rw [List.insertionSort_cons, filter_orderedInsert r p x (List.pairwise_insertionSort r l), ih,
      List.filter_cons]
    split <;> rfl

/-- An element is among the first `n` that have the property when fewer than `n` of them stand
before it. -/
theorem mem_take_filter_iff [DecidableEq α] (p : α → Bool) (x : α) (n : ℕ) (l : List α) :
    x ∈ (l.filter p).take n ↔ x ∈ l ∧ p x ∧ ((l.takeWhile (· ≠ x)).filter p).length < n := by
  induction l generalizing n with
  | nil => simp
  | cons y l ih =>
    by_cases hyx : y = x
    · subst hyx
      by_cases hy : p y
      · cases n with
        | zero => simp [hy]
        | succ n => simp [hy]
      · have hnot : y ∉ (l.filter p).take n := fun hmem ↦
          hy (List.of_mem_filter (List.mem_of_mem_take hmem))
        simp [hy, hnot]
    · have hne : x ≠ y := Ne.symm hyx
      by_cases hy : p y
      · cases n with
        | zero => simp
        | succ n => simp [hyx, hne, hy, ih]
      · simp [hyx, hne, hy, ih]

/-- When at most `k` elements are left out, a selection of `n` holds `n - k` of the others. -/
theorem take_filter_take (p : α → Bool) {n k : ℕ} {l : List α}
    (h : (l.filter fun x ↦ !p x).length ≤ k) :
    ((l.take n).filter p).take (n - k) = (l.filter p).take (n - k) := by
  have hsplit : l.filter p = (l.take n).filter p ++ (l.drop n).filter p := by
    rw [← List.filter_append, List.take_append_drop]
  by_cases hlong : n - k ≤ ((l.take n).filter p).length
  · rw [hsplit, List.take_append_of_le_length hlong]
  · have hcount : (l.take n).length = ((l.take n).filter p).length +
        ((l.take n).filter fun x ↦ !p x).length := List.length_eq_length_filter_add p
    have hout : ((l.take n).filter fun x ↦ !p x).length ≤ k :=
      (((List.take_sublist n l).filter _).length_le).trans h
    have hshort : l.length ≤ n := by
      rw [List.length_take] at hcount
      omega
    rw [List.take_of_length_le hshort]

theorem filter_append_filter_of_pairwise (p : α → Bool) {l : List α}
    (h : l.Pairwise fun x y ↦ p y → p x) : l.filter p ++ l.filter (fun x ↦ !p x) = l := by
  induction l with
  | nil => rfl
  | cons x l ih =>
    rw [List.pairwise_cons] at h
    by_cases hx : p x
    · simp only [List.filter_cons, hx, if_true, Bool.not_true, Bool.false_eq_true, if_false,
        List.cons_append, ih h.2]
    · have hnone : l.filter p = [] := List.filter_eq_nil_iff.mpr fun y hy hp ↦ hx (h.1 y hy hp)
      have hall : l.filter (fun y ↦ !p y) = l := List.filter_eq_self.mpr fun y hy ↦ by
        simpa using fun hp ↦ hx (h.1 y hy hp)
      simp [hx, hnone, hall]

/-- Elements that come in order already and rank before all the others stand in front of the sorted
others. -/
theorem insertionSort_eq_append [Std.Total r] [IsTrans α r] (p : α → Bool) {l : List α}
    (hsorted : (l.filter p).Pairwise r)
    (hbefore : ∀ x ∈ l, ∀ y ∈ l, p x → ¬ p y → ¬ r y x) :
    l.insertionSort r = l.filter p ++ (l.filter fun x ↦ !p x).insertionSort r := by
  have horder : (l.insertionSort r).Pairwise fun x y ↦ p y → p x := by
    refine (List.pairwise_insertionSort r l).imp_of_mem fun {x y} hx hy hxy hp ↦ ?_
    by_contra hnot
    exact hbefore y ((List.mem_insertionSort r).mp hy) x ((List.mem_insertionSort r).mp hx) hp
      hnot hxy
  rw [← filter_append_filter_of_pairwise p horder, filter_insertionSort, filter_insertionSort,
    hsorted.insertionSort_eq]

/-! ## Selections of selections -/

theorem insertionSort_congr [Std.Total r] [IsTrans α r] {l l' : List α}
    (hkeys : ∀ x ∈ l, ∀ y ∈ l, r x y → r y x → x = y) (h : l.Perm l') :
    l.insertionSort r = l'.insertionSort r := by
  have hperm : (l.insertionSort r).Perm (l'.insertionSort r) :=
    (List.perm_insertionSort r l).trans (h.trans (List.perm_insertionSort r l').symm)
  refine hperm.eq_of_pairwise (fun x y hx hy ↦ ?_) (List.pairwise_insertionSort r l)
    (List.pairwise_insertionSort r l')
  exact hkeys x ((List.mem_insertionSort r).mp hx) y
    (h.mem_iff.mpr ((List.mem_insertionSort r).mp hy))

theorem insertionSort_takeFirst [Std.Total r] [IsTrans α r] (n : ℕ) (l : List α) :
    (takeFirst r n l).insertionSort r = takeFirst r n l :=
  ((List.pairwise_insertionSort r l).sublist (List.take_sublist _ _)).insertionSort_eq

theorem takeFirst_takeFirst [Std.Total r] [IsTrans α r] {k n : ℕ} (h : k ≤ n) (l : List α) :
    takeFirst r k (takeFirst r n l) = takeFirst r k l := by
  rw [takeFirst, insertionSort_takeFirst, takeFirst, List.take_take, min_eq_left h, takeFirst]

/-- Selecting among the first `k` is selecting among all of them, when enough of the first have the
property or nothing is behind them. -/
theorem takeFirst_filter_takeFirst [Std.Total r] [IsTrans α r] (p : α → Bool) {n k : ℕ} {l : List α}
    (h : n ≤ ((takeFirst r k l).filter p).length ∨ l.length ≤ k) :
    takeFirst r n ((takeFirst r k l).filter p) = takeFirst r n (l.filter p) := by
  have hsorted : ((takeFirst r k l).filter p).insertionSort r = (takeFirst r k l).filter p := by
    rw [← filter_insertionSort, insertionSort_takeFirst]
  change (((takeFirst r k l).filter p).insertionSort r).take n = ((l.filter p).insertionSort r).take n
  rw [hsorted, ← filter_insertionSort]
  rcases h with henough | hall
  · have hsplit : (l.insertionSort r).filter p =
        (takeFirst r k l).filter p ++ ((l.insertionSort r).drop k).filter p := by
      rw [takeFirst, ← List.filter_append, List.take_append_drop]
    rw [hsplit, List.take_append_of_le_length henough]
  · have hshort : (l.insertionSort r).length ≤ k := by
      rw [List.length_insertionSort]
      exact hall
    rw [takeFirst, List.take_of_length_le hshort]

/-- Leaving out elements that are not among the first `k` does not change these. -/
theorem takeFirst_filter_of_forall [Std.Total r] [IsTrans α r] (p : α → Bool) {k : ℕ} {l : List α}
    (h : ∀ x ∈ takeFirst r k l, p x) : takeFirst r k (l.filter p) = takeFirst r k l := by
  have hself : (takeFirst r k l).filter p = takeFirst r k l := List.filter_eq_self.mpr h
  have hlength : k ≤ ((takeFirst r k l).filter p).length ∨ l.length ≤ k := by
    rw [hself, length_takeFirst]
    omega
  rw [← takeFirst_filter_takeFirst r p hlength, hself, takeFirst_takeFirst r le_rfl]

/-- In a sorted list with distinct keys the elements in front of `x` are the smaller ones. -/
theorem length_takeWhile_ne [DecidableEq α] [Std.Total r] {l : List α} {x : α} (h : l.Pairwise r)
    (hx : x ∈ l) (hkeys : ∀ y ∈ l, r x y → r y x → y = x) :
    (l.takeWhile (· ≠ x)).length = l.countP fun y ↦ !decide (r x y) := by
  induction l with
  | nil => cases hx
  | cons y l ih =>
    rw [List.pairwise_cons] at h
    by_cases hyx : y = x
    · subst hyx
      have hrefl : r y y := (Std.Total.total y y).elim id id
      have hnone : l.countP (fun z ↦ !decide (r y z)) = 0 := by
        rw [List.countP_eq_zero]
        exact fun z hz ↦ by simp [h.1 z hz]
      simp [hrefl, hnone]
    · have htail : x ∈ l := (List.mem_cons.mp hx).resolve_left fun heq ↦ hyx heq.symm
      have hsmaller : ¬ r x y := fun hxy ↦ hyx (hkeys y List.mem_cons_self hxy (h.1 x htail))
      have hrest := ih h.2 htail fun z hz ↦ hkeys z (List.mem_cons_of_mem y hz)
      simpa [hyx, hsmaller] using hrest

/-- With distinct keys the first `k` elements are those with fewer than `k` elements before them. -/
theorem mem_takeFirst_iff [DecidableEq α] [Std.Total r] [IsTrans α r] {k : ℕ} {l : List α} {x : α}
    (hkeys : ∀ y ∈ l, r x y → r y x → y = x) :
    x ∈ takeFirst r k l ↔ x ∈ l ∧ l.countP (fun y ↦ !decide (r x y)) < k := by
  have hmem := mem_take_filter_iff (fun _ ↦ true) x k (l.insertionSort r)
  simp only [List.filter_true, true_and] at hmem
  rw [takeFirst, hmem, List.mem_insertionSort]
  refine and_congr_right fun hx ↦ ?_
  rw [length_takeWhile_ne r (List.pairwise_insertionSort r l) ((List.mem_insertionSort r).mpr hx)
    fun y hy ↦ hkeys y ((List.mem_insertionSort r).mp hy),
    (List.perm_insertionSort r l).countP_eq]

/-- Each of the first elements comes before all but those before it. -/
theorem first_of_takeFirst [Std.Total r] [IsTrans α r] {k : ℕ} {l earlier rest : List α} {x y : α}
    (h : takeFirst r k l = earlier ++ x :: rest) (hy : y ∈ l) (hnot : y ∉ earlier) : r x y := by
  have hsplit : l.insertionSort r = earlier ++ x :: (rest ++ (l.insertionSort r).drop k) := by
    rw [← List.cons_append, ← List.append_assoc, ← h, takeFirst, List.take_append_drop]
  have hsorted := List.pairwise_insertionSort r l
  have hmem := (List.mem_insertionSort r).mpr hy
  rw [hsplit] at hsorted hmem
  obtain ⟨hfirst, -⟩ := List.pairwise_cons.mp (List.pairwise_append.mp hsorted).2.1
  rcases List.mem_cons.mp ((List.mem_append.mp hmem).resolve_left hnot) with rfl | hlater
  · exact (Std.Total.total y y).elim id id
  · exact hfirst y hlater

/-! ## Comparing by several keys -/

/-- The lexicographic order of several comparisons. -/
def byKeys : List (α → α → Bool) → α → α → Bool
  | [], _, _ => true
  | le :: rest, a, b => le a b && (!le b a || byKeys rest a b)

structure TotalPreorder (le : α → α → Bool) : Prop where
  total : ∀ a b, le a b ∨ le b a
  trans : ∀ a b c, le a b → le b c → le a c

theorem totalPreorder_byKeys {keys : List (α → α → Bool)} (h : ∀ le ∈ keys, TotalPreorder le) :
    TotalPreorder (byKeys keys) := by
  induction keys with
  | nil => exact ⟨fun _ _ ↦ Or.inl rfl, fun _ _ _ _ _ ↦ rfl⟩
  | cons le rest ih =>
    have hle := h le List.mem_cons_self
    have hrest := ih fun le' hle' ↦ h le' (List.mem_cons_of_mem _ hle')
    constructor
    · intro a b
      simp only [byKeys, Bool.and_eq_true, Bool.or_eq_true, Bool.not_eq_true']
      cases hab : le a b <;> cases hba : le b a
      · rcases hle.total a b with h' | h'
        · exact absurd h' (by rw [hab]; decide)
        · exact absurd h' (by rw [hba]; decide)
      · exact Or.inr ⟨rfl, Or.inl rfl⟩
      · exact Or.inl ⟨rfl, Or.inl rfl⟩
      · exact (hrest.total a b).imp (fun h' ↦ ⟨rfl, Or.inr h'⟩) fun h' ↦ ⟨rfl, Or.inr h'⟩
    · intro a b c hab hbc
      simp only [byKeys, Bool.and_eq_true, Bool.or_eq_true, Bool.not_eq_true'] at hab hbc ⊢
      refine ⟨hle.trans a b c hab.1 hbc.1, ?_⟩
      by_cases hca : le c a
      · have hba : le b a := hle.trans b c a hbc.1 hca
        have hcb : le c b := hle.trans c a b hca hab.1
        have hrab := hab.2.resolve_left (by rw [hba]; decide)
        have hrbc := hbc.2.resolve_left (by rw [hcb]; decide)
        exact Or.inr (hrest.trans a b c hrab hrbc)
      · exact Or.inl (by simpa using hca)

theorem TotalPreorder.converse {le : α → α → Bool} (h : TotalPreorder le) :
    TotalPreorder fun a b ↦ le b a :=
  ⟨fun a b ↦ h.total b a, fun a b c hab hbc ↦ h.trans c b a hbc hab⟩

end DhtScraper.Library
