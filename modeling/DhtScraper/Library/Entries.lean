import Mathlib.Data.List.Basic
import Mathlib.Tactic

/-!
# Entries of one length

A list is read as entries of a fixed length, one after another; elements at the end that do not fill
an entry are left out.  Reading the joined entries gives the entries back, and joining the entries
that were read gives the longest prefix of whole entries.
-/

namespace DhtScraper.Library

variable {α : Type*} {step : ℕ} {data rest entry : List α}

/-- The entries of `step` elements of `data`. -/
def entries (step : ℕ) (data : List α) : List (List α) :=
  (List.range (data.length / step)).map fun k ↦ (data.drop (k * step)).take step

/-- The longest prefix of `data` that is made of whole entries. -/
structure LongestWhole (step : ℕ) (data whole : List α) : Prop where
  initial : whole <+: data
  entire : step ∣ whole.length
  longest : ∀ other, other <+: data → step ∣ other.length → other.length ≤ whole.length

@[simp]
theorem length_entries (step : ℕ) (data : List α) :
    (entries step data).length = data.length / step := by
  simp [entries]

theorem entries_of_lt (h : data.length < step) : entries step data = [] := by
  rw [entries, Nat.div_eq_of_lt h]
  rfl

theorem entries_append (hpos : 0 < step) (h : entry.length = step) (rest : List α) :
    entries step (entry ++ rest) = entry :: entries step rest := by
  have hcount : (entry ++ rest).length / step = rest.length / step + 1 := by
    rw [List.length_append, h, Nat.add_div_left _ hpos]
  rw [entries, hcount, List.range_succ_eq_map, List.map_cons, List.map_map, Nat.zero_mul,
    List.drop_zero, List.take_left' h, entries]
  refine congrArg _ (List.map_congr_left fun k _ ↦ ?_)
  have hdrop : (entry ++ rest).drop ((k + 1) * step) = rest.drop (k * step) := by
    rw [Nat.succ_mul, Nat.add_comm, ← List.drop_drop, List.drop_left' h]
  simp only [Function.comp_apply]
  rw [hdrop]

theorem length_of_mem_entries (h : entry ∈ entries step data) : entry.length = step := by
  obtain ⟨k, hk, rfl⟩ := List.mem_map.mp h
  rw [List.mem_range] at hk
  have hfits : (k + 1) * step ≤ data.length :=
    (Nat.mul_le_mul_right step hk).trans (Nat.div_mul_le_self data.length step)
  rw [Nat.succ_mul] at hfits
  rw [List.length_take, List.length_drop]
  omega

/-- Reading joined entries gives them back. -/
theorem entries_flatten (hpos : 0 < step) {parts : List (List α)}
    (h : ∀ part ∈ parts, part.length = step) : entries step parts.flatten = parts := by
  induction parts with
  | nil => exact entries_of_lt hpos
  | cons part rest ih =>
    rw [List.flatten_cons, entries_append hpos (h part List.mem_cons_self),
      ih fun other hother ↦ h other (List.mem_cons_of_mem _ hother)]

/-- Joining the entries that were read gives the longest prefix of whole entries. -/
theorem longestWhole_flatten (hpos : 0 < step) (data : List α) :
    LongestWhole step data (entries step data).flatten := by
  induction hn : data.length using Nat.strongRecOn generalizing data with
  | ind n ih =>
    by_cases hlt : data.length < step
    · rw [entries_of_lt hlt]
      refine ⟨List.nil_prefix, dvd_zero _, fun other hother hdvd ↦ ?_⟩
      have hle := hother.length_le
      exact (Nat.eq_zero_of_dvd_of_lt hdvd (by omega)).le
    · have hentry : (data.take step).length = step := by
        rw [List.length_take]
        omega
      have hsplit := List.take_append_drop step data
      obtain ⟨hinitial, hentire, hlongest⟩ := ih (data.drop step).length
        (by rw [List.length_drop]; omega) (data.drop step) rfl
      rw [← hsplit, entries_append hpos hentry, List.flatten_cons]
      refine ⟨List.prefix_append_right_inj _ |>.mpr hinitial, ?_, fun other hother hdvd ↦ ?_⟩
      · rw [List.length_append, hentry]
        exact dvd_add (dvd_refl step) hentire
      · by_cases hshort : other.length < step
        · rw [Nat.eq_zero_of_dvd_of_lt hdvd hshort]
          exact Nat.zero_le _
        · have hrest : other.drop step <+: data.drop step := by
            rw [hsplit] at hother
            exact hother.drop step
          have hdvd' : step ∣ (other.drop step).length := by
            rw [List.length_drop]
            exact Nat.dvd_sub hdvd (dvd_refl step)
          have hle := hlongest _ hrest hdvd'
          rw [List.length_drop] at hle
          rw [List.length_append, hentry]
          omega

theorem flatten_entries_of_dvd (hpos : 0 < step) (h : step ∣ data.length) :
    (entries step data).flatten = data := by
  obtain ⟨hinitial, -, hlongest⟩ := longestWhole_flatten hpos data
  exact hinitial.eq_of_length_le (hlongest data List.prefix_rfl h)

end DhtScraper.Library
