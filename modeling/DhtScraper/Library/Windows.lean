import Mathlib.Data.List.Chain
import Mathlib.Data.Rat.Lemmas
import Mathlib.Tactic

/-!
# Admission by anchored windows

A counter that admits at most `cap` events of each window, where a window starts with the first
event that comes at least `width` after the start of the window before.  The events it admits are
the first `cap` of each window.  Such a counter does not bound every interval of length `width`:
the last theorem says exactly when it does, in terms of what two consecutive windows hold.
-/

namespace DhtScraper.Library

variable {α : Type*} (time : α → ℚ) (width : ℚ) (cap : ℕ)

/-- Whether an event belongs to the window that started at `start`. -/
def inWindow (start : ℚ) (event : α) : Bool := time event - start < width

/-- The events of each window. -/
def windows : List α → List (List α)
  | [] => []
  | first :: rest =>
    (first :: rest.takeWhile (inWindow time width (time first))) ::
      windows (rest.dropWhile (inWindow time width (time first)))
  termination_by events => events.length
  decreasing_by
    have hle := (List.dropWhile_sublist (l := rest) (inWindow time width (time first))).length_le
    exact Nat.lt_succ_of_le hle

/-- One event: the start of the current window and the number admitted in it, and whether the event
is admitted. -/
def allowance (counter : Option (ℚ × ℕ)) (now : ℚ) : (ℚ × ℕ) × Bool :=
  match counter with
  | none => ((now, 1), true)
  | some (start, count) =>
    if width ≤ now - start then ((now, 1), true)
    else if cap ≤ count then ((start, count), false)
    else ((start, count + 1), true)

/-- The events that the counter admits. -/
def admitted : Option (ℚ × ℕ) → List α → List α
  | _, [] => []
  | counter, event :: rest =>
    let result := allowance width cap counter (time event)
    if result.2 then event :: admitted (some result.1) rest else admitted (some result.1) rest

variable {time width cap}

/-- Within a window the counter admits what is left of the cap, then it starts afresh. -/
theorem admitted_some (start : ℚ) {count : ℕ} (hcount : count ≤ cap) (events : List α) :
    admitted time width cap (some (start, count)) events =
      (events.takeWhile (inWindow time width start)).take (cap - count) ++
        admitted time width cap none (events.dropWhile (inWindow time width start)) := by
  induction events generalizing count with
  | nil => simp [admitted]
  | cons event rest ih =>
    by_cases hin : inWindow time width start event
    · have hlate : ¬width ≤ time event - start := by simpa [inWindow] using hin
      rw [List.takeWhile_cons_of_pos hin, List.dropWhile_cons_of_pos hin]
      by_cases hfull : cap ≤ count
      · have hzero : cap - count = 0 := by omega
        simp only [admitted, allowance, if_neg hlate, if_pos hfull, hzero, List.take_zero]
        simpa [hzero] using ih hcount
      · have hstep : cap - count = (cap - (count + 1)) + 1 := by omega
        simp only [admitted, allowance, if_neg hlate, if_neg hfull, if_true]
        rw [ih (by omega), hstep, List.take_succ_cons, List.cons_append]
    · have hlate : width ≤ time event - start := by simpa [inWindow] using hin
      rw [List.takeWhile_cons_of_neg hin, List.dropWhile_cons_of_neg hin]
      simp [admitted, allowance, hlate]

/-- The counter admits the first `cap` events of each window. -/
theorem admitted_eq (hcap : 1 ≤ cap) (events : List α) :
    admitted time width cap none events = (windows time width events).flatMap (List.take cap) := by
  obtain ⟨cap, rfl⟩ : ∃ less, cap = less + 1 := ⟨cap - 1, by omega⟩
  induction events using windows.induct time width with
  | case1 => simp [admitted, windows]
  | case2 first rest ih =>
    rw [windows, List.flatMap_cons, ← ih, List.take_succ_cons, List.cons_append]
    simp only [admitted, allowance, if_true]
    rw [admitted_some _ hcap, Nat.add_sub_cancel]

/-! ## Intervals -/

section Intervals

variable {first : α} {rest : List α}

/-- The events in the interval of length `width` from `t` on that pass a test. -/
def countFrom (time : α → ℚ) (width : ℚ) (test : α → Bool) (t : ℚ) (events : List α) : ℕ :=
  events.countP fun event ↦ test event && (t ≤ time event && time event < t + width)

/-- Two consecutive windows: from any moment `x` on, what the first admitted since `x` and what the
second admits before `x + width` fit in the cap together. -/
def Spaced (time : α → ℚ) (width : ℚ) (cap : ℕ) (test : α → Bool) (window next : List α) : Prop :=
  ∀ x : ℚ, (window.take cap).countP (fun event ↦ test event && x ≤ time event) +
    (next.take cap).countP (fun event ↦ test event && time event < x + width) ≤ cap

/-- An event before the end of a window is not later than one after it. -/
theorem time_le_of_split (h : (first :: rest).Pairwise fun a b ↦ time a ≤ time b) {start : ℚ}
    {event later : α} (hevent : event ∈ first :: rest.takeWhile (inWindow time width start))
    (hlater : later ∈ rest.dropWhile (inWindow time width start)) : time event ≤ time later := by
  rw [← List.takeWhile_append_dropWhile (p := inWindow time width start) (l := rest),
    ← List.cons_append, List.pairwise_append] at h
  exact h.2.2 event hevent later hlater

theorem late_of_mem_dropWhile {events : List α} (h : events.Pairwise fun a b ↦ time a ≤ time b)
    {start : ℚ} {event : α} (hevent : event ∈ events.dropWhile (inWindow time width start)) :
    start + width ≤ time event := by
  induction events with
  | nil => simp at hevent
  | cons head tail ih =>
    obtain ⟨hhead, htail⟩ := List.pairwise_cons.mp h
    by_cases hin : inWindow time width start head
    · rw [List.dropWhile_cons_of_pos hin] at hevent
      exact ih htail hevent
    · rw [List.dropWhile_cons_of_neg hin] at hevent
      have hlate : width ≤ time head - start := by simpa [inWindow] using hin
      have hle : time head ≤ time event := by
        rcases List.mem_cons.mp hevent with rfl | hmem
        · exact le_rfl
        · exact hhead event hmem
      linarith

theorem pairwise_dropWhile (h : (first :: rest).Pairwise fun a b ↦ time a ≤ time b)
    (start : ℚ) : (rest.dropWhile (inWindow time width start)).Pairwise fun a b ↦ time a ≤ time b :=
  (List.pairwise_cons.mp h).2.sublist (List.dropWhile_sublist _)

theorem countFrom_append (test : α → Bool) (t : ℚ) (left right : List α) :
    countFrom time width test t (left ++ right) =
      countFrom time width test t left + countFrom time width test t right :=
  List.countP_append

theorem countFrom_take_le (test : α → Bool) (t : ℚ) (events : List α) :
    countFrom time width test t (events.take cap) ≤ cap := by
  calc countFrom time width test t (events.take cap) ≤ (events.take cap).length :=
        List.countP_le_length
    _ ≤ cap := List.length_take_le cap events

theorem mem_of_mem_windows {events : List α} {event : α}
    (h : event ∈ (windows time width events).flatMap (List.take cap)) : event ∈ events := by
  induction events using windows.induct time width with
  | case1 => simp [windows] at h
  | case2 first rest ih =>
    rw [windows, List.flatMap_cons, List.mem_append] at h
    rcases h with h | h
    · have hmem := List.mem_of_mem_take h
      exact (List.takeWhile_sublist _).cons_cons first |>.subset hmem
    · exact List.mem_cons_of_mem _ ((List.dropWhile_sublist _).subset (ih h))

/-- An interval that an event of the first window meets ends before the third window. -/
theorem countFrom_windows {test : α → Bool} (hsorted : (first :: rest).Pairwise fun a b ↦
      time a ≤ time b) {t : ℚ} (ht : t ≤ time first) :
    countFrom time width test t ((windows time width (first :: rest)).flatMap (List.take cap)) =
      countFrom time width test t
        ((first :: rest.takeWhile (inWindow time width (time first))).take cap) := by
  rw [windows, List.flatMap_cons, countFrom_append, Nat.add_eq_left, countFrom, List.countP_eq_zero]
  intro event hevent
  have hlate := late_of_mem_dropWhile (List.pairwise_cons.mp hsorted).2 (mem_of_mem_windows hevent)
  have hafter : ¬time event < t + width := by linarith
  simp [hafter]

/-- Only two consecutive windows can meet one interval. -/
theorem countFrom_le_of_spaced {test : α → Bool} (events : List α)
    (hsorted : events.Pairwise fun a b ↦ time a ≤ time b)
    (h : (windows time width events).IsChain (Spaced time width cap test)) (t : ℚ) :
    countFrom time width test t ((windows time width events).flatMap (List.take cap)) ≤ cap := by
  induction events using windows.induct time width with
  | case1 => simp [windows, countFrom]
  | case2 first rest ih =>
    have hlaterSorted : (rest.dropWhile (inWindow time width (time first))).Pairwise
        fun a b ↦ time a ≤ time b := pairwise_dropWhile hsorted (time first)
    have hsplit {event later : α} (hevent : event ∈ first :: rest.takeWhile
        (inWindow time width (time first))) (hmem : later ∈ rest.dropWhile
        (inWindow time width (time first))) : time event ≤ time later :=
      time_le_of_split hsorted hevent hmem
    rw [windows] at h ⊢
    rw [List.flatMap_cons, countFrom_append]
    have hrest := ih hlaterSorted h.tail
    by_cases hmeets : countFrom time width test t
        ((first :: rest.takeWhile (inWindow time width (time first))).take cap) = 0
    · rw [hmeets, Nat.zero_add]
      exact hrest
    · -- An event of the first window lies in the interval, so the third window is too late for it.
      obtain ⟨event, hevent, hin⟩ := List.countP_pos_iff.mp (Nat.pos_of_ne_zero hmeets)
      have hle : t ≤ time event := by
        simp only [Bool.and_eq_true, decide_eq_true_eq] at hin
        exact hin.2.1
      cases hlater : rest.dropWhile (inWindow time width (time first)) with
      | nil =>
        simp only [windows, List.flatMap_nil]
        exact countFrom_take_le test t _
      | cons second others =>
        rw [hlater] at h hlaterSorted
        have hsecond : t ≤ time second :=
          hle.trans (hsplit (List.mem_of_mem_take hevent) (by rw [hlater]; exact List.mem_cons_self))
        rw [countFrom_windows hlaterSorted hsecond]
        rw [windows] at h
        have hspaced := (List.isChain_cons_cons.mp h).1 t
        refine le_trans (Nat.add_le_add (List.countP_mono_left ?_) (List.countP_mono_left ?_)) hspaced
        · intro event _ hcount
          simp only [Bool.and_eq_true, decide_eq_true_eq] at hcount ⊢
          exact ⟨hcount.1, hcount.2.1⟩
        · intro event _ hcount
          simp only [Bool.and_eq_true, decide_eq_true_eq] at hcount ⊢
          exact ⟨hcount.1, hcount.2.2⟩

/-- When no interval holds more than the cap, consecutive windows are spaced. -/
theorem spaced_of_countFrom_le {test : α → Bool} (events : List α)
    (hsorted : events.Pairwise fun a b ↦ time a ≤ time b)
    (h : ∀ t, countFrom time width test t
      ((windows time width events).flatMap (List.take cap)) ≤ cap) :
    (windows time width events).IsChain (Spaced time width cap test) := by
  induction events using windows.induct time width with
  | case1 => simp [windows]
  | case2 first rest ih =>
    have hlaterSorted : (rest.dropWhile (inWindow time width (time first))).Pairwise
        fun a b ↦ time a ≤ time b := pairwise_dropWhile hsorted (time first)
    have hsplit {event later : α} (hevent : event ∈ first :: rest.takeWhile
        (inWindow time width (time first))) (hmem : later ∈ rest.dropWhile
        (inWindow time width (time first))) : time event ≤ time later :=
      time_le_of_split hsorted hevent hmem
    rw [windows] at h ⊢
    simp only [List.flatMap_cons, countFrom_append] at h
    have hchain := ih hlaterSorted fun t ↦ le_trans (Nat.le_add_left _ _) (h t)
    cases hlater : rest.dropWhile (inWindow time width (time first)) with
    | nil => simp [windows]
    | cons second others =>
      rw [hlater] at hchain hlaterSorted h
      rw [windows] at hchain h ⊢
      refine List.isChain_cons_cons.mpr ⟨fun x ↦ ?_, hchain⟩
      set window := (first :: rest.takeWhile (inWindow time width (time first))).take cap
      set next := (second :: others.takeWhile (inWindow time width (time second))).take cap
      have hbefore {event later : α} (hevent : event ∈ window) (hmem : later ∈ next) :
          time event ≤ time later := by
        apply hsplit (List.mem_of_mem_take hevent)
        rw [hlater]
        exact ((List.takeWhile_sublist _).cons_cons second).subset (List.mem_of_mem_take hmem)
      have hwindow : window.length ≤ cap := List.length_take_le cap _
      have hnext : next.length ≤ cap := List.length_take_le cap _
      by_cases hleft : window.countP (fun event ↦ test event && x ≤ time event) = 0
      · rw [hleft, Nat.zero_add]
        exact List.countP_le_length.trans hnext
      · by_cases hright : next.countP (fun event ↦ test event && time event < x + width) = 0
        · rw [hright, Nat.add_zero]
          exact List.countP_le_length.trans hwindow
        · obtain ⟨early, hearly, hearlyIn⟩ := List.countP_pos_iff.mp (Nat.pos_of_ne_zero hleft)
          obtain ⟨late, hlate, hlateIn⟩ := List.countP_pos_iff.mp (Nat.pos_of_ne_zero hright)
          simp only [Bool.and_eq_true, decide_eq_true_eq] at hearlyIn hlateIn
          have hcount := h x
          rw [List.flatMap_cons, countFrom_append] at hcount
          refine le_trans (Nat.add_le_add (List.countP_mono_left ?_)
            ((List.countP_mono_left ?_).trans (Nat.le_add_right _ _))) hcount
          · intro event hevent hpass
            simp only [Bool.and_eq_true, decide_eq_true_eq] at hpass ⊢
            exact ⟨hpass.1, hpass.2, (hbefore hevent hlate).trans_lt hlateIn.2⟩
          · intro event hevent hpass
            simp only [Bool.and_eq_true, decide_eq_true_eq] at hpass ⊢
            exact ⟨hpass.1, hearlyIn.2.trans (hbefore hearly hevent), hpass.2⟩

/-- What a counter by anchored windows lets through respects the cap in every interval exactly when
consecutive windows are spaced. -/
theorem countFrom_admitted_le_iff {test : α → Bool} (hcap : 1 ≤ cap) {events : List α}
    (hsorted : events.Pairwise fun a b ↦ time a ≤ time b) :
    (∀ t, countFrom time width test t (admitted time width cap none events) ≤ cap) ↔
      (windows time width events).IsChain (Spaced time width cap test) := by
  rw [admitted_eq hcap]
  exact ⟨spaced_of_countFrom_le events hsorted, countFrom_le_of_spaced events hsorted⟩

end Intervals

end DhtScraper.Library
