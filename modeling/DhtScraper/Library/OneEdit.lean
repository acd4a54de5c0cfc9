import Mathlib.Data.List.Basic

/-!
# Words one edit apart

One insertion, deletion, substitution or swap of two adjacent letters.  Two words one edit apart
share a word of their deletion neighbourhoods: an index that stores every word under itself and
under each of its deletions finds all words one edit away by looking up a word and its deletions.
-/

namespace DhtScraper.Library

variable {α : Type*}

/-- `shorter` is `longer` without one of its letters. -/
inductive OneDeletion : List α → List α → Prop
  | mk (front : List α) (letter : α) (back : List α) :
    OneDeletion (front ++ letter :: back) (front ++ back)

/-- The second word is obtained from the first by one edit. -/
inductive OneEdit : List α → List α → Prop
  | insertion (front : List α) (letter : α) (back : List α) :
    OneEdit (front ++ back) (front ++ letter :: back)
  | deletion (front : List α) (letter : α) (back : List α) :
    OneEdit (front ++ letter :: back) (front ++ back)
  | substitution (front : List α) (letter other : α) (back : List α) :
    OneEdit (front ++ letter :: back) (front ++ other :: back)
  | swap (front : List α) (first second : α) (back : List α) :
    OneEdit (front ++ first :: second :: back) (front ++ second :: first :: back)

variable {word other : List α} {letter letter' : α}

/-! ## Deletions -/

theorem OneDeletion.cons (h : OneDeletion word other) (letter : α) :
    OneDeletion (letter :: word) (letter :: other) := by
  cases h with
  | mk front letter' back => exact .mk (letter :: front) letter' back

theorem oneDeletion_iff_eraseIdx :
    OneDeletion word other ↔ ∃ index < word.length, word.eraseIdx index = other := by
  constructor
  · intro h
    cases h with
    | mk front letter back =>
      refine ⟨front.length, by simp, ?_⟩
      rw [List.eraseIdx_append_of_length_le (Nat.le_refl _), Nat.sub_self, List.eraseIdx_cons_zero]
  · rintro ⟨index, hindex, rfl⟩
    have hsplit : word = word.take index ++ word[index] :: word.drop (index + 1) := by
      rw [List.getElem_cons_drop, List.take_append_drop]
    rw [List.eraseIdx_eq_take_drop_succ]
    nth_rewrite 1 [hsplit]
    exact .mk _ _ _

/-- Only the last letter of a common start can be missing. -/
theorem oneDeletion_cons_iff :
    OneDeletion (letter :: word) (letter' :: other) ↔
      word = letter' :: other ∨ letter = letter' ∧ OneDeletion word other := by
  constructor
  · generalize hlonger : letter :: word = longer
    generalize hshorter : letter' :: other = shorter
    intro h
    cases h with
    | mk front gone back =>
      cases front with
      | nil =>
        rw [List.nil_append, List.cons.injEq] at hlonger
        exact Or.inl hlonger.2
      | cons first front =>
        rw [List.cons_append, List.cons.injEq] at hlonger hshorter
        rw [hlonger.1, hlonger.2, hshorter.1, hshorter.2]
        exact Or.inr ⟨rfl, .mk front gone back⟩
  · rintro (rfl | ⟨rfl, h⟩)
    · exact .mk [] letter _
    · exact h.cons letter

/-! ## Edits -/

theorem OneEdit.cons (h : OneEdit word other) (letter : α) :
    OneEdit (letter :: word) (letter :: other) := by
  cases h with
  | insertion front letter' back => exact .insertion (letter :: front) letter' back
  | deletion front letter' back => exact .deletion (letter :: front) letter' back
  | substitution front letter' other back => exact .substitution (letter :: front) letter' other back
  | swap front first second back => exact .swap (letter :: front) first second back

theorem oneEdit_of_shorter (h : other.length < word.length) :
    OneEdit word other ↔ OneDeletion word other := by
  constructor
  · intro hedit
    cases hedit with
    | insertion front letter back =>
      simp only [List.length_append, List.length_cons] at h
      omega
    | deletion front letter back => exact .mk front letter back
    | substitution front letter other back => simp at h
    | swap front first second back => simp at h
  · intro hdeletion
    cases hdeletion with
    | mk front letter back => exact .deletion front letter back

theorem oneEdit_of_longer (h : word.length < other.length) :
    OneEdit word other ↔ OneDeletion other word := by
  constructor
  · intro hedit
    cases hedit with
    | insertion front letter back => exact .mk front letter back
    | deletion front letter back =>
      simp only [List.length_append, List.length_cons] at h
      omega
    | substitution front letter other back => simp at h
    | swap front first second back => simp at h
  · intro hdeletion
    cases hdeletion with
    | mk front letter back => exact .insertion front letter back

/-- Words one edit apart differ by at most one in length. -/
theorem OneEdit.length (h : OneEdit word other) :
    word.length ≤ other.length + 1 ∧ other.length ≤ word.length + 1 := by
  cases h <;> simp [Nat.add_assoc]

/-- Two words of one length are one edit apart when they differ in one letter or in two that are
swapped; a word can also be substituted by itself. -/
theorem oneEdit_cons_iff (hlength : word.length = other.length) :
    (letter :: word = letter' :: other ∨ OneEdit (letter :: word) (letter' :: other)) ↔
      word = other ∨ letter = letter' ∧ OneEdit word other ∨
        ∃ rest, word = letter' :: rest ∧ other = letter :: rest := by
  constructor
  · intro h
    rcases h with heq | hedit
    · exact Or.inl (List.cons.inj heq).2
    · generalize hfirst : letter :: word = first at hedit
      generalize hsecond : letter' :: other = second at hedit
      have hlengths : first.length = second.length := by
        rw [← hfirst, ← hsecond, List.length_cons, List.length_cons, hlength]
      cases hedit with
      | insertion front gone back => simp at hlengths
      | deletion front gone back => simp at hlengths
      | substitution front x y back =>
        cases front with
        | nil =>
          rw [List.nil_append, List.cons.injEq] at hfirst hsecond
          exact Or.inl (hfirst.2.trans hsecond.2.symm)
        | cons head front =>
          rw [List.cons_append, List.cons.injEq] at hfirst hsecond
          rw [hfirst.1, hsecond.1, hfirst.2, hsecond.2]
          exact Or.inr (Or.inl ⟨rfl, .substitution front x y back⟩)
      | swap front x y back =>
        cases front with
        | nil =>
          rw [List.nil_append, List.cons.injEq] at hfirst hsecond
          rw [hfirst.1, hsecond.1, hfirst.2, hsecond.2]
          exact Or.inr (Or.inr ⟨back, rfl, rfl⟩)
        | cons head front =>
          rw [List.cons_append, List.cons.injEq] at hfirst hsecond
          rw [hfirst.1, hsecond.1, hfirst.2, hsecond.2]
          exact Or.inr (Or.inl ⟨rfl, .swap front x y back⟩)
  · rintro (rfl | ⟨rfl, hedit⟩ | ⟨rest, rfl, rfl⟩)
    · exact Or.inr (.substitution [] letter letter' word)
    · exact Or.inr (hedit.cons letter)
    · exact Or.inr (.swap [] letter letter' rest)

/-- The words at most one letter deleted. -/
def Neighbour (word variant : List α) : Prop := variant = word ∨ OneDeletion word variant

/-- Words one edit apart share a word of their deletion neighbourhoods. -/
theorem OneEdit.common_neighbour (h : OneEdit word other) :
    ∃ variant, Neighbour word variant ∧ Neighbour other variant := by
  cases h with
  | insertion front letter back => exact ⟨front ++ back, Or.inl rfl, Or.inr (.mk front letter back)⟩
  | deletion front letter back => exact ⟨front ++ back, Or.inr (.mk front letter back), Or.inl rfl⟩
  | substitution front letter letter' back =>
    exact ⟨front ++ back, Or.inr (.mk front letter back), Or.inr (.mk front letter' back)⟩
  | swap front first second back =>
    have hother : front ++ second :: first :: back = (front ++ [second]) ++ first :: back := by simp
    have hvariant : front ++ second :: back = (front ++ [second]) ++ back := by simp
    refine ⟨front ++ second :: back, Or.inr (.mk front first (second :: back)), Or.inr ?_⟩
    rw [hother, hvariant]
    exact .mk (front ++ [second]) first back

end DhtScraper.Library
