import DhtScraper.Library.OneEdit
import DhtScraper.Index.Transaction
import Mathlib.Data.Finset.Sort

/-!
# The typo index

The table `terms` holds every indexed term under itself and under each of its deletions.  A query
term is looked up under itself and its deletions, and the candidates found are verified.  The
lookup misses no term one edit away, and the verification accepts no other term but the query
itself, which `typo_terms` leaves out.
-/

namespace DhtScraper

open Library

def minTypoLength : ℕ := 4

def maxTypoTerms : ℕ := 20

/-- The positions at which two terms differ. -/
def differences (first second : Text) : List ℕ :=
  (List.range first.length).filter fun index ↦ first[index]? ≠ second[index]?

/-- Two differences side by side, the letters exchanged. -/
def swapped (first second : Text) : List ℕ → Bool
  | [left, right] =>
    right = left + 1 ∧ first[left]? = second[right]? ∧ first[right]? = second[left]?
  | _ => false

/-- The loop of `within_one_edit`: how far the two terms agree. -/
def agreement : Text → Text → ℕ
  | a :: shorter, b :: longer => if a = b then agreement shorter longer + 1 else 0
  | _, _ => 0

def withinOneEdit (first second : Text) : Bool :=
  if 1 < ((first.length : ℤ) - second.length).natAbs then false
  else if first.length = second.length then
    (differences first second).length ≤ 1 || swapped first second (differences first second)
  else
    let (shorter, longer) :=
      if first.length < second.length then (first, second) else (second, first)
    let index := agreement shorter longer
    shorter.drop index = longer.drop (index + 1)

/-- `str.isdigit`, for the digits of the Unicode tables. -/
def isdigitText (isDigit : Char → Bool) (text : Text) : Bool := text ≠ [] && text.all isDigit

/-- `typo_terms`, with `SELECT DISTINCT term FROM terms WHERE variant IN … ORDER BY term`. -/
def typoTerms (isDigit : Char → Bool) (terms : Finset (Text × Text)) (term : Text) : List Text :=
  if term.length < minTypoLength ∨ isdigitText isDigit term then []
  else
    let variants := insert term (deletions term).toFinset
    let rows := ((terms.filter fun row ↦ row.1 ∈ variants).image Prod.snd).sort (· ≤ ·)
    (rows.filter fun row ↦ row ≠ term ∧ withinOneEdit term row).take maxTypoTerms

/-- The table `terms` after the rows of all batches were inserted. -/
def termsTable (batches : List (List Text)) : Finset (Text × Text) :=
  (batches.flatMap termRows).toFinset

/-! ## The deletion neighbourhood -/

theorem mem_deletions {term variant : Text} :
    variant ∈ deletions term ↔ OneDeletion term variant := by
  unfold deletions
  rw [List.mem_insertionSort, List.mem_dedup, List.mem_map, oneDeletion_iff_eraseIdx]
  simp only [List.mem_range]

theorem mem_termRows {terms : List Text} {variant term : Text} :
    (variant, term) ∈ termRows terms ↔
      term ∈ terms ∧ (minTermLength ≤ term.length ∧ term.length ≤ maxTermLength) ∧
        Neighbour term variant := by
  unfold termRows
  rw [List.mem_flatMap]
  constructor
  · rintro ⟨indexed, hindexed, hrow⟩
    rw [List.mem_insertionSort, List.mem_dedup] at hindexed
    split at hrow
    · next hlength =>
      rcases List.mem_cons.mp hrow with heq | hmem
      · rw [Prod.mk.injEq] at heq
        rw [heq.1, heq.2]
        exact ⟨hindexed, hlength, Or.inl rfl⟩
      · obtain ⟨deletion, hdeletion, heq⟩ := List.mem_map.mp hmem
        rw [Prod.mk.injEq] at heq
        rw [← heq.1, ← heq.2]
        exact ⟨hindexed, hlength, Or.inr (mem_deletions.mp hdeletion)⟩
    · cases hrow
  · rintro ⟨hterm, hlength, hvariant⟩
    refine ⟨term, by rw [List.mem_insertionSort, List.mem_dedup]; exact hterm, ?_⟩
    rw [if_pos hlength]
    rcases hvariant with heq | hdeletion
    · rw [heq]
      exact List.mem_cons_self
    · exact List.mem_cons_of_mem _ (List.mem_map_of_mem (mem_deletions.mpr hdeletion))

theorem mem_termsTable {batches : List (List Text)} {variant term : Text} :
    (variant, term) ∈ termsTable batches ↔
      (∃ batch ∈ batches, term ∈ batch) ∧
        (minTermLength ≤ term.length ∧ term.length ≤ maxTermLength) ∧ Neighbour term variant := by
  unfold termsTable
  rw [List.mem_toFinset, List.mem_flatMap]
  constructor
  · rintro ⟨batch, hbatch, hrow⟩
    obtain ⟨hterm, hlength, hvariant⟩ := mem_termRows.mp hrow
    exact ⟨⟨batch, hbatch, hterm⟩, hlength, hvariant⟩
  · rintro ⟨⟨batch, hbatch, hterm⟩, hlength, hvariant⟩
    exact ⟨batch, hbatch, mem_termRows.mpr ⟨hterm, hlength, hvariant⟩⟩

/-- The rows of several batches are inserted one after the other. -/
theorem termsTable_append (batches batches' : List (List Text)) :
    termsTable (batches ++ batches') = termsTable batches ∪ termsTable batches' := by
  unfold termsTable
  rw [List.flatMap_append, List.toFinset_append]

theorem foldl_insert_eq_union (rows : List (Text × Text)) (terms : Finset (Text × Text)) :
    rows.foldl (fun terms row ↦ insert row terms) terms = terms ∪ rows.toFinset := by
  induction rows generalizing terms with
  | nil => simp
  | cons row rest ih =>
    rw [List.foldl_cons, ih, List.toFinset_cons, Finset.insert_union, Finset.union_insert]

namespace TorrentDatabase

variable (textTerms : Text → List Text)

/-- An inserted document adds the rows of its terms, an updated one none. -/
theorem terms_documentWritten (written : Tables × OrderedMap Bytes IndexBase)
    (document : Document) :
    (documentWritten textTerms written document).1.terms = written.1.terms ∪
      termsTable (if written.1.find document.infoHash = none then
        [documentTerms textTerms document] else []) := by
  unfold documentWritten
  cases hfind : written.1.find document.infoHash with
  | none =>
    have hchanged : written.1.insertTorrent document = some _ := dif_pos hfind
    simp only [if_true, inserted, hchanged]
    rw [foldl_insert_eq_union]
    simp [termsTable]
  | some item => simp [termsTable, Tables.update]

/-- The terms of the documents that a batch inserts. -/
def insertedTerms : Tables × OrderedMap Bytes IndexBase → List Document → List (List Text)
  | _, [] => []
  | written, document :: rest =>
    (if written.1.find document.infoHash = none then [documentTerms textTerms document] else []) ++
      insertedTerms (documentWritten textTerms written document) rest

theorem terms_foldl_documentWritten (documents : List Document)
    (written : Tables × OrderedMap Bytes IndexBase) :
    (documents.foldl (documentWritten textTerms) written).1.terms =
      written.1.terms ∪ termsTable (insertedTerms textTerms written documents) := by
  induction documents generalizing written with
  | nil => simp [insertedTerms, termsTable]
  | cons document rest ih =>
    rw [List.foldl_cons, ih, terms_documentWritten, insertedTerms, termsTable_append,
      Finset.union_assoc]

/-- A committed batch adds to the table `terms` the rows of the documents it inserts. -/
theorem terms_of_writeDocuments {faults : ℕ → Option Fault} {c c' : Connection}
    (hc : c.transaction = none) {documents : List Document}
    (hhashes : ∀ document ∈ documents, 2 * document.infoHash.length = 40)
    {previous : OrderedMap Bytes IndexBase}
    (hrun : writeDocuments faults textTerms documents c = .ok previous c') :
    c'.committed.terms = c.committed.terms ∪
      termsTable (insertedTerms textTerms (c.committed, .empty) documents) := by
  obtain ⟨-, hcommitted, -⟩ := (writeDocuments_ensures textTerms hc hhashes).ok hrun
  rw [hcommitted]
  exact terms_foldl_documentWritten textTerms documents (c.committed, .empty)

end TorrentDatabase

/-! ## The verification -/

theorem differences_cons (a b : Char) (first second : Text) :
    differences (a :: first) (b :: second) =
      (if a = b then [] else [0]) ++ (differences first second).map (· + 1) := by
  unfold differences
  rw [List.length_cons, List.range_succ_eq_map, List.filter_cons, List.filter_map]
  by_cases h : a = b
  · simp [h, Function.comp_def]
  · simp [h, Function.comp_def]

theorem differences_eq_nil_iff {first second : Text} (h : first.length = second.length) :
    differences first second = [] ↔ first = second := by
  induction first generalizing second with
  | nil =>
    rw [List.length_nil] at h
    rw [List.length_eq_zero_iff.mp h.symm]
    exact ⟨fun _ ↦ rfl, fun _ ↦ rfl⟩
  | cons a first ih =>
    cases second with
    | nil => cases h
    | cons b second =>
      rw [List.length_cons, List.length_cons, Nat.succ_inj] at h
      rw [differences_cons, List.append_eq_nil_iff, List.map_eq_nil_iff, ih h, List.cons.injEq]
      by_cases hab : a = b <;> simp [hab]

theorem swapped_cons (a b : Char) (first second : Text) (positions : List ℕ) :
    swapped (a :: first) (b :: second) (positions.map (· + 1)) =
      swapped first second positions := by
  rcases positions with _ | ⟨left, _ | ⟨right, _ | ⟨third, rest⟩⟩⟩ <;> simp [swapped]

/-- The only difference of two terms of one length is the first letter. -/
theorem differences_eq_zero_iff {first second : Text} (h : first.length = second.length) :
    differences first second = [0] ↔
      ∃ a b rest, a ≠ b ∧ first = a :: rest ∧ second = b :: rest := by
  constructor
  · intro hzero
    rcases first with _ | ⟨a, first⟩
    · cases hzero
    rcases second with _ | ⟨b, second⟩
    · cases h
    rw [List.length_cons, List.length_cons, Nat.succ_inj] at h
    rw [differences_cons] at hzero
    by_cases hab : a = b
    · rw [if_pos hab, List.nil_append] at hzero
      have hmem : 0 ∈ (differences first second).map (· + 1) := by
        rw [hzero]
        exact List.mem_singleton_self 0
      obtain ⟨position, -, hposition⟩ := List.mem_map.mp hmem
      exact absurd hposition (Nat.succ_ne_zero position)
    · rw [if_neg hab, List.singleton_append, List.cons.injEq, List.map_eq_nil_iff,
        differences_eq_nil_iff h] at hzero
      exact ⟨a, b, first, hab, rfl, by rw [hzero.2]⟩
  · rintro ⟨a, b, rest, hab, rfl, rfl⟩
    rw [differences_cons, if_neg hab, (differences_eq_nil_iff rfl).mpr rfl]
    rfl

/-- Behind a first difference the other one has to be its neighbour. -/
theorem swapped_first_iff {a b : Char} (hab : a ≠ b) {first second : Text}
    (h : first.length = second.length) :
    swapped (a :: first) (b :: second) (0 :: (differences first second).map (· + 1)) ↔
      ∃ rest, first = b :: rest ∧ second = a :: rest := by
  constructor
  · intro hswapped
    rcases hpositions : differences first second with _ | ⟨position, _ | ⟨next, rest⟩⟩
    · rw [hpositions] at hswapped
      cases hswapped
    · rw [hpositions] at hswapped
      simp only [List.map_cons, List.map_nil, swapped, decide_eq_true_eq] at hswapped
      obtain ⟨hnext, hfirst, hsecond⟩ := hswapped
      have hposition : position = 0 := by omega
      rw [hposition] at hpositions hfirst hsecond
      obtain ⟨x, y, rest, -, rfl, rfl⟩ := (differences_eq_zero_iff h).mp hpositions
      simp only [Nat.zero_add, List.getElem?_cons_zero, List.getElem?_cons_succ,
        Option.some.injEq] at hfirst hsecond
      exact ⟨rest, by rw [hsecond], by rw [hfirst]⟩
    · rw [hpositions] at hswapped
      cases hswapped
  · rintro ⟨rest, rfl, rfl⟩
    rw [(differences_eq_zero_iff h).mpr ⟨b, a, rest, hab.symm, rfl, rfl⟩]
    simp [swapped]

theorem sameLength_iff {first second : Text} (h : first.length = second.length) :
    ((differences first second).length ≤ 1 ∨
      swapped first second (differences first second)) ↔
        first = second ∨ OneEdit first second := by
  induction first generalizing second with
  | nil =>
    rw [List.length_nil] at h
    rw [List.length_eq_zero_iff.mp h.symm]
    exact ⟨fun _ ↦ Or.inl rfl, fun _ ↦ Or.inl (Nat.zero_le 1)⟩
  | cons a first ih =>
    cases second with
    | nil => cases h
    | cons b second =>
      rw [List.length_cons, List.length_cons, Nat.succ_inj] at h
      rw [oneEdit_cons_iff h, differences_cons]
      by_cases hab : a = b
      · rw [if_pos hab, List.nil_append, List.length_map, swapped_cons, ih h]
        constructor
        · rintro (heq | hedit)
          · exact Or.inl heq
          · exact Or.inr (Or.inl ⟨hab, hedit⟩)
        · rintro (heq | ⟨-, hedit⟩ | ⟨rest, rfl, rfl⟩)
          · exact Or.inl heq
          · exact Or.inr hedit
          · exact Or.inl (by rw [hab])
      · have hlength : (0 :: (differences first second).map (· + 1)).length ≤ 1 ↔
            first = second := by
          rw [← differences_eq_nil_iff h, List.length_cons, List.length_map,
            ← List.length_eq_zero_iff]
          omega
        rw [if_neg hab, List.singleton_append, hlength, swapped_first_iff hab h]
        constructor
        · rintro (heq | hswap)
          · exact Or.inl heq
          · exact Or.inr (Or.inr hswap)
        · rintro (heq | ⟨heq, -⟩ | hswap)
          · exact Or.inl heq
          · exact absurd heq hab
          · exact Or.inr hswap

theorem drop_agreement_iff {shorter longer : Text} (h : longer.length = shorter.length + 1) :
    shorter.drop (agreement shorter longer) = longer.drop (agreement shorter longer + 1) ↔
      OneDeletion longer shorter := by
  induction shorter generalizing longer with
  | nil =>
    obtain ⟨letter, rfl⟩ := List.length_eq_one_iff.mp h
    exact ⟨fun _ ↦ .mk [] letter [], fun _ ↦ rfl⟩
  | cons a shorter ih =>
    rcases longer with _ | ⟨b, longer⟩
    · cases h
    rw [List.length_cons, List.length_cons, Nat.succ_inj] at h
    rw [oneDeletion_cons_iff, agreement]
    by_cases hab : a = b
    · rw [if_pos hab, List.drop_succ_cons, List.drop_succ_cons, ih h]
      constructor
      · intro hdeletion
        exact Or.inr ⟨hab.symm, hdeletion⟩
      · rintro (rfl | ⟨-, hdeletion⟩)
        · exact .mk [] a shorter
        · exact hdeletion
    · rw [if_neg hab, List.drop_zero, List.drop_succ_cons, List.drop_zero]
      constructor
      · intro heq
        exact Or.inl heq.symm
      · rintro (heq | ⟨heq, -⟩)
        · exact heq.symm
        · exact absurd heq.symm hab

/-- `within_one_edit` decides the edit relation. -/
theorem withinOneEdit_iff (first second : Text) :
    withinOneEdit first second ↔ first = second ∨ OneEdit first second := by
  unfold withinOneEdit
  by_cases hfar : 1 < ((first.length : ℤ) - second.length).natAbs
  · rw [if_pos hfar]
    constructor
    · intro h
      cases h
    · rintro (rfl | hedit)
      · simp at hfar
      · have := hedit.length
        omega
  rw [if_neg hfar]
  by_cases hsame : first.length = second.length
  · rw [if_pos hsame, Bool.or_eq_true, decide_eq_true_eq]
    exact sameLength_iff hsame
  rw [if_neg hsame]
  have hne : first ≠ second := fun heq ↦ hsame (congrArg List.length heq)
  by_cases hshorter : first.length < second.length
  · have hlength : second.length = first.length + 1 := by omega
    simp only [if_pos hshorter, decide_eq_true_eq]
    rw [drop_agreement_iff hlength, oneEdit_of_longer hshorter, or_iff_right hne]
  · have hlonger : second.length < first.length := by omega
    have hlength : first.length = second.length + 1 := by omega
    simp only [if_neg hshorter, decide_eq_true_eq]
    rw [drop_agreement_iff hlength, oneEdit_of_shorter hlonger, or_iff_right hne]

/-! ## The search -/

section Search

variable {batches : List (List Text)} {query term : Text}

/-- The candidates that pass the verification are the stored terms one edit away. -/
theorem mem_candidates_iff :
    (term ∈ ((termsTable batches).filter fun row ↦
        row.1 ∈ insert query (deletions query).toFinset).image Prod.snd ∧
      term ≠ query ∧ withinOneEdit query term) ↔
    (∃ batch ∈ batches, term ∈ batch) ∧ term ≠ query ∧
      (minTermLength ≤ term.length ∧ term.length ≤ maxTermLength) ∧ OneEdit query term := by
  have hfound : term ∈ ((termsTable batches).filter fun row ↦
        row.1 ∈ insert query (deletions query).toFinset).image Prod.snd ↔
      ∃ variant, (variant, term) ∈ termsTable batches ∧ Neighbour query variant := by
    simp only [Finset.mem_image, Finset.mem_filter, Finset.mem_insert, List.mem_toFinset,
      mem_deletions, Neighbour, Prod.exists, exists_eq_right]
  rw [hfound, withinOneEdit_iff]
  constructor
  · rintro ⟨⟨variant, hrow, -⟩, hne, hedit⟩
    obtain ⟨hstored, hlength, -⟩ := mem_termsTable.mp hrow
    exact ⟨hstored, hne, hlength, hedit.resolve_left fun heq ↦ hne heq.symm⟩
  · rintro ⟨hstored, hne, hlength, hedit⟩
    obtain ⟨variant, hquery, hterm⟩ := hedit.common_neighbour
    exact ⟨⟨variant, mem_termsTable.mpr ⟨hstored, hlength, hterm⟩, hquery⟩, hne, Or.inr hedit⟩

open Classical in
/-- The stored terms that a query term may stand for. -/
noncomputable def oneEditAway (stored : Finset Text) (query : Text) : Finset Text :=
  stored.filter fun term ↦ term ≠ query ∧
    (minTermLength ≤ term.length ∧ term.length ≤ maxTermLength) ∧ OneEdit query term

theorem mem_oneEditAway {stored : Finset Text} :
    term ∈ oneEditAway stored query ↔ term ∈ stored ∧ term ≠ query ∧
      (minTermLength ≤ term.length ∧ term.length ≤ maxTermLength) ∧ OneEdit query term := by
  simp only [oneEditAway, Finset.mem_filter]

/-- The verified candidates, in ascending order. -/
theorem sort_candidates {stored : Finset Text}
    (hstored : ∀ term, term ∈ stored ↔ ∃ batch ∈ batches, term ∈ batch) (query : Text) :
    (((((termsTable batches).filter fun row ↦
        row.1 ∈ insert query (deletions query).toFinset).image Prod.snd).sort (· ≤ ·)).filter
          fun row ↦ row ≠ query ∧ withinOneEdit query row) =
      (oneEditAway stored query).sort (· ≤ ·) := by
  have hmem (term : Text) := @mem_candidates_iff batches query term
  generalize ((termsTable batches).filter fun row ↦
    row.1 ∈ insert query (deletions query).toFinset).image Prod.snd = found at hmem ⊢
  -- two ascending lists without repetitions that have the same members
  apply List.Perm.eq_of_pairwise fun a b _ _ (hle : a ≤ b) (hge : b ≤ a) ↦
    le_antisymm hle hge
  · exact (found.pairwise_sort (· ≤ ·)).filter _
  · exact Finset.pairwise_sort _ _
  · rw [List.perm_ext_iff_of_nodup ((found.sort_nodup _).filter _) (Finset.sort_nodup _ _)]
    intro term
    rw [List.mem_filter, Finset.mem_sort, Finset.mem_sort, decide_eq_true_eq, hmem, mem_oneEditAway,
      hstored]

theorem sort_toFinset (terms : List Text) :
    terms.toFinset.sort (· ≤ ·) = terms.dedup.insertionSort (· ≤ ·) := by
  have hsorted : (terms.dedup.insertionSort (· ≤ ·)).Pairwise (· ≤ ·) :=
    List.pairwise_insertionSort (α := Text) (· ≤ ·) _
  have hmembers : (terms.dedup.insertionSort (· ≤ ·)).toFinset = terms.toFinset := by
    ext term
    simp
  rw [← hmembers]
  exact (List.toFinset_sort (α := Text) (· ≤ ·)
    ((List.perm_insertionSort _ _).nodup_iff.mpr terms.nodup_dedup)).mpr hsorted

/-- `typo_terms` computed from the inserted rows. -/
theorem typoTerms_termsTable (isDigit : Char → Bool) (batches : List (List Text)) (query : Text) :
    typoTerms isDigit (termsTable batches) query =
      if query.length < minTypoLength ∨ isdigitText isDigit query then []
      else
        let found := (((batches.flatMap termRows).filter fun row ↦
          row.1 ∈ query :: deletions query).map Prod.snd)
        ((found.dedup.insertionSort (· ≤ ·)).filter fun row ↦
          row ≠ query ∧ withinOneEdit query row).take maxTypoTerms := by
  have hfound : ((termsTable batches).filter fun row ↦
      row.1 ∈ insert query (deletions query).toFinset).image Prod.snd =
        (((batches.flatMap termRows).filter fun row ↦
          row.1 ∈ query :: deletions query).map Prod.snd).toFinset := by
    ext term
    simp [termsTable]
  unfold typoTerms
  simp only [hfound, sort_toFinset]

/-- `typo_terms` returns the first stored terms one edit away, in ascending order: the lookup by
deletions reaches all of them, and the verification accepts no other term. -/
theorem typo_terms_exact (isDigit : Char → Bool) (stored : Finset Text)
    (batches : List (List Text)) (hstored : ∀ term, term ∈ stored ↔ ∃ batch ∈ batches, term ∈ batch)
    (query : Text) (hlength : minTypoLength ≤ query.length)
    (hdigit : isdigitText isDigit query = false) :
    typoTerms isDigit (termsTable batches) query =
        ((oneEditAway stored query).sort (· ≤ ·)).take maxTypoTerms ∧
      (∀ term ∈ oneEditAway stored query, ∃ variant ∈ query :: deletions query,
        (variant, term) ∈ termsTable batches) ∧
      ∀ term, term ≠ query → (withinOneEdit query term ↔ OneEdit query term) := by
  have hsearched : ¬(query.length < minTypoLength ∨ isdigitText isDigit query) := by
    rw [hdigit]
    simpa using hlength
  refine ⟨?_, fun term hterm ↦ ?_, fun term hne ↦ ?_⟩
  · rw [typoTerms, if_neg hsearched]
    exact congrArg (List.take maxTypoTerms) (sort_candidates hstored query)
  · obtain ⟨hmem, -, hbounds, hedit⟩ := mem_oneEditAway.mp hterm
    obtain ⟨variant, hquery, hother⟩ := hedit.common_neighbour
    refine ⟨variant, ?_, mem_termsTable.mpr ⟨(hstored term).mp hmem, hbounds, hother⟩⟩
    rw [List.mem_cons, mem_deletions]
    exact hquery
  · rw [withinOneEdit_iff, or_iff_right hne.symm]

def debianBatches : List (List Text) :=
  [["debian".toList, "fedora".toList], ["debain".toList, "dbain".toList]]

/-- Asked for `debain`, the index of two batches finds a transposition and a deletion, and neither the
term itself nor the other name. -/
theorem typo_terms_exact_debain :
    typoTerms Char.isDigit (termsTable debianBatches) "debain".toList =
        ["dbain".toList, "debian".toList] ∧
      ((oneEditAway (debianBatches.flatten.toFinset) "debain".toList).sort (· ≤ ·)).take
        maxTypoTerms = ["dbain".toList, "debian".toList] := by
  have hfound : typoTerms Char.isDigit (termsTable debianBatches) "debain".toList =
      ["dbain".toList, "debian".toList] := by
    rw [typoTerms_termsTable]
    decide +kernel
  have hstored (term : Text) : term ∈ debianBatches.flatten.toFinset ↔
      ∃ batch ∈ debianBatches, term ∈ batch := by
    rw [List.mem_toFinset, List.mem_flatten]
  obtain ⟨hexact, -⟩ := typo_terms_exact Char.isDigit debianBatches.flatten.toFinset debianBatches
    hstored "debain".toList (by decide) (by decide)
  exact ⟨hfound, hexact.symm.trans hfound⟩

end Search

end DhtScraper
