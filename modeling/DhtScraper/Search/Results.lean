import DhtScraper.Search.TypoIndex
import DhtScraper.Library.Selection

/-!
# The results of a search

`TorrentDatabase.search` over the tables of the database.  What an FTS5 expression matches is a
parameter: a predicate on expressions and row ids.  Rows that the `ORDER BY` of a query does not
separate come in the order of the table.

Without a sort column the results for a limit are the first ones of one list, which holds the exact
matches before the others.  With one, the exact matches stand alone while they fill the limit and
are merged with the others when they do not.
-/

namespace DhtScraper

open Library

def maxQueryTerms : ℕ := 16

/-- The keys of `SORT_EXPRESSIONS`. -/
inductive SortColumn where
  | name
  | size
  | fileCount
  | seenCount
  | announceCount
  | lastSeen
  deriving DecidableEq

/-- The columns `SEARCH_COLUMNS` of a row. -/
structure SearchRecord where
  infoHash : Bytes
  name : Text
  size : ℕ
  fileCount : ℕ
  seenCount : ℤ
  announceCount : ℤ
  firstSeen : ℚ
  lastSeen : ℚ
  deriving DecidableEq

/-- A row of `torrents`, with its id. -/
abbrev Row := ℕ × Document

def searchRecord (row : Row) : SearchRecord where
  infoHash := row.2.infoHash
  name := row.2.name
  size := row.2.size
  fileCount := row.2.fileCount
  seenCount := row.2.seenCount
  announceCount := row.2.announceCount
  firstSeen := row.2.firstSeen
  lastSeen := row.2.lastSeen

/-- `COLLATE NOCASE` folds the letters of ASCII. -/
def nocase (text : Text) : Text := text.map Char.toLower

namespace SortColumn

/-- Ascending order by the expression of a column. -/
def le : SortColumn → Row → Row → Bool
  | name, a, b => nocase a.2.name ≤ nocase b.2.name
  | size, a, b => a.2.size ≤ b.2.size
  | fileCount, a, b => a.2.fileCount ≤ b.2.fileCount
  | seenCount, a, b => a.2.seenCount ≤ b.2.seenCount
  | announceCount, a, b => a.2.announceCount ≤ b.2.announceCount
  | lastSeen, a, b => a.2.lastSeen ≤ b.2.lastSeen

def directed (column : SortColumn) (descending : Bool) : Row → Row → Bool :=
  if descending then fun a b ↦ column.le b a else column.le

end SortColumn

/-- `order_clause`: by the column and then by popularity, all in one direction; `RANK_ORDER`
without a column. -/
def orderClause (sort : Option SortColumn) (descending : Bool) : List (Row → Row → Bool) :=
  match sort with
  | none => [SortColumn.seenCount.directed true, SortColumn.lastSeen.directed true]
  | some sort =>
    (sort :: [SortColumn.seenCount, SortColumn.lastSeen].filter fun column ↦ column ≠ sort).map
      fun column ↦ column.directed descending

def quoted (term : Text) : Text := '"' :: term ++ ['"']

/-- One parenthesis of `match_expression`: the term, with a star when it is the last one, or one of
its alternatives. -/
def matchGroup (last : Bool) (term : Text) (alternatives : List Text) : Text :=
  '(' :: List.intercalate " OR ".toList
    ((quoted term ++ if last then ['*'] else []) :: alternatives.map quoted) ++ [')']

def matchExpression (terms : List Text) (alternatives : Option (List (List Text))) : Text :=
  List.intercalate " AND ".toList (terms.mapIdx fun position term ↦
    matchGroup (position = terms.length - 1) term (((alternatives.getD [])[position]?).getD []))

namespace TorrentDatabase

section Search

variable (ftsMatch : Text → ℕ → Bool) (textTerms : Text → List Text) (isDigit : Char → Bool)
  (tables : Tables)

/-- The `ORDER BY` of `run_match`: without a sort column the rows whose name matches come first. -/
def matchOrder (expression : Text) (sort : Option SortColumn) (descending : Bool) :
    List (Row → Row → Bool) :=
  match sort with
  | none =>
    let nameMatch := fun row : Row ↦ ftsMatch ("name : (".toList ++ expression ++ [')']) row.1
    (fun a b ↦ !nameMatch b || nameMatch a) :: orderClause none descending
  | some sort => orderClause (some sort) descending

def runMatch (expression : Text) (limit : ℕ) (sort : Option SortColumn) (descending : Bool) :
    List SearchRecord :=
  let rows := tables.torrents.items.filter fun row ↦ ftsMatch expression row.1
  (takeFirst (fun a b ↦ byKeys (matchOrder ftsMatch expression sort descending) a b) limit rows).map
    searchRecord

/-- The terms of a query that are searched. -/
def queryTerms (query : Text) : List Text := (textTerms query).take maxQueryTerms

def search (query : Text) (limit : ℕ) (sort : Option SortColumn) (descending : Bool) :
    List SearchRecord :=
  let terms := queryTerms textTerms query
  if terms = [] then
    (takeFirst (fun a b ↦ byKeys (orderClause sort descending) a b) limit
      tables.torrents.items).map searchRecord
  else
    let found := runMatch ftsMatch tables (matchExpression terms none) limit sort descending
    if found.length < limit then
      let alternatives := terms.map (typoTerms isDigit tables.terms)
      let expression := matchExpression terms (some alternatives)
      if alternatives.any (· ≠ []) then
        if sort.isSome then runMatch ftsMatch tables expression limit sort descending
        else
          let known := found.map SearchRecord.infoHash
          let extra := runMatch ftsMatch tables expression limit none true
          found ++ (extra.filter fun record ↦ record.infoHash ∉ known).take (limit - found.length)
      else found
    else found

end Search

/-! ## The orders -/

theorem totalPreorder_le (column : SortColumn) : TotalPreorder column.le := by
  cases column with
  | name =>
    constructor
    · intro a b
      simpa [SortColumn.le] using le_total (nocase a.2.name) (nocase b.2.name)
    · intro a b c hab hbc
      simp only [SortColumn.le, decide_eq_true_eq] at hab hbc ⊢
      exact le_trans hab hbc
  | _ =>
    constructor
    · intro a b
      simpa [SortColumn.le] using le_total _ _
    · intro a b c hab hbc
      simp only [SortColumn.le, decide_eq_true_eq] at hab hbc ⊢
      exact hab.trans hbc

theorem totalPreorder_directed (column : SortColumn) (descending : Bool) :
    TotalPreorder (column.directed descending) := by
  unfold SortColumn.directed
  split
  · exact (totalPreorder_le column).converse
  · exact totalPreorder_le column

theorem totalPreorder_orderClause (sort : Option SortColumn) (descending : Bool) :
    ∀ le ∈ orderClause sort descending, TotalPreorder le := by
  intro le hle
  unfold orderClause at hle
  cases sort with
  | none =>
    rcases List.mem_pair.mp hle with rfl | rfl
    · exact totalPreorder_directed _ true
    · exact totalPreorder_directed _ true
  | some sort =>
    obtain ⟨column, -, rfl⟩ := List.mem_map.mp hle
    exact totalPreorder_directed column descending

/-! ## The rows behind the records -/

section Rows

variable (ftsMatch : Text → ℕ → Bool) (textTerms : Text → List Text) (isDigit : Char → Bool)
  (tables : Tables)

/-- The table in the requested order. -/
def inOrder (sort : Option SortColumn) (descending : Bool) : List Row :=
  tables.torrents.items.insertionSort fun a b ↦ byKeys (orderClause sort descending) a b

/-- The rows that match an expression, in the order of `run_match`. -/
def ranked (expression : Text) (sort : Option SortColumn) (descending : Bool) : List Row :=
  (tables.torrents.items.filter fun row ↦ ftsMatch expression row.1).insertionSort
    fun a b ↦ byKeys (matchOrder ftsMatch expression sort descending) a b

def exactExpression (query : Text) : Text := matchExpression (queryTerms textTerms query) none

def alternatives (query : Text) : List (List Text) :=
  (queryTerms textTerms query).map (typoTerms isDigit tables.terms)

def typoExpression (query : Text) : Text :=
  matchExpression (queryTerms textTerms query) (some (alternatives textTerms isDigit tables query))

/-- Some term of the query has an alternative. -/
def hasAlternatives (query : Text) : Bool :=
  (alternatives textTerms isDigit tables query).any (· ≠ [])

/-- The row matches without alternatives; without terms every row does. -/
def exactMatch (query : Text) (row : Row) : Bool :=
  queryTerms textTerms query = [] || ftsMatch (exactExpression textTerms query) row.1

def typoMatch (query : Text) (row : Row) : Bool :=
  ftsMatch (typoExpression textTerms isDigit tables query) row.1

variable {ftsMatch textTerms isDigit tables}

theorem runMatch_eq (expression : Text) (limit : ℕ) (sort : Option SortColumn)
    (descending : Bool) : runMatch ftsMatch tables expression limit sort descending =
      ((ranked ftsMatch tables expression sort descending).take limit).map searchRecord := rfl

theorem mem_ranked {expression : Text} {sort : Option SortColumn} {descending : Bool} {row : Row} :
    row ∈ ranked ftsMatch tables expression sort descending ↔
      row ∈ tables.torrents.items ∧ ftsMatch expression row.1 := by
  rw [ranked, List.mem_insertionSort, List.mem_filter]

theorem mem_inOrder {sort : Option SortColumn} {descending : Bool} {row : Row} :
    row ∈ inOrder tables sort descending ↔ row ∈ tables.torrents.items := by
  rw [inOrder, List.mem_insertionSort]

/-- With a sort column the matches stand in the order of the table. -/
theorem ranked_eq_filter (expression : Text) (sort : SortColumn) (descending : Bool) :
    ranked ftsMatch tables expression (some sort) descending =
      (inOrder tables (some sort) descending).filter fun row ↦ ftsMatch expression row.1 := by
  have horder := totalPreorder_byKeys (totalPreorder_orderClause (some sort) descending)
  let before : Row → Row → Prop := fun a b ↦ byKeys (orderClause (some sort) descending) a b
  have htotal : Std.Total before := ⟨horder.total⟩
  have htrans : IsTrans Row before := ⟨horder.trans⟩
  exact (filter_insertionSort before _ _).symm

theorem nodup_items : tables.torrents.items.Nodup := tables.torrents.nodup.of_map Prod.fst

theorem nodup_ranked (expression : Text) (sort : Option SortColumn) (descending : Bool) :
    (ranked ftsMatch tables expression sort descending).Nodup :=
  (List.perm_insertionSort _ _).nodup_iff.mpr (nodup_items.filter _)

/-- The constraint of the table: a hash determines its row. -/
theorem row_eq_of_hash {row row' : Row} (hrow : row ∈ tables.torrents.items)
    (hrow' : row' ∈ tables.torrents.items) (h : row.2.infoHash = row'.2.infoHash) : row = row' := by
  have hhashes : (tables.torrents.items.map fun row ↦ row.2.infoHash).Nodup := by
    have hunique := tables.unique
    rwa [OrderedMap.values, List.map_map] at hunique
  exact List.inj_on_of_nodup_map hhashes hrow hrow' h

theorem searchRecord_inj {row row' : Row} (hrow : row ∈ tables.torrents.items)
    (hrow' : row' ∈ tables.torrents.items) (h : searchRecord row = searchRecord row') :
    row = row' :=
  row_eq_of_hash hrow hrow' (congrArg SearchRecord.infoHash h)

theorem nodup_map_searchRecord {rows : List Row} (hrows : rows.Nodup)
    (hsub : ∀ row ∈ rows, row ∈ tables.torrents.items) : (rows.map searchRecord).Nodup :=
  List.Nodup.map_on (fun row hrow row' hrow' h ↦
    searchRecord_inj (hsub row hrow) (hsub row' hrow') h) hrows

theorem mem_map_searchRecord {rows : List Row} (hsub : ∀ row ∈ rows, row ∈ tables.torrents.items)
    {row : Row} (hrow : row ∈ tables.torrents.items) :
    searchRecord row ∈ rows.map searchRecord ↔ row ∈ rows := by
  constructor
  · intro h
    obtain ⟨row', hrow', heq⟩ := List.mem_map.mp h
    rw [← searchRecord_inj (hsub row' hrow') hrow heq]
    exact hrow'
  · exact List.mem_map_of_mem

/-! ## The three forms of a search -/

variable {query : Text} {limit : ℕ} {sort : Option SortColumn} {descending : Bool}

theorem search_of_no_terms (hterms : queryTerms textTerms query = []) :
    search ftsMatch textTerms isDigit tables query limit sort descending =
      ((inOrder tables sort descending).take limit).map searchRecord := by
  rw [search]
  exact if_pos hterms

/-- The exact matches, and behind them the other matches. -/
def allRanked (ftsMatch : Text → ℕ → Bool) (textTerms : Text → List Text)
    (isDigit : Char → Bool) (tables : Tables) (query : Text) : List Row :=
  ranked ftsMatch tables (exactExpression textTerms query) none true ++
    if hasAlternatives textTerms isDigit tables query then
      (ranked ftsMatch tables (typoExpression textTerms isDigit tables query) none true).filter
        fun row ↦ !exactMatch ftsMatch textTerms query row
    else []

theorem exactMatch_eq (hterms : queryTerms textTerms query ≠ []) (row : Row) :
    exactMatch ftsMatch textTerms query row = ftsMatch (exactExpression textTerms query) row.1 := by
  simp [exactMatch, hterms]

/-- The matches that `search` adds to the exact ones when those do not fill the limit. -/
theorem extra_eq (hterms : queryTerms textTerms query ≠ []) (limit : ℕ) :
    let exact := ranked ftsMatch tables (exactExpression textTerms query) none true
    let merged := ranked ftsMatch tables (typoExpression textTerms isDigit tables query) none true
    (((merged.take limit).map searchRecord).filter fun record ↦
        record.infoHash ∉ (exact.map searchRecord).map SearchRecord.infoHash).take
          (limit - exact.length) =
      ((merged.filter fun row ↦ !exactMatch ftsMatch textTerms query row).take
        (limit - exact.length)).map searchRecord := by
  intro exact merged
  have hknown : ∀ row ∈ merged, decide ((searchRecord row).infoHash ∉
      (exact.map searchRecord).map SearchRecord.infoHash) =
        !exactMatch ftsMatch textTerms query row := by
    intro row hrow
    have hitem := (mem_ranked.mp hrow).1
    have hiff : (searchRecord row).infoHash ∈ (exact.map searchRecord).map SearchRecord.infoHash ↔
        exactMatch ftsMatch textTerms query row := by
      rw [exactMatch_eq hterms, List.map_map, List.mem_map]
      constructor
      · rintro ⟨other, hother, hhash⟩
        obtain ⟨hotherItem, hotherMatch⟩ := mem_ranked.mp hother
        rw [← row_eq_of_hash hotherItem hitem hhash]
        exact hotherMatch
      · intro hmatch
        exact ⟨row, mem_ranked.mpr ⟨hitem, hmatch⟩, rfl⟩
    rw [decide_not, Bool.decide_congr hiff, Bool.decide_coe]
  have hcount : (merged.filter fun row ↦ !!exactMatch ftsMatch textTerms query row).length ≤
      exact.length := by
    apply List.Subperm.length_le
    apply List.subperm_of_subset ((nodup_ranked _ _ _).filter _)
    intro row hrow
    rw [List.mem_filter, Bool.not_not, exactMatch_eq hterms] at hrow
    exact mem_ranked.mpr ⟨(mem_ranked.mp hrow.1).1, hrow.2⟩
  rw [List.filter_map, ← List.map_take]
  congr 1
  rw [← take_filter_take _ hcount]
  congr 1
  exact List.filter_congr fun row hrow ↦ hknown row (List.mem_of_mem_take hrow)

theorem search_of_terms (hterms : queryTerms textTerms query ≠ []) :
    search ftsMatch textTerms isDigit tables query limit sort descending =
      let found := runMatch ftsMatch tables (exactExpression textTerms query) limit sort descending
      let expression := typoExpression textTerms isDigit tables query
      if found.length < limit then
        if hasAlternatives textTerms isDigit tables query then
          if sort.isSome then runMatch ftsMatch tables expression limit sort descending
          else found ++ ((runMatch ftsMatch tables expression limit none true).filter fun record ↦
            record.infoHash ∉ found.map SearchRecord.infoHash).take (limit - found.length)
        else found
      else found :=
  if_neg hterms

theorem length_runMatch_lt_iff (expression : Text) :
    (runMatch ftsMatch tables expression limit sort descending).length < limit ↔
      (ranked ftsMatch tables expression sort descending).length < limit := by
  rw [runMatch_eq, List.length_map, List.length_take]
  omega

theorem search_unsorted (hterms : queryTerms textTerms query ≠ []) :
    search ftsMatch textTerms isDigit tables query limit none descending =
      ((allRanked ftsMatch textTerms isDigit tables query).take limit).map searchRecord := by
  have hexact : runMatch ftsMatch tables (exactExpression textTerms query) limit none descending =
      ((ranked ftsMatch tables (exactExpression textTerms query) none true).take limit).map
        searchRecord := rfl
  have hiff : (runMatch ftsMatch tables (exactExpression textTerms query) limit none true).length <
      limit ↔ (ranked ftsMatch tables (exactExpression textTerms query) none true).length < limit :=
    length_runMatch_lt_iff _
  rw [search_of_terms hterms, allRanked]
  simp only [Option.isSome_none, Bool.false_eq_true, if_false]
  rw [runMatch_eq] at hiff
  rw [hexact]
  by_cases hshort : (ranked ftsMatch tables (exactExpression textTerms query) none true).length <
      limit
  · rw [if_pos (hiff.mpr hshort), List.take_of_length_le hshort.le]
    by_cases halternatives : hasAlternatives textTerms isDigit tables query
    · rw [if_pos halternatives, if_pos halternatives, List.take_append,
        List.take_of_length_le hshort.le, List.map_append, ← extra_eq hterms limit, runMatch_eq,
        List.length_map]
    · rw [if_neg halternatives, if_neg halternatives, List.append_nil,
        List.take_of_length_le hshort.le]
  · rw [if_neg (hiff.not.mpr hshort), List.take_append_of_le_length (Nat.le_of_not_lt hshort)]

theorem search_sorted (hterms : queryTerms textTerms query ≠ []) (column : SortColumn) :
    search ftsMatch textTerms isDigit tables query limit (some column) descending =
      if (ranked ftsMatch tables (exactExpression textTerms query) (some column)
          descending).length < limit ∧ hasAlternatives textTerms isDigit tables query then
        ((ranked ftsMatch tables (typoExpression textTerms isDigit tables query) (some column)
          descending).take limit).map searchRecord
      else
        ((ranked ftsMatch tables (exactExpression textTerms query) (some column)
          descending).take limit).map searchRecord := by
  have hiff : (runMatch ftsMatch tables (exactExpression textTerms query) limit (some column)
        descending).length < limit ↔
      (ranked ftsMatch tables (exactExpression textTerms query) (some column) descending).length <
        limit :=
    length_runMatch_lt_iff _
  rw [search_of_terms hterms]
  simp only [Option.isSome_some, if_true]
  by_cases hshort : (ranked ftsMatch tables (exactExpression textTerms query) (some column)
      descending).length < limit
  · rw [if_pos (hiff.mpr hshort)]
    by_cases halternatives : hasAlternatives textTerms isDigit tables query
    · rw [if_pos halternatives, if_pos ⟨hshort, halternatives⟩, runMatch_eq]
    · rw [if_neg halternatives, if_neg fun h ↦ halternatives h.2, runMatch_eq]
  · rw [if_neg (hiff.not.mpr hshort), if_neg fun h ↦ hshort h.1, runMatch_eq]

/-! ## Two limits -/

variable (ftsMatch textTerms isDigit tables)

/-- What the results for the limit `n` owe to those for the limit `m`. -/
structure KeptByLimit (query : Text) (sort : Option SortColumn) (descending : Bool) (n m : ℕ) :
    Prop where
  nodup : (search ftsMatch textTerms isDigit tables query n sort descending).Nodup
  length : (search ftsMatch textTerms isDigit tables query n sort descending).length ≤ n
  kept : ∀ record ∈ search ftsMatch textTerms isDigit tables query n sort descending,
    record ∈ search ftsMatch textTerms isDigit tables query m sort descending
  unsorted : sort = none →
    search ftsMatch textTerms isDigit tables query n sort descending <+:
      search ftsMatch textTerms isDigit tables query m sort descending ∧
    ∃ exact others : List Row,
      search ftsMatch textTerms isDigit tables query n sort descending =
        (exact ++ others).map searchRecord ∧
      (∀ row ∈ exact, row ∈ tables.torrents.items ∧ exactMatch ftsMatch textTerms query row) ∧
      ∀ row ∈ others, row ∈ tables.torrents.items ∧ ¬exactMatch ftsMatch textTerms query row

/-- How many rows with a property the requested order puts before a row. -/
def countBefore (sort : Option SortColumn) (descending : Bool) (p : Row → Bool) (row : Row) : ℕ :=
  (((inOrder tables sort descending).takeWhile (· ≠ row)).filter p).length

/-- The exact matches fill the smaller limit but not the larger one, and one that is shown for the
smaller limit has too many other matches before it. -/
def CrowdedOut (query : Text) (sort : Option SortColumn) (descending : Bool) (n m : ℕ) : Prop :=
  sort ≠ none ∧ queryTerms textTerms query ≠ [] ∧ hasAlternatives textTerms isDigit tables query ∧
    n ≤ (tables.torrents.items.filter (exactMatch ftsMatch textTerms query)).length ∧
    (tables.torrents.items.filter (exactMatch ftsMatch textTerms query)).length < m ∧
    ∃ row ∈ tables.torrents.items, exactMatch ftsMatch textTerms query row ∧
      countBefore tables sort descending (exactMatch ftsMatch textTerms query) row < n ∧
      m ≤ countBefore tables sort descending (typoMatch ftsMatch textTerms isDigit tables query) row

variable {ftsMatch textTerms isDigit tables} {n m : ℕ}

theorem map_take_subset {rows : List Row} (h : n ≤ m) :
    ∀ record ∈ (rows.take n).map searchRecord, record ∈ (rows.take m).map searchRecord :=
  fun _ hrecord ↦ ((List.take_sublist_take_left h).map searchRecord).subset hrecord

theorem length_map_take_le (rows : List Row) (n : ℕ) :
    ((rows.take n).map searchRecord).length ≤ n := by
  rw [List.length_map]
  exact List.length_take_le n rows

theorem nodup_map_take {rows : List Row} (hrows : rows.Nodup)
    (hsub : ∀ row ∈ rows, row ∈ tables.torrents.items) (n : ℕ) :
    ((rows.take n).map searchRecord).Nodup :=
  nodup_map_searchRecord (hrows.sublist (List.take_sublist n rows))
    fun row hrow ↦ hsub row (List.mem_of_mem_take hrow)

/-- A query without terms returns the first rows of the table in the requested order. -/
theorem keptByLimit_of_no_terms (hterms : queryTerms textTerms query = []) (h : n ≤ m) :
    KeptByLimit ftsMatch textTerms isDigit tables query sort descending n m := by
  have hsub : ∀ row ∈ inOrder tables sort descending, row ∈ tables.torrents.items :=
    fun row hrow ↦ mem_inOrder.mp hrow
  have hnodup : (inOrder tables sort descending).Nodup :=
    (List.perm_insertionSort _ _).nodup_iff.mpr nodup_items
  constructor
  case nodup =>
    rw [search_of_no_terms hterms]
    exact nodup_map_take hnodup hsub n
  case length =>
    rw [search_of_no_terms hterms]
    exact length_map_take_le _ n
  case kept =>
    rw [search_of_no_terms hterms, search_of_no_terms hterms]
    exact map_take_subset h
  case unsorted =>
    intro _
    rw [search_of_no_terms hterms, search_of_no_terms hterms]
    refine ⟨(List.take_prefix_take_left h).map searchRecord,
      (inOrder tables sort descending).take n, [], by rw [List.append_nil], fun row hrow ↦ ?_,
      fun row hrow ↦ absurd hrow List.not_mem_nil⟩
    exact ⟨hsub row (List.mem_of_mem_take hrow), by simp [exactMatch, hterms]⟩

theorem mem_allRanked {row : Row} (hrow : row ∈ allRanked ftsMatch textTerms isDigit tables query) :
    row ∈ tables.torrents.items := by
  unfold allRanked at hrow
  rcases List.mem_append.mp hrow with hexact | hother
  · exact (mem_ranked.mp hexact).1
  · split at hother
    · exact (mem_ranked.mp (List.mem_of_mem_filter hother)).1
    · cases hother

theorem nodup_allRanked (hterms : queryTerms textTerms query ≠ []) :
    (allRanked ftsMatch textTerms isDigit tables query).Nodup := by
  unfold allRanked
  rw [List.nodup_append]
  refine ⟨nodup_ranked _ _ _, ?_, fun row hexact other hother heq ↦ ?_⟩
  · split
    · exact (nodup_ranked _ _ _).filter _
    · exact List.nodup_nil
  · subst heq
    split at hother
    · have hmatch := List.of_mem_filter hother
      rw [exactMatch_eq hterms, (mem_ranked.mp hexact).2] at hmatch
      cases hmatch
    · cases hother

/-- Without a sort column every limit cuts the same list. -/
theorem keptByLimit_unsorted (hterms : queryTerms textTerms query ≠ []) (h : n ≤ m) :
    KeptByLimit ftsMatch textTerms isDigit tables query none descending n m := by
  constructor
  case nodup =>
    rw [search_unsorted hterms]
    exact nodup_map_take (nodup_allRanked hterms) (fun _ ↦ mem_allRanked) n
  case length =>
    rw [search_unsorted hterms]
    exact length_map_take_le _ n
  case kept =>
    rw [search_unsorted hterms, search_unsorted hterms]
    exact map_take_subset h
  case unsorted =>
    intro _
    rw [search_unsorted hterms, search_unsorted hterms]
    refine ⟨(List.take_prefix_take_left h).map searchRecord, ?_⟩
    let exact := ranked ftsMatch tables (exactExpression textTerms query) none true
    refine ⟨exact.take n, (if hasAlternatives textTerms isDigit tables query then
      (ranked ftsMatch tables (typoExpression textTerms isDigit tables query) none true).filter
        fun row ↦ !exactMatch ftsMatch textTerms query row else []).take (n - exact.length), ?_,
      fun row hrow ↦ ?_, fun row hrow ↦ ?_⟩
    · rw [allRanked, List.take_append]
    · obtain ⟨hitem, hmatch⟩ := mem_ranked.mp (List.mem_of_mem_take hrow)
      exact ⟨hitem, by rw [exactMatch_eq hterms]; exact hmatch⟩
    · have hmem := List.mem_of_mem_take hrow
      split at hmem
      · obtain ⟨hitem, hother⟩ := List.mem_filter.mp hmem
        exact ⟨(mem_ranked.mp hitem).1, by simpa using hother⟩
      · cases hmem

theorem length_exact (hterms : queryTerms textTerms query ≠ []) :
    (tables.torrents.items.filter (exactMatch ftsMatch textTerms query)).length =
      (ranked ftsMatch tables (exactExpression textTerms query) sort descending).length := by
  rw [ranked, List.length_insertionSort]
  exact congrArg List.length (List.filter_congr fun row _ ↦ exactMatch_eq hterms row)

/-- With a sort column a row is shown for a limit when few enough matches stand before it. -/
theorem mem_take_ranked_iff {expression : Text} {column : SortColumn} {row : Row} :
    row ∈ (ranked ftsMatch tables expression (some column) descending).take n ↔
      row ∈ tables.torrents.items ∧ ftsMatch expression row.1 ∧
        countBefore tables (some column) descending (fun row ↦ ftsMatch expression row.1) row <
          n := by
  rw [ranked_eq_filter, mem_take_filter_iff, mem_inOrder, countBefore]

/-- With a sort column the law holds exactly when no exact match is crowded out. -/
theorem keptByLimit_sorted_iff
    (hfts : ∀ (terms : List Text) (alternatives : List (List Text)) (id : ℕ),
      alternatives.length = terms.length → ftsMatch (matchExpression terms none) id →
        ftsMatch (matchExpression terms (some alternatives)) id)
    (hterms : queryTerms textTerms query ≠ []) (column : SortColumn) (h : n ≤ m) :
    KeptByLimit ftsMatch textTerms isDigit tables query (some column) descending n m ↔
      ¬CrowdedOut ftsMatch textTerms isDigit tables query (some column) descending n m := by
  let exact := ranked ftsMatch tables (exactExpression textTerms query) (some column) descending
  let merged := ranked ftsMatch tables (typoExpression textTerms isDigit tables query) (some column)
    descending
  have hlength : (tables.torrents.items.filter (exactMatch ftsMatch textTerms query)).length =
      exact.length := length_exact hterms
  have hexactMatch : exactMatch ftsMatch textTerms query =
      fun row ↦ ftsMatch (exactExpression textTerms query) row.1 := funext (exactMatch_eq hterms)
  have hsub {expression : Text} : ∀ row ∈ ranked ftsMatch tables expression (some column)
      descending, row ∈ tables.torrents.items := fun row hrow ↦ (mem_ranked.mp hrow).1
  -- only the third part of the law depends on the limits
  have hkept : KeptByLimit ftsMatch textTerms isDigit tables query (some column) descending n m ↔
      ∀ record ∈ search ftsMatch textTerms isDigit tables query n (some column) descending,
        record ∈ search ftsMatch textTerms isDigit tables query m (some column) descending := by
    refine ⟨KeptByLimit.kept, fun hkept ↦ ⟨?_, ?_, hkept, fun hnone ↦ by cases hnone⟩⟩
    · rw [search_sorted hterms]
      split
      · exact nodup_map_take (nodup_ranked _ _ _) hsub n
      · exact nodup_map_take (nodup_ranked _ _ _) hsub n
    · rw [search_sorted hterms]
      split
      · exact length_map_take_le _ n
      · exact length_map_take_le _ n
  rw [hkept, search_sorted hterms, search_sorted hterms]
  by_cases halternatives : hasAlternatives textTerms isDigit tables query
  · by_cases hn : exact.length < n
    · have hm : exact.length < m := hn.trans_le h
      rw [if_pos ⟨hn, halternatives⟩, if_pos ⟨hm, halternatives⟩]
      refine ⟨fun _ hcrowded ↦ ?_, fun _ ↦ map_take_subset h⟩
      have hfilled := hcrowded.2.2.2.1
      rw [hlength] at hfilled
      omega
    · rw [if_neg fun hshort ↦ hn hshort.1]
      by_cases hm : exact.length < m
      · rw [if_pos ⟨hm, halternatives⟩]
        constructor
        · rintro hall ⟨-, -, -, -, -, row, hitem, hmatch, hbefore, hcrowd⟩
          rw [hexactMatch] at hmatch hbefore
          have hshown : row ∈ exact.take n := mem_take_ranked_iff.mpr ⟨hitem, hmatch, hbefore⟩
          have hlarger := hall _ (List.mem_map_of_mem hshown)
          rw [mem_map_searchRecord (fun row hrow ↦ hsub row (List.mem_of_mem_take hrow)) hitem,
            mem_take_ranked_iff] at hlarger
          exact absurd hlarger.2.2 (Nat.not_lt.mpr hcrowd)
        · intro hfree record hrecord
          obtain ⟨row, hrow, rfl⟩ := List.mem_map.mp hrecord
          obtain ⟨hitem, hmatch, hbefore⟩ := mem_take_ranked_iff.mp hrow
          refine List.mem_map_of_mem (mem_take_ranked_iff.mpr ⟨hitem, ?_, ?_⟩)
          · exact hfts _ _ _ (List.length_map _) hmatch
          · by_contra hcrowd
            refine hfree ⟨(fun hnone ↦ by cases hnone), hterms, halternatives, ?_, ?_, row, hitem, ?_,
              ?_, Nat.le_of_not_lt hcrowd⟩
            · rw [hlength]
              exact Nat.le_of_not_lt hn
            · rw [hlength]
              exact hm
            · rw [hexactMatch]
              exact hmatch
            · rw [hexactMatch]
              exact hbefore
      · rw [if_neg fun hshort ↦ hm hshort.1]
        refine ⟨fun _ hcrowded ↦ ?_, fun _ ↦ map_take_subset h⟩
        have hshort := hcrowded.2.2.2.2.1
        rw [hlength] at hshort
        exact hm hshort
  · rw [if_neg fun hshort ↦ halternatives hshort.2, if_neg fun hshort ↦ halternatives hshort.2]
    exact ⟨fun _ hcrowded ↦ halternatives hcrowded.2.2.1, fun _ ↦ map_take_subset h⟩

end Rows

/-- Asking for more results loses none of those shown before, unless exact matches are crowded out
of a sorted search. -/
theorem more_results_iff (ftsMatch : Text → ℕ → Bool) (textTerms : Text → List Text)
    (isDigit : Char → Bool)
    (hfts : ∀ (terms : List Text) (alternatives : List (List Text)) (id : ℕ),
      alternatives.length = terms.length → ftsMatch (matchExpression terms none) id →
        ftsMatch (matchExpression terms (some alternatives)) id)
    (tables : Tables) (query : Text) (sort : Option SortColumn) (descending : Bool) (n m : ℕ)
    (hlimits : n ≤ m) :
    KeptByLimit ftsMatch textTerms isDigit tables query sort descending n m ↔
      ¬CrowdedOut ftsMatch textTerms isDigit tables query sort descending n m := by
  by_cases hterms : queryTerms textTerms query = []
  · exact ⟨fun _ hcrowded ↦ hcrowded.2.1 hterms, fun _ ↦ keptByLimit_of_no_terms hterms hlimits⟩
  cases sort with
  | none => exact ⟨fun _ hcrowded ↦ hcrowded.1 rfl, fun _ ↦ keptByLimit_unsorted hterms hlimits⟩
  | some column => exact keptByLimit_sorted_iff hfts hterms column hlimits

/-! ## An exact match that is crowded out -/

section Example

/-- A torrent of the given name and size. -/
def namedDocument (n : UInt8) (name : String) (size : ℕ) : Document where
  infoHash := List.replicate 20 n
  name := name.toList
  size := size
  fileCount := 1
  pieceLength := 16384
  isPrivate := false
  fetchedAt := 1
  seenCount := 1
  announceCount := 0
  firstSeen := 1
  lastSeen := 1
  files := []
  seenCount_nonneg := Int.one_nonneg

/-- `alpha`, and two larger torrents whose names are one edit away. -/
def alphaTables : Tables where
  torrents := ⟨[(1, namedDocument 1 "alpha" 10), (2, namedDocument 2 "alphb" 20),
    (3, namedDocument 3 "alphc" 30)], by decide⟩
  torrentsFts := [(1, "alpha".toList, []), (2, "alphb".toList, []), (3, "alphc".toList, [])]
  terms := termsTable [["alpha".toList], ["alphb".toList], ["alphc".toList]]
  totals := ⟨3, 60, 3⟩
  unique := by decide

/-- What the expressions for `alpha` match: without alternatives the first row, with them all. -/
def alphaMatch (expression : Text) (id : ℕ) : Bool :=
  id = 1 || decide (("(\"alpha\"*)".toList).length < expression.length)

theorem sublist_intercalate {separator : Text} {groups groups' : List Text}
    (h : List.Forall₂ List.Sublist groups groups') :
    (List.intercalate separator groups).Sublist (List.intercalate separator groups') := by
  induction h with
  | nil => exact List.Sublist.refl _
  | cons hfirst hrest ih =>
    cases hrest with
    | nil => simpa [List.intercalate] using hfirst
    | cons hsecond hrest =>
      rw [List.intercalate_cons_cons, List.intercalate_cons_cons]
      exact (hfirst.append (List.Sublist.refl _)).append ih

theorem sublist_matchGroup (last : Bool) (term : Text) (others : List Text) :
    (matchGroup last term []).Sublist (matchGroup last term others) := by
  unfold matchGroup
  apply List.Sublist.append _ (List.Sublist.refl _)
  apply List.Sublist.cons_cons
  cases others with
  | nil => exact List.Sublist.refl _
  | cons first rest =>
    rw [List.map_nil, List.intercalate_singleton, List.map_cons, List.intercalate_cons_cons,
      List.append_assoc]
    exact List.sublist_append_left _ _

theorem forall₂_mapIdx {terms : List Text} {f g : ℕ → Text → Text}
    (h : ∀ position term, (f position term).Sublist (g position term)) :
    List.Forall₂ List.Sublist (terms.mapIdx f) (terms.mapIdx g) := by
  induction terms generalizing f g with
  | nil => exact .nil
  | cons term rest ih =>
    rw [List.mapIdx_cons, List.mapIdx_cons]
    exact .cons (h 0 term) (ih fun position ↦ h (position + 1))

/-- Alternatives only add to an expression. -/
theorem sublist_matchExpression (terms : List Text) (others : List (List Text)) :
    (matchExpression terms none).Sublist (matchExpression terms (some others)) := by
  apply sublist_intercalate
  apply forall₂_mapIdx
  intro position term
  exact sublist_matchGroup _ term _

theorem alphaMatch_mono (terms : List Text) (others : List (List Text)) (id : ℕ)
    (h : alphaMatch (matchExpression terms none) id) :
    alphaMatch (matchExpression terms (some others)) id := by
  have hlength := (sublist_matchExpression terms others).length_le
  simp only [alphaMatch, Bool.or_eq_true, decide_eq_true_eq] at h ⊢
  exact h.imp_right fun hlong ↦ hlong.trans_le hlength

theorem alternatives_alpha : alternatives (fun text ↦ [text]) Char.isDigit alphaTables
    "alpha".toList = [["alphb".toList, "alphc".toList]] := by
  have hterms : typoTerms Char.isDigit alphaTables.terms "alpha".toList =
      ["alphb".toList, "alphc".toList] := by
    rw [show alphaTables.terms = termsTable [["alpha".toList], ["alphb".toList],
      ["alphc".toList]] from rfl, typoTerms_termsTable]
    decide +kernel
  exact congrArg (fun found ↦ [found]) hterms

/-- One exact match does not fill the limit of two: the matches are merged, and three results show
what two do. -/
theorem more_results_iff_alpha :
    KeptByLimit alphaMatch (fun text ↦ [text]) Char.isDigit alphaTables "alpha".toList
      (some .size) true 2 3 := by
  refine (more_results_iff alphaMatch (fun text ↦ [text]) Char.isDigit
    (fun terms others id _ h ↦ alphaMatch_mono terms others id h) alphaTables "alpha".toList
    (some .size) true 2 3 (by decide)).mpr ?_
  rintro ⟨-, -, -, hfilled, -⟩
  exact absurd hfilled (by decide +kernel)

/-- It fills the limit of one; for two results the two larger torrents are shown instead. -/
theorem sorted_search_loses_result :
    ¬∀ (ftsMatch : Text → ℕ → Bool) (textTerms : Text → List Text) (isDigit : Char → Bool),
      (∀ (terms : List Text) (alternatives : List (List Text)) (id : ℕ),
        alternatives.length = terms.length → ftsMatch (matchExpression terms none) id →
          ftsMatch (matchExpression terms (some alternatives)) id) →
      ∀ (tables : Tables) (query : Text) (sort : Option SortColumn) (descending : Bool) (n m : ℕ),
        1 ≤ n → n ≤ m →
          KeptByLimit ftsMatch textTerms isDigit tables query sort descending n m := by
  intro h
  have hkept := (h alphaMatch (fun text ↦ [text]) Char.isDigit
    (fun terms others id _ h ↦ alphaMatch_mono terms others id h) alphaTables "alpha".toList
    (some .size) true 1 2 (by decide) (by decide)).kept
  have hshown : searchRecord (1, namedDocument 1 "alpha" 10) ∈
      search alphaMatch (fun text ↦ [text]) Char.isDigit alphaTables "alpha".toList 1
        (some .size) true := by decide +kernel
  have hlost : searchRecord (1, namedDocument 1 "alpha" 10) ∉
      search alphaMatch (fun text ↦ [text]) Char.isDigit alphaTables "alpha".toList 2
        (some .size) true := by
    have hshort : (ranked alphaMatch alphaTables (exactExpression (fun text ↦ [text])
        "alpha".toList) (some .size) true).length < 2 := by decide +kernel
    have hsome : hasAlternatives (fun text ↦ [text]) Char.isDigit alphaTables "alpha".toList := by
      rw [hasAlternatives, alternatives_alpha]
      decide
    rw [search_sorted (by decide), if_pos ⟨hshort, hsome⟩, typoExpression, alternatives_alpha]
    decide +kernel
  exact hlost (hkept _ hshown)

end Example

end TorrentDatabase

end DhtScraper
