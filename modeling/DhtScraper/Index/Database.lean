import DhtScraper.Catalog.Entry

/-!
# The search database, as the index thread sees it

The table `torrents` as a partial map from info hashes to rows.  A row has the columns of the
document it was inserted with; later documents and counter updates of the same hash only add to the
counters and widen the time span.  A write is one transaction, so it either happens whole or not at
all.  The full-text index, the terms and the totals, which no lookup of the index thread reads, are
left out.
-/

namespace DhtScraper

open Library

/-- The two counters that entries, snapshots, documents and rows all carry. -/
inductive Counter where
  | seen
  | announce
  deriving DecidableEq

instance : Fintype Counter := ⟨{.seen, .announce}, fun k ↦ by cases k <;> decide⟩

def maxSqliteInteger : ℕ := 2 ^ 63 - 1

/-- A document, and also a row: `build_document` asserts the sign of the seen count. -/
structure Document where
  infoHash : Bytes
  name : Text
  size : ℕ
  fileCount : ℕ
  pieceLength : ℕ
  isPrivate : Bool
  fetchedAt : ℚ
  seenCount : ℤ
  announceCount : ℤ
  firstSeen : ℚ
  lastSeen : ℚ
  files : List (Text × ℕ)
  seenCount_nonneg : 0 ≤ seenCount
  deriving DecidableEq

/-- A counter update: `build_counter_update` asserts the sign of the seen delta. -/
structure CounterUpdate where
  infoHash : Bytes
  seenDelta : ℤ
  announceDelta : ℤ
  lastSeen : ℚ
  seenDelta_nonneg : 0 ≤ seenDelta

abbrev Rows := Bytes → Option Document

def TorrentEntry.count (entry : TorrentEntry) : Counter → ℤ
  | .seen => entry.seenCount
  | .announce => entry.announceCount

def TorrentEntry.flushed (entry : TorrentEntry) : Counter → ℤ
  | .seen => entry.flushedSeen
  | .announce => entry.flushedAnnounce

def IndexSnapshot.delta (snapshot : IndexSnapshot) : Counter → ℤ
  | .seen => snapshot.seenDelta
  | .announce => snapshot.announceDelta

def Document.count (document : Document) : Counter → ℤ
  | .seen => document.seenCount
  | .announce => document.announceCount

def CounterUpdate.delta (update : CounterUpdate) : Counter → ℤ
  | .seen => update.seenDelta
  | .announce => update.announceDelta

namespace Document

/-- The columns `seen_count`, `announce_count` and `first_seen`. -/
def counters (row : Document) : IndexBase := (row.seenCount, row.announceCount, some row.firstSeen)

/-- The `UPDATE` of `write_documents`. -/
def addDocument (row document : Document) : Document :=
  { row with
    seenCount := row.seenCount + document.seenCount
    announceCount := row.announceCount + document.announceCount
    firstSeen := min row.firstSeen document.firstSeen
    lastSeen := max row.lastSeen document.lastSeen
    seenCount_nonneg := add_nonneg row.seenCount_nonneg document.seenCount_nonneg }

/-- The `UPDATE` of `update_counters`. -/
def addUpdate (row : Document) (update : CounterUpdate) : Document :=
  { row with
    seenCount := row.seenCount + update.seenDelta
    announceCount := row.announceCount + update.announceDelta
    lastSeen := max row.lastSeen update.lastSeen
    seenCount_nonneg := add_nonneg row.seenCount_nonneg update.seenDelta_nonneg }

end Document

namespace Rows

/-- One iteration of `write_documents`: the counters a row had before are returned. -/
def writeDocument (written : Rows × OrderedMap Bytes IndexBase) (document : Document) :
    Rows × OrderedMap Bytes IndexBase :=
  match written.1 document.infoHash with
  | none => (Function.update written.1 document.infoHash (some document), written.2)
  | some row =>
    (Function.update written.1 document.infoHash (some (row.addDocument document)),
      written.2.insert document.infoHash row.counters)

/-- `write_documents`, committed. -/
def writeDocuments (rows : Rows) (documents : List Document) :
    Rows × OrderedMap Bytes IndexBase :=
  documents.foldl writeDocument (rows, .empty)

/-- One iteration of `update_counters`. -/
def updateCounter (updated : Rows × List Bytes) (update : CounterUpdate) : Rows × List Bytes :=
  match updated.1 update.infoHash with
  | none => (updated.1, updated.2 ++ [update.infoHash])
  | some row =>
    (Function.update updated.1 update.infoHash (some (row.addUpdate update)), updated.2)

/-- `update_counters`, committed, with the hashes that have no row. -/
def updateCounters (rows : Rows) (updates : List CounterUpdate) : Rows × List Bytes :=
  updates.foldl updateCounter (rows, [])

/-- `lookup_counters`. -/
def lookupCounters (rows : Rows) (infoHashes : List Bytes) : List (Bytes × IndexBase) :=
  infoHashes.filterMap fun infoHash ↦ (rows infoHash).map fun row ↦ (infoHash, row.counters)

/-- The value of a counter in the row of a hash, zero when there is no row. -/
def count (rows : Rows) (k : Counter) (h : Bytes) : ℤ := ((rows h).map fun row ↦ row.count k).getD 0

theorem count_update (rows : Rows) (k : Counter) (h h' : Bytes) (row : Document) :
    count (Function.update rows h (some row)) k h' =
      count rows k h' + if h' = h then row.count k - count rows k h else 0 := by
  by_cases heq : h' = h
  · subst heq
    simp [count]
  · simp [count, heq]

/-! ## Writing documents -/

theorem count_writeDocument (written : Rows × OrderedMap Bytes IndexBase) (document : Document)
    (k : Counter) (h : Bytes) : count (writeDocument written document).1 k h =
      count written.1 k h + if h = document.infoHash then document.count k else 0 := by
  unfold writeDocument
  cases hrow : written.1 document.infoHash with
  | none =>
    rw [count_update]
    simp [count, hrow]
  | some row =>
    have hsum : (row.addDocument document).count k = row.count k + document.count k := by
      cases k <;> rfl
    rw [count_update, hsum]
    simp [count, hrow]

theorem count_writeDocuments (rows : Rows) (documents : List Document) (k : Counter) (h : Bytes) :
    count (writeDocuments rows documents).1 k h = count rows k h +
      ((documents.filter fun document ↦ document.infoHash = h).map fun document ↦
        document.count k).sum := by
  have hfold : ∀ (documents : List Document) (written : Rows × OrderedMap Bytes IndexBase),
      count (documents.foldl writeDocument written).1 k h = count written.1 k h +
        ((documents.filter fun document ↦ document.infoHash = h).map fun document ↦
          document.count k).sum := by
    intro documents
    induction documents with
    | nil => simp
    | cons document rest ih =>
      intro written
      rw [List.foldl_cons, ih, count_writeDocument]
      by_cases heq : document.infoHash = h
      · simp [heq, add_assoc]
      · simp [heq, Ne.symm heq]
  exact hfold documents (rows, .empty)

theorem isSome_writeDocument (written : Rows × OrderedMap Bytes IndexBase) (document : Document)
    (h : Bytes) : ((writeDocument written document).1 h).isSome ↔
      (written.1 h).isSome ∨ h = document.infoHash := by
  unfold writeDocument
  cases hrow : written.1 document.infoHash with
  | none => by_cases heq : h = document.infoHash <;> simp [heq]
  | some row => by_cases heq : h = document.infoHash <;> simp [heq]

/-- After the write exactly the old and the written hashes have rows. -/
theorem isSome_writeDocuments (rows : Rows) (documents : List Document) (h : Bytes) :
    ((writeDocuments rows documents).1 h).isSome ↔
      (rows h).isSome ∨ ∃ document ∈ documents, document.infoHash = h := by
  have hfold : ∀ (documents : List Document) (written : Rows × OrderedMap Bytes IndexBase),
      ((documents.foldl writeDocument written).1 h).isSome ↔
        (written.1 h).isSome ∨ ∃ document ∈ documents, document.infoHash = h := by
    intro documents
    induction documents with
    | nil => simp
    | cons document rest ih =>
      intro written
      rw [List.foldl_cons, ih, isSome_writeDocument]
      simp only [or_assoc, List.mem_cons, exists_eq_or_imp, eq_comm (a := h)]
  exact hfold documents (rows, .empty)

/-- The counters of rows that existed before are not negative. -/
theorem writeDocuments_previous (rows : Rows) (documents : List Document) {h : Bytes}
    {base : IndexBase} (hbase : (writeDocuments rows documents).2.get? h = some base) :
    0 ≤ base.1 := by
  have hfold : ∀ (documents : List Document) (written : Rows × OrderedMap Bytes IndexBase),
      (∀ h base, written.2.get? h = some base → 0 ≤ base.1) →
      ∀ h base, (documents.foldl writeDocument written).2.get? h = some base → 0 ≤ base.1 := by
    intro documents
    induction documents with
    | nil => exact fun _ hwritten ↦ hwritten
    | cons document rest ih =>
      intro written hwritten
      refine ih _ fun h base hbase ↦ ?_
      unfold writeDocument at hbase
      cases hrow : written.1 document.infoHash with
      | none =>
        rw [hrow] at hbase
        exact hwritten h base hbase
      | some row =>
        rw [hrow, OrderedMap.get?_insert] at hbase
        split at hbase
        · rw [← Option.some.inj hbase]
          exact row.seenCount_nonneg
        · exact hwritten h base hbase
  exact hfold documents (rows, .empty) (fun h base hbase ↦ by cases hbase) h base hbase

/-! ## Updating counters -/

/-- When all rows exist, every update is applied and none is reported missing. -/
theorem updateCounters_of_rows (rows : Rows) (updates : List CounterUpdate)
    (hrows : ∀ update ∈ updates, (rows update.infoHash).isSome) :
    (updateCounters rows updates).2 = [] ∧
      (∀ h, ((updateCounters rows updates).1 h).isSome ↔ (rows h).isSome) ∧
      ∀ k h, count (updateCounters rows updates).1 k h = count rows k h +
        ((updates.filter fun update ↦ update.infoHash = h).map fun update ↦ update.delta k).sum := by
  have hfold : ∀ (updates : List CounterUpdate) (rows : Rows),
      (∀ update ∈ updates, (rows update.infoHash).isSome) →
      (updates.foldl updateCounter (rows, [])).2 = [] ∧
        (∀ h, ((updates.foldl updateCounter (rows, [])).1 h).isSome ↔ (rows h).isSome) ∧
        ∀ k h, count (updates.foldl updateCounter (rows, [])).1 k h = count rows k h +
          ((updates.filter fun update ↦ update.infoHash = h).map fun update ↦
            update.delta k).sum := by
    intro updates
    induction updates with
    | nil => simp
    | cons update rest ih =>
      intro rows hrows
      obtain ⟨row, hrow⟩ := Option.isSome_iff_exists.mp (hrows update List.mem_cons_self)
      have hstep : updateCounter (rows, []) update =
          (Function.update rows update.infoHash (some (row.addUpdate update)), []) := by
        simp [updateCounter, hrow]
      have hkept (h : Bytes) :
          (Function.update rows update.infoHash (some (row.addUpdate update)) h).isSome ↔
            (rows h).isSome := by
        by_cases heq : h = update.infoHash <;> simp [heq, hrow]
      obtain ⟨hmissing, hexists, hcount⟩ := ih
        (Function.update rows update.infoHash (some (row.addUpdate update)))
        fun other hother ↦ (hkept _).mpr (hrows other (List.mem_cons_of_mem _ hother))
      rw [List.foldl_cons, hstep]
      refine ⟨hmissing, fun h ↦ (hexists h).trans (hkept h), fun k h ↦ ?_⟩
      have hsum : (row.addUpdate update).count k = row.count k + update.delta k := by
        cases k <;> rfl
      rw [hcount, count_update, hsum]
      by_cases heq : update.infoHash = h
      · subst heq
        simp [count, hrow, add_assoc]
      · simp [heq, Ne.symm heq]
  exact hfold updates rows hrows

/-! ## Reading counters -/

theorem lookup_lookupCounters (rows : Rows) (infoHashes : List Bytes) (h : Bytes) :
    (rows.lookupCounters infoHashes).lookup h =
      if h ∈ infoHashes then (rows h).map Document.counters else none := by
  induction infoHashes with
  | nil => rfl
  | cons first rest ih =>
    cases hrow : rows first with
    | none =>
      have hcons : rows.lookupCounters (first :: rest) = rows.lookupCounters rest := by
        simp [lookupCounters, hrow]
      rw [hcons, ih]
      by_cases heq : h = first
      · simp [heq, hrow]
      · simp [heq]
    | some row =>
      have hcons : rows.lookupCounters (first :: rest) =
          (first, row.counters) :: rows.lookupCounters rest := by
        simp [lookupCounters, hrow]
      rw [hcons, List.lookup_cons]
      by_cases heq : h = first
      · simp [heq, hrow]
      · rw [show (h == first) = false by simpa using heq]
        simp [heq, ih]

end Rows

end DhtScraper
