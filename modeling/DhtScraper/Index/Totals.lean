import DhtScraper.Index.Transaction
import DhtScraper.Library.Machine

/-!
# The totals row over the history of a file

One row counts the documents, adds up their sizes and remembers the largest id.  A writer of this
version keeps it current with every document it inserts; a writer of an older version inserts rows
and does not know it, so opening the file counts what is behind the remembered id.  The states of
the history are the file and the writer that has it open.
-/

namespace DhtScraper

open Library

def schemaVersion : ℕ := 1

namespace Tables

/-- The ids of the rows, each with the size of its torrent. -/
def sizes (tables : Tables) : List (ℕ × ℕ) :=
  tables.torrents.items.map fun item ↦ (item.1, item.2.size)

/-- `SELECT coalesce(max(id), 0) FROM torrents`. -/
def maxId (tables : Tables) : ℕ := tables.torrents.keys.foldr max 0

/-- The `INSERT OR IGNORE` and the `UPDATE` of `TOTALS_SQL`: the rows behind the remembered id are
added. -/
def catchUp (tables : Tables) (hasTotals : Bool) : Tables :=
  let before := if hasTotals then tables.totals else ⟨0, 0, 0⟩
  let missed := tables.sizes.filter fun row ↦ before.lastId < row.1
  { tables with
    totals :=
      { documents := before.documents + missed.length
        size := before.size + (missed.map Prod.snd).sum
        lastId := max before.lastId tables.maxId } }

/-- The totals row describes the table `torrents`. -/
structure Exact (tables : Tables) : Prop where
  documents : tables.totals.documents = tables.torrents.size
  size : tables.totals.size = (tables.torrents.values.map Document.size).sum
  lastId : tables.totals.lastId = tables.maxId

theorem hashes_insertLast_nodup {tables : Tables} {id : ℕ} {document : Document}
    (hid : tables.torrents.get? id = none) (habsent : tables.find document.infoHash = none) :
    ((tables.torrents.insertLast id document).values.map Document.infoHash).Nodup := by
  have hvalues : (tables.torrents.insertLast id document).values =
      tables.torrents.values ++ [document] := by
    simp [OrderedMap.values, OrderedMap.insertLast, OrderedMap.erase_eq_self hid]
  have hother : ∀ row ∈ tables.torrents.values, row.infoHash ≠ document.infoHash := by
    intro row hrow
    obtain ⟨item, hitem, rfl⟩ := List.mem_map.mp hrow
    simpa using List.find?_eq_none.mp habsent item hitem
  rw [hvalues, List.map_append, List.nodup_append]
  refine ⟨tables.unique, List.nodup_singleton _, ?_⟩
  simpa using hother

/-- `INSERT INTO torrents` of an older version, with an id above all ids of the table. -/
def insertTorrentAt (tables : Tables) (id : ℕ) (document : Document) : Option Tables :=
  if h : (∀ other ∈ tables.torrents.keys, other < id) ∧ 1 ≤ id ∧
      tables.find document.infoHash = none then
    some { tables with
      torrents := tables.torrents.insertLast id document
      unique := hashes_insertLast_nodup
        (OrderedMap.get?_eq_none_iff.mpr fun hmem ↦ absurd (h.1 id hmem) (lt_irrefl id)) h.2.2 }
  else none

end Tables

/-- A database file: `PRAGMA user_version`, whether `sqlite_master` has rows, whether one of them
is the table `totals`, and the contents. -/
structure DatabaseFile where
  userVersion : ℕ
  objects : Bool
  hasTotals : Bool
  tables : Tables

namespace DatabaseFile

def new : DatabaseFile := ⟨0, false, false, .empty⟩

/-- `SCHEMA_SQL`. -/
def createSchema : DatabaseFile := ⟨schemaVersion, true, false, .empty⟩

/-- The version check of `open_writer`. -/
def Mismatch (file : DatabaseFile) : Prop :=
  ¬(file.userVersion = 0 ∨ file.userVersion = schemaVersion) ∨
    file.userVersion = 0 ∧ file.objects

instance (file : DatabaseFile) : Decidable file.Mismatch := by
  unfold Mismatch
  infer_instance

/-- The file after the schema part of `open_writer`, and whether it was created. -/
def prepared (file : DatabaseFile) : DatabaseFile × Bool :=
  if file.userVersion = 0 then (createSchema, true) else (file, false)

/-- `open_writer` up to its last transaction; nothing is returned for `SchemaMismatch`. -/
def openWriter (file : DatabaseFile) : Option (DatabaseFile × Bool) :=
  if file.Mismatch then none
  else
    let (file, created) := file.prepared
    some ({ file with hasTotals := true, tables := file.tables.catchUp file.hasTotals }, created)

end DatabaseFile

/-- The file, and the writer of this version that has it open. -/
structure FileHistory where
  file : DatabaseFile
  writer : Option Connection

/-- What happens to the file: sessions of this version and of an older one. -/
inductive FileEvent where
  | openWriter
  /-- An error of SQLite in `open_writer`, before or after the schema was committed. -/
  | openFails (schemaCommitted : Bool)
  | writeDocuments (faults : ℕ → Option Fault) (documents : List Document)
  | updateCounters (faults : ℕ → Option Fault) (updates : List CounterUpdate)
  | close
  | olderCreate
  | olderInsert (id : ℕ) (document : Document)
  | olderUpdate (update : CounterUpdate)

namespace FileHistory

variable (textTerms : Text → List Text)

/-- The connection after a write, whether it returned or raised. -/
def connectionAfter {α : Type} : EStateM.Result DatabaseError Connection α → Connection
  | .ok _ c | .error _ c => c

/-- The writer has executed a write; what it committed is in the file. -/
def written (s : FileHistory) (c : Connection) : FileHistory where
  file := { s.file with tables := c.committed }
  writer := some c

def step (s : FileHistory) : FileEvent → Option FileHistory
  | .openWriter =>
    match s.writer, s.file.openWriter with
    | some _, _ => none
    | none, none => some s
    | none, some (file, _) => some ⟨file, some ⟨file.tables, none, 0⟩⟩
  | .openFails schemaCommitted =>
    match s.writer with
    | some _ => none
    | none =>
      if schemaCommitted ∧ ¬s.file.Mismatch then some ⟨s.file.prepared.1, none⟩ else some s
  | .writeDocuments faults documents =>
    s.writer.map fun c ↦
      s.written (connectionAfter (TorrentDatabase.writeDocuments faults textTerms documents c))
  | .updateCounters faults updates =>
    s.writer.map fun c ↦
      s.written (connectionAfter (TorrentDatabase.updateCounters faults updates c))
  | .close => some { s with writer := none }
  | .olderCreate =>
    if s.writer.isNone ∧ s.file.userVersion = 0 ∧ ¬s.file.objects then
      some ⟨DatabaseFile.createSchema, none⟩
    else none
  | .olderInsert id document =>
    if s.writer.isNone ∧ s.file.userVersion = schemaVersion then
      (s.file.tables.insertTorrentAt id document).map fun tables ↦
        ⟨{ s.file with tables := tables }, none⟩
    else none
  | .olderUpdate update =>
    if s.writer.isNone ∧ s.file.userVersion = schemaVersion then
      let tables := s.file.tables.update (fun _ row ↦ row.infoHash = update.infoHash)
        (fun row ↦ row.addUpdate update) (hash_addUpdate update)
      some ⟨{ s.file with tables := tables }, none⟩
    else none

def machine : Machine FileHistory FileEvent := ⟨step textTerms⟩

end FileHistory

/-! ## The rows of a table -/

namespace Tables

variable {tables tables' : Tables} {document : Document}

theorem size_eq : tables.torrents.size = tables.sizes.length := by
  simp [sizes, OrderedMap.size]

theorem sum_size_eq :
    (tables.torrents.values.map Document.size).sum = (tables.sizes.map Prod.snd).sum := by
  simp [sizes, OrderedMap.values, Function.comp_def]

theorem keys_eq : tables.torrents.keys = tables.sizes.map Prod.fst := by
  simp [sizes, OrderedMap.keys, Function.comp_def]

theorem maxId_eq : tables.maxId = (tables.sizes.map Prod.fst).foldr max 0 := by
  rw [maxId, keys_eq]

theorem le_maxId {row : ℕ × ℕ} (h : row ∈ tables.sizes) : row.1 ≤ tables.maxId := by
  rw [maxId_eq]
  have hmem := List.mem_map_of_mem (f := Prod.fst) h
  generalize tables.sizes.map Prod.fst = ids at hmem
  induction ids with
  | nil => cases hmem
  | cons id rest ih =>
    rw [List.foldr_cons]
    rcases List.mem_cons.mp hmem with heq | htail
    · exact heq ▸ le_max_left _ _
    · exact (ih htail).trans (le_max_right _ _)

/-- The totals row describes the rows up to the id it remembers, and there is none above 0 that it
does not know to be possible. -/
structure Behind (tables : Tables) (totals : Totals) : Prop where
  documents : totals.documents = (tables.sizes.filter fun row ↦ row.1 ≤ totals.lastId).length
  size : totals.size = ((tables.sizes.filter fun row ↦ row.1 ≤ totals.lastId).map Prod.snd).sum
  lastId : totals.lastId ≤ tables.maxId

theorem exact_iff : tables.Exact ↔ tables.totals.documents = tables.sizes.length ∧
    tables.totals.size = (tables.sizes.map Prod.snd).sum ∧
    tables.totals.lastId = tables.maxId := by
  rw [← size_eq, ← sum_size_eq]
  exact ⟨fun h ↦ ⟨h.documents, h.size, h.lastId⟩, fun h ↦ ⟨h.1, h.2.1, h.2.2⟩⟩

theorem Exact.behind (h : tables.Exact) : tables.Behind tables.totals := by
  obtain ⟨hdocuments, hsize, hlast⟩ := exact_iff.mp h
  have hall : (tables.sizes.filter fun row ↦ row.1 ≤ tables.totals.lastId) = tables.sizes := by
    rw [List.filter_eq_self]
    intro row hrow
    rw [hlast]
    exact decide_eq_true (le_maxId hrow)
  exact ⟨by rw [hall, hdocuments], by rw [hall, hsize], hlast.le⟩

/-- An empty totals row describes the rows up to id 0. -/
theorem behind_zero (h : ∀ row ∈ tables.sizes, 1 ≤ row.1) : tables.Behind ⟨0, 0, 0⟩ := by
  have hnone : (tables.sizes.filter fun row ↦ row.1 ≤ 0) = [] := by
    rw [List.filter_eq_nil_iff]
    intro row hrow
    have hpos := h row hrow
    simpa using Nat.ne_of_gt hpos
  exact ⟨by rw [hnone]; rfl, by rw [hnone]; rfl, Nat.zero_le _⟩

theorem sum_filter_add (rows : List (ℕ × ℕ)) (lastId : ℕ) (f : ℕ × ℕ → ℕ) :
    ((rows.filter fun row ↦ row.1 ≤ lastId).map f).sum +
      ((rows.filter fun row ↦ lastId < row.1).map f).sum = (rows.map f).sum := by
  induction rows with
  | nil => rfl
  | cons row rest ih =>
    by_cases hrow : row.1 ≤ lastId
    · simp [hrow, Nat.not_lt.mpr hrow, ← ih, Nat.add_assoc]
    · simp [hrow, Nat.lt_of_not_le hrow, ← ih, Nat.add_left_comm]

theorem length_filter_add (rows : List (ℕ × ℕ)) (lastId : ℕ) :
    (rows.filter fun row ↦ row.1 ≤ lastId).length +
      (rows.filter fun row ↦ lastId < row.1).length = rows.length := by
  have h := sum_filter_add rows lastId fun _ ↦ 1
  simpa using h

/-- Catching up makes the totals exact. -/
theorem Behind.exact {hasTotals : Bool}
    (h : tables.Behind (if hasTotals then tables.totals else ⟨0, 0, 0⟩)) :
    (tables.catchUp hasTotals).Exact := by
  rw [exact_iff]
  unfold catchUp
  generalize (if hasTotals then tables.totals else (⟨0, 0, 0⟩ : Totals)) = before at h ⊢
  refine ⟨?_, ?_, ?_⟩
  · exact (congrArg (· + _) h.documents).trans (length_filter_add tables.sizes before.lastId)
  · exact (congrArg (· + _) h.size).trans (sum_filter_add tables.sizes before.lastId Prod.snd)
  · exact max_eq_right h.lastId

/-- Exact totals stay as they are. -/
theorem Exact.catchUp_eq (h : tables.Exact) : tables.catchUp true = tables := by
  have hnone : (tables.sizes.filter fun row ↦ tables.totals.lastId < row.1) = [] := by
    rw [List.filter_eq_nil_iff]
    intro row hrow
    rw [h.lastId]
    simpa using le_maxId hrow
  have htotals : (tables.catchUp true).totals = tables.totals := by
    simp only [catchUp, if_true, hnone, List.length_nil, List.map_nil, List.sum_nil, Nat.add_zero]
    rw [← h.lastId, max_self]
  calc
    tables.catchUp true = { tables with totals := (tables.catchUp true).totals } := rfl
    _ = tables := by rw [htotals]

/-! ## One more row -/

theorem sizes_insertLast {id : ℕ} (hid : tables.torrents.get? id = none)
    (h : tables'.torrents = tables.torrents.insertLast id document) :
    tables'.sizes = tables.sizes ++ [(id, document.size)] := by
  simp [sizes, h, OrderedMap.insertLast, OrderedMap.erase_eq_self hid]

theorem maxId_of_sizes {id size : ℕ} (h : tables'.sizes = tables.sizes ++ [(id, size)])
    (hid : tables.maxId < id) : tables'.maxId = id := by
  have hfold : ∀ ids : List ℕ, ids.foldr max id = max (ids.foldr max 0) id := by
    intro ids
    induction ids with
    | nil => simp
    | cons first rest ih => rw [List.foldr_cons, List.foldr_cons, ih, max_assoc]
  rw [maxId_eq, h, List.map_append, List.foldr_append, List.map_singleton, List.foldr_cons,
    List.foldr_nil, max_eq_left (Nat.zero_le id), hfold, ← maxId_eq]
  exact max_eq_right hid.le

/-- A row that the totals do not know of is behind the id they remember. -/
theorem Behind.inserted {totals : Totals} {id size : ℕ} (hbehind : tables.Behind totals)
    (h : tables'.sizes = tables.sizes ++ [(id, size)]) (hid : tables.maxId < id) :
    tables'.Behind totals := by
  have hlate : ¬id ≤ totals.lastId := Nat.not_le.mpr (hbehind.lastId.trans_lt hid)
  have hkept : (tables'.sizes.filter fun row ↦ row.1 ≤ totals.lastId) =
      tables.sizes.filter fun row ↦ row.1 ≤ totals.lastId := by
    rw [h, List.filter_append, List.filter_singleton, decide_eq_false hlate]
    exact List.append_nil _
  refine ⟨by rw [hkept, hbehind.documents], by rw [hkept, hbehind.size], ?_⟩
  rw [maxId_of_sizes h hid]
  exact (hbehind.lastId.trans_lt hid).le

/-- Counter updates and repeated documents leave the ids and the sizes alone. -/
theorem sizes_update (p : ℕ → Document → Bool) (change : Document → Document)
    (hchange : ∀ row, (change row).infoHash = row.infoHash)
    (hsize : ∀ row, (change row).size = row.size) :
    (tables.update p change hchange).sizes = tables.sizes := by
  simp only [sizes, update, OrderedMap.mapValues, List.map_map]
  refine List.map_congr_left fun item _ ↦ ?_
  by_cases hp : p item.1 item.2
  · simp [hp, hsize]
  · simp [hp]

theorem Behind.of_sizes {totals : Totals} (h : tables.Behind totals)
    (hsizes : tables'.sizes = tables.sizes) : tables'.Behind totals := by
  have hmax : tables'.maxId = tables.maxId := by rw [maxId_eq, maxId_eq, hsizes]
  exact ⟨by rw [hsizes, h.documents], by rw [hsizes, h.size], hmax ▸ h.lastId⟩

theorem Exact.of_sizes (h : tables.Exact) (hsizes : tables'.sizes = tables.sizes)
    (htotals : tables'.totals = tables.totals) : tables'.Exact := by
  obtain ⟨hdocuments, hsize, hlast⟩ := exact_iff.mp h
  rw [exact_iff, htotals, maxId_eq, hsizes, ← maxId_eq]
  exact ⟨hdocuments, hsize, hlast⟩

/-- An id above all others, and above 0, is above the largest. -/
theorem maxId_lt_of_keys {id : ℕ} (h : ∀ other ∈ tables.torrents.keys, other < id) (hpos : 1 ≤ id) :
    tables.maxId < id := by
  unfold maxId
  generalize tables.torrents.keys = ids at h
  induction ids with
  | nil => exact hpos
  | cons first rest ih =>
    rw [List.foldr_cons]
    refine max_lt (h first List.mem_cons_self) (ih fun other hother ↦ ?_)
    exact h other (List.mem_cons_of_mem _ hother)

theorem maxId_lt_nextId : tables.maxId < tables.nextId := Nat.lt_succ_self _

end Tables

/-! ## A batch of this version -/

namespace TorrentDatabase

variable (textTerms : Text → List Text) {tables : Tables}

theorem sizes_inserted {document : Document} (h : tables.find document.infoHash = none) :
    (inserted textTerms tables document).sizes =
        tables.sizes ++ [(tables.nextId, document.size)] ∧
      (inserted textTerms tables document).totals =
        ⟨tables.totals.documents + 1, tables.totals.size + document.size,
          max tables.totals.lastId tables.nextId⟩ := by
  have hchanged : tables.insertTorrent document = some _ := dif_pos h
  rw [inserted, hchanged]
  exact ⟨Tables.sizes_insertLast tables.nextId_fresh rfl, rfl⟩

/-- The totals are exact, and the ids start at 1. -/
structure Counted (tables : Tables) : Prop where
  exact : tables.Exact
  positive : ∀ row ∈ tables.sizes, 1 ≤ row.1

theorem Counted.of_sizes {tables' : Tables} (h : Counted tables)
    (hsizes : tables'.sizes = tables.sizes) (htotals : tables'.totals = tables.totals) :
    Counted tables' where
  exact := h.exact.of_sizes hsizes htotals
  positive := by
    rw [hsizes]
    exact h.positive

theorem Counted.inserted (h : Counted tables) {document : Document}
    (hnone : tables.find document.infoHash = none) :
    Counted (inserted textTerms tables document) := by
  obtain ⟨hsizes, htotals⟩ := sizes_inserted textTerms hnone
  obtain ⟨hdocuments, hsize, hlast⟩ := Tables.exact_iff.mp h.exact
  constructor
  case exact =>
    rw [Tables.exact_iff, htotals, Tables.maxId_of_sizes hsizes Tables.maxId_lt_nextId, hsizes,
      hlast, hdocuments, hsize]
    refine ⟨by simp, by simp, ?_⟩
    exact max_eq_right Tables.maxId_lt_nextId.le
  case positive =>
    intro row hrow
    rw [hsizes] at hrow
    rcases List.mem_append.mp hrow with hold | hnew
    · exact h.positive row hold
    · rw [List.mem_singleton.mp hnew]
      exact Nat.succ_pos _

theorem Counted.documentWritten {written : Tables × OrderedMap Bytes IndexBase}
    (h : Counted written.1) (document : Document) :
    Counted (documentWritten textTerms written document).1 := by
  unfold TorrentDatabase.documentWritten
  cases hfind : written.1.find document.infoHash with
  | none => exact h.inserted textTerms hfind
  | some item =>
    exact h.of_sizes (Tables.sizes_update _ _ (hash_addDocument document) fun _ ↦ rfl) rfl

theorem Counted.counterUpdated {updated : Tables × List Bytes} (h : Counted updated.1)
    (update : CounterUpdate) : Counted (counterUpdated updated update).1 :=
  h.of_sizes (Tables.sizes_update _ _ (hash_addUpdate update) fun _ ↦ rfl) rfl

theorem Counted.documentsWritten (h : Counted tables) (documents : List Document) :
    Counted (documentsWritten textTerms tables documents).1 := by
  have hfold : ∀ (documents : List Document) (written : Tables × OrderedMap Bytes IndexBase),
      Counted written.1 →
        Counted (documents.foldl (TorrentDatabase.documentWritten textTerms) written).1 := by
    intro documents
    induction documents with
    | nil => exact fun _ h ↦ h
    | cons document rest ih => exact fun _ h ↦ ih _ (h.documentWritten textTerms document)
  exact hfold documents _ h

theorem Counted.countersUpdated (h : Counted tables) (updates : List CounterUpdate) :
    Counted (countersUpdated tables updates).1 := by
  have hfold : ∀ (updates : List CounterUpdate) (updated : Tables × List Bytes),
      Counted updated.1 → Counted (updates.foldl TorrentDatabase.counterUpdated updated).1 := by
    intro updates
    induction updates with
    | nil => exact fun _ h ↦ h
    | cons update rest ih => exact fun _ h ↦ ih _ (h.counterUpdated update)
  exact hfold updates _ h

/-- A write keeps the totals exact, whether it commits or not. -/
theorem Counted.writeDocuments (faults : ℕ → Option Fault) {c : Connection}
    (h : Counted c.committed) (documents : List Document) :
    Counted (FileHistory.connectionAfter
      (writeDocuments faults textTerms documents c)).committed := by
  by_cases hopen : c.transaction = none
  · by_cases hhashes : ∀ document ∈ documents, 2 * document.infoHash.length = 40
    · have hensures : Ensures (TorrentDatabase.writeDocuments faults textTerms documents) c _ _ :=
        writeDocuments_ensures textTerms hopen hhashes
      cases hrun : TorrentDatabase.writeDocuments faults textTerms documents c with
      | ok previous c' =>
        obtain ⟨-, hcommitted, -⟩ := hensures.ok hrun
        rw [FileHistory.connectionAfter, hcommitted]
        exact h.documentsWritten textTerms documents
      | error error c' =>
        rw [FileHistory.connectionAfter, (hensures.error hrun).1]
        exact h
    · rw [TorrentDatabase.writeDocuments, assert, if_neg hhashes]
      exact h
  · have hensures : Ensures (TorrentDatabase.writeDocuments faults textTerms documents) c _ _ :=
      writeDocuments_of_open textTerms hopen documents
    cases hrun : TorrentDatabase.writeDocuments faults textTerms documents c with
    | ok previous c' => exact absurd (hensures.ok hrun) id
    | error error c' =>
      rw [FileHistory.connectionAfter, hensures.error hrun]
      exact h

theorem Counted.updateCounters (faults : ℕ → Option Fault) {c : Connection}
    (h : Counted c.committed) (updates : List CounterUpdate) :
    Counted (FileHistory.connectionAfter (updateCounters faults updates c)).committed := by
  by_cases hopen : c.transaction = none
  · have hensures : Ensures (TorrentDatabase.updateCounters faults updates) c _ _ :=
      updateCounters_ensures hopen updates
    cases hrun : TorrentDatabase.updateCounters faults updates c with
    | ok missing c' =>
      obtain ⟨-, hcommitted, -⟩ := hensures.ok hrun
      rw [FileHistory.connectionAfter, hcommitted]
      exact h.countersUpdated updates
    | error error c' =>
      rw [FileHistory.connectionAfter, (hensures.error hrun).1]
      exact h
  · have hensures : Ensures (TorrentDatabase.updateCounters faults updates) c _ _ :=
      updateCounters_of_open hopen updates
    cases hrun : TorrentDatabase.updateCounters faults updates c with
    | ok missing c' => exact absurd (hensures.ok hrun) id
    | error error c' =>
      rw [FileHistory.connectionAfter, hensures.error hrun]
      exact h

end TorrentDatabase

/-! ## Runs -/

namespace FileHistory

open TorrentDatabase (Counted)

/-- What holds between two events: the ids are positive, the totals row describes the rows up to
the id it remembers, and it is exact while a writer of this version has the file open. -/
structure Tracked (s : FileHistory) : Prop where
  positive : ∀ row ∈ s.file.tables.sizes, 1 ≤ row.1
  behind : s.file.hasTotals → s.file.tables.Behind s.file.tables.totals
  opened : ∀ c, s.writer = some c → s.file.userVersion = schemaVersion ∧ s.file.hasTotals ∧
    s.file.tables = c.committed ∧ Counted c.committed

/-- A file that no writer of this version has opened yet: a new one, or one without totals. -/
def Unopened (file : DatabaseFile) : Prop :=
  file = .new ∨ file.userVersion = schemaVersion ∧ file.hasTotals = false ∧
    ∀ row ∈ file.tables.sizes, 1 ≤ row.1

variable {textTerms : Text → List Text} {s s' : FileHistory}

theorem tracked_of_unopened {file : DatabaseFile} (h : Unopened file) :
    Tracked ⟨file, none⟩ where
  positive := by
    rcases h with rfl | ⟨-, -, hpositive⟩
    · exact fun row hrow ↦ absurd hrow List.not_mem_nil
    · exact hpositive
  behind := by
    intro htotals
    rcases h with rfl | ⟨-, hnone, -⟩
    · cases htotals
    · exact absurd htotals (by rw [hnone]; decide)
  opened := fun c hc ↦ by cases hc

/-- The schema part of `open_writer` leaves a file of this version, with the totals behind. -/
theorem Tracked.prepared (h : s.Tracked) (hmatch : ¬s.file.Mismatch) :
    s.file.prepared.1.userVersion = schemaVersion ∧ Tracked ⟨s.file.prepared.1, none⟩ := by
  unfold DatabaseFile.prepared
  by_cases hnew : s.file.userVersion = 0
  · rw [if_pos hnew]
    refine ⟨rfl, fun row hrow ↦ absurd hrow List.not_mem_nil, ?_, fun c hc ↦ by cases hc⟩
    intro htotals
    cases htotals
  · have hversion : s.file.userVersion = schemaVersion := by
      unfold DatabaseFile.Mismatch at hmatch
      by_contra hne
      exact hmatch (Or.inl fun hor ↦ hor.elim hnew hne)
    rw [if_neg hnew]
    exact ⟨hversion, h.positive, h.behind, fun c hc ↦ by cases hc⟩

/-- Opening counts what is behind. -/
theorem Tracked.openWriter (h : s.Tracked) {file : DatabaseFile} {created : Bool}
    (hopen : s.file.openWriter = some (file, created)) :
    file.userVersion = schemaVersion ∧ file.hasTotals ∧ Counted file.tables := by
  unfold DatabaseFile.openWriter at hopen
  split at hopen
  · cases hopen
  next hmatch =>
    rw [Option.some.injEq, Prod.mk.injEq] at hopen
    obtain ⟨hversion, hprepared⟩ := h.prepared hmatch
    have hbehind : s.file.prepared.1.tables.Behind
        (if s.file.prepared.1.hasTotals then s.file.prepared.1.tables.totals else ⟨0, 0, 0⟩) := by
      split
      next htotals => exact hprepared.behind htotals
      next => exact Tables.behind_zero hprepared.positive
    rw [← hopen.1]
    exact ⟨hversion, rfl, hbehind.exact, hprepared.positive⟩

theorem Tracked.of_counted {file : DatabaseFile} {c : Connection}
    (hversion : file.userVersion = schemaVersion) (htotals : file.hasTotals)
    (hfile : file.tables = c.committed) (h : Counted c.committed) :
    Tracked ⟨file, some c⟩ where
  positive := by
    rw [hfile]
    exact h.positive
  behind := fun _ ↦ by
    rw [hfile]
    exact h.exact.behind
  opened := fun c' hc' ↦ by
    rw [Option.some.injEq] at hc'
    exact hc' ▸ ⟨hversion, htotals, hfile, h⟩

theorem Tracked.insertTorrentAt (h : s.Tracked) {id : ℕ} {document : Document} {tables : Tables}
    (hinsert : s.file.tables.insertTorrentAt id document = some tables) :
    Tracked ⟨{ s.file with tables := tables }, none⟩ := by
  unfold Tables.insertTorrentAt at hinsert
  split at hinsert
  next hid =>
    rw [Option.some.injEq] at hinsert
    have hfresh : s.file.tables.torrents.get? id = none :=
      OrderedMap.get?_eq_none_iff.mpr fun hmem ↦ absurd (hid.1 id hmem) (lt_irrefl id)
    have hsizes : tables.sizes = s.file.tables.sizes ++ [(id, document.size)] := by
      rw [← hinsert]
      exact Tables.sizes_insertLast hfresh rfl
    have htotals : tables.totals = s.file.tables.totals := by rw [← hinsert]
    refine ⟨fun row hrow ↦ ?_, fun hhas ↦ ?_, fun c hc ↦ by cases hc⟩
    · rw [hsizes] at hrow
      rcases List.mem_append.mp hrow with hold | hnew
      · exact h.positive row hold
      · rw [List.mem_singleton.mp hnew]
        exact hid.2.1
    · rw [htotals]
      exact (h.behind hhas).inserted hsizes (Tables.maxId_lt_of_keys hid.1 hid.2.1)
  next => cases hinsert

theorem Tracked.step (h : s.Tracked) (event : FileEvent) (hstep : step textTerms s event = some s') :
    s'.Tracked := by
  cases event with
  | openWriter =>
    simp only [FileHistory.step] at hstep
    split at hstep
    · cases hstep
    · rw [Option.some.injEq] at hstep
      exact hstep ▸ h
    next file created hwriter hopen =>
      rw [Option.some.injEq] at hstep
      obtain ⟨hversion, htotals, hcounted⟩ := h.openWriter hopen
      exact hstep ▸ Tracked.of_counted hversion htotals rfl hcounted
  | openFails schemaCommitted =>
    simp only [FileHistory.step] at hstep
    split at hstep
    · cases hstep
    · split at hstep
      next hcommitted =>
        rw [Option.some.injEq] at hstep
        exact hstep ▸ (h.prepared hcommitted.2).2
      next =>
        rw [Option.some.injEq] at hstep
        exact hstep ▸ h
  | writeDocuments faults documents =>
    obtain ⟨c, hc, rfl⟩ := Option.map_eq_some_iff.mp hstep
    obtain ⟨hversion, htotals, -, hcounted⟩ := h.opened c hc
    exact Tracked.of_counted hversion htotals rfl (hcounted.writeDocuments textTerms faults documents)
  | updateCounters faults updates =>
    obtain ⟨c, hc, rfl⟩ := Option.map_eq_some_iff.mp hstep
    obtain ⟨hversion, htotals, -, hcounted⟩ := h.opened c hc
    exact Tracked.of_counted hversion htotals rfl (hcounted.updateCounters faults updates)
  | close =>
    rw [FileHistory.step, Option.some.injEq] at hstep
    exact hstep ▸ ⟨h.positive, h.behind, fun c hc ↦ by cases hc⟩
  | olderCreate =>
    simp only [FileHistory.step] at hstep
    split at hstep
    · rw [Option.some.injEq] at hstep
      refine hstep ▸ ⟨fun row hrow ↦ absurd hrow List.not_mem_nil, fun htotals ↦ ?_, fun c hc ↦ ?_⟩
      · cases htotals
      · cases hc
    · cases hstep
  | olderInsert id document =>
    simp only [FileHistory.step] at hstep
    split at hstep
    · obtain ⟨tables, hinsert, rfl⟩ := Option.map_eq_some_iff.mp hstep
      exact h.insertTorrentAt hinsert
    · cases hstep
  | olderUpdate update =>
    simp only [FileHistory.step] at hstep
    split at hstep
    · rw [Option.some.injEq] at hstep
      have hsizes := @Tables.sizes_update s.file.tables
        (fun _ row ↦ row.infoHash = update.infoHash) _ (hash_addUpdate update) fun _ ↦ rfl
      refine hstep ▸ ⟨?_, fun htotals ↦ ?_, fun c hc ↦ by cases hc⟩
      · rw [hsizes]
        exact h.positive
      · exact (h.behind htotals).of_sizes hsizes
    · cases hstep

/-- While a writer of this version has the file open, hence after every `open_writer` and every
batch, the totals row is exact; and closing and opening again gives the same tables. -/
theorem totals_exact (textTerms : Text → List Text) (file : DatabaseFile) (hfile : Unopened file)
    (events : List FileEvent) (s : FileHistory)
    (hrun : (machine textTerms).run ⟨file, none⟩ events = some s) (c : Connection)
    (hopen : s.writer = some c) :
    s.file.tables = c.committed ∧ c.committed.Exact ∧
      ∃ s', (machine textTerms).run s [.close, .openWriter] = some s' ∧ s'.file = s.file ∧
        s'.writer = some ⟨c.committed, none, 0⟩ := by
  have htracked : s.Tracked := by
    refine (machine textTerms).run_invariant (fun s event s' h hstep ↦ ?_)
      (tracked_of_unopened hfile) hrun
    exact h.step event hstep
  obtain ⟨hversion, htotals, hcommitted, hcounted⟩ := htracked.opened c hopen
  refine ⟨hcommitted, hcounted.exact, ⟨s.file, some ⟨c.committed, none, 0⟩⟩, ?_, rfl, rfl⟩
  have hmatch : ¬s.file.Mismatch := by
    simp [DatabaseFile.Mismatch, hversion, schemaVersion]
  have hnew : s.file.userVersion ≠ 0 := by
    rw [hversion]
    decide
  have hsame : s.file.openWriter = some (s.file, false) := by
    have hcatch : s.file.tables.catchUp s.file.hasTotals = s.file.tables := by
      rw [htotals, hcommitted]
      exact hcounted.exact.catchUp_eq
    rw [DatabaseFile.openWriter, if_neg hmatch, DatabaseFile.prepared, if_neg hnew]
    simp only [hcatch]
    rw [← htotals]
  simp only [Machine.run, machine, FileHistory.step, hsame, Option.bind_some, hcommitted]

/-- A torrent of 30 bytes that an older version stored. -/
def olderDocument : Document where
  infoHash := List.replicate 20 3
  name := "thirty".toList
  size := 30
  fileCount := 1
  pieceLength := 16384
  isPrivate := false
  fetchedAt := 1
  seenCount := 1
  announceCount := 0
  firstSeen := 1
  lastSeen := 1
  files := []
  seenCount_nonneg := Int.one_nonneg

/-- This version creates the file, an older one inserts a row, and this version opens it again. -/
theorem totals_exact_olderInsert :
    ∃ s c, (machine fun text ↦ [text]).run ⟨.new, none⟩
        [.openWriter, .close, .olderInsert 1 olderDocument, .openWriter] = some s ∧
      s.writer = some c ∧ c.committed.totals = ⟨1, 30, 1⟩ ∧ c.committed.Exact := by
  obtain ⟨s, hrun⟩ : ∃ s, (machine fun text ↦ [text]).run ⟨.new, none⟩
      [.openWriter, .close, .olderInsert 1 olderDocument, .openWriter] = some s := ⟨_, rfl⟩
  have htotals : ((machine fun text ↦ [text]).run ⟨.new, none⟩
      [.openWriter, .close, .olderInsert 1 olderDocument, .openWriter]).bind
        (fun s ↦ s.writer.map fun c ↦ c.committed.totals) = some ⟨1, 30, 1⟩ := by decide +kernel
  rw [hrun, Option.bind_some, Option.map_eq_some_iff] at htotals
  obtain ⟨c, hopen, hcommitted⟩ := htotals
  exact ⟨s, c, hrun, hopen, hcommitted,
    (totals_exact (fun text ↦ [text]) .new (Or.inl rfl) _ s hrun c hopen).2.1⟩

end FileHistory

end DhtScraper
