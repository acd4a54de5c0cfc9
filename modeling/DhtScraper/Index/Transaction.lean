import DhtScraper.Library.Stateful
import DhtScraper.Index.Database
import Mathlib.Data.Char
import Mathlib.Data.List.Lex

/-!
# The transactions of the search database

`TorrentDatabase.write_documents` and `update_counters`, statement by statement, over a connection
on which every statement can fail.  Which of them fail, and whether a failing statement ends the
transaction it belongs to, is given by a script of faults, one place for each statement executed.

A call that raises leaves the committed tables as they were.  It leaves the writer usable unless
`COMMIT` fails without ending the transaction, or a statement of the batch and then `ROLLBACK` do.
A call that returns is one of the whole writes of `Rows`.
-/

namespace DhtScraper

open Library

def maxSearchableFiles : ℕ := 20

def minTermLength : ℕ := 3

def maxTermLength : ℕ := 32

/-- `deletions`, sorted: the set comprehension drops repetitions. -/
def deletions (term : Text) : List Text :=
  ((List.range term.length).map term.eraseIdx).dedup.insertionSort (· ≤ ·)

def termRows (terms : List Text) : List (Text × Text) :=
  (terms.dedup.insertionSort (· ≤ ·)).flatMap fun term ↦
    if minTermLength ≤ term.length ∧ term.length ≤ maxTermLength then
      (term, term) :: (deletions term).map fun variant ↦ (variant, term)
    else []

/-! ## Tables -/

theorem hash_addDocument (document row : Document) :
    (row.addDocument document).infoHash = row.infoHash := rfl

theorem hash_addUpdate (update : CounterUpdate) (row : Document) :
    (row.addUpdate update).infoHash = row.infoHash := rfl

/-- The only row of `totals`.  The rounding of the column `size`, a `REAL`, is not modelled. -/
structure Totals where
  documents : ℕ
  size : ℕ
  lastId : ℕ
  deriving DecidableEq

/-- The tables a write touches, with the `UNIQUE` constraint of `torrents`. -/
structure Tables where
  torrents : OrderedMap ℕ Document
  torrentsFts : List (ℕ × Text × Text)
  terms : Finset (Text × Text)
  totals : Totals
  unique : (torrents.values.map Document.infoHash).Nodup

def Tables.empty : Tables where
  torrents := .empty
  torrentsFts := []
  terms := ∅
  totals := ⟨0, 0, 0⟩
  unique := List.nodup_nil

inductive Statement where
  | beginImmediate
  | commit
  | rollback
  | selectCounters (infoHash : Bytes)
  | updateDocument (id : ℕ) (document : Document)
  | insertTorrent (document : Document)
  | insertFts (rowId : ℕ) (name files : Text)
  | insertTerm (row : Text × Text)
  | updateTotals (size rowId : ℕ)
  | updateCounters (update : CounterUpdate)

/-- What is read from a cursor afterwards. -/
structure Cursor where
  row : Option (ℕ × IndexBase) := none
  lastRowId : ℕ := 0
  rowCount : ℕ := 0

namespace Tables

variable (tables : Tables)

/-- The row of a hash, with its id. -/
def find (infoHash : Bytes) : Option (ℕ × Document) :=
  tables.torrents.items.find? fun item ↦ item.2.infoHash = infoHash

/-- An `INTEGER PRIMARY KEY` takes the largest id plus one. -/
def nextId : ℕ := tables.torrents.keys.foldr max 0 + 1

theorem nextId_fresh : tables.torrents.get? tables.nextId = none := by
  have hmax : ∀ (ids : List ℕ) (id : ℕ), id ∈ ids → id ≤ ids.foldr max 0 := by
    intro ids
    induction ids with
    | nil => simp
    | cons first rest ih =>
      intro id hid
      rw [List.foldr_cons]
      cases List.mem_cons.mp hid with
      | inl heq => exact heq ▸ le_max_left _ _
      | inr hmem => exact le_max_of_le_right (ih id hmem)
  rw [OrderedMap.get?_eq_none_iff]
  intro hmem
  exact absurd (hmax _ _ hmem) (Nat.not_succ_le_self _)

/-- `INSERT INTO torrents`, which the constraint refuses for a hash that has a row. -/
def insertTorrent (document : Document) : Option Tables :=
  if h : tables.find document.infoHash = none then
    some { tables with
      torrents := tables.torrents.insertLast tables.nextId document
      unique := by
        have hvalues : (tables.torrents.insertLast tables.nextId document).values =
            tables.torrents.values ++ [document] := by
          simp [OrderedMap.values, OrderedMap.insertLast,
            OrderedMap.erase_eq_self tables.nextId_fresh]
        rw [hvalues, List.map_append, List.nodup_append]
        have habsent : ∀ row ∈ tables.torrents.values, row.infoHash ≠ document.infoHash := by
          intro row hrow
          obtain ⟨item, hitem, rfl⟩ := List.mem_map.mp hrow
          simpa using List.find?_eq_none.mp h item hitem
        refine ⟨tables.unique, List.nodup_singleton _, ?_⟩
        simpa using habsent }
  else none

/-- `UPDATE torrents SET change WHERE p`, for a change that leaves the hash alone. -/
def update (p : ℕ → Document → Bool) (change : Document → Document)
    (hchange : ∀ row, (change row).infoHash = row.infoHash) : Tables :=
  { tables with
    torrents := tables.torrents.mapValues fun id row ↦ if p id row then change row else row
    unique := by
      have hhashes : ((tables.torrents.mapValues fun id row ↦
          if p id row then change row else row).values.map Document.infoHash) =
          tables.torrents.values.map Document.infoHash := by
        simp only [OrderedMap.values, OrderedMap.mapValues, List.map_map]
        refine List.map_congr_left fun item _ ↦ ?_
        by_cases hp : p item.1 item.2 <;> simp [hp, hchange]
      rw [hhashes]
      exact tables.unique }

/-- A statement of a batch, between `BEGIN` and `COMMIT`. -/
def perform : Statement → Option (Cursor × Tables)
  | .beginImmediate | .commit | .rollback => none
  | .selectCounters infoHash =>
    some ({ row := (tables.find infoHash).map fun item ↦ (item.1, item.2.counters) }, tables)
  | .updateDocument id document =>
    some ({ rowCount := tables.torrents.items.countP fun item ↦ item.1 = id },
      tables.update (fun id' _ ↦ id' = id) (fun row ↦ row.addDocument document)
        (hash_addDocument document))
  | .insertTorrent document =>
    (tables.insertTorrent document).map fun inserted ↦
      ({ lastRowId := tables.nextId, rowCount := 1 }, inserted)
  | .insertFts rowId name files =>
    some ({ lastRowId := rowId, rowCount := 1 },
      { tables with torrentsFts := tables.torrentsFts ++ [(rowId, name, files)] })
  | .insertTerm row => some ({}, { tables with terms := insert row tables.terms })
  | .updateTotals size rowId =>
    some ({ rowCount := 1 }, { tables with
      totals := ⟨tables.totals.documents + 1, tables.totals.size + size,
        max tables.totals.lastId rowId⟩ })
  | .updateCounters update =>
    some ({ rowCount := tables.torrents.items.countP fun item ↦
        item.2.infoHash = update.infoHash },
      tables.update (fun _ row ↦ row.infoHash = update.infoHash) (fun row ↦ row.addUpdate update)
        (hash_addUpdate update))

/-- What a lookup by hash sees. -/
def rows : Rows := fun infoHash ↦ (tables.find infoHash).map Prod.snd

variable {tables} {infoHash infoHash' : Bytes} {item item' : ℕ × Document}

theorem hash_of_find (h : tables.find infoHash = some item) : item.2.infoHash = infoHash := by
  simpa using List.find?_some h

theorem get_of_find (h : tables.find infoHash = some item) :
    tables.torrents.get? item.1 = some item.2 :=
  OrderedMap.get?_eq_some_iff.mpr (List.mem_of_find?_eq_some h)

/-- Different hashes have rows with different ids. -/
theorem find_inj (h : tables.find infoHash = some item) (h' : tables.find infoHash' = some item')
    (hid : item.1 = item'.1) : infoHash = infoHash' := by
  have hrow : some item.2 = some item'.2 := by rw [← get_of_find h, ← get_of_find h', hid]
  rw [← hash_of_find h, ← hash_of_find h', Option.some.inj hrow]

theorem find_insertTorrent {document : Document} {inserted : Tables}
    (h : tables.insertTorrent document = some inserted) (infoHash : Bytes) :
    inserted.find infoHash =
      if infoHash = document.infoHash then some (tables.nextId, document)
      else tables.find infoHash := by
  unfold insertTorrent at h
  split at h
  · rename_i habsent
    rw [← Option.some.inj h]
    have hitems : (tables.torrents.insertLast tables.nextId document).items =
        tables.torrents.items ++ [(tables.nextId, document)] := by
      simp [OrderedMap.insertLast, OrderedMap.erase_eq_self tables.nextId_fresh]
    simp only [find, hitems, List.find?_append]
    by_cases heq : infoHash = document.infoHash
    · subst heq
      have hnone := habsent
      rw [find] at hnone
      simp [hnone]
    · have hother : List.find? (fun item : ℕ × Document ↦ decide (item.2.infoHash = infoHash))
          [(tables.nextId, document)] = none := by simp [Ne.symm heq]
      rw [hother, Option.or_none, if_neg heq]
  · cases h

theorem find_update (p : ℕ → Document → Bool) (change : Document → Document)
    (hchange : ∀ row, (change row).infoHash = row.infoHash) (infoHash : Bytes) :
    (tables.update p change hchange).find infoHash = (tables.find infoHash).map fun item ↦
      (item.1, if p item.1 item.2 then change item.2 else item.2) := by
  have hkept (item : ℕ × Document) :
      (if p item.1 item.2 then change item.2 else item.2).infoHash = item.2.infoHash := by
    split
    · exact hchange item.2
    · rfl
  simp only [find, update, OrderedMap.mapValues, List.find?_map, Function.comp_def, hkept]

end Tables

/-! ## The connection -/

/-- A statement that fails is undone; some failures also end the transaction it belongs to. -/
inductive Fault where
  | statementUndone
  | transactionEnded
  deriving DecidableEq

/-- The writer: the committed tables, those of the open transaction, and how many statements were
executed. -/
structure Connection where
  committed : Tables
  transaction : Option Tables
  executed : ℕ

/-- `sqlite3.Error` or a failed assertion. -/
inductive DatabaseError where
  | sqlite
  | assertion
  deriving DecidableEq

namespace TorrentDatabase

variable (faults : ℕ → Option Fault)

abbrev Action := EStateM DatabaseError Connection

/-- `Connection.execute`. -/
def execute (statement : Statement) : Action Cursor := fun c ↦
  let c' := { c with executed := c.executed + 1 }
  match faults c.executed with
  | some .transactionEnded => .error .sqlite { c' with transaction := none }
  | some .statementUndone => .error .sqlite c'
  | none =>
    match statement, c.transaction with
    | .beginImmediate, none => .ok {} { c' with transaction := some c.committed }
    | .commit, some tables => .ok {} { c' with committed := tables, transaction := none }
    | .rollback, some _ => .ok {} { c' with transaction := none }
    | statement, some tables =>
      match tables.perform statement with
      | some (cursor, changed) => .ok cursor { c' with transaction := some changed }
      | none => .error .sqlite c'
    | statement, none =>
      match c.committed.perform statement with
      | some (cursor, changed) => .ok cursor { c' with committed := changed }
      | none => .error .sqlite c'

/-- `executemany`: the first failure ends it. -/
def executemany (statements : List Statement) : Action Unit :=
  statements.forM fun statement ↦ do
    let _ ← execute faults statement

def assert (p : Prop) [Decidable p] : Action Unit :=
  if p then pure () else throw .assertion

/-- `transaction`: the body runs where the generator yields. -/
def transaction {α : Type} (body : Action α) : Action α := do
  assert ((← get).transaction.isNone)
  let _ ← execute faults .beginImmediate
  let result ← tryCatch body fun error ↦ do
    let _ ← execute faults .rollback
    throw error
  let _ ← execute faults .commit
  assert ((← get).transaction.isNone)
  return result

variable (textTerms : Text → List Text)

/-- The searched paths of a document. -/
def searchablePaths (document : Document) : List Text :=
  (document.files.take maxSearchableFiles).map Prod.fst

def documentTerms (document : Document) : List Text :=
  textTerms document.name ++ (searchablePaths document).flatMap textTerms

def insertDocument (document : Document) : Action Unit := do
  assert ((← get).transaction.isSome)
  let cursor ← execute faults (.insertTorrent document)
  let paths := searchablePaths document
  let _ ← execute faults
    (.insertFts cursor.lastRowId document.name (List.intercalate ['\n'] paths))
  executemany faults ((termRows (documentTerms textTerms document)).map .insertTerm)
  let _ ← execute faults (.updateTotals document.size cursor.lastRowId)

/-- One iteration of `write_documents`. -/
def writeDocument (previous : OrderedMap Bytes IndexBase) (document : Document) :
    Action (OrderedMap Bytes IndexBase) := do
  let cursor ← execute faults (.selectCounters document.infoHash)
  match cursor.row with
  | none =>
    insertDocument faults textTerms document
    return previous
  | some (id, counters) =>
    let _ ← execute faults (.updateDocument id document)
    return previous.insert document.infoHash counters

/-- `write_documents`.  A hash is written with two digits for each of its bytes. -/
def writeDocuments (documents : List Document) : Action (OrderedMap Bytes IndexBase) := do
  assert (∀ document ∈ documents, 2 * document.infoHash.length = 40)
  let previous ← transaction faults (documents.foldlM (writeDocument faults textTerms) .empty)
  assert (previous.size ≤ documents.length)
  return previous

/-- One iteration of `update_counters`. -/
def updateCounter (missing : List Bytes) (update : CounterUpdate) : Action (List Bytes) := do
  let cursor ← execute faults (.updateCounters update)
  return if cursor.rowCount = 0 then missing ++ [update.infoHash] else missing

def updateCounters (updates : List CounterUpdate) : Action (List Bytes) := do
  let missing ← transaction faults (updates.foldlM (updateCounter faults) [])
  assert (missing.length ≤ updates.length)
  return missing

/-! ## Runs of a batch -/

section Performs

variable {faults : ℕ → Option Fault} {α β : Type}

/-- None of the next statements fails. -/
def Faultless (faults : ℕ → Option Fault) (first count : ℕ) : Prop :=
  ∀ k < count, faults (first + k) = none

/-- The `k`-th of the next statements is the first to fail. -/
def FirstFault (faults : ℕ → Option Fault) (first k : ℕ) (fault : Fault) : Prop :=
  Faultless faults first k ∧ faults (first + k) = some fault

/-- Inside a transaction on `before` the action executes `count` statements, returns `result` and
leaves `after`, or raises at the first of them that fails. -/
def Performs (faults : ℕ → Option Fault) (x : Action α) (before : Tables) (count : ℕ) (result : α)
    (after : Tables) : Prop :=
  ∀ c : Connection, c.transaction = some before → Ensures x c
    (fun result' c' ↦ result' = result ∧ Faultless faults c.executed count ∧
      c' = ⟨c.committed, some after, c.executed + count⟩)
    (fun error c' ↦ error = .sqlite ∧ c'.committed = c.committed ∧
      ∃ k < count, ∃ fault, FirstFault faults c.executed k fault ∧
        c'.executed = c.executed + k + 1 ∧
        (c'.transaction = none ↔ fault = .transactionEnded))

theorem Faultless.append {first count count' : ℕ} (h : Faultless faults first count)
    (h' : Faultless faults (first + count) count') : Faultless faults first (count + count') := by
  intro k hk
  by_cases hlt : k < count
  · exact h k hlt
  · have hrest := h' (k - count) (by omega)
    rwa [show first + count + (k - count) = first + k by omega] at hrest

namespace Performs

theorem pure (tables : Tables) (result : α) :
    Performs faults (Pure.pure result) tables 0 result tables := by
  intro c hc
  refine Ensures.pure ⟨rfl, fun k hk ↦ absurd hk (Nat.not_lt_zero k), ?_⟩
  rw [← hc, add_zero]

theorem bind {x : Action α} {f : α → Action β} {before middle after : Tables} {count count' : ℕ}
    {result : α} {result' : β} (hx : Performs faults x before count result middle)
    (hf : Performs faults (f result) middle count' result' after) :
    Performs faults (x >>= f) before (count + count') result' after := by
  intro c hc
  apply Ensures.bind ((hx c hc).imp (fun _ _ h ↦ h) ?_)
  · rintro middleResult c' ⟨rfl, hquiet, rfl⟩
    apply (hf ⟨c.committed, some middle, c.executed + count⟩ rfl).imp
    · rintro result'' c'' ⟨rfl, hquiet', rfl⟩
      exact ⟨rfl, hquiet.append hquiet', by rw [add_assoc]⟩
    · rintro error c'' ⟨herror, hcommitted, k, hk, fault, ⟨hbefore, hfault⟩, hexecuted, hended⟩
      refine ⟨herror, hcommitted, count + k, by omega, fault,
        ⟨hquiet.append hbefore, ?_⟩, ?_, hended⟩
      · rw [← add_assoc]
        exact hfault
      · rw [hexecuted, add_assoc c.executed]
  · rintro error c' ⟨herror, hcommitted, k, hk, hfault⟩
    exact ⟨herror, hcommitted, k, by omega, hfault⟩

/-- A statement the tables accept. -/
theorem execute {statement : Statement} {before after : Tables} {cursor : Cursor}
    (h : before.perform statement = some (cursor, after)) :
    Performs faults (execute faults statement) before 1 cursor after := by
  intro c hc
  cases hfault : faults c.executed with
  | some fault =>
    have hfirst : FirstFault faults c.executed 0 fault :=
      ⟨fun k hk ↦ absurd hk (Nat.not_lt_zero k), hfault⟩
    cases fault with
    | statementUndone =>
      have hrun : TorrentDatabase.execute faults statement c =
          .error .sqlite { c with executed := c.executed + 1 } := by
        simp only [TorrentDatabase.execute, hfault]
      rw [Ensures, hrun]
      exact ⟨rfl, rfl, 0, Nat.one_pos, _, hfirst, rfl, by simp [hc]⟩
    | transactionEnded =>
      have hrun : TorrentDatabase.execute faults statement c =
          .error .sqlite { c with executed := c.executed + 1, transaction := none } := by
        simp only [TorrentDatabase.execute, hfault]
      rw [Ensures, hrun]
      exact ⟨rfl, rfl, 0, Nat.one_pos, _, hfirst, rfl, by simp⟩
  | none =>
    have hrun : TorrentDatabase.execute faults statement c =
        .ok cursor ⟨c.committed, some after, c.executed + 1⟩ := by
      cases statement with
      | beginImmediate => cases h
      | commit => cases h
      | rollback => cases h
      | _ => simp only [TorrentDatabase.execute, hfault, hc, h]
    rw [Ensures, hrun]
    refine ⟨rfl, fun k hk ↦ ?_, rfl⟩
    rw [show k = 0 by omega, add_zero, hfault]

theorem assert {p : Prop} [Decidable p] (tables : Tables) (hp : p) :
    Performs faults (TorrentDatabase.assert p) tables 0 () tables := by
  rw [TorrentDatabase.assert, if_pos hp]
  exact Performs.pure tables ()

theorem get {f : Connection → Action α} {before after : Tables} {count : ℕ} {result : α}
    (hf : ∀ c : Connection, c.transaction = some before →
      Performs faults (f c) before count result after) :
    Performs faults (MonadState.get >>= f) before count result after :=
  fun c hc ↦ hf c hc c hc

/-- A loop whose iterations are performed one after the other. -/
theorem foldlM {ι : Type} {f : α → ι → Action α} {count : Tables → ι → ℕ}
    {step : Tables × α → ι → Tables × α}
    (hf : ∀ tables result i, Performs faults (f result i) tables (count tables i)
      (step (tables, result) i).2 (step (tables, result) i).1)
    (total : Tables → α → List ι → ℕ) (hnil : ∀ tables result, total tables result [] = 0)
    (hcons : ∀ tables result i rest, total tables result (i :: rest) =
      count tables i + total (step (tables, result) i).1 (step (tables, result) i).2 rest)
    (items : List ι) (tables : Tables) (result : α) :
    Performs faults (items.foldlM f result) tables (total tables result items)
      (items.foldl step (tables, result)).2 (items.foldl step (tables, result)).1 := by
  induction items generalizing tables result with
  | nil =>
    rw [hnil]
    exact Performs.pure tables result
  | cons i rest ih =>
    rw [hcons, List.foldlM_cons, List.foldl_cons]
    exact (hf tables result i).bind (ih _ _)

end Performs

/-! ## What a batch does -/

variable (textTerms : Text → List Text)

/-- The tables after `insert_document`. -/
def inserted (tables : Tables) (document : Document) : Tables :=
  match tables.insertTorrent document with
  | none => tables
  | some changed => { changed with
      torrentsFts := changed.torrentsFts ++
        [(tables.nextId, document.name, List.intercalate ['\n'] (searchablePaths document))]
      terms := (termRows (documentTerms textTerms document)).foldl (fun terms row ↦ insert row terms)
        changed.terms
      totals := ⟨changed.totals.documents + 1, changed.totals.size + document.size,
        max changed.totals.lastId tables.nextId⟩ }

/-- The tables and the result after one iteration of `write_documents`. -/
def documentWritten (written : Tables × OrderedMap Bytes IndexBase) (document : Document) :
    Tables × OrderedMap Bytes IndexBase :=
  match written.1.find document.infoHash with
  | none => (inserted textTerms written.1 document, written.2)
  | some (id, row) =>
    (written.1.update (fun id' _ ↦ id' = id) (fun row ↦ row.addDocument document)
      (hash_addDocument document),
      written.2.insert document.infoHash row.counters)

def documentStatements (tables : Tables) (document : Document) : ℕ :=
  match tables.find document.infoHash with
  | none => 4 + (termRows (documentTerms textTerms document)).length
  | some _ => 2

/-- The statements of a batch of documents between `BEGIN` and `COMMIT`. -/
def documentsStatements : Tables → OrderedMap Bytes IndexBase → List Document → ℕ
  | _, _, [] => 0
  | tables, previous, document :: rest =>
    documentStatements textTerms tables document + documentsStatements
      (documentWritten textTerms (tables, previous) document).1
      (documentWritten textTerms (tables, previous) document).2 rest

/-- The tables and the result after one iteration of `update_counters`. -/
def counterUpdated (updated : Tables × List Bytes) (update : CounterUpdate) : Tables × List Bytes :=
  (updated.1.update (fun _ row ↦ row.infoHash = update.infoHash) (fun row ↦ row.addUpdate update)
      (hash_addUpdate update),
    if updated.1.find update.infoHash = none then updated.2 ++ [update.infoHash] else updated.2)

theorem performs_terms (rows : List (Text × Text)) (tables : Tables) :
    Performs faults (executemany faults (rows.map .insertTerm)) tables rows.length ()
      { tables with terms := rows.foldl (fun terms row ↦ insert row terms) tables.terms } := by
  induction rows generalizing tables with
  | nil => exact Performs.pure tables ()
  | cons row rest ih =>
    have hrow : Performs faults (execute faults (.insertTerm row)) tables 1 {}
        { tables with terms := insert row tables.terms } := Performs.execute rfl
    have hstep := hrow.bind (f := fun _ ↦ Pure.pure ()) (Performs.pure _ ())
    rw [List.length_cons, Nat.add_comm]
    exact hstep.bind (ih _)

theorem performs_insertDocument {tables : Tables} {document : Document}
    (h : tables.find document.infoHash = none) :
    Performs faults (insertDocument faults textTerms document) tables
      (3 + (termRows (documentTerms textTerms document)).length) ()
      (inserted textTerms tables document) := by
  obtain ⟨changed, hchanged⟩ : ∃ changed, tables.insertTorrent document = some changed :=
    ⟨_, dif_pos h⟩
  have hrow : Performs faults (execute faults (.insertTorrent document)) tables 1
      { lastRowId := tables.nextId, rowCount := 1 } changed := by
    apply Performs.execute
    rw [Tables.perform, hchanged, Option.map_some]
  have hfts : Performs faults (execute faults (.insertFts tables.nextId document.name
      (List.intercalate ['\n'] (searchablePaths document)))) changed 1 _ _ := Performs.execute rfl
  have htotals (tables' : Tables) : Performs faults
      (execute faults (.updateTotals document.size tables.nextId)) tables' 1 _ _ :=
    Performs.execute rfl
  rw [inserted, hchanged]
  have hrun := hrow.bind (f := fun cursor ↦ do
      let _ ← execute faults (.insertFts cursor.lastRowId document.name
        (List.intercalate ['\n'] (searchablePaths document)))
      executemany faults ((termRows (documentTerms textTerms document)).map .insertTerm)
      let _ ← execute faults (.updateTotals document.size cursor.lastRowId))
    (hfts.bind ((performs_terms _ _).bind ((htotals _).bind (Performs.pure _ ()))))
  have hcost : 1 + (1 + ((termRows (documentTerms textTerms document)).length + (1 + 0))) =
      3 + (termRows (documentTerms textTerms document)).length := by omega
  rw [hcost] at hrun
  apply Performs.get
  intro c hc
  have hopen : Performs faults (assert (c.transaction.isSome = true)) tables 0 () tables :=
    Performs.assert tables (by rw [hc]; rfl)
  have hall := hopen.bind (f := fun _ ↦ _) hrun
  rw [Nat.zero_add] at hall
  exact hall

theorem performs_writeDocument (tables : Tables) (previous : OrderedMap Bytes IndexBase)
    (document : Document) :
    Performs faults (writeDocument faults textTerms previous document) tables
      (documentStatements textTerms tables document)
      (documentWritten textTerms (tables, previous) document).2
      (documentWritten textTerms (tables, previous) document).1 := by
  have hselect : Performs faults (execute faults (.selectCounters document.infoHash)) tables 1
      { row := (tables.find document.infoHash).map fun item ↦ (item.1, item.2.counters) } tables :=
    Performs.execute rfl
  unfold writeDocument documentStatements documentWritten
  cases hfind : tables.find document.infoHash with
  | none =>
    rw [hfind] at hselect
    have hinsert : Performs faults (insertDocument faults textTerms document) tables _ () _ :=
      performs_insertDocument textTerms hfind
    have hrest := hinsert.bind (f := fun _ ↦ Pure.pure previous) (Performs.pure _ previous)
    have hcost : 4 + (termRows (documentTerms textTerms document)).length =
        1 + (3 + (termRows (documentTerms textTerms document)).length + 0) := by omega
    rw [hcost]
    exact hselect.bind hrest
  | some item =>
    rw [hfind] at hselect
    have hupdate : Performs faults (execute faults (.updateDocument item.1 document)) tables 1 _ _ :=
      Performs.execute rfl
    have hrest := hupdate.bind
      (f := fun _ ↦ Pure.pure (previous.insert document.infoHash item.2.counters))
      (Performs.pure _ _)
    change Performs faults _ tables (1 + (1 + 0)) (previous.insert document.infoHash _) _
    exact hselect.bind hrest

theorem performs_updateCounter (tables : Tables) (missing : List Bytes) (update : CounterUpdate) :
    Performs faults (updateCounter faults missing update) tables 1
      (counterUpdated (tables, missing) update).2 (counterUpdated (tables, missing) update).1 := by
  have hupdate : Performs faults (execute faults (.updateCounters update)) tables 1 _ _ :=
    Performs.execute rfl
  have hrun := hupdate.bind (f := fun cursor ↦ Pure.pure
    (if cursor.rowCount = 0 then missing ++ [update.infoHash] else missing)) (Performs.pure _ _)
  have hcount : (tables.torrents.items.countP fun item ↦ item.2.infoHash = update.infoHash) = 0 ↔
      tables.find update.infoHash = none := by
    rw [List.countP_eq_zero, Tables.find, List.find?_eq_none]
  simp only [hcount] at hrun
  exact hrun

/-! ## The statements around a batch -/

theorem execute_begin {c : Connection} (hc : c.transaction = none) :
    Ensures (execute faults .beginImmediate) c
      (fun _ c' ↦ faults c.executed = none ∧
        c' = ⟨c.committed, some c.committed, c.executed + 1⟩)
      (fun error c' ↦ error = .sqlite ∧ c'.committed = c.committed ∧ c'.transaction = none ∧
        ∃ fault, faults c.executed = some fault) := by
  unfold Ensures execute
  cases hfault : faults c.executed with
  | none =>
    simp only [hc, true_and]
  | some fault =>
    cases fault with
    | statementUndone => exact ⟨rfl, rfl, hc, _, rfl⟩
    | transactionEnded => exact ⟨rfl, rfl, rfl, _, rfl⟩

theorem execute_commit {c : Connection} {tables : Tables} (hc : c.transaction = some tables) :
    Ensures (execute faults .commit) c
      (fun _ c' ↦ faults c.executed = none ∧ c' = ⟨tables, none, c.executed + 1⟩)
      (fun error c' ↦ error = .sqlite ∧ c'.committed = c.committed ∧
        ∃ fault, faults c.executed = some fault ∧
          (c'.transaction = none ↔ fault = .transactionEnded)) := by
  unfold Ensures execute
  cases hfault : faults c.executed with
  | none =>
    simp only [hc, true_and]
  | some fault =>
    cases fault with
    | statementUndone => exact ⟨rfl, rfl, _, rfl, by simp [hc]⟩
    | transactionEnded => exact ⟨rfl, rfl, _, rfl, by simp⟩

/-- Whether or not it raises, `ROLLBACK` only leaves a transaction open when it is undone. -/
theorem execute_rollback (c : Connection) :
    Ensures (execute faults .rollback) c
      (fun _ c' ↦ c'.committed = c.committed ∧
        (c'.transaction = none ↔ c.transaction = none ∨ faults c.executed ≠ some .statementUndone))
      (fun error c' ↦ error = .sqlite ∧ c'.committed = c.committed ∧
        (c'.transaction = none ↔
          c.transaction = none ∨ faults c.executed ≠ some .statementUndone)) := by
  unfold Ensures execute
  cases hfault : faults c.executed with
  | none =>
    cases htransaction : c.transaction with
    | none => simp [Tables.perform]
    | some tables => simp
  | some fault =>
    cases fault with
    | statementUndone => simp
    | transactionEnded => simp

theorem ensures_assert {p : Prop} [Decidable p] {c : Connection} (hp : p) {x : Action α}
    {Q : α → Connection → Prop} {E : DatabaseError → Connection → Prop} (h : Ensures x c Q E) :
    Ensures (assert p >>= fun _ ↦ x) c Q E := by
  rw [assert, if_pos hp]
  exact h

theorem ensures_assert_false {p : Prop} [Decidable p] {c : Connection} (hp : ¬p)
    {x : Unit → Action α} {Q : α → Connection → Prop} {E : DatabaseError → Connection → Prop}
    (h : E .assertion c) : Ensures (assert p >>= x) c Q E := by
  rw [assert, if_neg hp]
  exact h

/-- With the first failure at the `k`-th statement the call leaves its transaction open: `COMMIT`
was undone, or a statement of the batch and then `ROLLBACK` were. -/
def StaysOpen (faults : ℕ → Option Fault) (first count k : ℕ) (fault : Fault) : Prop :=
  fault = .statementUndone ∧ (k = count + 1 ∨
    0 < k ∧ k ≤ count ∧ faults (first + k + 1) = some .statementUndone)

/-- The first failure of a call with `count` statements between `BEGIN` and `COMMIT` does not leave
its transaction open. -/
def Recovers (faults : ℕ → Option Fault) (first count : ℕ) : Prop :=
  ∀ k fault, FirstFault faults first k fault → ¬StaysOpen faults first count k fault

theorem FirstFault.unique {first k k' : ℕ} {fault fault' : Fault}
    (h : FirstFault faults first k fault) (h' : FirstFault faults first k' fault') :
    k = k' ∧ fault = fault' := by
  have hk : k = k' := by
    apply Nat.le_antisymm
    · by_contra hlt
      have hquiet := h.1 k' (by omega)
      rw [h'.2] at hquiet
      cases hquiet
    · by_contra hlt
      have hquiet := h'.1 k (by omega)
      rw [h.2] at hquiet
      cases hquiet
  subst hk
  exact ⟨rfl, Option.some.inj (h.2.symm.trans h'.2)⟩

theorem recovers_iff {first count k : ℕ} {fault : Fault} (h : FirstFault faults first k fault) :
    ¬StaysOpen faults first count k fault ↔ Recovers faults first count := by
  constructor
  · rintro hopen k' fault' h'
    obtain ⟨rfl, rfl⟩ := h.unique h'
    exact hopen
  · exact fun hrecovers ↦ hrecovers k fault h

theorem transaction_ensures {body : Action α} {count : ℕ} {result : α} {after : Tables}
    {c : Connection} (hc : c.transaction = none)
    (hbody : Performs faults body c.committed count result after) :
    Ensures (transaction faults body) c
      (fun result' c' ↦ result' = result ∧ Faultless faults c.executed (count + 2) ∧
        c' = ⟨after, none, c.executed + count + 2⟩)
      (fun error c' ↦ error = .sqlite ∧ c'.committed = c.committed ∧
        ∃ k < count + 2, ∃ fault, FirstFault faults c.executed k fault ∧
          (c'.transaction = none ↔ ¬StaysOpen faults c.executed count k fault)) := by
  unfold transaction
  apply Ensures.get
  apply ensures_assert (by rw [hc]; rfl)
  apply Ensures.bind ((execute_begin hc).imp (fun _ _ h ↦ h) ?_)
  · rintro _ _ ⟨hbegin, rfl⟩
    have hquiet : Faultless faults c.executed 1 := by
      intro k hk
      rw [show k = 0 by omega, add_zero, hbegin]
    apply Ensures.bind
    · apply Ensures.tryCatch (hbody ⟨c.committed, some c.committed, c.executed + 1⟩ rfl)
      rintro error c' ⟨rfl, hcommitted, k, hk, fault, ⟨hbefore, hfault⟩, hexecuted, hended⟩
      have hfirst : FirstFault faults c.executed (1 + k) fault :=
        ⟨hquiet.append hbefore, by rw [← add_assoc]; exact hfault⟩
      have hopen : StaysOpen faults c.executed count (1 + k) fault ↔
          fault = .statementUndone ∧ faults c'.executed = some .statementUndone := by
        rw [StaysOpen, hexecuted, ← add_assoc]
        constructor
        · rintro ⟨hundone, hcommit | ⟨-, -, hrollback⟩⟩
          · omega
          · exact ⟨hundone, hrollback⟩
        · rintro ⟨hundone, hrollback⟩
          exact ⟨hundone, Or.inr ⟨by omega, by omega, hrollback⟩⟩
      have hraised (c'' : Connection) (hkept : c''.committed = c'.committed)
          (hrollback : c''.transaction = none ↔
            c'.transaction = none ∨ faults c'.executed ≠ some .statementUndone) :
          c''.committed = c.committed ∧ ∃ k < count + 2, ∃ fault,
            FirstFault faults c.executed k fault ∧
              (c''.transaction = none ↔ ¬StaysOpen faults c.executed count k fault) := by
        refine ⟨hkept.trans hcommitted, 1 + k, by omega, fault, hfirst, ?_⟩
        rw [hrollback, hended, hopen]
        cases fault with
        | statementUndone => simp
        | transactionEnded => simp
      apply Ensures.bind ((execute_rollback c').imp (fun _ _ h ↦ h) ?_)
      · rintro _ c'' ⟨hkept, hrollback⟩
        exact Ensures.throw ⟨rfl, hraised c'' hkept hrollback⟩
      · rintro error c'' ⟨herror, hkept, hrollback⟩
        exact ⟨herror, hraised c'' hkept hrollback⟩
    · rintro result' _ ⟨rfl, hbatch, rfl⟩
      apply Ensures.bind ((execute_commit rfl).imp (fun _ _ h ↦ h) ?_)
      · rintro _ _ ⟨hcommit, rfl⟩
        apply Ensures.get
        apply ensures_assert rfl
        have hlast : Faultless faults (c.executed + (1 + count)) 1 := by
          intro k hk
          rw [show k = 0 by omega, add_zero, ← add_assoc, hcommit]
        refine Ensures.pure ⟨rfl, ?_, ?_⟩
        · rw [show count + 2 = 1 + count + 1 by omega]
          exact (hquiet.append hbatch).append hlast
        · simp only [Connection.mk.injEq, true_and]
          omega
      · rintro error c' ⟨herror, hcommitted, fault, hfault, hended⟩
        refine ⟨herror, hcommitted, 1 + count, by omega, fault,
          ⟨hquiet.append hbatch, by rw [← add_assoc]; exact hfault⟩, ?_⟩
        rw [hended, StaysOpen, Nat.add_comm 1 count]
        cases fault with
        | statementUndone => simp
        | transactionEnded => simp
  · rintro error c' ⟨herror, hcommitted, hclosed, fault, hfault⟩
    refine ⟨herror, hcommitted, 0, by omega, fault, ⟨?_, hfault⟩, ?_⟩
    · exact fun k hk ↦ absurd hk (Nat.not_lt_zero k)
    · simp [hclosed, StaysOpen]

/-! ## The two writes -/

theorem rows_documentWritten (written : Tables × OrderedMap Bytes IndexBase) (document : Document) :
    ((documentWritten textTerms written document).1.rows,
        (documentWritten textTerms written document).2) =
      Rows.writeDocument (written.1.rows, written.2) document := by
  unfold documentWritten Rows.writeDocument
  cases hfind : written.1.find document.infoHash with
  | none =>
    obtain ⟨changed, hchanged⟩ : ∃ changed, written.1.insertTorrent document = some changed :=
      ⟨_, dif_pos hfind⟩
    have hrow : written.1.rows document.infoHash = none := by rw [Tables.rows, hfind]; rfl
    simp only [hrow]
    rw [Prod.mk.injEq]
    refine ⟨funext fun infoHash ↦ ?_, rfl⟩
    have hfound : (inserted textTerms written.1 document).find infoHash = changed.find infoHash := by
      rw [inserted, hchanged]
      rfl
    rw [Tables.rows, hfound, Tables.find_insertTorrent hchanged, Function.update_apply]
    by_cases heq : infoHash = document.infoHash
    · rw [if_pos heq, if_pos heq]
      rfl
    · rw [if_neg heq, if_neg heq]
      rfl
  | some item =>
    have hrow : written.1.rows document.infoHash = some item.2 := by rw [Tables.rows, hfind]; rfl
    simp only [hrow]
    rw [Prod.mk.injEq]
    refine ⟨funext fun infoHash ↦ ?_, rfl⟩
    rw [Tables.rows, Tables.find_update, Function.update_apply]
    by_cases heq : infoHash = document.infoHash
    · rw [if_pos heq, heq, hfind]
      simp
    · rw [if_neg heq, Tables.rows]
      cases hother : written.1.find infoHash with
      | none => rfl
      | some item' =>
        have hne : ¬item'.1 = item.1 := fun hid ↦ heq (Tables.find_inj hother hfind hid)
        simp [hne]

theorem rows_counterUpdated (updated : Tables × List Bytes) (update : CounterUpdate) :
    ((counterUpdated updated update).1.rows, (counterUpdated updated update).2) =
      Rows.updateCounter (updated.1.rows, updated.2) update := by
  have hother (infoHash : Bytes) (heq : infoHash ≠ update.infoHash) :
      (counterUpdated updated update).1.rows infoHash = updated.1.rows infoHash := by
    rw [counterUpdated, Tables.rows, Tables.rows, Tables.find_update]
    cases hfind : updated.1.find infoHash with
    | none => rfl
    | some item =>
      have hne : ¬item.2.infoHash = update.infoHash := by rwa [Tables.hash_of_find hfind]
      simp [hne]
  have hsame : (counterUpdated updated update).1.rows update.infoHash =
      (updated.1.rows update.infoHash).map fun row ↦ row.addUpdate update := by
    rw [counterUpdated, Tables.rows, Tables.rows, Tables.find_update]
    cases hfind : updated.1.find update.infoHash with
    | none => rfl
    | some item => simp [Tables.hash_of_find hfind]
  unfold Rows.updateCounter
  cases hrow : updated.1.rows update.infoHash with
  | none =>
    have hfind : updated.1.find update.infoHash = none := by
      rwa [Tables.rows, Option.map_eq_none_iff] at hrow
    simp only [hrow]
    rw [Prod.mk.injEq]
    refine ⟨funext fun infoHash ↦ ?_, by simp only [counterUpdated, hfind, if_true]⟩
    by_cases heq : infoHash = update.infoHash
    · rw [heq, hsame, hrow]
      rfl
    · exact hother infoHash heq
  | some row =>
    have hfind : updated.1.find update.infoHash ≠ none := by
      intro hnone
      rw [Tables.rows, hnone] at hrow
      cases hrow
    simp only [hrow]
    rw [Prod.mk.injEq]
    refine ⟨funext fun infoHash ↦ ?_, by simp only [counterUpdated, hfind, if_false]⟩
    rw [Function.update_apply]
    by_cases heq : infoHash = update.infoHash
    · rw [if_pos heq, heq, hsame, hrow]
      rfl
    · rw [if_neg heq, hother infoHash heq]

/-- The tables and the result of a batch of documents in which nothing fails. -/
def documentsWritten (tables : Tables) (documents : List Document) :
    Tables × OrderedMap Bytes IndexBase :=
  documents.foldl (documentWritten textTerms) (tables, .empty)

def countersUpdated (tables : Tables) (updates : List CounterUpdate) : Tables × List Bytes :=
  updates.foldl counterUpdated (tables, [])

/-- The table `torrents` changes as the map from hashes to rows does. -/
theorem rows_documentsWritten (tables : Tables) (documents : List Document) :
    ((documentsWritten textTerms tables documents).1.rows,
        (documentsWritten textTerms tables documents).2) =
      Rows.writeDocuments tables.rows documents :=
  (List.foldl_hom (fun written : Tables × OrderedMap Bytes IndexBase ↦ (written.1.rows, written.2))
    fun written document ↦ (rows_documentWritten textTerms written document).symm).symm

theorem rows_countersUpdated (tables : Tables) (updates : List CounterUpdate) :
    ((countersUpdated tables updates).1.rows, (countersUpdated tables updates).2) =
      Rows.updateCounters tables.rows updates :=
  (List.foldl_hom (fun updated : Tables × List Bytes ↦ (updated.1.rows, updated.2))
    fun updated update ↦ (rows_counterUpdated updated update).symm).symm

theorem size_documentsWritten_le (tables : Tables) (documents : List Document) :
    (documentsWritten textTerms tables documents).2.size ≤ documents.length := by
  have hfold : ∀ (documents : List Document) (written : Tables × OrderedMap Bytes IndexBase),
      (documents.foldl (documentWritten textTerms) written).2.size ≤
        written.2.size + documents.length := by
    intro documents
    induction documents with
    | nil => exact fun written ↦ le_rfl
    | cons document rest ih =>
      intro written
      have hstep : (documentWritten textTerms written document).2.size ≤ written.2.size + 1 := by
        unfold documentWritten
        split
        · exact Nat.le_succ _
        · exact OrderedMap.size_insert_le _ _ _
      have hrest := ih (documentWritten textTerms written document)
      rw [List.foldl_cons, List.length_cons]
      omega
  calc
    _ ≤ (OrderedMap.empty : OrderedMap Bytes IndexBase).size + documents.length :=
      hfold documents (tables, .empty)
    _ = documents.length := Nat.zero_add _

theorem length_countersUpdated_le (tables : Tables) (updates : List CounterUpdate) :
    (countersUpdated tables updates).2.length ≤ updates.length := by
  have hfold : ∀ (updates : List CounterUpdate) (updated : Tables × List Bytes),
      (updates.foldl counterUpdated updated).2.length ≤ updated.2.length + updates.length := by
    intro updates
    induction updates with
    | nil => exact fun updated ↦ le_rfl
    | cons update rest ih =>
      intro updated
      have hstep : (counterUpdated updated update).2.length ≤ updated.2.length + 1 := by
        unfold counterUpdated
        split <;> simp
      have hrest := ih (counterUpdated updated update)
      rw [List.foldl_cons, List.length_cons]
      omega
  calc
    _ ≤ ([] : List Bytes).length + updates.length := hfold updates (tables, [])
    _ = updates.length := Nat.zero_add _

/-- `write_documents` outside a transaction: the whole batch is committed, or nothing is and the
first failure decides whether the transaction stays open. -/
theorem writeDocuments_ensures {c : Connection} (hc : c.transaction = none)
    {documents : List Document}
    (hhashes : ∀ document ∈ documents, 2 * document.infoHash.length = 40) :
    Ensures (writeDocuments faults textTerms documents) c
      (fun previous c' ↦ previous = (documentsWritten textTerms c.committed documents).2 ∧
        c'.committed = (documentsWritten textTerms c.committed documents).1 ∧
        c'.transaction = none)
      (fun _ c' ↦ c'.committed = c.committed ∧
        (∃ k fault, FirstFault faults c.executed k fault) ∧
        (c'.transaction = none ↔ Recovers faults c.executed
          (documentsStatements textTerms c.committed .empty documents))) := by
  have hbody : Performs faults (documents.foldlM (writeDocument faults textTerms) .empty)
      c.committed (documentsStatements textTerms c.committed .empty documents)
      (documentsWritten textTerms c.committed documents).2
      (documentsWritten textTerms c.committed documents).1 :=
    Performs.foldlM (performs_writeDocument textTerms) (documentsStatements textTerms)
      (fun _ _ ↦ rfl) (fun _ _ _ _ ↦ rfl) documents c.committed .empty
  apply ensures_assert hhashes
  apply Ensures.bind ((transaction_ensures hc hbody).imp (fun _ _ h ↦ h) ?_)
  · rintro previous c' ⟨rfl, -, rfl⟩
    apply ensures_assert (size_documentsWritten_le textTerms c.committed documents)
    exact Ensures.pure ⟨rfl, rfl, rfl⟩
  · rintro error c' ⟨-, hcommitted, k, -, fault, hfirst, hopen⟩
    exact ⟨hcommitted, ⟨k, fault, hfirst⟩, hopen.trans (recovers_iff hfirst)⟩

theorem updateCounters_ensures {c : Connection} (hc : c.transaction = none)
    (updates : List CounterUpdate) :
    Ensures (updateCounters faults updates) c
      (fun missing c' ↦ missing = (countersUpdated c.committed updates).2 ∧
        c'.committed = (countersUpdated c.committed updates).1 ∧ c'.transaction = none)
      (fun _ c' ↦ c'.committed = c.committed ∧
        (∃ k fault, FirstFault faults c.executed k fault) ∧
        (c'.transaction = none ↔ Recovers faults c.executed updates.length)) := by
  have hbody : Performs faults (updates.foldlM (updateCounter faults) []) c.committed
      updates.length (countersUpdated c.committed updates).2
      (countersUpdated c.committed updates).1 :=
    Performs.foldlM performs_updateCounter (fun _ _ updates ↦ updates.length)
      (fun _ _ ↦ rfl) (fun _ _ _ _ ↦ Nat.add_comm _ _) updates c.committed []
  apply Ensures.bind ((transaction_ensures hc hbody).imp (fun _ _ h ↦ h) ?_)
  · rintro missing c' ⟨rfl, -, rfl⟩
    apply ensures_assert (length_countersUpdated_le c.committed updates)
    exact Ensures.pure ⟨rfl, rfl, rfl⟩
  · rintro error c' ⟨-, hcommitted, k, -, fault, hfirst, hopen⟩
    exact ⟨hcommitted, ⟨k, fault, hfirst⟩, hopen.trans (recovers_iff hfirst)⟩

/-- A write that returns has changed the map from hashes to rows as the index thread's model of the
database does, and returns what that model returns. -/
theorem rows_of_writeDocuments {c c' : Connection} (hc : c.transaction = none)
    {documents : List Document}
    (hhashes : ∀ document ∈ documents, 2 * document.infoHash.length = 40)
    {previous : OrderedMap Bytes IndexBase}
    (hrun : writeDocuments faults textTerms documents c = .ok previous c') :
    (c'.committed.rows, previous) = Rows.writeDocuments c.committed.rows documents := by
  obtain ⟨rfl, hcommitted, -⟩ := (writeDocuments_ensures textTerms hc hhashes).ok hrun
  rw [hcommitted, rows_documentsWritten]

theorem rows_of_updateCounters {c c' : Connection} (hc : c.transaction = none)
    {updates : List CounterUpdate} {missing : List Bytes}
    (hrun : updateCounters faults updates c = .ok missing c') :
    (c'.committed.rows, missing) = Rows.updateCounters c.committed.rows updates := by
  obtain ⟨rfl, hcommitted, -⟩ := (updateCounters_ensures hc updates).ok hrun
  rw [hcommitted, rows_countersUpdated]

/-! ## After a failed write -/

/-- Nothing of a batch is kept, and the next write passes the precondition of `transaction` and
succeeds when no statement of it fails. -/
structure Usable (c c' : Connection) : Prop where
  kept : c'.committed = c.committed
  closed : c'.transaction = none
  nextDocuments : ∀ documents : List Document,
    (∀ document ∈ documents, 2 * document.infoHash.length = 40) →
    ∃ previous c'', writeDocuments (fun _ ↦ none) textTerms documents c' = .ok previous c''
  nextCounters : ∀ updates, ∃ missing c'',
    updateCounters (fun _ ↦ none) updates c' = .ok missing c''

theorem usable_iff {c c' : Connection} (hkept : c'.committed = c.committed) :
    Usable textTerms c c' ↔ c'.transaction = none := by
  constructor
  · exact Usable.closed
  · intro hclosed
    refine ⟨hkept, hclosed, fun documents hhashes ↦ ?_, fun updates ↦ ?_⟩
    · have hnext := @writeDocuments_ensures (fun _ ↦ none) textTerms c' hclosed documents hhashes
      cases hrun : writeDocuments (fun _ ↦ none) textTerms documents c' with
      | ok previous c'' => exact ⟨previous, c'', rfl⟩
      | error error c'' =>
        obtain ⟨-, ⟨k, fault, -, hfault⟩, -⟩ := hnext.error hrun
        cases hfault
    · have hnext := @updateCounters_ensures (fun _ ↦ none) c' hclosed updates
      cases hrun : updateCounters (fun _ ↦ none) updates c' with
      | ok missing c'' => exact ⟨missing, c'', rfl⟩
      | error error c'' =>
        obtain ⟨-, ⟨k, fault, -, hfault⟩, -⟩ := hnext.error hrun
        cases hfault

/-- Inside an open transaction a call fails its assertion and changes nothing. -/
theorem transaction_of_open {body : Action α} {c : Connection} (hc : c.transaction ≠ none) :
    Ensures (transaction faults body) c (fun _ _ ↦ False) (fun _ c' ↦ c' = c) := by
  apply Ensures.get
  apply ensures_assert_false
  · simpa using hc
  · rfl

theorem writeDocuments_of_open {c : Connection} (hc : c.transaction ≠ none)
    (documents : List Document) :
    Ensures (writeDocuments faults textTerms documents) c (fun _ _ ↦ False)
      (fun _ c' ↦ c' = c) := by
  by_cases hhashes : ∀ document ∈ documents, 2 * document.infoHash.length = 40
  · apply ensures_assert hhashes
    exact (transaction_of_open hc).bind fun _ _ h ↦ absurd h id
  · exact ensures_assert_false hhashes rfl

theorem updateCounters_of_open {c : Connection} (hc : c.transaction ≠ none)
    (updates : List CounterUpdate) :
    Ensures (updateCounters faults updates) c (fun _ _ ↦ False) (fun _ c' ↦ c' = c) :=
  (transaction_of_open hc).bind fun _ _ h ↦ absurd h id

/-- A write that raised leaves the database and the writer usable if and only if it was not called
inside a transaction and its first failure does not leave the transaction open. -/
theorem failed_write_usable_iff (faults : ℕ → Option Fault) (textTerms : Text → List Text)
    (c c' : Connection) (error : DatabaseError) :
    (∀ documents, writeDocuments faults textTerms documents c = .error error c' →
      (Usable textTerms c c' ↔ c.transaction = none ∧
        ((∀ document ∈ documents, 2 * document.infoHash.length = 40) →
          Recovers faults c.executed
            (documentsStatements textTerms c.committed .empty documents)))) ∧
    (∀ updates, updateCounters faults updates c = .error error c' →
      (Usable textTerms c c' ↔
        c.transaction = none ∧ Recovers faults c.executed updates.length)) := by
  constructor
  · intro documents hrun
    by_cases hc : c.transaction = none
    · by_cases hhashes : ∀ document ∈ documents, 2 * document.infoHash.length = 40
      · obtain ⟨hkept, -, hclosed⟩ := (writeDocuments_ensures textTerms hc hhashes).error hrun
        rw [usable_iff textTerms hkept, hclosed]
        exact ⟨fun h ↦ ⟨hc, fun _ ↦ h⟩, fun h ↦ h.2 hhashes⟩
      · have hsame : Ensures (writeDocuments faults textTerms documents) c (fun _ _ ↦ False)
            (fun _ c' ↦ c' = c) := ensures_assert_false hhashes rfl
        rw [hsame.error hrun, usable_iff textTerms rfl]
        exact ⟨fun h ↦ ⟨h, fun hall ↦ absurd hall hhashes⟩, And.left⟩
    · rw [(writeDocuments_of_open textTerms hc documents).error hrun, usable_iff textTerms rfl]
      exact ⟨fun h ↦ absurd h hc, fun h ↦ absurd h.1 hc⟩
  · intro updates hrun
    by_cases hc : c.transaction = none
    · obtain ⟨hkept, -, hclosed⟩ := (updateCounters_ensures hc updates).error hrun
      rw [usable_iff textTerms hkept, hclosed]
      exact ⟨fun h ↦ ⟨hc, h⟩, And.right⟩
    · rw [(updateCounters_of_open hc updates).error hrun, usable_iff textTerms rfl]
      exact ⟨fun h ↦ absurd h hc, fun h ↦ absurd h.1 hc⟩

/-! A batch of one counter update on an empty database. -/

def someUpdate : CounterUpdate where
  infoHash := List.replicate 20 0
  seenDelta := 1
  announceDelta := 0
  lastSeen := 7
  seenDelta_nonneg := by decide

/-- Only the statement with this number fails, and it is undone. -/
def failsAt (n : ℕ) : ℕ → Option Fault := fun k ↦ if k = n then some .statementUndone else none

/-- The `UPDATE` fails, `ROLLBACK` does not. -/
theorem failed_update_usable :
    ∃ c', updateCounters (failsAt 1) [someUpdate] ⟨.empty, none, 0⟩ = .error .sqlite c' ∧
      Usable (fun text ↦ [text]) ⟨.empty, none, 0⟩ c' := by
  refine ⟨⟨.empty, none, 3⟩, rfl, ?_⟩
  apply ((failed_write_usable_iff (failsAt 1) (fun text ↦ [text]) ⟨.empty, none, 0⟩ _ _).2
    [someUpdate] rfl).mpr
  refine ⟨rfl, fun k fault hfirst hopen ↦ ?_⟩
  have hk : k = 1 := by
    by_contra hne
    have hfault := hfirst.2
    simp [failsAt, hne] at hfault
  subst hk
  simp [StaysOpen, failsAt] at hopen

/-- `COMMIT` fails with the transaction kept, as it does when the database is busy: no later write
passes the precondition of `transaction`. -/
theorem busy_commit_keeps_transaction :
    ¬∀ (faults : ℕ → Option Fault) (textTerms : Text → List Text) (c c' : Connection)
      (error : DatabaseError) (updates : List CounterUpdate), c.transaction = none →
      updateCounters faults updates c = .error error c' → Usable textTerms c c' := by
  intro h
  have husable := h (failsAt 2) (fun text ↦ [text]) ⟨.empty, none, 0⟩ ⟨.empty, some _, 3⟩ .sqlite
    [someUpdate] rfl rfl
  cases husable.closed

end Performs

end TorrentDatabase

end DhtScraper
