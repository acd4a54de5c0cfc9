import DhtScraper.Catalog.Client
import DhtScraper.Index.Database

/-!
# The index thread beside the other threads

`SearchIndexer` empties the queues of the catalog into the database.  Each of its passes takes the
catalog lock several times and talks to the database in between, so its steps interleave with the
operations of the crawler and fetch threads.  `IndexPhase` is what the index thread holds between two
steps; an exception that leaves a pass returns it to `idle`, with whatever it held lost unless it was
put back first.

The loop, the intervals, the backoff and the statistics of the thread only decide when a pass starts,
and here a pass may start at any time.
-/

namespace DhtScraper

open Library

/-- `NO_BASE`. -/
def noBase : IndexBase := (0, 0, none)

/-- `build_document`; `none` is a failed assertion. -/
def buildDocument (snapshot : IndexSnapshot) : Option Document :=
  match snapshot.metadata with
  | none => none
  | some metadata =>
    if hseen : 0 ≤ snapshot.seenDelta then
      some
        { infoHash := snapshot.infoHash
          name := metadata.name
          size := min metadata.totalSize maxSqliteInteger
          fileCount := metadata.fileCount
          pieceLength := min metadata.pieceLength maxSqliteInteger
          isPrivate := metadata.isPrivate
          fetchedAt := metadata.fetchedAt
          seenCount := snapshot.seenDelta
          announceCount := snapshot.announceDelta
          firstSeen := snapshot.firstSeen
          lastSeen := snapshot.lastSeen
          files := metadata.files
          seenCount_nonneg := hseen }
    else none

/-- `build_counter_update`; `none` is a failed assertion. -/
def buildCounterUpdate (snapshot : IndexSnapshot) : Option CounterUpdate :=
  if hseen : 0 ≤ snapshot.seenDelta then
    if snapshot.base.isSome then
      some
        { infoHash := snapshot.infoHash
          seenDelta := snapshot.seenDelta
          announceDelta := snapshot.announceDelta
          lastSeen := snapshot.lastSeen
          seenDelta_nonneg := hseen }
    else none
  else none

/-- The argument of `write_documents`, when the assertions on the way hold. -/
def documentsOf (batch : List IndexSnapshot) : Option (List Document) :=
  (batch.mapM buildDocument).filter fun documents ↦
    ∀ document ∈ documents, document.infoHash.length = nodeIdLength

/-- The base each snapshot is marked with after its document was written. -/
def baseOf (previous : OrderedMap Bytes IndexBase) (snapshot : IndexSnapshot) : IndexBase :=
  snapshot.base.getD ((previous.get? snapshot.infoHash).getD noBase)

/-- What the index thread holds between two steps. -/
inductive IndexPhase where
  | idle
  | documentsDrained (batch : List IndexSnapshot)
  | documentsWritten (marks : List (IndexSnapshot × IndexBase))
  | countersDrained (batch : List IndexSnapshot)
  | countersWritten (batch : List IndexSnapshot) (missing : List Bytes)
  | countersMissing (infoHashes : List Bytes)
  | checksTaken (infoHashes : List Bytes)
  | checksRead (infoHashes : List Bytes) (found : List (Bytes × IndexBase))
  deriving DecidableEq

namespace IndexPhase

/-- A pass ends when there is nothing left to do. -/
def unlessEmpty {α : Type} (items : List α) (phase : IndexPhase) : IndexPhase :=
  if items.isEmpty then .idle else phase

/-- The snapshots that were drained and are neither marked nor put back yet. -/
def flight : IndexPhase → List IndexSnapshot
  | .documentsDrained batch => batch
  | .documentsWritten marks => marks.map Prod.fst
  | .countersDrained batch => batch
  | .countersWritten batch _ => batch
  | _ => []

/-- The snapshots in flight are in the database already. -/
def committed : IndexPhase → Bool
  | .documentsWritten _ => true
  | .countersWritten _ _ => true
  | _ => false

@[simp]
theorem flight_unlessEmpty_documents (batch : List IndexSnapshot) :
    (unlessEmpty batch (.documentsDrained batch)).flight = batch := by
  cases batch <;> rfl

@[simp]
theorem flight_unlessEmpty_counters (batch : List IndexSnapshot) :
    (unlessEmpty batch (.countersDrained batch)).flight = batch := by
  cases batch <;> rfl

@[simp]
theorem flight_unlessEmpty_marks (marks : List (IndexSnapshot × IndexBase)) :
    (unlessEmpty marks (.documentsWritten marks)).flight = marks.map Prod.fst := by
  cases marks <;> rfl

end IndexPhase

/-- The catalog, the database and the index thread.  `stored` records which entry objects
`store_metadata` was called on or `apply_database_checks` matched to a row; nothing depends on it. -/
structure IndexSystem where
  session : Session
  rows : Rows
  phase : IndexPhase
  stored : Finset Ref

inductive IndexLabel where
  | client (op : CatalogOp)
  | drainDocuments (limit : ℕ)
  | writeDocuments
  | failDocuments
  | markDocument
  | drainCounters (limit : ℕ)
  | writeCounters
  | failCounters
  | markCounters
  | resetMissing
  | takeChecks (limit : ℕ)
  | readRows
  | failRead
  | applyChecks
  | switchChecks (enabled : Bool)

def IndexLabel.sightings : IndexLabel → List Sighting
  | .client op => op.sightings
  | _ => []

/-- The crawler and fetch threads give back only claims they hold; metadata may be stored and a base
reset at any time. -/
def looseStores : Discipline := ⟨false, false⟩

/-- The entry that an operation stores metadata in. -/
def Session.newlyStored (s : Session) : CatalogOp → Finset Ref
  | .storeMetadata metadata now =>
    if 0 ≤ now then
      ((s.exec (.storeMetadata metadata now)).catalog.entries.get? metadata.infoHash).toFinset
    else ∅
  | _ => ∅

/-- The entries that `apply_database_checks` matches to a row. -/
def TorrentCatalog.matched (c : TorrentCatalog) (infoHashes : List Bytes)
    (found : List (Bytes × IndexBase)) : Finset Ref :=
  (infoHashes.filterMap fun infoHash ↦ (c.needsCheck.get? infoHash).filter fun r ↦
    (found.lookup infoHash).isSome ∧ (c.heap r).awaitsCheck).toFinset

namespace IndexSystem

/-- The start of a run: tracking is switched on before the threads start. -/
def start (limits : CatalogLimits) (maxPending : ℕ) (checkDatabase : Bool) (rows : Rows) :
    IndexSystem where
  session := (Session.new limits).exec (.enableIndexTracking maxPending checkDatabase)
  rows := rows
  phase := .idle
  stored := ∅

/-- The index thread calls an operation of the catalog; an exception ends its pass. -/
def call (s : IndexSystem) (op : CatalogOp) (phase : IndexPhase) : IndexSystem :=
  { s with
    session := s.session.exec op
    phase := if (s.session.exec op).catalog.raised then .idle else phase }

/-- `write_documents`, committed, and the bases its result gives. -/
def commitDocuments (s : IndexSystem) (batch : List IndexSnapshot) : IndexSystem :=
  match documentsOf batch with
  | some documents =>
    let written := s.rows.writeDocuments documents
    { s with
      rows := written.1
      phase := .documentsWritten (batch.map fun snapshot ↦ (snapshot, baseOf written.2 snapshot)) }
  | none => { s with phase := .idle }

/-- `update_counters`, committed. -/
def commitCounters (s : IndexSystem) (batch : List IndexSnapshot) : IndexSystem :=
  match batch.mapM buildCounterUpdate with
  | some updates =>
    let updated := s.rows.updateCounters updates
    { s with rows := updated.1, phase := .countersWritten batch updated.2 }
  | none => { s with phase := .idle }

def step (s : IndexSystem) (label : IndexLabel) : Option IndexSystem :=
  match label, s.phase with
  | .client op, _ =>
    if op.isClient ∧ s.session.permits looseStores op then
      some { s with
        session := s.session.exec op
        stored := s.stored ∪ s.session.newlyStored op }
    else none
  | .drainDocuments limit, .idle =>
    let batch := (s.session.catalog.settle.drainIndexDocuments limit).2
    some (s.call (.drainIndexDocuments limit) (.unlessEmpty batch (.documentsDrained batch)))
  | .writeDocuments, .documentsDrained batch => some (s.commitDocuments batch)
  | .failDocuments, .documentsDrained batch =>
    if (documentsOf batch).isSome then some (s.call (.requeueIndexDocuments batch) .idle) else none
  | .markDocument, .documentsWritten ((snapshot, base) :: marks) =>
    some (s.call (.markIndexWritten snapshot base)
      (.unlessEmpty marks (.documentsWritten marks)))
  | .drainCounters limit, .idle =>
    let batch := (s.session.catalog.settle.drainIndexCounters limit).2
    some (s.call (.drainIndexCounters limit) (.unlessEmpty batch (.countersDrained batch)))
  | .writeCounters, .countersDrained batch => some (s.commitCounters batch)
  | .failCounters, .countersDrained batch =>
    if (batch.mapM buildCounterUpdate).isSome then
      some (s.call (.requeueIndexCounters batch) .idle)
    else none
  | .markCounters, .countersWritten batch missing =>
    some (s.call (.markCountersWritten (batch.filter fun snapshot ↦ snapshot.infoHash ∉ missing))
      (.unlessEmpty missing (.countersMissing missing)))
  | .resetMissing, .countersMissing (infoHash :: rest) =>
    some (s.call (.resetIndexBase infoHash) (.unlessEmpty rest (.countersMissing rest)))
  | .takeChecks limit, .idle =>
    let infoHashes := s.session.catalog.pendingDatabaseChecks limit
    some { s with phase := .unlessEmpty infoHashes (.checksTaken infoHashes) }
  | .readRows, .checksTaken infoHashes =>
    some { s with
      phase :=
        if ∀ infoHash ∈ infoHashes, infoHash.length = nodeIdLength then
          .checksRead infoHashes (s.rows.lookupCounters infoHashes)
        else .idle }
  | .failRead, .checksTaken _ => some { s with phase := .idle }
  | .applyChecks, .checksRead infoHashes found =>
    some { s.call (.applyDatabaseChecks infoHashes found) .idle with
      stored := s.stored ∪ s.session.catalog.matched infoHashes found }
  | .switchChecks enabled, .idle => some (s.call (.setDatabaseCheck enabled) .idle)
  | _, _ => none

end IndexSystem

def indexMachine : Machine IndexSystem IndexLabel := ⟨IndexSystem.step⟩

namespace IndexSystem

/-- Everything one step can do, with the phase it starts from. -/
inductive Stepped (s : IndexSystem) : IndexLabel → IndexSystem → Prop
  | client {op : CatalogOp} (client : op.isClient) (permitted : s.session.permits looseStores op) :
      Stepped s (.client op)
        { s with
          session := s.session.exec op
          stored := s.stored ∪ s.session.newlyStored op }
  | documentsDrained {limit : ℕ} {batch : List IndexSnapshot} (phase : s.phase = .idle)
      (drained : (s.session.catalog.settle.drainIndexDocuments limit).2 = batch) :
      Stepped s (.drainDocuments limit)
        (s.call (.drainIndexDocuments limit) (.unlessEmpty batch (.documentsDrained batch)))
  | documentsWritten {batch : List IndexSnapshot} (phase : s.phase = .documentsDrained batch) :
      Stepped s .writeDocuments (s.commitDocuments batch)
  | documentsFailed {batch : List IndexSnapshot} (phase : s.phase = .documentsDrained batch)
      (built : (documentsOf batch).isSome) :
      Stepped s .failDocuments (s.call (.requeueIndexDocuments batch) .idle)
  | documentMarked {snapshot : IndexSnapshot} {base : IndexBase}
      {marks : List (IndexSnapshot × IndexBase)}
      (phase : s.phase = .documentsWritten ((snapshot, base) :: marks)) :
      Stepped s .markDocument
        (s.call (.markIndexWritten snapshot base) (.unlessEmpty marks (.documentsWritten marks)))
  | countersDrained {limit : ℕ} {batch : List IndexSnapshot} (phase : s.phase = .idle)
      (drained : (s.session.catalog.settle.drainIndexCounters limit).2 = batch) :
      Stepped s (.drainCounters limit)
        (s.call (.drainIndexCounters limit) (.unlessEmpty batch (.countersDrained batch)))
  | countersWritten {batch : List IndexSnapshot} (phase : s.phase = .countersDrained batch) :
      Stepped s .writeCounters (s.commitCounters batch)
  | countersFailed {batch : List IndexSnapshot} (phase : s.phase = .countersDrained batch)
      (built : (batch.mapM buildCounterUpdate).isSome) :
      Stepped s .failCounters (s.call (.requeueIndexCounters batch) .idle)
  | countersMarked {batch : List IndexSnapshot} {missing : List Bytes}
      (phase : s.phase = .countersWritten batch missing) :
      Stepped s .markCounters
        (s.call
          (.markCountersWritten (batch.filter fun snapshot ↦ snapshot.infoHash ∉ missing))
          (.unlessEmpty missing (.countersMissing missing)))
  | missingReset {infoHash : Bytes} {rest : List Bytes}
      (phase : s.phase = .countersMissing (infoHash :: rest)) :
      Stepped s .resetMissing
        (s.call (.resetIndexBase infoHash) (.unlessEmpty rest (.countersMissing rest)))
  | checksTaken {limit : ℕ} {infoHashes : List Bytes} (phase : s.phase = .idle)
      (taken : s.session.catalog.pendingDatabaseChecks limit = infoHashes) :
      Stepped s (.takeChecks limit)
        { s with phase := .unlessEmpty infoHashes (.checksTaken infoHashes) }
  | rowsRead {infoHashes : List Bytes} (phase : s.phase = .checksTaken infoHashes) :
      Stepped s .readRows
        { s with
          phase :=
            if ∀ infoHash ∈ infoHashes, infoHash.length = nodeIdLength then
              .checksRead infoHashes (s.rows.lookupCounters infoHashes)
            else .idle }
  | readFailed {infoHashes : List Bytes} (phase : s.phase = .checksTaken infoHashes) :
      Stepped s .failRead { s with phase := .idle }
  | checksApplied {infoHashes : List Bytes} {found : List (Bytes × IndexBase)}
      (phase : s.phase = .checksRead infoHashes found) :
      Stepped s .applyChecks
        { s.call (.applyDatabaseChecks infoHashes found) .idle with
          stored := s.stored ∪ s.session.catalog.matched infoHashes found }
  | checksSwitched {enabled : Bool} (phase : s.phase = .idle) :
      Stepped s (.switchChecks enabled) (s.call (.setDatabaseCheck enabled) .idle)

theorem step_cases {s s' : IndexSystem} {label : IndexLabel} (h : s.step label = some s') :
    s.Stepped label s' := by
  unfold step at h
  split at h
  case h_1 =>
    split at h
    next hop => exact Option.some.inj h ▸ .client hop.1 hop.2
    next => cases h
  case h_2 hphase => exact Option.some.inj h ▸ .documentsDrained hphase rfl
  case h_3 hphase => exact Option.some.inj h ▸ .documentsWritten hphase
  case h_4 hphase =>
    split at h
    next hbuilt => exact Option.some.inj h ▸ .documentsFailed hphase hbuilt
    next => cases h
  case h_5 hphase => exact Option.some.inj h ▸ .documentMarked hphase
  case h_6 hphase => exact Option.some.inj h ▸ .countersDrained hphase rfl
  case h_7 hphase => exact Option.some.inj h ▸ .countersWritten hphase
  case h_8 hphase =>
    split at h
    next hbuilt => exact Option.some.inj h ▸ .countersFailed hphase hbuilt
    next => cases h
  case h_9 hphase => exact Option.some.inj h ▸ .countersMarked hphase
  case h_10 hphase => exact Option.some.inj h ▸ .missingReset hphase
  case h_11 hphase => exact Option.some.inj h ▸ .checksTaken hphase rfl
  case h_12 hphase => exact Option.some.inj h ▸ .rowsRead hphase
  case h_13 hphase => exact Option.some.inj h ▸ .readFailed hphase
  case h_14 hphase => exact Option.some.inj h ▸ .checksApplied hphase
  case h_15 hphase => exact Option.some.inj h ▸ .checksSwitched hphase
  case h_16 => cases h

end IndexSystem

end DhtScraper
