import DhtScraper.Catalog.Records
import DhtScraper.Library.Machine

/-!
# Sessions: operations, claims and the callers' protocol

A session is a catalog together with the claims its callers hold: the hashes that
`next_fetch_candidates` and `hashes_needing_peers` handed out and that were not given back yet.  The
catalog itself does not store them.  The operations of a session may come from any thread and in any
order; a `Discipline` says what the callers promise about them.
-/

namespace DhtScraper

open Library

/-- The mutating operations of `TorrentCatalog`, with their arguments. -/
inductive CatalogOp where
  | recordHash (infoHash : Bytes) (source : Source) (peer : Option Address) (now : ℚ)
  | recordHashes (infoHashes : List Bytes) (source : Source) (now : ℚ)
  | addPeers (infoHash : Bytes) (peers : List Address)
  | hashesNeedingPeers (limit : ℕ) (now : ℚ)
  | releaseLookupClaim (infoHash : Bytes)
  | addLookupResult (infoHash : Bytes) (peers : List Address) (now : ℚ)
  | nextFetchCandidates (limit : ℕ)
  | storeMetadata (metadata : TorrentMetadata) (now : ℚ)
  | markFetchFailed (infoHash : Bytes) (triedPeers : List Address) (reason : String) (now : ℚ)
  | releaseFetchClaim (infoHash : Bytes)
  | enableIndexTracking (maxPending : ℕ) (checkDatabase : Bool)
  | drainIndexDocuments (limit : ℕ)
  | drainIndexCounters (limit : ℕ)
  | requeueIndexDocuments (snapshots : List IndexSnapshot)
  | requeueIndexCounters (snapshots : List IndexSnapshot)
  | markCountersWritten (snapshots : List IndexSnapshot)
  | setIndexBase (infoHash : Bytes) (base : IndexBase)
  | markIndexWritten (snapshot : IndexSnapshot) (base : IndexBase)
  | setDatabaseCheck (enabled : Bool)
  | applyDatabaseChecks (infoHashes : List Bytes) (found : List (Bytes × IndexBase))
  | resetIndexBase (infoHash : Bytes)

namespace TorrentCatalog

/-- The state after an operation. -/
def apply (c : TorrentCatalog) : CatalogOp → TorrentCatalog
  | .recordHash infoHash source peer now => (c.recordHash infoHash source peer now).1
  | .recordHashes infoHashes source now => (c.recordHashes infoHashes source now).1
  | .addPeers infoHash peers => (c.addPeers infoHash peers).1
  | .hashesNeedingPeers limit now => (c.hashesNeedingPeers limit now).1
  | .releaseLookupClaim infoHash => c.releaseLookupClaim infoHash
  | .addLookupResult infoHash peers now => c.addLookupResult infoHash peers now
  | .nextFetchCandidates limit => (c.nextFetchCandidates limit).1
  | .storeMetadata metadata now => (c.storeMetadata metadata now).1
  | .markFetchFailed infoHash triedPeers reason now =>
    (c.markFetchFailed infoHash triedPeers reason now).1
  | .releaseFetchClaim infoHash => c.releaseFetchClaim infoHash
  | .enableIndexTracking maxPending checkDatabase =>
    c.enableIndexTracking maxPending checkDatabase
  | .drainIndexDocuments limit => (c.drainIndexDocuments limit).1
  | .drainIndexCounters limit => (c.drainIndexCounters limit).1
  | .requeueIndexDocuments snapshots => c.requeueIndexDocuments snapshots
  | .requeueIndexCounters snapshots => c.requeueIndexCounters snapshots
  | .markCountersWritten snapshots => c.markCountersWritten snapshots
  | .setIndexBase infoHash base => c.setIndexBase infoHash base
  | .markIndexWritten snapshot base => c.markIndexWritten snapshot base
  | .setDatabaseCheck enabled => c.setDatabaseCheck enabled
  | .applyDatabaseChecks infoHashes found => c.applyDatabaseChecks infoHashes found
  | .resetIndexBase infoHash => c.resetIndexBase infoHash

/-- The catalog at the start of an operation, where no assertion has failed yet. -/
def settle (c : TorrentCatalog) : TorrentCatalog := { c with raised := false }

end TorrentCatalog

structure Session where
  catalog : TorrentCatalog
  fetchClaims : Finset Bytes
  lookupClaims : Finset Bytes

namespace Session

def new (limits : CatalogLimits) : Session := ⟨.new limits, ∅, ∅⟩

/-- The fetch claims after an operation: `next_fetch_candidates` hands claims out, and a call that
reports a fetch gives one back when it gets past its assertions. -/
def nextFetchClaims (s : Session) : CatalogOp → Finset Bytes
  | .nextFetchCandidates limit =>
    s.fetchClaims ∪ ((s.catalog.settle.nextFetchCandidates limit).2.map Prod.fst).toFinset
  | .storeMetadata metadata now =>
    if 0 ≤ now then s.fetchClaims.erase metadata.infoHash else s.fetchClaims
  | .markFetchFailed infoHash _ _ now =>
    if infoHash.length = nodeIdLength ∧ 0 ≤ now then s.fetchClaims.erase infoHash
    else s.fetchClaims
  | .releaseFetchClaim infoHash =>
    if infoHash.length = nodeIdLength then s.fetchClaims.erase infoHash else s.fetchClaims
  | _ => s.fetchClaims

/-- The lookup claims after an operation. -/
def nextLookupClaims (s : Session) : CatalogOp → Finset Bytes
  | .hashesNeedingPeers limit now =>
    s.lookupClaims ∪ (s.catalog.settle.hashesNeedingPeers limit now).2.toFinset
  | .addLookupResult infoHash _ now =>
    if infoHash.length = nodeIdLength ∧ 0 ≤ now then s.lookupClaims.erase infoHash
    else s.lookupClaims
  | .releaseLookupClaim infoHash =>
    if infoHash.length = nodeIdLength then s.lookupClaims.erase infoHash else s.lookupClaims
  | _ => s.lookupClaims

def exec (s : Session) (op : CatalogOp) : Session where
  catalog := s.catalog.settle.apply op
  fetchClaims := s.nextFetchClaims op
  lookupClaims := s.nextLookupClaims op

end Session

/-- What the callers promise beyond giving back only the claims they hold. -/
structure Discipline where
  /-- `store_metadata` is called for claimed hashes only. -/
  claimedStores : Bool
  /-- `reset_index_base` is called only where the entry can still be fetched or looked up. -/
  openResets : Bool

/-- The released or known entry has neither a peer nor a lookup left, so that a reset would make it
pending without a way on. -/
def TorrentEntry.resetStrands (maxLookups : ℕ) (entry : TorrentEntry) : Bool :=
  entry.metadata.isNone ∧ entry.inDatabase ∧ ¬ entry.hasPeers ∧ ¬ entry.lookupInProgress
    ∧ maxLookups ≤ entry.lookupsStarted

/-- The operation is one that callers under the discipline may issue in this session. -/
def Session.permits (d : Discipline) (s : Session) : CatalogOp → Prop
  | .storeMetadata metadata _ => d.claimedStores → metadata.infoHash ∈ s.fetchClaims
  | .markFetchFailed infoHash _ _ _ => infoHash ∈ s.fetchClaims
  | .releaseFetchClaim infoHash => infoHash ∈ s.fetchClaims
  | .addLookupResult infoHash _ _ => infoHash ∈ s.lookupClaims
  | .releaseLookupClaim infoHash => infoHash ∈ s.lookupClaims
  | .resetIndexBase infoHash =>
    d.openResets → ∀ r ∈ s.catalog.entries.get? infoHash,
      ¬ (s.catalog.heap r).resetStrands s.catalog.limits.maxLookups
  | _ => True

instance (d : Discipline) (s : Session) (op : CatalogOp) : Decidable (s.permits d op) := by
  cases op <;> unfold Session.permits <;> infer_instance

/-- The machine of all operation sequences. -/
def catalogMachine : Machine Session CatalogOp := ⟨fun s op ↦ some (s.exec op)⟩

theorem catalogMachine_run (s : Session) (ops : List CatalogOp) :
    catalogMachine.run s ops = some (ops.foldl Session.exec s) := by
  induction ops generalizing s with
  | nil => rfl
  | cons op rest ih => exact ih (s.exec op)

/-! ## Steps of an entry -/

/-- Everything one operation may do to the contents of a live entry. -/
inductive EntryStep (limits : CatalogLimits) (d : Discipline) : TorrentEntry → TorrentEntry → Prop
  | peersAdded {e : TorrentEntry} {peers : Option (OrderedMap Address Unit)}
      (keep : e.hasPeers → TorrentEntry.hasPeers { e with peers := peers }) :
      EntryStep limits d e { e with peers := peers }
  | lookupClaimed {e : TorrentEntry} (awaits : e.awaitsLookup limits.maxLookups) :
      EntryStep limits d e { e with lookupInProgress := true }
  | lookupReleased {e : TorrentEntry} (claimed : e.lookupInProgress) :
      EntryStep limits d e { e with lookupInProgress := false }
  | lookupEnded {e e' : TorrentEntry} (claimed : e.lookupInProgress) (record : e.SameRecord e')
      (lookupInProgress : e'.lookupInProgress = false)
      (lookupsStarted : e'.lookupsStarted = e.lookupsStarted + 1)
      (hasPeers : e.hasPeers → e'.hasPeers)
      (done : e'.fetchState = .done ↔ e.fetchState = .done)
      (fetching : e'.fetchState = .inProgress ↔ e.fetchState = .inProgress)
      (pending : e'.fetchState = .pending → e.fetchState = .pending ∧
        (e'.hasPeers ∨ e'.lookupsStarted < limits.maxLookups)) : EntryStep limits d e e'
  | fetchClaimed {e : TorrentEntry} (ready : e.readyToFetch) :
      EntryStep limits d e { e with fetchState := .inProgress }
  | fetchReleased {e : TorrentEntry} (claimed : e.fetchState = .inProgress) :
      EntryStep limits d e { e with fetchState := .pending }
  | fetchFailed {e e' : TorrentEntry} (claimed : e.fetchState = .inProgress)
      (record : e.SameRecord e') (lookupInProgress : e'.lookupInProgress = e.lookupInProgress)
      (lookupsStarted : e'.lookupsStarted = e.lookupsStarted)
      (outcome : e'.fetchState = .failed ∨ e'.fetchState = .pending ∧ (e'.hasPeers ∨
        e'.lookupsStarted < limits.maxLookups ∨ e'.lookupInProgress)) : EntryStep limits d e e'
  | sighted {e e' : TorrentEntry} {source : Source} {moment : ℚ}
      (record : (TorrentCatalog.countSighting source moment e).SameRecord e')
      (fetchState : e'.fetchState = e.fetchState)
      (lookupInProgress : e'.lookupInProgress = e.lookupInProgress)
      (lookupsStarted : e'.lookupsStarted = e.lookupsStarted)
      (hasPeers : e.hasPeers → e'.hasPeers) : EntryStep limits d e e'
  | stored {e : TorrentEntry} (metadata : TorrentMetadata)
      (claimed : d.claimedStores → e.fetchState = .inProgress) :
      EntryStep limits d e (TorrentCatalog.storedEntry e metadata)
  | dropped {e : TorrentEntry} (done : e.fetchState = .done) (metadata : e.metadata.isSome) :
      EntryStep limits d e (TorrentCatalog.droppedEntry e)
  | written {e : TorrentEntry} {snapshot : IndexSnapshot} (base : IndexBase)
      (metadata : snapshot.metadata.isSome) :
      EntryStep limits d e (TorrentCatalog.writtenEntry e snapshot base)
  | based {e : TorrentEntry} {base : IndexBase} :
      EntryStep limits d e { e with indexBase := some base }
  | flushed {e : TorrentEntry} {seen announce : ℤ} :
      EntryStep limits d e { e with flushedSeen := seen, flushedAnnounce := announce }
  | unchecked {e : TorrentEntry} (awaits : e.awaitsCheck) :
      EntryStep limits d e { e with databaseChecked := true }
  | checked {e : TorrentEntry} (awaits : e.awaitsCheck) (base : Option IndexBase) :
      EntryStep limits d e (TorrentCatalog.checkedEntry e base)
  | reset {e : TorrentEntry} (opened : d.openResets → ¬ e.resetStrands limits.maxLookups) :
      EntryStep limits d e (TorrentCatalog.resetEntry e)

/-! ## Sample values -/

/-- A catalog that looks for peers once. -/
def oneLookup : CatalogLimits := { maxLookups := 1 }

/-- Room for one entry only. -/
def oneEntry : CatalogLimits := { maxEntries := 1, maxLookups := 1 }

/-- Room for two entries. -/
def twoEntries : CatalogLimits := { maxEntries := 2 }

/-- Room for forty entries, of which an eviction removes two. -/
def fortyEntries : CatalogLimits := { maxEntries := 40, maxLookups := 1 }

/-- One failed fetch gives an entry up. -/
def oneAttempt : CatalogLimits := { maxLookups := 1, maxFetchAttempts := 1 }

def sampleHash (n : UInt8) : Bytes := List.replicate nodeIdLength n

def samplePeer : Address := (['h'], 1)

def sampleMetadata (n : UInt8) : TorrentMetadata where
  ident := n.toNat
  infoHash := sampleHash n
  name := []
  totalSize := 1
  pieceLength := 1
  fileCount := 1
  files := [([], 1)]
  isPrivate := false
  fetchedAt := 0
  sourcePeer := none
  infoHash_length := List.length_replicate

/-- A hash is recorded, looked up, fetched and stored. -/
def fetchedOps : List CatalogOp :=
  [.enableIndexTracking 10 false, .recordHash (sampleHash 1) .getPeers none 0,
    .hashesNeedingPeers 1 0, .addLookupResult (sampleHash 1) [samplePeer] 0,
    .nextFetchCandidates 1, .storeMetadata (sampleMetadata 1) 0]

end DhtScraper
