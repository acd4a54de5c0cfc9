import DhtScraper.Catalog.Entry
import DhtScraper.Library.Selection

/-!
# The catalog and its `_locked` helpers

`TorrentCatalog` is the state guarded by the catalog lock.  Entries are objects: `heap` gives the
contents of every `TorrentEntry` ever created, and the indexes, queues and in-flight snapshots hold
references to them, so that an evicted entry that is still queued and a new entry of the same hash
are different objects.  The counters of the source (`_state_counts`, `_known_done`,
`_lookups_in_progress`) are kept by hand, exactly as the source keeps them.

An `assert` that fails raises `AssertionError`.  `check` records this in `raised`, which is put down
at the start of every operation; an operation whose first assertion fails leaves the rest of the
state unchanged, and the drains, whose assertion can fail in the middle of a loop, stop there.
Assertions that only read back the assignment before them are left out.
-/

namespace DhtScraper

open Library

/-- The limits of the constructor, with its assertions. -/
structure CatalogLimits where
  maxEntries : ℕ := 250000
  maxPeersPerHash : ℕ := 32
  maxFetchAttempts : ℕ := 3
  maxLookups : ℕ := 2
  lookupRetrySeconds : ℚ := 30
  maxEntries_pos : 1 ≤ maxEntries := by decide
  maxPeersPerHash_pos : 1 ≤ maxPeersPerHash := by decide
  maxFetchAttempts_pos : 1 ≤ maxFetchAttempts := by decide
  lookupRetrySeconds_nonneg : 0 ≤ lookupRetrySeconds := by decide

def evictionDivisor : ℕ := 20
def maxIndexPending : ℕ := 100000
def maxOrphanCounters : ℕ := 100000

structure TorrentCatalog where
  limits : CatalogLimits
  heap : Ref → TorrentEntry
  nextRef : Ref
  entries : OrderedMap Bytes Ref
  fetched : OrderedMap Bytes Ref
  fetchable : OrderedMap Bytes Ref
  needsLookup : OrderedMap Bytes Ref
  needsCheck : OrderedMap Bytes Ref
  stateCounts : FetchState → ℤ
  observations : ℕ
  discovered : ℕ
  evicted : ℕ
  lookupsInProgress : ℤ
  indexTracking : Bool
  indexMaxPending : ℕ
  indexDocuments : OrderedMap Bytes Ref
  indexCounters : OrderedMap Bytes Ref
  orphanCounters : List Ref
  indexDropped : ℕ
  checkDatabase : Bool
  metadataBytes : ℤ
  knownDone : ℤ
  raised : Bool

/-- Add `amount` to the counter of one state. -/
def bump (counts : FetchState → ℤ) (state : FetchState) (amount : ℤ) : FetchState → ℤ :=
  Function.update counts state (counts state + amount)

theorem bump_apply (counts : FetchState → ℤ) (state other : FetchState) (amount : ℤ) :
    bump counts state amount other = counts other + if other = state then amount else 0 := by
  by_cases h : other = state
  · simp [bump, h]
  · simp [bump, h]

namespace TorrentCatalog

/-- `TorrentCatalog.__init__`. -/
def new (limits : CatalogLimits) : TorrentCatalog where
  limits := limits
  heap := fun _ ↦ default
  nextRef := 0
  entries := .empty
  fetched := .empty
  fetchable := .empty
  needsLookup := .empty
  needsCheck := .empty
  stateCounts := fun _ ↦ 0
  observations := 0
  discovered := 0
  evicted := 0
  lookupsInProgress := 0
  indexTracking := false
  indexMaxPending := maxIndexPending
  indexDocuments := .empty
  indexCounters := .empty
  orphanCounters := []
  indexDropped := 0
  checkDatabase := false
  metadataBytes := 0
  knownDone := 0
  raised := false

def check (c : TorrentCatalog) (p : Prop) [Decidable p] : TorrentCatalog :=
  { c with raised := c.raised || !decide p }

/-- Run `body` when the assertions at the head of an operation hold. -/
def guarded (c : TorrentCatalog) (p : Prop) [Decidable p] (body : TorrentCatalog) :
    TorrentCatalog :=
  if p then body else { c with raised := true }

def modify (c : TorrentCatalog) (r : Ref) (f : TorrentEntry → TorrentEntry) : TorrentCatalog :=
  { c with heap := Function.update c.heap r (f (c.heap r)) }

/-- `_assert_invariants_locked`. -/
def assertInvariantsLocked (c : TorrentCatalog) : TorrentCatalog :=
  c.check (c.stateCounts .pending + c.stateCounts .inProgress + c.stateCounts .done
        + c.stateCounts .failed = c.entries.size
    ∧ (c.fetched.size : ℤ) ≤ c.stateCounts .done
    ∧ 0 ≤ c.lookupsInProgress ∧ c.needsLookup.size + c.fetchable.size ≤ c.entries.size)

/-- `_set_state_locked`. -/
def setStateLocked (c : TorrentCatalog) (r : Ref) (state : FetchState) : TorrentCatalog :=
  let counts := bump (bump c.stateCounts (c.heap r).fetchState (-1)) state 1
  { c with
    heap := Function.update c.heap r { c.heap r with fetchState := state }
    stateCounts := counts }.check (1 ≤ counts state)

/-- `_index_entry_locked`: put the entry where its state, check, peers and lookups say it belongs. -/
def indexEntryLocked (c : TorrentCatalog) (r : Ref) : TorrentCatalog :=
  let entry := c.heap r
  let key := entry.infoHash
  let pending : Prop := entry.fetchState = .pending
  let ready : Prop := pending ∧ entry.databaseChecked
  let fetchable :=
    if ready ∧ entry.hasPeers then c.fetchable.insert key r else c.fetchable.erase key
  { c with
    needsCheck :=
      if pending ∧ ¬ entry.databaseChecked then c.needsCheck.setDefault key r
      else c.needsCheck.erase key
    fetchable := fetchable
    needsLookup :=
      if ready ∧ ¬ entry.hasPeers ∧ ¬ entry.lookupInProgress
          ∧ entry.lookupsStarted < c.limits.maxLookups then c.needsLookup.setDefault key r
      else c.needsLookup.erase key }.check
    (fetchable.contains key ↔ ready ∧ entry.hasPeers)

/-- `_get_or_create_locked`. -/
def getOrCreateLocked (c : TorrentCatalog) (infoHash : Bytes) (now : ℚ) :
    TorrentCatalog × Ref × Bool :=
  match c.entries.get? infoHash with
  | some r => (c.check ((c.heap r).infoHash = infoHash), r, false)
  | none =>
    ({ c with
        heap := Function.update c.heap c.nextRef (.new infoHash now (!c.checkDatabase))
        nextRef := c.nextRef + 1
        entries := c.entries.insert infoHash c.nextRef
        stateCounts := bump c.stateCounts .pending 1
        discovered := c.discovered + 1 }.check (infoHash.length = nodeIdLength ∧ 0 ≤ now),
      c.nextRef, true)

/-- `_add_peer_locked`. -/
def addPeerLocked (c : TorrentCatalog) (r : Ref) (peer : Address) : TorrentCatalog × Bool :=
  let entry := c.heap r
  let result := entry.addPeer peer c.limits.maxPeersPerHash
  ((c.modify r fun _ ↦ result.1).check
    (peer ∈ entry.failedPeers.getD ∅ ∨
      rememberAsserts (entry.peers.getD .empty) peer () c.limits.maxPeersPerHash), result.2)

/-- The loops that call `_add_peer_locked` for each peer; the number of new peers is returned. -/
def addPeersLocked (c : TorrentCatalog) (r : Ref) : List Address → TorrentCatalog × ℕ
  | [] => (c, 0)
  | peer :: peers =>
    let added := c.addPeerLocked r peer
    let rest := added.1.addPeersLocked r peers
    (rest.1, rest.2 + if added.2 then 1 else 0)

/-- `_forget_peer_locked`. -/
def forgetPeerLocked (c : TorrentCatalog) (r : Ref) (peer : Address) : TorrentCatalog :=
  let entry := (c.heap r).forgetPeer peer
  (c.modify r fun _ ↦ entry).check
    (peer ∈ entry.failedPeers.getD ∅ ∧ ¬ (entry.peers.getD .empty).contains peer)

/-- `_forget_known_locked`. -/
def forgetKnownLocked (c : TorrentCatalog) (r : Ref) : TorrentCatalog :=
  let known := if (c.heap r).knownFromDatabase then c.knownDone - 1 else c.knownDone
  { c with
    heap := Function.update c.heap r { c.heap r with knownFromDatabase := false }
    knownDone := known }.check (0 ≤ known)

/-- `_release_metadata_locked`. -/
def releaseMetadataLocked (c : TorrentCatalog) (r : Ref) : TorrentCatalog :=
  let entry := c.heap r
  { c with
    heap := Function.update c.heap r
      { entry with metadata := none, inDatabase := true, peers := none, failedPeers := none }
    fetched := c.fetched.erase entry.infoHash }.check (entry.fetchState = FetchState.done)

/-- `_drop_unwritten_metadata_locked`: the torrent of a dropped document has to be fetched again. -/
def dropUnwrittenMetadataLocked (c : TorrentCatalog) (r : Ref) : TorrentCatalog :=
  let entry := c.heap r
  match entry.metadata with
  | some metadata =>
    if c.entries.get? entry.infoHash = some r ∧ entry.fetchState = FetchState.done then
      (({ c with
          metadataBytes := c.metadataBytes - metadata.totalSize
          heap := Function.update c.heap r { entry with metadata := none, databaseChecked := true }
          fetched := c.fetched.erase entry.infoHash }).setStateLocked r .pending).indexEntryLocked r
    else c
  | none => c.check (¬ c.fetched.contains entry.infoHash)

/-- The overflow branch of `_queue_document_locked`. -/
def dropOldestDocument (c : TorrentCatalog) : TorrentCatalog :=
  match c.indexDocuments.popFirst with
  | some ((_, dropped), rest) =>
    ({ c with indexDocuments := rest, indexDropped := c.indexDropped + 1 }
      ).dropUnwrittenMetadataLocked dropped
  | none => c

/-- `_queue_document_locked`: a hash that already has a document waiting is not queued again; above
the bound the oldest document is dropped. -/
def queueDocumentLocked (c : TorrentCatalog) (r : Ref) : TorrentCatalog :=
  let key := (c.heap r).infoHash
  let c := { c.check (c.heap r).metadata.isSome with indexCounters := c.indexCounters.erase key }
  if c.indexDocuments.contains key then c
  else
    let c := { c with indexDocuments := c.indexDocuments.insert key r }
    if c.indexMaxPending < c.indexDocuments.size then c.dropOldestDocument else c

/-- `_add_orphan_locked`. -/
def addOrphanLocked (c : TorrentCatalog) (r : Ref) : TorrentCatalog :=
  let orphans := c.orphanCounters ++ [r]
  let full : Prop := maxOrphanCounters < orphans.length
  let kept := if full then orphans.tail else orphans
  { c with
    orphanCounters := kept
    indexDropped := c.indexDropped + if full then 1 else 0 }.check
    (kept.length ≤ maxOrphanCounters)

/-! ## Eviction -/

def evictionCount (c : TorrentCatalog) : ℕ := max 1 (c.limits.maxEntries / evictionDivisor)

/-- The insertion-order scan of `_evict_locked`: entries seen once, without metadata and peers. -/
def scannedVictims (c : TorrentCatalog) : List Ref :=
  (c.entries.values.filter fun r ↦
    (c.heap r).metadata.isNone ∧ (c.heap r).seenCount ≤ 1 ∧ ¬ (c.heap r).hasPeers
      ∧ (c.heap r).isEvictable).take c.evictionCount

/-- The victims of `_evict_locked`: when the scan finds too few, the rest come from the ranking. -/
def evictionVictims (c : TorrentCatalog) : List Ref :=
  let victims := c.scannedVictims
  if victims.length < c.evictionCount then
    let taken := victims.map fun r ↦ (c.heap r).infoHash
    let remaining := c.entries.values.filter fun r ↦
      (c.heap r).infoHash ∉ taken ∧ (c.heap r).isEvictable
    victims ++ takeFirst (fun r r' ↦ (c.heap r).evictionKey ≤ (c.heap r').evictionKey)
      (c.evictionCount - victims.length) remaining
  else victims

/-- The body of the last loop of `_evict_locked`. -/
def evictOneLocked (c : TorrentCatalog) (r : Ref) : TorrentCatalog :=
  let entry := c.heap r
  let key := entry.infoHash
  let c := { c with
    entries := c.entries.erase key
    fetched := c.fetched.erase key
    fetchable := c.fetchable.erase key
    needsLookup := c.needsLookup.erase key
    needsCheck := c.needsCheck.erase key
    indexCounters := c.indexCounters.erase key }
  let c := if entry.indexBase.isSome ∧ entry.hasUnflushed then c.addOrphanLocked r else c
  let c := { c with
    metadataBytes :=
      if entry.fetchState = FetchState.done then
        c.metadataBytes - (entry.metadata.map TorrentMetadata.totalSize).getD 0
      else c.metadataBytes }
  let c := c.forgetKnownLocked r
  { c with stateCounts := bump c.stateCounts entry.fetchState (-1) }

/-- `_evict_locked`, returning the number of evicted entries. -/
def evictLocked (c : TorrentCatalog) : TorrentCatalog × ℕ :=
  let victims := c.evictionVictims
  let c' := victims.foldl evictOneLocked c
  ({ c' with evicted := c'.evicted + victims.length }.check (victims.length ≤ c.evictionCount),
    victims.length)

/-! ## Recording a sighting -/

/-- The counters of `_record_locked`. -/
def countSighting (source : Source) (moment : ℚ) (entry : TorrentEntry) : TorrentEntry :=
  { entry with
    seenCount := entry.seenCount + 1
    lastSeen := max entry.lastSeen moment
    announceCount := entry.announceCount + if source = .announcePeer then 1 else 0 }

/-- The part of `_record_locked` that may add the announcing peer. -/
def addSightedPeer (c : TorrentCatalog) (r : Ref) : Option Address → TorrentCatalog
  | some peer => if (c.heap r).fetchState ≠ .done then (c.addPeerLocked r peer).1 else c
  | none => c

/-- `_record_locked` before the eviction. -/
def sightLocked (c : TorrentCatalog) (infoHash : Bytes) (source : Source) (peer : Option Address)
    (moment : ℚ) : TorrentCatalog × Ref × Bool :=
  let found := c.getOrCreateLocked infoHash moment
  let r := found.2.1
  let c := (found.1.modify r (countSighting source moment)).addSightedPeer r peer
  let c := { c with needsLookup := c.needsLookup.erase infoHash }.indexEntryLocked r
  let queued : Prop := c.indexTracking ∧ ((c.heap r).metadata.isSome ∨ (c.heap r).inDatabase)
  ({ c with
      indexCounters := if queued then c.indexCounters.setDefault infoHash r else c.indexCounters
      observations := c.observations + 1 }, r, found.2.2)

/-- `_record_locked`. -/
def recordLocked (c : TorrentCatalog) (infoHash : Bytes) (source : Source) (peer : Option Address)
    (moment : ℚ) : TorrentCatalog × Bool :=
  let sighted := c.sightLocked infoHash source peer moment
  let c := sighted.1
  let c := if c.limits.maxEntries < c.entries.size then c.evictLocked.1 else c
  (c.check (1 ≤ (c.heap sighted.2.1).seenCount), sighted.2.2)

end TorrentCatalog

end DhtScraper
