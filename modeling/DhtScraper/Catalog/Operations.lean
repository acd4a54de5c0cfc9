import DhtScraper.Catalog.Locked

/-!
# The public operations of the catalog

Each operation of `TorrentCatalog` is one function of the state: the source takes the lock once per
call, so an operation is atomic.  Arguments `now` stand for the moment the operation works with (the
argument of the call, or the wall clock when it is absent).
-/

namespace DhtScraper

open Library

namespace TorrentCatalog

/-! ## Crawler thread -/

/-- `record_hash`: whether the entry was created is returned. -/
def recordHash (c : TorrentCatalog) (infoHash : Bytes) (source : Source) (peer : Option Address)
    (now : ℚ) : TorrentCatalog × Bool :=
  let recorded := c.recordLocked infoHash source peer now
  (c.guarded (infoHash.length = nodeIdLength ∧ 0 ≤ now) recorded.1.assertInvariantsLocked,
    recorded.2)

/-- The loop of `record_hashes`, with the number of created entries. -/
def recordEachLocked (c : TorrentCatalog) (source : Source) (now : ℚ) :
    List Bytes → TorrentCatalog × ℕ
  | [] => (c, 0)
  | infoHash :: rest =>
    let first := c.recordLocked infoHash source none now
    let others := first.1.recordEachLocked source now rest
    (others.1, others.2 + if first.2 then 1 else 0)

def recordHashes (c : TorrentCatalog) (infoHashes : List Bytes) (source : Source) (now : ℚ) :
    TorrentCatalog × ℕ :=
  let recorded := c.recordEachLocked source now infoHashes
  (c.guarded ((∀ infoHash ∈ infoHashes, infoHash.length = nodeIdLength) ∧ 0 ≤ now)
    (recorded.1.assertInvariantsLocked.check (recorded.2 ≤ infoHashes.length)), recorded.2)

/-- `add_peers`: the number of new peers is returned. -/
def addPeers (c : TorrentCatalog) (infoHash : Bytes) (peers : List Address) :
    TorrentCatalog × ℕ :=
  match c.entries.get? infoHash with
  | some r =>
    let added := c.addPeersLocked r peers
    (c.guarded (infoHash.length = nodeIdLength)
      ((added.1.indexEntryLocked r).check (added.2 ≤ peers.length)), added.2)
  | none => (c.guarded (infoHash.length = nodeIdLength) c, 0)

/-- The entries chosen by `hashes_needing_peers`: newest first, due at `now`. -/
def lookupCandidates (c : TorrentCatalog) (limit : ℕ) (now : ℚ) : List Ref :=
  (c.needsLookup.values.reverse.filter fun r ↦ (c.heap r).nextLookupTime ≤ now).take limit

def claimLookup (c : TorrentCatalog) (r : Ref) : TorrentCatalog :=
  { c.modify r fun entry ↦ { entry with lookupInProgress := true } with
    lookupsInProgress := c.lookupsInProgress + 1 }.indexEntryLocked r

/-- `hashes_needing_peers`: the claimed hashes are returned. -/
def hashesNeedingPeers (c : TorrentCatalog) (limit : ℕ) (now : ℚ) : TorrentCatalog × List Bytes :=
  let chosen := c.lookupCandidates limit now
  if 0 ≤ now then (chosen.foldl claimLookup c, chosen.map fun r ↦ (c.heap r).infoHash)
  else ({ c with raised := true }, [])

/-- Give the lookup claim of an entry back. -/
def endLookupLocked (c : TorrentCatalog) (r : Ref) : TorrentCatalog :=
  { c with
    heap := Function.update c.heap r { c.heap r with lookupInProgress := false }
    lookupsInProgress :=
      if (c.heap r).lookupInProgress then c.lookupsInProgress - 1 else c.lookupsInProgress }

def releaseLookupClaim (c : TorrentCatalog) (infoHash : Bytes) : TorrentCatalog :=
  c.guarded (infoHash.length = nodeIdLength)
    ((match c.entries.get? infoHash with
    | some r =>
      if (c.heap r).lookupInProgress then (c.endLookupLocked r).indexEntryLocked r else c
    | none => c).check (0 ≤ c.lookupsInProgress))

/-- The branch of `add_lookup_result` for an entry that still has no peer. -/
def noPeersFoundLocked (c : TorrentCatalog) (r : Ref) (now : ℚ) : TorrentCatalog :=
  let entry := c.heap r
  let c := c.modify r fun entry ↦
    { entry with nextLookupTime := now + c.limits.lookupRetrySeconds * entry.lookupsStarted }
  if c.limits.maxLookups ≤ entry.lookupsStarted ∧ entry.fetchState = FetchState.pending then
    (c.modify r fun entry ↦ { entry with lastError := "no_peers" }).setStateLocked r .failed
  else c

/-- `add_lookup_result` for an entry of the catalog. -/
def lookupResultLocked (c : TorrentCatalog) (r : Ref) (peers : List Address) (now : ℚ) :
    TorrentCatalog :=
  let c := (c.endLookupLocked r).modify r fun entry ↦
    { entry with lookupsStarted := entry.lookupsStarted + 1 }
  let c := (c.addPeersLocked r peers).1
  let c := if (c.heap r).hasPeers then c else c.noPeersFoundLocked r now
  c.indexEntryLocked r

def addLookupResult (c : TorrentCatalog) (infoHash : Bytes) (peers : List Address) (now : ℚ) :
    TorrentCatalog :=
  c.guarded (infoHash.length = nodeIdLength ∧ 0 ≤ now)
    ((match c.entries.get? infoHash with
    | some r => c.lookupResultLocked r peers now
    | none => c).assertInvariantsLocked)

def fetchableCount (c : TorrentCatalog) : ℕ := c.fetchable.size

/-! ## Fetch thread -/

/-- `heapq.nlargest` of the fetchable entries by rank. -/
def fetchCandidates (c : TorrentCatalog) (limit : ℕ) : List Ref :=
  takeFirst (fun r r' ↦ (c.heap r').rankAttributes ≤ (c.heap r).rankAttributes) limit
    c.fetchable.values

def claimFetch (c : TorrentCatalog) (r : Ref) : TorrentCatalog :=
  (c.setStateLocked r .inProgress).indexEntryLocked r

/-- `next_fetch_candidates`: the claimed hashes are returned with their peers. -/
def nextFetchCandidates (c : TorrentCatalog) (limit : ℕ) :
    TorrentCatalog × List (Bytes × List Address) :=
  let chosen := c.fetchCandidates limit
  let result := chosen.map fun r ↦ ((c.heap r).infoHash, (c.heap r).peerList)
  ((chosen.foldl claimFetch c).assertInvariantsLocked.check
    (result.length ≤ limit ∧ ∀ candidate ∈ result, candidate.2 ≠ []), result)

/-- The middle of `store_metadata`, on an existing entry. -/
def storeLocked (c : TorrentCatalog) (r : Ref) (metadata : TorrentMetadata) : TorrentCatalog :=
  let entry := c.heap r
  let c := { c with
    metadataBytes :=
      if entry.fetchState ≠ FetchState.done ∨ entry.knownFromDatabase then
        c.metadataBytes + metadata.totalSize
      else c.metadataBytes }
  let c := (c.forgetKnownLocked r).modify r fun entry ↦
    { entry with metadata := some metadata, lastError := "" }
  let c := c.setStateLocked r .done
  { c with fetched := c.fetched.insert entry.infoHash r }.indexEntryLocked r

def storeMetadata (c : TorrentCatalog) (metadata : TorrentMetadata) (now : ℚ) :
    TorrentCatalog × Bool :=
  let found := c.getOrCreateLocked metadata.infoHash now
  let r := found.2.1
  let stored := found.1.storeLocked r metadata
  let c' := if stored.indexTracking then stored.queueDocumentLocked r else stored
  (c.guarded (0 ≤ now) c'.assertInvariantsLocked, found.2.2)

/-- The state an entry gets when a fetch failed. -/
def stateAfterFailure (limits : CatalogLimits) (entry : TorrentEntry) : FetchState :=
  if limits.maxFetchAttempts ≤ entry.fetchAttempts then .failed
  else if ¬ entry.hasPeers ∧ limits.maxLookups ≤ entry.lookupsStarted ∧ ¬ entry.lookupInProgress
    then .failed
  else .pending

/-- `mark_fetch_failed` for an entry of the catalog. -/
def fetchFailedLocked (c : TorrentCatalog) (r : Ref) (triedPeers : List Address) (reason : String)
    (now : ℚ) : TorrentCatalog :=
  let c := triedPeers.foldl (fun c peer ↦ c.forgetPeerLocked r peer) c
  let c := c.modify r fun entry ↦
    { entry with fetchAttempts := entry.fetchAttempts + 1, lastError := reason }
  let entry := c.heap r
  let state := stateAfterFailure c.limits entry
  let c := c.modify r fun entry ↦ { entry with
    lastError :=
      if c.limits.maxFetchAttempts ≤ entry.fetchAttempts then entry.lastError
      else if state = .failed then "no_peers" else entry.lastError
    nextLookupTime :=
      if state = .pending ∧ ¬ entry.hasPeers then now else entry.nextLookupTime }
  (c.setStateLocked r state).indexEntryLocked r

def markFetchFailed (c : TorrentCatalog) (infoHash : Bytes) (triedPeers : List Address)
    (reason : String) (now : ℚ) : TorrentCatalog × FetchState :=
  match c.entries.get? infoHash with
  | some r =>
    let failed := c.fetchFailedLocked r triedPeers reason now
    (c.guarded (infoHash.length = nodeIdLength ∧ 0 ≤ now) failed.assertInvariantsLocked,
      (failed.heap r).fetchState)
  | none => (c.guarded (infoHash.length = nodeIdLength ∧ 0 ≤ now) c, .failed)

def releaseFetchClaim (c : TorrentCatalog) (infoHash : Bytes) : TorrentCatalog :=
  c.guarded (infoHash.length = nodeIdLength)
    ((match c.entries.get? infoHash with
    | some r =>
      if (c.heap r).fetchState = FetchState.inProgress then
        (c.setStateLocked r .pending).indexEntryLocked r
      else c
    | none => c).assertInvariantsLocked)

/-! ## Index thread -/

def enableIndexTracking (c : TorrentCatalog) (maxPending : ℕ) (checkDatabase : Bool) :
    TorrentCatalog :=
  c.guarded (1 ≤ maxPending)
    { c with
      indexTracking := true, indexMaxPending := maxPending, checkDatabase := checkDatabase }

/-- The loop of `drain_index_documents`.  When the assertion of `index_snapshot` fails the exception
leaves the loop after the document was popped. -/
def drainDocumentsLocked (c : TorrentCatalog) : ℕ → TorrentCatalog × List IndexSnapshot
  | 0 => (c, [])
  | limit + 1 =>
    match c.indexDocuments.popFirst with
    | none => (c, [])
    | some ((_, r), rest) =>
      let c := { c with indexDocuments := rest }
      if indexSnapshotAsserts (c.heap r) then
        let others := c.drainDocumentsLocked limit
        (others.1, indexSnapshot r (c.heap r) :: others.2)
      else ({ c with raised := true }, [])

/-- `drain_index_documents`; no batch is returned when an exception left the loop. -/
def drainIndexDocuments (c : TorrentCatalog) (limit : ℕ) : TorrentCatalog × List IndexSnapshot :=
  let drained := c.drainDocumentsLocked limit
  (drained.1, if drained.1.raised then [] else drained.2)

/-- The first loop of `drain_index_counters`: entries evicted with unflushed counters. -/
def drainOrphansLocked (c : TorrentCatalog) (limit : ℕ) :
    List Ref → TorrentCatalog × List IndexSnapshot
  | [] => ({ c with orphanCounters := [] }, [])
  | r :: orphans =>
    if limit = 0 then ({ c with orphanCounters := r :: orphans }, [])
    else
      let entry := c.heap r
      if indexSnapshotAsserts entry then
        let snapshot := indexSnapshot r entry
        if snapshot.seenDelta ≠ 0 ∨ snapshot.announceDelta ≠ 0 then
          let others := c.drainOrphansLocked (limit - 1) orphans
          (others.1, snapshot :: others.2)
        else c.drainOrphansLocked limit orphans
      else ({ c with orphanCounters := orphans, raised := true }, [])

/-- The second loop of `drain_index_counters`.  An entry without a base is not in the database yet:
its document is queued instead.  `fuel` bounds the number of popped keys; the loop is started with
the size of the queue, which every iteration shortens. -/
def drainCountersLocked (c : TorrentCatalog) (limit : ℕ) :
    ℕ → TorrentCatalog × List IndexSnapshot
  | 0 => (c, [])
  | fuel + 1 =>
    if limit = 0 then (c, [])
    else
      match c.indexCounters.popFirst with
      | none => (c, [])
      | some ((_, r), rest) =>
        let c := { c with indexCounters := rest }
        let entry := c.heap r
        if entry.indexBase.isNone then
          let c := if entry.metadata.isSome then c.queueDocumentLocked r else c
          c.drainCountersLocked limit fuel
        else if entry.hasUnflushed then
          if indexSnapshotAsserts entry then
            let others := c.drainCountersLocked (limit - 1) fuel
            (others.1, indexSnapshot r entry :: others.2)
          else ({ c with raised := true }, [])
        else c.drainCountersLocked limit fuel

/-- `drain_index_counters`; no batch is returned when an exception left a loop. -/
def drainIndexCounters (c : TorrentCatalog) (limit : ℕ) : TorrentCatalog × List IndexSnapshot :=
  let orphans := c.drainOrphansLocked limit c.orphanCounters
  if orphans.1.raised then (orphans.1, [])
  else
    let counters :=
      orphans.1.drainCountersLocked (limit - orphans.2.length) orphans.1.indexCounters.size
    (counters.1, if counters.1.raised then [] else orphans.2 ++ counters.2)

/-- One iteration of `requeue_index_documents`: back to the front, unless the hash is queued. -/
def requeueDocumentLocked (c : TorrentCatalog) (snapshot : IndexSnapshot) : TorrentCatalog :=
  if c.indexDocuments.contains snapshot.infoHash then c
  else { c with
    indexDocuments := c.indexDocuments.insertFirst snapshot.infoHash snapshot.entry }

def requeueIndexDocuments (c : TorrentCatalog) (snapshots : List IndexSnapshot) : TorrentCatalog :=
  let c := snapshots.reverse.foldl requeueDocumentLocked c
  c.check (∀ snapshot ∈ snapshots, c.indexDocuments.contains snapshot.infoHash)

/-- One iteration of `requeue_index_counters`: a live entry goes back to the counter queue, an
evicted one to the orphan queue. -/
def requeueCounterLocked (c : TorrentCatalog) (snapshot : IndexSnapshot) : TorrentCatalog :=
  if c.entries.get? snapshot.infoHash = some snapshot.entry then
    { c with indexCounters := c.indexCounters.setDefault snapshot.infoHash snapshot.entry }
  else c.addOrphanLocked snapshot.entry

def requeueIndexCounters (c : TorrentCatalog) (snapshots : List IndexSnapshot) : TorrentCatalog :=
  snapshots.foldl requeueCounterLocked c

/-- `entry.flushed_seen += seen_delta` and the same for announces. -/
def flushSnapshot (c : TorrentCatalog) (snapshot : IndexSnapshot) : TorrentCatalog :=
  c.modify snapshot.entry fun entry ↦ { entry with
    flushedSeen := entry.flushedSeen + snapshot.seenDelta
    flushedAnnounce := entry.flushedAnnounce + snapshot.announceDelta }

def markCountersWritten (c : TorrentCatalog) (snapshots : List IndexSnapshot) : TorrentCatalog :=
  let c := snapshots.foldl flushSnapshot c
  c.check (∀ snapshot ∈ snapshots,
    (c.heap snapshot.entry).flushedSeen ≤ (c.heap snapshot.entry).seenCount)

def setIndexBase (c : TorrentCatalog) (infoHash : Bytes) (base : IndexBase) : TorrentCatalog :=
  c.guarded (infoHash.length = nodeIdLength)
    ((match c.entries.get? infoHash with
    | some r => c.modify r fun entry ↦ { entry with indexBase := some base }
    | none => c).check (0 ≤ base.1))

/-- The part of `mark_index_written` for an entry that is still the live one of its hash: set the
base and, when its metadata is the one that was written, release it.  A document queued meanwhile
becomes a counter update. -/
def writtenLocked (c : TorrentCatalog) (r : Ref) (snapshot : IndexSnapshot) (base : IndexBase) :
    TorrentCatalog :=
  let c := c.modify r fun entry ↦ { entry with indexBase := some base }
  let key := (c.heap r).infoHash
  if (c.heap r).metadata.map TorrentMetadata.ident = snapshot.metadata.map TorrentMetadata.ident
  then
    { c with
      indexDocuments := c.indexDocuments.erase key
      indexCounters :=
        if c.indexDocuments.contains key then c.indexCounters.setDefault key r
        else c.indexCounters }.releaseMetadataLocked r
  else c

def markIndexWritten (c : TorrentCatalog) (snapshot : IndexSnapshot) (base : IndexBase) :
    TorrentCatalog :=
  let flushed := c.flushSnapshot snapshot
  let c' := if c.entries.get? snapshot.infoHash = some snapshot.entry
    then flushed.writtenLocked snapshot.entry snapshot base else flushed
  c.guarded snapshot.metadata.isSome (c'.assertInvariantsLocked.check (0 ≤ base.1))

/-- `entry.database_checked = True` and re-index. -/
def uncheckedLocked (c : TorrentCatalog) (r : Ref) : TorrentCatalog :=
  (c.modify r fun entry ↦ { entry with databaseChecked := true }).indexEntryLocked r

def setDatabaseCheck (c : TorrentCatalog) (enabled : Bool) : TorrentCatalog :=
  let c := { c with checkDatabase := enabled }
  let c := if enabled then c else c.needsCheck.values.foldl uncheckedLocked c
  c.assertInvariantsLocked.check (enabled ∨ c.needsCheck.size = 0)

def pendingDatabaseChecks (c : TorrentCatalog) (limit : ℕ) : List Bytes := c.needsCheck.keys.take limit

/-- The branch of `apply_database_checks` for a hash that has a row. -/
def knownLocked (c : TorrentCatalog) (infoHash : Bytes) (r : Ref) (base : IndexBase) :
    TorrentCatalog :=
  let c := { c.modify r fun entry ↦ { entry with
      indexBase := some base
      inDatabase := true
      peers := none
      failedPeers := none
      knownFromDatabase := true } with
    knownDone := c.knownDone + 1 }
  let c := c.setStateLocked r .done
  { c with
    indexCounters :=
      if c.indexTracking then c.indexCounters.setDefault infoHash r else c.indexCounters }

/-- One iteration of `apply_database_checks`. -/
def applyCheckLocked (found : List (Bytes × IndexBase)) (c : TorrentCatalog) (infoHash : Bytes) :
    TorrentCatalog :=
  let popped := { c with needsCheck := c.needsCheck.erase infoHash }
  match c.needsCheck.get? infoHash with
  | none => popped
  | some r =>
    if (c.heap r).databaseChecked then popped
    else
      let c := popped.modify r fun entry ↦ { entry with databaseChecked := true }
      let c := match found.lookup infoHash with
        | some base =>
            if (c.heap r).fetchState = FetchState.pending then c.knownLocked infoHash r base else c
        | none => c
      c.indexEntryLocked r

def applyDatabaseChecks (c : TorrentCatalog) (infoHashes : List Bytes)
    (found : List (Bytes × IndexBase)) : TorrentCatalog :=
  let c' := infoHashes.foldl (applyCheckLocked found) c
  c.guarded (∀ infoHash ∈ infoHashes, infoHash.length = nodeIdLength)
    (c'.assertInvariantsLocked.check (∀ infoHash ∈ infoHashes, ∀ r ∈ c'.entries.get? infoHash,
      (c'.heap r).databaseChecked))

/-- `reset_index_base` for an entry of the catalog, after its base and flushed counts are reset. -/
def resetLocked (c : TorrentCatalog) (r : Ref) : TorrentCatalog :=
  if (c.heap r).metadata.isSome then c.queueDocumentLocked r
  else if (c.heap r).inDatabase then
    let c := (c.modify r fun entry ↦
      { entry with inDatabase := false, databaseChecked := true }).forgetKnownLocked r
    let c := if (c.heap r).fetchState = .done then c.setStateLocked r .pending else c
    c.indexEntryLocked r
  else c

def resetIndexBase (c : TorrentCatalog) (infoHash : Bytes) : TorrentCatalog :=
  c.guarded (infoHash.length = nodeIdLength)
    ((match c.entries.get? infoHash with
    | some r =>
      ({ c.modify r fun entry ↦
          { entry with indexBase := none, flushedSeen := 0, flushedAnnounce := 0 } with
        indexCounters := c.indexCounters.erase infoHash }).resetLocked r
    | none => c).assertInvariantsLocked)

end TorrentCatalog

end DhtScraper
