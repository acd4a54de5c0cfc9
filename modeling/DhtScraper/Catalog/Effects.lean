import DhtScraper.Catalog.Representation

/-!
# Effects of the helpers on one entry

Each helper that works on a live entry is an edit of that entry, and most of them leave the record of
sightings, the knowledge about the database and all index queues alone.  `Reworked` collects the
three facts; it composes, so an operation of the lookup and fetch machinery is reworked by
composing its helpers and closed by `_index_entry_locked`.
-/

namespace DhtScraper

open Library

namespace TorrentEntry

/-- The two entries agree on what was sighted, on the metadata and on everything that concerns the
database. -/
structure SameRecord (entry entry' : TorrentEntry) : Prop where
  infoHash : entry'.infoHash = entry.infoHash := by rfl
  firstSeen : entry'.firstSeen = entry.firstSeen := by rfl
  lastSeen : entry'.lastSeen = entry.lastSeen := by rfl
  seenCount : entry'.seenCount = entry.seenCount := by rfl
  announceCount : entry'.announceCount = entry.announceCount := by rfl
  metadata : entry'.metadata = entry.metadata := by rfl
  indexBase : entry'.indexBase = entry.indexBase := by rfl
  inDatabase : entry'.inDatabase = entry.inDatabase := by rfl
  databaseChecked : entry'.databaseChecked = entry.databaseChecked := by rfl
  knownFromDatabase : entry'.knownFromDatabase = entry.knownFromDatabase := by rfl
  flushedSeen : entry'.flushedSeen = entry.flushedSeen := by rfl
  flushedAnnounce : entry'.flushedAnnounce = entry.flushedAnnounce := by rfl

/-- The lookup and fetch state of an entry is not part of its record. -/
theorem SameRecord.of_eq {e : TorrentEntry}
    {peers : Option (OrderedMap Address Unit)} {failedPeers : Option (Finset Address)}
    {fetchState : FetchState} {fetchAttempts lookupsStarted : ℕ} {lastError : String}
    {lookupInProgress : Bool} {nextLookupTime : ℚ} :
    e.SameRecord { e with
      peers := peers, failedPeers := failedPeers, fetchState := fetchState
      fetchAttempts := fetchAttempts, lastError := lastError, lookupsStarted := lookupsStarted
      lookupInProgress := lookupInProgress, nextLookupTime := nextLookupTime } := by
  constructor <;> rfl

theorem SameRecord.trans {e e' e'' : TorrentEntry} (h : e.SameRecord e') (h' : e'.SameRecord e'') :
    e.SameRecord e'' where
  infoHash := h'.infoHash.trans h.infoHash
  firstSeen := h'.firstSeen.trans h.firstSeen
  lastSeen := h'.lastSeen.trans h.lastSeen
  seenCount := h'.seenCount.trans h.seenCount
  announceCount := h'.announceCount.trans h.announceCount
  metadata := h'.metadata.trans h.metadata
  indexBase := h'.indexBase.trans h.indexBase
  inDatabase := h'.inDatabase.trans h.inDatabase
  databaseChecked := h'.databaseChecked.trans h.databaseChecked
  knownFromDatabase := h'.knownFromDatabase.trans h.knownFromDatabase
  flushedSeen := h'.flushedSeen.trans h.flushedSeen
  flushedAnnounce := h'.flushedAnnounce.trans h.flushedAnnounce

end TorrentEntry

theorem hasPeers_of_contains {entry : TorrentEntry} {peers : OrderedMap Address Unit}
    {peer : Address} (hentry : entry.peers = some peers) (hpeer : peers.get? peer = some ()) :
    entry.hasPeers := by
  have hmem := OrderedMap.get?_eq_some_iff.mp hpeer
  have hne : peers.items ≠ [] := List.ne_nil_of_mem hmem
  simpa [TorrentEntry.hasPeers, hentry, OrderedMap.size] using hne

namespace TorrentCatalog

/-- The index queues and the settings of index tracking are the same. -/
structure QueuesKept (c c' : TorrentCatalog) : Prop where
  indexTracking : c'.indexTracking = c.indexTracking := by rfl
  indexMaxPending : c'.indexMaxPending = c.indexMaxPending := by rfl
  checkDatabase : c'.checkDatabase = c.checkDatabase := by rfl
  indexDocuments : c'.indexDocuments = c.indexDocuments := by rfl
  indexCounters : c'.indexCounters = c.indexCounters := by rfl
  orphanCounters : c'.orphanCounters = c.orphanCounters := by rfl
  indexDropped : c'.indexDropped = c.indexDropped := by rfl

/-- The index queues do not see the other fields. -/
theorem QueuesKept.of_eq {c : TorrentCatalog}
    {limits : CatalogLimits} {heap : Ref → TorrentEntry} {nextRef : Ref}
    {entries fetched fetchable needsLookup needsCheck : OrderedMap Bytes Ref}
    {stateCounts : FetchState → ℤ} {observations discovered evicted : ℕ}
    {lookupsInProgress metadataBytes knownDone : ℤ} {raised : Bool} :
    c.QueuesKept { c with
      limits := limits, heap := heap, nextRef := nextRef, entries := entries, fetched := fetched
      fetchable := fetchable, needsLookup := needsLookup, needsCheck := needsCheck
      stateCounts := stateCounts, observations := observations, discovered := discovered
      evicted := evicted, lookupsInProgress := lookupsInProgress, metadataBytes := metadataBytes
      knownDone := knownDone, raised := raised } := by
  constructor <;> rfl

theorem QueuesKept.trans {c c' c'' : TorrentCatalog} (h : c.QueuesKept c') (h' : c'.QueuesKept c'') :
    c.QueuesKept c'' where
  indexTracking := h'.indexTracking.trans h.indexTracking
  indexMaxPending := h'.indexMaxPending.trans h.indexMaxPending
  checkDatabase := h'.checkDatabase.trans h.checkDatabase
  indexDocuments := h'.indexDocuments.trans h.indexDocuments
  indexCounters := h'.indexCounters.trans h.indexCounters
  orphanCounters := h'.orphanCounters.trans h.orphanCounters
  indexDropped := h'.indexDropped.trans h.indexDropped

section Helpers

variable {c c' c'' : TorrentCatalog} {h : Bytes} {r : Ref} {entry entry' : TorrentEntry}

theorem Edited.check (he : c.Edited c' h r entry) (p : Prop) [Decidable p] :
    c.Edited (c'.check p) h r entry := { he with }

theorem edited_modify (hkey : (c.heap r).infoHash = h) (f : TorrentEntry → TorrentEntry)
    (infoHash : (f (c.heap r)).infoHash = (c.heap r).infoHash)
    (fetchState : (f (c.heap r)).fetchState = (c.heap r).fetchState)
    (knownFromDatabase :
      (f (c.heap r)).knownFromDatabase = (c.heap r).knownFromDatabase)
    (lookupInProgress : (f (c.heap r)).lookupInProgress = (c.heap r).lookupInProgress)
    (metadata : (f (c.heap r)).metadata.isSome = (c.heap r).metadata.isSome) :
    c.Edited (c.modify r f) h r (f (c.heap r)) where
  heap := rfl
  infoHash := infoHash.trans hkey
  stateCounts := fun s ↦ by
    rw [fetchState]
    exact (sub_add_cancel _ _).symm
  knownDone := by
    rw [knownFromDatabase]
    exact (sub_add_cancel _ _).symm
  lookupsInProgress := by
    rw [lookupInProgress]
    exact (sub_add_cancel _ _).symm
  fetched_self := Or.inl ⟨rfl, metadata⟩

theorem edited_setStateLocked (hkey : (c.heap r).infoHash = h) (state : FetchState) :
    c.Edited (c.setStateLocked r state) h r { c.heap r with fetchState := state } where
  heap := rfl
  infoHash := hkey
  stateCounts := fun s ↦ by
    simp only [setStateLocked, TorrentCatalog.check, bump_apply, indicator, decide_eq_true_eq,
      eq_comm (b := s)]
    split <;> split <;> omega
  knownDone := (sub_add_cancel _ _).symm
  lookupsInProgress := (sub_add_cancel _ _).symm
  fetched_self := Or.inl ⟨rfl, rfl⟩

theorem edited_forgetKnownLocked (hkey : (c.heap r).infoHash = h) :
    c.Edited (c.forgetKnownLocked r) h r { c.heap r with knownFromDatabase := false } where
  heap := rfl
  infoHash := hkey
  stateCounts := fun s ↦ (sub_add_cancel _ _).symm
  knownDone := by
    simp only [forgetKnownLocked, TorrentCatalog.check, indicator]
    split <;> simp
  lookupsInProgress := (sub_add_cancel _ _).symm
  fetched_self := Or.inl ⟨rfl, rfl⟩

theorem edited_endLookupLocked (hkey : (c.heap r).infoHash = h) :
    c.Edited (c.endLookupLocked r) h r { c.heap r with lookupInProgress := false } where
  heap := rfl
  infoHash := hkey
  stateCounts := fun s ↦ (sub_add_cancel _ _).symm
  knownDone := (sub_add_cancel _ _).symm
  lookupsInProgress := by
    simp only [endLookupLocked, indicator]
    split <;> simp
  fetched_self := Or.inl ⟨rfl, rfl⟩

theorem edited_indexEntryLocked (hkey : (c.heap r).infoHash = h)
    (hcheck : ∀ r', c.needsCheck.get? h = some r' → r' = r)
    (hlookup : ∀ r', c.needsLookup.get? h = some r' → r' = r) :
    c.Edited (c.indexEntryLocked r) h r (c.heap r) where
  heap := (Function.update_eq_self r c.heap).symm
  infoHash := hkey
  stateCounts := fun s ↦ (sub_add_cancel _ _).symm
  knownDone := (sub_add_cancel _ _).symm
  lookupsInProgress := (sub_add_cancel _ _).symm
  fetched_self := Or.inl ⟨rfl, rfl⟩
  needsCheck := fun k ↦ by
    simp only [indexEntryLocked, TorrentCatalog.check, hkey]
    by_cases hk : k = h
    · right
      refine ⟨hk, ?_⟩
      split
      · right
        cases hget : c.needsCheck.get? h <;> simp [hk, hget]
        exact hcheck _ hget
      · left
        simp [hk]
    · left
      split <;> simp [hk]
  fetchable := fun k ↦ by
    simp only [indexEntryLocked, TorrentCatalog.check, hkey]
    by_cases hk : k = h
    · right
      refine ⟨hk, ?_⟩
      split
      · right
        simp [hk]
      · left
        simp [hk]
    · left
      split <;> simp [hk]
  needsLookup := fun k ↦ by
    simp only [indexEntryLocked, TorrentCatalog.check, hkey]
    by_cases hk : k = h
    · right
      refine ⟨hk, ?_⟩
      split
      · right
        cases hget : c.needsLookup.get? h <;> simp [hk, hget]
        exact hlookup _ hget
      · left
        simp [hk]
    · left
      split <;> simp [hk]

/-! ## Reworking an entry -/

/-- The live entry `r` of `h` is replaced by `entry`, which has the same record, no index queue
changes, and the entry is done exactly when it was. -/
structure Reworked (c c' : TorrentCatalog) (h : Bytes) (r : Ref) (entry : TorrentEntry) :
    Prop where
  edited : c.Edited c' h r entry
  record : (c.heap r).SameRecord entry
  queues : c.QueuesKept c'
  done : entry.fetchState = .done ↔ (c.heap r).fetchState = .done

theorem Reworked.refl (hkey : (c.heap r).infoHash = h) : c.Reworked c h r (c.heap r) where
  edited := Edited.refl hkey
  record := .of_eq
  queues := .of_eq
  done := Iff.rfl

theorem Reworked.trans (hw : c.Reworked c' h r entry) (hw' : c'.Reworked c'' h r entry') :
    c.Reworked c'' h r entry' := by
  have hentry := hw.edited.entry_eq
  have hrecord := hw'.record
  have hdone := hw'.done
  rw [hentry] at hrecord hdone
  exact
    { edited := hw.edited.trans hw'.edited
      record := hw.record.trans hrecord
      queues := hw.queues.trans hw'.queues
      done := hdone.trans hw.done }

theorem Reworked.check (hw : c.Reworked c' h r entry) (p : Prop) [Decidable p] :
    c.Reworked (c'.check p) h r entry where
  edited := hw.edited.check p
  record := hw.record
  queues := hw.queues.trans .of_eq
  done := hw.done

theorem Reworked.key (hw : c.Reworked c' h r entry) : (c'.heap r).infoHash = h := by
  rw [hw.edited.entry_eq]
  exact hw.edited.infoHash

theorem reworked_modify (hkey : (c.heap r).infoHash = h) (f : TorrentEntry → TorrentEntry)
    (hrecord : (c.heap r).SameRecord (f (c.heap r)))
    (fetchState : (f (c.heap r)).fetchState = (c.heap r).fetchState)
    (lookupInProgress : (f (c.heap r)).lookupInProgress = (c.heap r).lookupInProgress) :
    c.Reworked (c.modify r f) h r (f (c.heap r)) where
  edited := edited_modify hkey f hrecord.infoHash fetchState hrecord.knownFromDatabase
    lookupInProgress (by rw [hrecord.metadata])
  record := hrecord
  queues := .of_eq
  done := by rw [fetchState]

theorem reworked_setStateLocked (hkey : (c.heap r).infoHash = h) (state : FetchState)
    (hstate : state = .done ↔ (c.heap r).fetchState = .done) :
    c.Reworked (c.setStateLocked r state) h r { c.heap r with fetchState := state } where
  edited := edited_setStateLocked hkey state
  record := .of_eq
  queues := .of_eq
  done := hstate

theorem reworked_endLookupLocked (hkey : (c.heap r).infoHash = h) :
    c.Reworked (c.endLookupLocked r) h r { c.heap r with lookupInProgress := false } where
  edited := edited_endLookupLocked hkey
  record := .of_eq
  queues := .of_eq
  done := Iff.rfl

/-- Adding a peer changes the peers only, and never takes the last one away. -/
theorem addPeer_entry (entry : TorrentEntry) (peer : Address) {limit : ℕ} (hlimit : 1 ≤ limit) :
    ∃ peers, (entry.addPeer peer limit).1 = { entry with peers := peers } ∧
      (entry.hasPeers → (entry.addPeer peer limit).1.hasPeers) := by
  by_cases hfailed : peer ∈ entry.failedPeers.getD ∅
  · have hsame : entry.addPeer peer limit = (entry, false) := by
      simp [TorrentEntry.addPeer, hfailed]
    rw [hsame]
    exact ⟨entry.peers, rfl, id⟩
  · let added := (remember (entry.peers.getD .empty) peer () limit).1
    have hadded : (entry.addPeer peer limit).1 = { entry with peers := some added } := by
      simp [TorrentEntry.addPeer, hfailed, added]
    refine ⟨some added, hadded, fun _ ↦ ?_⟩
    rw [hadded]
    exact hasPeers_of_contains rfl (remember_contains _ peer () hlimit)

theorem reworked_addPeerLocked (hkey : (c.heap r).infoHash = h) (peer : Address) :
    ∃ peers, c.Reworked (c.addPeerLocked r peer).1 h r { c.heap r with peers := peers } ∧
      ((c.heap r).hasPeers →
        TorrentEntry.hasPeers { c.heap r with peers := peers }) := by
  obtain ⟨peers, hentry, hkeep⟩ :=
    addPeer_entry (c.heap r) peer c.limits.maxPeersPerHash_pos
  rw [hentry] at hkeep
  refine ⟨peers, ?_, hkeep⟩
  have hmodify := reworked_modify hkey (fun _ ↦ { c.heap r with peers := peers }) .of_eq rfl rfl
  have heq : (c.addPeerLocked r peer).1 = (c.modify r fun _ ↦ { c.heap r with peers := peers }).check
      (peer ∈ (c.heap r).failedPeers.getD ∅ ∨ rememberAsserts ((c.heap r).peers.getD .empty) peer ()
        c.limits.maxPeersPerHash) := by
    simp only [addPeerLocked, hentry]
  rw [heq]
  exact hmodify.check _

/-- Adding peers one by one changes the peers only, and never takes the last one away. -/
theorem reworked_addPeersLocked (peers : List Address) (hkey : (c.heap r).infoHash = h) :
    ∃ known, c.Reworked (c.addPeersLocked r peers).1 h r { c.heap r with peers := known } ∧
      ((c.heap r).hasPeers →
        TorrentEntry.hasPeers { c.heap r with peers := known }) := by
  induction peers generalizing c with
  | nil => exact ⟨(c.heap r).peers, Reworked.refl hkey, id⟩
  | cons peer rest ih =>
    obtain ⟨first, hfirst, hkeepFirst⟩ := reworked_addPeerLocked hkey peer
    obtain ⟨last, hlast, hkeepLast⟩ := ih hfirst.key
    rw [hfirst.edited.entry_eq] at hlast hkeepLast
    exact ⟨last, hfirst.trans hlast, fun hpeers ↦ hkeepLast (hkeepFirst hpeers)⟩

theorem reworked_forgetPeerLocked (hkey : (c.heap r).infoHash = h) (peer : Address) :
    c.Reworked (c.forgetPeerLocked r peer) h r ((c.heap r).forgetPeer peer) :=
  (reworked_modify hkey (fun _ ↦ (c.heap r).forgetPeer peer) .of_eq rfl rfl).check _

/-- Forgetting peers changes the two peer collections only. -/
theorem reworked_forgetPeers (peers : List Address) (hkey : (c.heap r).infoHash = h) :
    ∃ known failed, c.Reworked (peers.foldl (fun c peer ↦ c.forgetPeerLocked r peer) c) h r
      { c.heap r with peers := known, failedPeers := failed } := by
  induction peers generalizing c with
  | nil => exact ⟨_, _, Reworked.refl hkey⟩
  | cons peer rest ih =>
    have hfirst := reworked_forgetPeerLocked hkey peer
    obtain ⟨known, failed, hlast⟩ := ih hfirst.key
    rw [hfirst.edited.entry_eq] at hlast
    exact ⟨known, failed, hfirst.trans hlast⟩

/-- Indexing an edited entry closes its key. -/
theorem Edited.close (he : c.Edited c' h r entry) (hc : c.Represented {h})
    (hr : c.entries.get? h = some r) (hstored : entry.metadata.isSome → entry.fetchState = .done)
    (hknown : entry.knownFromDatabase → entry.fetchState = .done ∧ entry.metadata = none) :
    c.Edited (c'.indexEntryLocked r) h r entry ∧ (c'.indexEntryLocked r).Represented ∅ := by
  have hopen := he.represented_open hc (Set.Subset.refl _) hr hstored hknown
  have hlive : c'.entries.get? h = some r := by
    rw [he.entries]
    exact hr
  have hindex := edited_indexEntryLocked (by rw [he.entry_eq]; exact he.infoHash)
    (fun r' hr' ↦ Option.some.inj ((hopen.needsCheck_live h r' hr').symm.trans hlive))
    (fun r' hr' ↦ Option.some.inj ((hopen.needsLookup_live h r' hr').symm.trans hlive))
  rw [he.entry_eq] at hindex
  exact ⟨he.trans hindex, hopen.indexEntryLocked hlive⟩

/-- Indexing a reworked entry closes its key. -/
theorem Reworked.close (hw : c.Reworked c' h r entry) (hc : c.Represented ∅)
    (hr : c.entries.get? h = some r) :
    c.Reworked (c'.indexEntryLocked r) h r entry ∧ (c'.indexEntryLocked r).Represented ∅ := by
  have hstored : entry.metadata.isSome → entry.fetchState = .done := by
    rw [hw.record.metadata, hw.done]
    exact hc.stored_done h r hr
  have hknown : entry.knownFromDatabase → entry.fetchState = .done ∧ entry.metadata = none := by
    rw [hw.record.knownFromDatabase, hw.done, hw.record.metadata]
    exact hc.known_done h r hr
  obtain ⟨hedited, hclosed⟩ :=
    hw.edited.close (hc.mono (Set.empty_subset _)) hr hstored hknown
  refine ⟨?_, hclosed⟩
  exact
    { edited := hedited
      record := hw.record
      queues := hw.queues.trans .of_eq
      done := hw.done }

end Helpers

end TorrentCatalog

end DhtScraper
