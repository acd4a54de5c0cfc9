import DhtScraper.Catalog.Lifecycle

/-!
# The operations that change records and queues

Sightings, stored metadata, dropped and written documents, database checks and resets.  As for the
lookup and fetch machinery, each is an edit of one live entry; here the record of the entry or an
index queue changes as well, and the lemmas say how.
-/

namespace DhtScraper

open Library

namespace TorrentCatalog

variable {c c' mid : TorrentCatalog} {h : Bytes} {r : Ref} {entry : TorrentEntry}

/-- An edit that touches no index and changes none of the tests the indexes depend on. -/
theorem Edited.represented_same (he : c.Edited c' h r entry) (hc : c.Represented ∅)
    (hr : c.entries.get? h = some r) (hstored : entry.metadata.isSome → entry.fetchState = .done)
    (hknown : entry.knownFromDatabase → entry.fetchState = .done ∧ entry.metadata = none)
    (hcheck : entry.awaitsCheck = (c.heap r).awaitsCheck)
    (hready : entry.readyToFetch = (c.heap r).readyToFetch)
    (hlookup : entry.awaitsLookup c.limits.maxLookups = (c.heap r).awaitsLookup c.limits.maxLookups)
    (needsCheck : c'.needsCheck = c.needsCheck := by rfl)
    (fetchable : c'.fetchable = c.fetchable := by rfl)
    (needsLookup : c'.needsLookup = c.needsLookup := by rfl) : c'.Represented ∅ := by
  have hopen := he.represented_open hc (Set.empty_subset _) hr hstored hknown
  have hlive {p : TorrentEntry → Bool} (hp : p entry = p (c.heap r)) (k : Bytes) :
      c'.liveWhere p k = c.liveWhere p k := by
    rw [he.liveWhere hc hr]
    by_cases hk : k = h
    · rw [if_pos hk, hp, hk, liveWhere_of_live hr]
    · rw [if_neg hk]
  exact
    { hopen with
      needsCheck := fun k hk ↦ by rw [needsCheck, hlive hcheck, hc.needsCheck k hk]
      fetchable := fun k hk ↦ by rw [fetchable, hlive hready, hc.fetchable k hk]
      needsLookup := fun k hk ↦ by
        rw [needsLookup, he.limits, hlive hlookup, hc.needsLookup k hk] }

/-- The contents of an entry that is not in the catalog do not matter. -/
theorem Represented.modify_dead {opened : Set Bytes} (hc : c.Represented opened)
    (hdead : ∀ k, c.entries.get? k ≠ some r) (f : TorrentEntry → TorrentEntry) :
    (c.modify r f).Represented opened := by
  have hheap {k : Bytes} {r' : Ref} (hr' : c.entries.get? k = some r') :
      (c.modify r f).heap r' = c.heap r' :=
    Function.update_of_ne (fun heq ↦ hdead k (hr'.trans (congrArg some heq))) _ _
  have hcount (p : TorrentEntry → Bool) : (c.modify r f).countLive p = c.countLive p := by
    refine congrArg Nat.cast (List.countP_congr fun r' hr' ↦ ?_)
    obtain ⟨k, hk⟩ := OrderedMap.mem_values_iff.mp hr'
    rw [hheap hk]
  have hlive (p : TorrentEntry → Bool) (k : Bytes) :
      (c.modify r f).liveWhere p k = c.liveWhere p k := by
    simp only [liveWhere, show (c.modify r f).entries = c.entries from rfl]
    cases hget : c.entries.get? k with
    | none => rfl
    | some r' => simp only [Option.filter, hheap hget]
  constructor
  case key =>
    intro k r' hr'
    rw [hheap hr']
    exact hc.key k r' hr'
  case allocated => exact hc.allocated
  case stateCounts => intro s; rw [hcount]; exact hc.stateCounts s
  case knownDone => rw [hcount]; exact hc.knownDone
  case lookupsInProgress => rw [hcount]; exact hc.lookupsInProgress
  case fetched => intro k; rw [hlive]; exact hc.fetched k
  case stored_done =>
    intro k r' hr'
    rw [hheap hr']
    exact hc.stored_done k r' hr'
  case known_done =>
    intro k r' hr'
    rw [hheap hr']
    exact hc.known_done k r' hr'
  case counters_live => exact hc.counters_live
  case needsCheck => intro k hk; rw [hlive]; exact hc.needsCheck k hk
  case fetchable => intro k hk; rw [hlive]; exact hc.fetchable k hk
  case needsLookup => intro k hk; rw [hlive]; exact hc.needsLookup k hk
  case needsCheck_live => exact hc.needsCheck_live
  case fetchable_live => exact hc.fetchable_live
  case needsLookup_live => exact hc.needsLookup_live

/-! ## Sightings -/

/-- The live entry `r` of `h` was sighted once. -/
structure Sighted (mid c' : TorrentCatalog) (h : Bytes) (r : Ref) (source : Source) (moment : ℚ)
    (entry : TorrentEntry) : Prop where
  edited : mid.Edited c' h r entry
  record : (countSighting source moment (mid.heap r)).SameRecord entry
  fetchState : entry.fetchState = (mid.heap r).fetchState
  lookupInProgress : entry.lookupInProgress = (mid.heap r).lookupInProgress
  lookupsStarted : entry.lookupsStarted = (mid.heap r).lookupsStarted
  hasPeers : (mid.heap r).hasPeers → entry.hasPeers
  indexTracking : c'.indexTracking = mid.indexTracking
  indexMaxPending : c'.indexMaxPending = mid.indexMaxPending
  checkDatabase : c'.checkDatabase = mid.checkDatabase
  indexDocuments : c'.indexDocuments = mid.indexDocuments
  orphanCounters : c'.orphanCounters = mid.orphanCounters
  indexDropped : c'.indexDropped = mid.indexDropped
  indexCounters : c'.indexCounters =
    if mid.indexTracking ∧ (entry.metadata.isSome ∨ entry.inDatabase) then
      mid.indexCounters.setDefault h r
    else mid.indexCounters

theorem reworked_addSightedPeer (hkey : (c.heap r).infoHash = h) (peer : Option Address) :
    ∃ peers, c.Reworked (c.addSightedPeer r peer) h r { c.heap r with peers := peers } ∧
      ((c.heap r).hasPeers → TorrentEntry.hasPeers { c.heap r with peers := peers }) := by
  cases peer with
  | none => exact ⟨(c.heap r).peers, Reworked.refl hkey, id⟩
  | some peer =>
    by_cases hdone : (c.heap r).fetchState = .done
    · rw [show c.addSightedPeer r (some peer) = c from if_neg (by simp [hdone])]
      exact ⟨(c.heap r).peers, Reworked.refl hkey, id⟩
    · rw [show c.addSightedPeer r (some peer) = _ from if_pos hdone]
      exact reworked_addPeerLocked hkey peer

/-- One sighting: the entry of the hash is obtained, counted and indexed again. -/
theorem sightLocked_spec (hc : c.Represented ∅) (h : Bytes) (source : Source)
    (peer : Option Address) (moment : ℚ) :
    let sighted := c.sightLocked h source peer moment
    sighted.1.Represented ∅ ∧ ∃ mid entry, mid.Represented {h} ∧
      c.Obtained mid h moment sighted.2.1 ∧ c.QueuesKept mid ∧ mid.limits = c.limits ∧
      mid.Sighted sighted.1 h sighted.2.1 source moment entry := by
  intro sighted
  let found := c.getOrCreateLocked h moment
  let mid := found.1
  let r := found.2.1
  obtain ⟨hmid, hobtained, hqueues, hlimits⟩ := getOrCreateLocked_spec hc h moment
  have hr : mid.entries.get? h = some r := hobtained.entry_live
  have hkey := hmid.key h r hr
  have hcount := edited_modify hkey (countSighting source moment) rfl rfl rfl rfl rfl
  let counted := mid.modify r (countSighting source moment)
  have hcounted : counted.heap r = countSighting source moment (mid.heap r) := hcount.entry_eq
  obtain ⟨peers, hadd, hkeep⟩ := reworked_addSightedPeer (c := counted) (h := h)
    (by rw [hcounted]; exact hkey) peer
  rw [hcounted] at hadd hkeep
  let entry : TorrentEntry := { countSighting source moment (mid.heap r) with peers := peers }
  let added := counted.addSightedPeer r peer
  let opened : TorrentCatalog := { added with needsLookup := added.needsLookup.erase h }
  have hadded : mid.Edited added h r entry := hcount.trans hadd.edited
  have hopened : mid.Edited opened h r entry :=
    { hadded with
      needsLookup := fun k ↦ by
        rw [show opened.needsLookup = added.needsLookup.erase h from rfl, OrderedMap.get?_erase]
        by_cases hk : k = h
        · exact Or.inr ⟨hk, Or.inl (if_pos hk)⟩
        · rw [if_neg hk]
          exact hadded.needsLookup k }
  obtain ⟨hclosed, hrep⟩ := hopened.close hmid hr (hmid.stored_done h r hr) (hmid.known_done h r hr)
  let closed := opened.indexEntryLocked r
  have hentry : closed.heap r = entry := hclosed.entry_eq
  have hqueue : closed.QueuesKept closed := .of_eq
  have hkept : mid.indexCounters = closed.indexCounters := hadd.queues.indexCounters.symm
  have htracking : closed.indexTracking = mid.indexTracking := hadd.queues.indexTracking
  have hcounters : sighted.1.indexCounters =
      if mid.indexTracking ∧ (entry.metadata.isSome ∨ entry.inDatabase) then
        mid.indexCounters.setDefault h r
      else mid.indexCounters := by
    rw [← hentry, hkept, ← htracking]
    rfl
  have hlive {k : Bytes} {r' : Ref} (hr' : mid.indexCounters.get? k = some r') :
      mid.entries.get? k = some r' := hmid.counters_live k r' hr'
  have hself : (mid.indexCounters.get? h).getD r = r := by
    cases hget : mid.indexCounters.get? h with
    | none => rfl
    | some r' => exact Option.some.inj ((hlive hget).symm.trans hr)
  have hcases (k : Bytes) : sighted.1.indexCounters.get? k = mid.indexCounters.get? k ∨
      k = h ∧ sighted.1.indexCounters.get? k = some r := by
    rw [hcounters]
    split
    · rw [OrderedMap.get?_setDefault, hself]
      by_cases hk : k = h
      · exact Or.inr ⟨hk, if_pos hk⟩
      · exact Or.inl (if_neg hk)
    · exact Or.inl rfl
  refine ⟨?_, mid, entry, hmid, hobtained, hqueues, hlimits, ?_⟩
  · refine hrep.of_counters fun k r' hr' ↦ ?_
    rcases hcases k with hk | ⟨hk, hsome⟩
    · rw [hk, hkept] at hr'
      exact Or.inl hr'
    · rw [hsome, Option.some.injEq] at hr'
      refine Or.inr ?_
      rw [hclosed.entries, hk, ← hr']
      exact hr
  · exact
      { edited :=
          { hclosed with
            counters := fun k ↦ (hcases k).imp_right fun hk ↦ ⟨hk.1, Or.inr hk.2⟩ }
        record := .of_eq
        fetchState := rfl
        lookupInProgress := rfl
        lookupsStarted := rfl
        hasPeers := hkeep
        indexTracking := hadd.queues.indexTracking
        indexMaxPending := hadd.queues.indexMaxPending
        checkDatabase := hadd.queues.checkDatabase
        indexDocuments := hadd.queues.indexDocuments
        orphanCounters := hadd.queues.orphanCounters
        indexDropped := hadd.queues.indexDropped
        indexCounters := hcounters }

/-! ## Stored and dropped metadata -/

/-- The entry after `store_metadata`. -/
def storedEntry (entry : TorrentEntry) (metadata : TorrentMetadata) : TorrentEntry :=
  { entry with
    metadata := some metadata
    lastError := ""
    fetchState := .done
    knownFromDatabase := false }

theorem storeLocked_spec (hc : c.Represented {h}) (hr : c.entries.get? h = some r)
    (metadata : TorrentMetadata) :
    c.Edited (c.storeLocked r metadata) h r (storedEntry (c.heap r) metadata) ∧
      (c.storeLocked r metadata).Represented ∅ ∧ c.QueuesKept (c.storeLocked r metadata) := by
  have hkey := hc.key h r hr
  let counted : TorrentCatalog := { c with
    metadataBytes :=
      if (c.heap r).fetchState ≠ .done ∨ (c.heap r).knownFromDatabase then
        c.metadataBytes + metadata.totalSize
      else c.metadataBytes }
  have hforget := edited_forgetKnownLocked (c := counted) (h := h) (r := r) hkey
  have hforgotten : c.Edited (counted.forgetKnownLocked r) h r
      { c.heap r with knownFromDatabase := false } := { hforget with }
  let entry : TorrentEntry :=
    { c.heap r with knownFromDatabase := false, metadata := some metadata, lastError := "" }
  let described := (counted.forgetKnownLocked r).modify r fun entry ↦
    { entry with metadata := some metadata, lastError := "" }
  have hset := edited_setStateLocked (c := described) (h := h) (r := r)
    (by simp [described, modify, hforgotten.entry_eq, hkey]) .done
  let stored : TorrentCatalog := { described.setStateLocked r .done with
    fetched := (described.setStateLocked r .done).fetched.insert (c.heap r).infoHash r }
  have hdescribed : described.heap r = entry := by
    simp [described, modify, hforgotten.entry_eq, entry]
  have hstored : c.Edited stored h r (storedEntry (c.heap r) metadata) :=
    { heap := by
        rw [show stored.heap = Function.update described.heap r
          { described.heap r with fetchState := .done } from rfl, hdescribed]
        simp only [described, modify, hforgotten.heap, Function.update_idem]
        rfl
      infoHash := hkey
      stateCounts := fun s ↦ by
        have hcounts := hset.stateCounts s
        rw [hdescribed] at hcounts
        exact hcounts
      knownDone := hforgotten.knownDone
      lookupsInProgress := (sub_add_cancel _ _).symm
      fetched := fun k hk ↦ by
        rw [show stored.fetched = c.fetched.insert (c.heap r).infoHash r from rfl, hkey]
        simp [hk]
      fetched_self := Or.inr (by
        rw [show stored.fetched = c.fetched.insert (c.heap r).infoHash r from rfl, hkey]
        simp [storedEntry]) }
  obtain ⟨hclosed, hrep⟩ := hstored.close hc hr (fun _ ↦ rfl) (by simp [storedEntry])
  exact ⟨hclosed, hrep, .of_eq⟩

/-- The entry after its unwritten metadata was dropped. -/
def droppedEntry (entry : TorrentEntry) : TorrentEntry :=
  { entry with metadata := none, databaseChecked := true, fetchState := .pending }

/-- Dropping unwritten metadata edits the entry when it is live, and is a failed assertion at
most when it is not. -/
theorem dropUnwrittenMetadataLocked_spec (hc : c.Represented ∅) (r : Ref) :
    let c' := c.dropUnwrittenMetadataLocked r
    c'.Represented ∅ ∧ c.QueuesKept c' ∧
      ((∃ b, c' = { c with raised := b }) ∨
        ∃ h, c.entries.get? h = some r ∧ (c.heap r).metadata.isSome ∧
          c.Edited c' h r (droppedEntry (c.heap r))) := by
  intro c'
  cases hmeta : (c.heap r).metadata with
  | none =>
    have heq : c' = c.check (¬ c.fetched.contains (c.heap r).infoHash) := by
      simp [c', dropUnwrittenMetadataLocked, hmeta]
    rw [heq]
    exact ⟨hc.check _, .of_eq, Or.inl ⟨_, rfl⟩⟩
  | some metadata =>
    let key := (c.heap r).infoHash
    by_cases hdrop : c.entries.get? key = some r ∧ (c.heap r).fetchState = .done
    · obtain ⟨hr, hdone⟩ := hdrop
      let dropped : TorrentCatalog := { c with
        metadataBytes := c.metadataBytes - metadata.totalSize
        heap := Function.update c.heap r
          { c.heap r with metadata := none, databaseChecked := true }
        fetched := c.fetched.erase key }
      have heq : c' = (dropped.setStateLocked r .pending).indexEntryLocked r := by
        have hif : c' = if c.entries.get? key = some r ∧ (c.heap r).fetchState = .done then
            (dropped.setStateLocked r .pending).indexEntryLocked r else c := by
          simp only [c', dropUnwrittenMetadataLocked, hmeta]
          rfl
        rw [hif, if_pos ⟨hr, hdone⟩]
      have hself : dropped.heap r = { c.heap r with metadata := none, databaseChecked := true } :=
        Function.update_self _ _ _
      have hset := edited_setStateLocked (c := dropped) (h := key) (r := r) (by rw [hself]) .pending
      have hedited : c.Edited (dropped.setStateLocked r .pending) key r
          (droppedEntry (c.heap r)) :=
        { heap := by
            rw [hset.heap, hself]
            simp only [dropped, Function.update_idem]
            rfl
          infoHash := rfl
          stateCounts := fun s ↦ by
            have hcounts := hset.stateCounts s
            rw [hself] at hcounts
            exact hcounts
          knownDone := (sub_add_cancel _ _).symm
          lookupsInProgress := (sub_add_cancel _ _).symm
          fetched := fun k hk ↦ by
            rw [show (dropped.setStateLocked r .pending).fetched = c.fetched.erase key from rfl]
            simp [hk]
          fetched_self := Or.inr (by
            rw [show (dropped.setStateLocked r .pending).fetched = c.fetched.erase key from rfl]
            simp [droppedEntry]) }
      have hknown : (c.heap r).knownFromDatabase = false := by
        by_contra hk
        have hnone := (hc.known_done key r hr (by simpa using hk)).2
        rw [hmeta] at hnone
        cases hnone
      obtain ⟨hclosed, hrep⟩ := hedited.close (hc.mono (Set.empty_subset _)) hr
        (by simp [droppedEntry]) (by simp [droppedEntry, hknown])
      rw [heq]
      exact ⟨hrep, .of_eq, Or.inr ⟨key, hr, by simp, hclosed⟩⟩
    · have heq : c' = c := by
        have hif : c' = if c.entries.get? key = some r ∧ (c.heap r).fetchState = .done then
            (({ c with
              metadataBytes := c.metadataBytes - metadata.totalSize
              heap := Function.update c.heap r
                { c.heap r with metadata := none, databaseChecked := true }
              fetched := c.fetched.erase key }).setStateLocked r .pending).indexEntryLocked r
            else c := by
          simp only [c', dropUnwrittenMetadataLocked, hmeta]
          rfl
        rw [hif, if_neg hdrop]
      rw [heq]
      exact ⟨hc, .of_eq, Or.inl ⟨c.raised, rfl⟩⟩

/-- The assertion of `_index_entry_locked` holds always. -/
theorem indexEntryLocked_raised (c : TorrentCatalog) (r : Ref) :
    (c.indexEntryLocked r).raised = c.raised := by
  simp only [indexEntryLocked, TorrentCatalog.check, Bool.or_eq_left_iff_imp, Bool.not_eq_eq_eq_not,
    Bool.not_true, decide_eq_false_iff_not]
  intro hfail
  refine absurd ?_ hfail
  split
  next hready => simp [OrderedMap.contains, hready]
  next hready => simpa [OrderedMap.contains] using hready

theorem dropUnwrittenMetadataLocked_raised (hc : c.Represented ∅) (hmeta : (c.heap r).metadata.isSome) :
    (c.dropUnwrittenMetadataLocked r).raised = c.raised := by
  obtain ⟨metadata, hmeta⟩ := Option.isSome_iff_exists.mp hmeta
  have hcount : 0 ≤ c.stateCounts .pending := by
    rw [hc.stateCounts]
    exact Int.natCast_nonneg _
  simp only [dropUnwrittenMetadataLocked, hmeta]
  split
  next hdrop =>
    rw [indexEntryLocked_raised]
    simp only [setStateLocked, TorrentCatalog.check, Function.update_self, hdrop.2, bump]
    simp
    omega
  next => rfl

/-! ## The document queue -/

/-- Dropping the oldest document drops its unwritten metadata. -/
theorem dropOldestDocument_cases (c : TorrentCatalog) :
    c.dropOldestDocument = c ∨ ∃ key dropped rest,
      c.indexDocuments.popFirst = some ((key, dropped), rest) ∧
      c.dropOldestDocument = { c with
        indexDocuments := rest
        indexDropped := c.indexDropped + 1 }.dropUnwrittenMetadataLocked dropped := by
  unfold dropOldestDocument
  cases hpop : c.indexDocuments.popFirst with
  | none => exact Or.inl rfl
  | some popped => exact Or.inr ⟨popped.1.1, popped.1.2, popped.2, rfl, rfl⟩

/-- The catalog with the document of an entry queued, before the bound is looked at. -/
def documentQueued (c : TorrentCatalog) (r : Ref) : TorrentCatalog :=
  { c.check (c.heap r).metadata.isSome with
    indexCounters := c.indexCounters.erase (c.heap r).infoHash
    indexDocuments := c.indexDocuments.setDefault (c.heap r).infoHash r }

/-- A new document above the bound drops the oldest one. -/
theorem queueDocumentLocked_eq (c : TorrentCatalog) (r : Ref) :
    c.queueDocumentLocked r =
      if c.indexDocuments.contains (c.heap r).infoHash = false ∧
          c.indexMaxPending < (c.documentQueued r).indexDocuments.size then
        (c.documentQueued r).dropOldestDocument
      else c.documentQueued r := by
  by_cases hqueued : c.indexDocuments.contains (c.heap r).infoHash
  · have hsame : c.indexDocuments.setDefault (c.heap r).infoHash r = c.indexDocuments :=
      if_pos hqueued
    rw [if_neg (by simp [hqueued]), show c.queueDocumentLocked r = _ from if_pos hqueued,
      documentQueued, hsame]
    rfl
  · have hinsert : c.indexDocuments.insert (c.heap r).infoHash r =
        c.indexDocuments.setDefault (c.heap r).infoHash r :=
      (if_neg hqueued).trans (if_neg hqueued).symm
    have hfalse : c.indexDocuments.contains (c.heap r).infoHash = false := by simpa using hqueued
    simp only [hfalse, true_and]
    rw [show c.queueDocumentLocked r = _ from if_neg hqueued, documentQueued, ← hinsert]
    rfl

theorem queueDocumentLocked_cases (c : TorrentCatalog) (r : Ref) :
    c.queueDocumentLocked r = c.documentQueued r ∨
      c.queueDocumentLocked r = (c.documentQueued r).dropOldestDocument := by
  rw [queueDocumentLocked_eq]
  split
  · exact Or.inr rfl
  · exact Or.inl rfl

/-- What holds with the document queued, and is kept when the oldest document is dropped, holds after
`_queue_document_locked`. -/
theorem queueDocumentLocked_induction {P : TorrentCatalog → Prop} (c : TorrentCatalog) (r : Ref)
    (hqueued : P (c.documentQueued r))
    (hdropped : ∀ key dropped rest,
      (c.documentQueued r).indexDocuments.popFirst = some ((key, dropped), rest) →
      P ({ c.documentQueued r with
        indexDocuments := rest
        indexDropped := (c.documentQueued r).indexDropped + 1
        }.dropUnwrittenMetadataLocked dropped)) : P (c.queueDocumentLocked r) := by
  rcases c.queueDocumentLocked_cases r with heq | heq
  · rw [heq]
    exact hqueued
  · rw [heq]
    rcases (c.documentQueued r).dropOldestDocument_cases with hsame | ⟨key, dropped, rest, hpop, hdrop⟩
    · rw [hsame]
      exact hqueued
    · rw [hdrop]
      exact hdropped key dropped rest hpop

theorem Represented.dropOldestDocument (hc : c.Represented ∅) :
    c.dropOldestDocument.Represented ∅ := by
  rcases c.dropOldestDocument_cases with heq | ⟨key, dropped, rest, -, heq⟩
  · rw [heq]
    exact hc
  · rw [heq]
    exact (dropUnwrittenMetadataLocked_spec hc.of_eq dropped).1

theorem Represented.documentQueued (hc : c.Represented ∅) (r : Ref) :
    (c.documentQueued r).Represented ∅ := by
  refine hc.of_counters fun k r' hr' ↦ Or.inl ?_
  rw [show (c.documentQueued r).indexCounters = c.indexCounters.erase (c.heap r).infoHash from rfl,
    OrderedMap.get?_erase] at hr'
  split at hr'
  · cases hr'
  · exact hr'

/-- Queueing a document raises nothing when every queued entry has its metadata. -/
theorem queueDocumentLocked_raised (hc : c.Represented ∅) (hmeta : (c.heap r).metadata.isSome)
    (hdescribed : ∀ k r', c.indexDocuments.get? k = some r' → (c.heap r').metadata.isSome) :
    (c.queueDocumentLocked r).raised = c.raised := by
  have hqueued : (c.documentQueued r).raised = c.raised := by
    simp [documentQueued, TorrentCatalog.check, hmeta]
  refine queueDocumentLocked_induction (P := fun c' ↦ c'.raised = c.raised) c r hqueued ?_
  intro key dropped rest hpop
  have hstored : (c.heap dropped).metadata.isSome := by
    rcases OrderedMap.get?_setDefault_cases (OrderedMap.get?_of_popFirst hpop).1 with hold | ⟨-, rfl⟩
    · exact hdescribed key dropped hold
    · exact hmeta
  exact (dropUnwrittenMetadataLocked_raised (hc.documentQueued r).of_eq hstored).trans hqueued

theorem Represented.queueDocumentLocked (hc : c.Represented ∅) (r : Ref) :
    (c.queueDocumentLocked r).Represented ∅ := by
  rcases c.queueDocumentLocked_cases r with heq | heq
  · rw [heq]
    exact hc.documentQueued r
  · rw [heq]
    exact (hc.documentQueued r).dropOldestDocument

/-! ## Written documents and counters -/

/-- The flushed counts may be changed on any entry, live or evicted. -/
theorem Represented.flushSnapshot (hc : c.Represented ∅) (snapshot : IndexSnapshot) :
    (c.flushSnapshot snapshot).Represented ∅ := by
  by_cases hlive : ∃ k, c.entries.get? k = some snapshot.entry
  · obtain ⟨k, hr⟩ := hlive
    exact (edited_modify (hc.key k _ hr) _ rfl rfl rfl rfl rfl).represented_same hc hr
      (hc.stored_done k _ hr)
      (hc.known_done k _ hr) rfl rfl rfl
  · exact hc.modify_dead (fun k hk ↦ hlive ⟨k, hk⟩) _

/-- The metadata of the entry is the object that was written. -/
def isWritten (entry : TorrentEntry) (snapshot : IndexSnapshot) : Prop :=
  entry.metadata.map TorrentMetadata.ident = snapshot.metadata.map TorrentMetadata.ident

instance (entry : TorrentEntry) (snapshot : IndexSnapshot) :
    Decidable (isWritten entry snapshot) := by
  unfold isWritten
  infer_instance

/-- The live entry after its document was written. -/
def writtenEntry (entry : TorrentEntry) (snapshot : IndexSnapshot) (base : IndexBase) :
    TorrentEntry :=
  if isWritten entry snapshot then
    { entry with
      indexBase := some base
      metadata := none
      inDatabase := true
      peers := none
      failedPeers := none }
  else { entry with indexBase := some base }

/-- `mark_index_written` on the live entry: a document that was queued again for the same metadata
becomes a counter update. -/
structure Written (c c' : TorrentCatalog) (h : Bytes) (r : Ref) (snapshot : IndexSnapshot)
    (base : IndexBase) : Prop where
  edited : c.Edited c' h r (writtenEntry (c.heap r) snapshot base)
  indexTracking : c'.indexTracking = c.indexTracking
  checkDatabase : c'.checkDatabase = c.checkDatabase
  orphanCounters : c'.orphanCounters = c.orphanCounters
  indexDropped : c'.indexDropped = c.indexDropped
  indexDocuments : c'.indexDocuments =
    if isWritten (c.heap r) snapshot then c.indexDocuments.erase h else c.indexDocuments
  indexCounters : c'.indexCounters =
    if isWritten (c.heap r) snapshot ∧ c.indexDocuments.contains h then
      c.indexCounters.setDefault h r
    else c.indexCounters

/-- A setdefault of a live entry keeps every item live. -/
theorem get?_setDefault_live (hc : c.Represented ∅) (hr : c.entries.get? h = some r) {k : Bytes} :
    (c.indexCounters.setDefault h r).get? k = c.indexCounters.get? k ∨
      k = h ∧ (c.indexCounters.setDefault h r).get? k = some r := by
  rw [OrderedMap.get?_setDefault]
  by_cases hk : k = h
  · refine Or.inr ⟨hk, ?_⟩
    rw [if_pos hk]
    cases hget : c.indexCounters.get? h with
    | none => rfl
    | some r' => exact (hc.counters_live h r' hget).symm.trans hr
  · exact Or.inl (if_neg hk)

theorem get?_setDefault_self (hc : c.Represented ∅) (hr : c.entries.get? h = some r) :
    (c.indexCounters.setDefault h r).get? h = some r := by
  rw [OrderedMap.get?_setDefault, if_pos rfl]
  cases hget : c.indexCounters.get? h with
  | none => rfl
  | some r' => exact (hc.counters_live h r' hget).symm.trans hr

theorem writtenLocked_spec (hc : c.Represented ∅) (hr : c.entries.get? h = some r)
    {snapshot : IndexSnapshot} (hsnapshot : snapshot.metadata.isSome) (base : IndexBase) :
    (c.writtenLocked r snapshot base).Represented ∅ ∧
      c.Written (c.writtenLocked r snapshot base) h r snapshot base := by
  have hkey := hc.key h r hr
  have hbase := edited_modify (c := c) hkey
    (fun entry ↦ { entry with indexBase := some base }) rfl rfl rfl rfl rfl
  let based := c.modify r fun entry ↦ { entry with indexBase := some base }
  have hself : based.heap r = { c.heap r with indexBase := some base } := hbase.entry_eq
  by_cases hw : isWritten (c.heap r) snapshot
  · let released : TorrentCatalog := { based with
      indexDocuments := based.indexDocuments.erase h
      indexCounters :=
        if based.indexDocuments.contains h then based.indexCounters.setDefault h r
        else based.indexCounters }.releaseMetadataLocked r
    have heq : c.writtenLocked r snapshot base = released := by
      have hif : (based.heap r).metadata.map TorrentMetadata.ident =
          snapshot.metadata.map TorrentMetadata.ident := by
        rw [hself]
        exact hw
      simp only [writtenLocked]
      rw [if_pos hif]
      simp only [released, based, modify, Function.update_self, hkey]
    have hmeta : (c.heap r).metadata.isSome := by
      have hsome := congrArg Option.isSome hw
      simpa [hsnapshot] using hsome
    have hdone := hc.stored_done h r hr hmeta
    have hknown : (c.heap r).knownFromDatabase = false := by
      by_contra hk
      have hnone := (hc.known_done h r hr (by simpa using hk)).2
      rw [hnone] at hmeta
      cases hmeta
    have hentry : writtenEntry (c.heap r) snapshot base =
        { c.heap r with
          indexBase := some base, metadata := none, inDatabase := true, peers := none
          failedPeers := none } := if_pos hw
    have hedited : c.Edited released h r (writtenEntry (c.heap r) snapshot base) :=
      { heap := by
          rw [hentry]
          simp only [released, releaseMetadataLocked, TorrentCatalog.check, hself]
          simp only [based, modify, Function.update_idem]
        infoHash := by rw [hentry]; exact hkey
        stateCounts := fun s ↦ by rw [hentry]; exact (sub_add_cancel _ _).symm
        knownDone := by rw [hentry]; exact (sub_add_cancel _ _).symm
        lookupsInProgress := by rw [hentry]; exact (sub_add_cancel _ _).symm
        fetched := fun k hk ↦ by
          simp only [released, releaseMetadataLocked, TorrentCatalog.check, hself, hkey]
          simp [based, modify, hk]
        fetched_self := Or.inr (by
          simp only [released, releaseMetadataLocked, TorrentCatalog.check, hself, hkey, hentry]
          simp)
        counters := fun k ↦ by
          rw [show released.indexCounters = if c.indexDocuments.contains h then
            c.indexCounters.setDefault h r else c.indexCounters from rfl]
          split
          · exact (get?_setDefault_live hc hr).imp_right fun hk ↦ ⟨hk.1, Or.inr hk.2⟩
          · exact Or.inl rfl }
    rw [heq]
    refine ⟨?_, ?_⟩
    · refine hedited.represented_same hc hr ?_ ?_ ?_ ?_ ?_
      · simp [hentry]
      · simp [hentry, hknown]
      · simp [hentry, TorrentEntry.awaitsCheck, hdone]
      · simp [hentry, TorrentEntry.readyToFetch, hdone]
      · simp [hentry, TorrentEntry.awaitsLookup, hdone]
    · exact
        { edited := hedited
          indexTracking := rfl
          checkDatabase := rfl
          orphanCounters := rfl
          indexDropped := rfl
          indexDocuments := by rw [if_pos hw]; rfl
          indexCounters := by simp only [hw, true_and]; rfl }
  · have heq : c.writtenLocked r snapshot base = based := by
      have hif : ¬ (based.heap r).metadata.map TorrentMetadata.ident =
          snapshot.metadata.map TorrentMetadata.ident := by
        rw [hself]
        exact hw
      simp only [writtenLocked]
      rw [if_neg hif]
    have hentry : writtenEntry (c.heap r) snapshot base =
        { c.heap r with indexBase := some base } := if_neg hw
    rw [heq]
    refine ⟨?_, ?_⟩
    · exact hbase.represented_same hc hr (hc.stored_done h r hr) (hc.known_done h r hr) rfl rfl rfl
    · exact
        { edited := by rw [hentry]; exact hbase
          indexTracking := rfl
          checkDatabase := rfl
          orphanCounters := rfl
          indexDropped := rfl
          indexDocuments := by rw [if_neg hw]; rfl
          indexCounters := by simp only [hw, false_and, if_false]; rfl }

/-- Marking a live entry as written fails no assertion. -/
theorem writtenLocked_raised (hc : c.Represented ∅) (hr : c.entries.get? h = some r)
    {snapshot : IndexSnapshot} (hsnapshot : snapshot.metadata.isSome) (base : IndexBase) :
    (c.writtenLocked r snapshot base).raised = c.raised := by
  have hself : ((c.modify r fun entry ↦ { entry with indexBase := some base }).heap r) =
      { c.heap r with indexBase := some base } := Function.update_self _ _ _
  simp only [writtenLocked, hself]
  split
  next hw =>
    have hmeta : (c.heap r).metadata.isSome := by
      have hsome := congrArg Option.isSome hw
      simpa [hsnapshot] using hsome
    have hdone := hc.stored_done h r hr hmeta
    simp [releaseMetadataLocked, TorrentCatalog.check, modify, hdone]
  next => rfl

/-! ## Database checks -/

theorem settled_uncheckedLocked (hc : c.Represented ∅) (hr : c.entries.get? h = some r) :
    c.Edited (c.uncheckedLocked r) h r { c.heap r with databaseChecked := true } ∧
      (c.uncheckedLocked r).Represented ∅ :=
  (edited_modify (hc.key h r hr) (fun entry ↦ { entry with databaseChecked := true })
    rfl rfl rfl rfl rfl).close
    (hc.mono (Set.empty_subset _)) hr (hc.stored_done h r hr) (hc.known_done h r hr)

/-- A pending entry after its database check: known when a row was found. -/
def checkedEntry (entry : TorrentEntry) (base : Option IndexBase) : TorrentEntry :=
  match base with
  | some base => { entry with
      databaseChecked := true
      indexBase := some base
      inDatabase := true
      peers := none
      failedPeers := none
      knownFromDatabase := true
      fetchState := .done }
  | none => { entry with databaseChecked := true }

/-- `apply_database_checks` for one entry that waits for its check. -/
structure Checked (c c' : TorrentCatalog) (h : Bytes) (r : Ref) (base : Option IndexBase) :
    Prop where
  edited : c.Edited c' h r (checkedEntry (c.heap r) base)
  indexTracking : c'.indexTracking = c.indexTracking
  checkDatabase : c'.checkDatabase = c.checkDatabase
  indexDocuments : c'.indexDocuments = c.indexDocuments
  orphanCounters : c'.orphanCounters = c.orphanCounters
  indexDropped : c'.indexDropped = c.indexDropped
  indexCounters : c'.indexCounters =
    if base.isSome ∧ c.indexTracking then c.indexCounters.setDefault h r else c.indexCounters

theorem applyCheckLocked_of_none (found : List (Bytes × IndexBase))
    (hnone : c.needsCheck.get? h = none) : c.applyCheckLocked found h = c := by
  simp [applyCheckLocked, hnone, OrderedMap.erase_eq_self hnone]

theorem applyCheckLocked_of_some (found : List (Bytes × IndexBase)) (hc : c.Represented ∅)
    (hcheck : c.needsCheck.get? h = some r) :
    (c.applyCheckLocked found h).Represented ∅ ∧
      c.Checked (c.applyCheckLocked found h) h r (found.lookup h) := by
  obtain ⟨hr, hawaits⟩ := liveWhere_eq_some_iff.mp
    ((hc.needsCheck h (Set.notMem_empty h)).symm.trans hcheck)
  simp only [TorrentEntry.awaitsCheck, decide_eq_true_eq, Bool.not_eq_true] at hawaits
  obtain ⟨hpending, hunchecked⟩ := hawaits
  have hkey := hc.key h r hr
  let popped : TorrentCatalog := { c with needsCheck := c.needsCheck.erase h }
  let marked := popped.modify r fun entry ↦ { entry with databaseChecked := true }
  have hself : marked.heap r = { c.heap r with databaseChecked := true } :=
    Function.update_self _ _ _
  have hmarked : c.Edited marked h r { c.heap r with databaseChecked := true } :=
    { edited_modify hkey (fun entry ↦ { entry with databaseChecked := true }) rfl rfl rfl rfl rfl with
      needsCheck := fun k ↦ by
        rw [show marked.needsCheck = c.needsCheck.erase h from rfl, OrderedMap.get?_erase]
        by_cases hk : k = h
        · exact Or.inr ⟨hk, Or.inl (if_pos hk)⟩
        · exact Or.inl (if_neg hk) }
  have hmeta : (c.heap r).metadata = none := by
    cases hm : (c.heap r).metadata with
    | none => rfl
    | some metadata =>
      have hdone := hc.stored_done h r hr (by simp [hm])
      rw [hpending] at hdone
      cases hdone
  have hknown : (c.heap r).knownFromDatabase = false := by
    by_contra hk
    have hdone := (hc.known_done h r hr (by simpa using hk)).1
    rw [hpending] at hdone
    cases hdone
  have hopened : c.Represented {h} := hc.mono (Set.empty_subset _)
  cases hfound : found.lookup h with
  | none =>
    have heq : c.applyCheckLocked found h = marked.indexEntryLocked r := by
      simp only [applyCheckLocked, hcheck, hunchecked, hfound]
      rfl
    obtain ⟨hclosed, hrep⟩ := hmarked.close hopened hr (hc.stored_done h r hr)
      (hc.known_done h r hr)
    rw [heq]
    exact ⟨hrep,
      { edited := hclosed
        indexTracking := rfl
        checkDatabase := rfl
        indexDocuments := rfl
        orphanCounters := rfl
        indexDropped := rfl
        indexCounters := rfl }⟩
  | some base =>
    have heq : c.applyCheckLocked found h = (marked.knownLocked h r base).indexEntryLocked r := by
      have hif : (marked.heap r).fetchState = .pending := by
        rw [hself]
        exact hpending
      have hknow : (if (marked.heap r).fetchState = .pending then marked.knownLocked h r base
          else marked) = marked.knownLocked h r base := if_pos hif
      simp only [applyCheckLocked, hcheck, hunchecked, hfound]
      exact congrArg (fun c ↦ c.indexEntryLocked r) hknow
    let described : TorrentCatalog := { marked.modify r fun entry ↦ { entry with
        indexBase := some base
        inDatabase := true
        peers := none
        failedPeers := none
        knownFromDatabase := true } with
      knownDone := marked.knownDone + 1 }
    have hdescribed : described.heap r = { c.heap r with
        databaseChecked := true
        indexBase := some base
        inDatabase := true
        peers := none
        failedPeers := none
        knownFromDatabase := true } := by
      simp only [described, modify, Function.update_self, hself]
    have hset := edited_setStateLocked (c := described) (h := h) (r := r)
      (by rw [hdescribed]; exact hkey) .done
    have hcounters : (marked.knownLocked h r base).indexCounters =
        if c.indexTracking then c.indexCounters.setDefault h r else c.indexCounters := rfl
    have hedited : c.Edited (marked.knownLocked h r base) h r (checkedEntry (c.heap r) (some base)) :=
      { heap := by
          rw [show (marked.knownLocked h r base).heap = Function.update described.heap r
            { described.heap r with fetchState := .done } from rfl, hdescribed]
          simp only [described, marked, popped, modify, Function.update_idem]
          rfl
        infoHash := hkey
        stateCounts := fun s ↦ by
          have hcounts := hset.stateCounts s
          rw [hdescribed] at hcounts
          exact hcounts
        knownDone := by
          rw [show (marked.knownLocked h r base).knownDone = c.knownDone + 1 from rfl]
          simp [indicator, hknown, checkedEntry]
        lookupsInProgress := (sub_add_cancel _ _).symm
        fetched_self := Or.inl ⟨rfl, rfl⟩
        counters := fun k ↦ by
          rw [hcounters]
          split
          · exact (get?_setDefault_live hc hr).imp_right fun hk ↦ ⟨hk.1, Or.inr hk.2⟩
          · exact Or.inl rfl
        needsCheck := hmarked.needsCheck }
    obtain ⟨hclosed, hrep⟩ := hedited.close hopened hr (fun _ ↦ rfl)
      (fun _ ↦ ⟨rfl, hmeta⟩)
    rw [heq]
    exact ⟨hrep,
      { edited := hclosed
        indexTracking := rfl
        checkDatabase := rfl
        indexDocuments := rfl
        orphanCounters := rfl
        indexDropped := rfl
        indexCounters := by simp only [Option.isSome_some, true_and]; exact hcounters }⟩

/-! ## Reset of the base -/

/-- The entry after `reset_index_base`: unflushed, and fetched again when only the missing row had
its metadata. -/
def resetEntry (entry : TorrentEntry) : TorrentEntry :=
  let unflushed := { entry with indexBase := none, flushedSeen := 0, flushedAnnounce := 0 }
  if entry.metadata.isNone ∧ entry.inDatabase then
    { unflushed with
      inDatabase := false
      databaseChecked := true
      knownFromDatabase := false
      fetchState := if entry.fetchState = .done then .pending else entry.fetchState }
  else unflushed

/-- `reset_index_base` for a live entry, before a document that still has metadata is queued. -/
theorem resetLocked_spec (hc : c.Represented ∅) (hr : c.entries.get? h = some r) :
    let unflushed : TorrentCatalog := { c.modify r fun entry ↦
        { entry with indexBase := none, flushedSeen := 0, flushedAnnounce := 0 } with
      indexCounters := c.indexCounters.erase h }
    ∃ mid, c.Edited mid h r (resetEntry (c.heap r)) ∧ mid.Represented ∅ ∧
      mid.indexTracking = c.indexTracking ∧ mid.checkDatabase = c.checkDatabase ∧
      mid.indexDocuments = c.indexDocuments ∧ mid.orphanCounters = c.orphanCounters ∧
      mid.indexDropped = c.indexDropped ∧ mid.indexCounters = c.indexCounters.erase h ∧
      unflushed.resetLocked r =
        if (c.heap r).metadata.isSome then mid.queueDocumentLocked r else mid := by
  intro unflushed
  have hkey := hc.key h r hr
  have hself : unflushed.heap r =
      { c.heap r with indexBase := none, flushedSeen := 0, flushedAnnounce := 0 } :=
    Function.update_self _ _ _
  have hunflushed : c.Edited unflushed h r
      { c.heap r with indexBase := none, flushedSeen := 0, flushedAnnounce := 0 } :=
    { edited_modify hkey (fun entry ↦
        { entry with indexBase := none, flushedSeen := 0, flushedAnnounce := 0 })
        rfl rfl rfl rfl rfl with
      counters := fun k ↦ by
        rw [show unflushed.indexCounters = c.indexCounters.erase h from rfl, OrderedMap.get?_erase]
        by_cases hk : k = h
        · exact Or.inr ⟨hk, Or.inl (if_pos hk)⟩
        · exact Or.inl (if_neg hk) }
  by_cases hdrop : (c.heap r).metadata.isNone ∧ (c.heap r).inDatabase
  · obtain ⟨hmeta, hdatabase⟩ := hdrop
    let absent := unflushed.modify r fun entry ↦
      { entry with inDatabase := false, databaseChecked := true }
    have habsent := hunflushed.trans (edited_modify hunflushed.key (fun entry ↦
      { entry with inDatabase := false, databaseChecked := true }) rfl rfl rfl rfl rfl)
    have hforgotten := habsent.trans (edited_forgetKnownLocked habsent.key)
    let forgotten := absent.forgetKnownLocked r
    let returned := if (forgotten.heap r).fetchState = .done then forgotten.setStateLocked r .pending
      else forgotten
    have hforget : forgotten.heap r = { c.heap r with
        indexBase := none, flushedSeen := 0, flushedAnnounce := 0, inDatabase := false
        databaseChecked := true, knownFromDatabase := false } := by
      rw [show forgotten.heap r = _ from hforgotten.entry_eq, habsent.entry_eq, hself]
    have hentry : resetEntry (c.heap r) = { c.heap r with
        indexBase := none, flushedSeen := 0, flushedAnnounce := 0, inDatabase := false
        databaseChecked := true, knownFromDatabase := false
        fetchState :=
          if (c.heap r).fetchState = .done then .pending else (c.heap r).fetchState } :=
      if_pos ⟨hmeta, hdatabase⟩
    have hnone : (c.heap r).metadata = none := Option.isNone_iff_eq_none.mp hmeta
    have hreturned : c.Edited returned h r (resetEntry (c.heap r)) := by
      rw [hentry]
      by_cases hdone : (c.heap r).fetchState = .done
      · have hset := hforgotten.trans (edited_setStateLocked hforgotten.key .pending)
        rw [show forgotten.heap r = _ from hforget] at hset
        rw [if_pos hdone, show returned = _ from if_pos (by rw [hforget]; exact hdone)]
        exact hset
      · rw [if_neg hdone, show returned = _ from if_neg (by rw [hforget]; exact hdone)]
        rw [← show forgotten.heap r = _ from hforgotten.entry_eq, hforget] at hforgotten
        exact hforgotten
    obtain ⟨hclosed, hrep⟩ := hreturned.close (hc.mono (Set.empty_subset _)) hr
      (by simp [hentry, hnone]) (by simp [hentry])
    have hqueues : unflushed.QueuesKept (returned.indexEntryLocked r) := by
      simp only [returned]
      split <;> exact {}
    refine ⟨returned.indexEntryLocked r, hclosed, hrep, hqueues.indexTracking,
      hqueues.checkDatabase, hqueues.indexDocuments, hqueues.orphanCounters, hqueues.indexDropped,
      hqueues.indexCounters, ?_⟩
    rw [if_neg (by simp [hnone])]
    simp only [resetLocked, hself, hnone, hdatabase]
    rfl
  · have hentry : resetEntry (c.heap r) =
        { c.heap r with indexBase := none, flushedSeen := 0, flushedAnnounce := 0 } := if_neg hdrop
    refine ⟨unflushed, by rw [hentry]; exact hunflushed, ?_, rfl, rfl, rfl, rfl, rfl, rfl, ?_⟩
    · exact hunflushed.represented_same hc hr (hc.stored_done h r hr) (hc.known_done h r hr)
        rfl rfl rfl
    · simp only [resetLocked, hself]
      by_cases hmeta : (c.heap r).metadata.isSome
      · rw [if_pos hmeta, if_pos hmeta]
      · have hdatabase : ¬ (c.heap r).inDatabase := fun hd ↦
          hdrop ⟨by simpa using hmeta, hd⟩
        rw [if_neg hmeta, if_neg hmeta, if_neg hdatabase]

end TorrentCatalog

end DhtScraper
