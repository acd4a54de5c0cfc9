import DhtScraper.Catalog.Tracking

/-!
# Every operation keeps a session sound

One lemma per operation of the catalog, in the order of the source.  A session stays sound when its
callers give back only claims they hold; the index thread may call its operations at any time and
with any arguments.
-/

namespace DhtScraper

open Library

namespace Sound

open TorrentCatalog

variable {limits : CatalogLimits} {d : Discipline} {Q : TorrentEntry → Prop}
  {c c' mid : TorrentCatalog} {F F' L L' : Finset Bytes} {h : Bytes} {r : Ref}
  {entry : TorrentEntry}

/-- A step of a live entry. -/
theorem stepped (hinv : EntryInvariant limits d Q) (hs : Sound limits Q c F L)
    (hr : c.entries.get? h = some r) (hstep : EntryStep limits d (c.heap r) entry) : Q entry :=
  hinv.step _ _ (hs.represented.stored_done h r hr) (hs.entry h r hr) hstep

/-! ## Crawler thread -/

theorem sightLocked (hinv : EntryInvariant limits d Q) (hs : Sound limits Q c F L) (h : Bytes)
    (source : Source) (peer : Option Address) (moment : ℚ) :
    Sound limits Q (c.sightLocked h source peer moment).1 F L := by
  obtain ⟨hrep, mid, entry, hmid, hobtained, -, hlimits, hsighted⟩ :=
    sightLocked_spec hs.represented h source peer moment
  obtain ⟨hold, hF, hL⟩ := hs.obtained hinv hobtained
  have hQ : Q entry := by
    refine hinv.step _ _ (hmid.stored_done h _ hobtained.entry_live) hold ?_
    exact .sighted hsighted.record hsighted.fetchState hsighted.lookupInProgress
      hsighted.lookupsStarted hsighted.hasPeers
  refine hs.obtained_edited hobtained hlimits hmid hsighted.edited hrep hQ (fun k ↦ ?_) fun k ↦ ?_
  · rw [hsighted.fetchState]
    by_cases hk : k = h
    · rw [if_pos hk, hk, hF]
    · rw [if_neg hk]
  · rw [hsighted.lookupInProgress]
    by_cases hk : k = h
    · rw [if_pos hk, hk, hL]
    · rw [if_neg hk]

theorem evictLocked (hs : Sound limits Q c F L) : Sound limits Q c.evictLocked.1 F L := by
  refine (evictLocked_induction (I := fun c ↦ Sound limits Q c F L) hs.represented hs ?_ ?_).1
  · intro c h r _ hs hr hfree
    exact hs.evicted (evicted_evictOneLocked (hs.represented.key h r hr)) hr hfree
  · intro c n b hs
    exact hs.of_heap hs.represented.of_eq rfl rfl rfl

theorem recordLocked (hinv : EntryInvariant limits d Q) (hs : Sound limits Q c F L) (h : Bytes)
    (source : Source) (peer : Option Address) (moment : ℚ) :
    Sound limits Q (c.recordLocked h source peer moment).1 F L := by
  have hsighted := hs.sightLocked hinv h source peer moment
  unfold TorrentCatalog.recordLocked
  apply Sound.check
  split
  · exact hsighted.evictLocked
  · exact hsighted

theorem recordHash (hinv : EntryInvariant limits d Q) (hs : Sound limits Q c F L) (h : Bytes)
    (source : Source) (peer : Option Address) (now : ℚ) :
    Sound limits Q (c.recordHash h source peer now).1 F L :=
  hs.guarded (fun _ ↦ (hs.recordLocked hinv h source peer now).assertInvariantsLocked)
    (fun _ ↦ rfl) (fun _ ↦ rfl)

theorem recordHashes (hinv : EntryInvariant limits d Q) (hs : Sound limits Q c F L)
    (hashes : List Bytes) (source : Source) (now : ℚ) :
    Sound limits Q (c.recordHashes hashes source now).1 F L := by
  have heach : Sound limits Q (c.recordEachLocked source now hashes).1 F L := by
    induction hashes generalizing c with
    | nil => exact hs
    | cons first rest ih => exact ih (hs.recordLocked hinv first source none now)
  exact hs.guarded (fun _ ↦ heach.assertInvariantsLocked.check _) (fun _ ↦ rfl) (fun _ ↦ rfl)

theorem addPeers (hinv : EntryInvariant limits d Q) (hs : Sound limits Q c F L) (h : Bytes)
    (peers : List Address) : Sound limits Q (c.addPeers h peers).1 F L := by
  cases hget : c.entries.get? h with
  | none =>
    simp only [TorrentCatalog.addPeers, hget]
    exact hs.guarded (fun _ ↦ hs) (fun _ ↦ rfl) (fun _ ↦ rfl)
  | some r =>
    obtain ⟨known, hsettled, hkeep⟩ := settled_addPeers hs.represented hget peers
    have hadded := hs.edited_same hget hsettled.reworked.edited hsettled.represented
      (hs.stepped hinv hget (.peersAdded hkeep)) Iff.rfl rfl
    simp only [TorrentCatalog.addPeers, hget]
    exact hs.guarded (fun _ ↦ hadded.check _) (fun _ ↦ rfl) (fun _ ↦ rfl)

/-- Claiming lookups one after the other. -/
theorem foldl_claimLookup (hinv : EntryInvariant limits d Q) (chosen : List Ref) :
    ∀ {c : TorrentCatalog} {L : Finset Bytes}, chosen.Nodup → Sound limits Q c F L →
      (∀ r ∈ chosen, ∃ h, c.entries.get? h = some r ∧ (c.heap r).awaitsLookup limits.maxLookups) →
      Sound limits Q (chosen.foldl claimLookup c) F
        (L ∪ (chosen.map fun r ↦ (c.heap r).infoHash).toFinset) := by
  induction chosen with
  | nil =>
    intro c L _ hs _
    simpa using hs
  | cons r rest ih =>
    intro c L hnodup hs hlive
    obtain ⟨hnotin, hrest⟩ := List.nodup_cons.mp hnodup
    obtain ⟨h, hr, hawaits⟩ := hlive r List.mem_cons_self
    have hfree : (c.heap r).lookupInProgress = false := by
      simp only [TorrentEntry.awaitsLookup, decide_eq_true_eq, Bool.not_eq_true] at hawaits
      exact hawaits.2.2.2.1
    have hsettled := settled_claimLookup hs.represented hr hfree
    have hedited := hsettled.reworked.edited
    have hkey := hs.represented.key h r hr
    have hclaimed : Sound limits Q (c.claimLookup r) F (insert h L) := by
      refine hs.edited hr hedited hsettled.represented
        (hs.stepped hinv hr (.lookupClaimed hawaits)) (fun k ↦ ?_) fun k ↦ ?_
      · by_cases hk : k = h
        · rw [if_pos hk, hk, hs.mem_fetching hr]
        · rw [if_neg hk]
      · by_cases hk : k = h <;> simp [hk]
    have hother {r' : Ref} (hr' : r' ∈ rest) : (c.claimLookup r).heap r' = c.heap r' := by
      rw [hedited.heap, Function.update_of_ne (ne_of_mem_of_not_mem hr' hnotin)]
    have hnext := ih hrest hclaimed fun r' hr' ↦ by
      rw [hedited.entries, hother hr']
      exact hlive r' (List.mem_cons_of_mem _ hr')
    have hkeys : (rest.map fun r' ↦ ((c.claimLookup r).heap r').infoHash) =
        rest.map fun r' ↦ (c.heap r').infoHash :=
      List.map_congr_left fun r' hr' ↦ by rw [hother hr']
    rw [hkeys] at hnext
    rw [List.map_cons, List.toFinset_cons, hkey, Finset.union_insert, ← Finset.insert_union]
    exact hnext

theorem hashesNeedingPeers (hinv : EntryInvariant limits d Q) (hs : Sound limits Q c F L)
    (limit : ℕ) (now : ℚ) :
    Sound limits Q (c.hashesNeedingPeers limit now).1 F
      (L ∪ (c.hashesNeedingPeers limit now).2.toFinset) := by
  unfold TorrentCatalog.hashesNeedingPeers
  by_cases hnow : 0 ≤ now
  · rw [if_pos hnow]
    refine hs.foldl_claimLookup hinv _ ?_ fun r hr ↦ ?_
    · have hvalues := nodup_values hs.represented hs.represented.needsLookup_live
      exact ((List.nodup_reverse.mpr hvalues).filter _).sublist (List.take_sublist _ _)
    · have hmem := (List.mem_filter.mp (List.mem_of_mem_take hr)).1
      obtain ⟨h, hh⟩ := OrderedMap.mem_values_iff.mp (List.mem_reverse.mp hmem)
      rw [hs.represented.needsLookup h (Set.notMem_empty h), hs.limits] at hh
      exact ⟨h, liveWhere_eq_some_iff.mp hh⟩
  · rw [if_neg hnow]
    have hraised : Sound limits Q { c with raised := true } F L :=
      hs.of_heap hs.represented.of_eq rfl rfl rfl
    simpa using hraised

theorem releaseLookupClaim (hinv : EntryInvariant limits d Q) (hs : Sound limits Q c F L)
    (hclaim : h ∈ L) : Sound limits Q (c.releaseLookupClaim h) F
      (if h.length = nodeIdLength then L.erase h else L) := by
  obtain ⟨r, hr, hlookup⟩ := hs.live_of_lookingUp hclaim
  have hsettled := settled_releaseLookup hs.represented hr
  have hreleased : Sound limits Q ((c.endLookupLocked r).indexEntryLocked r) F (L.erase h) := by
    refine hs.edited hr hsettled.reworked.edited hsettled.represented
      (hs.stepped hinv hr (.lookupReleased hlookup)) (fun k ↦ ?_) fun k ↦ ?_
    · by_cases hk : k = h
      · rw [if_pos hk, hk, hs.mem_fetching hr]
      · rw [if_neg hk]
    · by_cases hk : k = h <;> simp [hk]
  simp only [TorrentCatalog.releaseLookupClaim, hr, hlookup, if_true]
  refine hs.guarded (fun hlength ↦ ?_) (fun _ ↦ rfl) (fun hlength ↦ if_neg hlength)
  rw [if_pos hlength]
  exact hreleased.check _

theorem addLookupResult (hinv : EntryInvariant limits d Q) (hs : Sound limits Q c F L)
    (hclaim : h ∈ L) (peers : List Address) (now : ℚ) :
    Sound limits Q (c.addLookupResult h peers now) F
      (if h.length = nodeIdLength ∧ 0 ≤ now then L.erase h else L) := by
  obtain ⟨r, hr, hlookup⟩ := hs.live_of_lookingUp hclaim
  obtain ⟨entry, hsettled, hended, hstarted, hpeers, hfetching, hpending⟩ :=
    settled_lookupResultLocked hs.represented hr peers now
  rw [hs.limits] at hpending
  have hQ := hs.stepped hinv hr (.lookupEnded hlookup hsettled.reworked.record hended hstarted hpeers
    hsettled.reworked.done hfetching hpending)
  have hresult : Sound limits Q (c.lookupResultLocked r peers now) F (L.erase h) := by
    refine hs.edited hr hsettled.reworked.edited hsettled.represented hQ (fun k ↦ ?_) fun k ↦ ?_
    · by_cases hk : k = h
      · rw [if_pos hk, hk, hs.mem_fetching hr, hfetching]
      · rw [if_neg hk]
    · by_cases hk : k = h <;> simp [hk, hended]
  simp only [TorrentCatalog.addLookupResult, hr]
  refine hs.guarded (fun hasserts ↦ ?_) (fun _ ↦ rfl) (fun hasserts ↦ if_neg hasserts)
  rw [if_pos hasserts]
  exact hresult.assertInvariantsLocked

/-! ## Fetch thread -/

/-- Claiming fetches one after the other. -/
theorem foldl_claimFetch (hinv : EntryInvariant limits d Q) (chosen : List Ref) :
    ∀ {c : TorrentCatalog} {F : Finset Bytes}, chosen.Nodup → Sound limits Q c F L →
      (∀ r ∈ chosen, ∃ h, c.entries.get? h = some r ∧ (c.heap r).readyToFetch) →
      Sound limits Q (chosen.foldl claimFetch c)
        (F ∪ (chosen.map fun r ↦ (c.heap r).infoHash).toFinset) L := by
  induction chosen with
  | nil =>
    intro c F _ hs _
    simpa using hs
  | cons r rest ih =>
    intro c F hnodup hs hlive
    obtain ⟨hnotin, hrest⟩ := List.nodup_cons.mp hnodup
    obtain ⟨h, hr, hready⟩ := hlive r List.mem_cons_self
    have hpending : (c.heap r).fetchState = .pending := by
      simp only [TorrentEntry.readyToFetch, decide_eq_true_eq] at hready
      exact hready.1
    have hsettled := settled_claimFetch hs.represented hr hpending
    have hedited := hsettled.reworked.edited
    have hkey := hs.represented.key h r hr
    have hclaimed : Sound limits Q (c.claimFetch r) (insert h F) L := by
      refine hs.edited hr hedited hsettled.represented
        (hs.stepped hinv hr (.fetchClaimed hready)) (fun k ↦ ?_) fun k ↦ ?_
      · by_cases hk : k = h <;> simp [hk]
      · by_cases hk : k = h
        · rw [if_pos hk, hk, hs.mem_lookingUp hr]
        · rw [if_neg hk]
    have hother {r' : Ref} (hr' : r' ∈ rest) : (c.claimFetch r).heap r' = c.heap r' := by
      rw [hedited.heap, Function.update_of_ne (ne_of_mem_of_not_mem hr' hnotin)]
    have hnext := ih hrest hclaimed fun r' hr' ↦ by
      rw [hedited.entries, hother hr']
      exact hlive r' (List.mem_cons_of_mem _ hr')
    have hkeys : (rest.map fun r' ↦ ((c.claimFetch r).heap r').infoHash) =
        rest.map fun r' ↦ (c.heap r').infoHash :=
      List.map_congr_left fun r' hr' ↦ by rw [hother hr']
    rw [hkeys] at hnext
    rw [List.map_cons, List.toFinset_cons, hkey, Finset.union_insert, ← Finset.insert_union]
    exact hnext

theorem fetchCandidates_spec (hc : c.Represented ∅) (limit : ℕ) : (c.fetchCandidates limit).Nodup ∧
    ∀ r ∈ c.fetchCandidates limit,
      ∃ h, c.entries.get? h = some r ∧ (c.heap r).readyToFetch := by
  refine ⟨nodup_takeFirst _ (nodup_values hc hc.fetchable_live), fun r hr ↦ ?_⟩
  obtain ⟨h, hh⟩ := OrderedMap.mem_values_iff.mp (mem_of_mem_takeFirst _ hr)
  rw [hc.fetchable h (Set.notMem_empty h)] at hh
  exact ⟨h, liveWhere_eq_some_iff.mp hh⟩

theorem nextFetchCandidates (hinv : EntryInvariant limits d Q) (hs : Sound limits Q c F L)
    (limit : ℕ) : Sound limits Q (c.nextFetchCandidates limit).1
      (F ∪ ((c.nextFetchCandidates limit).2.map Prod.fst).toFinset) L := by
  obtain ⟨hnodup, hlive⟩ := fetchCandidates_spec hs.represented limit
  have hfold := hs.foldl_claimFetch hinv _ hnodup hlive
  have hresult : (c.nextFetchCandidates limit).2.map Prod.fst =
      (c.fetchCandidates limit).map fun r ↦ (c.heap r).infoHash := by
    simp [TorrentCatalog.nextFetchCandidates, Function.comp_def]
  rw [hresult]
  exact hfold.assertInvariantsLocked.check _

theorem dropUnwrittenMetadataLocked (hinv : EntryInvariant limits d Q) (hs : Sound limits Q c F L)
    (r : Ref) : Sound limits Q (c.dropUnwrittenMetadataLocked r) F L := by
  obtain ⟨hrep, -, ⟨b, hsame⟩ | ⟨h, hr, hmeta, hedited⟩⟩ :=
    dropUnwrittenMetadataLocked_spec hs.represented r
  · rw [hsame] at hrep ⊢
    exact hs.of_heap hrep rfl rfl rfl
  · have hdone := hs.represented.stored_done h r hr hmeta
    refine hs.edited_same hr hedited hrep (hs.stepped hinv hr (.dropped hdone hmeta)) ?_ rfl
    simp [droppedEntry, hdone]

theorem dropOldestDocument (hinv : EntryInvariant limits d Q) (hs : Sound limits Q c F L) :
    Sound limits Q c.dropOldestDocument F L := by
  rcases c.dropOldestDocument_cases with heq | ⟨key, dropped, rest, -, heq⟩
  · rw [heq]
    exact hs
  · rw [heq]
    have hpopped : Sound limits Q { c with
        indexDocuments := rest
        indexDropped := c.indexDropped + 1 } F L := hs.of_heap hs.represented.of_eq rfl rfl rfl
    exact hpopped.dropUnwrittenMetadataLocked hinv dropped

theorem queueDocumentLocked (hinv : EntryInvariant limits d Q) (hs : Sound limits Q c F L)
    (r : Ref) : Sound limits Q (c.queueDocumentLocked r) F L := by
  have hqueued : Sound limits Q (c.documentQueued r) F L :=
    hs.of_heap (hs.represented.documentQueued r) rfl rfl rfl
  rcases c.queueDocumentLocked_cases r with heq | heq
  · rw [heq]
    exact hqueued
  · rw [heq]
    exact hqueued.dropOldestDocument hinv

theorem storeMetadata (hinv : EntryInvariant limits d Q) (hs : Sound limits Q c F L)
    {metadata : TorrentMetadata} (hclaim : d.claimedStores → metadata.infoHash ∈ F) (now : ℚ) :
    Sound limits Q (c.storeMetadata metadata now).1
      (if 0 ≤ now then F.erase metadata.infoHash else F) L := by
  let h := metadata.infoHash
  obtain ⟨hmid, hobtained, -, hlimits⟩ := getOrCreateLocked_spec hs.represented h now
  obtain ⟨hold, hF, hL⟩ := hs.obtained hinv hobtained
  obtain ⟨hedited, hrep, -⟩ := storeLocked_spec hmid hobtained.entry_live metadata
  have hQ := hinv.step _ _ (hmid.stored_done h _ hobtained.entry_live) hold
    (.stored metadata fun hd ↦ hF.mp (hclaim hd))
  have hstored : Sound limits Q
      ((c.getOrCreateLocked h now).1.storeLocked (c.getOrCreateLocked h now).2.1 metadata)
      (F.erase h) L := by
    refine hs.obtained_edited hobtained hlimits hmid hedited hrep hQ (fun k ↦ ?_) fun k ↦ ?_
    · by_cases hk : k = h <;> simp [hk, storedEntry]
    · by_cases hk : k = h
      · rw [if_pos hk, hk, hL]
        rfl
      · rw [if_neg hk]
  refine hs.guarded (fun hnow ↦ ?_) (fun hnow ↦ if_neg hnow) (fun _ ↦ rfl)
  rw [if_pos hnow]
  apply Sound.assertInvariantsLocked
  split
  · exact hstored.queueDocumentLocked hinv _
  · exact hstored

theorem markFetchFailed (hinv : EntryInvariant limits d Q) (hs : Sound limits Q c F L)
    (hclaim : h ∈ F) (triedPeers : List Address) (reason : String) (now : ℚ) :
    Sound limits Q (c.markFetchFailed h triedPeers reason now).1
      (if h.length = nodeIdLength ∧ 0 ≤ now then F.erase h else F) L := by
  obtain ⟨r, hr, hfetching⟩ := hs.live_of_fetching hclaim
  obtain ⟨entry, hsettled, hlookup, hstarted, houtcome⟩ :=
    settled_fetchFailedLocked hs.represented hr hfetching triedPeers reason now
  rw [hs.limits] at houtcome
  have hQ := hs.stepped hinv hr
    (.fetchFailed hfetching hsettled.reworked.record hlookup hstarted houtcome)
  have hstate : entry.fetchState ≠ .inProgress := by
    rcases houtcome with hf | ⟨hp, -⟩
    · simp [hf]
    · simp [hp]
  have hfailed : Sound limits Q (c.fetchFailedLocked r triedPeers reason now) (F.erase h) L := by
    refine hs.edited hr hsettled.reworked.edited hsettled.represented hQ (fun k ↦ ?_) fun k ↦ ?_
    · by_cases hk : k = h <;> simp [hk, hstate]
    · by_cases hk : k = h
      · rw [if_pos hk, hk, hlookup, hs.mem_lookingUp hr]
      · rw [if_neg hk]
  simp only [TorrentCatalog.markFetchFailed, hr]
  refine hs.guarded (fun hasserts ↦ ?_) (fun hasserts ↦ if_neg hasserts) (fun _ ↦ rfl)
  rw [if_pos hasserts]
  exact hfailed.assertInvariantsLocked

theorem releaseFetchClaim (hinv : EntryInvariant limits d Q) (hs : Sound limits Q c F L)
    (hclaim : h ∈ F) : Sound limits Q (c.releaseFetchClaim h)
      (if h.length = nodeIdLength then F.erase h else F) L := by
  obtain ⟨r, hr, hfetching⟩ := hs.live_of_fetching hclaim
  have hsettled := settled_releaseFetch hs.represented hr hfetching
  have hreleased : Sound limits Q ((c.setStateLocked r .pending).indexEntryLocked r)
      (F.erase h) L := by
    refine hs.edited hr hsettled.reworked.edited hsettled.represented
      (hs.stepped hinv hr (.fetchReleased hfetching)) (fun k ↦ ?_) fun k ↦ ?_
    · by_cases hk : k = h <;> simp [hk]
    · by_cases hk : k = h
      · rw [if_pos hk, hk, hs.mem_lookingUp hr]
      · rw [if_neg hk]
  simp only [TorrentCatalog.releaseFetchClaim, hr, hfetching, if_true]
  refine hs.guarded (fun hlength ↦ ?_) (fun hlength ↦ if_neg hlength) (fun _ ↦ rfl)
  rw [if_pos hlength]
  exact hreleased.assertInvariantsLocked

/-! ## Index thread -/

theorem enableIndexTracking (hs : Sound limits Q c F L) (maxPending : ℕ) (checkDatabase : Bool) :
    Sound limits Q (c.enableIndexTracking maxPending checkDatabase) F L :=
  hs.guarded (fun _ ↦ hs.of_heap hs.represented.of_eq rfl rfl rfl) (fun _ ↦ rfl) (fun _ ↦ rfl)

theorem drainDocumentsLocked (hs : Sound limits Q c F L) (limit : ℕ) :
    Sound limits Q (c.drainDocumentsLocked limit).1 F L := by
  induction limit generalizing c with
  | zero => exact hs
  | succ limit ih =>
    unfold TorrentCatalog.drainDocumentsLocked
    cases c.indexDocuments.popFirst with
    | none => exact hs
    | some popped =>
      obtain ⟨⟨key, r⟩, rest⟩ := popped
      have hpopped : Sound limits Q { c with indexDocuments := rest } F L :=
        hs.of_heap hs.represented.of_eq rfl rfl rfl
      dsimp only
      split
      · exact ih hpopped
      · exact hpopped.of_heap hpopped.represented.of_eq rfl rfl rfl

theorem drainOrphansLocked (hs : Sound limits Q c F L) (limit : ℕ) (orphans : List Ref) :
    Sound limits Q (c.drainOrphansLocked limit orphans).1 F L := by
  induction orphans generalizing limit with
  | nil => exact hs.of_heap hs.represented.of_eq rfl rfl rfl
  | cons r rest ih =>
    unfold TorrentCatalog.drainOrphansLocked
    dsimp only
    split
    · exact hs.of_heap hs.represented.of_eq rfl rfl rfl
    · split
      · split
        · exact ih (limit - 1)
        · exact ih limit
      · exact hs.of_heap hs.represented.of_eq rfl rfl rfl

/-- Taking the first counter out of the queue. -/
theorem popCounter (hs : Sound limits Q c F L) {key : Bytes} {rest : OrderedMap Bytes Ref}
    (hpop : c.indexCounters.popFirst = some ((key, r), rest)) :
    Sound limits Q { c with indexCounters := rest } F L := by
  refine hs.of_heap (hs.represented.of_counters fun k r' hr' ↦ Or.inl ?_) rfl rfl rfl
  have hrest := (OrderedMap.get?_of_popFirst hpop).2 k
  rw [show ({ c with indexCounters := rest } : TorrentCatalog).indexCounters = rest from rfl,
    hrest] at hr'
  split at hr'
  · cases hr'
  · exact hr'

theorem drainCountersLocked (hinv : EntryInvariant limits d Q) (hs : Sound limits Q c F L)
    (limit fuel : ℕ) : Sound limits Q (c.drainCountersLocked limit fuel).1 F L := by
  induction fuel generalizing c limit with
  | zero => exact hs
  | succ fuel ih =>
    unfold TorrentCatalog.drainCountersLocked
    split
    · exact hs
    · cases hpop : c.indexCounters.popFirst with
      | none => exact hs
      | some popped =>
        obtain ⟨⟨key, r⟩, rest⟩ := popped
        have hpopped := hs.popCounter hpop
        dsimp only
        split
        · refine ih ?_ limit
          split
          · exact hpopped.queueDocumentLocked hinv r
          · exact hpopped
        · split
          · split
            · exact ih hpopped (limit - 1)
            · exact hpopped.of_heap hpopped.represented.of_eq rfl rfl rfl
          · exact ih hpopped limit

theorem drainIndexCounters (hinv : EntryInvariant limits d Q) (hs : Sound limits Q c F L)
    (limit : ℕ) : Sound limits Q (c.drainIndexCounters limit).1 F L := by
  have horphans := hs.drainOrphansLocked limit c.orphanCounters
  unfold TorrentCatalog.drainIndexCounters
  dsimp only
  split
  · exact horphans
  · exact horphans.drainCountersLocked hinv _ _

theorem requeueIndexDocuments (hs : Sound limits Q c F L) (snapshots : List IndexSnapshot) :
    Sound limits Q (c.requeueIndexDocuments snapshots) F L := by
  have hfold : ∀ (queue : List IndexSnapshot) {c : TorrentCatalog}, Sound limits Q c F L →
      Sound limits Q (queue.foldl requeueDocumentLocked c) F L := by
    intro queue
    induction queue with
    | nil => exact fun hs ↦ hs
    | cons snapshot rest ih =>
      intro c hs
      refine ih ?_
      unfold requeueDocumentLocked
      split
      · exact hs
      · exact hs.of_heap hs.represented.of_eq rfl rfl rfl
  exact (hfold _ hs).check _

theorem requeueCounterLocked (hs : Sound limits Q c F L) (snapshot : IndexSnapshot) :
    Sound limits Q (c.requeueCounterLocked snapshot) F L := by
  unfold TorrentCatalog.requeueCounterLocked
  split
  next hr =>
    refine hs.of_heap (hs.represented.of_counters fun k r' hr' ↦ ?_) rfl rfl rfl
    rcases get?_setDefault_live hs.represented hr with hk | ⟨hk, hsome⟩
    · exact Or.inl (hk ▸ hr')
    · refine Or.inr ?_
      rw [hk, hr, ← hsome]
      exact hr'
  next => exact hs.of_heap hs.represented.of_eq rfl rfl rfl

theorem requeueIndexCounters (hs : Sound limits Q c F L) (snapshots : List IndexSnapshot) :
    Sound limits Q (c.requeueIndexCounters snapshots) F L := by
  unfold TorrentCatalog.requeueIndexCounters
  induction snapshots generalizing c with
  | nil => exact hs
  | cons snapshot rest ih => exact ih (hs.requeueCounterLocked snapshot)

theorem flushSnapshot (hinv : EntryInvariant limits d Q) (hs : Sound limits Q c F L)
    (snapshot : IndexSnapshot) : Sound limits Q (c.flushSnapshot snapshot) F L := by
  have hrep := hs.represented.flushSnapshot snapshot
  by_cases hlive : ∃ k, c.entries.get? k = some snapshot.entry
  · obtain ⟨k, hr⟩ := hlive
    exact hs.edited_same hr (edited_modify (hs.represented.key k _ hr) _ rfl rfl rfl rfl rfl) hrep
      (hs.stepped hinv hr .flushed) Iff.rfl rfl
  · exact hs.of_same hrep rfl rfl fun k r' hr' ↦
      Function.update_of_ne (fun heq ↦ hlive ⟨k, hr'.trans (congrArg some heq)⟩) _ _

theorem markCountersWritten (hinv : EntryInvariant limits d Q) (hs : Sound limits Q c F L)
    (snapshots : List IndexSnapshot) : Sound limits Q (c.markCountersWritten snapshots) F L := by
  have hfold : ∀ (queue : List IndexSnapshot) {c : TorrentCatalog}, Sound limits Q c F L →
      Sound limits Q (queue.foldl TorrentCatalog.flushSnapshot c) F L := by
    intro queue
    induction queue with
    | nil => exact fun hs ↦ hs
    | cons snapshot rest ih => exact fun hs ↦ ih (hs.flushSnapshot hinv snapshot)
  exact (hfold snapshots hs).check _

theorem setIndexBase (hinv : EntryInvariant limits d Q) (hs : Sound limits Q c F L) (h : Bytes)
    (base : IndexBase) : Sound limits Q (c.setIndexBase h base) F L := by
  refine hs.guarded (fun _ ↦ Sound.check ?_ _) (fun _ ↦ rfl) (fun _ ↦ rfl)
  cases hget : c.entries.get? h with
  | none => exact hs
  | some r =>
    have hedited := edited_modify (hs.represented.key h r hget)
      (fun entry ↦ { entry with indexBase := some base }) rfl rfl rfl rfl rfl
    exact hs.edited_same hget hedited (hedited.represented_same hs.represented hget
      (hs.represented.stored_done h r hget) (hs.represented.known_done h r hget) rfl rfl rfl)
      (hs.stepped hinv hget .based) Iff.rfl rfl

theorem markIndexWritten (hinv : EntryInvariant limits d Q) (hs : Sound limits Q c F L)
    (snapshot : IndexSnapshot) (base : IndexBase) :
    Sound limits Q (c.markIndexWritten snapshot base) F L := by
  have hflushed := hs.flushSnapshot hinv snapshot
  refine hs.guarded (fun hmeta ↦ Sound.check (Sound.assertInvariantsLocked ?_) _)
    (fun _ ↦ rfl) (fun _ ↦ rfl)
  split
  next hr =>
    have hlive : (c.flushSnapshot snapshot).entries.get? snapshot.infoHash = some snapshot.entry :=
      hr
    obtain ⟨hrep, hwritten⟩ := writtenLocked_spec hflushed.represented hlive hmeta base
    refine hflushed.edited_same hlive hwritten.edited hrep
      (hflushed.stepped hinv hlive (.written base hmeta)) ?_ ?_
    · unfold writtenEntry
      split <;> rfl
    · unfold writtenEntry
      split <;> rfl
  next => exact hflushed

theorem setDatabaseCheck (hinv : EntryInvariant limits d Q) (hs : Sound limits Q c F L)
    (enabled : Bool) : Sound limits Q (c.setDatabaseCheck enabled) F L := by
  have hfold : ∀ (waiting : List Ref) {c : TorrentCatalog}, waiting.Nodup →
      Sound limits Q c F L →
      (∀ r ∈ waiting, ∃ h, c.entries.get? h = some r ∧ (c.heap r).awaitsCheck) →
      Sound limits Q (waiting.foldl uncheckedLocked c) F L := by
    intro waiting
    induction waiting with
    | nil => exact fun _ hs _ ↦ hs
    | cons r rest ih =>
      intro c hnodup hs hlive
      obtain ⟨hnotin, hrest⟩ := List.nodup_cons.mp hnodup
      obtain ⟨h, hr, hawaits⟩ := hlive r List.mem_cons_self
      obtain ⟨hedited, hrep⟩ := settled_uncheckedLocked hs.represented hr
      refine ih hrest (hs.edited_same hr hedited hrep (hs.stepped hinv hr (.unchecked hawaits))
        Iff.rfl rfl) fun r' hr' ↦ ?_
      rw [hedited.entries, hedited.heap, Function.update_of_ne (ne_of_mem_of_not_mem hr' hnotin)]
      exact hlive r' (List.mem_cons_of_mem _ hr')
  have hset : Sound limits Q { c with checkDatabase := enabled } F L :=
    hs.of_heap hs.represented.of_eq rfl rfl rfl
  apply Sound.check
  apply Sound.assertInvariantsLocked
  split
  · exact hset
  · refine hfold _ (nodup_values hset.represented hset.represented.needsCheck_live) hset
      fun r hr ↦ ?_
    obtain ⟨h, hh⟩ := OrderedMap.mem_values_iff.mp hr
    rw [hset.represented.needsCheck h (Set.notMem_empty h)] at hh
    exact ⟨h, liveWhere_eq_some_iff.mp hh⟩

theorem applyCheckLocked (hinv : EntryInvariant limits d Q) (hs : Sound limits Q c F L)
    (found : List (Bytes × IndexBase)) (h : Bytes) :
    Sound limits Q (c.applyCheckLocked found h) F L := by
  cases hget : c.needsCheck.get? h with
  | none =>
    rw [applyCheckLocked_of_none found hget]
    exact hs
  | some r =>
    obtain ⟨hrep, hchecked⟩ := applyCheckLocked_of_some found hs.represented hget
    obtain ⟨hr, hawaits⟩ := liveWhere_eq_some_iff.mp
      ((hs.represented.needsCheck h (Set.notMem_empty h)).symm.trans hget)
    have hpending : (c.heap r).fetchState = .pending := by
      simp only [TorrentEntry.awaitsCheck, decide_eq_true_eq] at hawaits
      exact hawaits.1
    refine hs.edited_same hr hchecked.edited hrep (hs.stepped hinv hr (.checked hawaits _)) ?_ ?_
    · unfold checkedEntry
      split <;> simp [hpending]
    · unfold checkedEntry
      split <;> rfl

theorem applyDatabaseChecks (hinv : EntryInvariant limits d Q) (hs : Sound limits Q c F L)
    (hashes : List Bytes) (found : List (Bytes × IndexBase)) :
    Sound limits Q (c.applyDatabaseChecks hashes found) F L := by
  have hfold : ∀ (queue : List Bytes) {c : TorrentCatalog}, Sound limits Q c F L →
      Sound limits Q (queue.foldl (TorrentCatalog.applyCheckLocked found) c) F L := by
    intro queue
    induction queue with
    | nil => exact fun hs ↦ hs
    | cons first rest ih => exact fun hs ↦ ih (hs.applyCheckLocked hinv found first)
  exact hs.guarded (fun _ ↦ (hfold hashes hs).assertInvariantsLocked.check _) (fun _ ↦ rfl)
    (fun _ ↦ rfl)

theorem resetIndexBase (hinv : EntryInvariant limits d Q) (hs : Sound limits Q c F L) {h : Bytes}
    (hopen : d.openResets → ∀ r ∈ c.entries.get? h, ¬ (c.heap r).resetStrands limits.maxLookups) :
    Sound limits Q (c.resetIndexBase h) F L := by
  refine hs.guarded (fun _ ↦ Sound.assertInvariantsLocked ?_) (fun _ ↦ rfl) (fun _ ↦ rfl)
  cases hget : c.entries.get? h with
  | none => exact hs
  | some r =>
    obtain ⟨mid, hedited, hrep, -, -, -, -, -, -, heq⟩ := resetLocked_spec hs.represented hget
    have hstep : EntryStep limits d (c.heap r) (resetEntry (c.heap r)) :=
      .reset fun hd ↦ hopen hd r hget
    have hmid : Sound limits Q mid F L := by
      refine hs.edited_same hget hedited hrep (hs.stepped hinv hget hstep) ?_ ?_
      · unfold resetEntry
        dsimp only
        split
        · by_cases hdone : (c.heap r).fetchState = .done <;> simp [hdone]
        · rfl
      · unfold resetEntry
        dsimp only
        split <;> rfl
    dsimp only
    rw [heq]
    split
    · exact hmid.queueDocumentLocked hinv r
    · exact hmid

end Sound

/-! ## Sessions -/

/-- Every permitted operation keeps a session sound. -/
theorem Session.exec_sound {limits : CatalogLimits} {d : Discipline} {Q : TorrentEntry → Prop}
    (hinv : EntryInvariant limits d Q) {s : Session}
    (hs : Sound limits Q s.catalog s.fetchClaims s.lookupClaims) (op : CatalogOp)
    (hop : s.permits d op) :
    Sound limits Q (s.exec op).catalog (s.exec op).fetchClaims (s.exec op).lookupClaims := by
  have hsettled := hs.settle
  cases op with
  | recordHash infoHash source peer now => exact hsettled.recordHash hinv infoHash source peer now
  | recordHashes infoHashes source now => exact hsettled.recordHashes hinv infoHashes source now
  | addPeers infoHash peers => exact hsettled.addPeers hinv infoHash peers
  | hashesNeedingPeers limit now => exact hsettled.hashesNeedingPeers hinv limit now
  | releaseLookupClaim infoHash => exact hsettled.releaseLookupClaim hinv hop
  | addLookupResult infoHash peers now => exact hsettled.addLookupResult hinv hop peers now
  | nextFetchCandidates limit => exact hsettled.nextFetchCandidates hinv limit
  | storeMetadata metadata now => exact hsettled.storeMetadata hinv hop now
  | markFetchFailed infoHash triedPeers reason now =>
    exact hsettled.markFetchFailed hinv hop triedPeers reason now
  | releaseFetchClaim infoHash => exact hsettled.releaseFetchClaim hinv hop
  | enableIndexTracking maxPending checkDatabase =>
    exact hsettled.enableIndexTracking maxPending checkDatabase
  | drainIndexDocuments limit => exact hsettled.drainDocumentsLocked limit
  | drainIndexCounters limit => exact hsettled.drainIndexCounters hinv limit
  | requeueIndexDocuments snapshots => exact hsettled.requeueIndexDocuments snapshots
  | requeueIndexCounters snapshots => exact hsettled.requeueIndexCounters snapshots
  | markCountersWritten snapshots => exact hsettled.markCountersWritten hinv snapshots
  | setIndexBase infoHash base => exact hsettled.setIndexBase hinv infoHash base
  | markIndexWritten snapshot base => exact hsettled.markIndexWritten hinv snapshot base
  | setDatabaseCheck enabled => exact hsettled.setDatabaseCheck hinv enabled
  | applyDatabaseChecks infoHashes found =>
    exact hsettled.applyDatabaseChecks hinv infoHashes found
  | resetIndexBase infoHash =>
    refine hsettled.resetIndexBase hinv fun hd ↦ ?_
    rw [← hs.limits]
    exact hop hd

theorem Session.new_sound {limits : CatalogLimits} {Q : TorrentEntry → Prop} :
    Sound limits Q (Session.new limits).catalog (Session.new limits).fetchClaims
      (Session.new limits).lookupClaims where
  represented := TorrentCatalog.represented_new limits
  limits := rfl
  fetching := fun h ↦ by
    simp [Session.new, TorrentCatalog.new, TorrentCatalog.liveWhere]
  lookingUp := fun h ↦ by
    simp [Session.new, TorrentCatalog.new, TorrentCatalog.liveWhere]
  entry := fun h r hr ↦ by simp [Session.new, TorrentCatalog.new] at hr

/-- Every disciplined run of a new catalog is sound. -/
theorem Session.run_sound {limits : CatalogLimits} {d : Discipline} {Q : TorrentEntry → Prop}
    (hinv : EntryInvariant limits d Q) {ops : List CatalogOp} {s : Session}
    (hops : catalogMachine.Along (fun s op ↦ s.permits d op) (.new limits) ops)
    (hrun : catalogMachine.run (.new limits) ops = some s) :
    Sound limits Q s.catalog s.fetchClaims s.lookupClaims := by
  refine catalogMachine.run_guarded_invariant
    (I := fun s ↦ Sound limits Q s.catalog s.fetchClaims s.lookupClaims) ?_ new_sound hops hrun
  intro s op s' hs hop hstep
  simp only [catalogMachine, Option.some.injEq] at hstep
  exact hstep ▸ s.exec_sound hinv hs op hop

end DhtScraper
