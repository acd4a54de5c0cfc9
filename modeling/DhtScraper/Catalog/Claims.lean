import DhtScraper.Catalog.Exactness

/-!
# Claims are exclusive and survive eviction

Entries enter the catalog when a hash is recorded or stored and leave it by eviction only; every
other operation keeps the table of entries as it is.  Eviction spares claimed entries, so from the
moment a hash is handed out its entry object stays in the catalog, and the hash is not handed out
again, until the holder of the claim reports back.
-/

namespace DhtScraper

open Library

namespace TorrentCatalog

variable {c : TorrentCatalog}

/-! ## Operations that keep the table of entries -/

theorem entries_guarded {p : Prop} [Decidable p] {body : TorrentCatalog}
    (hbody : body.entries = c.entries) : (c.guarded p body).entries = c.entries := by
  unfold guarded
  split
  · exact hbody
  · rfl

/-- Folding a helper that keeps the entries keeps them. -/
theorem entries_foldl {α : Type} (f : TorrentCatalog → α → TorrentCatalog)
    (hf : ∀ c x, (f c x).entries = c.entries) (l : List α) (c : TorrentCatalog) :
    (l.foldl f c).entries = c.entries := foldl_keeps TorrentCatalog.entries f hf l c

theorem entries_addPeersLocked (r : Ref) (peers : List Address) (c : TorrentCatalog) :
    (c.addPeersLocked r peers).1.entries = c.entries := by
  induction peers generalizing c with
  | nil => rfl
  | cons peer rest ih => exact ih (c.addPeerLocked r peer).1

theorem entries_dropUnwrittenMetadataLocked (c : TorrentCatalog) (r : Ref) :
    (c.dropUnwrittenMetadataLocked r).entries = c.entries := by
  unfold dropUnwrittenMetadataLocked
  dsimp only
  split
  · split <;> rfl
  · rfl

theorem entries_queueDocumentLocked (c : TorrentCatalog) (r : Ref) :
    (c.queueDocumentLocked r).entries = c.entries := by
  rcases c.queueDocumentLocked_cases r with heq | heq
  · rw [heq]
    rfl
  · rw [heq]
    rcases (c.documentQueued r).dropOldestDocument_cases with hsame | ⟨_, dropped, rest, -, hdrop⟩
    · rw [hsame]
      rfl
    · rw [hdrop, entries_dropUnwrittenMetadataLocked]
      rfl

theorem entries_noPeersFoundLocked (c : TorrentCatalog) (r : Ref) (now : ℚ) :
    (c.noPeersFoundLocked r now).entries = c.entries := by
  unfold noPeersFoundLocked
  dsimp only
  split <;> rfl

theorem entries_lookupResultLocked (c : TorrentCatalog) (r : Ref) (peers : List Address) (now : ℚ) :
    (c.lookupResultLocked r peers now).entries = c.entries := by
  have hadded := entries_addPeersLocked r peers ((c.endLookupLocked r).modify r fun entry ↦
    { entry with lookupsStarted := entry.lookupsStarted + 1 })
  unfold lookupResultLocked
  simp only [indexEntryLocked, TorrentCatalog.check]
  split
  · exact hadded
  · exact (entries_noPeersFoundLocked _ _ _).trans hadded

theorem entries_drainDocumentsLocked (limit : ℕ) (c : TorrentCatalog) :
    (c.drainDocumentsLocked limit).1.entries = c.entries := by
  induction limit generalizing c with
  | zero => rfl
  | succ limit ih =>
    unfold drainDocumentsLocked
    cases c.indexDocuments.popFirst with
    | none => rfl
    | some popped =>
      dsimp only
      split
      · exact ih _
      · rfl

theorem entries_drainOrphansLocked (orphans : List Ref) (limit : ℕ) (c : TorrentCatalog) :
    (c.drainOrphansLocked limit orphans).1.entries = c.entries := by
  induction orphans generalizing limit with
  | nil => rfl
  | cons r rest ih =>
    unfold drainOrphansLocked
    dsimp only
    split
    · rfl
    · split
      · split
        · exact ih (limit - 1)
        · exact ih limit
      · rfl

theorem entries_drainCountersLocked (fuel limit : ℕ) (c : TorrentCatalog) :
    (c.drainCountersLocked limit fuel).1.entries = c.entries := by
  induction fuel generalizing c limit with
  | zero => rfl
  | succ fuel ih =>
    unfold drainCountersLocked
    split
    · rfl
    · cases c.indexCounters.popFirst with
      | none => rfl
      | some popped =>
        obtain ⟨⟨key, r⟩, rest⟩ := popped
        dsimp only
        split
        · rw [ih]
          split
          · exact entries_queueDocumentLocked _ r
          · rfl
        · split
          · split
            · exact ih (limit - 1) _
            · rfl
          · exact ih limit _

theorem entries_drainIndexCounters (c : TorrentCatalog) (limit : ℕ) :
    (c.drainIndexCounters limit).1.entries = c.entries := by
  have horphans := entries_drainOrphansLocked c.orphanCounters limit c
  unfold drainIndexCounters
  dsimp only
  split
  · exact horphans
  · exact (entries_drainCountersLocked _ _ _).trans horphans

theorem entries_applyCheckLocked (found : List (Bytes × IndexBase)) (c : TorrentCatalog)
    (h : Bytes) : (c.applyCheckLocked found h).entries = c.entries := by
  unfold applyCheckLocked
  dsimp only
  split
  · rfl
  · split
    · rfl
    · simp only [indexEntryLocked, TorrentCatalog.check]
      split
      · split <;> rfl
      · rfl

theorem entries_resetLocked (c : TorrentCatalog) (r : Ref) :
    (c.resetLocked r).entries = c.entries := by
  unfold resetLocked
  split
  · exact entries_queueDocumentLocked c r
  · split
    · simp only [indexEntryLocked, TorrentCatalog.check]
      split <;> rfl
    · rfl

theorem entries_markIndexWritten (c : TorrentCatalog) (snapshot : IndexSnapshot)
    (base : IndexBase) : (c.markIndexWritten snapshot base).entries = c.entries := by
  refine entries_guarded ?_
  simp only [assertInvariantsLocked, TorrentCatalog.check]
  split
  · unfold writtenLocked
    dsimp only
    split <;> rfl
  · rfl

/-- The operations that neither record nor store. -/
def keepsEntries : CatalogOp → Bool
  | .recordHash .. | .recordHashes .. | .storeMetadata .. => false
  | _ => true

/-- Only recording and storing change the table of entries. -/
theorem entries_apply (c : TorrentCatalog) {op : CatalogOp} (hop : keepsEntries op) :
    (c.apply op).entries = c.entries := by
  cases op with
  | recordHash | recordHashes | storeMetadata => cases hop
  | addPeers infoHash peers =>
    simp only [apply, addPeers]
    split
    · exact entries_guarded (entries_addPeersLocked _ _ _)
    · exact entries_guarded rfl
  | hashesNeedingPeers limit now =>
    simp only [apply, hashesNeedingPeers]
    split
    · exact entries_foldl claimLookup (fun _ _ ↦ rfl) _ c
    · rfl
  | releaseLookupClaim infoHash =>
    refine entries_guarded ?_
    simp only [TorrentCatalog.check]
    split
    · split <;> rfl
    · rfl
  | addLookupResult infoHash peers now =>
    refine entries_guarded ?_
    simp only [assertInvariantsLocked, TorrentCatalog.check]
    split
    · exact entries_lookupResultLocked _ _ _ _
    · rfl
  | nextFetchCandidates limit => exact entries_foldl claimFetch (fun _ _ ↦ rfl) _ c
  | markFetchFailed infoHash triedPeers reason now =>
    simp only [apply, markFetchFailed]
    split
    · exact entries_guarded (entries_foldl (fun c peer ↦ c.forgetPeerLocked _ peer)
        (fun _ _ ↦ rfl) triedPeers c)
    · exact entries_guarded rfl
  | releaseFetchClaim infoHash =>
    refine entries_guarded ?_
    simp only [assertInvariantsLocked, TorrentCatalog.check]
    split
    · split <;> rfl
    · rfl
  | enableIndexTracking maxPending checkDatabase => exact entries_guarded rfl
  | drainIndexDocuments limit => exact entries_drainDocumentsLocked limit c
  | drainIndexCounters limit => exact entries_drainIndexCounters c limit
  | requeueIndexDocuments snapshots =>
    refine entries_foldl requeueDocumentLocked (fun c snapshot ↦ ?_) snapshots.reverse c
    unfold requeueDocumentLocked
    split <;> rfl
  | requeueIndexCounters snapshots =>
    refine entries_foldl requeueCounterLocked (fun c snapshot ↦ ?_) snapshots c
    unfold requeueCounterLocked
    split <;> rfl
  | markCountersWritten snapshots => exact entries_foldl flushSnapshot (fun _ _ ↦ rfl) snapshots c
  | setIndexBase infoHash base =>
    refine entries_guarded ?_
    simp only [TorrentCatalog.check]
    split <;> rfl
  | markIndexWritten snapshot base => exact entries_markIndexWritten c snapshot base
  | setDatabaseCheck enabled =>
    simp only [apply, setDatabaseCheck, assertInvariantsLocked, TorrentCatalog.check]
    split
    · rfl
    · exact entries_foldl uncheckedLocked (fun _ _ ↦ rfl) _ { c with checkDatabase := enabled }
  | applyDatabaseChecks infoHashes found =>
    exact entries_guarded (entries_foldl (applyCheckLocked found) (entries_applyCheckLocked found)
      infoHashes c)
  | resetIndexBase infoHash =>
    refine entries_guarded ?_
    simp only [assertInvariantsLocked, TorrentCatalog.check]
    split
    · exact entries_resetLocked _ _
    · rfl

end TorrentCatalog

/-! ## Claimed entries stay -/

namespace Sound

open TorrentCatalog

variable {limits : CatalogLimits} {d : Discipline} {Q : TorrentEntry → Prop}
  {c : TorrentCatalog} {F L : Finset Bytes} {h : Bytes} {r : Ref}

/-- An entry with a claim is no victim of an eviction. -/
theorem not_evictable (hs : Sound limits Q c F L) (hclaim : h ∈ F ∨ h ∈ L)
    (hr : c.entries.get? h = some r) : ¬ (c.heap r).isEvictable := by
  intro hfree
  simp only [TorrentEntry.isEvictable, decide_eq_true_eq] at hfree
  rcases hclaim with hf | hl
  · exact hfree.1 ((hs.mem_fetching hr).mp hf)
  · exact hfree.2 ((hs.mem_lookingUp hr).mp hl)

theorem keeps_evictLocked (hs : Sound limits Q c F L) (hclaim : h ∈ F ∨ h ∈ L)
    (hr : c.entries.get? h = some r) : c.evictLocked.1.entries.get? h = some r := by
  refine (evictLocked_induction
    (I := fun c ↦ Sound limits Q c F L ∧ c.entries.get? h = some r) hs.represented ⟨hs, hr⟩
    ?_ ?_).1.2
  · rintro c k victim _ ⟨hs, hr⟩ hvictim hfree
    have hevicted := evicted_evictOneLocked (hs.represented.key k victim hvictim)
    refine ⟨hs.evicted hevicted hvictim hfree, hevicted.live_iff.mpr ⟨fun hk ↦ ?_, hr⟩⟩
    rw [← hk, hr, Option.some.injEq] at hvictim
    exact hs.not_evictable hclaim hr (hvictim ▸ hfree)
  · rintro c n b ⟨hs, hr⟩
    exact ⟨hs.of_heap hs.represented.of_eq rfl rfl rfl, hr⟩

theorem keeps_recordLocked (hinv : EntryInvariant limits d Q) (hs : Sound limits Q c F L)
    (hclaim : h ∈ F ∨ h ∈ L) (hr : c.entries.get? h = some r) (k : Bytes) (source : Source)
    (peer : Option Address) (moment : ℚ) :
    (c.recordLocked k source peer moment).1.entries.get? h = some r := by
  obtain ⟨-, mid, entry, -, hobtained, -, -, hsighted⟩ :=
    sightLocked_spec hs.represented k source peer moment
  have hlive : (c.sightLocked k source peer moment).1.entries.get? h = some r := by
    rw [hsighted.edited.entries]
    exact (hobtained.keeps hs.represented.allocated hr).1
  simp only [TorrentCatalog.recordLocked, TorrentCatalog.check]
  split
  · exact (hs.sightLocked hinv k source peer moment).keeps_evictLocked hclaim hlive
  · exact hlive

theorem keeps_recordEachLocked (hinv : EntryInvariant limits d Q) (hs : Sound limits Q c F L)
    (hclaim : h ∈ F ∨ h ∈ L) (hr : c.entries.get? h = some r) (source : Source) (now : ℚ)
    (hashes : List Bytes) : (c.recordEachLocked source now hashes).1.entries.get? h = some r := by
  induction hashes generalizing c with
  | nil => exact hr
  | cons first rest ih =>
    exact ih (hs.recordLocked hinv first source none now)
      (hs.keeps_recordLocked hinv hclaim hr first source none now)

theorem keeps_storeMetadata (hs : Sound limits Q c F L) (hr : c.entries.get? h = some r)
    (metadata : TorrentMetadata) (now : ℚ) :
    (c.storeMetadata metadata now).1.entries.get? h = some r := by
  obtain ⟨hmid, hobtained, -, -⟩ := getOrCreateLocked_spec hs.represented metadata.infoHash now
  obtain ⟨hedited, -, -⟩ := storeLocked_spec hmid hobtained.entry_live metadata
  have hstored : (((c.getOrCreateLocked metadata.infoHash now).1.storeLocked
      (c.getOrCreateLocked metadata.infoHash now).2.1 metadata).entries.get? h) = some r := by
    rw [hedited.entries]
    exact (hobtained.keeps hs.represented.allocated hr).1
  simp only [TorrentCatalog.storeMetadata, TorrentCatalog.guarded]
  split
  · simp only [TorrentCatalog.assertInvariantsLocked, TorrentCatalog.check]
    split
    · rw [entries_queueDocumentLocked]
      exact hstored
    · exact hstored
  · exact hr

end Sound

/-- No operation takes a claimed entry out of the catalog. -/
theorem Session.exec_keeps {limits : CatalogLimits} {d : Discipline} {Q : TorrentEntry → Prop}
    (hinv : EntryInvariant limits d Q) {s : Session}
    (hs : Sound limits Q s.catalog s.fetchClaims s.lookupClaims) {h : Bytes} {r : Ref}
    (hclaim : h ∈ s.fetchClaims ∨ h ∈ s.lookupClaims) (hr : s.catalog.entries.get? h = some r)
    (op : CatalogOp) : (s.exec op).catalog.entries.get? h = some r := by
  have hsettled := hs.settle
  have hlive : s.catalog.settle.entries.get? h = some r := hr
  by_cases hop : TorrentCatalog.keepsEntries op
  · rw [show (s.exec op).catalog.entries = s.catalog.settle.entries from
      TorrentCatalog.entries_apply _ hop]
    exact hlive
  · cases op with
    | recordHash infoHash source peer now =>
      have hrecorded := hsettled.keeps_recordLocked hinv hclaim hlive infoHash source peer now
      simp only [exec, TorrentCatalog.apply, TorrentCatalog.recordHash, TorrentCatalog.guarded]
      split
      · exact hrecorded
      · exact hlive
    | recordHashes infoHashes source now =>
      have hrecorded := hsettled.keeps_recordEachLocked hinv hclaim hlive source now infoHashes
      simp only [exec, TorrentCatalog.apply, TorrentCatalog.recordHashes, TorrentCatalog.guarded]
      split
      · exact hrecorded
      · exact hlive
    | storeMetadata metadata now => exact hsettled.keeps_storeMetadata hlive metadata now
    | _ => exact absurd rfl hop

/-! ## Exclusive claims -/

/-- The claimant of a fetch reports back. -/
def CatalogOp.reportsFetch (h : Bytes) : CatalogOp → Bool
  | .storeMetadata metadata _ => metadata.infoHash = h
  | .markFetchFailed infoHash _ _ _ => infoHash = h
  | .releaseFetchClaim infoHash => infoHash = h
  | _ => false

/-- The claimant of a lookup reports back. -/
def CatalogOp.reportsLookup (h : Bytes) : CatalogOp → Bool
  | .addLookupResult infoHash _ _ => infoHash = h
  | .releaseLookupClaim infoHash => infoHash = h
  | _ => false

theorem Session.fetchClaims_kept {s : Session} {h : Bytes} (hh : h ∈ s.fetchClaims)
    {op : CatalogOp} (hop : ¬ op.reportsFetch h) : h ∈ (s.exec op).fetchClaims := by
  cases op <;> simp only [exec, nextFetchClaims] <;> try exact hh
  case nextFetchCandidates limit => exact Finset.mem_union_left _ hh
  all_goals
    have hne := hop
    simp only [CatalogOp.reportsFetch, decide_eq_true_eq] at hne
    split
    · exact Finset.mem_erase.mpr ⟨Ne.symm hne, hh⟩
    · exact hh

theorem Session.lookupClaims_kept {s : Session} {h : Bytes} (hh : h ∈ s.lookupClaims)
    {op : CatalogOp} (hop : ¬ op.reportsLookup h) : h ∈ (s.exec op).lookupClaims := by
  cases op <;> simp only [exec, nextLookupClaims] <;> try exact hh
  case hashesNeedingPeers limit now => exact Finset.mem_union_left _ hh
  all_goals
    have hne := hop
    simp only [CatalogOp.reportsLookup, decide_eq_true_eq] at hne
    split
    · exact Finset.mem_erase.mpr ⟨Ne.symm hne, hh⟩
    · exact hh

/-- Nothing is assumed of single entries. -/
theorem anyEntry_invariant (limits : CatalogLimits) (d : Discipline) :
    EntryInvariant limits d fun _ ↦ True := ⟨fun _ _ _ ↦ trivial, fun _ _ _ _ _ ↦ trivial⟩

namespace Sound

open TorrentCatalog

variable {limits : CatalogLimits} {Q : TorrentEntry → Prop} {c : TorrentCatalog}
  {F L : Finset Bytes} {h : Bytes}

/-- A fetch candidate is live, pending and ready. -/
theorem ready_of_candidate (hs : Sound limits Q c F L) {limit : ℕ}
    (hh : h ∈ (c.nextFetchCandidates limit).2.map Prod.fst) :
    ∃ r, c.entries.get? h = some r ∧ (c.heap r).readyToFetch := by
  have hresult : (c.nextFetchCandidates limit).2.map Prod.fst =
      (c.fetchCandidates limit).map fun r ↦ (c.heap r).infoHash := by
    simp [TorrentCatalog.nextFetchCandidates, Function.comp_def]
  rw [hresult] at hh
  obtain ⟨r, hr, hkey⟩ := List.mem_map.mp hh
  obtain ⟨k, hlive, hready⟩ := (fetchCandidates_spec hs.represented limit).2 r hr
  have hk : k = h := (hs.represented.key k r hlive).symm.trans hkey
  exact ⟨r, hk ▸ hlive, hready⟩

theorem free_of_candidate (hs : Sound limits Q c F L) {limit : ℕ} {now : ℚ}
    (hh : h ∈ (c.hashesNeedingPeers limit now).2) :
    ∃ r, c.entries.get? h = some r ∧ (c.heap r).lookupInProgress = false := by
  unfold TorrentCatalog.hashesNeedingPeers at hh
  by_cases hnow : 0 ≤ now
  · rw [if_pos hnow] at hh
    obtain ⟨r, hr, hkey⟩ := List.mem_map.mp hh
    have hmem := (List.mem_filter.mp (List.mem_of_mem_take hr)).1
    obtain ⟨k, hk⟩ := OrderedMap.mem_values_iff.mp (List.mem_reverse.mp hmem)
    rw [hs.represented.needsLookup k (Set.notMem_empty k)] at hk
    obtain ⟨hlive, hawaits⟩ := liveWhere_eq_some_iff.mp hk
    simp only [TorrentEntry.awaitsLookup, decide_eq_true_eq, Bool.not_eq_true] at hawaits
    have hk : k = h := (hs.represented.key k r hlive).symm.trans hkey
    exact ⟨r, hk ▸ hlive, hawaits.2.2.2.1⟩
  · rw [if_neg hnow] at hh
    cases hh

end Sound

/-- A session in which the entry `r` of `h` is held by a fetch. -/
def Session.HoldsFetch (s : Session) (h : Bytes) (r : Ref) : Prop :=
  s.catalog.entries.get? h = some r ∧ (s.catalog.heap r).fetchState = .inProgress ∧
    ∀ limit, h ∉ (s.catalog.settle.nextFetchCandidates limit).2.map Prod.fst

/-- A session in which the entry `r` of `h` is held by a lookup. -/
def Session.HoldsLookup (s : Session) (h : Bytes) (r : Ref) : Prop :=
  s.catalog.entries.get? h = some r ∧ (s.catalog.heap r).lookupInProgress ∧
    ∀ limit now, h ∉ (s.catalog.settle.hashesNeedingPeers limit now).2

/-- Whatever the threads do, a hash that was handed out for a fetch or for a lookup belongs to its
claimant, with the same entry object, until the claimant reports back. -/
theorem claims_exclusive (limits : CatalogLimits) (d : Discipline) (ops : List CatalogOp)
    (s : Session) (hops : catalogMachine.Along (fun s op ↦ s.permits d op) (.new limits) ops)
    (hrun : catalogMachine.run (.new limits) ops = some s) (limit : ℕ) (now : ℚ) (h : Bytes) :
    (h ∈ (s.catalog.settle.nextFetchCandidates limit).2.map Prod.fst →
      ∃ r, s.catalog.entries.get? h = some r ∧ ∀ later s',
        catalogMachine.Along (fun s op ↦ s.permits d op ∧ ¬ op.reportsFetch h)
          (s.exec (.nextFetchCandidates limit)) later →
        catalogMachine.run (s.exec (.nextFetchCandidates limit)) later = some s' →
        s'.HoldsFetch h r) ∧
    (h ∈ (s.catalog.settle.hashesNeedingPeers limit now).2 →
      ∃ r, s.catalog.entries.get? h = some r ∧ ∀ later s',
        catalogMachine.Along (fun s op ↦ s.permits d op ∧ ¬ op.reportsLookup h)
          (s.exec (.hashesNeedingPeers limit now)) later →
        catalogMachine.run (s.exec (.hashesNeedingPeers limit now)) later = some s' →
        s'.HoldsLookup h r) := by
  have hinv := anyEntry_invariant limits d
  have hs := Session.run_sound hinv hops hrun
  constructor
  · intro hh
    obtain ⟨r, hr, -⟩ := hs.settle.ready_of_candidate hh
    refine ⟨r, hr, fun later s' hlater hrun' ↦ ?_⟩
    have hclaimed := s.exec_sound hinv hs (.nextFetchCandidates limit) trivial
    have hstart : (s.exec (.nextFetchCandidates limit)).catalog.entries.get? h = some r := by
      rw [show (s.exec (.nextFetchCandidates limit)).catalog.entries = s.catalog.entries from
        TorrentCatalog.entries_apply s.catalog.settle rfl]
      exact hr
    have hmem : h ∈ (s.exec (.nextFetchCandidates limit)).fetchClaims :=
      Finset.mem_union_right _ (List.mem_toFinset.mpr hh)
    obtain ⟨hs', hr', hmem'⟩ := catalogMachine.run_guarded_invariant
      (I := fun s ↦ Sound limits (fun _ ↦ True) s.catalog s.fetchClaims s.lookupClaims ∧
        s.catalog.entries.get? h = some r ∧ h ∈ s.fetchClaims)
      (fun s op s' hI hop hstep ↦ by
        simp only [catalogMachine, Option.some.injEq] at hstep
        exact hstep ▸ ⟨s.exec_sound hinv hI.1 op hop.1,
          s.exec_keeps hinv hI.1 (Or.inl hI.2.2) hI.2.1 op,
          Session.fetchClaims_kept hI.2.2 hop.2⟩) ⟨hclaimed, hstart, hmem⟩ hlater hrun'
    have hbusy := (hs'.mem_fetching hr').mp hmem'
    refine ⟨hr', hbusy, fun limit' hagain ↦ ?_⟩
    obtain ⟨r', hlive, hready⟩ := hs'.settle.ready_of_candidate hagain
    have hpending := (of_decide_eq_true hready).1
    have heq : r' = r := Option.some.inj (hlive.symm.trans hr')
    rw [heq] at hpending
    exact absurd (hpending.symm.trans hbusy) (by decide)
  · intro hh
    obtain ⟨r, hr, -⟩ := hs.settle.free_of_candidate hh
    refine ⟨r, hr, fun later s' hlater hrun' ↦ ?_⟩
    have hclaimed := s.exec_sound hinv hs (.hashesNeedingPeers limit now) trivial
    have hstart : (s.exec (.hashesNeedingPeers limit now)).catalog.entries.get? h = some r := by
      rw [show (s.exec (.hashesNeedingPeers limit now)).catalog.entries = s.catalog.entries from
        TorrentCatalog.entries_apply s.catalog.settle rfl]
      exact hr
    have hmem : h ∈ (s.exec (.hashesNeedingPeers limit now)).lookupClaims :=
      Finset.mem_union_right _ (List.mem_toFinset.mpr hh)
    obtain ⟨hs', hr', hmem'⟩ := catalogMachine.run_guarded_invariant
      (I := fun s ↦ Sound limits (fun _ ↦ True) s.catalog s.fetchClaims s.lookupClaims ∧
        s.catalog.entries.get? h = some r ∧ h ∈ s.lookupClaims)
      (fun s op s' hI hop hstep ↦ by
        simp only [catalogMachine, Option.some.injEq] at hstep
        exact hstep ▸ ⟨s.exec_sound hinv hI.1 op hop.1,
          s.exec_keeps hinv hI.1 (Or.inr hI.2.2) hI.2.1 op,
          Session.lookupClaims_kept hI.2.2 hop.2⟩) ⟨hclaimed, hstart, hmem⟩ hlater hrun'
    have hbusy := (hs'.mem_lookingUp hr').mp hmem'
    refine ⟨hr', hbusy, fun limit' now' hagain ↦ ?_⟩
    obtain ⟨r', hlive, hfree⟩ := hs'.settle.free_of_candidate hagain
    have heq : r' = r := Option.some.inj (hlive.symm.trans hr')
    rw [heq] at hfree
    exact absurd (hfree.symm.trans hbusy) (by decide)

/-- A recorded hash whose lookup found a peer. -/
def lookedUpOps : List CatalogOp :=
  [.recordHash (sampleHash 1) .getPeers none 0, .hashesNeedingPeers 1 0,
    .addLookupResult (sampleHash 1) [samplePeer] 0]

/-- A second hash comes in while the only entry is claimed, and is evicted at once. -/
theorem claims_exclusive_oneEntry :
    (∃ s s', catalogMachine.run (.new oneEntry) lookedUpOps = some s ∧
      catalogMachine.run (s.exec (.nextFetchCandidates 1))
        [.recordHash (sampleHash 2) .getPeers none 1] = some s' ∧
      s'.catalog.evicted = 1 ∧ s'.HoldsFetch (sampleHash 1) 0) ∧
    ∃ s s', catalogMachine.run (.new oneEntry) [.recordHash (sampleHash 1) .getPeers none 0] = some s ∧
      catalogMachine.run (s.exec (.hashesNeedingPeers 1 0))
        [.recordHash (sampleHash 2) .getPeers none 1] = some s' ∧
      s'.catalog.evicted = 1 ∧ s'.HoldsLookup (sampleHash 1) 0 := by
  constructor
  · refine ⟨_, _, catalogMachine_run _ _, catalogMachine_run _ _, by decide +kernel, ?_⟩
    obtain ⟨r, hr, hholds⟩ := (claims_exclusive oneEntry claimedStoresOnly lookedUpOps _
      (by decide +kernel) (catalogMachine_run _ _) 1 0 (sampleHash 1)).1 (by decide +kernel)
    have hzero : r = 0 := Option.some.inj (hr.symm.trans (by decide +kernel))
    exact hzero ▸ hholds _ _ (by decide +kernel) (catalogMachine_run _ _)
  · refine ⟨_, _, catalogMachine_run _ _, catalogMachine_run _ _, by decide +kernel, ?_⟩
    obtain ⟨r, hr, hholds⟩ := (claims_exclusive oneEntry claimedStoresOnly
      [.recordHash (sampleHash 1) .getPeers none 0] _
      (by decide +kernel) (catalogMachine_run _ _) 1 0 (sampleHash 1)).2 (by decide +kernel)
    have hzero : r = 0 := Option.some.inj (hr.symm.trans (by decide +kernel))
    exact hzero ▸ hholds _ _ (by decide +kernel) (catalogMachine_run _ _)

end DhtScraper
