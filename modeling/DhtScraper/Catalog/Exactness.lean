import DhtScraper.Catalog.Steps

/-!
# What the indexes of the catalog hold

Under the protocol of the callers the indexes and counters of the catalog are exact after every
operation.  A pending entry can always make progress, provided no reset takes away the last way on:
the entry of a hash whose row is missing from the database becomes pending without its peers, and
when its lookups are used up as well nothing will ever pick it up again.
-/

namespace DhtScraper

open Library

/-- The callers store only what they claimed; the index thread may reset whenever it wants. -/
def claimedStoresOnly : Discipline := ⟨true, false⟩

/-- In addition, no reset strands its entry. -/
def claimedStoresOpenResets : Discipline := ⟨true, true⟩

namespace TorrentCatalog

/-- Indexes and counters are what their names say. -/
structure Exact (c : TorrentCatalog) : Prop where
  stateCounts : ∀ s, c.stateCounts s = c.countLive fun entry ↦ entry.fetchState = s
  needsCheck : ∀ h r, c.needsCheck.get? h = some r ↔ c.entries.get? h = some r ∧
    (c.heap r).fetchState = .pending ∧ (c.heap r).databaseChecked = false
  fetchable : ∀ h r, c.fetchable.get? h = some r ↔ c.entries.get? h = some r ∧
    (c.heap r).fetchState = .pending ∧ (c.heap r).databaseChecked ∧ (c.heap r).hasPeers
  needsLookup : ∀ h r, c.needsLookup.get? h = some r ↔ c.entries.get? h = some r ∧
    (c.heap r).fetchState = .pending ∧ (c.heap r).databaseChecked ∧ (c.heap r).hasPeers = false ∧
    (c.heap r).lookupInProgress = false ∧ (c.heap r).lookupsStarted < c.limits.maxLookups
  fetched : ∀ h r, c.fetched.get? h = some r ↔
    c.entries.get? h = some r ∧ (c.heap r).metadata.isSome
  fetched_done : ∀ h r, c.fetched.get? h = some r → (c.heap r).fetchState = .done
  knownDone : c.knownDone = c.countLive fun entry ↦ entry.knownFromDatabase
  known_done : ∀ h r, c.entries.get? h = some r → (c.heap r).knownFromDatabase →
    (c.heap r).fetchState = .done
  lookupsInProgress : c.lookupsInProgress = c.countLive fun entry ↦ entry.lookupInProgress
  indexCounters : ∀ h r, c.indexCounters.get? h = some r → c.entries.get? h = some r
  unchecked : ∀ h r, c.entries.get? h = some r → (c.heap r).databaseChecked = false →
    (c.heap r).fetchState = .pending ∧ (c.heap r).lookupInProgress = false

/-- An unchecked entry was not claimed by anybody yet. -/
def uncheckedIdle (entry : TorrentEntry) : Prop :=
  entry.databaseChecked = false → entry.fetchState = .pending ∧ entry.lookupInProgress = false

theorem uncheckedIdle_invariant (limits : CatalogLimits) :
    EntryInvariant limits claimedStoresOnly uncheckedIdle where
  new := fun h now checked _ ↦ ⟨rfl, rfl⟩
  step := by
    intro e e' hstored hQ hstep
    unfold uncheckedIdle at hQ ⊢
    cases hstep with
    | peersAdded keep => exact hQ
    | lookupClaimed awaits =>
      intro hunchecked
      simp only [TorrentEntry.awaitsLookup, decide_eq_true_eq] at awaits
      exact absurd awaits.2.1 (by simpa using hunchecked)
    | lookupReleased claimed => exact fun hunchecked ↦ ⟨(hQ hunchecked).1, rfl⟩
    | lookupEnded claimed record lookupInProgress lookupsStarted hasPeers done fetching pending =>
      intro hunchecked
      rw [record.databaseChecked] at hunchecked
      exact absurd claimed (by simp [(hQ hunchecked).2])
    | fetchClaimed ready =>
      intro hunchecked
      simp only [TorrentEntry.readyToFetch, decide_eq_true_eq] at ready
      exact absurd ready.2.1 (by simpa using hunchecked)
    | fetchReleased claimed => exact fun hunchecked ↦ ⟨rfl, (hQ hunchecked).2⟩
    | fetchFailed claimed record lookupInProgress lookupsStarted outcome =>
      intro hunchecked
      rw [record.databaseChecked] at hunchecked
      exact absurd (hQ hunchecked).1 (by simp [claimed])
    | sighted record fetchState lookupInProgress lookupsStarted hasPeers =>
      intro hunchecked
      rw [record.databaseChecked] at hunchecked
      rw [fetchState, lookupInProgress]
      exact hQ hunchecked
    | stored metadata claimed =>
      intro hunchecked
      exact absurd (hQ hunchecked).1 (by simp [claimed rfl])
    | dropped done metadata => exact fun hunchecked ↦ by cases hunchecked
    | written base metadata =>
      unfold writtenEntry
      split
      · exact hQ
      · exact hQ
    | based => exact hQ
    | flushed => exact hQ
    | unchecked awaits => exact fun hunchecked ↦ by cases hunchecked
    | checked awaits base =>
      unfold checkedEntry
      split
      · exact fun hunchecked ↦ by cases hunchecked
      · exact fun hunchecked ↦ by cases hunchecked
    | reset opened =>
      unfold resetEntry
      dsimp only
      split
      · exact fun hunchecked ↦ by cases hunchecked
      · exact hQ

theorem exact_of_sound {limits : CatalogLimits} {c : TorrentCatalog} {F L : Finset Bytes}
    (hs : Sound limits uncheckedIdle c F L) : c.Exact := by
  have hc := hs.represented
  constructor
  case stateCounts => exact hc.stateCounts
  case needsCheck =>
    intro h r
    rw [hc.needsCheck h (Set.notMem_empty h), liveWhere_eq_some_iff]
    simp [TorrentEntry.awaitsCheck]
  case fetchable =>
    intro h r
    rw [hc.fetchable h (Set.notMem_empty h), liveWhere_eq_some_iff]
    simp [TorrentEntry.readyToFetch]
  case needsLookup =>
    intro h r
    rw [hc.needsLookup h (Set.notMem_empty h), liveWhere_eq_some_iff]
    simp [TorrentEntry.awaitsLookup]
  case fetched =>
    intro h r
    rw [hc.fetched, liveWhere_eq_some_iff]
  case fetched_done =>
    intro h r hr
    rw [hc.fetched, liveWhere_eq_some_iff] at hr
    exact hc.stored_done h r hr.1 hr.2
  case knownDone => exact hc.knownDone
  case known_done => exact fun h r hr hknown ↦ (hc.known_done h r hr hknown).1
  case lookupsInProgress => exact hc.lookupsInProgress
  case indexCounters => exact hc.counters_live
  case unchecked => exact hs.entry

/-- After every operation of callers that keep to the protocol, all indexes and counters are
exact. -/
theorem indexes_exact (limits : CatalogLimits) (ops : List CatalogOp) (s : Session)
    (hops : catalogMachine.Along (fun s op ↦ s.permits claimedStoresOnly op) (.new limits) ops)
    (hrun : catalogMachine.run (.new limits) ops = some s) : s.catalog.Exact :=
  exact_of_sound (Session.run_sound (uncheckedIdle_invariant limits) hops hrun)

theorem indexes_exact_fetched : ∃ s, catalogMachine.run (.new oneLookup) fetchedOps = some s ∧
    s.catalog.fetched.get? (sampleHash 1) = some 0 ∧ s.catalog.Exact := by
  refine ⟨_, catalogMachine_run _ _, by decide +kernel, ?_⟩
  exact indexes_exact oneLookup fetchedOps _ (by decide +kernel) (catalogMachine_run _ _)

/-! ## Progress of pending entries -/

/-- The invariant behind progress: what an entry in each situation still has at its disposal. -/
structure CanProgress (maxLookups : ℕ) (entry : TorrentEntry) : Prop where
  unchecked : entry.databaseChecked = false → entry.fetchState = .pending ∧
    entry.lookupInProgress = false ∧ entry.lookupsStarted = 0
  fetching : entry.fetchState = .inProgress → entry.hasPeers
  stored : entry.metadata.isSome → entry.hasPeers ∧ entry.inDatabase = false
  lookingUp : entry.lookupInProgress → entry.lookupsStarted < maxLookups
  inDatabase : entry.inDatabase → entry.fetchState = .done
  pending : entry.fetchState = .pending → entry.databaseChecked = false ∨ entry.hasPeers ∨
    entry.lookupInProgress ∨ entry.lookupsStarted < maxLookups

/-- Only the flags and counts matter. -/
theorem CanProgress.of_eq {maxLookups : ℕ} {e e' : TorrentEntry} (hQ : CanProgress maxLookups e)
    (databaseChecked : e'.databaseChecked = e.databaseChecked)
    (fetchState : e'.fetchState = e.fetchState)
    (lookupInProgress : e'.lookupInProgress = e.lookupInProgress)
    (lookupsStarted : e'.lookupsStarted = e.lookupsStarted) (metadata : e'.metadata = e.metadata)
    (inDatabase : e'.inDatabase = e.inDatabase) (hasPeers : e.hasPeers → e'.hasPeers) :
    CanProgress maxLookups e' where
  unchecked := by
    rw [databaseChecked, fetchState, lookupInProgress, lookupsStarted]
    exact hQ.unchecked
  fetching := by
    rw [fetchState]
    exact fun hf ↦ hasPeers (hQ.fetching hf)
  stored := by
    rw [metadata, inDatabase]
    exact fun hm ↦ ⟨hasPeers (hQ.stored hm).1, (hQ.stored hm).2⟩
  lookingUp := by
    rw [lookupInProgress, lookupsStarted]
    exact hQ.lookingUp
  inDatabase := by
    rw [inDatabase, fetchState]
    exact hQ.inDatabase
  pending := by
    rw [fetchState, databaseChecked, lookupInProgress, lookupsStarted]
    exact fun hp ↦ (hQ.pending hp).imp_right fun h ↦ h.imp_left hasPeers

/-- A checked entry that is not done, has no metadata and no row, and has a way on when it is
pending. -/
theorem CanProgress.of_checked {maxLookups : ℕ} {entry : TorrentEntry}
    (hchecked : entry.databaseChecked = true) (hmetadata : entry.metadata = none)
    (hdatabase : entry.inDatabase = false) (hfetching : entry.fetchState = .inProgress → entry.hasPeers)
    (hlookup : entry.lookupInProgress → entry.lookupsStarted < maxLookups)
    (hpending : entry.fetchState = .pending → entry.hasPeers ∨ entry.lookupInProgress ∨
      entry.lookupsStarted < maxLookups) : CanProgress maxLookups entry where
  unchecked := fun hunchecked ↦ absurd hchecked (by simp [hunchecked])
  fetching := hfetching
  stored := fun hm ↦ absurd hm (by simp [hmetadata])
  lookingUp := hlookup
  inDatabase := fun hd ↦ absurd hd (by simp [hdatabase])
  pending := fun hp ↦ Or.inr (hpending hp)

theorem canProgress_invariant {limits : CatalogLimits} (hlookups : 1 ≤ limits.maxLookups) :
    EntryInvariant limits claimedStoresOpenResets (CanProgress limits.maxLookups) where
  new := fun h now checked ↦
    { unchecked := fun _ ↦ ⟨rfl, rfl, rfl⟩
      fetching := fun hf ↦ by cases hf
      stored := fun hm ↦ by cases hm
      lookingUp := fun hl ↦ by cases hl
      inDatabase := fun hd ↦ by cases hd
      pending := fun _ ↦ Or.inr (Or.inr (Or.inr hlookups)) }
  step := by
    intro e e' hstored hQ hstep
    have hnotStored (hstate : e.fetchState ≠ .done) : e.metadata = none := by
      by_contra hm
      exact hstate (hstored (Option.isSome_iff_ne_none.mpr hm))
    have hnotDatabase (hstate : e.fetchState ≠ .done) : e.inDatabase = false := by
      by_contra hd
      exact hstate (hQ.inDatabase (by simpa using hd))
    have hchecked (hbusy : e.fetchState ≠ .pending ∨ e.lookupInProgress) :
        e.databaseChecked = true := by
      by_contra hunchecked
      obtain ⟨hpending, hidle, -⟩ := hQ.unchecked (by simpa using hunchecked)
      rcases hbusy with hstate | hlookup
      · exact hstate hpending
      · rw [hidle] at hlookup
        cases hlookup
    cases hstep with
    | peersAdded keep => exact hQ.of_eq rfl rfl rfl rfl rfl rfl keep
    | lookupClaimed awaits =>
      simp only [TorrentEntry.awaitsLookup, decide_eq_true_eq] at awaits
      obtain ⟨hpending, hcheck, -, -, hleft⟩ := awaits
      have hstate : e.fetchState ≠ .done := by simp [hpending]
      exact .of_checked hcheck (hnotStored hstate) (hnotDatabase hstate)
        (fun hf ↦ absurd hpending (by simp [show e.fetchState = _ from hf])) (fun _ ↦ hleft)
        fun _ ↦ Or.inr (Or.inl rfl)
    | lookupReleased claimed =>
      have hleft := hQ.lookingUp claimed
      exact
        { unchecked := fun hunchecked ↦
            ⟨(hQ.unchecked hunchecked).1, rfl, (hQ.unchecked hunchecked).2.2⟩
          fetching := hQ.fetching
          stored := hQ.stored
          lookingUp := fun hl ↦ by cases hl
          inDatabase := hQ.inDatabase
          pending := fun _ ↦ Or.inr (Or.inr (Or.inr hleft)) }
    | lookupEnded claimed record lookupInProgress lookupsStarted hasPeers done fetching pending =>
      exact
        { unchecked := fun hunchecked ↦ by
            rw [record.databaseChecked, hchecked (Or.inr claimed)] at hunchecked
            cases hunchecked
          fetching := fun hf ↦ hasPeers (hQ.fetching (fetching.mp hf))
          stored := by
            rw [record.metadata, record.inDatabase]
            exact fun hm ↦ ⟨hasPeers (hQ.stored hm).1, (hQ.stored hm).2⟩
          lookingUp := fun hl ↦ by
            rw [lookupInProgress] at hl
            cases hl
          inDatabase := by
            rw [record.inDatabase, done]
            exact hQ.inDatabase
          pending := fun hp ↦ Or.inr ((pending hp).2.imp_right Or.inr) }
    | fetchClaimed ready =>
      simp only [TorrentEntry.readyToFetch, decide_eq_true_eq] at ready
      obtain ⟨hpending, hcheck, hpeers⟩ := ready
      have hstate : e.fetchState ≠ .done := by simp [hpending]
      exact .of_checked hcheck (hnotStored hstate) (hnotDatabase hstate) (fun _ ↦ hpeers)
        hQ.lookingUp (fun hp ↦ by cases hp)
    | fetchReleased claimed =>
      have hstate : e.fetchState ≠ .done := by simp [claimed]
      exact .of_checked (hchecked (Or.inl (by simp [claimed]))) (hnotStored hstate)
        (hnotDatabase hstate) (fun hf ↦ by cases hf) hQ.lookingUp
        fun _ ↦ Or.inl (hQ.fetching claimed)
    | fetchFailed claimed record lookupInProgress lookupsStarted outcome =>
      have hstate : e.fetchState ≠ .done := by simp [claimed]
      refine .of_checked ?_ ?_ ?_ ?_ ?_ ?_
      · rw [record.databaseChecked]
        exact hchecked (Or.inl (by simp [claimed]))
      · rw [record.metadata, hnotStored hstate]
      · rw [record.inDatabase, hnotDatabase hstate]
      · intro hf
        rcases outcome with hfailed | ⟨hpending, -⟩
        · rw [hf] at hfailed
          cases hfailed
        · rw [hf] at hpending
          cases hpending
      · rw [lookupInProgress, lookupsStarted]
        exact hQ.lookingUp
      · intro hp
        rcases outcome with hfailed | ⟨-, hpeers | hleft | hlookup⟩
        · rw [hp] at hfailed
          cases hfailed
        · exact Or.inl hpeers
        · exact Or.inr (Or.inr hleft)
        · exact Or.inr (Or.inl hlookup)
    | sighted record fetchState lookupInProgress lookupsStarted hasPeers =>
      exact hQ.of_eq record.databaseChecked fetchState lookupInProgress lookupsStarted
        record.metadata record.inDatabase hasPeers
    | stored metadata claimed =>
      have hfetching := claimed rfl
      have hstate : e.fetchState ≠ .done := by simp [hfetching]
      exact
        { unchecked := fun hunchecked ↦ by
            rw [show (storedEntry e metadata).databaseChecked = e.databaseChecked from rfl,
              hchecked (Or.inl (by simp [hfetching]))] at hunchecked
            cases hunchecked
          fetching := fun hf ↦ by cases hf
          stored := fun _ ↦ ⟨hQ.fetching hfetching, hnotDatabase hstate⟩
          lookingUp := hQ.lookingUp
          inDatabase := fun _ ↦ rfl
          pending := fun hp ↦ by cases hp }
    | dropped done metadata =>
      obtain ⟨hpeers, hdatabase⟩ := hQ.stored metadata
      exact .of_checked rfl rfl hdatabase (fun hf ↦ by cases hf) hQ.lookingUp
        fun _ ↦ Or.inl hpeers
    | written base metadata =>
      rename_i snapshot
      by_cases hwritten : isWritten e snapshot
      · have hmeta : e.metadata.isSome := by
          have hsome := congrArg Option.isSome hwritten
          simpa [metadata] using hsome
        have hdone := hstored hmeta
        rw [show writtenEntry e snapshot base = _ from if_pos hwritten]
        exact
          { unchecked := fun hunchecked ↦ by
              rw [hchecked (Or.inl (by simp [hdone]))] at hunchecked
              cases hunchecked
            fetching := fun hf ↦ by
              rw [hdone] at hf
              cases hf
            stored := fun hm ↦ by cases hm
            lookingUp := hQ.lookingUp
            inDatabase := fun _ ↦ hdone
            pending := fun hp ↦ by
              rw [hdone] at hp
              cases hp }
      · rw [show writtenEntry e snapshot base = _ from if_neg hwritten]
        exact hQ.of_eq rfl rfl rfl rfl rfl rfl id
    | based => exact hQ.of_eq rfl rfl rfl rfl rfl rfl id
    | flushed => exact hQ.of_eq rfl rfl rfl rfl rfl rfl id
    | unchecked awaits =>
      simp only [TorrentEntry.awaitsCheck, decide_eq_true_eq, Bool.not_eq_true] at awaits
      have hstate : e.fetchState ≠ .done := by simp [awaits.1]
      have hunused := (hQ.unchecked awaits.2).2.2
      exact .of_checked rfl (hnotStored hstate) (hnotDatabase hstate) hQ.fetching hQ.lookingUp
        fun _ ↦ Or.inr (Or.inr (hunused.trans_lt hlookups))
    | checked awaits base =>
      simp only [TorrentEntry.awaitsCheck, decide_eq_true_eq, Bool.not_eq_true] at awaits
      have hstate : e.fetchState ≠ .done := by simp [awaits.1]
      have hunused := (hQ.unchecked awaits.2).2.2
      cases base with
      | none =>
        exact .of_checked rfl (hnotStored hstate) (hnotDatabase hstate) hQ.fetching hQ.lookingUp
          fun _ ↦ Or.inr (Or.inr (hunused.trans_lt hlookups))
      | some base =>
        exact
          { unchecked := fun hunchecked ↦ by cases hunchecked
            fetching := fun hf ↦ by cases hf
            stored := fun hm ↦ absurd hm (by simp [checkedEntry, hnotStored hstate])
            lookingUp := hQ.lookingUp
            inDatabase := fun _ ↦ rfl
            pending := fun hp ↦ by cases hp }
    | reset opened =>
      by_cases hreset : e.metadata.isNone ∧ e.inDatabase
      · rw [show resetEntry e = _ from if_pos hreset]
        have hdone := hQ.inDatabase hreset.2
        have hway := opened rfl
        simp only [TorrentEntry.resetStrands, hreset.1, hreset.2, true_and, decide_eq_true_eq,
          Bool.not_eq_true, not_and, not_le] at hway
        refine .of_checked rfl (Option.isNone_iff_eq_none.mp hreset.1) rfl ?_ hQ.lookingUp
          fun _ ↦ ?_
        · simp [hdone]
        · by_cases hpeers : e.hasPeers
          · exact Or.inl hpeers
          · by_cases hlookup : e.lookupInProgress
            · exact Or.inr (Or.inl hlookup)
            · exact Or.inr (Or.inr (hway (by simpa using hpeers) (by simpa using hlookup)))
      · rw [show resetEntry e = _ from if_neg hreset]
        exact hQ.of_eq rfl rfl rfl rfl rfl rfl id

/-- A pending entry is waiting for its check, for a fetch, for a lookup, or for the result of one. -/
def PendingMovesOn (c : TorrentCatalog) : Prop :=
  ∀ h r, c.entries.get? h = some r → (c.heap r).fetchState = .pending →
    c.needsCheck.get? h = some r ∨ c.fetchable.get? h = some r ∨ c.needsLookup.get? h = some r ∨
      (c.heap r).lookupInProgress

/-- As long as no reset strands its entry, every pending entry moves on. -/
theorem pending_moves_on (limits : CatalogLimits) (hlookups : 1 ≤ limits.maxLookups)
    (ops : List CatalogOp) (s : Session)
    (hops : catalogMachine.Along (fun s op ↦ s.permits claimedStoresOpenResets op)
      (.new limits) ops)
    (hrun : catalogMachine.run (.new limits) ops = some s) : s.catalog.PendingMovesOn := by
  intro h r hr hpending
  have hs := Session.run_sound (canProgress_invariant hlookups) hops hrun
  have hc := hs.represented
  have hopen : h ∉ (∅ : Set Bytes) := Set.notMem_empty h
  rw [hc.needsCheck h hopen, hc.fetchable h hopen, hc.needsLookup h hopen, hs.limits,
    liveWhere_of_live hr, liveWhere_of_live hr, liveWhere_of_live hr]
  have hway := (hs.entry h r hr).pending hpending
  simp only [TorrentEntry.awaitsCheck, TorrentEntry.readyToFetch, TorrentEntry.awaitsLookup,
    hpending, true_and]
  by_cases hchecked : (s.catalog.heap r).databaseChecked <;>
    by_cases hpeers : (s.catalog.heap r).hasPeers <;>
    by_cases hlookup : (s.catalog.heap r).lookupInProgress <;> simp_all

theorem pending_moves_on_fetched : ∃ s, catalogMachine.run (.new oneLookup) fetchedOps = some s ∧
    s.catalog.PendingMovesOn := by
  refine ⟨_, catalogMachine_run _ _, ?_⟩
  exact pending_moves_on oneLookup (by decide) fetchedOps _ (by decide +kernel)
    (catalogMachine_run _ _)

/-- The snapshot under which the stored torrent is written. -/
def fetchedSnapshot : IndexSnapshot where
  infoHash := sampleHash 1
  metadata := some (sampleMetadata 1)
  seenCount := 1
  announceCount := 0
  firstSeen := 0
  lastSeen := 0
  base := none
  entry := 0
  seenDelta := 1
  announceDelta := 0

/-- The document is written, and then its row turns out to be missing. -/
def strandingOps : List CatalogOp :=
  fetchedOps ++ [.drainIndexDocuments 1, .markIndexWritten fetchedSnapshot (0, 0, none),
    .resetIndexBase (sampleHash 1)]

/-- The written entry has given up its peers and has used its only lookup, so the reset leaves it
pending with no way on. -/
theorem reset_strands_written_entry :
    ((fetchedOps.foldl Session.exec (.new oneLookup)).catalog.drainIndexDocuments 1).2 =
        [fetchedSnapshot] ∧
      catalogMachine.Along (fun s op ↦ s.permits claimedStoresOnly op) (.new oneLookup)
        strandingOps ∧
      ∃ s, catalogMachine.run (.new oneLookup) strandingOps = some s ∧
        ¬ s.catalog.PendingMovesOn := by
  refine ⟨by decide +kernel, by decide +kernel, _, catalogMachine_run _ _, fun hmoves ↦ ?_⟩
  have hstuck := hmoves (sampleHash 1) 0 (by decide +kernel) (by decide +kernel)
  revert hstuck
  decide +kernel

end TorrentCatalog

end DhtScraper
