import DhtScraper.Index.Recovery

/-!
# No stored sighting is lost

`Retained` for the whole system: every step that does not cut an unflushed account off its queues keeps
it.  When all queues are empty and nothing is in flight, everything a stored entry counted is therefore
flushed, and the rows hold it.

There are four steps that can cut an account off, and `losesNothing` rules them out.  The last section
shows the first of them: an entry whose first document is in flight is sighted again and evicted.
-/

namespace DhtScraper

open Library

namespace TorrentCatalog

namespace Retained

variable {c c' : TorrentCatalog} {start rows : Rows} {stored : Finset Ref}
  {flight : List IndexSnapshot} {committed documents : Bool} {past : List Sighting} {h : Bytes}
  {r : Ref}

/-! ## Database checks -/

theorem joined (hk : c.Retained stored flight documents) {others : Finset Ref}
    (hothers : ∀ r ∈ others, r < c.nextRef ∧ (c.heap r).held) :
    c.Retained (stored ∪ others) flight documents :=
  { hk with
    stored_held := fun r hr ↦ (Finset.mem_union.mp hr).elim (hk.stored_held r) (hothers r) }

theorem setDatabaseCheck (hk : c.Retained stored flight documents) (hrep : c.Represented ∅)
    (enabled : Bool) : (c.setDatabaseCheck enabled).Retained stored flight documents := by
  let switched : TorrentCatalog := { c with checkDatabase := enabled }
  have hfold : ∀ (refs : List Ref) (c : TorrentCatalog), c.Represented ∅ →
      c.Retained stored flight documents → (∀ r ∈ refs, ∃ h, c.entries.get? h = some r) →
      (refs.foldl uncheckedLocked c).Retained stored flight documents := by
    intro refs
    induction refs with
    | nil => exact fun _ _ hk _ ↦ hk
    | cons r rest ih =>
      intro c hrep hk hlive
      obtain ⟨h, hr⟩ := hlive r List.mem_cons_self
      obtain ⟨hedited, hnext⟩ := settled_uncheckedLocked hrep hr
      refine ih _ hnext (hk.edited hedited { toSameAccount := {} } {}) fun r' hr' ↦ ?_
      rw [hedited.entries]
      exact hlive r' (List.mem_cons_of_mem _ hr')
  have hchecked {c' : TorrentCatalog} (hk' : c'.Retained stored flight documents) :
      (c'.assertInvariantsLocked.check (enabled ∨ c'.needsCheck.size = 0)).Retained stored flight
        documents := hk'.of_eq
  simp only [TorrentCatalog.setDatabaseCheck]
  refine hchecked ?_
  split
  · exact hk.of_eq
  · refine hfold _ switched hrep.of_eq hk.of_eq fun r hr ↦ ?_
    obtain ⟨h, hh⟩ := OrderedMap.mem_values_iff.mp hr
    exact ⟨h, hrep.needsCheck_live h r hh⟩

/-- An entry that a check matched to a row has a base, and its sightings wait in the counter
queue. -/
theorem checked (hk : c.Retained stored flight documents) (hrep : c.Represented ∅)
    (hr : c.entries.get? h = some r) (hmeta : (c.heap r).metadata = none) {base : Option IndexBase}
    (hc : c.Checked c' h r base) : c'.Retained stored flight documents := by
  have hself : c'.heap r = checkedEntry (c.heap r) base := hc.edited.entry_eq
  have hother {r' : Ref} (hne : r' ≠ r) : c'.heap r' = c.heap r' := by
    rw [hc.edited.heap, Function.update_of_ne hne]
  have hsame (r' : Ref) : (c.heap r').SameAccount (c'.heap r') := by
    by_cases heq : r' = r
    · rw [heq, hself]
      unfold checkedEntry
      split <;> exact {}
    · rw [hother heq]
      exact {}
  have howner (r' : Ref) : c'.owner r' = c.owner r' := (hsame r').infoHash
  have hcounters {k : Bytes} {r' : Ref} (hr' : c.indexCounters.get? k = some r') :
      c'.indexCounters.get? k = some r' := by
    rw [hc.indexCounters]
    split
    · rcases get?_setDefault_live hrep hr (k := k) with hkept | ⟨hk', hself'⟩
      · exact hkept.trans hr'
      · have hlive := hrep.counters_live k r' hr'
        rw [hk', hr] at hlive
        exact hself'.trans hlive
    · exact hr'
  have hqueued {r' : Ref} (hq : c.Queued r') : c'.Queued r' := by
    unfold Queued at hq ⊢
    rw [howner, hc.indexDocuments, hc.orphanCounters]
    exact hq.imp_right fun hrest ↦ hrest.imp_left hcounters
  cases base with
  | none =>
    refine hk.kept (fun r' ↦ ?_) (fun k r' hr' ↦ by rw [← hc.edited.entries]; exact hr')
      (by rw [hc.orphanCounters]; exact hk.orphans) (fun _ _ _ _ ↦ hqueued) hc.edited.nextRef
      hc.indexTracking hc.indexDocuments
    by_cases heq : r' = r
    · rw [heq, hself]
      exact { toSameAccount := {} }
    · rw [hother heq]
      exact { toSameAccount := {} }
  | some base =>
    have hdescribed {r' : Ref} (hm : (c.heap r').metadata.isSome) : r' ≠ r := fun heq ↦ by
      rw [heq, hmeta] at hm
      cases hm
    have hknown : (c'.heap r).held ∧ (c'.heap r).indexBase.isSome := by
      rw [hself]
      exact ⟨by simp [TorrentEntry.held, checkedEntry], rfl⟩
    have hheld {r' : Ref} (hh : (c.heap r').held) : (c'.heap r').held := by
      by_cases heq : r' = r
      · exact heq ▸ hknown.1
      · rw [hother heq]
        exact hh
    have hbased {r' : Ref} (hb : (c.heap r').indexBase.isSome) : (c'.heap r').indexBase.isSome := by
      by_cases heq : r' = r
      · exact heq ▸ hknown.2
      · rw [hother heq]
        exact hb
    constructor
    case tracking => rw [hc.indexTracking, hk.tracking]
    case stored_held =>
      intro r' hr'
      rw [hc.edited.nextRef]
      exact (hk.stored_held r' hr').imp_right hheld
    case based =>
      intro r' hr'
      by_cases heq : r' = r
      · exact heq ▸ hknown.2
      · rw [hother heq] at hr' ⊢
        exact hk.based r' hr'
    case held =>
      intro r' hr'
      by_cases heq : r' = r
      · exact heq ▸ hknown.1
      · rw [hother heq] at hr' ⊢
        exact hk.held r' hr'
    case described =>
      intro k r' hr'
      rw [hc.indexDocuments] at hr'
      have hm := hk.described k r' hr'
      rw [hother (hdescribed hm)]
      exact hm
    case orphans =>
      rw [hc.orphanCounters]
      exact fun r' hr' ↦ hbased (hk.orphans r' hr')
    case queued =>
      intro r' hr' hheld' huncovered
      rw [hc.edited.nextRef] at hr'
      by_cases heq : r' = r
      · right
        left
        rw [howner, heq, show c.owner r = h from hrep.key h r hr, hc.indexCounters,
          if_pos ⟨rfl, hk.tracking⟩]
        exact get?_setDefault_self hrep hr
      · refine hqueued (hk.queued r' hr' (by rw [← hother heq]; exact hheld') fun hcovered ↦
          huncovered fun k ↦ ?_)
        rw [hother heq]
        exact hcovered k
    case first =>
      intro k r' hr' hheld' hbase
      rw [hc.edited.entries] at hr'
      by_cases heq : r' = r
      · have hsome := hknown.2
        rw [← heq, hbase] at hsome
        cases hsome
      · rw [hother heq] at hheld' hbase
        rw [hc.indexDocuments]
        exact hk.first k r' hr' hheld' hbase
    case flight_hashes => exact hk.flight_hashes
    case flight_described =>
      intro hd snapshot hsnapshot
      have hm := hk.flight_described hd snapshot hsnapshot
      rw [hother (hdescribed hm.2)]
      exact hm
    case flight_alone =>
      intro hd snapshot hsnapshot hlive r' hr'
      rw [hc.edited.entries] at hlive
      rw [hc.indexDocuments] at hr'
      exact hk.flight_alone hd snapshot hsnapshot hlive r' hr'
    case flight_based =>
      intro hd snapshot hsnapshot
      exact (hk.flight_based hd snapshot hsnapshot).imp_right hbased

theorem held_checkedEntry {entry : TorrentEntry} (base : Option IndexBase)
    (h : entry.held ∨ base.isSome) : (checkedEntry entry base).held := by
  cases base with
  | none => exact h.resolve_right (by simp)
  | some base => simp [TorrentEntry.held, checkedEntry]

/-- The entries that `apply_database_checks` matched to a row are held afterwards. -/
theorem applyDatabaseChecks (hk : c.Retained stored flight documents) (hrep : c.Represented ∅)
    {infoHashes : List Bytes} (hlength : ∀ infoHash ∈ infoHashes, infoHash.length = nodeIdLength)
    (found : List (Bytes × IndexBase)) :
    (c.applyDatabaseChecks infoHashes found).Retained (stored ∪ c.matched infoHashes found) flight
      documents := by
  have hfold : ∀ (infoHashes : List Bytes) (c : TorrentCatalog), c.Represented ∅ →
      c.Retained stored flight documents →
      (infoHashes.foldl (applyCheckLocked found) c).Retained stored flight documents ∧
      (infoHashes.foldl (applyCheckLocked found) c).nextRef = c.nextRef ∧
      ∀ r, (c.heap r).held ∨ (∃ h ∈ infoHashes, c.needsCheck.get? h = some r ∧
        (found.lookup h).isSome) →
        ((infoHashes.foldl (applyCheckLocked found) c).heap r).held := by
    intro infoHashes
    induction infoHashes with
    | nil =>
      refine fun c _ hk ↦ ⟨hk, rfl, fun r hr ↦ hr.resolve_right ?_⟩
      rintro ⟨h, hmem, -⟩
      cases hmem
    | cons h rest ih =>
      intro c hrep hk
      rw [List.foldl_cons]
      cases hcheck : c.needsCheck.get? h with
      | none =>
        rw [applyCheckLocked_of_none found hcheck]
        obtain ⟨hnext, hsame, hheld⟩ := ih c hrep hk
        refine ⟨hnext, hsame, fun r hr ↦ hheld r (hr.imp_right ?_)⟩
        rintro ⟨h', hmem, hwaits, hfound⟩
        rcases List.mem_cons.mp hmem with rfl | hmem
        · rw [hcheck] at hwaits
          cases hwaits
        · exact ⟨h', hmem, hwaits, hfound⟩
      | some r =>
        obtain ⟨hnextRep, hc⟩ := applyCheckLocked_of_some found hrep hcheck
        have hr := hrep.needsCheck_live h r hcheck
        have hmeta : (c.heap r).metadata = none := by
          obtain ⟨-, hawaits⟩ := liveWhere_eq_some_iff.mp
            ((hrep.needsCheck h (Set.notMem_empty h)).symm.trans hcheck)
          simp only [TorrentEntry.awaitsCheck, decide_eq_true_eq] at hawaits
          cases hm : (c.heap r).metadata with
          | none => rfl
          | some metadata =>
            have hdone := hrep.stored_done h r hr (by rw [hm]; rfl)
            rw [hawaits.1] at hdone
            cases hdone
        obtain ⟨hnext, hsame, hheld⟩ := ih _ hnextRep (hk.checked hrep hr hmeta hc)
        refine ⟨hnext, hsame.trans hc.edited.nextRef, fun r' hr' ↦ hheld r' ?_⟩
        by_cases heq : r' = r
        · left
          rw [heq, hc.edited.entry_eq]
          refine held_checkedEntry _ ((heq ▸ hr').imp_right ?_)
          rintro ⟨h', -, hwaits, hfound⟩
          rw [hrep.live_unique hr (hrep.needsCheck_live h' r hwaits)] at hfound
          exact hfound
        · rw [hc.edited.heap, Function.update_of_ne heq]
          refine hr'.imp_right ?_
          rintro ⟨h', hmem, hwaits, hfound⟩
          have hne : h' ≠ h := fun hh ↦ heq (Option.some.inj (hwaits.symm.trans (hh ▸ hcheck)))
          refine ⟨h', (List.mem_cons.mp hmem).resolve_left hne, ?_, hfound⟩
          rw [(hc.edited.needsCheck h').resolve_right fun hh ↦ hne hh.1]
          exact hwaits
  obtain ⟨hnext, hsame, hheld⟩ := hfold infoHashes c hrep hk
  rw [show c.applyDatabaseChecks infoHashes found = _ from if_pos hlength]
  refine Retained.of_eq (c := infoHashes.foldl (applyCheckLocked found) c) (hnext.joined ?_)
  intro r hr
  simp only [TorrentCatalog.matched, List.mem_toFinset, List.mem_filterMap,
    Option.filter_eq_some_iff, decide_eq_true_eq] at hr
  obtain ⟨h, hmem, hwaits, hfound, -⟩ := hr
  rw [hsame]
  exact ⟨hrep.allocated h r (hrep.needsCheck_live h r hwaits),
    hheld r (Or.inr ⟨h, hmem, hwaits, hfound⟩)⟩

end Retained

/-- Unless a document was dropped, the entry that `store_metadata` leaves in the catalog has the
metadata. -/
theorem metadata_storeMetadata {c : TorrentCatalog} {metadata : TorrentMetadata} {now : ℚ}
    {r : Ref} (hrep : c.Represented ∅) (hnow : 0 ≤ now)
    (hdropped : (c.storeMetadata metadata now).1.indexDropped = 0)
    (hr : (c.storeMetadata metadata now).1.entries.get? metadata.infoHash = some r) :
    ((c.storeMetadata metadata now).1.heap r).metadata.isSome := by
  let h := metadata.infoHash
  obtain ⟨hmid, hobtained, hqueues, -⟩ := getOrCreateLocked_spec hrep h now
  let mid := (c.getOrCreateLocked h now).1
  let r' := (c.getOrCreateLocked h now).2.1
  obtain ⟨hedited, hstoredRep, hkept⟩ := storeLocked_spec hmid hobtained.entry_live metadata
  let stored := mid.storeLocked r' metadata
  have hlive : stored.entries.get? h = some r' := by
    rw [show stored.entries = mid.entries from hedited.entries]
    exact hobtained.entry_live
  have hsome : (stored.heap r').metadata.isSome := by
    rw [show stored.heap r' = _ from hedited.entry_eq]
    rfl
  have hheld {c' : TorrentCatalog} (hheap : c'.heap = stored.heap)
      (hentries : c'.entries = stored.entries)
      (hr : c'.entries.get? h = some r) : (c'.heap r).metadata.isSome := by
    rw [hentries, hlive] at hr
    rw [hheap, ← Option.some.inj hr]
    exact hsome
  have heq : (c.storeMetadata metadata now).1 =
      (if stored.indexTracking then stored.queueDocumentLocked r' else stored).assertInvariantsLocked :=
    if_pos hnow
  rw [heq] at hdropped hr ⊢
  split at hdropped
  next htracking =>
    rw [if_pos htracking] at hr ⊢
    rcases stored.queueDocumentLocked_cases r' with hqueued | hqueued
    · rw [hqueued] at hr ⊢
      exact hheld rfl rfl hr
    · rcases (stored.documentQueued r').dropOldestDocument_cases with hsame | ⟨key, r'', rest, -, hdrop⟩
      · rw [hqueued, hsame] at hr ⊢
        exact hheld rfl rfl hr
      · have hcount := (dropUnwrittenMetadataLocked_spec (c := { stored.documentQueued r' with
          indexDocuments := rest
          indexDropped := (stored.documentQueued r').indexDropped + 1 })
          (hstoredRep.documentQueued r').of_eq r'').2.1.indexDropped
        have hzero : (stored.queueDocumentLocked r').indexDropped = 0 := hdropped
        rw [hqueued, hdrop, hcount] at hzero
        cases hzero
  next htracking =>
    rw [if_neg htracking] at hr ⊢
    exact hheld rfl rfl hr

end TorrentCatalog

/-! ## Batches are always built -/

open TorrentCatalog

section Built

variable {c : TorrentCatalog} {start rows : Rows} {stored : Finset Ref} {batch : List IndexSnapshot}
  {committed : Bool} {past : List Sighting}

theorem documentsOf_isSome (hdescribed : ∀ snapshot ∈ batch, snapshot.metadata.isSome)
    (ha : c.Accounted start rows batch committed past) : (documentsOf batch).isSome := by
  have hbuild : ∀ snapshot ∈ batch, (buildDocument snapshot).isSome := by
    intro snapshot hsnapshot
    obtain ⟨metadata, hmeta⟩ := Option.isSome_iff_exists.mp (hdescribed snapshot hsnapshot)
    have hseen : 0 ≤ snapshot.seenDelta := (ha.carried snapshot hsnapshot).nonneg .seen
    simp [buildDocument, hmeta, hseen]
  obtain ⟨documents, hdocuments⟩ := Option.isSome_iff_exists.mp (isSome_mapM hbuild)
  have hlength : ∀ document ∈ documents, document.infoHash.length = nodeIdLength := by
    intro document hdocument
    obtain ⟨snapshot, hsnapshot, hbuilt⟩ :=
      exists_of_forall₂ (forall₂_of_mapM hdocuments).flip hdocument
    have hcarried := ha.carried snapshot hsnapshot
    rw [(buildDocument_spec hbuilt).2.1, ← hcarried.owner]
    exact ha.length _ hcarried.allocated
  rw [documentsOf, hdocuments, Option.filter_some, if_pos (by simpa using hlength)]
  rfl

theorem updates_isSome (hbased : ∀ snapshot ∈ batch, snapshot.base.isSome)
    (ha : c.Accounted start rows batch committed past) :
    (batch.mapM buildCounterUpdate).isSome := by
  refine isSome_mapM fun snapshot hsnapshot ↦ ?_
  have hbase := hbased snapshot hsnapshot
  have hseen : 0 ≤ snapshot.seenDelta := (ha.carried snapshot hsnapshot).nonneg .seen
  simp [buildCounterUpdate, hbase, hseen]

end Built

/-! ## The system -/

/-- The batch in flight is one of documents. -/
def IndexPhase.ofDocuments : IndexPhase → Bool
  | .documentsDrained _ => true
  | .documentsWritten _ => true
  | _ => false

namespace IndexSystem

/-- Unless a document was dropped, every unflushed account can be found again. -/
structure Lossless (limits : CatalogLimits) (start : Rows) (past : List Sighting)
    (s : IndexSystem) : Prop where
  balanced : s.Balanced limits start past
  retained : s.session.catalog.indexDropped = 0 →
    s.session.catalog.Retained s.stored s.phase.flight s.phase.ofDocuments

/-- The run meets this condition when no step cuts an account off its queues:
an entry that leaves has a base, or no metadata, or its document waits, or the batch holds all of its
sightings; metadata is stored only where no other incarnation of the hash waits with its document; a
batch of documents is put back only into free places; and a batch of counters is put back only once. -/
def losesNothing (s : IndexSystem) (label : IndexLabel) : Prop :=
  match label with
  | .client op => s.session.catalog.settle.opAllowed (Retained.Evictable s.phase.flight)
      Retained.Storable op
  | .failDocuments => Retained.Requeuable s.phase.flight s.session.catalog
  | .failCounters => s.requeuesOnce .failCounters
  | _ => True

instance (s : IndexSystem) (label : IndexLabel) : Decidable (s.losesNothing label) := by
  apply label.casesOn (motive := fun label ↦ Decidable (s.losesNothing label)) <;> intros <;>
    unfold losesNothing <;> infer_instance

theorem losesNothing.requeuesOnce {s : IndexSystem} {label : IndexLabel}
    (h : s.losesNothing label) : s.requeuesOnce label := by
  cases label with
  | failCounters => exact h
  | _ => trivial

variable {limits : CatalogLimits} {start : Rows} {past : List Sighting} {s s' : IndexSystem}

/-- A call that keeps the accounts reachable and does not fail while it holds a batch. -/
theorem Lossless.call {op : CatalogOp} {phase : IndexPhase}
    (hbalanced : (s.call op phase).Balanced limits start past)
    (hretained : (s.session.exec op).catalog.indexDropped = 0 →
      (s.session.exec op).catalog.Retained s.stored phase.flight phase.ofDocuments)
    (hquiet : (s.session.exec op).catalog.indexDropped = 0 → phase.flight ≠ [] →
      (s.session.exec op).catalog.raised = false) : (s.call op phase).Lossless limits start past where
  balanced := hbalanced
  retained := fun hdropped ↦ by
    have hk := hretained hdropped
    have hq := hquiet hdropped
    unfold IndexSystem.call
    simp only
    split
    next hraised =>
      have hempty : phase.flight = [] := by
        by_contra hne
        rw [hq hne] at hraised
        cases hraised
      rw [hempty] at hk
      exact hk.emptied
    next => exact hk

theorem start_lossless (maxPending : ℕ) (checkDatabase : Bool) (hpending : 1 ≤ maxPending) :
    (IndexSystem.start limits maxPending checkDatabase start).Lossless limits start [] where
  balanced := start_balanced maxPending checkDatabase
  retained := fun _ ↦ by
    have heq : (IndexSystem.start limits maxPending checkDatabase start).session.catalog =
        { (TorrentCatalog.new limits).settle with
          indexTracking := true, indexMaxPending := maxPending, checkDatabase := checkDatabase } :=
      if_pos hpending
    rw [heq]
    constructor
    case tracking => rfl
    case stored_held => exact fun r hr ↦ by cases hr
    case based => exact fun r hr ↦ by cases hr
    case held => exact fun r hr ↦ by cases hr
    case described => exact fun h r hr ↦ by cases hr
    case orphans => exact fun r hr ↦ by cases hr
    case queued => exact fun r hr ↦ absurd hr (Nat.not_lt_zero r)
    case first => exact fun h r hr ↦ by cases hr
    case flight_hashes => exact fun _ ↦ List.nodup_nil
    case flight_described => exact fun _ _ hsnapshot ↦ by cases hsnapshot
    case flight_alone => exact fun _ _ hsnapshot ↦ by cases hsnapshot
    case flight_based => exact fun _ _ hsnapshot ↦ by cases hsnapshot

/-- The entry that `store_metadata` was called on is held, unless a document was dropped. -/
theorem held_of_newlyStored {s : Session} (hrep : s.catalog.settle.Represented ∅) {op : CatalogOp}
    (hnext : (s.exec op).catalog.Represented ∅) (hdropped : (s.exec op).catalog.indexDropped = 0)
    {r : Ref} (hr : r ∈ s.newlyStored op) :
    r < (s.exec op).catalog.nextRef ∧ ((s.exec op).catalog.heap r).held := by
  cases op with
  | storeMetadata metadata now =>
    simp only [Session.newlyStored] at hr
    split at hr
    next hnow =>
      have hlive : (s.exec (.storeMetadata metadata now)).catalog.entries.get? metadata.infoHash =
          some r := by
        simpa using hr
      refine ⟨hnext.allocated _ r hlive, ?_⟩
      have hmeta := metadata_storeMetadata hrep hnow hdropped hlive
      simp only [TorrentEntry.held, decide_eq_true_eq]
      exact Or.inl hmeta
    next => cases hr
  | _ => cases hr

/-- Every step that cuts no account off its queues keeps them reachable. -/
theorem Lossless.step (hs : s.Lossless limits start past) {label : IndexLabel}
    (hsafe : s.losesNothing label) (hstep : s.step label = some s') :
    s'.Lossless limits start (past ++ label.sightings) := by
  have hbalanced := hs.balanced.step hsafe.requeuesOnce hstep
  have hrep := hs.balanced.represented
  have hacc := hs.balanced.accounted
  have hkept := hs.retained
  cases step_cases hstep with
  | @client op hclient hpermitted =>
    refine ⟨hbalanced, fun hdropped ↦ ?_⟩
    have hnext := (Retained.clientRules start s.rows s.stored s.phase.flight s.phase.committed
      s.phase.ofDocuments).apply hs.balanced.sound hclient hpermitted hsafe ⟨hacc, hkept⟩
    exact (hnext.2 hdropped).joined fun r hr ↦
      held_of_newlyStored hrep hbalanced.sound.represented hdropped hr
  | @documentsDrained limit batch hphase hdrained =>
    rw [hphase] at hacc hkept
    have hnext (hdropped : s.session.catalog.indexDropped = 0) :=
      Retained.drainIndexDocuments (c := s.session.catalog.settle) (hkept hdropped).of_eq
        hacc.of_eq rfl limit
    have hsame : (s.session.exec (.drainIndexDocuments limit)).catalog.indexDropped =
        s.session.catalog.indexDropped := indexDropped_apply s.session.catalog.settle rfl
    refine Lossless.call hbalanced (fun hdropped ↦ ?_) fun hdropped _ ↦
      (hnext (hsame ▸ hdropped)).2
    have hk := (hnext (hsame ▸ hdropped)).1
    rw [hdrained] at hk
    rw [IndexPhase.flight_unlessEmpty_documents]
    cases batch with
    | nil => exact hk.emptied
    | cons snapshot rest => exact hk
  | @documentsWritten batch hphase =>
    rw [hphase] at hacc hkept
    refine ⟨hbalanced, ?_⟩
    unfold IndexSystem.commitDocuments
    cases hdocuments : documentsOf batch with
    | none =>
      intro hdropped
      have hbuilt : (documentsOf batch).isSome := documentsOf_isSome
        (fun snapshot hsnapshot ↦ ((hkept hdropped).flight_described rfl snapshot hsnapshot).1) hacc
      rw [hdocuments] at hbuilt
      cases hbuilt
    | some documents =>
      intro hdropped
      simpa [IndexPhase.flight, IndexPhase.ofDocuments, Function.comp_def] using hkept hdropped
  | @documentsFailed batch hphase _ =>
    have hplaces : Retained.Requeuable batch s.session.catalog := by
      have hplaces : Retained.Requeuable s.phase.flight s.session.catalog := hsafe
      rw [hphase] at hplaces
      exact hplaces
    rw [hphase] at hacc hkept
    have hsame : (s.session.exec (.requeueIndexDocuments batch)).catalog.indexDropped =
        s.session.catalog.indexDropped := indexDropped_apply s.session.catalog.settle rfl
    refine Lossless.call hbalanced (fun hdropped ↦ ?_) fun _ hne ↦ absurd rfl hne
    exact Retained.requeueIndexDocuments (c := s.session.catalog.settle)
      (hkept (hsame ▸ hdropped)).of_eq
      hacc.of_eq hrep.key hplaces
  | @documentMarked snapshot base marks hphase =>
    have hmarks := hs.balanced.phase
    rw [hphase] at hacc hkept hmarks
    obtain ⟨hmeta, hbased⟩ := hmarks (snapshot, base) List.mem_cons_self
    have hflight : s.session.catalog.settle.Accounted start s.rows
        (snapshot :: marks.map Prod.fst) true past := hacc.of_eq
    have hsame : (s.session.exec (.markIndexWritten snapshot base)).catalog.indexDropped =
        s.session.catalog.indexDropped := indexDropped_apply s.session.catalog.settle rfl
    refine Lossless.call hbalanced (fun hdropped ↦ ?_) fun _ _ ↦
      (hflight.markIndexWritten hrep rfl hmeta hbased).2
    have hwaiting : s.session.catalog.settle.Retained s.stored (snapshot :: marks.map Prod.fst) true :=
      (hkept (hsame ▸ hdropped)).of_eq
    have hk : (s.session.catalog.settle.markIndexWritten snapshot base).Retained s.stored
        (marks.map Prod.fst) true := hwaiting.markIndexWritten hflight hrep hmeta
    rw [IndexPhase.flight_unlessEmpty_marks]
    cases marks with
    | nil => exact hk.emptied
    | cons mark rest => exact hk
  | @countersDrained limit batch hphase hdrained =>
    rw [hphase] at hacc hkept
    have hnext := Retained.drainIndexCounters (c := s.session.catalog.settle)
      (fun hdropped ↦ (hkept hdropped).of_eq) hacc.of_eq hrep rfl limit
    refine Lossless.call hbalanced (fun hdropped ↦ ?_) fun hdropped _ ↦ (hnext hdropped).2
    have hk := (hnext hdropped).1
    rw [hdrained] at hk
    rw [IndexPhase.flight_unlessEmpty_counters]
    cases batch with
    | nil => exact hk.emptied
    | cons snapshot rest => exact hk
  | @countersWritten batch hphase =>
    rw [hphase] at hacc hkept
    refine ⟨hbalanced, ?_⟩
    unfold IndexSystem.commitCounters
    cases hupdates : batch.mapM buildCounterUpdate with
    | none =>
      intro hdropped
      have hbuilt : (batch.mapM buildCounterUpdate).isSome := updates_isSome
        (fun snapshot hsnapshot ↦ ((hkept hdropped).flight_based rfl snapshot hsnapshot).1) hacc
      rw [hupdates] at hbuilt
      cases hbuilt
    | some updates => exact fun hdropped ↦ hkept hdropped
  | @countersFailed batch hphase _ =>
    rw [hphase] at hacc hkept
    refine Lossless.call hbalanced (fun hdropped ↦ ?_) fun _ hne ↦ absurd rfl hne
    have hle : s.session.catalog.indexDropped ≤
        (s.session.exec (.requeueIndexCounters batch)).catalog.indexDropped :=
      indexDropped_le_requeueCounterLocked s.session.catalog.settle batch
    rw [hdropped] at hle
    exact Retained.requeueIndexCounters (c := s.session.catalog.settle)
      (hkept (Nat.le_zero.mp hle)).of_eq hacc.of_eq hrep hdropped
  | @countersMarked batch missing hphase =>
    have hmissing : missing = [] := by
      have hsound := hs.balanced.phase
      rw [hphase] at hsound
      exact hsound
    subst hmissing
    rw [hphase] at hacc hkept
    have hall : batch.filter (fun snapshot ↦ snapshot.infoHash ∉ ([] : List Bytes)) = batch :=
      List.filter_eq_self.mpr fun _ _ ↦ by simp
    rw [hall] at hbalanced ⊢
    have hsame : (s.session.exec (.markCountersWritten batch)).catalog.indexDropped =
        s.session.catalog.indexDropped := indexDropped_apply s.session.catalog.settle rfl
    refine Lossless.call hbalanced (fun hdropped ↦ ?_) fun _ hne ↦ absurd rfl hne
    exact Retained.markCountersWritten (c := s.session.catalog.settle)
      (hkept (hsame ▸ hdropped)).of_eq hacc.flight_nodup
  | @missingReset infoHash rest hphase =>
    have hsound := hs.balanced.phase
    rw [hphase] at hsound
    exact hsound.elim
  | @checksTaken limit infoHashes hphase _ =>
    rw [hphase] at hkept
    refine ⟨hbalanced, fun hdropped ↦ ?_⟩
    cases infoHashes <;> exact hkept hdropped
  | @rowsRead infoHashes hphase =>
    rw [hphase] at hkept
    refine ⟨hbalanced, fun hdropped ↦ ?_⟩
    simp only
    split <;> exact hkept hdropped
  | @readFailed infoHashes hphase =>
    rw [hphase] at hkept
    exact ⟨hbalanced, fun hdropped ↦ hkept hdropped⟩
  | @checksApplied infoHashes found hphase =>
    have hsound := hs.balanced.phase
    rw [hphase] at hkept hsound
    have hsame : (s.session.exec (.applyDatabaseChecks infoHashes found)).catalog.indexDropped =
        s.session.catalog.indexDropped := indexDropped_apply s.session.catalog.settle rfl
    refine ⟨hbalanced, fun hdropped ↦ ?_⟩
    have hidle : (s.call (.applyDatabaseChecks infoHashes found) .idle).phase = .idle := by
      unfold IndexSystem.call
      simp only
      split <;> rfl
    have hk := Retained.applyDatabaseChecks (c := s.session.catalog.settle)
      (hkept (hsame ▸ hdropped)).of_eq hrep hsound.2 found
    simp only [hidle]
    exact hk
  | @checksSwitched enabled hphase =>
    rw [hphase] at hkept
    have hsame : (s.session.exec (.setDatabaseCheck enabled)).catalog.indexDropped =
        s.session.catalog.indexDropped := indexDropped_apply s.session.catalog.settle rfl
    refine Lossless.call hbalanced (fun hdropped ↦ ?_) fun _ hne ↦ absurd rfl hne
    exact Retained.setDatabaseCheck (c := s.session.catalog.settle)
      (hkept (hsame ▸ hdropped)).of_eq hrep
      enabled

/-! ## Runs -/

theorem run_lossless {maxPending : ℕ} {checkDatabase : Bool} {labels : List IndexLabel}
    (hpending : 1 ≤ maxPending)
    (hsafe : indexMachine.Along losesNothing (.start limits maxPending checkDatabase start) labels)
    (hrun : indexMachine.run (.start limits maxPending checkDatabase start) labels = some s) :
    s.Lossless limits start (sightingsOf labels) := by
  refine indexMachine.run_history_invariant
    (I := fun labels s ↦ s.Lossless limits start (sightingsOf labels)) ?_ []
    (start_lossless maxPending checkDatabase hpending) hsafe hrun
  intro past s label s' hs hlabel hstep
  have hnext := hs.step hlabel hstep
  simpa [sightingsOf] using hnext

/-- All queues are empty, nothing is in flight and nothing was dropped. -/
def quiescent (s : IndexSystem) : Bool :=
  s.session.catalog.indexDropped = 0 ∧ s.session.catalog.indexDocuments.items = [] ∧
    s.session.catalog.indexCounters.items = [] ∧ s.session.catalog.orphanCounters = [] ∧
    s.phase.flight = []

/-- What the stored entries of a hash, live or evicted, counted. -/
def storedCount (s : IndexSystem) (k : Counter) (h : Bytes) : ℤ :=
  ∑ r ∈ s.stored with s.session.catalog.owner r = h, (s.session.catalog.heap r).count k

/-- With nothing queued and nothing in flight, a stored entry has everything it counted flushed. -/
theorem Lossless.flushed_eq (hs : s.Lossless limits start past) (hquiet : s.quiescent) {r : Ref}
    (hr : r ∈ s.stored) (k : Counter) :
    (s.session.catalog.heap r).flushed k = (s.session.catalog.heap r).count k := by
  obtain ⟨hdropped, hdocuments, hcounters, horphans, hflight⟩ := of_decide_eq_true hquiet
  have hk := hs.retained hdropped
  rw [hflight] at hk
  obtain ⟨halloc, hheld⟩ := hk.stored_held r hr
  have hcovered : s.session.catalog.Covered [] r := by
    by_contra huncovered
    rcases hk.queued r halloc hheld huncovered with hdocument | hcounter | horphan
    · have hmem := OrderedMap.get?_eq_some_iff.mp hdocument
      rw [hdocuments] at hmem
      cases hmem
    · have hmem := OrderedMap.get?_eq_some_iff.mp hcounter
      rw [hcounters] at hmem
      cases hmem
    · rw [horphans] at horphan
      cases horphan
  have hle := hcovered k
  rw [inFlight_eq_zero (by simp), add_zero] at hle
  exact le_antisymm (hs.balanced.accounted.flushed r halloc k).2 hle

/-- In every run that cuts no account off its queues: when nothing was dropped, the queues are empty
and nothing is in flight, the row of a hash holds its start value and everything that the stored
entries of the hash counted. -/
theorem stored_sightings_kept {maxPending : ℕ} {checkDatabase : Bool} {labels : List IndexLabel}
    (hpending : 1 ≤ maxPending)
    (hsafe : indexMachine.Along losesNothing (.start limits maxPending checkDatabase start) labels)
    (hrun : indexMachine.run (.start limits maxPending checkDatabase start) labels = some s)
    (hquiet : s.quiescent) (k : Counter) (h : Bytes) :
    start.count k h + s.storedCount k h ≤ s.rows.count k h := by
  have hs := run_lossless hpending hsafe hrun
  obtain ⟨hdropped, -, -, -, hflight⟩ := of_decide_eq_true hquiet
  have hacc := hs.balanced.accounted
  have hk := hs.retained hdropped
  have hnone (r : Ref) : unmarked [] s.phase.committed k r = 0 := by
    unfold unmarked
    split <;> rfl
  calc start.count k h + s.storedCount k h
      = start.count k h + ∑ r ∈ s.stored with s.session.catalog.owner r = h,
          (s.session.catalog.heap r).flushed k := by
        rw [storedCount]
        congr 1
        exact Finset.sum_congr rfl fun r hr ↦
          (hs.flushed_eq hquiet (Finset.mem_filter.mp hr).1 k).symm
    _ ≤ start.count k h + tally s.session.catalog.nextRef s.session.catalog.owner
          (fun r ↦ (s.session.catalog.heap r).flushed k) h := by
        gcongr
        exact sum_le_tally (fun r hr ↦ (hk.stored_held r hr).1) fun r hr ↦ (hacc.flushed r hr k).1
    _ = s.rows.count k h := by
        rw [hacc.written k h, hflight]
        simp only [hnone, add_zero]

end IndexSystem

/-! ## An account that is cut off -/

/-- A torrent is fetched, sighted, and written. -/
def storedLabels : List IndexLabel :=
  [.client (.storeMetadata (sampleMetadata 1) 0), .client (.recordHash (sampleHash 1) .getPeers none 0),
    .drainDocuments 10, .writeDocuments, .markDocument, .drainCounters 10]

/-- The lookup of the torrent `2` claims the only other entry; the torrent `1` is fetched, and while
its document is in flight it is sighted, which evicts it. -/
def cutOffLabels : List IndexLabel :=
  [.client (.recordHash (sampleHash 2) .getPeers none 0), .client (.hashesNeedingPeers 1 0),
    .client (.storeMetadata (sampleMetadata 1) 0), .drainDocuments 10,
    .client (.recordHash (sampleHash 1) .getPeers none 0), .writeDocuments, .markDocument,
    .drainCounters 10]

def noRows : Rows := fun _ ↦ none

theorem stored_sightings_kept_once : ∃ s,
    indexMachine.run (.start oneEntry 10 false noRows) storedLabels = some s ∧
      1 ≤ s.rows.count .seen (sampleHash 1) := by
  have hcomputed : ((indexMachine.run (.start oneEntry 10 false noRows) storedLabels).any
      fun s ↦ s.quiescent ∧
        1 ≤ noRows.count .seen (sampleHash 1) + s.storedCount .seen (sampleHash 1)) = true := by
    decide +kernel
  obtain ⟨s, hrun, htest⟩ := (Option.any_eq_true _ _).mp hcomputed
  obtain ⟨hquiet, hcount⟩ := of_decide_eq_true htest
  have hkept := IndexSystem.stored_sightings_kept (by decide) (by decide +kernel) hrun hquiet .seen
    (sampleHash 1)
  exact ⟨s, hrun, hcount.trans hkept⟩

/-- The sighting that the evicted entry counted reaches no row. -/
theorem evicted_sighting_lost : ∃ s,
    indexMachine.run (.start oneEntry 10 false noRows) cutOffLabels = some s ∧ s.quiescent ∧
      s.rows.count .seen (sampleHash 1) <
        noRows.count .seen (sampleHash 1) + s.storedCount .seen (sampleHash 1) := by
  have hcomputed : ((indexMachine.run (.start oneEntry 10 false noRows) cutOffLabels).any
      fun s ↦ s.quiescent ∧ s.rows.count .seen (sampleHash 1) <
        noRows.count .seen (sampleHash 1) + s.storedCount .seen (sampleHash 1)) = true := by
    decide +kernel
  obtain ⟨s, hrun, htest⟩ := (Option.any_eq_true _ _).mp hcomputed
  exact ⟨s, hrun, of_decide_eq_true htest⟩

end DhtScraper
