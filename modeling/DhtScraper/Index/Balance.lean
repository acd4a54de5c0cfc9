import DhtScraper.Index.Accounting

/-!
# Sightings are counted once

`Balanced` joins the accounts of the catalog, the database and the batch the index thread holds.
Every step keeps it, with one exception: a failed counter write puts the batch back, and an entry that
was evicted while it was in flight is an orphan already.  It is then queued twice, and one later batch
carries its amount twice.  The main theorem is about the runs without that step, the last one shows
the step.
-/

namespace DhtScraper

open Library

/-! ## Translated batches -/

theorem buildDocument_spec {snapshot : IndexSnapshot} {document : Document}
    (h : buildDocument snapshot = some document) : snapshot.metadata.isSome ∧
      document.infoHash = snapshot.infoHash ∧ ∀ k, document.count k = snapshot.delta k := by
  unfold buildDocument at h
  cases hmeta : snapshot.metadata with
  | none => simp [hmeta] at h
  | some metadata =>
    simp only [hmeta] at h
    split at h
    · cases h
      exact ⟨rfl, rfl, fun k ↦ by cases k <;> rfl⟩
    · cases h

theorem buildCounterUpdate_spec {snapshot : IndexSnapshot} {update : CounterUpdate}
    (h : buildCounterUpdate snapshot = some update) : snapshot.base.isSome ∧
      update.infoHash = snapshot.infoHash ∧ ∀ k, update.delta k = snapshot.delta k := by
  unfold buildCounterUpdate at h
  split at h
  · split at h
    next hbase =>
      cases h
      exact ⟨hbase, rfl, fun k ↦ by cases k <;> rfl⟩
    next => cases h
  · cases h

/-- The documents of a batch, one for each snapshot. -/
theorem documentsOf_spec {batch : List IndexSnapshot} {documents : List Document}
    (h : documentsOf batch = some documents) :
    List.Forall₂ (fun snapshot document ↦ buildDocument snapshot = some document)
      batch documents :=
  forall₂_of_mapM (Option.filter_eq_some_iff.mp h).1

/-! ## Operations of the index thread -/

namespace TorrentCatalog

namespace Accounted

variable {c : TorrentCatalog} {start rows : Rows} {flight : List IndexSnapshot} {committed : Bool}
  {past : List Sighting}

theorem check (ha : c.Accounted start rows flight committed past) (p : Prop) [Decidable p] :
    (c.check p).Accounted start rows flight committed past := ha.of_eq

theorem guarded (ha : c.Accounted start rows flight committed past) {p : Prop} [Decidable p]
    {body : TorrentCatalog} (hbody : p → body.Accounted start rows flight committed past) :
    (c.guarded p body).Accounted start rows flight committed past := by
  unfold TorrentCatalog.guarded
  split
  next hp => exact hbody hp
  next => exact ha.of_eq

theorem drainIndexDocuments (ha : c.Accounted start rows [] false past) (limit : ℕ) :
    (c.drainIndexDocuments limit).1.Accounted start rows (c.drainIndexDocuments limit).2 false
      past := by
  obtain ⟨taken, rest, b, hsplit, hstate, hbatch, -⟩ := c.drainDocumentsLocked_spec limit
  have hrest : (c.drainDocumentsLocked limit).1.Accounted start rows [] false past := by
    rw [hstate]
    refine ha.kept (fun _ _ ↦ .of_eq) (fun _ _ _ hbase ↦ Or.inl hbase) (fun k r hr ↦ Or.inl ?_)
      ha.orphans_nodup ha.orphans
    exact (OrderedMap.get?_eq_some_iff_of_items hsplit).mpr (Or.inr hr)
  simp only [TorrentCatalog.drainIndexDocuments]
  split
  · exact hrest
  next hquiet =>
    have hb : b = false := by
      rw [hstate] at hquiet
      simpa using hquiet
    have hget {item : Bytes × Ref} (hitem : item ∈ taken) :
        item.2 < c.nextRef ∧ c.owner item.2 = item.1 :=
      ha.documents item.1 item.2
        ((OrderedMap.get?_eq_some_iff_of_items hsplit).mpr (Or.inl hitem))
    have hnodup : (taken.map Prod.snd).Nodup := by
      apply List.Nodup.of_map c.owner
      have hkeys : (taken.map Prod.snd).map c.owner = taken.map Prod.fst := by
        rw [List.map_map]
        exact List.map_congr_left fun item hitem ↦ (hget hitem).2
      rw [hkeys]
      have hall := c.indexDocuments.nodup
      rw [hsplit, List.map_append] at hall
      exact hall.of_append_left
    have htaken := hrest.taken (taken.map Prod.snd) (fun r hr ↦ by
      obtain ⟨item, hitem, rfl⟩ := List.mem_map.mp hr
      rw [hstate]
      exact (hget hitem).1) hnodup (fun r _ ↦ by simp)
    have hheap : (c.drainDocumentsLocked limit).1.heap = c.heap := by rw [hstate]
    rw [hbatch hb]
    simpa [hheap, Function.comp_def] using htaken

/-- What the counter drain keeps: the entries of the batch are in no counter queue any more. -/
structure Draining (start rows : Rows) (past : List Sighting) (batch : List IndexSnapshot)
    (c : TorrentCatalog) : Prop where
  represented : c.Represented ∅
  accounted : c.Accounted start rows batch false past
  removed : ∀ snapshot ∈ batch, snapshot.entry ∉ c.orphanCounters ∧
    ∀ k, c.indexCounters.get? k ≠ some snapshot.entry

/-- The first counter leaves its queue. -/
theorem popCounter {batch : List IndexSnapshot} (hd : Draining start rows past batch c) {k : Bytes}
    {r : Ref} {rest : OrderedMap Bytes Ref} (hpop : c.indexCounters.popFirst = some ((k, r), rest)) :
    Draining start rows past batch { c with indexCounters := rest } ∧
      c.entries.get? k = some r ∧ ∀ k', rest.get? k' ≠ some r := by
  obtain ⟨hfirst, hrest⟩ := OrderedMap.get?_of_popFirst hpop
  have hlive := hd.represented.counters_live k r hfirst
  have hsub {k' : Bytes} {r' : Ref} (hr' : rest.get? k' = some r') :
      c.indexCounters.get? k' = some r' := by
    rw [hrest] at hr'
    split at hr'
    · cases hr'
    · exact hr'
  refine ⟨⟨hd.represented.of_counters fun k' r' hr' ↦ Or.inl (hsub hr'), hd.accounted.of_eq,
    fun snapshot hsnapshot ↦ ⟨(hd.removed snapshot hsnapshot).1, fun k' hk' ↦
      (hd.removed snapshot hsnapshot).2 k' (hsub hk')⟩⟩, hlive, fun k' hk' ↦ ?_⟩
  have hkey := hd.represented.live_unique hlive (hd.represented.counters_live k' r (hsub hk'))
  rw [hrest, if_pos hkey] at hk'
  cases hk'

/-- One snapshot more in the batch. -/
theorem Draining.take {batch : List IndexSnapshot} (hd : Draining start rows past batch c) {r : Ref}
    (halloc : r < c.nextRef) (horphan : r ∉ c.orphanCounters)
    (hcounter : ∀ k, c.indexCounters.get? k ≠ some r) (hnew : r ∉ batch.map IndexSnapshot.entry) :
    Draining start rows past (batch ++ [indexSnapshot r (c.heap r)]) c where
  represented := hd.represented
  accounted := hd.accounted.taken [r] (by simpa using halloc) (List.nodup_singleton r)
    (by simpa using hnew)
  removed := fun snapshot hsnapshot ↦ by
    rcases List.mem_append.mp hsnapshot with hold | hlast
    · exact hd.removed snapshot hold
    · rw [List.mem_singleton.mp hlast]
      exact ⟨horphan, hcounter⟩

theorem drainRules (start rows : Rows) (past : List Sighting) :
    CounterDrainRules (Draining start rows past) fun c ↦ c.Accounted start rows [] false past where
  orphanTaken := fun batch c r rest hd horphans _ ↦ by
    have hmem : r ∈ c.orphanCounters := by
      rw [horphans]
      exact List.mem_cons_self
    have hnodup := hd.accounted.orphans_nodup
    rw [horphans] at hnodup
    obtain ⟨halloc, hdead⟩ := hd.accounted.orphans r hmem
    have hrest : Draining start rows past batch { c with orphanCounters := rest } :=
      { represented := hd.represented.of_eq
        accounted := hd.accounted.kept (fun _ _ ↦ .of_eq) (fun _ _ _ hbase ↦ Or.inl hbase)
          (fun _ _ hr ↦ Or.inl hr) (List.nodup_cons.mp hnodup).2 fun r' hr' ↦
            hd.accounted.orphans r' (by rw [horphans]; exact List.mem_cons_of_mem _ hr')
        removed := fun snapshot hsnapshot ↦ by
          refine ⟨fun hmem' ↦ (hd.removed snapshot hsnapshot).1 ?_, (hd.removed snapshot hsnapshot).2⟩
          rw [horphans]
          exact List.mem_cons_of_mem _ hmem' }
    refine hrest.take halloc (List.nodup_cons.mp hnodup).1
      (fun k hk ↦ hdead k (hd.represented.counters_live k r hk)) fun hbatch ↦ ?_
    obtain ⟨snapshot, hsnapshot, heq⟩ := List.mem_map.mp hbatch
    exact (hd.removed snapshot hsnapshot).1 (heq ▸ hmem)
  orphanSkipped := fun batch c r rest hd horphans _ _ ↦ by
    have hnodup := hd.accounted.orphans_nodup
    rw [horphans] at hnodup
    exact
      { represented := hd.represented.of_eq
        accounted := hd.accounted.kept (fun _ _ ↦ .of_eq) (fun _ _ _ hbase ↦ Or.inl hbase)
          (fun _ _ hr ↦ Or.inl hr) (List.nodup_cons.mp hnodup).2 fun r' hr' ↦
            hd.accounted.orphans r' (by rw [horphans]; exact List.mem_cons_of_mem _ hr')
        removed := fun snapshot hsnapshot ↦ by
          refine ⟨fun hmem' ↦ (hd.removed snapshot hsnapshot).1 ?_, (hd.removed snapshot hsnapshot).2⟩
          rw [horphans]
          exact List.mem_cons_of_mem _ hmem' }
  orphanFailed := fun batch c r rest hd horphans _ ↦ by
    have hnodup := hd.accounted.orphans_nodup
    rw [horphans] at hnodup
    exact hd.accounted.withdrawn.kept (fun _ _ ↦ .of_eq) (fun _ _ _ hbase ↦ Or.inl hbase)
      (fun _ _ hr ↦ Or.inl hr) (List.nodup_cons.mp hnodup).2 fun r' hr' ↦
        hd.accounted.orphans r' (by rw [horphans]; exact List.mem_cons_of_mem _ hr')
  documentQueued := fun batch c k r rest hd hpop _ _ ↦ by
    obtain ⟨hrest, hlive, -⟩ := popCounter hd hpop
    have halloc := hd.represented.allocated k r hlive
    have hqueues :
        ((TorrentCatalog.queueDocumentLocked { c with indexCounters := rest } r).orphanCounters =
        c.orphanCounters) ∧ ∀ k' r', (TorrentCatalog.queueDocumentLocked
          { c with indexCounters := rest } r).indexCounters.get? k' = some r' →
          rest.get? k' = some r' := by
      have hqueued : (TorrentCatalog.documentQueued { c with indexCounters := rest } r).orphanCounters =
          c.orphanCounters ∧ ∀ k' r', (TorrentCatalog.documentQueued
            { c with indexCounters := rest } r).indexCounters.get? k' = some r' →
            rest.get? k' = some r' := by
        refine ⟨rfl, fun k' r' hr' ↦ ?_⟩
        rw [show (TorrentCatalog.documentQueued { c with indexCounters := rest } r).indexCounters =
          rest.erase (c.heap r).infoHash from rfl, OrderedMap.get?_erase] at hr'
        split at hr'
        · cases hr'
        · exact hr'
      refine queueDocumentLocked_induction (P := fun c' ↦ c'.orphanCounters = c.orphanCounters ∧
        ∀ k' r', c'.indexCounters.get? k' = some r' → rest.get? k' = some r') _ r hqueued ?_
      intro key dropped documents _
      have hkept := (dropUnwrittenMetadataLocked_spec
        (c := { TorrentCatalog.documentQueued { c with indexCounters := rest } r with
          indexDocuments := documents
          indexDropped :=
            (TorrentCatalog.documentQueued { c with indexCounters := rest } r).indexDropped + 1 })
        (hrest.represented.documentQueued r).of_eq dropped).2.1
      exact ⟨hkept.orphanCounters.trans hqueued.1, fun k' r' hr' ↦
        hqueued.2 k' r' (by rw [hkept.indexCounters] at hr'; exact hr')⟩
    exact
      { represented := hrest.represented.queueDocumentLocked r
        accounted := hrest.accounted.queueDocumentLocked hrest.represented halloc
        removed := fun snapshot hsnapshot ↦ by
          rw [hqueues.1]
          exact ⟨(hrest.removed snapshot hsnapshot).1, fun k' hk' ↦
            (hrest.removed snapshot hsnapshot).2 k' (hqueues.2 k' _ hk')⟩ }
  unbasedSkipped := fun _ _ _ _ _ hd hpop _ _ ↦ (popCounter hd hpop).1
  counterTaken := fun batch c k r rest hd hpop _ _ _ ↦ by
    obtain ⟨hrest, hlive, hgone⟩ := popCounter hd hpop
    refine hrest.take (hd.represented.allocated k r hlive)
      (fun hmem ↦ (hd.accounted.orphans r hmem).2 k hlive) hgone fun hbatch ↦ ?_
    obtain ⟨snapshot, hsnapshot, heq⟩ := List.mem_map.mp hbatch
    exact (hd.removed snapshot hsnapshot).2 k (heq ▸ (OrderedMap.get?_of_popFirst hpop).1)
  counterSkipped := fun _ _ _ _ _ hd hpop _ _ ↦ (popCounter hd hpop).1
  counterFailed := fun _ _ _ _ _ hd hpop _ _ ↦ (popCounter hd hpop).1.accounted.withdrawn.of_eq
  failed := fun _ _ hd _ ↦ hd.accounted.withdrawn

theorem drainIndexCounters (ha : c.Accounted start rows [] false past) (hrep : c.Represented ∅)
    (limit : ℕ) : (c.drainIndexCounters limit).1.Accounted start rows
      (c.drainIndexCounters limit).2 false past := by
  have hstart : Draining start rows past [] c := ⟨hrep, ha, fun snapshot hsnapshot ↦ by cases hsnapshot⟩
  rcases (drainRules start rows past).drainIndexCounters limit hstart with hd | ⟨hbatch, hfailed⟩
  · exact hd.accounted
  · rw [hbatch]
    exact hfailed

theorem requeueIndexDocuments (ha : c.Accounted start rows flight false past) :
    (c.requeueIndexDocuments flight).Accounted start rows [] false past := by
  obtain ⟨documents, b, hstate, -, hnew, -⟩ := c.requeueIndexDocuments_spec flight
  rw [hstate]
  refine ha.withdrawn.kept (fun _ _ ↦ .of_eq) (fun _ _ _ hbase ↦ Or.inl hbase) (fun k r hr ↦ ?_)
    ha.orphans_nodup ha.orphans
  rcases hnew k r hr with hold | ⟨-, snapshot, hsnapshot, hkey, hentry⟩
  · exact Or.inl hold
  · have hcarried := ha.carried snapshot hsnapshot
    exact Or.inr (hentry ▸ ⟨hcarried.allocated, hcarried.owner.trans hkey⟩)

/-- The batch is put back, provided none of its entries became an orphan in the meantime. -/
theorem requeueIndexCounters (ha : c.Accounted start rows flight false past)
    (hkey : ∀ h r, c.entries.get? h = some r → c.owner r = h)
    (horphans : ∀ snapshot ∈ flight, snapshot.entry ∉ c.orphanCounters) :
    (c.requeueIndexCounters flight).Accounted start rows [] false past := by
  unfold TorrentCatalog.requeueIndexCounters
  induction flight generalizing c with
  | nil => exact ha
  | cons first rest ih =>
    have hcarried := ha.carried first List.mem_cons_self
    obtain ⟨hfirst, hrest⟩ := List.nodup_cons.mp ha.flight_nodup
    have htail : c.Accounted start rows rest false past :=
      { ha with
        flight_nodup := hrest
        carried := fun snapshot hsnapshot ↦ ha.carried snapshot (List.mem_cons_of_mem _ hsnapshot) }
    rw [List.foldl_cons]
    unfold TorrentCatalog.requeueCounterLocked
    split
    · exact ih htail.of_eq hkey fun snapshot hsnapshot ↦
        horphans snapshot (List.mem_cons_of_mem _ hsnapshot)
    next hdead =>
      have hgone (h : Bytes) : c.entries.get? h ≠ some first.entry := fun hlive ↦ by
        have heq : h = first.infoHash := (hkey h _ hlive).symm.trans hcarried.owner
        exact hdead (heq ▸ hlive)
      refine ih (htail.orphaned hcarried.allocated hgone (horphans first List.mem_cons_self)) hkey
        fun snapshot hsnapshot hmem ↦ ?_
      rcases List.mem_append.mp ((c.addOrphanLocked_sublist first.entry).subset hmem) with hold | hnew
      · exact horphans snapshot (List.mem_cons_of_mem _ hsnapshot) hold
      · exact hfirst (List.mem_singleton.mp hnew ▸ List.mem_map_of_mem hsnapshot)

/-- Marking a written document moves its amount and fails no assertion. -/
theorem markIndexWritten {snapshot : IndexSnapshot} {base : IndexBase}
    (ha : c.Accounted start rows (snapshot :: flight) true past) (hrep : c.Represented ∅)
    (hraised : c.raised = false) (hmeta : snapshot.metadata.isSome)
    (hbase : Based rows snapshot.infoHash base) :
    (c.markIndexWritten snapshot base).Accounted start rows flight true past ∧
      (c.markIndexWritten snapshot base).raised = false := by
  have hcarried := ha.carried snapshot List.mem_cons_self
  have hflushed := ha.flushSnapshot
  have hflushedRep := hrep.flushSnapshot snapshot
  let flushed := c.flushSnapshot snapshot
  rw [show c.markIndexWritten snapshot base = _ from if_pos hmeta]
  have hchecked {c' : TorrentCatalog} (ha' : c'.Accounted start rows flight true past)
      (hrep' : c'.Represented ∅) (hraised' : c'.raised = false) :
      (c'.assertInvariantsLocked.check (0 ≤ base.1)).Accounted start rows flight true past ∧
        (c'.assertInvariantsLocked.check (0 ≤ base.1)).raised = false := by
    refine ⟨(ha'.check _).check _, ?_⟩
    simp [TorrentCatalog.check, hrep'.assertInvariantsLocked_raised, hraised', hbase.1]
  split
  next hlive =>
    have hlive' : flushed.entries.get? snapshot.infoHash = some snapshot.entry := hlive
    obtain ⟨hwrittenRep, hwritten⟩ := writtenLocked_spec hflushedRep hlive' hmeta base
    have hraised' : (flushed.writtenLocked snapshot.entry snapshot base).raised = false :=
      (writtenLocked_raised hflushedRep hlive' hmeta base).trans hraised
    refine hchecked ?_ hwrittenRep hraised'
    have howner : flushed.owner snapshot.entry = snapshot.infoHash :=
      hflushedRep.key _ _ hlive'
    refine hflushed.edited hwritten.edited ?_ (fun other hother ↦ Or.inr ?_)
      (fun k r hr ↦ Or.inl ?_) hwritten.orphanCounters
    · unfold writtenEntry
      split <;> exact .of_eq
    · have heq : other = base := by
        unfold writtenEntry at hother
        split at hother <;> exact (Option.some.inj hother).symm
      rw [heq, show (c.flushSnapshot snapshot).owner snapshot.entry = _ from howner]
      exact hbase
    · rw [hwritten.indexDocuments] at hr
      split at hr
      · rw [OrderedMap.get?_erase] at hr
        split at hr
        · cases hr
        · exact hr
      · exact hr
  next => exact hchecked hflushed hflushedRep hraised

/-- Marking written counters moves their amounts, and the closing assertion holds. -/
theorem markCountersWritten (ha : c.Accounted start rows flight true past)
    (hraised : c.raised = false) :
    (c.markCountersWritten flight).Accounted start rows [] true past ∧
      (c.markCountersWritten flight).raised = false := by
  have hfold : ∀ (snapshots : List IndexSnapshot) (c : TorrentCatalog),
      c.Accounted start rows snapshots true past → c.raised = false →
      (snapshots.foldl TorrentCatalog.flushSnapshot c).Accounted start rows [] true past ∧
        (snapshots.foldl TorrentCatalog.flushSnapshot c).raised = false ∧
        (snapshots.foldl TorrentCatalog.flushSnapshot c).nextRef = c.nextRef := by
    intro snapshots
    induction snapshots with
    | nil => exact fun c ha hraised ↦ ⟨ha, hraised, rfl⟩
    | cons first rest ih => exact fun c ha hraised ↦ ih _ ha.flushSnapshot hraised
  obtain ⟨hflushed, hquiet, hnextRef⟩ := hfold flight c ha hraised
  refine ⟨hflushed.check _, ?_⟩
  have hall : ∀ snapshot ∈ flight,
      ((flight.foldl TorrentCatalog.flushSnapshot c).heap snapshot.entry).flushedSeen ≤
        ((flight.foldl TorrentCatalog.flushSnapshot c).heap snapshot.entry).seenCount := by
    intro snapshot hsnapshot
    have halloc := (ha.carried snapshot hsnapshot).allocated
    exact (hflushed.flushed snapshot.entry (by rw [hnextRef]; exact halloc) .seen).2
  simp only [TorrentCatalog.markCountersWritten, TorrentCatalog.check, hquiet, Bool.false_or,
    Bool.not_eq_false', decide_eq_true_eq]
  exact hall

theorem setDatabaseCheck (ha : c.Accounted start rows flight committed past)
    (hrep : c.Represented ∅) (enabled : Bool) :
    (c.setDatabaseCheck enabled).Accounted start rows flight committed past := by
  let switched : TorrentCatalog := { c with checkDatabase := enabled }
  have hfold : ∀ (refs : List Ref) (c : TorrentCatalog), c.Represented ∅ →
      c.Accounted start rows flight committed past → (∀ r ∈ refs, ∃ h, c.entries.get? h = some r) →
      (refs.foldl uncheckedLocked c).Accounted start rows flight committed past := by
    intro refs
    induction refs with
    | nil => exact fun _ _ ha _ ↦ ha
    | cons r rest ih =>
      intro c hrep ha hlive
      obtain ⟨h, hr⟩ := hlive r List.mem_cons_self
      obtain ⟨hedited, hnext⟩ := settled_uncheckedLocked hrep hr
      refine ih _ hnext (ha.edited hedited .of_eq (fun _ hbase ↦ Or.inl hbase)
        (fun _ _ hr' ↦ Or.inl hr')
        rfl) fun r' hr' ↦ ?_
      rw [hedited.entries]
      exact hlive r' (List.mem_cons_of_mem _ hr')
  simp only [TorrentCatalog.setDatabaseCheck]
  refine Accounted.check (Accounted.check ?_ _) _
  split
  · exact ha.of_eq
  · refine hfold _ switched hrep.of_eq ha.of_eq fun r hr ↦ ?_
    obtain ⟨h, hh⟩ := OrderedMap.mem_values_iff.mp hr
    exact ⟨h, hrep.needsCheck_live h r hh⟩

theorem applyDatabaseChecks (ha : c.Accounted start rows flight committed past)
    (hrep : c.Represented ∅) (infoHashes : List Bytes) {found : List (Bytes × IndexBase)}
    (hfound : ∀ h base, found.lookup h = some base → Based rows h base) :
    (c.applyDatabaseChecks infoHashes found).Accounted start rows flight committed past := by
  have hfold : ∀ (infoHashes : List Bytes) (c : TorrentCatalog), c.Represented ∅ →
      c.Accounted start rows flight committed past →
      (infoHashes.foldl (applyCheckLocked found) c).Accounted start rows flight committed past := by
    intro infoHashes
    induction infoHashes with
    | nil => exact fun _ _ ha ↦ ha
    | cons h rest ih =>
      intro c hrep ha
      rw [List.foldl_cons]
      cases hcheck : c.needsCheck.get? h with
      | none =>
        rw [applyCheckLocked_of_none found hcheck]
        exact ih c hrep ha
      | some r =>
        obtain ⟨hnext, hchecked⟩ := applyCheckLocked_of_some found hrep hcheck
        have howner : c.owner r = h := hrep.key h r (hrep.needsCheck_live h r hcheck)
        refine ih _ hnext (ha.edited hchecked.edited ?_ (fun base hbase ↦ ?_)
          (fun k r' hr' ↦ Or.inl ?_) hchecked.orphanCounters)
        · unfold checkedEntry
          split <;> exact .of_eq
        · cases hlookup : found.lookup h with
          | none =>
            rw [hlookup] at hbase
            exact Or.inl hbase
          | some base' =>
            rw [hlookup] at hbase
            rw [← Option.some.inj hbase, howner]
            exact Or.inr (hfound h base' hlookup)
        · rw [← hchecked.indexDocuments]
          exact hr'
  exact ha.guarded fun _ ↦ ((hfold infoHashes c hrep ha).check _).check _

/-- Every row that a counter update goes to exists. -/
theorem rows_of_updates (ha : c.Accounted start rows flight committed past)
    {updates : List CounterUpdate} (hupdates : flight.mapM buildCounterUpdate = some updates) :
    ∀ update ∈ updates, (rows update.infoHash).isSome := by
  intro update hupdate
  obtain ⟨snapshot, hsnapshot, hbuild⟩ :=
    exists_of_forall₂ (forall₂_of_mapM hupdates).flip hupdate
  obtain ⟨hbase, hhash, -⟩ := buildCounterUpdate_spec hbuild
  obtain ⟨base, hbase⟩ := Option.isSome_iff_exists.mp hbase
  rw [hhash]
  exact ((ha.carried snapshot hsnapshot).based base hbase).2

/-- No account exceeds what it counted, committed amounts included. -/
theorem flushed_add_unmarked_le (ha : c.Accounted start rows flight committed past) {r : Ref}
    (hr : r < c.nextRef) (k : Counter) :
    (c.heap r).flushed k + unmarked flight committed k r ≤ (c.heap r).count k := by
  have hflushed := (ha.flushed r hr k).2
  unfold unmarked
  split
  · by_cases hmem : r ∈ flight.map IndexSnapshot.entry
    · obtain ⟨snapshot, hsnapshot, rfl⟩ := List.mem_map.mp hmem
      rw [sentTo_eq_amount ha.flight_nodup hsnapshot]
      exact (ha.carried snapshot hsnapshot).le k
    · rw [sentTo_eq_zero hmem, add_zero]
      exact hflushed
  · rw [add_zero]
    exact hflushed

/-- A row holds at most its start value and the sightings of its hash. -/
theorem count_le (ha : c.Accounted start rows flight committed past) (k : Counter) (h : Bytes) :
    rows.count k h ≤ start.count k h + countSightings k h past := by
  calc rows.count k h
      = start.count k h + tally c.nextRef c.owner
          (fun r ↦ (c.heap r).flushed k + unmarked flight committed k r) h := ha.written k h
    _ ≤ start.count k h + tally c.nextRef c.owner (fun r ↦ (c.heap r).count k) h := by
      gcongr
      exact tally_le fun r hr _ ↦ ha.flushed_add_unmarked_le hr k
    _ = start.count k h + countSightings k h past := by rw [ha.sightings]

end Accounted

end TorrentCatalog

/-! ## The system -/

/-- What the index thread knows about the database while it holds something. -/
def IndexPhase.Sound (rows : Rows) : IndexPhase → Prop
  | .documentsWritten marks => ∀ mark ∈ marks,
    mark.1.metadata.isSome ∧ TorrentCatalog.Based rows mark.1.infoHash mark.2
  | .countersWritten _ missing => missing = []
  | .countersMissing _ => False
  | .checksRead infoHashes found => found = rows.lookupCounters infoHashes ∧
    ∀ infoHash ∈ infoHashes, infoHash.length = nodeIdLength
  | _ => True

theorem based_of_lookupCounters {rows : Rows} (infoHashes : List Bytes) {h : Bytes}
    {base : IndexBase} (hlookup : (rows.lookupCounters infoHashes).lookup h = some base) :
    TorrentCatalog.Based rows h base := by
  rw [Rows.lookup_lookupCounters] at hlookup
  split at hlookup
  · obtain ⟨row, hrow, rfl⟩ := Option.map_eq_some_iff.mp hlookup
    exact ⟨row.seenCount_nonneg, by rw [hrow]; rfl⟩
  · cases hlookup

namespace IndexSystem

open TorrentCatalog

/-- The accounts are in order, whatever the index thread holds. -/
structure Balanced (limits : CatalogLimits) (start : Rows) (past : List Sighting)
    (s : IndexSystem) : Prop where
  sound : Sound limits (fun _ ↦ True) s.session.catalog s.session.fetchClaims s.session.lookupClaims
  accounted : s.session.catalog.Accounted start s.rows s.phase.flight s.phase.committed past
  phase : s.phase.Sound s.rows

/-- The run meets this condition when no step puts back a batch of counters one of whose entries was
evicted, and so orphaned, since the batch was drained. -/
def requeuesOnce (s : IndexSystem) (label : IndexLabel) : Prop :=
  match label with
  | .failCounters => ∀ snapshot ∈ s.phase.flight, snapshot.entry ∉ s.session.catalog.orphanCounters
  | _ => True

instance (s : IndexSystem) (label : IndexLabel) : Decidable (s.requeuesOnce label) := by
  unfold requeuesOnce
  cases label <;> infer_instance

variable {limits : CatalogLimits} {start : Rows} {past : List Sighting} {s s' : IndexSystem}

theorem Balanced.represented (hs : s.Balanced limits start past) :
    s.session.catalog.settle.Represented ∅ := hs.sound.settle.represented

/-- A call that ends in either phase with its accounts in order. -/
theorem Balanced.call (hs : s.Balanced limits start past) {op : CatalogOp} {phase : IndexPhase}
    (hop : s.session.permits looseStores op)
    (haccounted : (s.session.exec op).catalog.Accounted start s.rows phase.flight phase.committed past)
    (hfailed : (s.session.exec op).catalog.raised = true →
      (s.session.exec op).catalog.Accounted start s.rows [] false past)
    (hphase : phase.Sound s.rows) : (s.call op phase).Balanced limits start past where
  sound := s.session.exec_sound (anyEntry_invariant limits looseStores) hs.sound op hop
  accounted := by
    unfold IndexSystem.call
    simp only
    split
    next hraised => exact hfailed hraised
    next => exact haccounted
  phase := by
    unfold IndexSystem.call
    simp only
    split
    · trivial
    · exact hphase

theorem Balanced.commitDocuments (hs : s.Balanced limits start past) {batch : List IndexSnapshot}
    (hphase : s.phase = .documentsDrained batch) :
    (s.commitDocuments batch).Balanced limits start past := by
  have haccounted := hs.accounted
  rw [hphase] at haccounted
  unfold IndexSystem.commitDocuments
  cases hdocuments : documentsOf batch with
  | none => exact ⟨hs.sound, haccounted.withdrawn, trivial⟩
  | some documents =>
    have hbuilt := documentsOf_spec hdocuments
    have hrows (h : Bytes) (hrow : (s.rows h).isSome) :
        ((s.rows.writeDocuments documents).1 h).isSome :=
      (Rows.isSome_writeDocuments s.rows documents h).mpr (Or.inl hrow)
    have hcommitted := haccounted.commit (s.rows.writeDocuments documents).1 hrows
      fun k h ↦ by
        rw [Rows.count_writeDocuments, sum_filter_of_forall₂ (hbuilt.imp fun _ _ hbuild ↦
          ⟨(buildDocument_spec hbuild).2.1, (buildDocument_spec hbuild).2.2 k⟩)]
        rfl
    refine ⟨hs.sound, ?_, fun mark hmark ↦ ?_⟩
    · simpa [IndexPhase.flight, IndexPhase.committed, Function.comp_def] using hcommitted
    · obtain ⟨snapshot, hsnapshot, rfl⟩ := List.mem_map.mp hmark
      obtain ⟨document, hdocument, hbuild⟩ := exists_of_forall₂ hbuilt hsnapshot
      obtain ⟨hmeta, hhash, -⟩ := buildDocument_spec hbuild
      have hrow : ((s.rows.writeDocuments documents).1 snapshot.infoHash).isSome :=
        (Rows.isSome_writeDocuments s.rows documents snapshot.infoHash).mpr
          (Or.inr ⟨document, hdocument, hhash⟩)
      refine ⟨hmeta, ?_, hrow⟩
      simp only [baseOf]
      cases hbase : snapshot.base with
      | some base => exact ((haccounted.carried snapshot hsnapshot).based base hbase).1
      | none =>
        cases hprevious : (s.rows.writeDocuments documents).2.get? snapshot.infoHash with
        | some base => exact Rows.writeDocuments_previous s.rows documents hprevious
        | none => exact le_rfl

theorem Balanced.commitCounters (hs : s.Balanced limits start past) {batch : List IndexSnapshot}
    (hphase : s.phase = .countersDrained batch) :
    (s.commitCounters batch).Balanced limits start past := by
  have haccounted := hs.accounted
  rw [hphase] at haccounted
  unfold IndexSystem.commitCounters
  cases hupdates : batch.mapM buildCounterUpdate with
  | none => exact ⟨hs.sound, haccounted.withdrawn, trivial⟩
  | some updates =>
    have hbuilt := forall₂_of_mapM hupdates
    have hexists : ∀ update ∈ updates, (s.rows update.infoHash).isSome :=
      haccounted.rows_of_updates hupdates
    obtain ⟨hmissing, hrows, hcount⟩ := Rows.updateCounters_of_rows s.rows updates hexists
    refine ⟨hs.sound, ?_, hmissing⟩
    refine haccounted.commit _ (fun h hrow ↦ (hrows h).mpr hrow) fun k h ↦ ?_
    rw [hcount, sum_filter_of_forall₂ (hbuilt.imp fun _ _ hbuild ↦
      ⟨(buildCounterUpdate_spec hbuild).2.1, (buildCounterUpdate_spec hbuild).2.2 k⟩)]
    rfl

theorem start_balanced (maxPending : ℕ) (checkDatabase : Bool) :
    (IndexSystem.start limits maxPending checkDatabase start).Balanced limits start [] where
  sound := Session.exec_sound (anyEntry_invariant limits looseStores) Session.new_sound
    (.enableIndexTracking maxPending checkDatabase) trivial
  accounted := by
    have hnew : (TorrentCatalog.new limits).settle.Accounted start start [] false [] := by
      constructor
      case written => intro k h; simp [tally, TorrentCatalog.new, TorrentCatalog.settle]
      case sightings =>
        intro k h
        simp [tally, TorrentCatalog.new, TorrentCatalog.settle, countSightings]
      case documents => exact fun h r hr ↦ by cases hr
      case orphans_nodup => exact List.nodup_nil
      case orphans => exact fun r hr ↦ by cases hr
      case flight_nodup => exact List.nodup_nil
      case carried => exact fun snapshot hsnapshot ↦ by cases hsnapshot
      all_goals exact fun r hr ↦ absurd hr (Nat.not_lt_zero r)
    exact hnew.guarded fun _ ↦ hnew.of_eq
  phase := trivial

/-- Every step that does not put a batch back beside its orphans keeps the balance. -/
theorem Balanced.step (hs : s.Balanced limits start past) {label : IndexLabel}
    (honce : s.requeuesOnce label) (hstep : s.step label = some s') :
    s'.Balanced limits start (past ++ label.sightings) := by
  have hrep := hs.represented
  have hacc := hs.accounted
  cases step_cases hstep with
  | @client op hclient hpermitted =>
    refine ⟨s.session.exec_sound (anyEntry_invariant limits looseStores) hs.sound op hpermitted, ?_,
      hs.phase⟩
    refine (Accounted.clientRules start s.rows s.phase.flight s.phase.committed).apply hs.sound hclient
      hpermitted (opAllowed_of_forall (fun _ _ ↦ trivial) (fun _ _ ↦ trivial) _ op) hacc
  | @documentsDrained limit batch hphase hdrained =>
    rw [hphase] at hacc
    have hnext := Accounted.drainIndexDocuments (c := s.session.catalog.settle) hacc.of_eq limit
    rw [hdrained] at hnext
    rw [show IndexLabel.sightings (.drainDocuments limit) = [] from rfl, List.append_nil]
    refine hs.call trivial ?_ (fun _ ↦ hnext.withdrawn) ?_
    · rw [IndexPhase.flight_unlessEmpty_documents]
      cases batch <;> exact hnext
    · cases batch <;> trivial
  | @documentsWritten batch hphase =>
    rw [show IndexLabel.sightings .writeDocuments = [] from rfl, List.append_nil]
    exact hs.commitDocuments hphase
  | @documentsFailed batch hphase _ =>
    rw [hphase] at hacc
    have hnext := Accounted.requeueIndexDocuments (c := s.session.catalog.settle) hacc.of_eq
    rw [show IndexLabel.sightings .failDocuments = [] from rfl, List.append_nil]
    exact hs.call trivial hnext (fun _ ↦ hnext) trivial
  | @documentMarked snapshot base marks hphase =>
    have hmarks := hs.phase
    rw [hphase] at hacc hmarks
    obtain ⟨hmeta, hbased⟩ := hmarks (snapshot, base) List.mem_cons_self
    have hflight : s.session.catalog.settle.Accounted start s.rows
        (snapshot :: marks.map Prod.fst) true past := hacc.of_eq
    obtain ⟨hnext, hquiet⟩ := hflight.markIndexWritten hrep rfl hmeta hbased
    rw [show IndexLabel.sightings .markDocument = [] from rfl, List.append_nil]
    refine hs.call trivial ?_ (fun hraised ↦ ?_) ?_
    · rw [IndexPhase.flight_unlessEmpty_marks]
      cases marks with
      | nil => exact hnext.landed
      | cons mark rest => exact hnext
    · exact absurd (hquiet.symm.trans hraised) (by decide)
    · cases marks with
      | nil => trivial
      | cons mark rest => exact fun other hother ↦ hmarks other (List.mem_cons_of_mem _ hother)
  | @countersDrained limit batch hphase hdrained =>
    rw [hphase] at hacc
    have hnext := Accounted.drainIndexCounters (c := s.session.catalog.settle) hacc.of_eq hrep limit
    rw [hdrained] at hnext
    rw [show IndexLabel.sightings (.drainCounters limit) = [] from rfl, List.append_nil]
    refine hs.call trivial ?_ (fun _ ↦ hnext.withdrawn) ?_
    · rw [IndexPhase.flight_unlessEmpty_counters]
      cases batch <;> exact hnext
    · cases batch <;> trivial
  | @countersWritten batch hphase =>
    rw [show IndexLabel.sightings .writeCounters = [] from rfl, List.append_nil]
    exact hs.commitCounters hphase
  | @countersFailed batch hphase _ =>
    have horphans : ∀ snapshot ∈ batch, snapshot.entry ∉ s.session.catalog.orphanCounters := by
      intro snapshot hsnapshot
      exact honce snapshot (by rw [hphase]; exact hsnapshot)
    rw [hphase] at hacc
    have hnext := Accounted.requeueIndexCounters (c := s.session.catalog.settle) hacc.of_eq hrep.key
      horphans
    rw [show IndexLabel.sightings .failCounters = [] from rfl, List.append_nil]
    exact hs.call trivial hnext (fun _ ↦ hnext) trivial
  | @countersMarked batch missing hphase =>
    have hmissing : missing = [] := by
      have hsound := hs.phase
      rw [hphase] at hsound
      exact hsound
    subst hmissing
    rw [hphase] at hacc
    obtain ⟨hnext, hquiet⟩ :=
      Accounted.markCountersWritten (c := s.session.catalog.settle) hacc.of_eq rfl
    have hall : batch.filter (fun snapshot ↦ snapshot.infoHash ∉ ([] : List Bytes)) = batch :=
      List.filter_eq_self.mpr fun _ _ ↦ by simp
    rw [show IndexLabel.sightings .markCounters = [] from rfl, List.append_nil, hall]
    exact hs.call trivial hnext.landed (fun hraised ↦ absurd (hquiet.symm.trans hraised) (by decide))
      trivial
  | @missingReset infoHash rest hphase =>
    have hsound := hs.phase
    rw [hphase] at hsound
    exact hsound.elim
  | @checksTaken limit infoHashes hphase _ =>
    rw [hphase] at hacc
    rw [show IndexLabel.sightings (.takeChecks limit) = [] from rfl, List.append_nil]
    refine ⟨hs.sound, ?_, ?_⟩
    · cases infoHashes <;> exact hacc
    · cases infoHashes <;> trivial
  | @rowsRead infoHashes hphase =>
    rw [hphase] at hacc
    rw [show IndexLabel.sightings .readRows = [] from rfl, List.append_nil]
    refine ⟨hs.sound, ?_, ?_⟩
    · simp only
      split <;> exact hacc
    · simp only
      split
      next hlength => exact ⟨rfl, hlength⟩
      next => trivial
  | @readFailed infoHashes hphase =>
    rw [hphase] at hacc
    rw [show IndexLabel.sightings .failRead = [] from rfl, List.append_nil]
    exact ⟨hs.sound, hacc, trivial⟩
  | @checksApplied infoHashes found hphase =>
    have hsound := hs.phase
    rw [hphase] at hacc hsound
    have hfound : found = s.rows.lookupCounters infoHashes := hsound.1
    subst hfound
    have hnext := Accounted.applyDatabaseChecks (c := s.session.catalog.settle) hacc.of_eq hrep
      infoHashes fun h base hlookup ↦ based_of_lookupCounters infoHashes hlookup
    rw [show IndexLabel.sightings .applyChecks = [] from rfl, List.append_nil]
    have hcalled : (s.call (.applyDatabaseChecks infoHashes (s.rows.lookupCounters infoHashes))
        .idle).Balanced limits start past := hs.call trivial hnext (fun _ ↦ hnext) trivial
    exact ⟨hcalled.sound, hcalled.accounted, hcalled.phase⟩
  | @checksSwitched enabled hphase =>
    rw [hphase] at hacc
    have hnext := Accounted.setDatabaseCheck (c := s.session.catalog.settle) hacc.of_eq hrep enabled
    rw [show IndexLabel.sightings (.switchChecks enabled) = [] from rfl, List.append_nil]
    exact hs.call trivial hnext (fun _ ↦ hnext) trivial

/-! ## Runs -/

/-- The sightings that a run records. -/
def sightingsOf (labels : List IndexLabel) : List Sighting := labels.flatMap IndexLabel.sightings

theorem run_balanced {maxPending : ℕ} {checkDatabase : Bool} {labels : List IndexLabel}
    (honce : indexMachine.Along requeuesOnce (.start limits maxPending checkDatabase start) labels)
    (hrun : indexMachine.run (.start limits maxPending checkDatabase start) labels = some s) :
    s.Balanced limits start (sightingsOf labels) := by
  refine indexMachine.run_history_invariant
    (I := fun labels s ↦ s.Balanced limits start (sightingsOf labels)) ?_ []
    (start_balanced maxPending checkDatabase) honce hrun
  intro past s label s' hs hlabel hstep
  have hnext := hs.step hlabel hstep
  simpa [sightingsOf] using hnext

/-- In every run that puts no batch of counters back beside its orphans, no row exceeds its start
value and the sightings of its hash, no entry has flushed more than it counted, and the assertion
that closes `mark_counters_written` holds. -/
theorem sightings_counted_once {maxPending : ℕ} {checkDatabase : Bool} {labels : List IndexLabel}
    (honce : indexMachine.Along requeuesOnce (.start limits maxPending checkDatabase start) labels)
    (hrun : indexMachine.run (.start limits maxPending checkDatabase start) labels = some s) :
    (∀ k h, s.rows.count k h ≤ start.count k h + countSightings k h (sightingsOf labels)) ∧
      (∀ r < s.session.catalog.nextRef, ∀ k,
        (s.session.catalog.heap r).flushed k ≤ (s.session.catalog.heap r).count k) ∧
      ∀ s', s.step .markCounters = some s' → s'.session.catalog.raised = false := by
  have hs := run_balanced honce hrun
  refine ⟨hs.accounted.count_le, fun r hr k ↦ (hs.accounted.flushed r hr k).2, fun s' hstep ↦ ?_⟩
  cases step_cases hstep with
  | @countersMarked batch missing hphase =>
    have hmissing := hs.phase
    have hacc := hs.accounted
    rw [hphase] at hmissing hacc
    have hall : batch.filter (fun snapshot ↦ snapshot.infoHash ∉ missing) = batch := by
      rw [show missing = [] from hmissing]
      exact List.filter_eq_self.mpr fun _ _ ↦ by simp
    rw [hall]
    exact (Accounted.markCountersWritten (c := s.session.catalog.settle) hacc.of_eq rfl).2

end IndexSystem

/-! ## A batch that is put back twice -/

/-- The row of a torrent that was written in an earlier run. -/
def sampleRow (n : UInt8) : Document where
  infoHash := sampleHash n
  name := []
  size := 1
  fileCount := 1
  pieceLength := 1
  isPrivate := false
  fetchedAt := 0
  seenCount := 1
  announceCount := 0
  firstSeen := 0
  lastSeen := 0
  files := [([], 1)]
  seenCount_nonneg := Int.one_nonneg

def sampleRows (n : UInt8) : Rows := Function.update (fun _ ↦ none) (sampleHash n) (some (sampleRow n))

/-- The known torrent `1` is sighted, and its counter update is in flight. -/
def drainedLabels : List IndexLabel :=
  [.client (.recordHash (sampleHash 1) .getPeers none 0), .takeChecks 10, .readRows, .applyChecks,
    .drainCounters 10]

/-- The write fails, is repeated and succeeds. -/
def repeatedLabels : List IndexLabel :=
  drainedLabels ++ [.failCounters, .drainCounters 10, .writeCounters]

/-- The same run, but a second torrent pushes the first one out before the write fails. -/
def doubledLabels : List IndexLabel :=
  drainedLabels ++ [.client (.recordHash (sampleHash 2) .getPeers none 0), .failCounters,
    .drainCounters 10, .writeCounters]

theorem sightings_counted_once_repeated : ∃ s,
    indexMachine.run (.start oneEntry 10 true (sampleRows 1)) repeatedLabels = some s ∧
      s.rows.count .seen (sampleHash 1) ≤ 2 := by
  have hcomputed :
      (indexMachine.run (.start oneEntry 10 true (sampleRows 1)) repeatedLabels).isSome := by
    decide +kernel
  obtain ⟨s, hrun⟩ := Option.isSome_iff_exists.mp hcomputed
  have honce := (IndexSystem.sightings_counted_once (by decide +kernel) hrun).1
  exact ⟨s, hrun, (honce .seen (sampleHash 1)).trans (by decide +kernel)⟩

/-- One sighting is added to the row twice, and marking it fails the closing assertion. -/
theorem evicted_batch_counted_twice : ∃ s s',
    indexMachine.run (.start oneEntry 10 true (sampleRows 1)) doubledLabels = some s ∧
      (sampleRows 1).count .seen (sampleHash 1) +
        countSightings .seen (sampleHash 1) (IndexSystem.sightingsOf doubledLabels) <
          s.rows.count .seen (sampleHash 1) ∧
      s.step .markCounters = some s' ∧ s'.session.catalog.raised = true := by
  have hcomputed : ((indexMachine.run (.start oneEntry 10 true (sampleRows 1)) doubledLabels).any
      fun s ↦ (sampleRows 1).count .seen (sampleHash 1) +
        countSightings .seen (sampleHash 1) (IndexSystem.sightingsOf doubledLabels) <
          s.rows.count .seen (sampleHash 1) ∧
        (s.step .markCounters).any fun s' ↦ s'.session.catalog.raised) = true := by
    decide +kernel
  obtain ⟨s, hrun, htest⟩ := (Option.any_eq_true _ _).mp hcomputed
  obtain ⟨hcount, hmark⟩ := of_decide_eq_true htest
  obtain ⟨s', hstep, hraised⟩ := (Option.any_eq_true _ _).mp hmark
  exact ⟨s, s', hrun, hcount, hstep, hraised⟩

end DhtScraper
