import DhtScraper.Index.Accounting

/-!
# The queues name their entries

Whatever the threads do, a document waits under the hash of its entry, the orphans are evicted entries,
and the snapshots that the index thread has drained still describe their entries: nothing of their
amounts was flushed since.  Unlike the accounts this holds in every state, also after an entry was
queued twice.
-/

namespace DhtScraper

open Library

def IndexSnapshot.count (snapshot : IndexSnapshot) : Counter → ℤ
  | .seen => snapshot.seenCount
  | .announce => snapshot.announceCount

namespace TorrentCatalog

/-- What was drained is not flushed: the flushed counts of the entry are those of the drain. -/
structure Outstanding (c : TorrentCatalog) (snapshot : IndexSnapshot) : Prop where
  allocated : snapshot.entry < c.nextRef
  owner : c.owner snapshot.entry = snapshot.infoHash
  unflushed : ∀ k, (c.heap snapshot.entry).flushed k + snapshot.delta k = snapshot.count k

structure Keyed (c : TorrentCatalog) (flight : List IndexSnapshot) : Prop where
  documents : ∀ h r, c.indexDocuments.get? h = some r → r < c.nextRef ∧ c.owner r = h
  orphans : ∀ r ∈ c.orphanCounters, r < c.nextRef ∧ ∀ h, c.entries.get? h ≠ some r
  bounded : c.orphanCounters.length ≤ maxOrphanCounters
  carried : ∀ snapshot ∈ flight, c.Outstanding snapshot

theorem outstanding_indexSnapshot {c : TorrentCatalog} {r : Ref} (hr : r < c.nextRef) :
    c.Outstanding (indexSnapshot r (c.heap r)) where
  allocated := hr
  owner := rfl
  unflushed := fun k ↦ by
    cases k <;> simp [indexSnapshot, IndexSnapshot.delta, IndexSnapshot.count, TorrentEntry.flushed]

namespace Keyed

variable {c c' mid : TorrentCatalog} {flight : List IndexSnapshot} {h : Bytes} {r : Ref}
  {entry : TorrentEntry}

/-- Entries keep their hashes, and those in flight their flushed counts. -/
theorem kept (hk : c.Keyed flight) (owner : ∀ r < c.nextRef, c'.owner r = c.owner r)
    (flushed : ∀ snapshot ∈ flight, ∀ k,
      (c'.heap snapshot.entry).flushed k = (c.heap snapshot.entry).flushed k)
    (nextRef : c.nextRef ≤ c'.nextRef)
    (documents : ∀ h r, c'.indexDocuments.get? h = some r →
      c.indexDocuments.get? h = some r ∨ r < c'.nextRef ∧ c'.owner r = h)
    (orphans : ∀ r ∈ c'.orphanCounters, r < c'.nextRef ∧ ∀ h, c'.entries.get? h ≠ some r)
    (bounded : c'.orphanCounters.length ≤ maxOrphanCounters) : c'.Keyed flight where
  documents := fun k r hr ↦ by
    rcases documents k r hr with hold | hnew
    · obtain ⟨halloc, howner⟩ := hk.documents k r hold
      exact ⟨halloc.trans_le nextRef, (owner r halloc).trans howner⟩
    · exact hnew
  orphans := orphans
  bounded := bounded
  carried := fun snapshot hsnapshot ↦ by
    have hold := hk.carried snapshot hsnapshot
    exact
      { allocated := hold.allocated.trans_le nextRef
        owner := (owner _ hold.allocated).trans hold.owner
        unflushed := fun k ↦ by rw [flushed snapshot hsnapshot]; exact hold.unflushed k }

theorem of_fields (hk : c.Keyed flight) (heap : c'.heap = c.heap)
    (nextRef : c'.nextRef = c.nextRef) (entries : c'.entries = c.entries)
    (documents : c'.indexDocuments = c.indexDocuments)
    (orphans : c'.orphanCounters = c.orphanCounters) : c'.Keyed flight :=
  hk.kept (fun r _ ↦ by rw [TorrentCatalog.owner, heap]; rfl) (fun _ _ _ ↦ by rw [heap]) nextRef.ge
    (fun _ _ hr ↦ Or.inl (documents ▸ hr)) (by rw [orphans, nextRef, entries]; exact hk.orphans)
    (by rw [orphans]; exact hk.bounded)

/-- Only fields that the batch in flight does not depend on change. -/
theorem of_eq (hk : c.Keyed flight)
    {limits : CatalogLimits}
    {fetched fetchable needsLookup needsCheck indexCounters : OrderedMap Bytes Ref}
    {stateCounts : FetchState → ℤ}
    {observations discovered evicted indexMaxPending indexDropped : ℕ}
    {lookupsInProgress metadataBytes knownDone : ℤ} {indexTracking checkDatabase raised : Bool} :
    { c with
      limits := limits, fetched := fetched, fetchable := fetchable, needsLookup := needsLookup
      needsCheck := needsCheck, stateCounts := stateCounts, observations := observations
      discovered := discovered, evicted := evicted, lookupsInProgress := lookupsInProgress
      indexTracking := indexTracking, indexMaxPending := indexMaxPending
      indexCounters := indexCounters, indexDropped := indexDropped, checkDatabase := checkDatabase
      metadataBytes := metadataBytes, knownDone := knownDone, raised := raised }.Keyed flight :=
  hk.of_fields rfl rfl rfl rfl rfl

theorem withdrawn (hk : c.Keyed flight) : c.Keyed [] :=
  { hk with carried := fun _ hsnapshot ↦ by cases hsnapshot }

/-- The flushed counts of an entry change only while no batch is in flight. -/
theorem edited (hk : c.Keyed flight) (he : c.Edited c' h r entry) (hkey : c.owner r = h)
    (hflushed : flight = [] ∨ ∀ k, entry.flushed k = (c.heap r).flushed k)
    (documents : ∀ h r, c'.indexDocuments.get? h = some r →
      c.indexDocuments.get? h = some r ∨ r < c'.nextRef ∧ c'.owner r = h)
    (orphans : c'.orphanCounters = c.orphanCounters) : c'.Keyed flight := by
  have hother {r' : Ref} (hne : r' ≠ r) : c'.heap r' = c.heap r' := by
    rw [he.heap, Function.update_of_ne hne]
  refine hk.kept (fun r' _ ↦ ?_) (fun snapshot hsnapshot k ↦ ?_) he.nextRef.ge documents
    (by rw [orphans, he.nextRef, he.entries]; exact hk.orphans) (by rw [orphans]; exact hk.bounded)
  · by_cases hr' : r' = r
    · subst hr'
      exact he.key.trans hkey.symm
    · exact congrArg TorrentEntry.infoHash (hother hr')
  · rcases hflushed with hnil | hsame
    · rw [hnil] at hsnapshot
      cases hsnapshot
    · by_cases hr' : snapshot.entry = r
      · rw [hr', he.entry_eq]
        exact hsame k
      · rw [hother hr']

/-! ## Operations of the crawler and fetch threads -/

theorem obtained (hk : c.Keyed flight) {now : ℚ} (ho : c.Obtained mid h now r)
    (hq : c.QueuesKept mid) : mid.Keyed flight := by
  cases ho with
  | live hr entries heap nextRef =>
      exact hk.of_fields heap nextRef entries hq.indexDocuments hq.orphanCounters
  | new hnone entries heap nextRef =>
    have hold {r : Ref} (hr : r < c.nextRef) : mid.heap r = c.heap r := by
      rw [heap, Function.update_of_ne (Nat.ne_of_lt hr)]
    refine hk.kept (fun r hr ↦ congrArg TorrentEntry.infoHash (hold hr))
      (fun snapshot hsnapshot k ↦ by rw [hold (hk.carried snapshot hsnapshot).allocated])
      (by rw [nextRef]; exact Nat.le_succ _) (fun k r hr ↦ Or.inl (hq.indexDocuments ▸ hr))
      (fun r hr ↦ ?_) (by rw [hq.orphanCounters]; exact hk.bounded)
    rw [hq.orphanCounters] at hr
    obtain ⟨halloc, hdead⟩ := hk.orphans r hr
    refine ⟨by rw [nextRef]; exact halloc.trans (Nat.lt_succ_self _), fun k hk' ↦ ?_⟩
    rw [entries, OrderedMap.get?_insert] at hk'
    split at hk'
    · exact absurd (Option.some.inj hk').symm (Nat.ne_of_lt halloc)
    · exact hdead k hk'

theorem evicted (hk : c.Keyed flight) (hrep : c.Represented ∅) (hr : c.entries.get? h = some r)
    (he : c.Evicted c' h r) : c'.Keyed flight := by
  have hsame (r' : Ref) : c'.owner r' = c.owner r' ∧
      ∀ k, (c'.heap r').flushed k = (c.heap r').flushed k := by
    by_cases hr' : r' = r
    · subst hr'
      rw [TorrentCatalog.owner, he.heap, Function.update_self]
      exact ⟨rfl, fun k ↦ by cases k <;> rfl⟩
    · rw [TorrentCatalog.owner, he.heap_other hr']
      exact ⟨rfl, fun _ ↦ rfl⟩
  have hsub : c'.orphanCounters.Sublist (c.orphanCounters ++ [r]) := by
    rw [he.orphanCounters]
    split
    · exact c.addOrphanLocked_sublist r
    · exact List.sublist_append_left _ _
  refine hk.kept (fun r' _ ↦ (hsame r').1) (fun snapshot _ ↦ (hsame snapshot.entry).2) he.nextRef.ge
    (fun k r' hr' ↦ Or.inl (he.indexDocuments ▸ hr')) (fun r' hr' ↦ ?_) ?_
  · rw [he.nextRef]
    rcases List.mem_append.mp (hsub.subset hr') with hmem | hmem
    · refine ⟨(hk.orphans r' hmem).1, fun k hk' ↦ ?_⟩
      exact (hk.orphans r' hmem).2 k (he.live_iff.mp hk').2
    · rw [List.mem_singleton.mp hmem]
      refine ⟨hrep.allocated h r hr, fun k hk' ↦ ?_⟩
      obtain ⟨hne, hlive⟩ := he.live_iff.mp hk'
      exact hne (hrep.live_unique hr hlive)
  · rw [he.orphanCounters]
    split
    · exact c.length_addOrphanLocked r hk.bounded
    · exact hk.bounded

theorem dropped (hk : c.Keyed flight) (hrep : c.Represented ∅) {key : Bytes}
    {rest : OrderedMap Bytes Ref} (hpop : c.indexDocuments.popFirst = some ((key, r), rest)) :
    ({ c with
      indexDocuments := rest
      indexDropped := c.indexDropped + 1 }.dropUnwrittenMetadataLocked r).Keyed flight := by
  let popped : TorrentCatalog := { c with
    indexDocuments := rest
    indexDropped := c.indexDropped + 1 }
  have hpopped : popped.Keyed flight := by
    refine hk.kept (fun _ _ ↦ rfl) (fun _ _ _ ↦ rfl) le_rfl (fun k r' hr' ↦ Or.inl ?_) hk.orphans
      hk.bounded
    rw [show popped.indexDocuments = rest from rfl, (OrderedMap.get?_of_popFirst hpop).2 k] at hr'
    split at hr'
    · cases hr'
    · exact hr'
  obtain ⟨-, hqueues, ⟨b, heq⟩ | ⟨k, hr, hkey, hedited⟩⟩ :=
    dropUnwrittenMetadataLocked_spec (c := popped) hrep.of_eq r
  · rw [show popped.dropUnwrittenMetadataLocked r = _ from heq]
    exact hpopped.of_eq
  · have howner : popped.owner r = k := hrep.key k r hr
    refine hpopped.edited hedited howner (Or.inr fun k ↦ ?_) (fun k' r' hr' ↦ Or.inl ?_)
      hqueues.orphanCounters
    · cases k <;> rfl
    · rw [hqueues.indexDocuments] at hr'
      exact hr'

theorem queueDocumentLocked (hk : c.Keyed flight) (hrep : c.Represented ∅) (hr : r < c.nextRef) :
    (c.queueDocumentLocked r).Keyed flight := by
  have hqueued : (c.documentQueued r).Keyed flight := by
    refine hk.kept (fun _ _ ↦ rfl) (fun _ _ _ ↦ rfl) le_rfl (fun k r' hr' ↦ ?_) hk.orphans hk.bounded
    refine (OrderedMap.get?_setDefault_cases hr').imp_right ?_
    rintro ⟨rfl, rfl⟩
    exact ⟨hr, rfl⟩
  exact queueDocumentLocked_induction (P := fun c ↦ c.Keyed flight) c r hqueued
    fun key dropped rest hpop ↦ hqueued.dropped (hrep.documentQueued r) hpop

theorem clientRules (flight : List IndexSnapshot) :
    ClientRules (fun _ _ ↦ True) (fun _ _ ↦ True) fun _ c ↦ c.Keyed flight where
  quiet := fun _ _ _ _ hk ↦ hk.of_eq
  reworked := fun _ c c' h r entry hrep hk hr hw ↦ by
    refine hk.edited hw.edited (hrep.key h r hr) (Or.inr fun k ↦ hw.record.account.flushed k)
      (fun k r' hr' ↦ Or.inl ?_) hw.queues.orphanCounters
    rw [← hw.queues.indexDocuments]
    exact hr'
  sighted := fun _ c mid c' h r source moment entry _ hk _ ho hq hmid hs ↦ by
    refine (hk.obtained ho hq).edited hs.edited (hmid.key h r ho.entry_live) (Or.inr fun k ↦ ?_)
      (fun k r' hr' ↦ Or.inl ?_) hs.orphanCounters
    · rw [hs.record.account.flushed]
      cases k <;> rfl
    · rw [← hs.indexDocuments]
      exact hr'
  evicted := fun _ _ _ _ _ hrep hk hr _ _ he ↦ hk.evicted hrep hr he
  stored := fun _ c mid c' r metadata now _ hk _ ho hq hmid hs ↦ by
    refine (hk.obtained ho hq).edited hs.edited (hmid.key _ r ho.entry_live) (Or.inr fun k ↦ ?_)
      (fun k r' hr' ↦ ?_) hs.orphanCounters
    · cases k <;> rfl
    · rw [hs.indexDocuments] at hr'
      split at hr'
      · refine (OrderedMap.get?_setDefault_cases hr').imp_right ?_
        rintro ⟨rfl, rfl⟩
        rw [hs.edited.nextRef]
        exact ⟨hmid.allocated _ _ ho.entry_live, hs.edited.key⟩
      · exact Or.inl hr'
  dropped := fun _ _ _ _ _ hrep hk hpop ↦ hk.dropped hrep hpop
  stable := fun _ _ _ _ _ _ _ _ ↦ trivial

/-! ## Operations of the index thread -/

theorem guarded (hk : c.Keyed flight) {p : Prop} [Decidable p] {body : TorrentCatalog}
    (hbody : p → body.Keyed flight) : (c.guarded p body).Keyed flight := by
  unfold TorrentCatalog.guarded
  split
  next hp => exact hbody hp
  next => exact hk.of_eq

theorem drainIndexDocuments (hk : c.Keyed []) (limit : ℕ) :
    (c.drainIndexDocuments limit).1.Keyed (c.drainIndexDocuments limit).2 := by
  obtain ⟨taken, rest, b, hsplit, hstate, hbatch, -⟩ := c.drainDocumentsLocked_spec limit
  have hrest : (c.drainDocumentsLocked limit).1.Keyed [] := by
    rw [hstate]
    refine hk.kept (fun _ _ ↦ rfl) (fun _ _ _ ↦ rfl) le_rfl (fun k r hr ↦ Or.inl ?_) hk.orphans
      hk.bounded
    exact (OrderedMap.get?_eq_some_iff_of_items hsplit).mpr (Or.inr hr)
  simp only [TorrentCatalog.drainIndexDocuments]
  split
  · exact hrest
  next hquiet =>
    have hb : b = false := by
      rw [hstate] at hquiet
      simpa using hquiet
    refine { hrest with carried := fun snapshot hsnapshot ↦ ?_ }
    rw [hbatch hb] at hsnapshot
    obtain ⟨item, hitem, rfl⟩ := List.mem_map.mp hsnapshot
    have hwaits := (OrderedMap.get?_eq_some_iff_of_items hsplit).mpr (Or.inl hitem)
    rw [hstate]
    exact outstanding_indexSnapshot (hk.documents _ _ hwaits).1

theorem requeueIndexDocuments (hk : c.Keyed flight) : (c.requeueIndexDocuments flight).Keyed [] := by
  obtain ⟨documents, b, hstate, -, hnew, -⟩ := c.requeueIndexDocuments_spec flight
  rw [hstate]
  refine hk.withdrawn.kept (fun _ _ ↦ rfl) (fun _ _ _ ↦ rfl) le_rfl (fun k r hr ↦ ?_) hk.orphans
    hk.bounded
  rcases hnew k r hr with hold | ⟨-, snapshot, hsnapshot, hkey, hentry⟩
  · exact Or.inl hold
  · have hcarried := hk.carried snapshot hsnapshot
    exact Or.inr (hentry ▸ ⟨hcarried.allocated, hcarried.owner.trans hkey⟩)

/-- The first counter leaves its queue. -/
theorem popCounter (hk : c.Keyed flight) (hrep : c.Represented ∅) {k : Bytes}
    {rest : OrderedMap Bytes Ref} (hpop : c.indexCounters.popFirst = some ((k, r), rest)) :
    { c with indexCounters := rest }.Represented ∅ ∧ { c with indexCounters := rest }.Keyed flight ∧
      r < c.nextRef := by
  obtain ⟨hfirst, hrest⟩ := OrderedMap.get?_of_popFirst hpop
  refine ⟨hrep.of_counters fun k' r' hr' ↦ Or.inl ?_, hk.of_eq,
    hrep.allocated k r (hrep.counters_live k r hfirst)⟩
  rw [hrest] at hr'
  split at hr'
  · cases hr'
  · exact hr'

/-- An orphan leaves its queue. -/
theorem popOrphan (hk : c.Keyed flight) {rest : List Ref} (horphans : c.orphanCounters = r :: rest) :
    { c with orphanCounters := rest }.Keyed flight := by
  refine hk.kept (fun _ _ ↦ rfl) (fun _ _ _ ↦ rfl) le_rfl (fun _ _ hr ↦ Or.inl hr)
    (fun r' hr' ↦ hk.orphans r' ?_) ?_
  · rw [horphans]
    exact List.mem_cons_of_mem _ hr'
  · have hbounded := hk.bounded
    rw [horphans, List.length_cons] at hbounded
    exact (Nat.le_succ _).trans hbounded

theorem take (hk : c.Keyed flight) (hr : r < c.nextRef) :
    c.Keyed (flight ++ [indexSnapshot r (c.heap r)]) :=
  { hk with
    carried := fun snapshot hsnapshot ↦ by
      rcases List.mem_append.mp hsnapshot with hold | hlast
      · exact hk.carried snapshot hold
      · rw [List.mem_singleton.mp hlast]
        exact outstanding_indexSnapshot hr }

theorem drainRules : CounterDrainRules (fun batch c ↦ c.Represented ∅ ∧ c.Keyed batch)
    fun c ↦ c.Keyed [] where
  orphanTaken := fun batch c r rest hd horphans _ ↦ by
    have hr : r < c.nextRef := (hd.2.orphans r (by rw [horphans]; exact List.mem_cons_self)).1
    exact ⟨hd.1.of_eq, (hd.2.popOrphan horphans).take hr⟩
  orphanSkipped := fun _ _ _ _ hd horphans _ _ ↦ ⟨hd.1.of_eq, hd.2.popOrphan horphans⟩
  orphanFailed := fun _ _ _ _ hd horphans _ ↦ (hd.2.popOrphan horphans).withdrawn.of_eq
  documentQueued := fun _ _ k r rest hd hpop _ _ ↦ by
    obtain ⟨hrep, hk, hr⟩ := hd.2.popCounter hd.1 hpop
    exact ⟨hrep.queueDocumentLocked r, hk.queueDocumentLocked hrep hr⟩
  unbasedSkipped := fun _ _ _ _ _ hd hpop _ _ ↦
    ⟨(hd.2.popCounter hd.1 hpop).1, (hd.2.popCounter hd.1 hpop).2.1⟩
  counterTaken := fun _ _ _ _ _ hd hpop _ _ _ ↦ by
    obtain ⟨hrep, hk, hr⟩ := hd.2.popCounter hd.1 hpop
    exact ⟨hrep, hk.take hr⟩
  counterSkipped := fun _ _ _ _ _ hd hpop _ _ ↦
    ⟨(hd.2.popCounter hd.1 hpop).1, (hd.2.popCounter hd.1 hpop).2.1⟩
  counterFailed := fun _ _ _ _ _ hd hpop _ _ ↦ (hd.2.popCounter hd.1 hpop).2.1.withdrawn.of_eq
  failed := fun _ _ hd _ ↦ hd.2.withdrawn

theorem drainIndexCounters (hk : c.Keyed []) (hrep : c.Represented ∅) (limit : ℕ) :
    (c.drainIndexCounters limit).1.Keyed (c.drainIndexCounters limit).2 := by
  rcases drainRules.drainIndexCounters limit ⟨hrep, hk⟩ with hd | ⟨hbatch, hfailed⟩
  · exact hd.2
  · rw [hbatch]
    exact hfailed

/-- An evicted entry goes to the orphans. -/
theorem orphaned (hk : c.Keyed flight) (hr : r < c.nextRef) (hdead : ∀ h, c.entries.get? h ≠ some r) :
    (c.addOrphanLocked r).Keyed flight := by
  refine hk.kept (fun _ _ ↦ rfl) (fun _ _ _ ↦ rfl) le_rfl (fun _ _ hr' ↦ Or.inl hr') (fun r' hr' ↦ ?_)
    (c.length_addOrphanLocked r hk.bounded)
  rcases List.mem_append.mp ((c.addOrphanLocked_sublist r).subset hr') with hmem | hmem
  · exact hk.orphans r' hmem
  · rw [List.mem_singleton.mp hmem]
    exact ⟨hr, hdead⟩

theorem requeueIndexCounters (hk : c.Keyed flight)
    (hkey : ∀ h r, c.entries.get? h = some r → c.owner r = h) :
    (c.requeueIndexCounters flight).Keyed [] := by
  unfold TorrentCatalog.requeueIndexCounters
  induction flight generalizing c with
  | nil => exact hk
  | cons first rest ih =>
    have hcarried := hk.carried first List.mem_cons_self
    have htail : c.Keyed rest :=
      { hk with carried := fun snapshot hsnapshot ↦
          hk.carried snapshot (List.mem_cons_of_mem _ hsnapshot) }
    rw [List.foldl_cons]
    unfold TorrentCatalog.requeueCounterLocked
    split
    · exact ih htail.of_eq hkey
    next hdead =>
      refine ih (htail.orphaned hcarried.allocated fun h hlive ↦ hdead ?_) hkey
      have heq : h = first.infoHash := (hkey h _ hlive).symm.trans hcarried.owner
      exact heq ▸ hlive

theorem flushSnapshot (hk : c.Keyed []) (snapshot : IndexSnapshot) :
    (c.flushSnapshot snapshot).Keyed [] := by
  refine hk.kept (fun r _ ↦ ?_) (fun _ hsnapshot ↦ by cases hsnapshot) le_rfl (fun _ _ hr ↦ Or.inl hr)
    hk.orphans hk.bounded
  by_cases heq : r = snapshot.entry
  · subst heq
    simp [TorrentCatalog.flushSnapshot, modify, TorrentCatalog.owner]
  · simp [TorrentCatalog.flushSnapshot, modify, TorrentCatalog.owner, Function.update_of_ne heq]

theorem markCountersWritten (hk : c.Keyed []) (snapshots : List IndexSnapshot) :
    (c.markCountersWritten snapshots).Keyed [] := by
  have hfold : ∀ (snapshots : List IndexSnapshot) (c : TorrentCatalog), c.Keyed [] →
      (snapshots.foldl TorrentCatalog.flushSnapshot c).Keyed [] := by
    intro snapshots
    induction snapshots with
    | nil => exact fun _ hk ↦ hk
    | cons first rest ih => exact fun c hk ↦ ih _ (hk.flushSnapshot first)
  exact (hfold snapshots c hk).of_eq

theorem markIndexWritten (hk : c.Keyed []) (hrep : c.Represented ∅) (snapshot : IndexSnapshot)
    (base : IndexBase) : (c.markIndexWritten snapshot base).Keyed [] := by
  have hflushed := hk.flushSnapshot snapshot
  have hflushedRep := hrep.flushSnapshot snapshot
  unfold TorrentCatalog.markIndexWritten
  refine hk.guarded fun hmeta ↦ ?_
  split
  next hlive =>
    have hlive' : (c.flushSnapshot snapshot).entries.get? snapshot.infoHash = some snapshot.entry :=
      hlive
    obtain ⟨-, hwritten⟩ := writtenLocked_spec hflushedRep hlive' hmeta base
    have hnext := hflushed.edited hwritten.edited (hflushedRep.key _ _ hlive') (Or.inl rfl)
      (fun k r hr ↦ Or.inl ?_) hwritten.orphanCounters
    · exact hnext.of_eq
    · rw [hwritten.indexDocuments] at hr
      split at hr
      · rw [OrderedMap.get?_erase] at hr
        split at hr
        · cases hr
        · exact hr
      · exact hr
  next => exact hflushed.of_eq

theorem setDatabaseCheck (hk : c.Keyed flight) (hrep : c.Represented ∅) (enabled : Bool) :
    (c.setDatabaseCheck enabled).Keyed flight := by
  let switched : TorrentCatalog := { c with checkDatabase := enabled }
  have hfold : ∀ (refs : List Ref) (c : TorrentCatalog), c.Represented ∅ → c.Keyed flight →
      (∀ r ∈ refs, ∃ h, c.entries.get? h = some r) → (refs.foldl uncheckedLocked c).Keyed flight := by
    intro refs
    induction refs with
    | nil => exact fun _ _ hk _ ↦ hk
    | cons r rest ih =>
      intro c hrep hk hlive
      obtain ⟨h, hr⟩ := hlive r List.mem_cons_self
      obtain ⟨hedited, hnext⟩ := settled_uncheckedLocked hrep hr
      refine ih _ hnext (hk.edited hedited (hrep.key h r hr) (Or.inr fun k ↦ by cases k <;> rfl)
        (fun _ _ hr' ↦ Or.inl hr') rfl) fun r' hr' ↦ ?_
      rw [hedited.entries]
      exact hlive r' (List.mem_cons_of_mem _ hr')
  simp only [TorrentCatalog.setDatabaseCheck]
  split
  · exact hk.of_eq
  · have hall := hfold c.needsCheck.values switched hrep.of_eq hk.of_eq fun r hr ↦ by
      obtain ⟨h, hh⟩ := OrderedMap.mem_values_iff.mp hr
      exact ⟨h, hrep.needsCheck_live h r hh⟩
    exact hall.of_eq

theorem applyDatabaseChecks (hk : c.Keyed flight) (hrep : c.Represented ∅) (infoHashes : List Bytes)
    (found : List (Bytes × IndexBase)) : (c.applyDatabaseChecks infoHashes found).Keyed flight := by
  have hfold : ∀ (infoHashes : List Bytes) (c : TorrentCatalog), c.Represented ∅ → c.Keyed flight →
      (infoHashes.foldl (applyCheckLocked found) c).Keyed flight := by
    intro infoHashes
    induction infoHashes with
    | nil => exact fun _ _ hk ↦ hk
    | cons h rest ih =>
      intro c hrep hk
      rw [List.foldl_cons]
      cases hcheck : c.needsCheck.get? h with
      | none =>
        rw [applyCheckLocked_of_none found hcheck]
        exact ih c hrep hk
      | some r =>
        obtain ⟨hnext, hchecked⟩ := applyCheckLocked_of_some found hrep hcheck
        have howner : c.owner r = h := hrep.key h r (hrep.needsCheck_live h r hcheck)
        refine ih _ hnext (hk.edited hchecked.edited howner (Or.inr fun k ↦ ?_)
          (fun k r' hr' ↦ Or.inl ?_) hchecked.orphanCounters)
        · unfold checkedEntry
          split <;> cases k <;> rfl
        · rw [← hchecked.indexDocuments]
          exact hr'
  exact hk.guarded fun _ ↦ (hfold infoHashes c hrep hk).of_eq

theorem resetIndexBase (hk : c.Keyed []) (hrep : c.Represented ∅) (h : Bytes) :
    (c.resetIndexBase h).Keyed [] := by
  unfold TorrentCatalog.resetIndexBase
  refine hk.guarded fun _ ↦ ?_
  cases hr : c.entries.get? h with
  | none => exact hk.of_eq
  | some r =>
    obtain ⟨mid, hedited, hmidRep, -, -, hdocuments, horphans, -, -, hreset⟩ := resetLocked_spec hrep hr
    have hmid : mid.Keyed [] := hk.edited hedited (hrep.key h r hr) (Or.inl rfl)
      (fun k r' hr' ↦ Or.inl (hdocuments ▸ hr')) horphans
    have hnext : (TorrentCatalog.resetLocked { c.modify r fun entry ↦
        { entry with indexBase := none, flushedSeen := 0, flushedAnnounce := 0 } with
        indexCounters := c.indexCounters.erase h } r).Keyed [] := by
      rw [hreset]
      split
      · refine hmid.queueDocumentLocked hmidRep ?_
        rw [hedited.nextRef]
        exact hrep.allocated h r hr
      · exact hmid
    exact hnext.of_eq

end Keyed

end TorrentCatalog

end DhtScraper
