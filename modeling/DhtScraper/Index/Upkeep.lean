import DhtScraper.Catalog.Exactness
import DhtScraper.Index.Lossless
import DhtScraper.Index.Placement

/-!
# The index thread keeps the places

`Placed` through the operations of the index thread and over whole runs.  Metadata is stored for claimed
hashes only here; the only other condition is that no batch of counters is put back beside its orphans.
-/

namespace DhtScraper

open Library

namespace TorrentCatalog

namespace Placed

variable {c c' : TorrentCatalog} {start rows : Rows} {flight : List IndexSnapshot}
  {committed documents : Bool} {past : List Sighting} {h : Bytes} {r : Ref} {entry : TorrentEntry}

theorem described_asserts (hp : c.Placed flight documents)
    (ha : c.Accounted start rows flight committed past) {item : Bytes × Ref}
    (hitem : item ∈ c.indexDocuments.items) : indexSnapshotAsserts (c.heap item.2) := by
  have hget := OrderedMap.get?_eq_some_iff.mpr hitem
  have hmeta := hp.described item.1 item.2 hget
  refine ha.asserts (ha.documents _ _ hget).1 ?_
  simp only [TorrentEntry.held, decide_eq_true_eq]
  exact Or.inl hmeta

/-- Without snapshots in flight their kind makes no difference. -/
theorem emptied (hp : c.Placed [] documents) {documents' : Bool} : c.Placed [] documents' :=
  { hp with
    counted := fun h r hr hstage ↦ by
      refine hp.counted h r hr (hstage.imp_right fun hmem ↦ ?_)
      cases hmem.2
    flight_documents := fun _ _ hsnapshot ↦ by cases hsnapshot
    flight_counters := fun _ _ hsnapshot ↦ by cases hsnapshot }

/-- An entry with a base has its metadata released. -/
theorem released_of_based (hp : c.Placed flight documents) (hbased : (c.heap r).indexBase.isSome) :
    (c.heap r).metadata = none :=
  ((hp.coherent r).released ((hp.coherent r).based.symm.trans hbased)).1

/-- A snapshot in flight has no document queued. -/
theorem flight_unqueued (hp : c.Placed flight documents) {snapshot : IndexSnapshot}
    (hsnapshot : snapshot ∈ flight) (h : Bytes) :
    c.indexDocuments.get? h ≠ some snapshot.entry := by
  cases documents with
  | true => exact (hp.flight_documents rfl snapshot hsnapshot).2.2 h
  | false =>
    intro hqueued
    have hwritten := (hp.flight_counters rfl snapshot hsnapshot).2
    have hmeta := hp.described h _ hqueued
    rw [((hp.coherent _).released hwritten).1] at hmeta
    cases hmeta

/-! ## Documents -/

/-- The drained documents are in flight, and cover what their entries counted. -/
theorem drainIndexDocuments (hp : c.Placed [] documents)
    (ha : c.Accounted start rows [] false past) (hquiet : c.raised = false) (limit : ℕ) :
    (c.drainIndexDocuments limit).1.Placed (c.drainIndexDocuments limit).2 true ∧
      (c.drainIndexDocuments limit).1.raised = false := by
  obtain ⟨taken, rest, hsplit, heq, -⟩ :=
    drainIndexDocuments_eq hquiet (fun _ hitem ↦ hp.described_asserts ha hitem) limit
  have hnext := ha.drainIndexDocuments limit
  rw [heq] at hnext ⊢
  refine ⟨?_, rfl⟩
  let batch := taken.map fun item ↦ indexSnapshot item.2 (c.heap item.2)
  have hget {item : Bytes × Ref} (hitem : item ∈ taken) :
      c.indexDocuments.get? item.1 = some item.2 :=
    (OrderedMap.get?_eq_some_iff_of_items hsplit).mpr (Or.inl hitem)
  have hwaits {k : Bytes} {r : Ref} (hr : OrderedMap.get? rest k = some r) :
      c.indexDocuments.get? k = some r :=
    (OrderedMap.get?_eq_some_iff_of_items hsplit).mpr (Or.inr hr)
  have hcovered {snapshot : IndexSnapshot} (hsnapshot : snapshot ∈ batch) :
      c.Covered batch snapshot.entry := by
    intro k
    have hcarried : inFlight batch k snapshot.entry = snapshot.delta k :=
      sentTo_eq_amount hnext.flight_nodup hsnapshot
    obtain ⟨item, hitem, rfl⟩ := List.mem_map.mp hsnapshot
    rw [hcarried, delta_indexSnapshot]
    change (c.heap item.2).count k ≤ (c.heap item.2).flushed k + _
    omega
  constructor
  case tracking => exact hp.tracking
  case room => exact hp.room
  case coherent => exact hp.coherent
  case described => exact fun k r hr ↦ hp.described k r (hwaits hr)
  case orphans => exact hp.orphans
  case counted =>
    intro k r hr hstage huncovered
    by_cases hmem : r ∈ batch.map IndexSnapshot.entry
    · obtain ⟨snapshot, hsnapshot, rfl⟩ := List.mem_map.mp hmem
      exact absurd (hcovered hsnapshot) huncovered
    · refine hp.counted k r hr (Or.inl (hstage.resolve_right fun h ↦ hmem h.2)) fun hcov ↦
        huncovered fun k ↦ ?_
      have hle := hcov k
      rw [inFlight_eq_zero (by simp)] at hle
      rw [inFlight_eq_zero hmem]
      exact hle
  case flight_documents =>
    intro _ snapshot hsnapshot
    obtain ⟨item, hitem, rfl⟩ := List.mem_map.mp hsnapshot
    have hmeta := hp.described _ _ (hget hitem)
    refine ⟨hmeta, rfl, fun k hk ↦ ?_⟩
    -- a reference waits under the hash of its entry only, and that key was taken
    have hkey : k = item.1 :=
      (ha.documents k item.2 (hwaits hk)).2.symm.trans (ha.documents _ _ (hget hitem)).2
    have hgone := OrderedMap.get?_eq_none_of_items hsplit hitem
    rw [hkey] at hk
    exact absurd (hgone.symm.trans hk) (by simp)
  case flight_counters => exact fun hd ↦ by cases hd

theorem requeueIndexDocuments (hp : c.Placed flight true) :
    (c.requeueIndexDocuments flight).Placed [] documents := by
  obtain ⟨waiting, b, hstate, -, hnew, -⟩ := c.requeueIndexDocuments_spec flight
  rw [hstate]
  constructor
  case tracking => exact hp.tracking
  case room => exact hp.room
  case coherent => exact hp.coherent
  case described =>
    intro k r hr
    rcases hnew k r hr with hold | ⟨-, snapshot, hsnapshot, -, rfl⟩
    · exact hp.described k r hold
    · obtain ⟨hmeta, hsame, -⟩ := hp.flight_documents rfl snapshot hsnapshot
      rw [← hsame] at hmeta
      exact hmeta
  case orphans => exact hp.orphans
  case counted =>
    intro k r hr hstage huncovered
    have hdatabase : (c.heap r).inDatabase = true := hstage.resolve_right fun h ↦ by cases h.2
    have hmem : r ∉ flight.map IndexSnapshot.entry := fun hmem ↦ by
      obtain ⟨snapshot, hsnapshot, rfl⟩ := List.mem_map.mp hmem
      obtain ⟨hmeta, hsame, -⟩ := hp.flight_documents rfl snapshot hsnapshot
      rw [← hsame, ((hp.coherent _).released hdatabase).1] at hmeta
      cases hmeta
    refine hp.counted k r hr (Or.inl hdatabase) fun hcov ↦ huncovered fun k ↦ ?_
    have hle := hcov k
    rw [inFlight_eq_zero hmem] at hle
    rw [inFlight_eq_zero (by simp)]
    exact hle
  case flight_documents => exact fun _ _ hsnapshot ↦ by cases hsnapshot
  case flight_counters => exact fun _ _ hsnapshot ↦ by cases hsnapshot

/-! ## Marking -/

/-- The amount of the first snapshot moves into the flushed count of its entry, which may change its
stage; nothing that is counted is forgotten. -/
theorem marked {snapshot : IndexSnapshot} (hp : c.Placed (snapshot :: flight) documents)
    (hr : snapshot.entry = r) (hnew : r ∉ flight.map IndexSnapshot.entry)
    (heap : c'.heap = Function.update c.heap r entry)
    (count : ∀ k, entry.count k = (c.heap r).count k)
    (flushed : ∀ k, entry.flushed k = (c.heap r).flushed k + snapshot.delta k)
    (coherent : entry.Coherent)
    (database : (c.heap r).inDatabase = true → entry.inDatabase = true)
    (waiting : ∀ k r', c'.indexDocuments.get? k = some r' → c.indexDocuments.get? k = some r')
    (counters : ∀ k r', c.entries.get? k = some r' → c.indexCounters.get? k = some r' →
      c'.indexCounters.get? k = some r')
    (entries : c'.entries = c.entries) (orphans : c'.orphanCounters = c.orphanCounters)
    (tracking : c'.indexTracking = c.indexTracking)
    (room : c'.indexMaxPending = c.indexMaxPending) : c'.Placed flight documents := by
  have hself : c'.heap r = entry := by rw [heap, Function.update_self]
  have hother {r' : Ref} (hne : r' ≠ r) : c'.heap r' = c.heap r' := by
    rw [heap, Function.update_of_ne hne]
  have hne {other : IndexSnapshot} (hmem : other ∈ flight) : other.entry ≠ r := fun heq ↦
    hnew (heq ▸ List.mem_map_of_mem hmem)
  have hwritten {r' : Ref} (hd : (c.heap r').inDatabase = true) : (c'.heap r').inDatabase = true := by
    by_cases heq : r' = r
    · rw [heq, hself]
      exact database (heq ▸ hd)
    · rw [hother heq]
      exact hd
  constructor
  case tracking => rw [tracking, hp.tracking]
  case room => rw [room]; exact hp.room
  case coherent =>
    intro r'
    by_cases heq : r' = r
    · rw [heq, hself]
      exact coherent
    · rw [hother heq]
      exact hp.coherent r'
  case described =>
    intro k r' hr'
    have hold := waiting k r' hr'
    rw [hother fun heq ↦ hp.flight_unqueued List.mem_cons_self k (hr ▸ heq ▸ hold)]
    exact hp.described k r' hold
  case orphans =>
    rw [orphans]
    exact fun r' hr' ↦ hwritten (hp.orphans r' hr')
  case counted =>
    intro k r' hr' hstage huncovered
    rw [entries] at hr'
    refine counters k r' hr' (hp.counted k r' hr' ?_ fun hcov ↦ huncovered fun k ↦ ?_)
    · by_cases heq : r' = r
      · cases documents with
        | true => exact Or.inr ⟨rfl, by rw [heq, ← hr]; exact List.mem_cons_self⟩
        | false =>
          left
          rw [heq, ← hr]
          exact (hp.flight_counters rfl snapshot List.mem_cons_self).2
      · rw [hother heq] at hstage
        exact hstage.imp_right fun hd ↦ ⟨hd.1, List.mem_cons_of_mem _ hd.2⟩
    · have hle := hcov k
      rw [inFlight_cons] at hle
      by_cases heq : r' = r
      · rw [heq, hr, if_pos rfl] at hle
        rw [heq, hself, count, flushed]
        omega
      · rw [hr, if_neg heq, zero_add] at hle
        rw [hother heq]
        exact hle
  case flight_documents =>
    intro hd other hmem
    rw [hother (hne hmem)]
    obtain ⟨hmeta, hsame, hgone⟩ := hp.flight_documents hd other (List.mem_cons_of_mem _ hmem)
    exact ⟨hmeta, hsame, fun k hk ↦ hgone k (waiting k _ hk)⟩
  case flight_counters =>
    intro hd other hmem
    obtain ⟨hbase, hdatabase⟩ := hp.flight_counters hd other (List.mem_cons_of_mem _ hmem)
    exact ⟨hbase, hwritten hdatabase⟩

theorem flushSnapshot {snapshot : IndexSnapshot} (hp : c.Placed (snapshot :: flight) documents)
    (hnew : snapshot.entry ∉ flight.map IndexSnapshot.entry) :
    (c.flushSnapshot snapshot).Placed flight documents :=
  hp.marked rfl hnew rfl (fun k ↦ by cases k <;> rfl) (fun k ↦ by cases k <;> rfl)
    ⟨(hp.coherent _).based, (hp.coherent _).released⟩ id (fun _ _ hr ↦ hr) (fun _ _ _ hr ↦ hr) rfl rfl
    rfl rfl

theorem markCountersWritten (hp : c.Placed flight false)
    (hnodup : (flight.map IndexSnapshot.entry).Nodup) :
    (c.markCountersWritten flight).Placed [] documents := by
  have hfold : ∀ (snapshots : List IndexSnapshot) (c : TorrentCatalog),
      (snapshots.map IndexSnapshot.entry).Nodup → c.Placed snapshots false →
      (snapshots.foldl TorrentCatalog.flushSnapshot c).Placed [] false := by
    intro snapshots
    induction snapshots with
    | nil => exact fun _ _ hp ↦ hp
    | cons first rest ih =>
      intro c hnodup hp
      obtain ⟨hnew, hrest⟩ := List.nodup_cons.mp hnodup
      exact ih _ hrest (hp.flushSnapshot hnew)
  exact (hfold flight c hnodup hp).of_eq.emptied

/-- The live entry whose document was written is in the database, and its metadata is released. -/
theorem markIndexWritten {snapshot : IndexSnapshot} {base : IndexBase}
    (hp : c.Placed (snapshot :: flight) true)
    (ha : c.Accounted start rows (snapshot :: flight) true past) (hrep : c.Represented ∅) :
    (c.markIndexWritten snapshot base).Placed flight true := by
  obtain ⟨hnew, -⟩ := List.nodup_cons.mp ha.flight_nodup
  obtain ⟨hmeta, hsame, -⟩ := hp.flight_documents rfl snapshot List.mem_cons_self
  rw [show c.markIndexWritten snapshot base = _ from if_pos hmeta]
  let flushed := c.flushSnapshot snapshot
  let r := snapshot.entry
  let h := snapshot.infoHash
  have hmarked {c' : TorrentCatalog} (hp' : c'.Placed flight true) :
      (c'.assertInvariantsLocked.check (0 ≤ base.1)).Placed flight true := hp'.of_eq
  split
  next hlive =>
    have hlive' : flushed.entries.get? h = some r := hlive
    obtain ⟨-, hwritten⟩ := writtenLocked_spec (hrep.flushSnapshot snapshot) hlive' hmeta base
    have hself : flushed.heap r = { c.heap r with
        flushedSeen := (c.heap r).flushedSeen + snapshot.seenDelta
        flushedAnnounce := (c.heap r).flushedAnnounce + snapshot.announceDelta } :=
      Function.update_self _ _ _
    have hiswritten : isWritten (flushed.heap r) snapshot := by
      unfold isWritten
      rw [hself, ← hsame]
    have hdone : (c.heap r).fetchState = .done :=
      hrep.stored_done h r hlive (by rw [hsame]; exact hmeta)
    have hentry : writtenEntry (flushed.heap r) snapshot base = { flushed.heap r with
        indexBase := some base, metadata := none, inDatabase := true, peers := none
        failedPeers := none } := if_pos hiswritten
    have hroom : (flushed.writtenLocked r snapshot base).indexMaxPending = c.indexMaxPending := by
      unfold writtenLocked
      dsimp only
      split <;> rfl
    have hheap : (flushed.writtenLocked r snapshot base).heap =
        Function.update c.heap r (writtenEntry (flushed.heap r) snapshot base) :=
      hwritten.edited.heap.trans (Function.update_idem _ _ _)
    refine hmarked (hp.marked rfl hnew hheap (fun k ↦ ?_) (fun k ↦ ?_) ?_ (fun _ ↦ ?_)
      (fun k r' hr' ↦ ?_) (fun k r' hr' hcounter ↦ ?_) hwritten.edited.entries hwritten.orphanCounters
      hwritten.indexTracking hroom)
    · rw [hentry, hself]
      cases k <;> rfl
    · rw [hentry, hself]
      cases k <;> rfl
    · rw [hentry, hself]
      exact ⟨rfl, fun _ ↦ ⟨rfl, hdone⟩⟩
    · rw [hentry]
    · rw [hwritten.indexDocuments, if_pos hiswritten, OrderedMap.get?_erase] at hr'
      split at hr'
      · cases hr'
      · exact hr'
    · rw [hwritten.indexCounters]
      split
      · rcases get?_setDefault_live hrep hlive (k := k) with hkept | ⟨hk, hset⟩
        · exact hkept.trans hcounter
        · rw [hk, hlive] at hr'
          exact hset.trans hr'
      · exact hcounter
  next => exact hmarked (hp.flushSnapshot hnew)

/-! ## Counters -/

/-- One entry `r` moves between the counter queues and the batch; the others stay where they are. -/
theorem moved {batch batch' : List IndexSnapshot} (hp : c.Placed batch false)
    (orphans : ∀ r' ∈ c'.orphanCounters, (c.heap r').inDatabase = true)
    (counters : ∀ k r', r' ≠ r → c.entries.get? k = some r' → c.indexCounters.get? k = some r' →
      c'.indexCounters.get? k = some r')
    (self : ∀ k, c.entries.get? k = some r → (c.heap r).inDatabase = true → ¬ c.Covered batch' r →
      c'.indexCounters.get? k = some r)
    (flight : ∀ r' ≠ r, ∀ k, inFlight batch' k r' = inFlight batch k r')
    (written : ∀ snapshot ∈ batch', snapshot.base.isSome ∧ (c.heap snapshot.entry).inDatabase = true)
    (heap : c'.heap = c.heap) (entries : c'.entries = c.entries)
    (waiting : c'.indexDocuments = c.indexDocuments) (tracking : c'.indexTracking = c.indexTracking)
    (room : c'.indexMaxPending = c.indexMaxPending) : c'.Placed batch' false where
  tracking := tracking.trans hp.tracking
  room := room ▸ hp.room
  coherent := heap ▸ hp.coherent
  described := by rw [waiting, heap]; exact hp.described
  orphans := by rw [heap]; exact orphans
  counted := fun k r' hr' hstage huncovered ↦ by
    rw [entries] at hr'
    rw [heap] at hstage
    have hdatabase : (c.heap r').inDatabase = true := hstage.resolve_right fun h ↦ by cases h.1
    have hrest : ¬ c.Covered batch' r' := fun hcov ↦ huncovered fun k ↦ by
      rw [heap]
      exact hcov k
    by_cases heq : r' = r
    · subst heq
      exact self k hr' hdatabase hrest
    · refine counters k r' heq hr' (hp.counted k r' hr' (Or.inl hdatabase) fun hcov ↦
        hrest fun k ↦ ?_)
      rw [flight r' heq]
      exact hcov k
  flight_documents := fun hd ↦ by cases hd
  flight_counters := fun _ ↦ by rw [heap]; exact written

/-- The snapshot that joins the batch covers its entry. -/
theorem taken {batch : List IndexSnapshot} (hp : c.Placed batch false)
    (hnew : r ∉ batch.map IndexSnapshot.entry) (hdatabase : (c.heap r).inDatabase = true)
    (orphans : ∀ r' ∈ c'.orphanCounters, r' ∈ c.orphanCounters)
    (counters : ∀ k r', r' ≠ r → c.entries.get? k = some r' → c.indexCounters.get? k = some r' →
      c'.indexCounters.get? k = some r')
    (heap : c'.heap = c.heap) (entries : c'.entries = c.entries)
    (waiting : c'.indexDocuments = c.indexDocuments) (tracking : c'.indexTracking = c.indexTracking)
    (room : c'.indexMaxPending = c.indexMaxPending) :
    c'.Placed (batch ++ [indexSnapshot r (c.heap r)]) false := by
  have hentry : (indexSnapshot r (c.heap r)).entry = r := rfl
  refine hp.moved (fun r' hr' ↦ hp.orphans r' (orphans r' hr')) counters
    (fun _ _ _ huncovered ↦ absurd (fun k ↦ ?_) huncovered) (fun r' hne k ↦ ?_)
    (fun snapshot hsnapshot ↦ ?_) heap entries waiting tracking room
  · rw [inFlight_append, inFlight_eq_zero hnew, zero_add, hentry, if_pos rfl, delta_indexSnapshot]
    omega
  · rw [inFlight_append, hentry, if_neg hne, add_zero]
  · rcases List.mem_append.mp hsnapshot with hold | hlast
    · exact hp.flight_counters rfl snapshot hold
    · rw [List.mem_singleton.mp hlast]
      exact ⟨(hp.coherent r).based.trans hdatabase, hdatabase⟩

/-- An entry with nothing to write leaves its queue. -/
theorem skipped {batch : List IndexSnapshot} (hp : c.Placed batch false)
    (hsettled : (c.heap r).inDatabase = true → c.Covered batch r)
    (orphans : ∀ r' ∈ c'.orphanCounters, r' ∈ c.orphanCounters)
    (counters : ∀ k r', r' ≠ r → c.entries.get? k = some r' → c.indexCounters.get? k = some r' →
      c'.indexCounters.get? k = some r')
    (heap : c'.heap = c.heap) (entries : c'.entries = c.entries)
    (waiting : c'.indexDocuments = c.indexDocuments) (tracking : c'.indexTracking = c.indexTracking)
    (room : c'.indexMaxPending = c.indexMaxPending) : c'.Placed batch false :=
  hp.moved (fun r' hr' ↦ hp.orphans r' (orphans r' hr')) counters
    (fun _ _ hdatabase huncovered ↦ absurd (hsettled hdatabase) huncovered) (fun _ _ _ ↦ rfl)
    (hp.flight_counters rfl) heap entries waiting tracking room

theorem counters_of_popFirst {k : Bytes} {rest : OrderedMap Bytes Ref}
    (hpop : c.indexCounters.popFirst = some ((k, r), rest)) {k' : Bytes} {r' : Ref} (hne : r' ≠ r)
    (hr' : c.indexCounters.get? k' = some r') : rest.get? k' = some r' := by
  obtain ⟨hfirst, hget⟩ := OrderedMap.get?_of_popFirst hpop
  rw [hget]
  split
  next hk => exact absurd (Option.some.inj (hr'.symm.trans (hk ▸ hfirst))) hne
  next => exact hr'

/-- A document that is queued for a live entry outside of the database may drop the oldest one. -/
theorem queueDocumentLocked (hp : c.Placed flight documents)
    (ha : c.Accounted start rows flight committed past) (hrep : c.Represented ∅)
    (hr : c.entries.get? h = some r) (hmeta : (c.heap r).metadata.isSome)
    (hflight : ∀ snapshot ∈ flight, snapshot.entry ≠ r) :
    (c.queueDocumentLocked r).Placed flight documents := by
  obtain ⟨hdatabase, hbase⟩ := (hp.coherent r).unwritten hmeta
  have hkept : (c.documentQueued r).Accounted start rows flight committed past :=
    ha.documentQueued (hrep.allocated h r hr)
  have hqueued : (c.documentQueued r).Placed flight documents := by
    refine hp.outside hdatabase hflight (Function.update_eq_self r c.heap).symm rfl hbase hdatabase
      (fun k r' hr' ↦ ?_) (fun k r' hne hr' hcounter ↦ ?_) rfl rfl rfl
    · rcases OrderedMap.get?_setDefault_cases hr' with hold | ⟨-, rfl⟩
      · by_cases heq : r' = r
        · exact Or.inl ⟨heq, hmeta⟩
        · exact Or.inr ⟨heq, hold⟩
      · exact Or.inl ⟨rfl, hmeta⟩
    · have hk : k ≠ c.owner r := fun hk ↦ by
        rw [hk, show c.owner r = h from hrep.key h r hr] at hr'
        exact hne (Option.some.inj (hr'.symm.trans hr))
      rw [show (c.documentQueued r).indexCounters = c.indexCounters.erase (c.owner r) from rfl,
        OrderedMap.get?_erase, if_neg hk]
      exact hcounter
  exact queueDocumentLocked_induction (P := fun c ↦ c.Placed flight documents) c r hqueued
    fun key dropped rest hpop ↦ hqueued.dropped hkept (hrep.documentQueued r) hpop

/-- What the counter drain keeps. -/
structure DrainingPlaced (start rows : Rows) (past : List Sighting) (batch : List IndexSnapshot)
    (c : TorrentCatalog) : Prop where
  draining : Accounted.Draining start rows past batch c
  placed : c.Placed batch false
  quiet : c.raised = false

/-- The drain fails no assertion. -/
theorem drainRules (start rows : Rows) (past : List Sighting) :
    CounterDrainRules (DrainingPlaced start rows past) fun _ ↦ False where
  orphanTaken := fun batch c r rest hd horphans hasserts ↦ by
    have hmem : r ∈ c.orphanCounters := by
      rw [horphans]
      exact List.mem_cons_self
    refine ⟨(Accounted.drainRules start rows past).orphanTaken batch c r rest hd.draining horphans
      hasserts, ?_, hd.quiet⟩
    refine hd.placed.taken (fun hbatch ↦ ?_) (hd.placed.orphans r hmem)
      (fun r' hr' ↦ by rw [horphans]; exact List.mem_cons_of_mem _ hr') (fun _ _ _ _ hr' ↦ hr')
      rfl rfl rfl rfl rfl
    obtain ⟨snapshot, hsnapshot, heq⟩ := List.mem_map.mp hbatch
    exact (hd.draining.removed snapshot hsnapshot).1 (heq ▸ hmem)
  orphanSkipped := fun batch c r rest hd horphans hseen hannounce ↦ by
    refine ⟨(Accounted.drainRules start rows past).orphanSkipped batch c r rest hd.draining horphans
      hseen hannounce, ?_, hd.quiet⟩
    refine hd.placed.skipped (r := r) (fun _ k ↦ ?_)
      (fun r' hr' ↦ by rw [horphans]; exact List.mem_cons_of_mem _ hr') (fun _ _ _ _ hr' ↦ hr')
      rfl rfl rfl rfl rfl
    have hcarried := hd.draining.accounted.inFlight_nonneg k r
    have hdelta : (indexSnapshot r (c.heap r)).delta k = 0 := by
      cases k
      · exact hseen
      · exact hannounce
    rw [delta_indexSnapshot] at hdelta
    omega
  orphanFailed := fun batch c r rest hd horphans hfail ↦ by
    have hmem : r ∈ c.orphanCounters := by
      rw [horphans]
      exact List.mem_cons_self
    rw [hd.draining.accounted.asserts (hd.draining.accounted.orphans r hmem).1
      (by simp [TorrentEntry.held, hd.placed.orphans r hmem])] at hfail
    cases hfail
  documentQueued := fun batch c k r rest hd hpop hbase hmeta ↦ by
    obtain ⟨hdraining, hlive, -⟩ := Accounted.popCounter hd.draining hpop
    obtain ⟨hdatabase, -⟩ := (hd.placed.coherent r).unwritten hmeta
    have hpopped : TorrentCatalog.Placed { c with indexCounters := rest } batch false :=
      hd.placed.skipped (fun hwritten ↦ by rw [hdatabase] at hwritten; cases hwritten)
        (fun _ hr' ↦ hr') (fun _ _ hne _ hr' ↦ counters_of_popFirst hpop hne hr') rfl rfl rfl rfl rfl
    refine ⟨(Accounted.drainRules start rows past).documentQueued batch c k r rest hd.draining hpop
      hbase hmeta, ?_, ?_⟩
    · refine hpopped.queueDocumentLocked hdraining.accounted hdraining.represented hlive hmeta
        fun snapshot hsnapshot heq ↦ ?_
      exact (hd.draining.removed snapshot hsnapshot).2 k
        (heq ▸ (OrderedMap.get?_of_popFirst hpop).1)
    · rw [queueDocumentLocked_raised hdraining.represented hmeta hpopped.described]
      exact hd.quiet
  unbasedSkipped := fun batch c k r rest hd hpop hbase _ ↦ by
    refine ⟨(Accounted.popCounter hd.draining hpop).1, ?_, hd.quiet⟩
    refine hd.placed.skipped (fun hdatabase ↦ ?_) (fun _ hr' ↦ hr')
      (fun _ _ hne _ hr' ↦ counters_of_popFirst hpop hne hr') rfl rfl rfl rfl rfl
    have hbased := (hd.placed.coherent r).based
    rw [hbase, hdatabase] at hbased
    cases hbased
  counterTaken := fun batch c k r rest hd hpop hbased hunflushed hasserts ↦ by
    refine ⟨(Accounted.drainRules start rows past).counterTaken batch c k r rest hd.draining hpop
      hbased hunflushed hasserts, ?_, hd.quiet⟩
    refine hd.placed.taken (fun hbatch ↦ ?_) ((hd.placed.coherent r).based.symm.trans hbased)
      (fun _ hr' ↦ hr') (fun _ _ hne _ hr' ↦ counters_of_popFirst hpop hne hr') rfl rfl rfl rfl rfl
    obtain ⟨snapshot, hsnapshot, heq⟩ := List.mem_map.mp hbatch
    exact (hd.draining.removed snapshot hsnapshot).2 k (heq ▸ (OrderedMap.get?_of_popFirst hpop).1)
  counterSkipped := fun batch c k r rest hd hpop _ hflushed ↦
    ⟨(Accounted.popCounter hd.draining hpop).1,
      hd.placed.skipped (fun _ ↦ Retained.covered_of_flushed hd.draining.accounted hflushed)
        (fun _ hr' ↦ hr') (fun _ _ hne _ hr' ↦ counters_of_popFirst hpop hne hr') rfl rfl rfl rfl rfl,
      hd.quiet⟩
  counterFailed := fun batch c k r rest hd hpop hbased hfail ↦ by
    obtain ⟨-, hlive, -⟩ := Accounted.popCounter hd.draining hpop
    have hdatabase : (c.heap r).inDatabase = true := (hd.placed.coherent r).based.symm.trans hbased
    rw [hd.draining.accounted.asserts (hd.draining.represented.allocated k r hlive)
      (by simp [TorrentEntry.held, hdatabase])] at hfail
    cases hfail
  failed := fun batch c hd hraised ↦ by
    rw [hd.quiet] at hraised
    cases hraised

theorem drainIndexCounters (hp : c.Placed [] false) (ha : c.Accounted start rows [] false past)
    (hrep : c.Represented ∅) (hquiet : c.raised = false) (limit : ℕ) :
    (c.drainIndexCounters limit).1.Placed (c.drainIndexCounters limit).2 false ∧
      (c.drainIndexCounters limit).1.raised = false := by
  have hstart : DrainingPlaced start rows past [] c :=
    ⟨⟨hrep, ha, fun _ hsnapshot ↦ by cases hsnapshot⟩, hp, hquiet⟩
  rcases (drainRules start rows past).drainIndexCounters limit hstart with hd | ⟨-, hfailed⟩
  · exact ⟨hd.placed, hd.quiet⟩
  · exact hfailed.elim

/-- A live entry goes back to the counter queue; an evicted one counts for nothing here. -/
theorem requeueIndexCounters (hp : c.Placed flight false)
    (ha : c.Accounted start rows flight false past) (hrep : c.Represented ∅) :
    (c.requeueIndexCounters flight).Placed [] documents := by
  have hfold : ∀ (snapshots : List IndexSnapshot) (c : TorrentCatalog), c.Represented ∅ →
      (∀ snapshot ∈ snapshots, c.owner snapshot.entry = snapshot.infoHash) →
      c.Placed snapshots false → (snapshots.foldl requeueCounterLocked c).Placed [] false := by
    intro snapshots
    induction snapshots with
    | nil => exact fun _ _ _ hp ↦ hp
    | cons first rest ih =>
      intro c hrep howner hp
      have hkey := howner first List.mem_cons_self
      have hothers : ∀ snapshot ∈ rest, c.owner snapshot.entry = snapshot.infoHash :=
        fun snapshot hsnapshot ↦ howner snapshot (List.mem_cons_of_mem _ hsnapshot)
      have hflight (r : Ref) (hne : r ≠ first.entry) (k : Counter) :
          inFlight rest k r = inFlight (first :: rest) k r := by
        rw [inFlight_cons, if_neg hne, zero_add]
      have hwritten : ∀ snapshot ∈ rest,
          snapshot.base.isSome ∧ (c.heap snapshot.entry).inDatabase = true :=
        fun snapshot hsnapshot ↦ hp.flight_counters rfl snapshot (List.mem_cons_of_mem _ hsnapshot)
      rw [List.foldl_cons]
      by_cases hlive : c.entries.get? first.infoHash = some first.entry
      · rw [show c.requeueCounterLocked first = { c with
          indexCounters := c.indexCounters.setDefault first.infoHash first.entry } from if_pos hlive]
        have hkept (k : Bytes) := get?_setDefault_live hrep hlive (k := k)
        refine ih _ (hrep.of_counters fun k r hr ↦ ?_) hothers
          (hp.moved (r := first.entry) hp.orphans (fun k r hne hr hcounter ↦ ?_) (fun k hr _ _ ↦ ?_)
            hflight hwritten rfl rfl rfl rfl rfl)
        · rcases hkept k with hsame | ⟨hk, hself⟩
          · exact Or.inl (hsame ▸ hr)
          · rw [hself] at hr
            exact Or.inr (hk ▸ Option.some.inj hr ▸ hlive)
        · rcases hkept k with hsame | ⟨hk, -⟩
          · exact hsame.trans hcounter
          · rw [hk, hlive] at hr
            exact absurd (Option.some.inj hr).symm hne
        · rw [hrep.live_unique hlive hr]
          exact get?_setDefault_self hrep hlive
      · rw [show c.requeueCounterLocked first = c.addOrphanLocked first.entry from if_neg hlive]
        refine ih _ hrep.of_eq hothers (hp.moved (r := first.entry) (fun r hr ↦ ?_)
          (fun _ _ _ _ hcounter ↦ hcounter) (fun k hr _ _ ↦ ?_) hflight hwritten rfl rfl rfl rfl rfl)
        · rcases List.mem_append.mp ((c.addOrphanLocked_sublist _).subset hr) with hold | hnew
          · exact hp.orphans r hold
          · rw [List.mem_singleton.mp hnew]
            exact (hp.flight_counters rfl first List.mem_cons_self).2
        · rw [← hkey, show c.owner first.entry = k from hrep.key k _ hr] at hlive
          exact absurd hr hlive
  exact (hfold flight c hrep (fun snapshot hsnapshot ↦ (ha.carried snapshot hsnapshot).owner)
    hp).emptied

/-! ## Database checks -/

theorem setDatabaseCheck (hp : c.Placed flight documents) (hrep : c.Represented ∅) (enabled : Bool) :
    (c.setDatabaseCheck enabled).Placed flight documents := by
  let switched : TorrentCatalog := { c with checkDatabase := enabled }
  have hfold : ∀ (refs : List Ref) (c : TorrentCatalog), c.Represented ∅ →
      c.Placed flight documents → (∀ r ∈ refs, ∃ h, c.entries.get? h = some r) →
      (refs.foldl uncheckedLocked c).Placed flight documents := by
    intro refs
    induction refs with
    | nil => exact fun _ _ hp _ ↦ hp
    | cons r rest ih =>
      intro c hrep hp hlive
      obtain ⟨h, hr⟩ := hlive r List.mem_cons_self
      obtain ⟨hedited, hnext⟩ := settled_uncheckedLocked hrep hr
      refine ih _ hnext (hp.edited hedited ⟨.of_eq, rfl, rfl, rfl, Iff.rfl⟩ {}) fun r' hr' ↦ ?_
      rw [hedited.entries]
      exact hlive r' (List.mem_cons_of_mem _ hr')
  have hchecked {c' : TorrentCatalog} (hp' : c'.Placed flight documents) :
      (c'.assertInvariantsLocked.check (enabled ∨ c'.needsCheck.size = 0)).Placed flight documents :=
    hp'.of_eq
  simp only [TorrentCatalog.setDatabaseCheck]
  refine hchecked ?_
  split
  · exact hp.of_eq
  · refine hfold _ switched hrep.of_eq hp.of_eq fun r hr ↦ ?_
    obtain ⟨h, hh⟩ := OrderedMap.mem_values_iff.mp hr
    exact ⟨h, hrep.needsCheck_live h r hh⟩

/-- A pending entry that was matched to a row is in the database, and its sightings wait in the counter
queue. -/
theorem checked (hp : c.Placed flight documents) (hrep : c.Represented ∅)
    (hr : c.entries.get? h = some r) (hpending : (c.heap r).fetchState = .pending)
    {base : Option IndexBase} (hc : c.Checked c' h r base)
    (room : c'.indexMaxPending = c.indexMaxPending) : c'.Placed flight documents := by
  obtain ⟨hdatabase, hmeta⟩ := hp.plain_of_open hrep hr (by rw [hpending]; decide)
  have hself : c'.heap r = checkedEntry (c.heap r) base := hc.edited.entry_eq
  have hother {r' : Ref} (hne : r' ≠ r) : c'.heap r' = c.heap r' := by
    rw [hc.edited.heap, Function.update_of_ne hne]
  have hflight {snapshot : IndexSnapshot} (hsnapshot : snapshot ∈ flight) : snapshot.entry ≠ r :=
    hp.not_in_flight hdatabase hmeta hsnapshot
  have hcounters {k : Bytes} {r' : Ref} (hne : r' ≠ r) (hlive : c.entries.get? k = some r')
      (hr' : c.indexCounters.get? k = some r') : c'.indexCounters.get? k = some r' := by
    rw [hc.indexCounters]
    split
    · rcases get?_setDefault_live hrep hr (k := k) with hkept | ⟨hk, -⟩
      · exact hkept.trans hr'
      · rw [hk, hr] at hlive
        exact absurd (Option.some.inj hlive).symm hne
    · exact hr'
  have hwritten {r' : Ref} (hd : (c.heap r').inDatabase = true) :
      r' ≠ r ∧ (c'.heap r').inDatabase = true := by
    have hne : r' ≠ r := fun heq ↦ by
      rw [heq, hdatabase] at hd
      cases hd
    rw [hother hne]
    exact ⟨hne, hd⟩
  constructor
  case tracking => rw [hc.indexTracking, hp.tracking]
  case room => rw [room]; exact hp.room
  case coherent =>
    intro r'
    by_cases heq : r' = r
    · rw [heq, hself]
      cases base with
      | none => exact ⟨(hp.coherent r).based, (hp.coherent r).released⟩
      | some base => exact ⟨rfl, fun _ ↦ ⟨hmeta, rfl⟩⟩
    · rw [hother heq]
      exact hp.coherent r'
  case described =>
    intro k r' hr'
    rw [hc.indexDocuments] at hr'
    have hm := hp.described k r' hr'
    rw [hother fun heq ↦ by rw [heq, hmeta] at hm; cases hm]
    exact hm
  case orphans =>
    rw [hc.orphanCounters]
    exact fun r' hr' ↦ (hwritten (hp.orphans r' hr')).2
  case counted =>
    intro k r' hr' hstage huncovered
    rw [hc.edited.entries] at hr'
    by_cases heq : r' = r
    · subst heq
      cases base with
      | none =>
        rw [hself] at hstage
        rcases hstage with hd | ⟨-, hmem⟩
        · exact absurd (show (c.heap r').inDatabase = true from hd) (by rw [hdatabase]; decide)
        · obtain ⟨snapshot, hsnapshot, hsame⟩ := List.mem_map.mp hmem
          exact absurd hsame (hflight hsnapshot)
      | some base =>
        rw [hrep.live_unique hr hr', hc.indexCounters, if_pos ⟨rfl, hp.tracking⟩]
        exact get?_setDefault_self hrep hr
    · rw [hother heq] at hstage
      refine hcounters heq hr' (hp.counted k r' hr' hstage fun hcov ↦ huncovered fun k ↦ ?_)
      rw [hother heq]
      exact hcov k
  case flight_documents =>
    intro hd snapshot hsnapshot
    rw [hother (hflight hsnapshot), hc.indexDocuments]
    exact hp.flight_documents hd snapshot hsnapshot
  case flight_counters =>
    intro hd snapshot hsnapshot
    exact (hp.flight_counters hd snapshot hsnapshot).imp_right fun h ↦ (hwritten h).2

theorem applyDatabaseChecks (hp : c.Placed flight documents) (hrep : c.Represented ∅)
    (infoHashes : List Bytes) (found : List (Bytes × IndexBase)) :
    (c.applyDatabaseChecks infoHashes found).Placed flight documents := by
  have hfold : ∀ (infoHashes : List Bytes) (c : TorrentCatalog), c.Represented ∅ →
      c.Placed flight documents →
      (infoHashes.foldl (applyCheckLocked found) c).Placed flight documents := by
    intro infoHashes
    induction infoHashes with
    | nil => exact fun _ _ hp ↦ hp
    | cons h rest ih =>
      intro c hrep hp
      rw [List.foldl_cons]
      cases hcheck : c.needsCheck.get? h with
      | none =>
        rw [applyCheckLocked_of_none found hcheck]
        exact ih c hrep hp
      | some r =>
        obtain ⟨hnext, hc⟩ := applyCheckLocked_of_some found hrep hcheck
        obtain ⟨hr, hawaits⟩ := liveWhere_eq_some_iff.mp
          ((hrep.needsCheck h (Set.notMem_empty h)).symm.trans hcheck)
        simp only [TorrentEntry.awaitsCheck, decide_eq_true_eq] at hawaits
        refine ih _ hnext (hp.checked hrep hr hawaits.1 hc ?_)
        unfold applyCheckLocked
        dsimp only
        split
        · rfl
        · split
          · rfl
          · simp only [indexEntryLocked, TorrentCatalog.check]
            split
            · split <;> rfl
            · rfl
  unfold TorrentCatalog.applyDatabaseChecks guarded
  split
  · exact (hfold infoHashes c hrep hp).of_eq
  · exact hp.of_eq

end Placed

end TorrentCatalog

/-! ## The system -/

open TorrentCatalog

/-- Documents are always built. -/
theorem documentsOf_of_placed {c : TorrentCatalog} {start rows : Rows} {batch : List IndexSnapshot}
    {committed : Bool} {past : List Sighting} (hp : c.Placed batch true)
    (ha : c.Accounted start rows batch committed past) : (documentsOf batch).isSome :=
  documentsOf_isSome (fun snapshot hsnapshot ↦ (hp.flight_documents rfl snapshot hsnapshot).1) ha

/-- Counter updates are always built. -/
theorem updates_of_placed {c : TorrentCatalog} {start rows : Rows} {batch : List IndexSnapshot}
    {committed : Bool} {past : List Sighting} (hp : c.Placed batch false)
    (ha : c.Accounted start rows batch committed past) : (batch.mapM buildCounterUpdate).isSome :=
  updates_isSome (fun snapshot hsnapshot ↦ (hp.flight_counters rfl snapshot hsnapshot).1) ha

namespace IndexSystem

/-- The accounts are in order, and every live entry waits where its stage says. -/
structure Placed (limits : CatalogLimits) (start : Rows) (past : List Sighting)
    (s : IndexSystem) : Prop where
  balanced : s.Balanced limits start past
  placed : s.session.catalog.Placed s.phase.flight s.phase.ofDocuments

/-- The run meets this condition when the other threads keep the protocol of the catalog, in which
metadata is stored for claimed hashes only, and no batch of counters is put back beside its orphans. -/
def requeuesOnceUnderProtocol (s : IndexSystem) (label : IndexLabel) : Prop :=
  match label with
  | .client op => s.session.permits claimedStoresOnly op
  | label => s.requeuesOnce label

instance (s : IndexSystem) (label : IndexLabel) : Decidable (s.requeuesOnceUnderProtocol label) := by
  apply label.casesOn (motive := fun label ↦ Decidable (s.requeuesOnceUnderProtocol label)) <;>
    intros <;> unfold requeuesOnceUnderProtocol <;> infer_instance

theorem requeuesOnceUnderProtocol.requeuesOnce {s : IndexSystem} {label : IndexLabel}
    (h : s.requeuesOnceUnderProtocol label) : s.requeuesOnce label := by
  cases label with
  | client op => trivial
  | _ => exact h

variable {limits : CatalogLimits} {start : Rows} {past : List Sighting} {s s' : IndexSystem}

/-- A call that keeps the places and does not fail while it holds a batch. -/
theorem Placed.call {op : CatalogOp} {phase : IndexPhase}
    (hbalanced : (s.call op phase).Balanced limits start past)
    (hplaced : (s.session.exec op).catalog.Placed phase.flight phase.ofDocuments)
    (hquiet : phase.flight ≠ [] → (s.session.exec op).catalog.raised = false) :
    (s.call op phase).Placed limits start past where
  balanced := hbalanced
  placed := by
    unfold IndexSystem.call
    simp only
    split
    next hraised =>
      have hempty : phase.flight = [] := by
        by_contra hne
        rw [hquiet hne] at hraised
        cases hraised
      rw [hempty] at hplaced
      exact hplaced.emptied
    next => exact hplaced

theorem start_placed (maxPending : ℕ) (checkDatabase : Bool) (hpending : 1 ≤ maxPending) :
    (IndexSystem.start limits maxPending checkDatabase start).Placed limits start [] where
  balanced := start_balanced maxPending checkDatabase
  placed := by
    have heq : (IndexSystem.start limits maxPending checkDatabase start).session.catalog =
        { (TorrentCatalog.new limits).settle with
          indexTracking := true, indexMaxPending := maxPending, checkDatabase := checkDatabase } :=
      if_pos hpending
    rw [heq]
    constructor
    case tracking => rfl
    case room => exact hpending
    case coherent => exact fun r ↦ ⟨rfl, fun hdatabase ↦ by cases hdatabase⟩
    case described => exact fun h r hr ↦ by cases hr
    case orphans => exact fun r hr ↦ by cases hr
    case counted => exact fun h r hr ↦ by cases hr
    case flight_documents => exact fun _ _ hsnapshot ↦ by cases hsnapshot
    case flight_counters => exact fun _ _ hsnapshot ↦ by cases hsnapshot

/-- Every step under the protocol keeps the places. -/
theorem Placed.step (hs : s.Placed limits start past) {label : IndexLabel}
    (hsafe : s.requeuesOnceUnderProtocol label) (hstep : s.step label = some s') :
    s'.Placed limits start (past ++ label.sightings) := by
  have hbalanced := hs.balanced.step hsafe.requeuesOnce hstep
  have hrep := hs.balanced.represented
  have hacc := hs.balanced.accounted
  have hplaced := hs.placed
  cases step_cases hstep with
  | @client op hclient _ =>
    have hpermitted : s.session.permits claimedStoresOnly op := hsafe
    have hallowed : s.session.catalog.settle.opAllowed (fun _ _ ↦ True)
        TorrentCatalog.Placed.Storing op := by
      refine opAllowed_of_stored (fun _ _ ↦ trivial) _ op fun metadata now hop ↦ ?_
      subst hop
      exact hs.balanced.sound.settle.live_of_fetching (hpermitted rfl)
    exact ⟨hbalanced, ((Placed.clientRules start s.rows s.phase.flight s.phase.committed
      s.phase.ofDocuments).apply hs.balanced.sound hclient hpermitted hallowed ⟨hacc, hplaced⟩).2⟩
  | @documentsDrained limit batch hphase hdrained =>
    rw [hphase] at hacc hplaced
    obtain ⟨hnext, hquiet⟩ := Placed.drainIndexDocuments (c := s.session.catalog.settle) hplaced.of_eq
      hacc.of_eq rfl limit
    rw [hdrained] at hnext
    refine Placed.call hbalanced ?_ fun _ ↦ hquiet
    rw [IndexPhase.flight_unlessEmpty_documents]
    cases batch with
    | nil => exact hnext.emptied
    | cons snapshot rest => exact hnext
  | @documentsWritten batch hphase =>
    rw [hphase] at hacc hplaced
    refine ⟨hbalanced, ?_⟩
    have hbuilt : (documentsOf batch).isSome := documentsOf_of_placed hplaced hacc
    obtain ⟨documents, hdocuments⟩ := Option.isSome_iff_exists.mp hbuilt
    unfold IndexSystem.commitDocuments
    rw [hdocuments]
    simpa [IndexPhase.flight, IndexPhase.ofDocuments, Function.comp_def] using hplaced
  | @documentsFailed batch hphase _ =>
    rw [hphase] at hplaced
    refine Placed.call hbalanced ?_ fun hne ↦ absurd rfl hne
    exact Placed.requeueIndexDocuments (c := s.session.catalog.settle) hplaced.of_eq
  | @documentMarked snapshot base marks hphase =>
    have hmarks := hs.balanced.phase
    rw [hphase] at hacc hplaced hmarks
    obtain ⟨hmeta, hbased⟩ := hmarks (snapshot, base) List.mem_cons_self
    have hflight : s.session.catalog.settle.Accounted start s.rows
        (snapshot :: marks.map Prod.fst) true past := hacc.of_eq
    have hwaiting : s.session.catalog.settle.Placed (snapshot :: marks.map Prod.fst) true :=
      hplaced.of_eq
    have hnext : (s.session.catalog.settle.markIndexWritten snapshot base).Placed
        (marks.map Prod.fst) true := hwaiting.markIndexWritten hflight hrep
    refine Placed.call hbalanced ?_ fun _ ↦ (hflight.markIndexWritten hrep rfl hmeta hbased).2
    rw [IndexPhase.flight_unlessEmpty_marks]
    cases marks with
    | nil => exact hnext.emptied
    | cons mark rest => exact hnext
  | @countersDrained limit batch hphase hdrained =>
    rw [hphase] at hacc hplaced
    obtain ⟨hnext, hquiet⟩ := Placed.drainIndexCounters (c := s.session.catalog.settle) hplaced.of_eq
      hacc.of_eq hrep rfl limit
    rw [hdrained] at hnext
    refine Placed.call hbalanced ?_ fun _ ↦ hquiet
    rw [IndexPhase.flight_unlessEmpty_counters]
    cases batch with
    | nil => exact hnext.emptied
    | cons snapshot rest => exact hnext
  | @countersWritten batch hphase =>
    rw [hphase] at hacc hplaced
    refine ⟨hbalanced, ?_⟩
    have hbuilt : (batch.mapM buildCounterUpdate).isSome := updates_of_placed hplaced hacc
    obtain ⟨updates, hupdates⟩ := Option.isSome_iff_exists.mp hbuilt
    unfold IndexSystem.commitCounters
    rw [hupdates]
    exact hplaced
  | @countersFailed batch hphase _ =>
    rw [hphase] at hacc hplaced
    refine Placed.call hbalanced ?_ fun hne ↦ absurd rfl hne
    exact Placed.requeueIndexCounters (c := s.session.catalog.settle) hplaced.of_eq hacc.of_eq hrep
  | @countersMarked batch missing hphase =>
    have hmissing : missing = [] := by
      have hsound := hs.balanced.phase
      rw [hphase] at hsound
      exact hsound
    subst hmissing
    rw [hphase] at hacc hplaced
    have hall : batch.filter (fun snapshot ↦ snapshot.infoHash ∉ ([] : List Bytes)) = batch :=
      List.filter_eq_self.mpr fun _ _ ↦ by simp
    rw [hall] at hbalanced ⊢
    refine Placed.call hbalanced ?_ fun hne ↦ absurd rfl hne
    exact Placed.markCountersWritten (c := s.session.catalog.settle) hplaced.of_eq hacc.flight_nodup
  | @missingReset infoHash rest hphase =>
    have hsound := hs.balanced.phase
    rw [hphase] at hsound
    exact hsound.elim
  | @checksTaken limit infoHashes hphase _ =>
    rw [hphase] at hplaced
    refine ⟨hbalanced, ?_⟩
    cases infoHashes <;> exact hplaced
  | @rowsRead infoHashes hphase =>
    rw [hphase] at hplaced
    refine ⟨hbalanced, ?_⟩
    simp only
    split <;> exact hplaced
  | @readFailed infoHashes hphase =>
    rw [hphase] at hplaced
    exact ⟨hbalanced, hplaced⟩
  | @checksApplied infoHashes found hphase =>
    rw [hphase] at hplaced
    refine ⟨hbalanced, ?_⟩
    have hidle : (s.call (.applyDatabaseChecks infoHashes found) .idle).phase = .idle := by
      unfold IndexSystem.call
      simp only
      split <;> rfl
    simp only [hidle]
    exact Placed.applyDatabaseChecks (c := s.session.catalog.settle) hplaced.of_eq hrep infoHashes found
  | @checksSwitched enabled hphase =>
    rw [hphase] at hplaced
    refine Placed.call hbalanced ?_ fun hne ↦ absurd rfl hne
    exact Placed.setDatabaseCheck (c := s.session.catalog.settle) hplaced.of_eq hrep enabled

theorem run_placed {maxPending : ℕ} {checkDatabase : Bool} {labels : List IndexLabel}
    (hpending : 1 ≤ maxPending)
    (hsafe : indexMachine.Along requeuesOnceUnderProtocol
      (.start limits maxPending checkDatabase start) labels)
    (hrun : indexMachine.run (.start limits maxPending checkDatabase start) labels = some s) :
    s.Placed limits start (sightingsOf labels) := by
  refine indexMachine.run_history_invariant
    (I := fun labels s ↦ s.Placed limits start (sightingsOf labels)) ?_ []
    (start_placed maxPending checkDatabase hpending) hsafe hrun
  intro past s label s' hs hlabel hstep
  have hnext := hs.step hlabel hstep
  simpa [sightingsOf] using hnext

end IndexSystem

end DhtScraper
