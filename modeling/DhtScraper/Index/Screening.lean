import DhtScraper.Index.Lossless

/-!
# Torrents in the database are not fetched

A new hash waits for its database check before it can be fetched.  `Screened` says what the check is
for: as long as the live entry of a hash is checked and not done, the hash has no row and no document of
it, queued or on the way, can bring one.

The answer of a check is a snapshot.  It can miss a row that an evicted entry of the same hash is about
to write, so the main theorem asks that no document of the hash waits when its absence is applied.
-/

namespace DhtScraper

open Library

namespace TorrentCatalog

/-- The hash has no row, and no document of it waits or is on its way. -/
structure Absent (c : TorrentCatalog) (rows : Rows) (flight : List IndexSnapshot) (h : Bytes) : Prop
    where
  row : rows h = none
  document : c.indexDocuments.get? h = none
  flight : ∀ snapshot ∈ flight, snapshot.infoHash ≠ h

/-- `flight` holds the snapshots whose documents are on the way. -/
structure Screened (c : TorrentCatalog) (rows : Rows) (flight : List IndexSnapshot) : Prop where
  checking : c.checkDatabase = true
  documents : ∀ h r, c.indexDocuments.get? h = some r → r < c.nextRef ∧ c.owner r = h
  carried : ∀ snapshot ∈ flight, snapshot.entry < c.nextRef ∧ c.owner snapshot.entry = snapshot.infoHash
  based : ∀ r, (c.heap r).indexBase.isSome → (rows (c.owner r)).isSome
  absent : ∀ h r, c.entries.get? h = some r → (c.heap r).databaseChecked →
    (c.heap r).fetchState ≠ .done → c.Absent rows flight h

/-- What `apply_database_checks` has to know about the rows it was told of. -/
structure Current (c : TorrentCatalog) (rows : Rows) (infoHashes : List Bytes)
    (found : List (Bytes × IndexBase)) : Prop where
  row : ∀ h ∈ infoHashes, (found.lookup h).isSome = (rows h).isSome
  /-- The absence of a row is applied where no document of the hash waits. -/
  document : ∀ h ∈ infoHashes, found.lookup h = none → (c.needsCheck.get? h).isSome →
    c.indexDocuments.get? h = none

namespace Screened

variable {c c' mid : TorrentCatalog} {rows : Rows} {flight : List IndexSnapshot} {h : Bytes} {r : Ref}
  {entry : TorrentEntry}

/-- Entries keep their hashes, bases come from rows, and no entry becomes fetchable that was not. -/
theorem kept (hc : c.Screened rows flight) (owner : ∀ r < c.nextRef, c'.owner r = c.owner r)
    (nextRef : c.nextRef ≤ c'.nextRef)
    (documents : ∀ h r, c'.indexDocuments.get? h = some r →
      c.indexDocuments.get? h = some r ∨ r < c'.nextRef ∧ c'.owner r = h ∧
        ∀ r', c'.entries.get? h = some r' → (c'.heap r').fetchState = .done)
    (based : ∀ r, (c'.heap r).indexBase.isSome → (rows (c'.owner r)).isSome)
    (absent : ∀ h r, c'.entries.get? h = some r → (c'.heap r).databaseChecked →
      (c'.heap r).fetchState ≠ .done → c.Absent rows flight h)
    (checking : c'.checkDatabase = c.checkDatabase := by rfl) : c'.Screened rows flight where
  checking := checking.trans hc.checking
  documents := fun k r hr ↦ by
    rcases documents k r hr with hold | ⟨halloc, howner, -⟩
    · obtain ⟨halloc, howner⟩ := hc.documents k r hold
      exact ⟨lt_of_lt_of_le halloc nextRef, (owner r halloc).trans howner⟩
    · exact ⟨halloc, howner⟩
  carried := fun snapshot hsnapshot ↦ by
    obtain ⟨halloc, howner⟩ := hc.carried snapshot hsnapshot
    exact ⟨lt_of_lt_of_le halloc nextRef, (owner _ halloc).trans howner⟩
  based := based
  absent := fun k r hr hchecked hdone ↦ by
    have hk := absent k r hr hchecked hdone
    refine ⟨hk.row, ?_, hk.flight⟩
    by_contra hne
    obtain ⟨other, hother⟩ := Option.ne_none_iff_exists'.mp hne
    rcases documents k other hother with hold | ⟨-, -, hall⟩
    · rw [hk.document] at hold
      cases hold
    · exact hdone (hall r hr)

theorem of_fields (hc : c.Screened rows flight) (heap : c'.heap = c.heap)
    (nextRef : c'.nextRef = c.nextRef) (entries : c'.entries = c.entries)
    (documents : c'.indexDocuments = c.indexDocuments)
    (checking : c'.checkDatabase = c.checkDatabase) : c'.Screened rows flight := by
  refine hc.kept (fun r _ ↦ by rw [owner, owner, heap]) (le_of_eq nextRef.symm)
    (fun k r hr ↦ Or.inl (by rw [← documents]; exact hr)) ?_ ?_ checking
  · unfold owner
    rw [heap]
    exact hc.based
  · rw [entries, heap]
    exact hc.absent

theorem of_eq (hc : c.Screened rows flight)
    {limits : CatalogLimits}
    {fetched fetchable needsLookup needsCheck indexCounters : OrderedMap Bytes Ref}
    {stateCounts : FetchState → ℤ}
    {observations discovered evicted indexMaxPending indexDropped : ℕ}
    {lookupsInProgress metadataBytes knownDone : ℤ} {indexTracking raised : Bool}
    {orphanCounters : List Ref} :
    { c with
      limits := limits, fetched := fetched, fetchable := fetchable, needsLookup := needsLookup
      needsCheck := needsCheck, stateCounts := stateCounts, observations := observations
      discovered := discovered, evicted := evicted, lookupsInProgress := lookupsInProgress
      indexTracking := indexTracking, indexMaxPending := indexMaxPending
      indexCounters := indexCounters, orphanCounters := orphanCounters
      indexDropped := indexDropped, metadataBytes := metadataBytes, knownDone := knownDone
      raised := raised }.Screened rows flight :=
  hc.of_fields rfl rfl rfl rfl rfl

/-- One live entry is edited; it may only become fetchable when its hash is absent. -/
theorem edited (hc : c.Screened rows flight) (he : c.Edited c' h r entry)
    (hr : c.entries.get? h = some r) (hrep : c.Represented {h})
    (documents : ∀ k r', c'.indexDocuments.get? k = some r' →
      c.indexDocuments.get? k = some r' ∨ k = h ∧ r' = r ∧ entry.fetchState = .done)
    (based : entry.indexBase.isSome → (rows h).isSome)
    (absent : entry.databaseChecked → entry.fetchState ≠ .done → c.Absent rows flight h)
    (checking : c'.checkDatabase = c.checkDatabase := by rfl) : c'.Screened rows flight := by
  have hself : c'.heap r = entry := he.entry_eq
  have hother {r' : Ref} (hne : r' ≠ r) : c'.heap r' = c.heap r' := by
    rw [he.heap, Function.update_of_ne hne]
  have howner (r' : Ref) : c'.owner r' = c.owner r' := by
    by_cases heq : r' = r
    · rw [heq]
      exact he.key.trans (hrep.key h r hr).symm
    · exact congrArg TorrentEntry.infoHash (hother heq)
  refine hc.kept (fun r' _ ↦ howner r') (le_of_eq he.nextRef.symm) (fun k r' hr' ↦ ?_) (fun r' hr' ↦ ?_)
    (fun k r' hr' hchecked hdone ↦ ?_) checking
  · refine (documents k r' hr').imp_right ?_
    rintro ⟨rfl, rfl, hdone⟩
    refine ⟨?_, he.key, fun other hlive ↦ ?_⟩
    · rw [he.nextRef]
      exact hrep.allocated k r' hr
    · rw [he.entries, hr] at hlive
      rw [← Option.some.inj hlive, hself]
      exact hdone
  · by_cases heq : r' = r
    · rw [heq, hself] at hr'
      rw [heq, show c'.owner r = h from he.key]
      exact based hr'
    · rw [hother heq] at hr'
      rw [howner]
      exact hc.based r' hr'
  · rw [he.entries] at hr'
    by_cases heq : r' = r
    · rw [heq, hself] at hchecked hdone
      rw [show k = h from hrep.live_unique hr (heq ▸ hr')]
      exact absent hchecked hdone
    · rw [hother heq] at hchecked hdone
      exact hc.absent k r' hr' hchecked hdone

/-! ## Operations of the crawler and fetch threads -/

/-- A new entry waits for its check. -/
theorem obtained (hc : c.Screened rows flight) {now : ℚ} (ho : c.Obtained mid h now r)
    (hq : c.QueuesKept mid) : mid.Screened rows flight := by
  cases ho with
  | live hr entries heap nextRef =>
    exact hc.of_fields heap nextRef entries hq.indexDocuments hq.checkDatabase
  | new hnone entries heap nextRef =>
    have hnew : mid.heap c.nextRef = TorrentEntry.new h now (!c.checkDatabase) := by
      rw [heap, Function.update_self]
    have hold {r : Ref} (hne : r ≠ c.nextRef) : mid.heap r = c.heap r := by
      rw [heap, Function.update_of_ne hne]
    refine hc.kept (fun r hr ↦ congrArg TorrentEntry.infoHash (hold (Nat.ne_of_lt hr)))
      (by rw [nextRef]; exact Nat.le_succ _)
      (fun k r hr ↦ Or.inl (by rw [← hq.indexDocuments]; exact hr))
      (fun r hr ↦ ?_) (fun k r hr hchecked hdone ↦ ?_) hq.checkDatabase
    · by_cases hne : r = c.nextRef
      · rw [hne, hnew] at hr
        cases hr
      · rw [hold hne] at hr
        rw [owner, hold hne]
        exact hc.based r hr
    · by_cases hne : r = c.nextRef
      · rw [hne, hnew] at hchecked
        simp [TorrentEntry.new, hc.checking] at hchecked
      · rw [hold hne] at hchecked hdone
        rw [entries, OrderedMap.get?_insert] at hr
        split at hr
        · exact absurd (Option.some.inj hr).symm hne
        · exact hc.absent k r hr hchecked hdone

theorem evicted (hc : c.Screened rows flight) (he : c.Evicted c' h r) : c'.Screened rows flight := by
  have hsame (r' : Ref) : (c'.heap r').infoHash = (c.heap r').infoHash ∧
      (c'.heap r').indexBase = (c.heap r').indexBase ∧
      (c'.heap r').databaseChecked = (c.heap r').databaseChecked ∧
      (c'.heap r').fetchState = (c.heap r').fetchState := by
    rw [he.heap]
    by_cases heq : r' = r
    · subst heq
      rw [Function.update_self]
      exact ⟨rfl, rfl, rfl, rfl⟩
    · rw [Function.update_of_ne heq]
      exact ⟨rfl, rfl, rfl, rfl⟩
  refine hc.kept (fun r' _ ↦ (hsame r').1) (le_of_eq he.nextRef.symm)
    (fun k r' hr' ↦ Or.inl (by rw [← he.indexDocuments]; exact hr')) (fun r' hr' ↦ ?_)
    (fun k r' hr' hchecked hdone ↦ ?_) he.checkDatabase
  · rw [(hsame r').2.1] at hr'
    rw [show c'.owner r' = c.owner r' from (hsame r').1]
    exact hc.based r' hr'
  · rw [(hsame r').2.2.1] at hchecked
    rw [(hsame r').2.2.2] at hdone
    exact hc.absent k r' (he.live_iff.mp hr').2 hchecked hdone

/-- While no document is dropped, the operations of the crawler and fetch threads make no hash
fetchable that is, or will be, in the database. -/
theorem clientRules (rows : Rows) (flight : List IndexSnapshot) : ClientRules (fun _ _ ↦ True)
    (fun _ _ ↦ True) fun _ c ↦ c.indexDropped = 0 → c.Screened rows flight where
  quiet := fun _ _ _ _ hc hd ↦ (hc hd).of_eq
  reworked := fun _ c c' h r entry hrep hc hr hw hd ↦ by
    refine (hc (hw.queues.indexDropped ▸ hd)).edited hw.edited hr (hrep.mono (Set.empty_subset _))
      (fun k r' hr' ↦ Or.inl (by rw [← hw.queues.indexDocuments]; exact hr')) (fun hbase ↦ ?_)
      (fun hchecked hdone ↦ ?_) hw.queues.checkDatabase
    · rw [hw.record.indexBase] at hbase
      rw [← hrep.key h r hr]
      exact (hc (hw.queues.indexDropped ▸ hd)).based r hbase
    · rw [hw.record.databaseChecked] at hchecked
      exact (hc (hw.queues.indexDropped ▸ hd)).absent h r hr hchecked fun hold ↦
        hdone (hw.done.mpr hold)
  sighted := fun _ c mid c' h r source moment entry hrep hc _ ho hq hmid hs hd ↦ by
    have hk := (hc ((hs.indexDropped.trans hq.indexDropped) ▸ hd)).obtained ho hq
    refine hk.edited hs.edited ho.entry_live hmid
      (fun k r' hr' ↦ Or.inl (by rw [← hs.indexDocuments]; exact hr')) (fun hbase ↦ ?_)
      (fun hchecked hdone ↦ ?_) hs.checkDatabase
    · rw [hs.record.indexBase] at hbase
      rw [← hmid.key h r ho.entry_live]
      exact hk.based r hbase
    · rw [hs.record.databaseChecked] at hchecked
      rw [hs.fetchState] at hdone
      exact hk.absent h r ho.entry_live hchecked hdone
  evicted := fun _ c c' h r hrep hc hr _ _ he hd ↦ by
    refine Screened.evicted (hc ?_) he
    have hcount := he.indexDropped
    rw [hd] at hcount
    split at hcount
    · simp only [addOrphanLocked, TorrentCatalog.check] at hcount
      omega
    · exact hcount.symm
  stored := fun _ c mid c' r metadata now hrep hc _ ho hq hmid hs hd ↦ by
    have hk := (hc ((hs.indexDropped.trans hq.indexDropped) ▸ hd)).obtained ho hq
    refine hk.edited hs.edited ho.entry_live hmid (fun k r' hr' ↦ ?_) (fun hbase ↦ ?_)
      (fun _ hdone ↦ absurd rfl hdone) hs.checkDatabase
    · rw [hs.indexDocuments] at hr'
      split at hr'
      · refine (OrderedMap.get?_setDefault_cases hr').imp_right ?_
        rintro ⟨rfl, rfl⟩
        exact ⟨rfl, rfl, rfl⟩
      · exact Or.inl hr'
    · rw [← hmid.key _ _ ho.entry_live]
      exact hk.based r hbase
  dropped := fun _ c key r rest hrep _ _ hd ↦ by
    have hkept := (dropUnwrittenMetadataLocked_spec
      (c := { c with indexDocuments := rest, indexDropped := c.indexDropped + 1 })
      hrep.of_eq r).2.1.indexDropped
    rw [hd] at hkept
    exact absurd hkept (Nat.zero_ne_add_one _)
  stable := fun _ _ _ _ _ _ _ _ ↦ trivial

/-! ## Operations of the index thread -/

/-- The documents on the way do not matter any more, or their rows exist. -/
theorem landed (hc : c.Screened rows flight) {rows' : Rows} {flight' : List IndexSnapshot}
    (hflight : ∀ snapshot ∈ flight', snapshot ∈ flight)
    (hrows : ∀ h, (rows h).isSome → (rows' h).isSome)
    (hnew : ∀ h, (rows' h).isSome → (rows h).isSome ∨ ∃ snapshot ∈ flight, snapshot.infoHash = h) :
    c.Screened rows' flight' :=
  { hc with
    carried := fun snapshot hsnapshot ↦ hc.carried snapshot (hflight snapshot hsnapshot)
    based := fun r hr ↦ hrows _ (hc.based r hr)
    absent := fun k r hr hchecked hdone ↦ by
      have hk := hc.absent k r hr hchecked hdone
      refine ⟨?_, hk.document, fun snapshot hsnapshot ↦ hk.flight snapshot (hflight snapshot hsnapshot)⟩
      by_contra hne
      rcases hnew k (Option.ne_none_iff_isSome.mp hne) with hsome | ⟨snapshot, hsnapshot, heq⟩
      · rw [hk.row] at hsome
        cases hsome
      · exact hk.flight snapshot hsnapshot heq }

theorem withdrawn (hc : c.Screened rows flight) {flight' : List IndexSnapshot}
    (hflight : ∀ snapshot ∈ flight', snapshot ∈ flight) : c.Screened rows flight' :=
  hc.landed hflight (fun _ ↦ id) fun _ ↦ Or.inl

theorem drainIndexDocuments (hc : c.Screened rows []) (limit : ℕ) :
    (c.drainIndexDocuments limit).1.Screened rows (c.drainIndexDocuments limit).2 := by
  obtain ⟨taken, rest, b, hsplit, hstate, hbatch, -⟩ := c.drainDocumentsLocked_spec limit
  have hrest : (c.drainDocumentsLocked limit).1.Screened rows [] := by
    rw [hstate]
    refine hc.kept (fun _ _ ↦ rfl) le_rfl (fun k r hr ↦ Or.inl ?_) hc.based hc.absent
    exact (OrderedMap.get?_eq_some_iff_of_items hsplit).mpr (Or.inr hr)
  simp only [TorrentCatalog.drainIndexDocuments]
  split
  · exact hrest
  next hquiet =>
    have hb : b = false := by
      rw [hstate] at hquiet
      simpa using hquiet
    have hget {snapshot : IndexSnapshot} (hsnapshot : snapshot ∈ (c.drainDocumentsLocked limit).2) :
        c.indexDocuments.get? snapshot.infoHash = some snapshot.entry ∧
          c.owner snapshot.entry = snapshot.infoHash := by
      rw [hbatch hb] at hsnapshot
      obtain ⟨item, hitem, rfl⟩ := List.mem_map.mp hsnapshot
      have hwaits := (OrderedMap.get?_eq_some_iff_of_items hsplit).mpr (Or.inl hitem)
      have howner : c.owner item.2 = item.1 := (hc.documents item.1 item.2 hwaits).2
      refine ⟨?_, rfl⟩
      rw [show (indexSnapshot item.2 (c.heap item.2)).infoHash = item.1 from howner]
      exact hwaits
    refine { hrest with
      carried := fun snapshot hsnapshot ↦ ?_
      absent := fun k r hr hchecked hdone ↦ ?_ }
    · obtain ⟨hwaits, howner⟩ := hget hsnapshot
      rw [hstate]
      exact ⟨(hc.documents _ _ hwaits).1, howner⟩
    · have hk := hrest.absent k r hr hchecked hdone
      refine ⟨hk.row, hk.document, fun snapshot hsnapshot heq ↦ ?_⟩
      rw [hstate] at hr hchecked hdone
      have hgone := (hc.absent k r hr hchecked hdone).document
      rw [← heq, (hget hsnapshot).1] at hgone
      cases hgone

theorem requeueIndexDocuments (hc : c.Screened rows flight) :
    (c.requeueIndexDocuments flight).Screened rows [] := by
  obtain ⟨documents, b, hstate, -, hnew, -⟩ := c.requeueIndexDocuments_spec flight
  rw [hstate]
  exact
    { checking := hc.checking
      documents := fun k r hr ↦ by
        rcases hnew k r hr with hold | ⟨-, snapshot, hsnapshot, hkey, hentry⟩
        · exact hc.documents k r hold
        · obtain ⟨halloc, howner⟩ := hc.carried snapshot hsnapshot
          exact hentry ▸ ⟨halloc, howner.trans hkey⟩
      carried := fun _ hsnapshot ↦ by cases hsnapshot
      based := hc.based
      absent := fun k r hr hchecked hdone ↦ by
        have hk := hc.absent k r hr hchecked hdone
        refine ⟨hk.row, ?_, fun _ hsnapshot ↦ by cases hsnapshot⟩
        by_contra hne
        obtain ⟨other, hget⟩ := Option.ne_none_iff_exists'.mp hne
        rcases hnew k other hget with hold | ⟨-, snapshot, hsnapshot, hkey, -⟩
        · rw [hk.document] at hold
          cases hold
        · exact hk.flight snapshot hsnapshot hkey }

/-- The flushed counts of an entry do not matter. -/
theorem flushSnapshot (hc : c.Screened rows flight) (snapshot : IndexSnapshot) :
    (c.flushSnapshot snapshot).Screened rows flight := by
  have hsame (r : Ref) : ((c.flushSnapshot snapshot).heap r).infoHash = (c.heap r).infoHash ∧
      ((c.flushSnapshot snapshot).heap r).indexBase = (c.heap r).indexBase ∧
      ((c.flushSnapshot snapshot).heap r).databaseChecked = (c.heap r).databaseChecked ∧
      ((c.flushSnapshot snapshot).heap r).fetchState = (c.heap r).fetchState := by
    by_cases heq : r = snapshot.entry
    · subst heq
      simp [TorrentCatalog.flushSnapshot, modify]
    · simp [TorrentCatalog.flushSnapshot, modify, Function.update_of_ne heq]
  refine hc.kept (fun r _ ↦ (hsame r).1) le_rfl (fun _ _ hr ↦ Or.inl hr) (fun r hr ↦ ?_)
    fun k r hr hchecked hdone ↦ ?_
  · rw [(hsame r).2.1] at hr
    rw [show (c.flushSnapshot snapshot).owner r = _ from (hsame r).1]
    exact hc.based r hr
  · rw [(hsame r).2.2.1] at hchecked
    rw [(hsame r).2.2.2] at hdone
    exact hc.absent k r hr hchecked hdone

theorem markCountersWritten (hc : c.Screened rows flight) (snapshots : List IndexSnapshot) :
    (c.markCountersWritten snapshots).Screened rows flight := by
  have hfold : ∀ (snapshots : List IndexSnapshot) (c : TorrentCatalog), c.Screened rows flight →
      (snapshots.foldl TorrentCatalog.flushSnapshot c).Screened rows flight := by
    intro snapshots
    induction snapshots with
    | nil => exact fun _ hc ↦ hc
    | cons first rest ih => exact fun c hc ↦ ih _ (hc.flushSnapshot first)
  exact (hfold snapshots c hc).of_eq

theorem markIndexWritten {snapshot : IndexSnapshot} {base : IndexBase} (hc : c.Screened rows flight)
    (hrep : c.Represented ∅) (hrow : (rows snapshot.infoHash).isSome) :
    (c.markIndexWritten snapshot base).Screened rows flight := by
  by_cases hmeta : snapshot.metadata.isSome
  · rw [show c.markIndexWritten snapshot base = _ from if_pos hmeta]
    have hflushedRep := hrep.flushSnapshot snapshot
    have hflushed := hc.flushSnapshot snapshot
    have hchecked {c' : TorrentCatalog} (hc' : c'.Screened rows flight) :
        (c'.assertInvariantsLocked.check (0 ≤ base.1)).Screened rows flight := hc'.of_eq
    split
    next hlive =>
      have hlive' : (c.flushSnapshot snapshot).entries.get? snapshot.infoHash = some snapshot.entry :=
        hlive
      obtain ⟨-, hwritten⟩ := writtenLocked_spec hflushedRep hlive' hmeta base
      refine hchecked (hflushed.edited hwritten.edited hlive' (hflushedRep.mono (Set.empty_subset _))
        (fun k r hr ↦ Or.inl ?_) (fun _ ↦ hrow) (fun hcheck hdone ↦ ?_) hwritten.checkDatabase)
      · rw [hwritten.indexDocuments] at hr
        split at hr
        · rw [OrderedMap.get?_erase] at hr
          split at hr
          · cases hr
          · exact hr
        · exact hr
      · let entry := (c.flushSnapshot snapshot).heap snapshot.entry
        have hsame : (writtenEntry entry snapshot base).databaseChecked = entry.databaseChecked ∧
            (writtenEntry entry snapshot base).fetchState = entry.fetchState := by
          unfold writtenEntry
          split <;> exact ⟨rfl, rfl⟩
        rw [hsame.1] at hcheck
        rw [hsame.2] at hdone
        exact hflushed.absent _ _ hlive' hcheck hdone
    next => exact hchecked hflushed
  · rw [show c.markIndexWritten snapshot base = _ from if_neg hmeta]
    exact hc.of_eq

theorem requeueIndexCounters (hc : c.Screened rows flight) (snapshots : List IndexSnapshot) :
    (c.requeueIndexCounters snapshots).Screened rows flight := by
  have hfold : ∀ (snapshots : List IndexSnapshot) (c : TorrentCatalog), c.Screened rows flight →
      (snapshots.foldl requeueCounterLocked c).Screened rows flight := by
    intro snapshots
    induction snapshots with
    | nil => exact fun _ hc ↦ hc
    | cons first rest ih =>
      refine fun c hc ↦ ih _ ?_
      unfold requeueCounterLocked
      split <;> exact hc.of_eq
  exact hfold snapshots c hc

/-- Switching the checks on does not touch the entries. -/
theorem setDatabaseCheck (hc : c.Screened rows flight) :
    (c.setDatabaseCheck true).Screened rows flight :=
  hc.of_fields rfl rfl rfl rfl hc.checking.symm

theorem applyDatabaseChecks (hc : c.Screened rows []) (hrep : c.Represented ∅)
    {infoHashes : List Bytes} {found : List (Bytes × IndexBase)}
    (hcurrent : c.Current rows infoHashes found) :
    (c.applyDatabaseChecks infoHashes found).Screened rows [] := by
  have hfold : ∀ (infoHashes : List Bytes) (c : TorrentCatalog), c.Represented ∅ →
      c.Current rows infoHashes found → c.Screened rows [] →
      (infoHashes.foldl (applyCheckLocked found) c).Screened rows [] := by
    intro infoHashes
    induction infoHashes with
    | nil => exact fun _ _ _ hc ↦ hc
    | cons h rest ih =>
      intro c hrep hcurrent hc
      have hrow := hcurrent.row h List.mem_cons_self
      have hrest : c.Current rows rest found :=
        { row := fun k hk ↦ hcurrent.row k (List.mem_cons_of_mem _ hk)
          document := fun k hk ↦ hcurrent.document k (List.mem_cons_of_mem _ hk) }
      rw [List.foldl_cons]
      cases hcheck : c.needsCheck.get? h with
      | none =>
        rw [applyCheckLocked_of_none found hcheck]
        exact ih c hrep hrest hc
      | some r =>
        obtain ⟨hnextRep, hch⟩ := applyCheckLocked_of_some found hrep hcheck
        have hr := hrep.needsCheck_live h r hcheck
        have hnext : (c.applyCheckLocked found h).Screened rows [] := by
          refine hc.edited hch.edited hr (hrep.mono (Set.empty_subset _))
            (fun k r' hr' ↦ Or.inl (by rw [← hch.indexDocuments]; exact hr')) ?_ ?_ hch.checkDatabase
          · intro hbase
            cases hlookup : found.lookup h with
            | none =>
              rw [hlookup] at hbase
              rw [← hrep.key h r hr]
              exact hc.based r hbase
            | some base =>
              rw [← hrow, hlookup]
              rfl
          · intro _ hdone
            cases hlookup : found.lookup h with
            | none =>
              rw [hlookup] at hrow
              exact
                { row := Option.not_isSome_iff_eq_none.mp (by rw [← hrow]; simp)
                  document := hcurrent.document h List.mem_cons_self hlookup (by rw [hcheck]; rfl)
                  flight := fun _ hsnapshot ↦ by cases hsnapshot }
            | some base =>
              rw [hlookup] at hdone
              exact absurd rfl hdone
        refine ih _ hnextRep { hrest with document := fun k hk hlookup hwaits ↦ ?_ } hnext
        rw [hch.indexDocuments]
        refine hrest.document k hk hlookup ?_
        rcases hch.edited.needsCheck k with hsame | ⟨rfl, -⟩
        · rw [← hsame]
          exact hwaits
        · rw [hcheck]
          rfl
  unfold TorrentCatalog.applyDatabaseChecks guarded
  simp only
  split
  · exact (hfold infoHashes c hrep hcurrent hc).of_eq
  · exact hc.of_eq

/-- What the counter drain keeps while nothing is dropped. -/
structure DrainingScreened (rows : Rows) (batch : List IndexSnapshot) (c : TorrentCatalog) : Prop where
  represented : c.Represented ∅
  screened : c.indexDropped = 0 → c.Screened rows []
  based : c.indexDropped = 0 → ∀ snapshot ∈ batch, snapshot.base.isSome →
    (rows snapshot.infoHash).isSome

theorem DrainingScreened.take {batch : List IndexSnapshot} (hd : DrainingScreened rows batch c)
    (r : Ref) : DrainingScreened rows (batch ++ [indexSnapshot r (c.heap r)]) c :=
  { hd with
    based := fun hdropped snapshot hsnapshot hbase ↦ by
      rcases List.mem_append.mp hsnapshot with hold | hlast
      · exact hd.based hdropped snapshot hold hbase
      · rw [List.mem_singleton.mp hlast] at hbase ⊢
        exact (hd.screened hdropped).based r hbase }

theorem DrainingScreened.popCounter {batch : List IndexSnapshot} (hd : DrainingScreened rows batch c)
    {k : Bytes} {rest : OrderedMap Bytes Ref} (hpop : c.indexCounters.popFirst = some ((k, r), rest)) :
    DrainingScreened rows batch { c with indexCounters := rest } ∧ c.entries.get? k = some r := by
  obtain ⟨hfirst, hrest⟩ := OrderedMap.get?_of_popFirst hpop
  refine ⟨⟨hd.represented.of_counters fun k' r' hr' ↦ Or.inl ?_,
    fun hdropped ↦ (hd.screened hdropped).of_eq,
    hd.based⟩, hd.represented.counters_live k r hfirst⟩
  rw [hrest] at hr'
  split at hr'
  · cases hr'
  · exact hr'

/-- Queueing the document of a live entry that has its metadata: the entry is done. -/
theorem queueDocumentLocked (hc : c.indexDropped = 0 → c.Screened rows []) (hrep : c.Represented ∅)
    (hr : c.entries.get? h = some r) (hmeta : (c.heap r).metadata.isSome)
    (hdropped : (c.queueDocumentLocked r).indexDropped = 0) :
    (c.queueDocumentLocked r).Screened rows [] := by
  have hle := indexDropped_le_queueDocumentLocked hrep r
  rw [hdropped] at hle
  have hqueued : (c.documentQueued r).Screened rows [] := by
    refine (hc (Nat.le_zero.mp hle)).kept (fun _ _ ↦ rfl) le_rfl (fun k r' hr' ↦ ?_)
      (hc (Nat.le_zero.mp hle)).based (hc (Nat.le_zero.mp hle)).absent
    refine (OrderedMap.get?_setDefault_cases hr').imp_right ?_
    rintro ⟨rfl, rfl⟩
    refine ⟨hrep.allocated h r' hr, rfl, fun other hlive ↦ ?_⟩
    have heq : other = r' := by
      rw [show (c.heap r').infoHash = h from hrep.key h r' hr] at hlive
      exact Option.some.inj (hlive.symm.trans hr)
    rw [heq]
    exact hrep.stored_done h r' hr hmeta
  revert hdropped
  refine queueDocumentLocked_induction (P := fun c' ↦ c'.indexDropped = 0 → c'.Screened rows []) c r
    (fun _ ↦ hqueued) fun key dropped rest _ hdropped ↦ ?_
  rw [(dropUnwrittenMetadataLocked_spec (c := { c.documentQueued r with
    indexDocuments := rest
    indexDropped := (c.documentQueued r).indexDropped + 1 })
    (hrep.documentQueued r).of_eq dropped).2.1.indexDropped] at hdropped
  exact absurd hdropped (Nat.succ_ne_zero _)

theorem drainRules (rows : Rows) : CounterDrainRules (DrainingScreened rows)
    fun c ↦ c.indexDropped = 0 → c.Screened rows [] where
  orphanTaken := fun batch c r rest hd _ _ ↦
    { represented := hd.represented.of_eq
      screened := fun hdropped ↦ (hd.screened hdropped).of_eq
      based := (hd.take r).based }
  orphanSkipped := fun batch c r rest hd _ _ _ ↦
    { represented := hd.represented.of_eq
      screened := fun hdropped ↦ (hd.screened hdropped).of_eq
      based := hd.based }
  orphanFailed := fun batch c r rest hd _ _ hdropped ↦ (hd.screened hdropped).of_eq
  documentQueued := fun batch c k r rest hd hpop _ hmeta ↦ by
    obtain ⟨hrest, hlive⟩ := hd.popCounter hpop
    have hle := indexDropped_le_queueDocumentLocked hrest.represented r
    refine ⟨hrest.represented.queueDocumentLocked r,
      queueDocumentLocked hrest.screened hrest.represented hlive hmeta, fun hdropped ↦ ?_⟩
    rw [hdropped] at hle
    exact hrest.based (Nat.le_zero.mp hle)
  unbasedSkipped := fun _ _ _ _ _ hd hpop _ _ ↦ (hd.popCounter hpop).1
  counterTaken := fun _ c _ r _ hd hpop _ _ _ ↦ (hd.popCounter hpop).1.take r
  counterSkipped := fun _ _ _ _ _ hd hpop _ _ ↦ (hd.popCounter hpop).1
  counterFailed := fun _ _ _ _ _ hd hpop _ _ hdropped ↦ ((hd.popCounter hpop).1.screened hdropped).of_eq
  failed := fun _ _ hd _ ↦ hd.screened

/-- The snapshots of the batch have rows when they have bases. -/
theorem drainIndexCounters (hc : c.indexDropped = 0 → c.Screened rows []) (hrep : c.Represented ∅)
    (limit : ℕ) (hdropped : (c.drainIndexCounters limit).1.indexDropped = 0) :
    (c.drainIndexCounters limit).1.Screened rows [] ∧
      ∀ snapshot ∈ (c.drainIndexCounters limit).2, snapshot.base.isSome →
        (rows snapshot.infoHash).isSome := by
  have hstart : DrainingScreened rows [] c := ⟨hrep, hc, fun _ _ hsnapshot ↦ by cases hsnapshot⟩
  rcases (drainRules rows).drainIndexCounters limit hstart with hd | ⟨hbatch, hfailed⟩
  · exact ⟨hd.screened hdropped, hd.based hdropped⟩
  · refine ⟨hfailed hdropped, fun snapshot hsnapshot ↦ ?_⟩
    rw [hbatch] at hsnapshot
    cases hsnapshot

end Screened

end TorrentCatalog

/-! ## The system -/

/-- The snapshots whose documents may still bring a row. -/
def IndexPhase.documentsInFlight : IndexPhase → List IndexSnapshot
  | .documentsDrained batch => batch
  | _ => []

/-- The rows that the index thread relies on while it holds something. -/
def IndexPhase.Known (rows : Rows) : IndexPhase → Prop
  | .documentsWritten marks => ∀ mark ∈ marks, (rows mark.1.infoHash).isSome
  | .countersDrained batch => ∀ snapshot ∈ batch, snapshot.base.isSome → (rows snapshot.infoHash).isSome
  | .countersWritten _ missing => missing = []
  | .countersMissing _ => False
  | .checksRead infoHashes found => found = rows.lookupCounters infoHashes
  | _ => True

namespace IndexSystem

open TorrentCatalog

/-- While no document was dropped, no hash that is in the database is fetchable. -/
structure Screening (limits : CatalogLimits) (s : IndexSystem) : Prop where
  sound : Sound limits (fun _ ↦ True) s.session.catalog s.session.fetchClaims s.session.lookupClaims
  screened : s.session.catalog.indexDropped = 0 →
    s.session.catalog.Screened s.rows s.phase.documentsInFlight ∧ s.phase.Known s.rows

/-- The run meets this condition when the checks are never switched off and the absence of a row is
applied to a waiting entry only while no document of its hash is queued. -/
def checksCurrent (s : IndexSystem) (label : IndexLabel) : Prop :=
  match label, s.phase with
  | .applyChecks, .checksRead infoHashes found => ∀ h ∈ infoHashes, found.lookup h = none →
    (s.session.catalog.needsCheck.get? h).isSome → s.session.catalog.indexDocuments.get? h = none
  | .switchChecks enabled, _ => enabled = true
  | _, _ => True

instance (s : IndexSystem) (label : IndexLabel) : Decidable (s.checksCurrent label) := by
  unfold checksCurrent
  generalize s.phase = phase
  refine label.casesOn ?_ ?_ ?_ ?_ ?_ ?_ ?_ ?_ ?_ ?_ ?_ ?_ ?_ ?_ ?_ <;> intros <;>
    refine phase.casesOn ?_ ?_ ?_ ?_ ?_ ?_ ?_ ?_ <;> intros <;> infer_instance

variable {limits : CatalogLimits} {start : Rows} {s s' : IndexSystem}

/-- A call after which nothing in the database is fetchable. -/
theorem Screening.call (hs : s.Screening limits) {op : CatalogOp} {phase : IndexPhase}
    (hop : s.session.permits looseStores op)
    (hscreened : (s.session.exec op).catalog.indexDropped = 0 →
      (s.session.exec op).catalog.Screened s.rows phase.documentsInFlight ∧ phase.Known s.rows) :
    (s.call op phase).Screening limits where
  sound := s.session.exec_sound (anyEntry_invariant limits looseStores) hs.sound op hop
  screened := fun hdropped ↦ by
    have hk := hscreened hdropped
    unfold IndexSystem.call
    simp only
    split
    · exact ⟨hk.1.withdrawn fun _ hsnapshot ↦ (by cases hsnapshot), trivial⟩
    · exact hk

theorem start_screening (maxPending : ℕ) (hpending : 1 ≤ maxPending) :
    (IndexSystem.start limits maxPending true start).Screening limits where
  sound := Session.exec_sound (anyEntry_invariant limits looseStores) Session.new_sound
    (.enableIndexTracking maxPending true) trivial
  screened := fun _ ↦ by
    have heq : (IndexSystem.start limits maxPending true start).session.catalog =
        { (TorrentCatalog.new limits).settle with
          indexTracking := true, indexMaxPending := maxPending, checkDatabase := true } :=
      if_pos hpending
    rw [heq]
    refine ⟨?_, trivial⟩
    constructor
    case checking => rfl
    case documents => exact fun h r hr ↦ by cases hr
    case carried => exact fun _ hsnapshot ↦ by cases hsnapshot
    case based => exact fun r hr ↦ by cases hr
    case absent => exact fun h r hr ↦ by cases hr

theorem Screening.commitDocuments (hs : s.Screening limits) {batch : List IndexSnapshot}
    (hphase : s.phase = .documentsDrained batch) : (s.commitDocuments batch).Screening limits := by
  have hscreened := hs.screened
  rw [hphase] at hscreened
  unfold IndexSystem.commitDocuments
  cases hdocuments : documentsOf batch with
  | none =>
    exact ⟨hs.sound, fun hdropped ↦
      ⟨(hscreened hdropped).1.withdrawn fun _ hsnapshot ↦ (by cases hsnapshot), trivial⟩⟩
  | some documents =>
    have hbuilt := documentsOf_spec hdocuments
    refine ⟨hs.sound, fun hdropped ↦ ⟨(hscreened hdropped).1.landed
      (fun _ hsnapshot ↦ (by cases hsnapshot)) (fun h hrow ↦ ?_) (fun h hrow ↦ ?_),
      fun mark hmark ↦ ?_⟩⟩
    · exact (Rows.isSome_writeDocuments s.rows documents h).mpr (Or.inl hrow)
    · rcases (Rows.isSome_writeDocuments s.rows documents h).mp hrow with
          hold | ⟨document, hdocument, rfl⟩
      · exact Or.inl hold
      · obtain ⟨snapshot, hsnapshot, hbuild⟩ := exists_of_forall₂ hbuilt.flip hdocument
        exact Or.inr ⟨snapshot, hsnapshot, (buildDocument_spec hbuild).2.1.symm⟩
    · obtain ⟨snapshot, hsnapshot, rfl⟩ := List.mem_map.mp hmark
      obtain ⟨document, hdocument, hbuild⟩ := exists_of_forall₂ hbuilt hsnapshot
      exact (Rows.isSome_writeDocuments s.rows documents snapshot.infoHash).mpr
        (Or.inr ⟨document, hdocument, (buildDocument_spec hbuild).2.1⟩)

theorem Screening.commitCounters (hs : s.Screening limits) {batch : List IndexSnapshot}
    (hphase : s.phase = .countersDrained batch) : (s.commitCounters batch).Screening limits := by
  have hscreened := hs.screened
  rw [hphase] at hscreened
  unfold IndexSystem.commitCounters
  cases hupdates : batch.mapM buildCounterUpdate with
  | none => exact ⟨hs.sound, fun hdropped ↦ ⟨(hscreened hdropped).1, trivial⟩⟩
  | some updates =>
    have hbuilt := forall₂_of_mapM hupdates
    refine ⟨hs.sound, fun hdropped ↦ ?_⟩
    obtain ⟨hk, hbased⟩ := hscreened hdropped
    have hexists : ∀ update ∈ updates, (s.rows update.infoHash).isSome := by
      intro update hupdate
      obtain ⟨snapshot, hsnapshot, hbuild⟩ := exists_of_forall₂ hbuilt.flip hupdate
      obtain ⟨hbase, hhash, -⟩ := buildCounterUpdate_spec hbuild
      rw [hhash]
      exact hbased snapshot hsnapshot hbase
    obtain ⟨hmissing, hrows, -⟩ := Rows.updateCounters_of_rows s.rows updates hexists
    exact ⟨hk.landed (fun _ hsnapshot ↦ hsnapshot) (fun h ↦ (hrows h).mpr) fun h hrow ↦
      Or.inl ((hrows h).mp hrow), hmissing⟩

/-- Every step with current checks keeps what is in the database from being fetched. -/
theorem Screening.step (hs : s.Screening limits) {label : IndexLabel}
    (hcurrent : s.checksCurrent label) (hstep : s.step label = some s') : s'.Screening limits := by
  have hrep : s.session.catalog.settle.Represented ∅ := hs.sound.settle.represented
  have hscreened := hs.screened
  cases step_cases hstep with
  | @client op hclient hpermitted =>
    refine ⟨s.session.exec_sound (anyEntry_invariant limits looseStores) hs.sound op hpermitted,
      fun hdropped ↦ ?_⟩
    have hbefore (hd : s.session.catalog.indexDropped = 0) := (hscreened hd).1
    have hallowed : s.session.catalog.settle.opAllowed (fun _ _ ↦ True) (fun _ _ ↦ True) op :=
      opAllowed_of_forall (fun _ _ ↦ trivial) (fun _ _ ↦ trivial) _ op
    have hnext := @ClientRules.apply _ _ _ [] _ _ _ _
      (Screened.clientRules s.rows s.phase.documentsInFlight) hs.sound op hclient hpermitted hallowed
      hbefore
    have hle := @ClientRules.apply _ _ _ [] _ _ _ _
      (ClientRules.dropCount s.session.catalog.indexDropped)
      hs.sound op hclient hpermitted hallowed le_rfl
    rw [hdropped] at hle
    exact ⟨hnext hdropped, (hscreened (Nat.le_zero.mp hle)).2⟩
  | @documentsDrained limit batch hphase hdrained =>
    rw [hphase] at hscreened
    refine hs.call trivial fun hdropped ↦ ?_
    have hsame : (s.session.exec (.drainIndexDocuments limit)).catalog.indexDropped =
        s.session.catalog.indexDropped := indexDropped_apply s.session.catalog.settle rfl
    have hk := Screened.drainIndexDocuments (c := s.session.catalog.settle)
      (hscreened (hsame ▸ hdropped)).1.of_eq limit
    rw [hdrained] at hk
    cases batch with
    | nil => exact ⟨hk, trivial⟩
    | cons snapshot rest => exact ⟨hk, trivial⟩
  | @documentsWritten batch hphase => exact hs.commitDocuments hphase
  | @documentsFailed batch hphase _ =>
    rw [hphase] at hscreened
    refine hs.call trivial fun hdropped ↦ ?_
    have hsame : (s.session.exec (.requeueIndexDocuments batch)).catalog.indexDropped =
        s.session.catalog.indexDropped := indexDropped_apply s.session.catalog.settle rfl
    exact ⟨Screened.requeueIndexDocuments (c := s.session.catalog.settle)
      (hscreened (hsame ▸ hdropped)).1.of_eq, trivial⟩
  | @documentMarked snapshot base marks hphase =>
    rw [hphase] at hscreened
    refine hs.call trivial fun hdropped ↦ ?_
    have hsame : (s.session.exec (.markIndexWritten snapshot base)).catalog.indexDropped =
        s.session.catalog.indexDropped := indexDropped_apply s.session.catalog.settle rfl
    obtain ⟨hk, hmarks⟩ := hscreened (hsame ▸ hdropped)
    have hnext : (s.session.catalog.settle.markIndexWritten snapshot base).Screened s.rows [] :=
      Screened.markIndexWritten hk.of_eq hrep (hmarks (snapshot, base) List.mem_cons_self)
    cases marks with
    | nil => exact ⟨hnext, trivial⟩
    | cons mark rest => exact ⟨hnext, fun other hother ↦ hmarks other (List.mem_cons_of_mem _ hother)⟩
  | @countersDrained limit batch hphase hdrained =>
    rw [hphase] at hscreened
    refine hs.call trivial fun hdropped ↦ ?_
    have hbefore : s.session.catalog.settle.indexDropped = 0 →
        s.session.catalog.settle.Screened s.rows [] := fun hd ↦ (hscreened hd).1.of_eq
    have hk := Screened.drainIndexCounters hbefore hrep limit hdropped
    rw [hdrained] at hk
    cases batch with
    | nil => exact ⟨hk.1, trivial⟩
    | cons snapshot rest => exact hk
  | @countersWritten batch hphase => exact hs.commitCounters hphase
  | @countersFailed batch hphase _ =>
    rw [hphase] at hscreened
    refine hs.call trivial fun hdropped ↦ ?_
    have hle : s.session.catalog.indexDropped ≤
        (s.session.exec (.requeueIndexCounters batch)).catalog.indexDropped :=
      indexDropped_le_requeueCounterLocked s.session.catalog.settle batch
    rw [hdropped] at hle
    exact ⟨Screened.requeueIndexCounters (c := s.session.catalog.settle)
      (hscreened (Nat.le_zero.mp hle)).1.of_eq batch, trivial⟩
  | @countersMarked batch missing hphase =>
    rw [hphase] at hscreened
    refine hs.call trivial fun hdropped ↦ ?_
    have hsame : (s.session.exec (.markCountersWritten
        (batch.filter fun snapshot ↦ snapshot.infoHash ∉ missing))).catalog.indexDropped =
        s.session.catalog.indexDropped := indexDropped_apply s.session.catalog.settle rfl
    obtain ⟨hk, hmissing⟩ := hscreened (hsame ▸ hdropped)
    have hnone : missing = [] := hmissing
    subst hnone
    exact ⟨Screened.markCountersWritten (c := s.session.catalog.settle) hk.of_eq _, trivial⟩
  | @missingReset infoHash rest hphase =>
    rw [hphase] at hscreened
    refine hs.call (fun hd ↦ by cases hd) fun hdropped ↦ ?_
    have hle : s.session.catalog.indexDropped ≤
        (s.session.exec (.resetIndexBase infoHash)).catalog.indexDropped :=
      indexDropped_le_resetIndexBase hrep infoHash
    rw [hdropped] at hle
    exact (hscreened (Nat.le_zero.mp hle)).2.elim
  | @checksTaken limit infoHashes hphase _ =>
    rw [hphase] at hscreened
    refine ⟨hs.sound, fun hdropped ↦ ?_⟩
    cases infoHashes <;> exact hscreened hdropped
  | @rowsRead infoHashes hphase =>
    rw [hphase] at hscreened
    refine ⟨hs.sound, fun hdropped ↦ ?_⟩
    simp only
    split
    · exact ⟨(hscreened hdropped).1, rfl⟩
    · exact hscreened hdropped
  | @readFailed infoHashes hphase =>
    rw [hphase] at hscreened
    exact ⟨hs.sound, fun hdropped ↦ hscreened hdropped⟩
  | @checksApplied infoHashes found hphase =>
    have hwaiting : ∀ h ∈ infoHashes, found.lookup h = none →
        (s.session.catalog.needsCheck.get? h).isSome →
          s.session.catalog.indexDocuments.get? h = none := by
      unfold checksCurrent at hcurrent
      rw [hphase] at hcurrent
      exact hcurrent
    rw [hphase] at hscreened
    have hcalled : (s.call (.applyDatabaseChecks infoHashes found) .idle).Screening limits := by
      refine hs.call trivial fun hdropped ↦ ?_
      have hsame : (s.session.exec (.applyDatabaseChecks infoHashes found)).catalog.indexDropped =
          s.session.catalog.indexDropped := indexDropped_apply s.session.catalog.settle rfl
      obtain ⟨hk, hfound⟩ := hscreened (hsame ▸ hdropped)
      have hrows : s.session.catalog.settle.Current s.rows infoHashes found :=
        { row := fun h hh ↦ by
            rw [show found = s.rows.lookupCounters infoHashes from hfound, Rows.lookup_lookupCounters,
              if_pos hh, Option.isSome_map]
          document := hwaiting }
      exact ⟨Screened.applyDatabaseChecks (c := s.session.catalog.settle) hk.of_eq hrep hrows, trivial⟩
    exact ⟨hcalled.sound, hcalled.screened⟩
  | @checksSwitched enabled hphase =>
    rw [hphase] at hscreened
    have henabled : enabled = true := hcurrent
    subst henabled
    refine hs.call trivial fun hdropped ↦ ?_
    have hsame : (s.session.exec (.setDatabaseCheck true)).catalog.indexDropped =
        s.session.catalog.indexDropped := indexDropped_apply s.session.catalog.settle rfl
    exact ⟨Screened.setDatabaseCheck (c := s.session.catalog.settle)
      (hscreened (hsame ▸ hdropped)).1.of_eq, trivial⟩

/-! ## Runs -/

/-- In every run with current checks, as long as no document was dropped: a hash that
`next_fetch_candidates` returns has no row. -/
theorem fetched_hash_not_stored {maxPending : ℕ} {labels : List IndexLabel} (hpending : 1 ≤ maxPending)
    (hcurrent : indexMachine.Along checksCurrent (.start limits maxPending true start) labels)
    (hrun : indexMachine.run (.start limits maxPending true start) labels = some s)
    (hdropped : s.session.catalog.indexDropped = 0) (limit : ℕ) :
    ∀ candidate ∈ (s.session.catalog.settle.nextFetchCandidates limit).2,
      s.rows candidate.1 = none := by
  have hs : s.Screening limits := indexMachine.run_guarded_invariant
    (I := fun s ↦ s.Screening limits) (fun s label s' hs hlabel hstep ↦ hs.step hlabel hstep)
    (start_screening maxPending hpending) hcurrent hrun
  intro candidate hcandidate
  obtain ⟨r, hr, hready⟩ := hs.sound.settle.ready_of_candidate (List.mem_map_of_mem hcandidate)
  obtain ⟨hpend, hchecked, -⟩ := of_decide_eq_true hready
  refine ((hs.screened hdropped).1.absent candidate.1 r hr hchecked fun hdone ↦ ?_).row
  have hsame := hpend.symm.trans hdone
  cases hsame

end IndexSystem

/-! ## A row that the check misses -/

/-- The torrent `1` is sighted, checked and fetched. -/
def fetchedLabels : List IndexLabel :=
  [.client (.recordHash (sampleHash 1) .announcePeer (some samplePeer) 0), .takeChecks 10, .readRows,
    .applyChecks]

/-- The document of the torrent `1` waits while its entry is evicted and sighted anew; the check of
the new entry is answered before the document is written. -/
def missedLabels : List IndexLabel :=
  [.client (.recordHash (sampleHash 2) .getPeers none 0), .takeChecks 10, .readRows, .applyChecks,
    .client (.hashesNeedingPeers 1 0), .client (.storeMetadata (sampleMetadata 1) 0),
    .client (.recordHash (sampleHash 1) .getPeers none 0),
    .client (.releaseLookupClaim (sampleHash 2)),
    .client (.recordHash (sampleHash 1) .announcePeer (some samplePeer) 0),
    .takeChecks 10, .readRows, .applyChecks, .drainDocuments 10, .writeDocuments]

theorem fetched_hash_not_stored_checked : ∃ s,
    indexMachine.run (.start oneEntry 10 true noRows) fetchedLabels = some s ∧
      ∃ candidate ∈ (s.session.catalog.settle.nextFetchCandidates 1).2,
        candidate.1 = sampleHash 1 ∧ s.rows candidate.1 = none := by
  have hcomputed : ((indexMachine.run (.start oneEntry 10 true noRows) fetchedLabels).any
      fun s ↦ s.session.catalog.indexDropped = 0 ∧
        (s.session.catalog.settle.nextFetchCandidates 1).2 =
          [(sampleHash 1, [samplePeer])]) = true := by
    decide +kernel
  obtain ⟨s, hrun, htest⟩ := (Option.any_eq_true _ _).mp hcomputed
  obtain ⟨hdropped, hcandidates⟩ := of_decide_eq_true htest
  have hmem : (sampleHash 1, [samplePeer]) ∈ (s.session.catalog.settle.nextFetchCandidates 1).2 := by
    rw [hcandidates]
    exact List.mem_cons_self
  exact ⟨s, hrun, _, hmem, rfl, IndexSystem.fetched_hash_not_stored (by decide) (by decide +kernel) hrun
    hdropped 1 _ hmem⟩

/-- The torrent is in the database and is offered for fetching again. -/
theorem stored_hash_fetched_again : ∃ s,
    indexMachine.run (.start oneEntry 10 true noRows) missedLabels = some s ∧
      s.session.catalog.indexDropped = 0 ∧
      ∃ candidate ∈ (s.session.catalog.settle.nextFetchCandidates 1).2,
        (s.rows candidate.1).isSome := by
  have hcomputed : ((indexMachine.run (.start oneEntry 10 true noRows) missedLabels).any
      fun s ↦ s.session.catalog.indexDropped = 0 ∧
        ∃ candidate ∈ (s.session.catalog.settle.nextFetchCandidates 1).2,
          (s.rows candidate.1).isSome) = true := by
    decide +kernel
  obtain ⟨s, hrun, htest⟩ := (Option.any_eq_true _ _).mp hcomputed
  exact ⟨s, hrun, of_decide_eq_true htest⟩

end DhtScraper
