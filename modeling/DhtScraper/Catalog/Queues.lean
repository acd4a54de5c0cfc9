import DhtScraper.Catalog.Protocol

/-!
# The index queues

What the index thread takes out of the document, counter and orphan queues and what it puts back.
The counter drain also queues documents while it runs, so it gets an induction rule; the others are
described by the queue they leave.
-/

namespace DhtScraper

open Library

namespace TorrentCatalog

variable {c : TorrentCatalog}

/-! ## Documents -/

/-- `drain_index_documents` takes a prefix of the queue.  It fails only on an entry that breaks the
assertion of `index_snapshot`. -/
theorem drainDocumentsLocked_spec (c : TorrentCatalog) (limit : ℕ) : ∃ taken rest b,
    c.indexDocuments.items = taken ++ OrderedMap.items rest ∧
    (c.drainDocumentsLocked limit).1 = { c with indexDocuments := rest, raised := b } ∧
    (b = false → (c.drainDocumentsLocked limit).2 =
      taken.map fun item ↦ indexSnapshot item.2 (c.heap item.2)) ∧
    (b = true → c.raised = true ∨
      ∃ item ∈ c.indexDocuments.items, indexSnapshotAsserts (c.heap item.2) = false) := by
  induction limit generalizing c with
  | zero => exact ⟨[], c.indexDocuments, c.raised, rfl, rfl, fun _ ↦ rfl, Or.inl⟩
  | succ limit ih =>
    cases hpop : c.indexDocuments.popFirst with
    | none =>
      refine ⟨[], c.indexDocuments, c.raised, rfl, ?_, fun _ ↦ ?_, Or.inl⟩
      · simp [drainDocumentsLocked, hpop]
      · simp [drainDocumentsLocked, hpop]
    | some popped =>
      obtain ⟨⟨k, r⟩, rest⟩ := popped
      have hitems := OrderedMap.items_of_popFirst hpop
      by_cases hasserts : indexSnapshotAsserts (c.heap r)
      · obtain ⟨taken, others, b, hsplit, hstate, hbatch, hraised⟩ :=
          ih { c with indexDocuments := rest }
        refine ⟨(k, r) :: taken, others, b, ?_, ?_, fun hb ↦ ?_, fun hb ↦ ?_⟩
        · rw [hitems, show rest.items = taken ++ others.items from hsplit]
          rfl
        · simp only [drainDocumentsLocked, hpop, hasserts, if_true]
          exact hstate
        · simp only [drainDocumentsLocked, hpop, hasserts, if_true, List.map_cons]
          rw [hbatch hb]
        · rcases hraised hb with hraised | hfailed
          · exact Or.inl hraised
          · obtain ⟨item, hitem, hfail⟩ := hfailed
            refine Or.inr ⟨item, ?_, hfail⟩
            rw [hitems]
            exact List.mem_cons_of_mem _ hitem
      · have hfail : indexSnapshotAsserts (c.heap r) = false := by simpa using hasserts
        refine ⟨[(k, r)], rest, true, hitems, ?_, fun hb ↦ absurd hb (by decide), fun _ ↦ ?_⟩
        · simp [drainDocumentsLocked, hpop, hfail]
        · exact Or.inr ⟨(k, r), by rw [hitems]; exact List.mem_cons_self, hfail⟩

/-- When every queued document can be described, `drain_index_documents` returns the prefix it takes,
and takes nothing from an empty queue alone. -/
theorem drainIndexDocuments_eq (hquiet : c.raised = false)
    (hasserts : ∀ item ∈ c.indexDocuments.items, indexSnapshotAsserts (c.heap item.2))
    (limit : ℕ) : ∃ taken rest, c.indexDocuments.items = taken ++ OrderedMap.items rest ∧
      c.drainIndexDocuments limit = ({ c with indexDocuments := rest, raised := false },
        taken.map fun item ↦ indexSnapshot item.2 (c.heap item.2)) ∧
      (1 ≤ limit → taken = [] → c.indexDocuments.items = []) := by
  obtain ⟨taken, rest, b, hsplit, hstate, hbatch, hraised⟩ := c.drainDocumentsLocked_spec limit
  have hb : b = false := by
    by_contra hb
    rcases hraised (by simpa using hb) with hraised | ⟨item, hitem, hfail⟩
    · rw [hquiet] at hraised
      cases hraised
    · rw [hasserts item hitem] at hfail
      cases hfail
  subst hb
  refine ⟨taken, rest, hsplit, ?_, fun hlimit htaken ↦ ?_⟩
  · simp only [drainIndexDocuments, hstate, hbatch rfl, Bool.false_eq_true, if_false]
  · obtain ⟨limit, rfl⟩ : ∃ n, limit = n + 1 := ⟨limit - 1, by omega⟩
    cases hpop : c.indexDocuments.popFirst with
    | none => exact OrderedMap.popFirst_eq_none_iff.mp hpop
    | some popped =>
      obtain ⟨⟨k, r⟩, others⟩ := popped
      have hfirst :=
        hasserts (k, r) (OrderedMap.get?_eq_some_iff.mp (OrderedMap.get?_of_popFirst hpop).1)
      have hne : (c.drainDocumentsLocked (limit + 1)).2 ≠ [] := by
        simp only [drainDocumentsLocked, hpop, hfirst, if_true]
        exact List.cons_ne_nil _ _
      rw [hbatch rfl, htaken] at hne
      exact absurd rfl hne

/-- `requeue_index_documents` keeps the queued documents and puts every snapshot's entry back whose
hash has none. -/
theorem requeueIndexDocuments_spec (c : TorrentCatalog) (snapshots : List IndexSnapshot) :
    ∃ documents b, c.requeueIndexDocuments snapshots =
        { c with indexDocuments := documents, raised := b } ∧
      (∀ k r, c.indexDocuments.get? k = some r → documents.get? k = some r) ∧
      (∀ k r, documents.get? k = some r → c.indexDocuments.get? k = some r ∨
        c.indexDocuments.get? k = none ∧
          ∃ snapshot ∈ snapshots, snapshot.infoHash = k ∧ snapshot.entry = r) ∧
      ∀ snapshot ∈ snapshots, (documents.get? snapshot.infoHash).isSome := by
  have hfold : ∀ (snapshots : List IndexSnapshot) (c : TorrentCatalog), ∃ documents,
      snapshots.foldl requeueDocumentLocked c = { c with indexDocuments := documents } ∧
      (∀ k r, c.indexDocuments.get? k = some r → documents.get? k = some r) ∧
      (∀ k r, documents.get? k = some r → c.indexDocuments.get? k = some r ∨
        c.indexDocuments.get? k = none ∧
          ∃ snapshot ∈ snapshots, snapshot.infoHash = k ∧ snapshot.entry = r) ∧
      ∀ snapshot ∈ snapshots, (documents.get? snapshot.infoHash).isSome := by
    intro snapshots
    induction snapshots with
    | nil =>
      exact fun c ↦ ⟨c.indexDocuments, rfl, fun _ _ h ↦ h, fun _ _ h ↦ Or.inl h, by simp⟩
    | cons first rest ih =>
      intro c
      by_cases hqueued : c.indexDocuments.contains first.infoHash
      · obtain ⟨documents, hstate, hkept, hnew, hall⟩ := ih c
        refine ⟨documents, ?_, hkept, fun k r hr ↦ ?_, fun snapshot hsnapshot ↦ ?_⟩
        · rw [List.foldl_cons, show c.requeueDocumentLocked first = c from if_pos hqueued, hstate]
        · rcases hnew k r hr with hold | hput
          · exact Or.inl hold
          · obtain ⟨hnone, snapshot, hsnapshot, hrest⟩ := hput
            exact Or.inr ⟨hnone, snapshot, List.mem_cons_of_mem _ hsnapshot, hrest⟩
        · rcases List.mem_cons.mp hsnapshot with rfl | hmem
          · obtain ⟨r, hr⟩ := Option.isSome_iff_exists.mp hqueued
            rw [hkept _ r hr]
            rfl
          · exact hall snapshot hmem
      · let put : TorrentCatalog := { c with
          indexDocuments := c.indexDocuments.insertFirst first.infoHash first.entry }
        obtain ⟨documents, hstate, hkept, hnew, hall⟩ := ih put
        have hget (k : Bytes) : put.indexDocuments.get? k =
            if k = first.infoHash then some first.entry else c.indexDocuments.get? k :=
          OrderedMap.get?_insertFirst _ _ _ _
        have hnone : c.indexDocuments.get? first.infoHash = none := by
          simpa [OrderedMap.contains] using hqueued
        refine ⟨documents, ?_, fun k r hr ↦ ?_, fun k r hr ↦ ?_, fun snapshot hsnapshot ↦ ?_⟩
        · rw [List.foldl_cons, show c.requeueDocumentLocked first = put from if_neg hqueued, hstate]
        · refine hkept k r ?_
          rw [hget, if_neg fun hk ↦ by rw [hk, hnone] at hr; cases hr]
          exact hr
        · rcases hnew k r hr with hold | ⟨hnone', snapshot, hsnapshot, hrest⟩
          · rw [hget] at hold
            split at hold
            next hk =>
              rw [Option.some.injEq] at hold
              exact Or.inr ⟨hk ▸ hnone, first, List.mem_cons_self, hk.symm, hold⟩
            next => exact Or.inl hold
          · rw [hget] at hnone'
            split at hnone'
            next => cases hnone'
            next => exact Or.inr ⟨hnone', snapshot, List.mem_cons_of_mem _ hsnapshot, hrest⟩
        · rcases List.mem_cons.mp hsnapshot with rfl | hmem
          · rw [hkept snapshot.infoHash snapshot.entry (by rw [hget, if_pos rfl])]
            rfl
          · exact hall snapshot hmem
  obtain ⟨documents, hstate, hkept, hnew, hall⟩ := hfold snapshots.reverse c
  refine ⟨documents, (c.requeueIndexDocuments snapshots).raised, ?_, hkept, fun k r hr ↦ ?_,
    fun snapshot hsnapshot ↦ ?_⟩
  · rw [requeueIndexDocuments, hstate]
    rfl
  · rcases hnew k r hr with hold | hput
    · exact Or.inl hold
    · obtain ⟨hnone, snapshot, hsnapshot, hrest⟩ := hput
      exact Or.inr ⟨hnone, snapshot, List.mem_reverse.mp hsnapshot, hrest⟩
  · exact hall snapshot (List.mem_reverse.mpr hsnapshot)

/-! ## Counters -/

/-- What a property `J` of the batch collected so far and of the catalog has to survive while
`drain_index_counters` runs; `K` is what is left when an exception ends the loop. -/
structure CounterDrainRules (J : List IndexSnapshot → TorrentCatalog → Prop)
    (K : TorrentCatalog → Prop) : Prop where
  orphanTaken : ∀ batch (c : TorrentCatalog) r rest, J batch c → c.orphanCounters = r :: rest →
    indexSnapshotAsserts (c.heap r) →
    J (batch ++ [indexSnapshot r (c.heap r)]) { c with orphanCounters := rest }
  orphanSkipped : ∀ batch (c : TorrentCatalog) r rest, J batch c → c.orphanCounters = r :: rest →
    (indexSnapshot r (c.heap r)).seenDelta = 0 → (indexSnapshot r (c.heap r)).announceDelta = 0 →
    J batch { c with orphanCounters := rest }
  orphanFailed : ∀ batch (c : TorrentCatalog) r rest, J batch c → c.orphanCounters = r :: rest →
    indexSnapshotAsserts (c.heap r) = false → K { c with orphanCounters := rest, raised := true }
  documentQueued : ∀ batch (c : TorrentCatalog) k r rest, J batch c →
    c.indexCounters.popFirst = some ((k, r), rest) → (c.heap r).indexBase = none →
    (c.heap r).metadata.isSome → J batch ({ c with indexCounters := rest }.queueDocumentLocked r)
  unbasedSkipped : ∀ batch (c : TorrentCatalog) k r rest, J batch c →
    c.indexCounters.popFirst = some ((k, r), rest) → (c.heap r).indexBase = none →
    (c.heap r).metadata = none → J batch { c with indexCounters := rest }
  counterTaken : ∀ batch (c : TorrentCatalog) k r rest, J batch c →
    c.indexCounters.popFirst = some ((k, r), rest) → (c.heap r).indexBase.isSome →
    (c.heap r).hasUnflushed → indexSnapshotAsserts (c.heap r) →
    J (batch ++ [indexSnapshot r (c.heap r)]) { c with indexCounters := rest }
  counterSkipped : ∀ batch (c : TorrentCatalog) k r rest, J batch c →
    c.indexCounters.popFirst = some ((k, r), rest) → (c.heap r).indexBase.isSome →
    (c.heap r).hasUnflushed = false → J batch { c with indexCounters := rest }
  counterFailed : ∀ batch (c : TorrentCatalog) k r rest, J batch c →
    c.indexCounters.popFirst = some ((k, r), rest) → (c.heap r).indexBase.isSome →
    indexSnapshotAsserts (c.heap r) = false → K { c with indexCounters := rest, raised := true }
  failed : ∀ batch (c : TorrentCatalog), J batch c → c.raised = true → K c

namespace CounterDrainRules

variable {J : List IndexSnapshot → TorrentCatalog → Prop} {K : TorrentCatalog → Prop}

theorem drainOrphansLocked (hJ : CounterDrainRules J K) (orphans : List Ref) (limit : ℕ)
    {batch : List IndexSnapshot} {c : TorrentCatalog}
    (hc : J batch { c with orphanCounters := orphans }) :
    J (batch ++ (c.drainOrphansLocked limit orphans).2) (c.drainOrphansLocked limit orphans).1 ∨
      K (c.drainOrphansLocked limit orphans).1 ∧
        (c.drainOrphansLocked limit orphans).1.raised = true := by
  induction orphans generalizing limit batch with
  | nil =>
    left
    simp only [TorrentCatalog.drainOrphansLocked, List.append_nil]
    exact hc
  | cons r rest ih =>
    let waiting : TorrentCatalog := { c with orphanCounters := r :: rest }
    unfold TorrentCatalog.drainOrphansLocked
    by_cases hlimit : limit = 0
    · left
      rw [if_pos hlimit, List.append_nil]
      exact hc
    · rw [if_neg hlimit]
      by_cases hasserts : indexSnapshotAsserts (c.heap r)
      · simp only [hasserts, if_true]
        by_cases hdelta : (indexSnapshot r (c.heap r)).seenDelta ≠ 0 ∨
            (indexSnapshot r (c.heap r)).announceDelta ≠ 0
        · have hnext := ih (limit - 1) (hJ.orphanTaken batch waiting r rest hc rfl hasserts)
          rw [if_pos hdelta]
          simpa only [List.append_assoc, List.singleton_append] using hnext
        · rw [if_neg hdelta]
          simp only [not_or, not_not] at hdelta
          exact ih limit (hJ.orphanSkipped batch waiting r rest hc rfl hdelta.1 hdelta.2)
      · have hfail : indexSnapshotAsserts (c.heap r) = false := by simpa using hasserts
        rw [if_neg hasserts]
        exact Or.inr ⟨hJ.orphanFailed batch waiting r rest hc rfl hfail, rfl⟩

theorem drainCountersLocked (hJ : CounterDrainRules J K) (fuel : ℕ) (limit : ℕ)
    {batch : List IndexSnapshot} {c : TorrentCatalog} (hc : J batch c) :
    J (batch ++ (c.drainCountersLocked limit fuel).2) (c.drainCountersLocked limit fuel).1 ∨
      K (c.drainCountersLocked limit fuel).1 ∧
        (c.drainCountersLocked limit fuel).1.raised = true := by
  induction fuel generalizing limit batch c with
  | zero =>
    left
    simp only [TorrentCatalog.drainCountersLocked, List.append_nil]
    exact hc
  | succ fuel ih =>
    unfold TorrentCatalog.drainCountersLocked
    by_cases hlimit : limit = 0
    · left
      rw [if_pos hlimit, List.append_nil]
      exact hc
    · rw [if_neg hlimit]
      cases hpop : c.indexCounters.popFirst with
      | none =>
        left
        rw [List.append_nil]
        exact hc
      | some popped =>
        obtain ⟨⟨k, r⟩, rest⟩ := popped
        simp only
        by_cases hbase : (c.heap r).indexBase.isNone
        · have hnone := Option.isNone_iff_eq_none.mp hbase
          rw [if_pos hbase]
          cases hmeta : (c.heap r).metadata with
          | none =>
            simp only [Option.isSome_none, Bool.false_eq_true, if_false]
            exact ih limit (hJ.unbasedSkipped batch c k r rest hc hpop hnone hmeta)
          | some metadata =>
            simp only [Option.isSome_some, if_true]
            exact ih limit (hJ.documentQueued batch c k r rest hc hpop hnone (by simp [hmeta]))
        · have hsome : (c.heap r).indexBase.isSome := by
            simpa [Option.isSome_iff_ne_none, Option.isNone_iff_eq_none] using hbase
          rw [if_neg hbase]
          by_cases hunflushed : (c.heap r).hasUnflushed
          · rw [if_pos hunflushed]
            by_cases hasserts : indexSnapshotAsserts (c.heap r)
            · rw [if_pos hasserts]
              have hnext := ih (limit - 1)
                (hJ.counterTaken batch c k r rest hc hpop hsome hunflushed hasserts)
              simpa only [List.append_assoc, List.singleton_append] using hnext
            · have hfail : indexSnapshotAsserts (c.heap r) = false := by simpa using hasserts
              rw [if_neg hasserts]
              exact Or.inr ⟨hJ.counterFailed batch c k r rest hc hpop hsome hfail, rfl⟩
          · have hflushed : (c.heap r).hasUnflushed = false := by simpa using hunflushed
            rw [if_neg hunflushed]
            exact ih limit (hJ.counterSkipped batch c k r rest hc hpop hsome hflushed)

/-- Either the property holds of the batch that is returned, or an exception ended the drain and no
batch is. -/
theorem drainIndexCounters (hJ : CounterDrainRules J K) (limit : ℕ) {c : TorrentCatalog}
    (hc : J [] c) :
    J (c.drainIndexCounters limit).2 (c.drainIndexCounters limit).1 ∨
      (c.drainIndexCounters limit).2 = [] ∧ K (c.drainIndexCounters limit).1 := by
  have horphans := hJ.drainOrphansLocked c.orphanCounters limit (c := c) hc
  rw [List.nil_append] at horphans
  unfold TorrentCatalog.drainIndexCounters
  simp only
  split
  next hraised =>
    rcases horphans with horphans | horphans
    · exact Or.inr ⟨rfl, hJ.failed _ _ horphans hraised⟩
    · exact Or.inr ⟨rfl, horphans.1⟩
  next hquiet =>
    rcases horphans with horphans | horphans
    · have hcounters := hJ.drainCountersLocked
        (c.drainOrphansLocked limit c.orphanCounters).1.indexCounters.size
        (limit - (c.drainOrphansLocked limit c.orphanCounters).2.length) horphans
      simp only
      split
      next hraised =>
        rcases hcounters with hcounters | hcounters
        · exact Or.inr ⟨rfl, hJ.failed _ _ hcounters hraised⟩
        · exact Or.inr ⟨rfl, hcounters.1⟩
      next hquiet' =>
        rcases hcounters with hcounters | hcounters
        · exact Or.inl hcounters
        · exact absurd hcounters.2 hquiet'
    · exact absurd horphans.2 hquiet

end CounterDrainRules

/-! ## The end of the counter queues -/

/-- Dropping unwritten metadata changes no queue. -/
theorem dropUnwrittenMetadataLocked_queues (c : TorrentCatalog) (r : Ref) :
    let c' := c.dropUnwrittenMetadataLocked r
    c'.entries = c.entries ∧ c'.indexDocuments = c.indexDocuments ∧
      c'.indexCounters = c.indexCounters ∧ c'.orphanCounters = c.orphanCounters ∧
      c'.indexMaxPending = c.indexMaxPending := by
  cases hmeta : (c.heap r).metadata with
  | none => simp only [dropUnwrittenMetadataLocked, hmeta, TorrentCatalog.check, and_self]
  | some metadata =>
    simp only [dropUnwrittenMetadataLocked, hmeta]
    split <;> exact ⟨rfl, rfl, rfl, rfl, rfl⟩

/-- Queueing a document leaves the document queue filled and takes the entry off the counter queue. -/
theorem queueDocumentLocked_queues (c : TorrentCatalog) (r : Ref) (hroom : 1 ≤ c.indexMaxPending) :
    let c' := c.queueDocumentLocked r
    c'.entries = c.entries ∧ c'.indexDocuments.items ≠ [] ∧
      c'.indexCounters = c.indexCounters.erase (c.heap r).infoHash ∧
      c'.orphanCounters = c.orphanCounters ∧ c'.indexMaxPending = c.indexMaxPending := by
  have hfilled : (c.documentQueued r).indexDocuments.items ≠ [] := fun hnil ↦ by
    have hself := OrderedMap.get?_setDefault c.indexDocuments (c.heap r).infoHash
      (c.heap r).infoHash r
    rw [if_pos rfl] at hself
    have hmem := OrderedMap.get?_eq_some_iff.mp hself
    rw [show (c.indexDocuments.setDefault (c.heap r).infoHash r).items = [] from hnil] at hmem
    cases hmem
  rw [queueDocumentLocked_eq]
  split
  next hfull =>
    rcases (c.documentQueued r).dropOldestDocument_cases with hsame | ⟨key, dropped, rest, hpop, hdrop⟩
    · rw [hsame]
      exact ⟨rfl, hfilled, rfl, rfl, rfl⟩
    · obtain ⟨hentries, hdocuments, hkept⟩ := dropUnwrittenMetadataLocked_queues
        { c.documentQueued r with
          indexDocuments := rest
          indexDropped := (c.documentQueued r).indexDropped + 1 } dropped
      have hsize := OrderedMap.size_of_popFirst hpop
      rw [hdrop]
      refine ⟨hentries, ?_, hkept⟩
      -- one document is dropped, and there was room for one at least
      rw [hdocuments]
      intro hnil
      have hzero : rest.size = 0 := by rw [OrderedMap.size, hnil]; rfl
      omega
  next => exact ⟨rfl, hfilled, rfl, rfl, rfl⟩

/-- A batch below the limit leaves no orphan behind. -/
theorem drainOrphansLocked_exhausted (orphans : List Ref) (limit : ℕ) (c : TorrentCatalog)
    (hquiet : (c.drainOrphansLocked limit orphans).1.raised = false)
    (hbelow : (c.drainOrphansLocked limit orphans).2.length < limit) :
    (c.drainOrphansLocked limit orphans).1.orphanCounters = [] := by
  induction orphans generalizing limit with
  | nil => rfl
  | cons r rest ih =>
    have hlimit : limit ≠ 0 := by omega
    unfold TorrentCatalog.drainOrphansLocked at hquiet hbelow ⊢
    rw [if_neg hlimit] at hquiet hbelow ⊢
    dsimp only at hquiet hbelow ⊢
    split at hquiet
    next hasserts =>
      rw [if_pos hasserts] at hbelow ⊢
      split at hquiet
      next hdelta =>
        rw [if_pos hdelta] at hbelow ⊢
        refine ih (limit - 1) hquiet ?_
        rw [List.length_cons] at hbelow
        omega
      next hdelta =>
        rw [if_neg hdelta] at hbelow ⊢
        exact ih limit hquiet hbelow
    next => cases hquiet

/-- A batch below the limit leaves no counter behind, and the orphans stay as they are. -/
theorem drainCountersLocked_exhausted (limit fuel : ℕ) {c : TorrentCatalog}
    (hroom : 1 ≤ c.indexMaxPending) (hfuel : c.indexCounters.size ≤ fuel)
    (hquiet : (c.drainCountersLocked limit fuel).1.raised = false)
    (hbelow : (c.drainCountersLocked limit fuel).2.length < limit) :
    (c.drainCountersLocked limit fuel).1.indexCounters.items = [] ∧
      (c.drainCountersLocked limit fuel).1.orphanCounters = c.orphanCounters := by
  induction fuel generalizing limit c with
  | zero => exact ⟨List.length_eq_zero_iff.mp (Nat.le_zero.mp hfuel), rfl⟩
  | succ fuel ih =>
    have hlimit : limit ≠ 0 := by omega
    unfold TorrentCatalog.drainCountersLocked at hquiet hbelow ⊢
    rw [if_neg hlimit] at hquiet hbelow ⊢
    cases hpop : c.indexCounters.popFirst with
    | none => exact ⟨OrderedMap.popFirst_eq_none_iff.mp hpop, rfl⟩
    | some popped =>
      obtain ⟨⟨k, r⟩, rest⟩ := popped
      have hsize := OrderedMap.size_of_popFirst hpop
      have hrest : rest.size ≤ fuel := by omega
      simp only [hpop] at hquiet hbelow ⊢
      split at hquiet
      next hbase =>
        rw [if_pos hbase] at hbelow ⊢
        split at hquiet
        next hmeta =>
          rw [if_pos hmeta] at hbelow ⊢
          obtain ⟨-, -, hcounters, horphans, hmax⟩ :=
            queueDocumentLocked_queues { c with indexCounters := rest } r hroom
          have hle := (OrderedMap.size_erase_le rest (c.heap r).infoHash).trans hrest
          obtain ⟨hnil, hkept⟩ := ih limit (c := queueDocumentLocked { c with indexCounters := rest } r)
            (by rw [hmax]; exact hroom) (by rw [hcounters]; exact hle) hquiet hbelow
          exact ⟨hnil, hkept.trans horphans⟩
        next hmeta =>
          rw [if_neg hmeta] at hbelow ⊢
          exact ih limit hroom hrest hquiet hbelow
      next hbase =>
        rw [if_neg hbase] at hbelow ⊢
        split at hquiet
        next hunflushed =>
          rw [if_pos hunflushed] at hbelow ⊢
          split at hquiet
          next hasserts =>
            rw [if_pos hasserts] at hbelow ⊢
            refine ih (limit - 1) (c := { c with indexCounters := rest }) hroom hrest hquiet ?_
            rw [List.length_cons] at hbelow
            omega
          next => cases hquiet
        next hunflushed =>
          rw [if_neg hunflushed] at hbelow ⊢
          exact ih limit (c := { c with indexCounters := rest }) hroom hrest hquiet hbelow

/-- When `drain_index_counters` returns no batch, both queues are empty. -/
theorem drainIndexCounters_exhausted (limit : ℕ) (hlimit : 1 ≤ limit) (hroom : 1 ≤ c.indexMaxPending)
    (hquiet : (c.drainIndexCounters limit).1.raised = false)
    (hempty : (c.drainIndexCounters limit).2 = []) :
    (c.drainIndexCounters limit).1.indexCounters.items = [] ∧
      (c.drainIndexCounters limit).1.orphanCounters = [] := by
  have hmax (limit : ℕ) (orphans : List Ref) :
      (c.drainOrphansLocked limit orphans).1.indexMaxPending = c.indexMaxPending := by
    induction orphans generalizing limit with
    | nil => rfl
    | cons r rest ih =>
      unfold TorrentCatalog.drainOrphansLocked
      dsimp only
      split
      · rfl
      · split
        · split
          · exact ih _
          · exact ih _
        · rfl
  unfold TorrentCatalog.drainIndexCounters at hquiet hempty ⊢
  dsimp only at hquiet hempty ⊢
  split at hquiet
  next hraised => rw [hraised] at hquiet; cases hquiet
  next horphansQuiet =>
    rw [if_neg horphansQuiet] at hempty ⊢
    dsimp only at hquiet hempty ⊢
    rw [hquiet] at hempty
    simp only [Bool.false_eq_true, if_false, List.append_eq_nil_iff] at hempty
    have horphans :=
      drainOrphansLocked_exhausted c.orphanCounters limit c (by simpa using horphansQuiet)
      (by rw [hempty.1]; exact hlimit)
    obtain ⟨hcounters, hkept⟩ := drainCountersLocked_exhausted _ _ (hmax limit _ ▸ hroom) le_rfl hquiet
      (by rw [hempty.2, hempty.1]; exact hlimit)
    exact ⟨hcounters, hkept.trans horphans⟩

/-! ## Dropped documents -/

theorem indexDropped_le_queueDocumentLocked (hrep : c.Represented ∅) (r : Ref) :
    c.indexDropped ≤ (c.queueDocumentLocked r).indexDropped := by
  refine queueDocumentLocked_induction (P := fun c' ↦ c.indexDropped ≤ c'.indexDropped) c r le_rfl ?_
  intro key dropped rest hpop
  rw [(dropUnwrittenMetadataLocked_spec (c := { c.documentQueued r with
    indexDocuments := rest
    indexDropped := (c.documentQueued r).indexDropped + 1 })
    (hrep.documentQueued r).of_eq dropped).2.1.indexDropped]
  exact Nat.le_succ _

theorem indexDropped_le_requeueCounterLocked (c : TorrentCatalog) (snapshots : List IndexSnapshot) :
    c.indexDropped ≤ (snapshots.foldl requeueCounterLocked c).indexDropped := by
  induction snapshots generalizing c with
  | nil => exact le_rfl
  | cons first rest ih =>
    refine le_trans ?_ (ih (c.requeueCounterLocked first))
    unfold requeueCounterLocked
    split
    · exact le_rfl
    · exact Nat.le_add_right _ _

theorem indexDropped_le_resetIndexBase (hrep : c.Represented ∅) (h : Bytes) :
    c.indexDropped ≤ (c.resetIndexBase h).indexDropped := by
  unfold TorrentCatalog.resetIndexBase guarded
  split
  · cases hget : c.entries.get? h with
    | none => exact le_rfl
    | some r =>
      obtain ⟨mid, -, hmid, -, -, -, -, hdropped, -, heq⟩ := resetLocked_spec hrep hget
      simp only [heq, assertInvariantsLocked, TorrentCatalog.check]
      rw [← hdropped]
      split
      · exact indexDropped_le_queueDocumentLocked hmid r
      · exact le_rfl
  · exact le_rfl

/-- The operations of the index thread that add nothing to a queue. -/
def queuesNothing : CatalogOp → Bool
  | .drainIndexDocuments _ | .requeueIndexDocuments _ | .markIndexWritten _ _
  | .markCountersWritten _ | .setDatabaseCheck _ | .applyDatabaseChecks _ _ => true
  | _ => false

/-- They drop nothing either. -/
theorem indexDropped_apply (c : TorrentCatalog) {op : CatalogOp} (hop : queuesNothing op) :
    (c.apply op).indexDropped = c.indexDropped := by
  have hguarded {p : Prop} [Decidable p] {body : TorrentCatalog}
      (hbody : body.indexDropped = c.indexDropped) : (c.guarded p body).indexDropped =
        c.indexDropped := by
    unfold guarded
    split
    · exact hbody
    · rfl
  cases op with
  | drainIndexDocuments limit =>
    obtain ⟨taken, rest, b, -, hstate, -⟩ := c.drainDocumentsLocked_spec limit
    rw [show c.apply (.drainIndexDocuments limit) = _ from hstate]
  | requeueIndexDocuments snapshots =>
    obtain ⟨documents, b, hstate, -⟩ := c.requeueIndexDocuments_spec snapshots
    rw [show c.apply (.requeueIndexDocuments snapshots) = _ from hstate]
  | markIndexWritten snapshot base =>
    refine hguarded ?_
    simp only [assertInvariantsLocked, TorrentCatalog.check]
    split
    · unfold writtenLocked
      dsimp only
      split <;> rfl
    · rfl
  | markCountersWritten snapshots =>
    exact foldl_keeps TorrentCatalog.indexDropped flushSnapshot (fun _ _ ↦ rfl) snapshots c
  | setDatabaseCheck enabled =>
    simp only [apply, setDatabaseCheck, assertInvariantsLocked, TorrentCatalog.check]
    split
    · rfl
    · exact foldl_keeps TorrentCatalog.indexDropped uncheckedLocked (fun _ _ ↦ rfl) _ _
  | applyDatabaseChecks infoHashes found =>
    refine hguarded (foldl_keeps TorrentCatalog.indexDropped (applyCheckLocked found) (fun c h ↦ ?_)
      infoHashes c)
    unfold applyCheckLocked
    dsimp only
    split
    · rfl
    · split
      · rfl
      · simp only [indexEntryLocked, TorrentCatalog.check]
        split
        · split <;> rfl
        · rfl
  | _ => cases hop

end TorrentCatalog

end DhtScraper
