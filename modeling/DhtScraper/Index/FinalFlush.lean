import DhtScraper.Index.Upkeep
import DhtScraper.Library.Loop

/-!
# The shutdown flush

`final_flush` empties the document queue and then the counter queues, when no other thread touches the
catalog any more.  Draining a counter can queue a document, which is then never written: this happens
when an entry was stored while the document of an earlier, evicted entry of its hash was still waiting.
The main theorem says for every state of a run when the flush is complete, the last section shows a run
after which it is not.
-/

namespace DhtScraper

open Library TorrentCatalog

namespace TorrentCatalog

/-- Marking a document whose hash is not queued again changes no queue; the live entry loses the
metadata that was written. -/
theorem markIndexWritten_of_free {c : TorrentCatalog} {snapshot : IndexSnapshot}
    (hrep : c.Represented ∅) (hmeta : snapshot.metadata.isSome)
    (hsame : (c.heap snapshot.entry).metadata = snapshot.metadata)
    (hfree : c.indexDocuments.get? snapshot.infoHash = none) (base : IndexBase) :
    let c' := c.markIndexWritten snapshot base
    c'.entries = c.entries ∧ c'.indexDocuments = c.indexDocuments ∧
      c'.indexCounters = c.indexCounters ∧
      (c.entries.get? snapshot.infoHash = some snapshot.entry →
        (c'.heap snapshot.entry).metadata = none) ∧
      ∀ r ≠ snapshot.entry, (c'.heap r).metadata = (c.heap r).metadata := by
  rw [show c.markIndexWritten snapshot base = _ from if_pos hmeta]
  have hflushed {r : Ref} (hne : r ≠ snapshot.entry) :
      (c.flushSnapshot snapshot).heap r = c.heap r := Function.update_of_ne hne _ _
  split
  next hlive =>
    have hlive' : (c.flushSnapshot snapshot).entries.get? snapshot.infoHash = some snapshot.entry :=
      hlive
    obtain ⟨-, hwritten⟩ := writtenLocked_spec (hrep.flushSnapshot snapshot) hlive' hmeta base
    have hiswritten : isWritten ((c.flushSnapshot snapshot).heap snapshot.entry) snapshot := by
      have hkept : ((c.flushSnapshot snapshot).heap snapshot.entry).metadata =
          (c.heap snapshot.entry).metadata := by
        simp [TorrentCatalog.flushSnapshot, modify]
      unfold isWritten
      rw [hkept, hsame]
    refine ⟨hwritten.edited.entries, ?_, ?_, fun _ ↦ ?_, fun r hne ↦ ?_⟩
    · refine hwritten.indexDocuments.trans ?_
      rw [if_pos hiswritten]
      exact OrderedMap.erase_eq_self hfree
    · refine hwritten.indexCounters.trans (if_neg fun h ↦ ?_)
      have hcontains := h.2
      rw [OrderedMap.contains, show (c.flushSnapshot snapshot).indexDocuments.get? _ = none from
        hfree] at hcontains
      cases hcontains
    · have hentry := hwritten.edited.entry_eq
      rw [writtenEntry, if_pos hiswritten] at hentry
      exact congrArg TorrentEntry.metadata hentry
    · have hkept := congrFun hwritten.edited.heap r
      rw [Function.update_of_ne hne, hflushed hne] at hkept
      exact congrArg TorrentEntry.metadata hkept
  next hdead =>
    exact ⟨rfl, rfl, rfl, fun hlive ↦ absurd hlive hdead, fun r hne ↦
      congrArg TorrentEntry.metadata (hflushed hne)⟩

/-- A live entry with metadata waits in the counter queue, so that draining it queues its document. -/
def Requeues (c : TorrentCatalog) : Prop :=
  ∃ h r, c.entries.get? h = some r ∧ (c.heap r).metadata.isSome ∧ c.indexCounters.get? h = some r

/-- How far the counter loop came from `c₁`, where the document queue is empty: either a document was
queued, or every live entry with metadata is where it was. -/
structure Counting (c₁ c : TorrentCatalog) : Prop where
  entries : c.entries = c₁.entries
  documents : c.indexDocuments.items ≠ [] ∧ c₁.Requeues ∨
    c.indexDocuments.items = [] ∧ ∀ h r, c.entries.get? h = some r →
      (c.heap r).metadata = (c₁.heap r).metadata ∧ ((c.heap r).metadata.isSome →
        (c.indexCounters.get? h = some r ↔ c₁.indexCounters.get? h = some r))

section CounterLoop

variable {c c' c₁ : TorrentCatalog} {start rows : Rows} {past : List Sighting} {h : Bytes} {r : Ref}

/-- The counter queue may lose entries without metadata. -/
theorem Counting.kept (hc : c₁.Counting c) (entries : c'.entries = c.entries)
    (documents : c'.indexDocuments = c.indexDocuments)
    (heap : ∀ r, (c'.heap r).metadata = (c.heap r).metadata)
    (counters : ∀ h r, c.entries.get? h = some r → (c.heap r).metadata.isSome →
      (c'.indexCounters.get? h = some r ↔ c.indexCounters.get? h = some r)) : c₁.Counting c' where
  entries := entries.trans hc.entries
  documents := by
    rw [documents, entries]
    refine hc.documents.imp_right fun ⟨hempty, hall⟩ ↦ ⟨hempty, fun h r hr ↦ ?_⟩
    rw [heap]
    obtain ⟨hsame, hwaits⟩ := hall h r hr
    exact ⟨hsame, fun hmeta ↦ (counters h r hr hmeta).trans (hwaits hmeta)⟩

/-- An entry without metadata leaves the counter queue. -/
theorem Counting.popped (hc : c₁.Counting c) {k : Bytes} {rest : OrderedMap Bytes Ref}
    (hpop : c.indexCounters.popFirst = some ((k, r), rest)) (hmeta : (c.heap r).metadata = none) :
    c₁.Counting { c with indexCounters := rest } := by
  refine hc.kept rfl rfl (fun _ ↦ rfl) fun h r' hr' hmeta' ↦ ?_
  have hne : r' ≠ r := fun heq ↦ by
    rw [heq, hmeta] at hmeta'
    cases hmeta'
  refine ⟨fun hget ↦ ?_, fun hget ↦ Placed.counters_of_popFirst hpop hne hget⟩
  have hrest : rest.get? h = some r' := hget
  rw [(OrderedMap.get?_of_popFirst hpop).2] at hrest
  split at hrest
  · cases hrest
  · exact hrest

/-- The document that a drained counter queues stays in the queue. -/
theorem Counting.queued (hc : c₁.Counting c) (hroom : 1 ≤ c.indexMaxPending) {k : Bytes}
    {rest : OrderedMap Bytes Ref} (hpop : c.indexCounters.popFirst = some ((k, r), rest))
    (hlive : c.entries.get? k = some r) (hmeta : (c.heap r).metadata.isSome) :
    c₁.Counting (queueDocumentLocked { c with indexCounters := rest } r) := by
  obtain ⟨hentries, hfilled, -⟩ :=
    queueDocumentLocked_queues { c with indexCounters := rest } r hroom
  refine ⟨hentries.trans hc.entries, Or.inl ⟨hfilled, ?_⟩⟩
  rcases hc.documents with hrequeues | ⟨-, hall⟩
  · exact hrequeues.2
  · obtain ⟨hsame, hwaits⟩ := hall k r hlive
    refine ⟨k, r, by rw [← hc.entries]; exact hlive, by rw [← hsame]; exact hmeta, ?_⟩
    exact (hwaits hmeta).mp (OrderedMap.get?_of_popFirst hpop).1

/-- What the counter drain of the last flush keeps; every snapshot of the batch was queued before. -/
structure DrainingCounting (start rows : Rows) (past : List Sighting) (c₁ : TorrentCatalog) (n : ℕ)
    (batch : List IndexSnapshot) (c : TorrentCatalog) : Prop where
  placed : Placed.DrainingPlaced start rows past batch c
  counting : c₁.Counting c
  size : c.indexCounters.size + c.orphanCounters.length + batch.length ≤ n

theorem DrainingCounting.rules (start rows : Rows) (past : List Sighting) (c₁ : TorrentCatalog)
    (n : ℕ) : CounterDrainRules (DrainingCounting start rows past c₁ n) fun _ ↦ False where
  orphanTaken := fun batch c r rest hd horphans hasserts ↦
    { placed := (Placed.drainRules start rows past).orphanTaken batch c r rest hd.placed horphans
        hasserts
      counting := hd.counting.kept rfl rfl (fun _ ↦ rfl) fun _ _ _ _ ↦ Iff.rfl
      size := by
        have hsize := hd.size
        rw [horphans, List.length_cons] at hsize
        rw [List.length_append, List.length_singleton]
        change c.indexCounters.size + rest.length + _ ≤ n
        omega }
  orphanSkipped := fun batch c r rest hd horphans hseen hannounce ↦
    { placed := (Placed.drainRules start rows past).orphanSkipped batch c r rest hd.placed horphans
        hseen hannounce
      counting := hd.counting.kept rfl rfl (fun _ ↦ rfl) fun _ _ _ _ ↦ Iff.rfl
      size := by
        have hsize := hd.size
        rw [horphans, List.length_cons] at hsize
        change c.indexCounters.size + rest.length + _ ≤ n
        omega }
  orphanFailed := fun batch c r rest hd ↦
    (Placed.drainRules start rows past).orphanFailed batch c r rest hd.placed
  documentQueued := fun batch c k r rest hd hpop hbase hmeta ↦
    { placed := (Placed.drainRules start rows past).documentQueued batch c k r rest hd.placed hpop
        hbase hmeta
      counting := hd.counting.queued hd.placed.placed.room hpop
        (Accounted.popCounter hd.placed.draining hpop).2.1 hmeta
      size := by
        obtain ⟨-, -, hcounters, horphans, -⟩ := queueDocumentLocked_queues
          { c with indexCounters := rest } r hd.placed.placed.room
        have hsize := hd.size
        have hpopped := OrderedMap.size_of_popFirst hpop
        have herased := OrderedMap.size_erase_le rest (c.heap r).infoHash
        rw [hcounters, horphans]
        change (rest.erase (c.heap r).infoHash).size + c.orphanCounters.length + _ ≤ n
        omega }
  unbasedSkipped := fun batch c k r rest hd hpop hbase hmeta ↦
    { placed := (Placed.drainRules start rows past).unbasedSkipped batch c k r rest hd.placed hpop
        hbase hmeta
      counting := hd.counting.popped hpop hmeta
      size := by
        have hsize := hd.size
        have hpopped := OrderedMap.size_of_popFirst hpop
        change rest.size + c.orphanCounters.length + _ ≤ n
        omega }
  counterTaken := fun batch c k r rest hd hpop hbased hunflushed hasserts ↦
    { placed := (Placed.drainRules start rows past).counterTaken batch c k r rest hd.placed hpop
        hbased hunflushed hasserts
      counting := hd.counting.popped hpop (hd.placed.placed.released_of_based hbased)
      size := by
        have hsize := hd.size
        have hpopped := OrderedMap.size_of_popFirst hpop
        rw [List.length_append, List.length_singleton]
        change rest.size + c.orphanCounters.length + _ ≤ n
        omega }
  counterSkipped := fun batch c k r rest hd hpop hbased hflushed ↦
    { placed := (Placed.drainRules start rows past).counterSkipped batch c k r rest hd.placed hpop
        hbased hflushed
      counting := hd.counting.popped hpop (hd.placed.placed.released_of_based hbased)
      size := by
        have hsize := hd.size
        have hpopped := OrderedMap.size_of_popFirst hpop
        change rest.size + c.orphanCounters.length + _ ≤ n
        omega }
  counterFailed := fun batch c k r rest hd ↦
    (Placed.drainRules start rows past).counterFailed batch c k r rest hd.placed
  failed := fun batch c hd ↦ (Placed.drainRules start rows past).failed batch c hd.placed

/-- Marking counters changes flushed counts only. -/
theorem markCountersWritten_keeps (c : TorrentCatalog) (snapshots : List IndexSnapshot) :
    let c' := c.markCountersWritten snapshots
    c'.entries = c.entries ∧ c'.indexDocuments = c.indexDocuments ∧
      c'.indexCounters = c.indexCounters ∧ c'.orphanCounters = c.orphanCounters ∧
      ∀ r, (c'.heap r).metadata = (c.heap r).metadata := by
  have hkeeps {α : Type} (f : TorrentCatalog → α)
      (hf : ∀ c snapshot, f (TorrentCatalog.flushSnapshot c snapshot) = f c) :
      f (snapshots.foldl TorrentCatalog.flushSnapshot c) = f c :=
    foldl_keeps f TorrentCatalog.flushSnapshot hf snapshots c
  refine ⟨hkeeps TorrentCatalog.entries fun _ _ ↦ rfl,
    hkeeps TorrentCatalog.indexDocuments fun _ _ ↦ rfl,
    hkeeps TorrentCatalog.indexCounters fun _ _ ↦ rfl,
    hkeeps TorrentCatalog.orphanCounters fun _ _ ↦ rfl, fun r ↦ ?_⟩
  refine hkeeps (fun c ↦ (c.heap r).metadata) fun c snapshot ↦ ?_
  by_cases heq : r = snapshot.entry
  · subst heq
    simp [TorrentCatalog.flushSnapshot, modify]
  · simp [TorrentCatalog.flushSnapshot, modify, Function.update_of_ne heq]

end CounterLoop

end TorrentCatalog

namespace IndexSystem

/-! ## The loops -/

/-- The index thread calls an operation of the catalog; an exception leaves `final_flush`, which catches
it, with the state as it is. -/
def attempt (s : IndexSystem) (op : CatalogOp) (phase : IndexPhase) :
    Except (Option IndexSystem) IndexSystem :=
  let called := s.call op phase
  if called.session.catalog.raised then .error (some called) else .ok called

/-- The documents of a written batch are marked one after the other. -/
def markDocuments :
    List (IndexSnapshot × IndexBase) → IndexSystem → Except (Option IndexSystem) IndexSystem
  | [], s => .ok s
  | (snapshot, base) :: marks, s => do
    let marked ← s.attempt (.markIndexWritten snapshot base)
      (.unlessEmpty marks (.documentsWritten marks))
    markDocuments marks marked

/-- One round of `flush_documents` while the deadline is not reached and the database works. -/
def flushDocumentsRound (batchSize : ℕ) (s : IndexSystem) :
    Except (Option IndexSystem) (IndexSystem ⊕ IndexSystem) := do
  let batch := (s.session.catalog.settle.drainIndexDocuments batchSize).2
  let drained ← s.attempt (.drainIndexDocuments batchSize)
    (.unlessEmpty batch (.documentsDrained batch))
  if batch.isEmpty then
    return .inr drained
  let written := drained.commitDocuments batch
  match written.phase with
  | .documentsWritten marks => return .inl (← markDocuments marks written)
  | _ => throw (some written)

/-- The hashes without a row are reset one after the other. -/
def resetMissing : List Bytes → IndexSystem → Except (Option IndexSystem) IndexSystem
  | [], s => .ok s
  | infoHash :: rest, s => do
    let reset ← s.attempt (.resetIndexBase infoHash) (.unlessEmpty rest (.countersMissing rest))
    resetMissing rest reset

/-- One round of `flush_counters` while the deadline is not reached and the database works. -/
def flushCountersRound (batchSize : ℕ) (s : IndexSystem) :
    Except (Option IndexSystem) (IndexSystem ⊕ IndexSystem) := do
  let batch := (s.session.catalog.settle.drainIndexCounters batchSize).2
  let drained ← s.attempt (.drainIndexCounters batchSize)
    (.unlessEmpty batch (.countersDrained batch))
  if batch.isEmpty then
    return .inr drained
  let written := drained.commitCounters batch
  match written.phase with
  | .countersWritten batch missing =>
    let marked ← written.attempt
      (.markCountersWritten (batch.filter fun snapshot ↦ snapshot.infoHash ∉ missing))
      (.unlessEmpty missing (.countersMissing missing))
    return .inl (← resetMissing missing marked)
  | _ => throw (some written)

/-- `flush_documents`, with a bound on the number of rounds. -/
def flushDocuments (batchSize fuel : ℕ) (s : IndexSystem) :
    Except (Option IndexSystem) IndexSystem :=
  loop (fun _ ↦ none) (flushDocumentsRound batchSize) fuel s

/-- `flush_counters`, with a bound on the number of rounds. -/
def flushCounters (batchSize fuel : ℕ) (s : IndexSystem) :
    Except (Option IndexSystem) IndexSystem :=
  loop (fun _ ↦ none) (flushCountersRound batchSize) fuel s

/-- `final_flush`; `none` means that a loop needs more than `fuel` rounds. -/
def finalFlush (batchSize fuel : ℕ) (s : IndexSystem) : Option IndexSystem :=
  match flushDocuments batchSize fuel s >>= flushCounters batchSize fuel with
  | .ok flushed => some flushed
  | .error outcome => outcome

/-- The queues are empty, every live entry with metadata has a row, and every live entry in the database
has everything it counted flushed. -/
def FlushComplete (s : IndexSystem) : Prop :=
  let c := s.session.catalog
  c.indexDocuments.items = [] ∧ c.indexCounters.items = [] ∧ c.orphanCounters = [] ∧
    ∀ item ∈ c.entries.items,
      ((c.heap item.2).metadata.isSome → (s.rows item.1).isSome) ∧
      ((c.heap item.2).inDatabase →
        (c.heap item.2).flushedSeen = (c.heap item.2).seenCount ∧
        (c.heap item.2).flushedAnnounce = (c.heap item.2).announceCount)

instance (s : IndexSystem) : Decidable s.FlushComplete := by
  unfold FlushComplete
  infer_instance

/-- Every live entry with metadata has its document queued, or it does not wait for a counter update and
its hash has a row or gets one from another document. -/
def DocumentsQueued (s : IndexSystem) : Prop :=
  let c := s.session.catalog
  ∀ item ∈ c.entries.items, (c.heap item.2).metadata.isSome →
    c.indexDocuments.get? item.1 = some item.2 ∨
      c.indexCounters.get? item.1 ≠ some item.2 ∧
        ((s.rows item.1).isSome ∨ c.indexDocuments.contains item.1)

instance (s : IndexSystem) : Decidable s.DocumentsQueued := by
  unfold DocumentsQueued
  infer_instance

variable {limits : CatalogLimits} {start : Rows} {past : List Sighting} {s s' s₀ : IndexSystem}

theorem attempt_of_quiet (s : IndexSystem) (op : CatalogOp) (phase : IndexPhase)
    (hquiet : (s.session.exec op).catalog.raised = false) :
    s.attempt op phase = .ok (s.call op phase) ∧ (s.call op phase).phase = phase := by
  have hcalled : (s.call op phase).session.catalog.raised = false := hquiet
  refine ⟨?_, ?_⟩
  · unfold attempt
    simp only [hcalled, Bool.false_eq_true, if_false]
  · unfold IndexSystem.call
    simp only [hquiet, Bool.false_eq_true, if_false]

/-! ## The document loop -/

/-- How far the document loop came from `s₀`: documents leave the queue for the batch, and the batch for
the rows, where the live entry loses its metadata. -/
structure Sweeping (s₀ s : IndexSystem) : Prop where
  entries : s.session.catalog.entries = s₀.session.catalog.entries
  waiting : ∀ h r, s.session.catalog.indexDocuments.get? h = some r →
    s₀.session.catalog.indexDocuments.get? h = some r
  batch : ∀ snapshot ∈ s.phase.flight,
    s₀.session.catalog.indexDocuments.get? snapshot.infoHash = some snapshot.entry
  left : ∀ h r, s₀.session.catalog.indexDocuments.get? h = some r →
    s.session.catalog.indexDocuments.get? h = some r ∨ r ∈ s.phase.flight.map IndexSnapshot.entry ∨
      (s.rows h).isSome ∧ (s.session.catalog.entries.get? h = some r →
        (s.session.catalog.heap r).metadata = none)
  kept : ∀ h r, s.session.catalog.entries.get? h = some r →
    s₀.session.catalog.indexDocuments.get? h ≠ some r →
    (s.session.catalog.heap r).metadata = (s₀.session.catalog.heap r).metadata
  counters : s.session.catalog.indexCounters = s₀.session.catalog.indexCounters
  rows : ∀ h, (s₀.rows h).isSome → (s.rows h).isSome
  new : ∀ h, (s.rows h).isSome →
    (s₀.rows h).isSome ∨ s₀.session.catalog.indexDocuments.contains h

theorem Sweeping.refl (hidle : s.phase = .idle) : s.Sweeping s where
  entries := rfl
  waiting := fun _ _ hr ↦ hr
  batch := by rw [hidle]; exact fun _ hsnapshot ↦ by cases hsnapshot
  left := fun _ _ hr ↦ Or.inl hr
  kept := fun _ _ _ _ ↦ rfl
  counters := rfl
  rows := fun _ hrow ↦ hrow
  new := fun _ hrow ↦ Or.inl hrow

/-- The batch is taken off the queue. -/
theorem Sweeping.drained (hw : s₀.Sweeping s) (hs : s.Placed limits start past)
    (hidle : s.phase = .idle) (batchSize : ℕ) {batch : List IndexSnapshot}
    (hbatch : (s.session.catalog.settle.drainIndexDocuments batchSize).2 = batch) :
    let drained := s.call (.drainIndexDocuments batchSize)
      (.unlessEmpty batch (.documentsDrained batch))
    s₀.Sweeping drained ∧ drained.session.catalog.raised = false ∧
      drained.phase = .unlessEmpty batch (.documentsDrained batch) ∧
      drained.session.catalog.indexDocuments.size + batch.length =
        s.session.catalog.indexDocuments.size ∧
      (1 ≤ batchSize → batch = [] → drained.session.catalog.indexDocuments.items = []) := by
  have hacc := hs.balanced.accounted
  have hplaced := hs.placed
  rw [hidle] at hacc hplaced
  have hsettled : s.session.catalog.settle.Placed [] false := hplaced.of_eq
  have haccounted : s.session.catalog.settle.Accounted start s.rows [] false past := hacc.of_eq
  obtain ⟨taken, rest, hsplit, heq, hnone⟩ := drainIndexDocuments_eq (c := s.session.catalog.settle)
    rfl (fun _ hitem ↦ hsettled.described_asserts haccounted hitem) batchSize
  have hcatalog : (s.session.exec (.drainIndexDocuments batchSize)).catalog =
      { s.session.catalog.settle with indexDocuments := rest, raised := false } :=
    congrArg Prod.fst heq
  have htaken : batch = taken.map fun item ↦
      indexSnapshot item.2 (s.session.catalog.heap item.2) := by
    rw [← hbatch, heq]
    rfl
  obtain ⟨-, hphase⟩ := attempt_of_quiet s (.drainIndexDocuments batchSize)
    (.unlessEmpty batch (.documentsDrained batch)) (by rw [hcatalog])
  intro drained
  have hdrained : drained.session.catalog =
      { s.session.catalog.settle with indexDocuments := rest, raised := false } := hcatalog
  have hflight : drained.phase.flight = batch := by
    rw [show drained.phase = _ from hphase, IndexPhase.flight_unlessEmpty_documents]
  have hitem {item : Bytes × Ref} (hmem : item ∈ taken) :
      s.session.catalog.indexDocuments.get? item.1 = some item.2 :=
    (OrderedMap.get?_eq_some_iff_of_items hsplit).mpr (Or.inl hmem)
  have hrest {h : Bytes} {r : Ref} (hr : rest.get? h = some r) :
      s.session.catalog.indexDocuments.get? h = some r :=
    (OrderedMap.get?_eq_some_iff_of_items hsplit).mpr (Or.inr hr)
  refine ⟨?_, by rw [hdrained], hphase, ?_, fun hsize hempty ↦ ?_⟩
  · constructor
    case entries => rw [hdrained]; exact hw.entries
    case waiting =>
      rw [hdrained]
      exact fun h r hr ↦ hw.waiting h r (hrest hr)
    case batch =>
      rw [hflight, htaken]
      intro snapshot hsnapshot
      obtain ⟨item, hmem, rfl⟩ := List.mem_map.mp hsnapshot
      have hget := hitem hmem
      rw [show (indexSnapshot item.2 (s.session.catalog.heap item.2)).infoHash = item.1 from
        (hacc.documents _ _ hget).2]
      exact hw.waiting _ _ hget
    case left =>
      intro h r hr
      rw [hflight, hdrained, htaken]
      rcases hw.left h r hr with hold | hgone | hwritten
      · rcases (OrderedMap.get?_eq_some_iff_of_items hsplit).mp hold with hmem | hkept
        · exact Or.inr (Or.inl (List.mem_map.mpr ⟨_, List.mem_map_of_mem hmem, rfl⟩))
        · exact Or.inl hkept
      · rw [hidle] at hgone
        cases hgone
      · exact Or.inr (Or.inr hwritten)
    case kept => rw [hdrained]; exact hw.kept
    case counters => rw [hdrained]; exact hw.counters
    case rows => exact hw.rows
    case new => exact hw.new
  · have hlength := congrArg List.length hsplit
    rw [List.length_append] at hlength
    rw [hdrained, htaken, List.length_map]
    change rest.items.length + _ = s.session.catalog.indexDocuments.items.length
    rw [show s.session.catalog.indexDocuments.items.length = _ from hlength, add_comm]
  · rw [htaken, List.map_eq_nil_iff] at hempty
    have hnil := hnone hsize hempty
    rw [hsplit, hempty, List.nil_append] at hnil
    rw [hdrained]
    exact hnil

/-- The documents of the batch become rows. -/
theorem Sweeping.written (hw : s₀.Sweeping s) (hs : s.Placed limits start past)
    {batch : List IndexSnapshot} (hphase : s.phase = .documentsDrained batch) :
    ∃ marks, (s.commitDocuments batch).phase = .documentsWritten marks ∧
      marks.map Prod.fst = batch ∧ s₀.Sweeping (s.commitDocuments batch) ∧
      (s.commitDocuments batch).session = s.session := by
  have hacc := hs.balanced.accounted
  have hplaced := hs.placed
  rw [hphase] at hacc hplaced
  have hbuilt : (documentsOf batch).isSome := documentsOf_of_placed hplaced hacc
  obtain ⟨documents, hdocuments⟩ := Option.isSome_iff_exists.mp hbuilt
  have hcommitted : s.commitDocuments batch =
      { s with
        rows := (s.rows.writeDocuments documents).1
        phase := .documentsWritten (batch.map fun snapshot ↦
          (snapshot, baseOf (s.rows.writeDocuments documents).2 snapshot)) } := by
    unfold IndexSystem.commitDocuments
    rw [hdocuments]
  have hmarks (previous : OrderedMap Bytes IndexBase) :
      (batch.map fun snapshot ↦ (snapshot, baseOf previous snapshot)).map Prod.fst = batch := by
    simp [Function.comp_def]
  have hrow (h : Bytes) : ((s.rows.writeDocuments documents).1 h).isSome ↔
      (s.rows h).isSome ∨ ∃ document ∈ documents, document.infoHash = h :=
    Rows.isSome_writeDocuments s.rows documents h
  rw [hcommitted]
  refine ⟨_, rfl, hmarks _, ?_, rfl⟩
  have hsame : (IndexPhase.documentsWritten (batch.map fun snapshot ↦
      (snapshot, baseOf (s.rows.writeDocuments documents).2 snapshot))).flight = s.phase.flight := by
    rw [hphase]
    exact hmarks _
  constructor
  case entries => exact hw.entries
  case waiting => exact hw.waiting
  case batch => exact hsame ▸ hw.batch
  case left =>
    intro h r hr
    rw [hsame]
    refine (hw.left h r hr).imp_right fun hleft ↦ hleft.imp_right fun hwritten ↦ ⟨?_, hwritten.2⟩
    exact (hrow h).mpr (Or.inl hwritten.1)
  case kept => exact hw.kept
  case counters => exact hw.counters
  case rows => exact fun h hh ↦ (hrow h).mpr (Or.inl (hw.rows h hh))
  case new =>
    intro h hh
    rcases (hrow h).mp hh with hold | ⟨document, hdocument, rfl⟩
    · exact hw.new h hold
    · obtain ⟨snapshot, hsnapshot, hbuild⟩ :=
        exists_of_forall₂ (documentsOf_spec hdocuments).flip hdocument
      have hqueued := hw.batch snapshot (by rw [hphase]; exact hsnapshot)
      right
      rw [(buildDocument_spec hbuild).2.1, OrderedMap.contains, hqueued]
      rfl

/-- The live entry of a written document loses its metadata; the queues stay as they are, since the hash
of the document is not queued again. -/
theorem Sweeping.marked (hw : s₀.Sweeping s) (hs : s.Placed limits start past)
    (hs₀ : s₀.Placed limits start past) {snapshot : IndexSnapshot} {base : IndexBase}
    {marks : List (IndexSnapshot × IndexBase)}
    (hphase : s.phase = .documentsWritten ((snapshot, base) :: marks)) :
    let marked := s.call (.markIndexWritten snapshot base)
      (.unlessEmpty marks (.documentsWritten marks))
    s₀.Sweeping marked ∧ (s.session.exec (.markIndexWritten snapshot base)).catalog.raised = false ∧
      marked.phase = .unlessEmpty marks (.documentsWritten marks) ∧
      marked.session.catalog.indexDocuments = s.session.catalog.indexDocuments := by
  let c := s.session.catalog.settle
  have hrep : c.Represented ∅ := hs.balanced.represented
  have hacc := hs.balanced.accounted
  have hplaced := hs.placed
  have hmarks := hs.balanced.phase
  have hbatch := hw.batch
  have hleft := hw.left
  rw [hphase] at hacc hplaced hmarks hbatch hleft
  obtain ⟨hmeta, hbased⟩ := hmarks (snapshot, base) List.mem_cons_self
  have hflight : c.Accounted start s.rows (snapshot :: marks.map Prod.fst) true past := hacc.of_eq
  obtain ⟨-, hquiet⟩ := hflight.markIndexWritten hrep rfl hmeta hbased
  obtain ⟨-, hcalled⟩ := attempt_of_quiet s (.markIndexWritten snapshot base)
    (.unlessEmpty marks (.documentsWritten marks)) hquiet
  have hfirst : s₀.session.catalog.indexDocuments.get? snapshot.infoHash = some snapshot.entry :=
    hbatch snapshot List.mem_cons_self
  have hcarried := hflight.carried snapshot List.mem_cons_self
  obtain ⟨-, hsame, hunqueued⟩ := hplaced.flight_documents rfl snapshot List.mem_cons_self
  have hfree : c.indexDocuments.get? snapshot.infoHash = none := by
    cases hget : c.indexDocuments.get? snapshot.infoHash with
    | none => rfl
    | some r =>
      have hr := hw.waiting _ r hget
      rw [hfirst] at hr
      exact absurd (hget.trans hr.symm) (hunqueued _)
  obtain ⟨hentries, hdocuments, hcounters, hself, hothers⟩ :=
    markIndexWritten_of_free hrep hmeta hsame hfree base
  have hsnapshotHash {h : Bytes} (hlive : c.entries.get? h = some snapshot.entry) :
      h = snapshot.infoHash := (hrep.key h _ hlive).symm.trans hcarried.owner
  intro marked
  have hmarked : marked.phase.flight = marks.map Prod.fst := by
    rw [show marked.phase = _ from hcalled, IndexPhase.flight_unlessEmpty_marks]
  have hqueue : marked.session.catalog.indexDocuments = s.session.catalog.indexDocuments := hdocuments
  have hlive {h : Bytes} {r : Ref} (hr : marked.session.catalog.entries.get? h = some r) :
      c.entries.get? h = some r := by
    rw [show marked.session.catalog.entries = c.entries from hentries] at hr
    exact hr
  refine ⟨?_, hquiet, hcalled, hdocuments⟩
  constructor
  case entries => exact hentries.trans hw.entries
  case waiting => rw [hqueue]; exact hw.waiting
  case batch =>
    rw [hmarked]
    exact fun other hother ↦ hbatch other (List.mem_cons_of_mem _ hother)
  case left =>
    intro h r hr
    rw [hmarked]
    rcases hleft h r hr with hold | hgone | ⟨hrow, hreleased⟩
    · exact Or.inl (by rw [hqueue]; exact hold)
    · rcases List.mem_cons.mp hgone with rfl | hrest
      · right
        right
        have hhash : h = snapshot.infoHash := by
          have hkey := (hs₀.balanced.accounted.documents _ _ hr).2
          rw [(hs₀.balanced.accounted.documents _ _ hfirst).2] at hkey
          exact hkey.symm
        exact ⟨hhash ▸ hbased.2, fun hr' ↦ hself (hhash ▸ hlive hr')⟩
      · exact Or.inr (Or.inl hrest)
    · refine Or.inr (Or.inr ⟨hrow, fun hr' ↦ ?_⟩)
      by_cases heq : r = snapshot.entry
      · subst heq
        exact hself (hsnapshotHash (hlive hr') ▸ hlive hr')
      · exact (hothers r heq).trans (hreleased (hlive hr'))
  case kept =>
    intro h r hr hne
    have hother : r ≠ snapshot.entry := fun heq ↦ by
      subst heq
      exact hne (hsnapshotHash (hlive hr) ▸ hfirst)
    exact (hothers r hother).trans (hw.kept h r (hlive hr) hne)
  case counters => exact hcounters.trans hw.counters
  case rows => exact hw.rows
  case new => exact hw.new

/-- The state between two rounds of the document loop that started in `s₀`. -/
structure Swept (limits : CatalogLimits) (start : Rows) (past : List Sighting)
    (s₀ s : IndexSystem) : Prop where
  placed : s.Placed limits start past
  idle : s.phase = .idle
  sweeping : s₀.Sweeping s

/-- A step of the index thread records no sighting. -/
theorem Placed.next (hs : s.Placed limits start past) (label : IndexLabel)
    (hsafe : s.requeuesOnceUnderProtocol label) (hsightings : label.sightings = [])
    (hstep : s.step label = some s') : s'.Placed limits start past := by
  have hnext := hs.step hsafe hstep
  rwa [hsightings, List.append_nil] at hnext

theorem markDocuments_ends (hs₀ : s₀.Placed limits start past)
    (marks : List (IndexSnapshot × IndexBase)) (hs : s.Placed limits start past)
    (hw : s₀.Sweeping s) (hphase : s.phase = .unlessEmpty marks (.documentsWritten marks)) :
    Ends (markDocuments marks s) (fun marked ↦ Swept limits start past s₀ marked ∧
      marked.session.catalog.indexDocuments = s.session.catalog.indexDocuments) fun _ ↦ False := by
  induction marks generalizing s with
  | nil => exact ⟨⟨hs, hphase, hw⟩, rfl⟩
  | cons mark marks ih =>
    obtain ⟨snapshot, base⟩ := mark
    have hwritten : s.phase = .documentsWritten ((snapshot, base) :: marks) := hphase
    obtain ⟨hnext, hquiet, hcalled, hqueue⟩ := hw.marked hs hs₀ hwritten
    have hplaced : (s.call (.markIndexWritten snapshot base)
        (.unlessEmpty marks (.documentsWritten marks))).Placed limits start past :=
      hs.next .markDocument trivial rfl (by simp only [IndexSystem.step, hwritten])
    rw [markDocuments, (attempt_of_quiet s _ _ hquiet).1]
    refine (ih hplaced hnext hcalled).mono (fun marked hmarked ↦ ?_) fun _ h ↦ h
    exact ⟨hmarked.1, hmarked.2.trans hqueue⟩

/-- A round writes and marks a batch, or finds the queue empty. -/
theorem flushDocumentsRound_ends {batchSize : ℕ} (hsize : 1 ≤ batchSize)
    (hs₀ : s₀.Placed limits start past) (hw : Swept limits start past s₀ s) :
    Ends (flushDocumentsRound batchSize s)
      (Sum.elim
        (fun next ↦ Swept limits start past s₀ next ∧
          next.session.catalog.indexDocuments.size < s.session.catalog.indexDocuments.size)
        fun swept ↦ Swept limits start past s₀ swept ∧
          swept.session.catalog.indexDocuments.items = []) fun _ ↦ False := by
  obtain ⟨hs, hidle, hsweeping⟩ := hw
  generalize hbatch : (s.session.catalog.settle.drainIndexDocuments batchSize).2 = batch
  obtain ⟨hdrained, hquiet, hphase, hcount, hnone⟩ := hsweeping.drained hs hidle batchSize hbatch
  have hplaced : (s.call (.drainIndexDocuments batchSize)
      (.unlessEmpty batch (.documentsDrained batch))).Placed limits start past :=
    hs.next (.drainDocuments batchSize) trivial rfl
      (by simp only [IndexSystem.step, hidle, hbatch])
  unfold flushDocumentsRound
  simp only [hbatch]
  rw [(attempt_of_quiet s _ _ hquiet).1]
  generalize s.call (.drainIndexDocuments batchSize) (.unlessEmpty batch (.documentsDrained batch)) =
    drained at hdrained hphase hcount hnone hplaced ⊢
  cases batch with
  | nil => exact ⟨⟨hplaced, hphase, hdrained⟩, hnone hsize rfl⟩
  | cons snapshot rest =>
    have hheld : drained.phase = .documentsDrained (snapshot :: rest) := hphase
    obtain ⟨marks, hwritten, hmarks, hcommitted, hsession⟩ := hdrained.written hplaced hheld
    have hplaced' : (drained.commitDocuments (snapshot :: rest)).Placed limits start past :=
      hplaced.next .writeDocuments trivial rfl (by simp only [IndexSystem.step, hheld])
    have hunmarked : (drained.commitDocuments (snapshot :: rest)).phase =
        .unlessEmpty marks (.documentsWritten marks) := by
      rw [hwritten]
      cases marks with
      | nil => cases hmarks
      | cons mark marks => rfl
    have hround : Ends (markDocuments marks (drained.commitDocuments (snapshot :: rest)))
        (fun marked ↦ Swept limits start past s₀ marked ∧
          marked.session.catalog.indexDocuments.size < s.session.catalog.indexDocuments.size)
        fun _ ↦ False := by
      refine (markDocuments_ends hs₀ marks hplaced' hcommitted hunmarked).mono (fun marked hmarked ↦ ?_)
        fun _ h ↦ h
      refine ⟨hmarked.1, ?_⟩
      rw [hmarked.2, hsession, ← hcount, List.length_cons]
      omega
    refine Ends.bind (Q := fun taken ↦ taken = drained) rfl ?_
    rintro taken rfl
    simp only [List.isEmpty_cons, Bool.false_eq_true, if_false, hwritten]
    exact hround.bind fun _ hmarked ↦ hmarked

/-- The document loop ends, with the queue empty. -/
theorem flushDocuments_ends {batchSize fuel : ℕ} (hsize : 1 ≤ batchSize)
    (hs : s.Placed limits start past) (hidle : s.phase = .idle)
    (hfuel : s.session.catalog.indexDocuments.size < fuel) :
    Ends (flushDocuments batchSize fuel s)
      (fun swept ↦ Swept limits start past s swept ∧
        swept.session.catalog.indexDocuments.items = []) fun _ ↦ False :=
  loop_ends (I := Swept limits start past s) (fun s ↦ s.session.catalog.indexDocuments.size)
    (fun _ hw ↦ flushDocumentsRound_ends hsize hs hw) ⟨hs, hidle, .refl hidle⟩ hfuel

/-! ## The counter loop -/

/-- The state between two rounds of the counter loop that started in `s₁`. -/
structure Tallied (limits : CatalogLimits) (start : Rows) (past : List Sighting)
    (s₁ s : IndexSystem) : Prop where
  placed : s.Placed limits start past
  idle : s.phase = .idle
  counting : s₁.session.catalog.Counting s.session.catalog
  rows : ∀ h, (s.rows h).isSome ↔ (s₁.rows h).isSome

/-- The number of entries in the counter queues. -/
def waitingCounters (s : IndexSystem) : ℕ :=
  s.session.catalog.indexCounters.size + s.session.catalog.orphanCounters.length

/-- A batch is taken off the counter queues. -/
theorem counters_drained {c₁ : TorrentCatalog} (hc : c₁.Counting s.session.catalog)
    (hs : s.Placed limits start past) (hidle : s.phase = .idle) (batchSize : ℕ)
    {batch : List IndexSnapshot}
    (hbatch : (s.session.catalog.settle.drainIndexCounters batchSize).2 = batch) :
    let drained := s.call (.drainIndexCounters batchSize)
      (.unlessEmpty batch (.countersDrained batch))
    c₁.Counting drained.session.catalog ∧ drained.session.catalog.raised = false ∧
      drained.phase = .unlessEmpty batch (.countersDrained batch) ∧
      drained.waitingCounters + batch.length ≤ s.waitingCounters ∧
      (1 ≤ batchSize → batch = [] → drained.session.catalog.indexCounters.items = [] ∧
        drained.session.catalog.orphanCounters = []) := by
  let c := s.session.catalog.settle
  have hacc := hs.balanced.accounted
  have hplaced := hs.placed
  rw [hidle] at hacc hplaced
  have hdraining : DrainingCounting start s.rows past c₁ s.waitingCounters [] c :=
    { placed :=
        ⟨⟨hs.balanced.represented, hacc.of_eq, fun _ hsnapshot ↦ by cases hsnapshot⟩, hplaced.of_eq,
          rfl⟩
      counting := hc.kept rfl rfl (fun _ ↦ rfl) fun _ _ _ _ ↦ Iff.rfl
      size := le_rfl }
  have hd := ((DrainingCounting.rules start s.rows past c₁ s.waitingCounters).drainIndexCounters
    batchSize hdraining).resolve_right fun hfailed ↦ hfailed.2
  have hquiet : (c.drainIndexCounters batchSize).1.raised = false := hd.placed.quiet
  obtain ⟨-, hphase⟩ := attempt_of_quiet s (.drainIndexCounters batchSize)
    (.unlessEmpty batch (.countersDrained batch)) hquiet
  refine ⟨hd.counting, hquiet, hphase, ?_, fun hsize hempty ↦ ?_⟩
  · rw [← hbatch]
    exact hd.size
  · exact drainIndexCounters_exhausted (c := c) batchSize hsize hplaced.room hquiet
      (hbatch.trans hempty)

/-- The rows of the batch are updated, and none is missing. -/
theorem counters_written (hs : s.Placed limits start past) {batch : List IndexSnapshot}
    (hphase : s.phase = .countersDrained batch) :
    (s.commitCounters batch).phase = .countersWritten batch [] ∧
      (s.commitCounters batch).session = s.session ∧
      ∀ h, ((s.commitCounters batch).rows h).isSome ↔ (s.rows h).isSome := by
  have hacc := hs.balanced.accounted
  have hplaced := hs.placed
  rw [hphase] at hacc hplaced
  have hbuilt : (batch.mapM buildCounterUpdate).isSome := updates_of_placed hplaced hacc
  obtain ⟨updates, hupdates⟩ := Option.isSome_iff_exists.mp hbuilt
  have hexists : ∀ update ∈ updates, (s.rows update.infoHash).isSome :=
    hacc.rows_of_updates hupdates
  obtain ⟨hmissing, hrows, -⟩ := Rows.updateCounters_of_rows s.rows updates hexists
  unfold IndexSystem.commitCounters
  rw [hupdates]
  refine ⟨?_, rfl, hrows⟩
  simp only [hmissing]

/-- A round writes and marks a batch, or finds the queues empty. -/
theorem flushCountersRound_ends {batchSize : ℕ} {s₁ : IndexSystem} (hsize : 1 ≤ batchSize)
    (ht : Tallied limits start past s₁ s) :
    Ends (flushCountersRound batchSize s)
      (Sum.elim
        (fun next ↦ Tallied limits start past s₁ next ∧ next.waitingCounters < s.waitingCounters)
        fun flushed ↦ Tallied limits start past s₁ flushed ∧
          flushed.session.catalog.indexCounters.items = [] ∧
          flushed.session.catalog.orphanCounters = []) fun _ ↦ False := by
  obtain ⟨hs, hidle, hcounting, hrows⟩ := ht
  generalize hbatch : (s.session.catalog.settle.drainIndexCounters batchSize).2 = batch
  obtain ⟨hdrained, hquiet, hphase, hcount, hnone⟩ :=
    counters_drained hcounting hs hidle batchSize hbatch
  have hplaced : (s.call (.drainIndexCounters batchSize)
      (.unlessEmpty batch (.countersDrained batch))).Placed limits start past :=
    hs.next (.drainCounters batchSize) trivial rfl
      (by simp only [IndexSystem.step, hidle, hbatch])
  have hsame : (s.call (.drainIndexCounters batchSize)
      (.unlessEmpty batch (.countersDrained batch))).rows = s.rows := rfl
  unfold flushCountersRound
  simp only [hbatch]
  rw [(attempt_of_quiet s _ _ hquiet).1]
  generalize s.call (.drainIndexCounters batchSize) (.unlessEmpty batch (.countersDrained batch)) =
    drained at hdrained hphase hcount hnone hplaced hsame ⊢
  cases batch with
  | nil => exact ⟨⟨hplaced, hphase, hdrained, fun h ↦ by rw [hsame]; exact hrows h⟩, hnone hsize rfl⟩
  | cons snapshot rest =>
    have hheld : drained.phase = .countersDrained (snapshot :: rest) := hphase
    obtain ⟨hwritten, hsession, hupdated⟩ := counters_written hplaced hheld
    have hplaced' : (drained.commitCounters (snapshot :: rest)).Placed limits start past :=
      hplaced.next .writeCounters trivial rfl (by simp only [IndexSystem.step, hheld])
    generalize hcommit : drained.commitCounters (snapshot :: rest) = written
    rw [hcommit] at hwritten hsession hupdated hplaced'
    have hacc := hplaced'.balanced.accounted
    rw [hwritten] at hacc
    obtain ⟨hentries, hdocuments, hcounters, horphans, hmetadata⟩ :=
      markCountersWritten_keeps written.session.catalog.settle (snapshot :: rest)
    have hall : (snapshot :: rest).filter (fun snapshot ↦ snapshot.infoHash ∉ ([] : List Bytes)) =
        snapshot :: rest := List.filter_eq_self.mpr fun _ _ ↦ by simp
    have hmarkQuiet :
        (written.session.exec (.markCountersWritten (snapshot :: rest))).catalog.raised = false :=
      (Accounted.markCountersWritten (c := written.session.catalog.settle) hacc.of_eq rfl).2
    obtain ⟨hattempt, hcalled⟩ := attempt_of_quiet written _ .idle hmarkQuiet
    have hmarked : (written.call (.markCountersWritten (snapshot :: rest)) .idle).Placed limits start
        past :=
      hplaced'.next .markCounters trivial rfl (by
        simp only [IndexSystem.step, hwritten, hall]
        rfl)
    have hnext : Tallied limits start past s₁
        (written.call (.markCountersWritten (snapshot :: rest)) .idle) := by
      have hmarkedRows (h : Bytes) : (written.rows h).isSome ↔ (s₁.rows h).isSome := by
        rw [hupdated, hsame]
        exact hrows h
      refine ⟨hmarked, hcalled, ?_, hmarkedRows⟩
      have hcounting : s₁.session.catalog.Counting written.session.catalog := hsession ▸ hdrained
      refine hcounting.kept hentries hdocuments hmetadata fun h r _ _ ↦ ?_
      rw [show (written.call (.markCountersWritten (snapshot :: rest))
        .idle).session.catalog.indexCounters = written.session.catalog.indexCounters from hcounters]
    have hless : (written.call (.markCountersWritten (snapshot :: rest)) .idle).waitingCounters <
        s.waitingCounters := by
      have hkept : (written.call (.markCountersWritten (snapshot :: rest)) .idle).waitingCounters =
          drained.waitingCounters := by
        unfold waitingCounters
        rw [← hsession]
        exact congrArg₂ (fun counters orphans ↦ counters.size + orphans.length) hcounters horphans
      rw [hkept]
      rw [List.length_cons] at hcount
      omega
    refine Ends.bind (Q := fun taken ↦ taken = drained) rfl ?_
    rintro taken rfl
    simp only [List.isEmpty_cons, Bool.false_eq_true, if_false, hcommit, hwritten, hall]
    rw [show (IndexPhase.unlessEmpty ([] : List Bytes) (.countersMissing [])) = .idle from rfl,
      hattempt]
    exact ⟨hnext, hless⟩

/-- The counter loop ends, with both queues empty. -/
theorem flushCounters_ends {batchSize fuel : ℕ} (hsize : 1 ≤ batchSize)
    (hs : s.Placed limits start past) (hidle : s.phase = .idle)
    (hempty : s.session.catalog.indexDocuments.items = []) (hfuel : s.waitingCounters < fuel) :
    Ends (flushCounters batchSize fuel s)
      (fun flushed ↦ Tallied limits start past s flushed ∧
        flushed.session.catalog.indexCounters.items = [] ∧
        flushed.session.catalog.orphanCounters = []) fun _ ↦ False := by
  have hstart : Tallied limits start past s s :=
    ⟨hs, hidle, ⟨rfl, Or.inr ⟨hempty, fun _ _ _ ↦ ⟨rfl, fun _ ↦ Iff.rfl⟩⟩⟩, fun _ ↦ Iff.rfl⟩
  exact loop_ends (I := Tallied limits start past s) waitingCounters
    (fun _ ht ↦ flushCountersRound_ends hsize ht) hstart hfuel

/-! ## What the flush leaves -/

/-- With empty queues everything that the entries in the database counted is flushed. -/
theorem Placed.flushed_eq (hs : s.Placed limits start past) (hidle : s.phase = .idle)
    (hcounters : s.session.catalog.indexCounters.items = []) {h : Bytes} {r : Ref}
    (hlive : s.session.catalog.entries.get? h = some r)
    (hdatabase : (s.session.catalog.heap r).inDatabase = true) (k : Counter) :
    (s.session.catalog.heap r).flushed k = (s.session.catalog.heap r).count k := by
  have hplaced := hs.placed
  rw [hidle] at hplaced
  have hcovered : s.session.catalog.Covered [] r := by
    by_contra huncovered
    have hqueued := hplaced.counted h r hlive (Or.inl hdatabase) huncovered
    have hmem := OrderedMap.get?_eq_some_iff.mp hqueued
    rw [hcounters] at hmem
    cases hmem
  have hle := hcovered k
  rw [inFlight_eq_zero (by simp), add_zero] at hle
  have halloc := hs.balanced.sound.represented.allocated h r hlive
  exact le_antisymm (hs.balanced.accounted.flushed r halloc k).2 hle

/-- The document loop releases the metadata of the live entries whose documents were queued. -/
theorem Swept.released (hw : Swept limits start past s₀ s)
    (hempty : s.session.catalog.indexDocuments.items = []) {h : Bytes} {r : Ref}
    (hqueued : s₀.session.catalog.indexDocuments.get? h = some r) :
    (s.rows h).isSome ∧ (s.session.catalog.entries.get? h = some r →
      (s.session.catalog.heap r).metadata = none) := by
  rcases hw.sweeping.left h r hqueued with hwaits | hflight | hwritten
  · have hmem := OrderedMap.get?_eq_some_iff.mp hwaits
    rw [hempty] at hmem
    cases hmem
  · rw [hw.idle] at hflight
    cases hflight
  · exact hwritten

/-- After both loops the flush is complete exactly when no live entry waited in the counter queue with
its metadata, and every other one has a row or gets one. -/
theorem complete_iff {swept flushed : IndexSystem} (hw : Swept limits start past s swept)
    (hswept : swept.session.catalog.indexDocuments.items = [])
    (ht : Tallied limits start past swept flushed)
    (hcounters : flushed.session.catalog.indexCounters.items = [])
    (horphans : flushed.session.catalog.orphanCounters = []) :
    flushed.FlushComplete ↔ s.DocumentsQueued := by
  let c := s.session.catalog
  have hentries : swept.session.catalog.entries = c.entries := hw.sweeping.entries
  have hlive {h : Bytes} {r : Ref} (hr : swept.session.catalog.entries.get? h = some r) :
      c.entries.get? h = some r := by
    rw [← hentries]
    exact hr
  -- a live entry that kept its metadata had no document queued
  have hunqueued {h : Bytes} {r : Ref} (hr : swept.session.catalog.entries.get? h = some r)
      (hmeta : (swept.session.catalog.heap r).metadata.isSome) :
      c.indexDocuments.get? h ≠ some r ∧ (c.heap r).metadata.isSome := by
    have hne : c.indexDocuments.get? h ≠ some r := fun hqueued ↦ by
      rw [(hw.released hswept hqueued).2 hr] at hmeta
      cases hmeta
    refine ⟨hne, ?_⟩
    rw [← hw.sweeping.kept h r hr hne]
    exact hmeta
  have hgone {h : Bytes} {r : Ref} : flushed.session.catalog.indexCounters.get? h ≠ some r :=
    fun hqueued ↦ by
      have hmem := OrderedMap.get?_eq_some_iff.mp hqueued
      rw [hcounters] at hmem
      cases hmem
  constructor
  · rintro ⟨hdocuments, -, -, hall⟩ item hitem hmeta
    obtain ⟨-, hsame⟩ := ht.counting.documents.resolve_left fun h ↦ h.1 hdocuments
    by_cases hqueued : c.indexDocuments.get? item.1 = some item.2
    · exact Or.inl hqueued
    · right
      have hr : swept.session.catalog.entries.get? item.1 = some item.2 := by
        rw [hentries]
        exact OrderedMap.get?_eq_some_iff.mpr hitem
      have hr' : flushed.session.catalog.entries.get? item.1 = some item.2 := by
        rw [ht.counting.entries]
        exact hr
      obtain ⟨hkept, hwaits⟩ := hsame item.1 item.2 hr'
      have hstored : (flushed.session.catalog.heap item.2).metadata.isSome := by
        rw [hkept, hw.sweeping.kept _ _ hr hqueued]
        exact hmeta
      refine ⟨fun hcounter ↦ hgone ((hwaits hstored).mpr ?_), ?_⟩
      · rw [hw.sweeping.counters]
        exact hcounter
      · have hrow := (hall item (OrderedMap.get?_eq_some_iff.mp hr')).1 hstored
        exact hw.sweeping.new _ ((ht.rows _).mp hrow)
  · intro hqueued
    have hready {h : Bytes} {r : Ref} (hr : swept.session.catalog.entries.get? h = some r)
        (hmeta : (swept.session.catalog.heap r).metadata.isSome) :
        c.indexCounters.get? h ≠ some r ∧ (swept.rows h).isSome := by
      obtain ⟨hne, hstored⟩ := hunqueued hr hmeta
      obtain ⟨hcounter, hrow⟩ :=
        (hqueued (h, r) (OrderedMap.get?_eq_some_iff.mp (hlive hr)) hstored).resolve_left hne
      refine ⟨hcounter, hrow.elim (hw.sweeping.rows h) fun hcontains ↦ ?_⟩
      obtain ⟨other, hother⟩ := Option.isSome_iff_exists.mp hcontains
      exact (hw.released hswept hother).1
    obtain ⟨hdocuments, hsame⟩ := ht.counting.documents.resolve_left fun hrequeues ↦ by
      obtain ⟨h, r, hr, hmeta, hcounter⟩ := hrequeues.2
      rw [hw.sweeping.counters] at hcounter
      exact (hready hr hmeta).1 hcounter
    refine ⟨hdocuments, hcounters, horphans, fun item hitem ↦ ⟨fun hmeta ↦ ?_, fun hdatabase ↦ ?_⟩⟩
    · have hr := OrderedMap.get?_eq_some_iff.mpr hitem
      rw [(hsame item.1 item.2 hr).1] at hmeta
      rw [ht.counting.entries] at hr
      exact (ht.rows _).mpr (hready hr hmeta).2
    · have hflushed := ht.placed.flushed_eq ht.idle hcounters
        (OrderedMap.get?_eq_some_iff.mpr hitem) hdatabase
      exact ⟨hflushed .seen, hflushed .announce⟩

/-- In every state that a run under the protocol reaches, and in which the index thread holds nothing,
the last flush ends.  It is complete exactly when no live entry with metadata waits for a counter update
behind the document of an earlier entry of its hash. -/
theorem final_flush_complete_iff {maxPending batchSize : ℕ} {checkDatabase : Bool}
    {labels : List IndexLabel} (hpending : 1 ≤ maxPending) (hsize : 1 ≤ batchSize)
    (hsafe : indexMachine.Along requeuesOnceUnderProtocol
      (.start limits maxPending checkDatabase start) labels)
    (hrun : indexMachine.run (.start limits maxPending checkDatabase start) labels = some s)
    (hidle : s.phase = .idle) :
    ∃ rounds flushed, (∀ fuel, rounds ≤ fuel → s.finalFlush batchSize fuel = some flushed) ∧
      (flushed.FlushComplete ↔ s.DocumentsQueued) := by
  have hs := run_placed hpending hsafe hrun
  let rounds := s.session.catalog.indexDocuments.size + 1
  obtain ⟨swept, hdocuments, hw, hempty⟩ :=
    (flushDocuments_ends hsize hs hidle (Nat.lt_succ_self _)).exists_ok
  obtain ⟨flushed, hcounted, ht, hcounters, horphans⟩ :=
    (flushCounters_ends hsize hw.placed hw.idle hempty (Nat.lt_succ_self _)).exists_ok
  refine ⟨max rounds (swept.waitingCounters + 1), flushed, fun fuel hfuel ↦ ?_,
    complete_iff hw hempty ht hcounters horphans⟩
  have hdocuments' : flushDocuments batchSize fuel s = .ok swept :=
    loop_fuel_mono hdocuments ((le_max_left _ _).trans hfuel)
  have hcounted' : flushCounters batchSize fuel swept = .ok flushed :=
    loop_fuel_mono hcounted ((le_max_right _ _).trans hfuel)
  have hboth : (flushDocuments batchSize fuel s >>= flushCounters batchSize fuel) = .ok flushed := by
    rw [hdocuments']
    exact hcounted'
  unfold finalFlush
  rw [hboth]

end IndexSystem

/-! ## A document behind another one -/

/-- A torrent is announced, fetched and stored. -/
def announcedLabels : List IndexLabel :=
  [.client (.recordHash (sampleHash 1) .announcePeer (some samplePeer) 0),
    .client (.nextFetchCandidates 1), .client (.storeMetadata (sampleMetadata 1) 0)]

/-- All but one of the entries are claimed by lookups.  The torrent `1` is stored, and the sighting of a
new hash evicts it while its document waits; it is then fetched, stored and sighted once more. -/
def waitingBehindLabels : List IndexLabel :=
  .client (.recordHashes ((List.range 39).map fun n ↦ sampleHash (UInt8.ofNat (n + 2))) .getPeers 0) ::
    .client (.hashesNeedingPeers 39 0) :: announcedLabels ++
    .client (.recordHash (sampleHash 41) .getPeers none 0) :: announcedLabels ++
    [.client (.recordHash (sampleHash 1) .getPeers none 0)]

theorem final_flush_complete_once : ∃ s rounds flushed,
    indexMachine.run (.start oneEntry 10 false noRows) announcedLabels = some s ∧
      (∀ fuel, rounds ≤ fuel → s.finalFlush 10 fuel = some flushed) ∧ flushed.FlushComplete := by
  have hcomputed : ((indexMachine.run (.start oneEntry 10 false noRows) announcedLabels).any
      fun s ↦ s.phase = .idle ∧ s.DocumentsQueued) = true := by
    decide +kernel
  obtain ⟨s, hrun, htest⟩ := (Option.any_eq_true _ _).mp hcomputed
  obtain ⟨hidle, hqueued⟩ := of_decide_eq_true htest
  obtain ⟨rounds, flushed, hends, hcomplete⟩ := IndexSystem.final_flush_complete_iff
    (by decide) (show 1 ≤ 10 by decide) (by decide +kernel) hrun hidle
  exact ⟨s, rounds, flushed, hrun, hends, hcomplete.mpr hqueued⟩

/-- The drained counter queues the document of the second entry after the document loop is over. -/
theorem final_flush_leaves_document : ∃ s flushed,
    indexMachine.Along IndexSystem.requeuesOnceUnderProtocol (.start fortyEntries 10 false noRows)
      waitingBehindLabels ∧
    indexMachine.run (.start fortyEntries 10 false noRows) waitingBehindLabels = some s ∧
      s.phase = .idle ∧ s.finalFlush 10 5 = some flushed ∧ ¬ flushed.FlushComplete := by
  have hcomputed : ((indexMachine.run (.start fortyEntries 10 false noRows) waitingBehindLabels).any
      fun s ↦ s.phase = .idle ∧ (s.finalFlush 10 5).any fun flushed ↦ ¬ flushed.FlushComplete) =
        true := by
    decide +kernel
  obtain ⟨s, hrun, htest⟩ := (Option.any_eq_true _ _).mp hcomputed
  obtain ⟨hidle, hflush⟩ := of_decide_eq_true htest
  obtain ⟨flushed, hflushed, hincomplete⟩ := (Option.any_eq_true _ _).mp hflush
  exact ⟨s, flushed, by decide +kernel, hrun, hidle, hflushed, of_decide_eq_true hincomplete⟩

end DhtScraper
