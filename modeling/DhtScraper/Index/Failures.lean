import DhtScraper.Index.Keyed
import DhtScraper.Index.Balance
import Mathlib.Data.List.DropRight

/-!
# A failing write

`flush_documents` and `flush_counters` put a batch back when the write raises `sqlite3.Error`, and
`run_due_work` swallows every `Exception`.  Any other exception therefore leaves the batch in no queue.
The theorem says for every state exactly when a failing write loses nothing.
-/

namespace DhtScraper

open Library

/-- The classes of exceptions that the flushes tell apart. -/
inductive WriteError where
  | sqlite
  | other
  deriving DecidableEq

/-- The batch that was drained and is not written yet. -/
def IndexPhase.drained : IndexPhase → List IndexSnapshot
  | .documentsDrained batch => batch
  | .countersDrained batch => batch
  | _ => []

@[simp]
theorem IndexPhase.drained_unlessEmpty_documents (batch : List IndexSnapshot) :
    (unlessEmpty batch (.documentsDrained batch)).drained = batch := by
  cases batch <;> rfl

@[simp]
theorem IndexPhase.drained_unlessEmpty_counters (batch : List IndexSnapshot) :
    (unlessEmpty batch (.countersDrained batch)).drained = batch := by
  cases batch <;> rfl

namespace IndexSystem

/-- `write_documents` or `update_counters` raises after its transaction was rolled back.  The exception
leaves the flush, and `run_due_work` counts and logs it. -/
def failWrite (s : IndexSystem) (error : WriteError) : Option IndexSystem :=
  match s.phase, error with
  | .documentsDrained batch, .sqlite => some (s.call (.requeueIndexDocuments batch) .idle)
  | .countersDrained batch, .sqlite => some (s.call (.requeueIndexCounters batch) .idle)
  | .documentsDrained _, .other => some { s with phase := .idle }
  | .countersDrained _, .other => some { s with phase := .idle }
  | _, _ => none

end IndexSystem

/-- The threads and the database, where any write may fail in any way. -/
def faultyMachine : Machine IndexSystem (IndexLabel ⊕ WriteError) where
  step s
    | .inl label => s.step label
    | .inr error => s.failWrite error

/-! ## Putting a batch back -/

namespace TorrentCatalog

variable {c : TorrentCatalog}

/-- Documents whose hashes are not queued return to the front in their order. -/
theorem items_requeueIndexDocuments (c : TorrentCatalog) {batch : List IndexSnapshot}
    (hnodup : (batch.map IndexSnapshot.infoHash).Nodup)
    (habsent : ∀ snapshot ∈ batch, c.indexDocuments.get? snapshot.infoHash = none) :
    (c.requeueIndexDocuments batch).indexDocuments.items =
      (batch.map fun snapshot ↦ (snapshot.infoHash, snapshot.entry)) ++ c.indexDocuments.items := by
  have hfold : (batch.reverse.foldl requeueDocumentLocked c).indexDocuments.items =
      (batch.map fun snapshot ↦ (snapshot.infoHash, snapshot.entry)) ++ c.indexDocuments.items := by
    rw [List.foldl_reverse]
    induction batch with
    | nil => rfl
    | cons first rest ih =>
      obtain ⟨hfirst, hrest⟩ := List.nodup_cons.mp hnodup
      have hitems := ih hrest fun snapshot hsnapshot ↦
        habsent snapshot (List.mem_cons_of_mem _ hsnapshot)
      rw [List.foldr_cons]
      set mid := rest.foldr (fun snapshot c ↦ requeueDocumentLocked c snapshot) c
      have hnone : mid.indexDocuments.get? first.infoHash = none := by
        rw [OrderedMap.get?_eq_none_iff, OrderedMap.keys, hitems, List.map_append, List.mem_append,
          List.map_map]
        rintro (hmem | hmem)
        · exact hfirst hmem
        · exact OrderedMap.get?_eq_none_iff.mp (habsent first List.mem_cons_self) hmem
      rw [requeueDocumentLocked, if_neg (by simp [OrderedMap.contains, hnone])]
      simp only [OrderedMap.insertFirst, OrderedMap.erase_eq_self hnone, List.map_cons,
        List.cons_append,
        hitems]
  exact hfold

/-- The entries of a batch that have left the catalog, in the order of the batch. -/
def evictedOf (c : TorrentCatalog) (batch : List IndexSnapshot) : List Ref :=
  (batch.filter fun snapshot ↦ c.entries.get? snapshot.infoHash ≠ some snapshot.entry).map
    IndexSnapshot.entry

theorem rtake_rtake_append {α : Type*} (l l' : List α) (n : ℕ) :
    (l.rtake n ++ l').rtake n = (l ++ l').rtake n := by
  simp only [List.rtake, List.length_append, List.length_drop, List.drop_append, List.drop_drop]
  congr 2
  · omega
  · omega

theorem orphanCounters_addOrphanLocked (c : TorrentCatalog) (r : Ref)
    (h : c.orphanCounters.length ≤ maxOrphanCounters) :
    (c.addOrphanLocked r).orphanCounters = (c.orphanCounters ++ [r]).rtake maxOrphanCounters := by
  simp only [addOrphanLocked, TorrentCatalog.check, List.rtake, List.length_append,
    List.length_singleton]
  split
  next hfull =>
    rw [show c.orphanCounters.length + 1 - maxOrphanCounters = 1 by omega, List.drop_one]
  next hroom =>
    rw [show c.orphanCounters.length + 1 - maxOrphanCounters = 0 by omega, List.drop_zero]

/-- The live entries of the batch wait for a counter update again, and the others join the orphans, of
which the newest are kept. -/
theorem requeueIndexCounters_spec {batch : List IndexSnapshot}
    (hlive : ∀ k r, c.indexCounters.get? k = some r → c.entries.get? k = some r)
    (hbounded : c.orphanCounters.length ≤ maxOrphanCounters) :
    (c.requeueIndexCounters batch).heap = c.heap ∧
      (c.requeueIndexCounters batch).entries = c.entries ∧
      (c.requeueIndexCounters batch).orphanCounters =
        (c.orphanCounters ++ c.evictedOf batch).rtake maxOrphanCounters ∧
      (∀ k r, c.indexCounters.get? k = some r →
        (c.requeueIndexCounters batch).indexCounters.get? k = some r) ∧
      ∀ snapshot ∈ batch, c.entries.get? snapshot.infoHash = some snapshot.entry →
        (c.requeueIndexCounters batch).indexCounters.get? snapshot.infoHash = some snapshot.entry := by
  unfold requeueIndexCounters
  induction batch generalizing c with
  | nil =>
    refine ⟨rfl, rfl, ?_, fun _ _ hr ↦ hr, by simp⟩
    rw [show c.evictedOf [] = [] from rfl, List.append_nil, List.rtake, Nat.sub_eq_zero_of_le hbounded,
      List.drop_zero]
    rfl
  | cons first rest ih =>
    rw [List.foldl_cons]
    by_cases hfirst : c.entries.get? first.infoHash = some first.entry
    · rw [requeueCounterLocked, if_pos hfirst]
      have hself : (c.indexCounters.setDefault first.infoHash first.entry).get? first.infoHash =
          some first.entry := by
        rw [OrderedMap.get?_setDefault, if_pos rfl]
        cases hget : c.indexCounters.get? first.infoHash with
        | none => rfl
        | some r => exact (hlive _ r hget).symm.trans hfirst
      have hkeeps : ∀ k r, c.indexCounters.get? k = some r →
          (c.indexCounters.setDefault first.infoHash first.entry).get? k = some r := by
        intro k r hr
        rw [OrderedMap.get?_setDefault]
        split
        next hk =>
          rw [← hk, hr]
          rfl
        next => exact hr
      obtain ⟨hheap, hentries, horphans, hkept, hall⟩ := @ih
        { c with indexCounters := c.indexCounters.setDefault first.infoHash first.entry }
        (fun k r hr ↦ (OrderedMap.get?_setDefault_cases hr).elim (hlive k r)
          (by rintro ⟨rfl, rfl⟩; exact hfirst)) hbounded
      refine ⟨hheap, hentries, ?_, fun k r hr ↦ hkept k r (hkeeps k r hr),
        fun snapshot hsnapshot hs ↦ ?_⟩
      · rw [horphans]
        simp only [evictedOf]
        rw [List.filter_cons_of_neg (by simpa using hfirst)]
      · rcases List.mem_cons.mp hsnapshot with rfl | hmem
        · exact hkept _ _ hself
        · exact hall snapshot hmem hs
    · rw [requeueCounterLocked, if_neg hfirst]
      obtain ⟨hheap, hentries, horphans, hkept, hall⟩ := @ih (c.addOrphanLocked first.entry) hlive
        (c.length_addOrphanLocked first.entry hbounded)
      refine ⟨hheap, hentries, ?_, hkept, fun snapshot hsnapshot hs ↦ ?_⟩
      · rw [horphans, orphanCounters_addOrphanLocked c first.entry hbounded, rtake_rtake_append,
          List.append_assoc]
        simp only [evictedOf]
        rw [List.filter_cons_of_pos (by simpa using hfirst)]
        rfl
      · rcases List.mem_cons.mp hsnapshot with rfl | hmem
        · exact absurd hs hfirst
        · exact hall snapshot hmem hs

theorem nextRef_requeueIndexCounters (c : TorrentCatalog) (batch : List IndexSnapshot) :
    (c.requeueIndexCounters batch).nextRef = c.nextRef := by
  refine foldl_keeps TorrentCatalog.nextRef requeueCounterLocked (fun c snapshot ↦ ?_) batch c
  rw [requeueCounterLocked]
  split <;> rfl

end TorrentCatalog

/-! ## The system -/

namespace IndexSystem

open TorrentCatalog

/-- The queues name their entries, and the drained batch is outstanding. -/
structure Arranged (limits : CatalogLimits) (s : IndexSystem) : Prop where
  sound : Sound limits (fun _ ↦ True) s.session.catalog s.session.fetchClaims s.session.lookupClaims
  keyed : s.session.catalog.Keyed s.phase.drained

variable {limits : CatalogLimits} {rows : Rows} {s s' : IndexSystem}

theorem Arranged.call (hs : s.Arranged limits) {op : CatalogOp} {phase : IndexPhase}
    (hop : s.session.permits looseStores op)
    (hkeyed : (s.session.exec op).catalog.Keyed phase.drained) : (s.call op phase).Arranged limits where
  sound := s.session.exec_sound (anyEntry_invariant limits looseStores) hs.sound op hop
  keyed := by
    unfold IndexSystem.call
    simp only
    split
    next => exact hkeyed.withdrawn
    next => exact hkeyed

/-- A phase without a drained batch. -/
theorem Arranged.moved (hs : s.Arranged limits) {phase : IndexPhase} {rows : Rows} {stored : Finset Ref}
    (hphase : phase.drained = []) :
    ({ session := s.session, rows := rows, phase := phase, stored := stored } :
      IndexSystem).Arranged limits :=
  ⟨hs.sound, by rw [hphase]; exact hs.keyed.withdrawn⟩

theorem start_arranged (maxPending : ℕ) (checkDatabase : Bool) :
    (IndexSystem.start limits maxPending checkDatabase rows).Arranged limits where
  sound := Session.exec_sound (anyEntry_invariant limits looseStores) Session.new_sound
    (.enableIndexTracking maxPending checkDatabase) trivial
  keyed := by
    have hnew : (TorrentCatalog.new limits).settle.Keyed [] := by
      constructor
      case documents => exact fun h r hr ↦ by cases hr
      case orphans => exact fun r hr ↦ by cases hr
      case bounded => exact Nat.zero_le _
      case carried => exact fun snapshot hsnapshot ↦ by cases hsnapshot
    exact hnew.guarded fun _ ↦ hnew.of_eq

theorem Arranged.step (hs : s.Arranged limits) {label : IndexLabel} (hstep : s.step label = some s') :
    s'.Arranged limits := by
  have hrep : s.session.catalog.settle.Represented ∅ := hs.sound.settle.represented
  have hkeyed := hs.keyed
  have hsettled : s.session.catalog.settle.Keyed [] := hkeyed.withdrawn.of_eq
  cases step_cases hstep with
  | @client op hclient hpermitted =>
    refine ⟨s.session.exec_sound (anyEntry_invariant limits looseStores) hs.sound op hpermitted, ?_⟩
    exact @ClientRules.apply _ _ _ [] _ _ _ _ (Keyed.clientRules s.phase.drained) hs.sound op hclient
      hpermitted (opAllowed_of_forall (fun _ _ ↦ trivial) (fun _ _ ↦ trivial) _ op) hkeyed
  | @documentsDrained limit batch hphase hdrained =>
    have hnext := hsettled.drainIndexDocuments limit
    rw [hdrained] at hnext
    exact hs.call trivial (by rw [IndexPhase.drained_unlessEmpty_documents]; exact hnext)
  | @documentsWritten batch hphase =>
    unfold IndexSystem.commitDocuments
    split
    · exact hs.moved rfl
    · exact hs.moved rfl
  | @documentsFailed batch hphase _ =>
    rw [hphase] at hkeyed
    have hflight : s.session.catalog.settle.Keyed batch := hkeyed.of_eq
    exact hs.call trivial hflight.requeueIndexDocuments
  | @documentMarked snapshot base marks hphase =>
    refine hs.call trivial ?_
    have hnext := hsettled.markIndexWritten hrep snapshot base
    cases marks <;> exact hnext
  | @countersDrained limit batch hphase hdrained =>
    have hnext := hsettled.drainIndexCounters hrep limit
    rw [hdrained] at hnext
    exact hs.call trivial (by rw [IndexPhase.drained_unlessEmpty_counters]; exact hnext)
  | @countersWritten batch hphase =>
    unfold IndexSystem.commitCounters
    split
    · exact hs.moved rfl
    · exact hs.moved rfl
  | @countersFailed batch hphase _ =>
    rw [hphase] at hkeyed
    have hflight : s.session.catalog.settle.Keyed batch := hkeyed.of_eq
    exact hs.call trivial (hflight.requeueIndexCounters hrep.key)
  | @countersMarked batch missing hphase =>
    refine hs.call trivial ?_
    have hnext := hsettled.markCountersWritten
      (batch.filter fun snapshot ↦ snapshot.infoHash ∉ missing)
    cases missing <;> exact hnext
  | @missingReset infoHash rest hphase =>
    refine hs.call (fun hd ↦ by cases hd) ?_
    have hnext := hsettled.resetIndexBase hrep infoHash
    cases rest <;> exact hnext
  | @checksTaken limit infoHashes hphase _ =>
    cases infoHashes <;> exact hs.moved rfl
  | @rowsRead infoHashes hphase =>
    refine hs.moved ?_
    split <;> rfl
  | @readFailed infoHashes hphase => exact hs.moved rfl
  | @checksApplied infoHashes found hphase =>
    have hcalled : (s.call (.applyDatabaseChecks infoHashes found) .idle).Arranged limits :=
      hs.call trivial (hsettled.applyDatabaseChecks hrep infoHashes found)
    exact ⟨hcalled.sound, hcalled.keyed⟩
  | @checksSwitched enabled hphase =>
    exact hs.call trivial (hsettled.setDatabaseCheck hrep enabled)

theorem Arranged.failWrite (hs : s.Arranged limits) {error : WriteError}
    (hfail : s.failWrite error = some s') : s'.Arranged limits := by
  have hrep : s.session.catalog.settle.Represented ∅ := hs.sound.settle.represented
  have hkeyed := hs.keyed
  unfold IndexSystem.failWrite at hfail
  split at hfail
  next batch hphase =>
    rw [hphase] at hkeyed
    have hflight : s.session.catalog.settle.Keyed batch := hkeyed.of_eq
    rw [← Option.some.inj hfail]
    exact hs.call trivial hflight.requeueIndexDocuments
  next batch hphase =>
    rw [hphase] at hkeyed
    have hflight : s.session.catalog.settle.Keyed batch := hkeyed.of_eq
    rw [← Option.some.inj hfail]
    exact hs.call trivial (hflight.requeueIndexCounters hrep.key)
  next =>
    rw [← Option.some.inj hfail]
    exact hs.moved rfl
  next =>
    rw [← Option.some.inj hfail]
    exact hs.moved rfl
  next => cases hfail

theorem run_arranged (hs : s.Arranged limits) {labels : List (IndexLabel ⊕ WriteError)}
    (hrun : faultyMachine.run s labels = some s') : s'.Arranged limits := by
  refine faultyMachine.run_invariant (I := fun s ↦ s.Arranged limits) ?_ hs hrun
  intro s label s' hs hstep
  cases label with
  | inl label => exact hs.step hstep
  | inr error => exact hs.failWrite hstep

/-! ## What a failing write loses -/

/-- Every entry of the failing batch waits again exactly once, with what was drained still unflushed,
and the document queue is as it was `before` the drain when nothing happened meanwhile. -/
def Restored (before s s' : IndexSystem) (alone : Prop) : Prop :=
  match s.phase with
  | .documentsDrained batch =>
    (∀ snapshot ∈ batch, s'.session.catalog.indexDocuments.values.count snapshot.entry = 1 ∧
      s'.session.catalog.Outstanding snapshot) ∧
    (alone → s'.session.catalog.indexDocuments.items = before.session.catalog.indexDocuments.items)
  | .countersDrained batch => ∀ snapshot ∈ batch,
      s'.session.catalog.indexCounters.values.count snapshot.entry +
        s'.session.catalog.orphanCounters.count snapshot.entry = 1 ∧
      s'.session.catalog.Outstanding snapshot
  | _ => True

/-- The write raises `sqlite3.Error`, no document of the batch finds another entry in its place, and
every entry of a counter batch that has left the catalog is among the newest orphans once.  After
another exception the entries must be waiting already. -/
def restorable (s : IndexSystem) (error : WriteError) : Prop :=
  let c := s.session.catalog
  match s.phase with
  | .documentsDrained batch => ∀ snapshot ∈ batch,
      c.indexDocuments.get? snapshot.infoHash = some snapshot.entry ∨
        error = .sqlite ∧ c.indexDocuments.get? snapshot.infoHash = none
  | .countersDrained batch => ∀ snapshot ∈ batch,
      if c.entries.get? snapshot.infoHash = some snapshot.entry then
        error = .sqlite ∨ c.indexCounters.get? snapshot.infoHash = some snapshot.entry
      else
        (if error = .sqlite then (c.orphanCounters ++ c.evictedOf batch).rtake maxOrphanCounters
          else c.orphanCounters).count snapshot.entry = 1
  | _ => True

theorem count_documents {c : TorrentCatalog} {flight : List IndexSnapshot} (hk : c.Keyed flight)
    (r : Ref) : c.indexDocuments.values.count r =
      if c.indexDocuments.get? (c.owner r) = some r then 1 else 0 :=
  c.indexDocuments.count_values (fun k r hr ↦ (hk.documents k r hr).2) r

theorem count_counters {c : TorrentCatalog} (hrep : c.Represented ∅) (r : Ref) :
    c.indexCounters.values.count r = if c.indexCounters.get? (c.owner r) = some r then 1 else 0 :=
  c.indexCounters.count_values (fun k r hr ↦ hrep.key k r (hrep.counters_live k r hr)) r

/-- The crawler and fetch threads leave the batch to the index thread. -/
theorem phase_of_clients {ops : List CatalogOp}
    (hrun : faultyMachine.run s (ops.map fun op ↦ .inl (.client op)) = some s') :
    s'.phase = s.phase := by
  induction ops generalizing s with
  | nil => rw [← Option.some.inj hrun]
  | cons op rest ih =>
    obtain ⟨mid, hmid, hrest⟩ := faultyMachine.run_cons_eq_some.mp hrun
    rw [ih hrest]
    have hclient : s.step (.client op) = some mid := hmid
    cases step_cases hclient with
    | client => rfl

/-- The documents of a drained batch have different hashes, and left the front of the queue. -/
theorem documents_drained {c : TorrentCatalog} (hk : c.Keyed []) {limit : ℕ}
    (hquiet : (c.drainIndexDocuments limit).1.raised = false) {batch : List IndexSnapshot}
    (hbatch : (c.drainIndexDocuments limit).2 = batch) :
    (batch.map IndexSnapshot.infoHash).Nodup ∧
      (∀ snapshot ∈ batch,
        (c.drainIndexDocuments limit).1.indexDocuments.get? snapshot.infoHash = none) ∧
      c.indexDocuments.items = (batch.map fun snapshot ↦ (snapshot.infoHash, snapshot.entry)) ++
        (c.drainIndexDocuments limit).1.indexDocuments.items := by
  obtain ⟨taken, rest, b, hsplit, hstate, htaken, -⟩ := c.drainDocumentsLocked_spec limit
  have hcatalog : (c.drainIndexDocuments limit).1 = (c.drainDocumentsLocked limit).1 := rfl
  rw [hcatalog, hstate] at hquiet ⊢
  have hb : b = false := hquiet
  have hbatch' : batch = taken.map fun item ↦ indexSnapshot item.2 (c.heap item.2) := by
    rw [← hbatch, TorrentCatalog.drainIndexDocuments]
    simp only
    rw [if_neg (by rw [hstate]; simp [hb]), htaken hb]
  have hpairs : (batch.map fun snapshot ↦ (snapshot.infoHash, snapshot.entry)) = taken := by
    rw [hbatch', List.map_map]
    refine (List.map_congr_left fun item hitem ↦ ?_).trans (List.map_id taken)
    have howner := (hk.documents item.1 item.2
      ((OrderedMap.get?_eq_some_iff_of_items hsplit).mpr (Or.inl hitem))).2
    exact Prod.ext howner rfl
  have hhashes : batch.map IndexSnapshot.infoHash = taken.map Prod.fst := by
    rw [← hpairs, List.map_map]
    rfl
  have hall := c.indexDocuments.nodup
  rw [hsplit, List.map_append] at hall
  refine ⟨by rw [hhashes]; exact hall.of_append_left, fun snapshot hsnapshot ↦ ?_,
    by rw [hpairs]; exact hsplit⟩
  rw [OrderedMap.get?_eq_none_iff]
  intro hmem
  have hfirst : snapshot.infoHash ∈ taken.map Prod.fst := by
    rw [← hhashes]
    exact List.mem_map_of_mem hsnapshot
  exact (List.nodup_append.mp hall).2.2 _ hfirst _ hmem rfl

/-- The hashes of a document batch can be put back exactly where their places are free. -/
theorem documents_put_back {c : TorrentCatalog} {batch : List IndexSnapshot}
    (hnodup : (batch.map IndexSnapshot.infoHash).Nodup) {snapshot : IndexSnapshot}
    (hsnapshot : snapshot ∈ batch) :
    (c.requeueIndexDocuments batch).indexDocuments.get? snapshot.infoHash = some snapshot.entry ↔
      c.indexDocuments.get? snapshot.infoHash = some snapshot.entry ∨
        c.indexDocuments.get? snapshot.infoHash = none := by
  obtain ⟨documents, b, hstate, hkept, hnew, hall⟩ := c.requeueIndexDocuments_spec batch
  rw [hstate]
  constructor
  · intro hget
    exact (hnew _ _ hget).imp_right And.left
  · rintro (hold | hnone)
    · exact hkept _ _ hold
    · obtain ⟨r, hr⟩ := Option.isSome_iff_exists.mp (hall snapshot hsnapshot)
      rcases hnew _ _ hr with hold | ⟨-, other, hother, hkey, rfl⟩
      · rw [hnone] at hold
        cases hold
      · rw [List.inj_on_of_nodup_map hnodup hother hsnapshot hkey] at hr
        exact hr

/-- A failing write of documents. -/
theorem documents_restored_iff (hs : s.Arranged limits) {before : IndexSystem} {alone : Prop}
    {batch : List IndexSnapshot} (hphase : s.phase = .documentsDrained batch) (hne : batch ≠ [])
    (hnodup : (batch.map IndexSnapshot.infoHash).Nodup)
    (halone : alone → (∀ snapshot ∈ batch,
        s.session.catalog.indexDocuments.get? snapshot.infoHash = none) ∧
      before.session.catalog.indexDocuments.items =
        (batch.map fun snapshot ↦ (snapshot.infoHash, snapshot.entry)) ++
          s.session.catalog.indexDocuments.items)
    {error : WriteError} (hfail : s.failWrite error = some s') :
    Restored before s s' alone ↔ s.restorable error := by
  have hs' := hs.failWrite hfail
  have hcarried := hs.keyed.carried
  rw [hphase] at hcarried
  have hcount : ∀ snapshot ∈ batch, s'.session.catalog.owner snapshot.entry = snapshot.infoHash →
      (s'.session.catalog.indexDocuments.values.count snapshot.entry = 1 ↔
        s'.session.catalog.indexDocuments.get? snapshot.infoHash = some snapshot.entry) := by
    intro snapshot _ howner
    rw [count_documents hs'.keyed, howner]
    split <;> simp_all
  unfold failWrite at hfail
  rw [hphase] at hfail
  unfold Restored restorable
  simp only [hphase]
  cases error with
  | sqlite =>
    simp only [Option.some.injEq] at hfail
    have hcatalog : s'.session.catalog = s.session.catalog.settle.requeueIndexDocuments batch := by
      rw [← hfail]
      rfl
    obtain ⟨documents, b, hstate, -⟩ := s.session.catalog.settle.requeueIndexDocuments_spec batch
    have hsame : ∀ snapshot ∈ batch, s'.session.catalog.Outstanding snapshot := by
      intro snapshot hsnapshot
      rw [hcatalog, hstate]
      exact ⟨(hcarried snapshot hsnapshot).allocated, (hcarried snapshot hsnapshot).owner,
        (hcarried snapshot hsnapshot).unflushed⟩
    simp only [true_and]
    constructor
    · rintro ⟨hall, -⟩ snapshot hsnapshot
      have hget := (hcount snapshot hsnapshot (hsame snapshot hsnapshot).owner).mp
        (hall snapshot hsnapshot).1
      rw [hcatalog] at hget
      exact (documents_put_back (c := s.session.catalog.settle) hnodup hsnapshot).mp hget
    · refine fun hfree ↦ ⟨fun snapshot hsnapshot ↦ ⟨?_, hsame snapshot hsnapshot⟩, fun h ↦ ?_⟩
      · rw [hcount snapshot hsnapshot (hsame snapshot hsnapshot).owner, hcatalog]
        exact (documents_put_back (c := s.session.catalog.settle) hnodup hsnapshot).mpr
          (hfree snapshot hsnapshot)
      · rw [hcatalog, (halone h).2]
        exact items_requeueIndexDocuments s.session.catalog.settle hnodup (halone h).1
  | other =>
    simp only [Option.some.injEq] at hfail
    have hcatalog : s'.session.catalog = s.session.catalog := by rw [← hfail]
    simp only [reduceCtorEq, false_and, or_false]
    constructor
    · rintro ⟨hall, -⟩ snapshot hsnapshot
      have hget := (hcount snapshot hsnapshot (hall snapshot hsnapshot).2.owner).mp
        (hall snapshot hsnapshot).1
      rw [hcatalog] at hget
      exact hget
    · refine fun hwaits ↦ ⟨fun snapshot hsnapshot ↦ ?_, fun h ↦ ?_⟩
      · rw [hcount snapshot hsnapshot (by rw [hcatalog]; exact (hcarried snapshot hsnapshot).owner),
          hcatalog]
        exact ⟨hwaits snapshot hsnapshot, hcarried snapshot hsnapshot⟩
      · obtain ⟨first, hfirst⟩ := List.exists_mem_of_ne_nil batch hne
        have hget := hwaits first hfirst
        rw [(halone h).1 first hfirst] at hget
        cases hget

/-- A failing write of counters. -/
theorem counters_restored_iff (hs : s.Arranged limits) {before : IndexSystem} {alone : Prop}
    {batch : List IndexSnapshot} (hphase : s.phase = .countersDrained batch) {error : WriteError}
    (hfail : s.failWrite error = some s') : Restored before s s' alone ↔ s.restorable error := by
  have hs' := hs.failWrite hfail
  have hcarried := hs.keyed.carried
  rw [hphase] at hcarried
  have hrep := hs.sound.represented
  have hrep' := hs'.sound.represented
  -- where an entry waits depends on whether it is still in the catalog
  have hcount : ∀ snapshot ∈ batch, s'.session.catalog.Outstanding snapshot →
      s'.session.catalog.entries = s.session.catalog.entries →
      s'.session.catalog.indexCounters.values.count snapshot.entry +
          s'.session.catalog.orphanCounters.count snapshot.entry =
        if s.session.catalog.entries.get? snapshot.infoHash = some snapshot.entry then
          if s'.session.catalog.indexCounters.get? snapshot.infoHash = some snapshot.entry then 1 else 0
        else s'.session.catalog.orphanCounters.count snapshot.entry := by
    intro snapshot _ houtstanding hentries
    rw [count_counters hrep' snapshot.entry, houtstanding.owner]
    by_cases hlive : s.session.catalog.entries.get? snapshot.infoHash = some snapshot.entry
    · have hnone : s'.session.catalog.orphanCounters.count snapshot.entry = 0 := by
        rw [List.count_eq_zero]
        intro hmem
        apply (hs'.keyed.orphans _ hmem).2 snapshot.infoHash
        rw [hentries]
        exact hlive
      rw [if_pos hlive, hnone, add_zero]
    · have hgone : s'.session.catalog.indexCounters.get? snapshot.infoHash ≠ some snapshot.entry := by
        intro hget
        apply hlive
        rw [← hentries]
        exact hrep'.counters_live _ _ hget
      rw [if_neg hlive, if_neg hgone, zero_add]
  unfold failWrite at hfail
  rw [hphase] at hfail
  unfold Restored restorable
  simp only [hphase]
  cases error with
  | sqlite =>
    simp only [Option.some.injEq] at hfail
    have hcatalog : s'.session.catalog = s.session.catalog.settle.requeueIndexCounters batch := by
      rw [← hfail]
      rfl
    obtain ⟨hheap, hentries, horphans, -, hlive⟩ := @requeueIndexCounters_spec s.session.catalog.settle
      batch hrep.counters_live hs.keyed.bounded
    have hnextRef : s'.session.catalog.nextRef = s.session.catalog.nextRef := by
      rw [hcatalog]
      exact nextRef_requeueIndexCounters s.session.catalog.settle batch
    rw [← hcatalog] at hheap hentries horphans hlive
    refine forall₂_congr fun snapshot hsnapshot ↦ ?_
    have hcarry := hcarried snapshot hsnapshot
    have houtstanding : s'.session.catalog.Outstanding snapshot := by
      refine ⟨by rw [hnextRef]; exact hcarry.allocated, ?_, fun k ↦ ?_⟩
      · rw [owner, hheap]
        exact hcarry.owner
      · rw [hheap]
        exact hcarry.unflushed k
    rw [hcount snapshot hsnapshot houtstanding hentries]
    by_cases hin : s.session.catalog.entries.get? snapshot.infoHash = some snapshot.entry
    · rw [if_pos hin, if_pos (hlive snapshot hsnapshot hin), if_pos hin]
      exact ⟨fun _ ↦ Or.inl rfl, fun _ ↦ ⟨rfl, houtstanding⟩⟩
    · rw [if_neg hin, if_neg hin, if_pos rfl, horphans]
      exact ⟨And.left, fun h ↦ ⟨h, houtstanding⟩⟩
  | other =>
    simp only [Option.some.injEq] at hfail
    have hcatalog : s'.session.catalog = s.session.catalog := by rw [← hfail]
    refine forall₂_congr fun snapshot hsnapshot ↦ ?_
    have houtstanding : s'.session.catalog.Outstanding snapshot := by
      rw [hcatalog]
      exact hcarried snapshot hsnapshot
    rw [hcount snapshot hsnapshot houtstanding (by rw [hcatalog]), hcatalog]
    by_cases hin : s.session.catalog.entries.get? snapshot.infoHash = some snapshot.entry
    · rw [if_pos hin, if_pos hin]
      simp only [ite_eq_left_iff, zero_ne_one, imp_false, not_not, reduceCtorEq, false_or]
      exact ⟨And.left, fun h ↦ ⟨h, hcarried snapshot hsnapshot⟩⟩
    · rw [if_neg hin, if_neg hin, if_neg (by decide)]
      exact ⟨And.left, fun h ↦ ⟨h, hcarried snapshot hsnapshot⟩⟩

/-- A failing write loses nothing exactly when the batch can be put back whole. -/
theorem failed_write_restored_iff {maxPending : ℕ} {checkDatabase : Bool}
    {labels : List (IndexLabel ⊕ WriteError)} {before drained s s' : IndexSystem}
    (hrun : faultyMachine.run (.start limits maxPending checkDatabase rows) labels = some before)
    {drain : ℕ → IndexLabel} (hdrain : drain = .drainDocuments ∨ drain = .drainCounters) {size : ℕ}
    (hdrained : before.step (drain size) = some drained) {ops : List CatalogOp}
    (hops : faultyMachine.run drained (ops.map fun op ↦ .inl (.client op)) = some s)
    {error : WriteError} (hfail : s.failWrite error = some s') :
    Restored before s s' (ops = []) ↔ s.restorable error := by
  have hbefore : before.Arranged limits := run_arranged (start_arranged maxPending checkDatabase) hrun
  have hs : s.Arranged limits := run_arranged (hbefore.step hdrained) hops
  have hphase := phase_of_clients hops
  have hnotIdle : s.phase ≠ .idle := by
    intro hidle
    unfold failWrite at hfail
    rw [hidle] at hfail
    cases hfail
  rcases hdrain with rfl | rfl
  · cases step_cases hdrained with
    | @documentsDrained _ batch hidle hbatch =>
      have hkeyed : before.session.catalog.settle.Keyed [] := hbefore.keyed.withdrawn.of_eq
      by_cases hraised : (before.session.exec (.drainIndexDocuments size)).catalog.raised
      · rw [call, if_pos hraised] at hphase
        exact absurd hphase hnotIdle
      · rw [call, if_neg hraised] at hphase
        cases batch with
        | nil => exact absurd hphase hnotIdle
        | cons first rest =>
          obtain ⟨hnodup, habsent, hitems⟩ := documents_drained hkeyed
            (Bool.eq_false_iff.mpr hraised) hbatch
          refine documents_restored_iff hs hphase (List.cons_ne_nil _ _) hnodup (fun hnone ↦ ?_) hfail
          rw [hnone] at hops
          rw [← Option.some.inj hops]
          exact ⟨habsent, hitems⟩
  · cases step_cases hdrained with
    | @countersDrained _ batch hidle hbatch =>
      by_cases hraised : (before.session.exec (.drainIndexCounters size)).catalog.raised
      · rw [call, if_pos hraised] at hphase
        exact absurd hphase hnotIdle
      · rw [call, if_neg hraised] at hphase
        cases batch with
        | nil => exact absurd hphase hnotIdle
        | cons first rest => exact counters_restored_iff hs hphase hfail

end IndexSystem

instance (s : IndexSystem) (error : WriteError) : Decidable (s.restorable error) := by
  unfold IndexSystem.restorable
  split <;> infer_instance

/-- Three torrents are stored. -/
def storedThree : List (IndexLabel ⊕ WriteError) :=
  [1, 2, 3].map fun n ↦ .inl (.client (.storeMetadata (sampleMetadata n) 0))

/-- The write of the first two documents fails, and they are back in front of the third. -/
theorem failed_write_restored_iff_sqlite : ∃ before drained s',
    faultyMachine.run (.start {} 10 false fun _ ↦ none) storedThree = some before ∧
      before.step (.drainDocuments 2) = some drained ∧ drained.failWrite .sqlite = some s' ∧
      drained.session.catalog.indexDocuments.keys = [sampleHash 3] ∧
      s'.session.catalog.indexDocuments.keys = [1, 2, 3].map sampleHash ∧
      IndexSystem.Restored before drained s' (([] : List CatalogOp) = []) := by
  have hcomputed : ((faultyMachine.run (.start {} 10 false fun _ ↦ none) storedThree).any
      fun before ↦ (before.step (.drainDocuments 2)).any fun drained ↦
        (drained.failWrite .sqlite).any fun s' ↦
          drained.session.catalog.indexDocuments.keys = [sampleHash 3] ∧
            s'.session.catalog.indexDocuments.keys = [1, 2, 3].map sampleHash ∧
              drained.restorable .sqlite) = true := by
    decide +kernel
  obtain ⟨before, hrun, hcomputed⟩ := (Option.any_eq_true _ _).mp hcomputed
  obtain ⟨drained, hdrained, hcomputed⟩ := (Option.any_eq_true _ _).mp hcomputed
  obtain ⟨s', hfail, hcomputed⟩ := (Option.any_eq_true _ _).mp hcomputed
  obtain ⟨hleft, hback, hrestorable⟩ := of_decide_eq_true hcomputed
  have hrestored : IndexSystem.Restored before drained s' (([] : List CatalogOp) = []) ↔
      drained.restorable .sqlite :=
    IndexSystem.failed_write_restored_iff hrun (Or.inl rfl) hdrained rfl hfail
  exact ⟨before, drained, s', hrun, hdrained, hfail, hleft, hback, hrestored.mpr hrestorable⟩

/-! ## An exception of another class -/

/-- A torrent is stored. -/
def storedOnce : List (IndexLabel ⊕ WriteError) :=
  [.inl (.client (.storeMetadata (sampleMetadata 1) 0))]

/-- The drained document of a write that raises another exception is in no queue. -/
theorem other_exception_loses_batch : ∃ before drained s',
    faultyMachine.run (.start oneEntry 10 false fun _ ↦ none) storedOnce = some before ∧
      before.step (.drainDocuments 10) = some drained ∧ drained.failWrite .other = some s' ∧
      (∃ snapshot ∈ drained.phase.drained,
        snapshot.entry ∉ s'.session.catalog.indexDocuments.values) ∧
      ¬IndexSystem.Restored before drained s' (([] : List CatalogOp) = []) := by
  have hcomputed : ((faultyMachine.run (.start oneEntry 10 false fun _ ↦ none) storedOnce).any
      fun before ↦ (before.step (.drainDocuments 10)).any fun drained ↦
        (drained.failWrite .other).any fun s' ↦
          drained.phase = .documentsDrained drained.phase.drained ∧
            ∃ snapshot ∈ drained.phase.drained,
              snapshot.entry ∉ s'.session.catalog.indexDocuments.values) = true := by
    decide +kernel
  obtain ⟨before, hrun, hcomputed⟩ := (Option.any_eq_true _ _).mp hcomputed
  obtain ⟨drained, hdrained, hcomputed⟩ := (Option.any_eq_true _ _).mp hcomputed
  obtain ⟨s', hfail, hcomputed⟩ := (Option.any_eq_true _ _).mp hcomputed
  obtain ⟨hphase, snapshot, hsnapshot, hlost⟩ := of_decide_eq_true hcomputed
  refine ⟨before, drained, s', hrun, hdrained, hfail, ⟨snapshot, hsnapshot, hlost⟩, fun hrestored ↦ ?_⟩
  unfold IndexSystem.Restored at hrestored
  rw [hphase] at hrestored
  have honce := (hrestored.1 snapshot hsnapshot).1
  rw [List.count_eq_zero.mpr hlost] at honce
  cases honce

end DhtScraper
