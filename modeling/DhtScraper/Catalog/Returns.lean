import DhtScraper.Catalog.Custody
import DhtScraper.Catalog.Queues

/-!
# The operations of the crawler return

No assertion fails in the operations that report what was seen on the network.  The assertions on
counters follow from the representation; besides it the operations rely on the bound of the orphan
queue and on sightings that are never negative.
-/

namespace DhtScraper

open Library

/-- An entry was sighted zero times or more. -/
def TorrentEntry.counted (entry : TorrentEntry) : Prop := 0 ≤ entry.seenCount

/-- Sightings are only added. -/
theorem counted_invariant (limits : CatalogLimits) (d : Discipline) :
    EntryInvariant limits d TorrentEntry.counted where
  new := fun _ _ _ ↦ le_rfl
  step := by
    intro e e' _ hcounted hstep
    unfold TorrentEntry.counted at hcounted ⊢
    cases hstep with
    | lookupEnded claimed record => exact record.seenCount ▸ hcounted
    | fetchFailed claimed record => exact record.seenCount ▸ hcounted
    | sighted record =>
      rw [record.seenCount]
      exact Int.add_nonneg hcounted Int.one_nonneg
    | written base metadata =>
      unfold TorrentCatalog.writtenEntry
      split <;> exact hcounted
    | checked awaits base =>
      unfold TorrentCatalog.checkedEntry
      split <;> exact hcounted
    | reset opened =>
      unfold TorrentCatalog.resetEntry
      dsimp only
      split <;> exact hcounted
    | _ => exact hcounted

namespace TorrentCatalog

variable {c c' : TorrentCatalog} {h : Bytes} {r : Ref} {now : ℚ}

theorem check_raised {p : Prop} [Decidable p] (hp : p) : (c.check p).raised = c.raised := by
  simp [TorrentCatalog.check, hp]

theorem guarded_of {body : TorrentCatalog} {p : Prop} [Decidable p] (hp : p) :
    c.guarded p body = body := if_pos hp

/-! ## The orphan queue -/

/-- The orphan queue is within its bound. -/
def OrphansBounded (c : TorrentCatalog) : Prop := c.orphanCounters.length ≤ maxOrphanCounters

theorem OrphansBounded.of_eq (hc : c.OrphansBounded) (heq : c'.orphanCounters = c.orphanCounters) :
    c'.OrphansBounded := by
  unfold OrphansBounded
  rw [heq]
  exact hc

theorem OrphansBounded.evicted (hc : c.OrphansBounded) (he : c.Evicted c' h r) :
    c'.OrphansBounded := by
  unfold OrphansBounded
  rw [he.orphanCounters]
  split
  · exact c.length_addOrphanLocked r hc
  · exact hc

/-- The operations of the crawler and fetch threads orphan an entry by evicting it only. -/
theorem orphansBounded_rules : ClientRules (fun _ _ ↦ True) (fun _ _ ↦ True)
    fun _ c ↦ c.OrphansBounded where
  quiet := fun _ _ _ _ hc ↦ hc
  reworked := fun _ _ _ _ _ _ _ hc _ hw ↦ hc.of_eq hw.queues.orphanCounters
  sighted := fun _ _ _ _ _ _ _ _ _ _ hc _ _ hq _ hs ↦
    hc.of_eq (hs.orphanCounters.trans hq.orphanCounters)
  evicted := fun _ _ _ _ _ _ hc _ _ _ he ↦ hc.evicted he
  stored := fun _ _ _ _ _ _ _ _ hc _ _ hq _ hs ↦
    hc.of_eq (hs.orphanCounters.trans hq.orphanCounters)
  dropped := fun _ c _ r rest hrep hc _ ↦ hc.of_eq (dropUnwrittenMetadataLocked_spec
    (c := { c with indexDocuments := rest, indexDropped := c.indexDropped + 1 })
    hrep.of_eq r).2.1.orphanCounters
  stable := fun _ _ _ _ _ _ _ _ ↦ trivial

/-! ### The index thread -/

theorem orphanCounters_queueDocumentLocked (c : TorrentCatalog) (r : Ref) :
    (c.queueDocumentLocked r).orphanCounters = c.orphanCounters :=
  queueDocumentLocked_induction (P := fun c' ↦ c'.orphanCounters = c.orphanCounters) c r rfl
    fun _ dropped _ _ ↦ (dropUnwrittenMetadataLocked_queues _ dropped).2.2.2.1

namespace OrphansBounded

theorem guarded (hc : c.OrphansBounded) {p : Prop} [Decidable p] {body : TorrentCatalog}
    (hbody : body.OrphansBounded) : (c.guarded p body).OrphansBounded := by
  unfold TorrentCatalog.guarded
  split
  · exact hbody
  · exact hc

/-- Taking the oldest orphan off the queue keeps the bound. -/
theorem popOrphan (hc : c.OrphansBounded) {rest : List Ref} (horphans : c.orphanCounters = r :: rest) :
    OrphansBounded { c with orphanCounters := rest } := by
  unfold OrphansBounded at hc ⊢
  rw [horphans] at hc
  exact (Nat.le_succ _).trans hc

theorem drain_rules : CounterDrainRules (fun _ c ↦ c.OrphansBounded) OrphansBounded where
  orphanTaken := fun _ _ _ _ hc horphans _ ↦ hc.popOrphan horphans
  orphanSkipped := fun _ _ _ _ hc horphans _ _ ↦ hc.popOrphan horphans
  orphanFailed := fun _ _ _ _ hc horphans _ ↦ hc.popOrphan horphans
  documentQueued := fun _ _ _ r _ hc _ _ _ ↦ hc.of_eq (orphanCounters_queueDocumentLocked _ r)
  unbasedSkipped := fun _ _ _ _ _ hc _ _ _ ↦ hc
  counterTaken := fun _ _ _ _ _ hc _ _ _ _ ↦ hc
  counterSkipped := fun _ _ _ _ _ hc _ _ _ ↦ hc
  counterFailed := fun _ _ _ _ _ hc _ _ _ ↦ hc
  failed := fun _ _ hc _ ↦ hc

theorem drainIndexCounters (hc : c.OrphansBounded) (limit : ℕ) :
    (c.drainIndexCounters limit).1.OrphansBounded :=
  (drain_rules.drainIndexCounters limit hc).elim id And.right

theorem requeueIndexCounters (snapshots : List IndexSnapshot) :
    ∀ {c : TorrentCatalog}, c.OrphansBounded → (c.requeueIndexCounters snapshots).OrphansBounded := by
  induction snapshots with
  | nil => exact fun hc ↦ hc
  | cons snapshot rest ih =>
    intro c hc
    refine ih (c := c.requeueCounterLocked snapshot) ?_
    unfold requeueCounterLocked
    split
    · exact hc
    · exact c.length_addOrphanLocked snapshot.entry hc

/-- The operations of the index thread keep the bound, too. -/
theorem apply_index (hc : c.OrphansBounded) {op : CatalogOp} (hop : op.isClient = false) :
    (c.apply op).OrphansBounded := by
  have hfold {α : Type} (f : TorrentCatalog → α → TorrentCatalog)
      (hf : ∀ c x, (f c x).orphanCounters = c.orphanCounters) (l : List α) {c : TorrentCatalog}
      (hc : c.OrphansBounded) : (l.foldl f c).OrphansBounded :=
    hc.of_eq (foldl_keeps TorrentCatalog.orphanCounters f hf l c)
  cases op with
  | enableIndexTracking maxPending checkDatabase => exact hc.guarded hc
  | drainIndexDocuments limit =>
    obtain ⟨_, _, _, -, hstate, -⟩ := c.drainDocumentsLocked_spec limit
    have hsame : (c.drainDocumentsLocked limit).1.orphanCounters = c.orphanCounters := by rw [hstate]
    exact hc.of_eq hsame
  | drainIndexCounters limit => exact hc.drainIndexCounters limit
  | requeueIndexDocuments snapshots =>
    refine hfold requeueDocumentLocked (fun c snapshot ↦ ?_) snapshots.reverse hc
    unfold requeueDocumentLocked
    split <;> rfl
  | requeueIndexCounters snapshots => exact requeueIndexCounters snapshots hc
  | markCountersWritten snapshots => exact hfold flushSnapshot (fun _ _ ↦ rfl) snapshots hc
  | setIndexBase infoHash base =>
    refine hc.guarded (hc.of_eq ?_)
    simp only [TorrentCatalog.check]
    split <;> rfl
  | markIndexWritten snapshot base =>
    refine hc.guarded (hc.of_eq ?_)
    simp only [assertInvariantsLocked, TorrentCatalog.check]
    split
    · unfold writtenLocked
      dsimp only
      split <;> rfl
    · rfl
  | setDatabaseCheck enabled =>
    simp only [apply, setDatabaseCheck]
    split
    · exact hc
    · exact hfold uncheckedLocked (fun _ _ ↦ rfl) _ (c := { c with checkDatabase := enabled }) hc
  | applyDatabaseChecks infoHashes found =>
    refine hc.guarded (hfold (applyCheckLocked found) (fun c h ↦ ?_) infoHashes hc)
    unfold applyCheckLocked
    dsimp only
    split
    · rfl
    · split
      · rfl
      · simp only [indexEntryLocked, TorrentCatalog.check]
        split
        · split <;> rfl
        · rfl
  | resetIndexBase infoHash =>
    refine hc.guarded (hc.of_eq ?_)
    simp only [assertInvariantsLocked, TorrentCatalog.check]
    split
    · unfold resetLocked
      split
      · exact orphanCounters_queueDocumentLocked _ _
      · split
        · simp only [indexEntryLocked, TorrentCatalog.check]
          split <;> rfl
        · rfl
    · rfl
  | _ => cases hop

end OrphansBounded

/-! ## The assertions of the helpers -/

theorem getOrCreateLocked_raised (hc : c.Represented ∅) (hlength : h.length = nodeIdLength)
    (hnow : 0 ≤ now) : (c.getOrCreateLocked h now).1.raised = c.raised := by
  unfold getOrCreateLocked
  cases hget : c.entries.get? h with
  | some r => exact check_raised (hc.key h r hget)
  | none =>
    have hasserts : h.length = nodeIdLength ∧ 0 ≤ now := ⟨hlength, hnow⟩
    exact check_raised hasserts

theorem addPeerLocked_raised (c : TorrentCatalog) (r : Ref) (peer : Address) :
    (c.addPeerLocked r peer).1.raised = c.raised := by
  unfold addPeerLocked
  dsimp only
  exact check_raised (Or.inr (remember_asserts _ _ _ c.limits.maxPeersPerHash_pos))

theorem addPeersLocked_raised (r : Ref) (peers : List Address) : ∀ c : TorrentCatalog,
    (c.addPeersLocked r peers).1.raised = c.raised ∧ (c.addPeersLocked r peers).2 ≤ peers.length := by
  induction peers with
  | nil => exact fun _ ↦ ⟨rfl, le_rfl⟩
  | cons peer rest ih =>
    intro c
    obtain ⟨hraised, hcount⟩ := ih (c.addPeerLocked r peer).1
    refine ⟨hraised.trans (c.addPeerLocked_raised r peer), ?_⟩
    simp only [addPeersLocked, List.length_cons]
    split <;> omega

theorem stateCounts_addPeersLocked (r : Ref) (peers : List Address) : ∀ c : TorrentCatalog,
    (c.addPeersLocked r peers).1.stateCounts = c.stateCounts := by
  induction peers with
  | nil => exact fun _ ↦ rfl
  | cons peer rest ih => exact fun c ↦ ih (c.addPeerLocked r peer).1

theorem addSightedPeer_raised (c : TorrentCatalog) (r : Ref) (peer : Option Address) :
    (c.addSightedPeer r peer).raised = c.raised := by
  cases peer with
  | none => rfl
  | some peer =>
    unfold addSightedPeer
    dsimp only
    split
    · exact c.addPeerLocked_raised r peer
    · rfl

theorem sightLocked_raised (hc : c.Represented ∅) (hlength : h.length = nodeIdLength)
    (hnow : 0 ≤ now) (source : Source) (peer : Option Address) :
    (c.sightLocked h source peer now).1.raised = c.raised := by
  unfold sightLocked
  dsimp only
  rw [indexEntryLocked_raised]
  exact (addSightedPeer_raised _ _ peer).trans (getOrCreateLocked_raised hc hlength hnow)

theorem addPeers_raised (hlength : h.length = nodeIdLength) (peers : List Address) :
    (c.addPeers h peers).1.raised = c.raised := by
  unfold addPeers
  split
  next r _ =>
    obtain ⟨hraised, hcount⟩ := addPeersLocked_raised r peers c
    dsimp only
    rw [guarded_of hlength, check_raised hcount, indexEntryLocked_raised]
    exact hraised
  next => exact congrArg raised (guarded_of hlength)

/-- The entry that fails for lack of peers was pending, so the counter of failed ones stays
positive. -/
theorem noPeersFoundLocked_raised (hcount : 0 ≤ c.stateCounts .failed) (r : Ref) (now : ℚ) :
    (c.noPeersFoundLocked r now).raised = c.raised := by
  unfold noPeersFoundLocked
  dsimp only
  split
  next hgive =>
    refine check_raised ?_
    simp only [TorrentCatalog.modify, Function.update_self, bump_apply, hgive.2]
    simpa using hcount
  next => rfl

/-! ## Evictions -/

theorem forgetKnownLocked_raised (hknown : 0 ≤ (c.forgetKnownLocked r).knownDone) :
    (c.forgetKnownLocked r).raised = c.raised := by
  unfold forgetKnownLocked
  exact check_raised hknown

theorem addOrphanLocked_raised (hc : c.OrphansBounded) :
    (c.addOrphanLocked r).raised = c.raised := by
  have hlength := c.length_addOrphanLocked r hc
  unfold addOrphanLocked
  exact check_raised hlength

theorem evictOneLocked_raised (hc : c.Represented ∅) (hbounded : c.OrphansBounded)
    (hr : c.entries.get? h = some r) (hfree : (c.heap r).isEvictable) :
    (c.evictOneLocked r).raised = c.raised := by
  have hevicted := evicted_evictOneLocked (c := c) (hc.key h r hr)
  have hknown : 0 ≤ (c.evictOneLocked r).knownDone := by
    rw [(hevicted.represented hc hr hfree).knownDone]
    exact Nat.cast_nonneg _
  refine (forgetKnownLocked_raised hknown).trans ?_
  dsimp only
  split
  · exact addOrphanLocked_raised hbounded
  · rfl

theorem length_evictionVictims_le (c : TorrentCatalog) :
    c.evictionVictims.length ≤ c.evictionCount := by
  have hscanned : c.scannedVictims.length ≤ c.evictionCount := by
    unfold scannedVictims
    exact List.length_take_le _ _
  unfold evictionVictims
  dsimp only
  split
  · rw [List.length_append]
    have htaken := length_takeFirst
      (fun r r' ↦ (c.heap r).evictionKey ≤ (c.heap r').evictionKey)
    rw [htaken]
    omega
  · exact hscanned

/-- Evictions raise nothing and leave the number of sightings alone. -/
theorem evictLocked_raised (hc : c.Represented ∅) (hbounded : c.OrphansBounded) :
    c.evictLocked.1.raised = c.raised ∧
      ∀ r, (c.evictLocked.1.heap r).seenCount = (c.heap r).seenCount := by
  obtain ⟨hnodup, hvictims⟩ := evictionVictims_spec hc
  let I := fun c' : TorrentCatalog ↦ c'.OrphansBounded ∧ c'.raised = c.raised ∧
    ∀ r, (c'.heap r).seenCount = (c.heap r).seenCount
  have hstep : ∀ (c' : TorrentCatalog) h r, c'.Represented ∅ → I c' → c'.entries.get? h = some r →
      (c'.heap r).isEvictable → True → I (c'.evictOneLocked r) := by
    rintro c' h r hrep ⟨hbounded, hraised, hseen⟩ hr hfree -
    have hevicted := evicted_evictOneLocked (c := c') (hrep.key h r hr)
    refine ⟨hbounded.evicted hevicted,
      (evictOneLocked_raised hrep hbounded hr hfree).trans hraised, fun r' ↦ ?_⟩
    rw [hevicted.heap, ← hseen r']
    by_cases heq : r' = r
    · rw [heq, Function.update_self]
    · rw [Function.update_of_ne heq]
  obtain ⟨⟨-, hraised, hseen⟩, -⟩ := foldl_evictOneLocked (I := I) (fun _ _ _ _ _ _ _ _ ↦ trivial)
    hstep c.evictionVictims hnodup hc ⟨hbounded, rfl, fun _ ↦ rfl⟩ hvictims fun _ _ ↦ trivial
  exact ⟨(check_raised c.length_evictionVictims_le).trans hraised, hseen⟩

end TorrentCatalog

/-! ## The operations -/

/-- What the operations of the crawler rely on. -/
structure Steady (limits : CatalogLimits) (c : TorrentCatalog) (F L : Finset Bytes) : Prop where
  sound : Sound limits TorrentEntry.counted c F L
  bounded : c.OrphansBounded

namespace Steady

open TorrentCatalog

variable {limits : CatalogLimits} {c : TorrentCatalog} {F L : Finset Bytes} {h : Bytes} {now : ℚ}

theorem settle (hs : Steady limits c F L) : Steady limits c.settle F L := ⟨hs.sound.settle, hs.bounded⟩

/-- A sighting raises nothing; its entry has been seen at least once. -/
theorem recordLocked (hs : Steady limits c F L) (hlength : h.length = nodeIdLength) (hnow : 0 ≤ now)
    (source : Source) (peer : Option Address) :
    Steady limits (c.recordLocked h source peer now).1 F L ∧
      (c.recordLocked h source peer now).1.raised = c.raised := by
  have hinv := counted_invariant limits ⟨false, false⟩
  have hrep := hs.sound.represented
  have hraised := sightLocked_raised hrep hlength hnow source peer
  obtain ⟨hsightedRep, mid, entry, hmid, hobtained, hqueues, -, hsighted⟩ :=
    sightLocked_spec hrep h source peer now
  have hbounded : (c.sightLocked h source peer now).1.OrphansBounded :=
    orphansBounded_rules.sighted [] c mid _ h _ source now entry hrep hs.bounded hlength hobtained
      hqueues hmid hsighted
  have hseen : 1 ≤ ((c.sightLocked h source peer now).1.heap
      (c.sightLocked h source peer now).2.1).seenCount := by
    have hcounted := (hs.sound.obtained hinv hobtained).1
    rw [hsighted.edited.entry_eq, hsighted.record.seenCount]
    exact Int.le_add_of_nonneg_left hcounted
  obtain ⟨hboundedAll, -⟩ := @ClientRules.recordLocked _ _ _ [] _ _ orphansBounded_rules hrep
    hs.bounded hlength source peer now fun _ _ _ ↦ trivial
  refine ⟨⟨hs.sound.recordLocked hinv h source peer now, hboundedAll⟩, ?_⟩
  unfold TorrentCatalog.recordLocked
  dsimp only
  split
  next =>
    obtain ⟨hevicted, hsame⟩ := evictLocked_raised hsightedRep hbounded
    exact (check_raised (by rw [hsame]; exact hseen)).trans (hevicted.trans hraised)
  next => exact (check_raised hseen).trans hraised

theorem recordEachLocked (source : Source) (hnow : 0 ≤ now) (hashes : List Bytes) :
    ∀ {c : TorrentCatalog}, Steady limits c F L → (∀ h ∈ hashes, h.length = nodeIdLength) →
      Steady limits (c.recordEachLocked source now hashes).1 F L ∧
        (c.recordEachLocked source now hashes).1.raised = c.raised ∧
          (c.recordEachLocked source now hashes).2 ≤ hashes.length := by
  induction hashes with
  | nil => exact fun hs _ ↦ ⟨hs, rfl, le_rfl⟩
  | cons first rest ih =>
    intro c hs hlength
    obtain ⟨hfirst, hraised⟩ := hs.recordLocked (hlength first List.mem_cons_self) hnow source none
    obtain ⟨hrest, hsame, hcount⟩ := ih hfirst fun h hh ↦ hlength h (List.mem_cons_of_mem _ hh)
    refine ⟨hrest, hsame.trans hraised, ?_⟩
    simp only [TorrentCatalog.recordEachLocked, List.length_cons]
    split <;> omega

theorem recordHash (hs : Steady limits c F L) (hlength : h.length = nodeIdLength) (hnow : 0 ≤ now)
    (source : Source) (peer : Option Address) :
    (c.recordHash h source peer now).1.raised = c.raised := by
  obtain ⟨hrecorded, hraised⟩ := hs.recordLocked hlength hnow source peer
  unfold TorrentCatalog.recordHash
  dsimp only
  rw [guarded_of ⟨hlength, hnow⟩, hrecorded.sound.represented.assertInvariantsLocked_raised]
  exact hraised

theorem recordHashes (hs : Steady limits c F L) {hashes : List Bytes}
    (hlength : ∀ h ∈ hashes, h.length = nodeIdLength) (hnow : 0 ≤ now) (source : Source) :
    (c.recordHashes hashes source now).1.raised = c.raised := by
  obtain ⟨hrecorded, hraised, hcount⟩ := recordEachLocked source hnow hashes hs hlength
  unfold TorrentCatalog.recordHashes
  dsimp only
  rw [guarded_of ⟨hlength, hnow⟩, check_raised hcount,
    hrecorded.sound.represented.assertInvariantsLocked_raised]
  exact hraised

theorem addLookupResult (hs : Steady limits c F L) (hlength : h.length = nodeIdLength)
    (hnow : 0 ≤ now) (peers : List Address) :
    (c.addLookupResult h peers now).raised = c.raised := by
  have hrep := hs.sound.represented
  unfold TorrentCatalog.addLookupResult
  rw [guarded_of ⟨hlength, hnow⟩]
  cases hget : c.entries.get? h with
  | none => exact hrep.assertInvariantsLocked_raised
  | some r =>
    have hcount : 0 ≤ c.stateCounts .failed := by
      rw [hrep.stateCounts]
      exact Nat.cast_nonneg _
    obtain ⟨entry, hsettled, -⟩ := settled_lookupResultLocked hrep hget peers now
    refine hsettled.represented.assertInvariantsLocked_raised.trans ?_
    unfold TorrentCatalog.lookupResultLocked
    dsimp only
    rw [indexEntryLocked_raised]
    have hadded (peers : List Address) (c : TorrentCatalog) := (addPeersLocked_raised r peers c).1
    split
    next => exact hadded _ _
    next =>
      refine (noPeersFoundLocked_raised ?_ r now).trans (hadded _ _)
      rw [stateCounts_addPeersLocked]
      exact hcount

end Steady

/-- After any permitted operations the crawler can rely on the catalog. -/
theorem Session.steady_of_leads {limits : CatalogLimits} {ops : List CatalogOp} {s : Session}
    (h : catalogMachine.Leads Permitted (.new limits) ops s) :
    Steady limits s.catalog s.fetchClaims s.lookupClaims := by
  refine catalogMachine.run_guarded_invariant
    (I := fun s ↦ Steady limits s.catalog s.fetchClaims s.lookupClaims) ?_
    ⟨new_sound, Nat.zero_le _⟩ h.along h.run
  rintro s op s' ⟨hs, hbounded⟩ hop hstep
  obtain rfl := Option.some.inj hstep
  refine ⟨s.exec_sound (counted_invariant limits _) hs op hop, ?_⟩
  cases hclient : op.isClient with
  | true =>
    exact @TorrentCatalog.ClientRules.apply _ _ _ [] _ _ _ _ TorrentCatalog.orphansBounded_rules hs
      op hclient hop (TorrentCatalog.opAllowed_of_forall (fun _ _ ↦ trivial) (fun _ _ ↦ trivial) _ _)
      hbounded
  | false => exact TorrentCatalog.OrphansBounded.apply_index (c := s.catalog.settle) hbounded hclient

end DhtScraper
