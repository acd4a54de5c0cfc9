import DhtScraper.Catalog.Custody

/-!
# Counts never become negative

The counts that a search shows are those of this run added to those of earlier ones.  As long as the
index thread passes counts of rows, which are not negative, no entry object ever holds a negative
count, whatever the threads do and in whatever order.
-/

namespace DhtScraper

open Library

/-- The bases that the operation sets are counts of rows. -/
def CatalogOp.basesCounted : CatalogOp → Prop
  | .setIndexBase _ base | .markIndexWritten _ base => 0 ≤ base.1
  | .applyDatabaseChecks _ found => ∀ item ∈ found, 0 ≤ item.2.1
  | _ => True

instance : DecidablePred CatalogOp.basesCounted
  | .setIndexBase _ base | .markIndexWritten _ base => inferInstanceAs (Decidable (0 ≤ base.1))
  | .applyDatabaseChecks _ found => inferInstanceAs (Decidable (∀ item ∈ found, 0 ≤ item.2.1))
  | .recordHash .. | .recordHashes .. | .addPeers .. | .hashesNeedingPeers .. | .releaseLookupClaim ..
  | .addLookupResult .. | .nextFetchCandidates .. | .storeMetadata .. | .markFetchFailed ..
  | .releaseFetchClaim .. | .enableIndexTracking .. | .drainIndexDocuments .. | .drainIndexCounters ..
  | .requeueIndexDocuments .. | .requeueIndexCounters .. | .markCountersWritten ..
  | .setDatabaseCheck .. | .resetIndexBase .. => inferInstanceAs (Decidable True)

structure TorrentEntry.Counted (entry : TorrentEntry) : Prop where
  seen : 0 ≤ entry.seenCount
  base : ∀ base, entry.indexBase = some base → 0 ≤ base.1

namespace TorrentEntry

theorem counted_new (h : Bytes) (now : ℚ) (checked : Bool) : (TorrentEntry.new h now checked).Counted :=
  ⟨le_rfl, fun _ hbase ↦ by cases hbase⟩

theorem Counted.of_same {entry entry' : TorrentEntry} (h : entry.Counted)
    (seenCount : entry'.seenCount = entry.seenCount)
    (indexBase : entry'.indexBase = entry.indexBase) : entry'.Counted :=
  ⟨seenCount ▸ h.seen, fun base hbase ↦ h.base base (indexBase ▸ hbase)⟩

theorem Counted.based {entry entry' : TorrentEntry} (h : entry.Counted) {base : IndexBase}
    (hbase : 0 ≤ base.1) (seenCount : entry'.seenCount = entry.seenCount)
    (indexBase : entry'.indexBase = some base) : entry'.Counted :=
  ⟨seenCount ▸ h.seen, fun found hfound ↦ by
    rw [indexBase, Option.some.injEq] at hfound
    exact hfound ▸ hbase⟩

end TorrentEntry

namespace TorrentCatalog

/-- No entry object has a negative count. -/
def Counted (c : TorrentCatalog) : Prop := ∀ r, (c.heap r).Counted

namespace Counted

variable {c c' mid : TorrentCatalog} {h : Bytes} {r : Ref} {entry : TorrentEntry}

theorem of_heap (hc : c.Counted) (heap : c'.heap = c.heap) : c'.Counted := fun r ↦ heap ▸ hc r

theorem of_update (hc : c.Counted) (heap : c'.heap = Function.update c.heap r entry)
    (hentry : entry.Counted) : c'.Counted := fun r' ↦ by
  rw [heap]
  by_cases hr : r' = r
  · rw [hr, Function.update_self]
    exact hentry
  · rw [Function.update_of_ne hr]
    exact hc r'

theorem modify (hc : c.Counted) (r : Ref) (f : TorrentEntry → TorrentEntry)
    (hf : (f (c.heap r)).Counted) : (c.modify r f).Counted := hc.of_update rfl hf

theorem based (hc : c.Counted) (r : Ref) {base : IndexBase} (hbase : 0 ≤ base.1) :
    (c.modify r fun entry ↦ { entry with indexBase := some base }).Counted :=
  hc.modify r _ ((hc r).based hbase rfl rfl)

theorem setStateLocked (hc : c.Counted) (r : Ref) (state : FetchState) :
    (c.setStateLocked r state).Counted := hc.of_update rfl ((hc r).of_same rfl rfl)

theorem indexEntryLocked (hc : c.Counted) (r : Ref) : (c.indexEntryLocked r).Counted := hc

theorem guarded (hc : c.Counted) {p : Prop} [Decidable p] (hbody : p → c'.Counted) :
    (c.guarded p c').Counted := by
  unfold TorrentCatalog.guarded
  split
  next hp => exact hbody hp
  next => exact hc

theorem foldl {α : Type} {f : TorrentCatalog → α → TorrentCatalog} {items : List α}
    (hf : ∀ item ∈ items, ∀ c : TorrentCatalog, c.Counted → (f c item).Counted) (hc : c.Counted) :
    (items.foldl f c).Counted := by
  induction items generalizing c with
  | nil => exact hc
  | cons first rest ih =>
    exact ih (fun item hitem ↦ hf item (List.mem_cons_of_mem first hitem))
      (hf first List.mem_cons_self c hc)

theorem dropUnwrittenMetadataLocked (hc : c.Counted) (r : Ref) :
    (c.dropUnwrittenMetadataLocked r).Counted := by
  unfold TorrentCatalog.dropUnwrittenMetadataLocked
  dsimp only
  split
  · split
    · have hdropped : ({ c.heap r with metadata := none, databaseChecked := true } :
          TorrentEntry).Counted := (hc r).of_same rfl rfl
      exact indexEntryLocked (setStateLocked (hc.of_update rfl hdropped) r .pending) r
    · exact hc
  · exact hc

theorem queueDocumentLocked (hc : c.Counted) (r : Ref) : (c.queueDocumentLocked r).Counted :=
  queueDocumentLocked_induction (P := TorrentCatalog.Counted) c r hc
    fun _ dropped _ _ ↦ dropUnwrittenMetadataLocked (c := { c.documentQueued r with
      indexDocuments := _
      indexDropped := _ }) hc dropped

/-! ## Crawler and fetch threads -/

theorem obtained {now : ℚ} (hc : c.Counted) (ho : c.Obtained mid h now r) : mid.Counted := by
  cases ho with
  | live hr entries heap nextRef => exact hc.of_heap heap
  | new hnone entries heap nextRef => exact hc.of_update heap (TorrentEntry.counted_new h now _)

theorem clientRules : ClientRules (fun _ _ ↦ True) (fun _ _ ↦ True) fun _ c ↦ c.Counted where
  quiet := fun _ _ _ _ hc ↦ hc
  reworked := fun _ _ _ _ r _ _ hc _ hw ↦
    hc.of_update hw.edited.heap ((hc r).of_same hw.record.seenCount hw.record.indexBase)
  sighted := fun _ _ mid _ h r source moment entry _ hc _ ho _ _ hs ↦ by
    have hmid := hc.obtained ho
    have hseen : 0 ≤ (mid.heap r).seenCount + 1 := Int.le_add_one (hmid r).seen
    exact hmid.of_update hs.edited.heap ⟨hs.record.seenCount ▸ hseen,
      fun base hbase ↦ (hmid r).base base (hs.record.indexBase ▸ hbase)⟩
  evicted := fun _ _ _ _ r _ hc _ _ _ he ↦ hc.of_update he.heap ((hc r).of_same rfl rfl)
  stored := fun _ _ mid _ r _ _ _ hc _ ho _ _ hs ↦
    (hc.obtained ho).of_update hs.edited.heap (((hc.obtained ho) r).of_same rfl rfl)
  dropped := fun _ c _ r rest _ hc _ ↦ dropUnwrittenMetadataLocked (c := { c with
    indexDocuments := rest
    indexDropped := c.indexDropped + 1 }) hc r
  stable := fun _ _ _ _ _ _ _ _ ↦ trivial

/-! ## Index thread -/

theorem drainDocumentsLocked (limit : ℕ) : ∀ {c : TorrentCatalog}, c.Counted →
    (c.drainDocumentsLocked limit).1.Counted := by
  induction limit with
  | zero => exact fun hc ↦ hc
  | succ limit ih =>
    intro c hc
    unfold TorrentCatalog.drainDocumentsLocked
    cases c.indexDocuments.popFirst with
    | none => exact hc
    | some popped =>
      dsimp only
      split
      · exact ih (c := { c with indexDocuments := popped.2 }) hc
      · exact hc

theorem drainOrphansLocked (hc : c.Counted) (orphans : List Ref) (limit : ℕ) :
    (c.drainOrphansLocked limit orphans).1.Counted := by
  induction orphans generalizing limit with
  | nil => exact hc
  | cons r rest ih =>
    unfold TorrentCatalog.drainOrphansLocked
    dsimp only
    split
    · exact hc
    · split
      · split
        · exact ih (limit - 1)
        · exact ih limit
      · exact hc

theorem drainCountersLocked (fuel : ℕ) : ∀ {c : TorrentCatalog} (limit : ℕ), c.Counted →
    (c.drainCountersLocked limit fuel).1.Counted := by
  induction fuel with
  | zero => exact fun _ hc ↦ hc
  | succ fuel ih =>
    intro c limit hc
    unfold TorrentCatalog.drainCountersLocked
    split
    · exact hc
    · cases c.indexCounters.popFirst with
      | none => exact hc
      | some popped =>
        obtain ⟨⟨key, r⟩, rest⟩ := popped
        have hpopped : ({ c with indexCounters := rest } : TorrentCatalog).Counted := hc
        dsimp only
        split
        · refine ih limit ?_
          split
          · exact queueDocumentLocked hpopped r
          · exact hpopped
        · split
          · split
            · exact ih (limit - 1) hpopped
            · exact hpopped
          · exact ih limit hpopped

theorem drainIndexCounters (hc : c.Counted) (limit : ℕ) : (c.drainIndexCounters limit).1.Counted := by
  have horphans := hc.drainOrphansLocked c.orphanCounters limit
  unfold TorrentCatalog.drainIndexCounters
  dsimp only
  split
  · exact horphans
  · exact drainCountersLocked _ _ horphans

theorem requeueCounterLocked (hc : c.Counted) (snapshot : IndexSnapshot) :
    (c.requeueCounterLocked snapshot).Counted := by
  unfold TorrentCatalog.requeueCounterLocked
  split <;> exact hc

theorem requeueDocumentLocked (hc : c.Counted) (snapshot : IndexSnapshot) :
    (c.requeueDocumentLocked snapshot).Counted := by
  unfold TorrentCatalog.requeueDocumentLocked
  split <;> exact hc

theorem flushSnapshot (hc : c.Counted) (snapshot : IndexSnapshot) :
    (c.flushSnapshot snapshot).Counted :=
  hc.modify snapshot.entry _ ((hc snapshot.entry).of_same rfl rfl)

theorem writtenLocked (hc : c.Counted) (r : Ref) (snapshot : IndexSnapshot) {base : IndexBase}
    (hbase : 0 ≤ base.1) : (c.writtenLocked r snapshot base).Counted := by
  have hbased := hc.based r hbase
  unfold TorrentCatalog.writtenLocked
  dsimp only
  split
  · exact hbased.of_update (r := r) rfl ((hbased r).of_same rfl rfl)
  · exact hbased

theorem knownLocked (hc : c.Counted) (infoHash : Bytes) (r : Ref) {base : IndexBase}
    (hbase : 0 ≤ base.1) : (c.knownLocked infoHash r base).Counted := by
  have hknown : (c.modify r fun entry ↦ { entry with
      indexBase := some base
      inDatabase := true
      peers := none
      failedPeers := none
      knownFromDatabase := true }).Counted := hc.modify r _ ((hc r).based hbase rfl rfl)
  exact setStateLocked hknown r .done

theorem applyCheckLocked (hc : c.Counted) {found : List (Bytes × IndexBase)}
    (hfound : ∀ item ∈ found, 0 ≤ item.2.1) (infoHash : Bytes) :
    (c.applyCheckLocked found infoHash).Counted := by
  unfold TorrentCatalog.applyCheckLocked
  dsimp only
  split
  · exact hc
  next r _ =>
    split
    · exact hc
    · have hchecked : ({ c with needsCheck := c.needsCheck.erase infoHash }.modify r fun entry ↦
          { entry with databaseChecked := true }).Counted := hc.of_update rfl ((hc r).of_same rfl rfl)
      refine indexEntryLocked ?_ r
      split
      next base hbase =>
        split
        · obtain ⟨before, after, hitems, -⟩ := List.lookup_eq_some_iff.mp hbase
          have hmem : (infoHash, base) ∈ found :=
            hitems ▸ List.mem_append_right before List.mem_cons_self
          exact knownLocked hchecked infoHash r (hfound _ hmem)
        · exact hchecked
      next => exact hchecked

theorem resetLocked (hc : c.Counted) (r : Ref) : (c.resetLocked r).Counted := by
  unfold TorrentCatalog.resetLocked
  split
  · exact queueDocumentLocked hc r
  · split
    · have hreset : (TorrentCatalog.forgetKnownLocked (c.modify r fun entry ↦
          { entry with inDatabase := false, databaseChecked := true }) r).Counted := by
        have hmodified : (c.modify r fun entry ↦
            { entry with inDatabase := false, databaseChecked := true }).Counted :=
          hc.modify r _ ((hc r).of_same rfl rfl)
        exact hmodified.of_update rfl ((hmodified r).of_same rfl rfl)
      refine indexEntryLocked ?_ r
      split
      · exact setStateLocked hreset r .pending
      · exact hreset
    · exact hc

theorem resetIndexBase (hc : c.Counted) (infoHash : Bytes) : (c.resetIndexBase infoHash).Counted := by
  unfold TorrentCatalog.resetIndexBase
  refine hc.guarded fun _ ↦ ?_
  cases c.entries.get? infoHash with
  | none => exact hc
  | some r =>
    let forgotten : TorrentCatalog := { c.modify r fun entry ↦
        { entry with indexBase := none, flushedSeen := 0, flushedAnnounce := 0 } with
      indexCounters := c.indexCounters.erase infoHash }
    have hforgotten : forgotten.Counted :=
      hc.of_update (r := r) rfl ⟨(hc r).seen, fun _ hbase ↦ by cases hbase⟩
    exact hforgotten.resetLocked r

theorem uncheckedLocked (hc : c.Counted) (r : Ref) : (c.uncheckedLocked r).Counted :=
  indexEntryLocked (hc.modify r _ ((hc r).of_same rfl rfl)) r

theorem setDatabaseCheck (hc : c.Counted) (enabled : Bool) : (c.setDatabaseCheck enabled).Counted := by
  have hset : ({ c with checkDatabase := enabled } : TorrentCatalog).Counted := hc.of_heap rfl
  unfold TorrentCatalog.setDatabaseCheck
  refine of_heap ?_ rfl
  split
  · exact hset
  · exact foldl (fun r _ _ h ↦ h.uncheckedLocked r) hset

theorem applyDatabaseChecks (hc : c.Counted) {found : List (Bytes × IndexBase)}
    (hfound : ∀ item ∈ found, 0 ≤ item.2.1) (infoHashes : List Bytes) :
    (c.applyDatabaseChecks infoHashes found).Counted := by
  have hchecked : (infoHashes.foldl (TorrentCatalog.applyCheckLocked found) c).Counted :=
    foldl (fun infoHash _ _ h ↦ h.applyCheckLocked hfound infoHash) hc
  unfold TorrentCatalog.applyDatabaseChecks
  exact hc.guarded fun _ ↦ hchecked.of_heap rfl

/-- Every operation. -/
theorem exec {limits : CatalogLimits} {d : Discipline} {s : Session}
    (hs : Sound limits (fun _ ↦ True) s.catalog s.fetchClaims s.lookupClaims) {op : CatalogOp}
    (hop : s.permits d op) (hbases : op.basesCounted) (hc : s.catalog.Counted) :
    (s.exec op).catalog.Counted := by
  by_cases hclient : op.isClient = true
  · have hallowed := opAllowed_of_forall (fun _ _ ↦ trivial) (fun _ _ ↦ trivial) s.catalog.settle op
    exact @ClientRules.apply _ _ _ [] _ _ _ _ clientRules hs _ hclient hop hallowed hc
  · have hsettled : s.catalog.settle.Counted := hc
    cases op with
    | enableIndexTracking maxPending checkDatabase => exact hsettled.guarded fun _ ↦ hsettled
    | drainIndexDocuments limit => exact drainDocumentsLocked limit hsettled
    | drainIndexCounters limit => exact hsettled.drainIndexCounters limit
    | requeueIndexDocuments snapshots =>
      exact foldl (fun snapshot _ _ h ↦ h.requeueDocumentLocked snapshot) hsettled
    | requeueIndexCounters snapshots =>
      exact foldl (fun snapshot _ _ h ↦ h.requeueCounterLocked snapshot) hsettled
    | markCountersWritten snapshots =>
      exact foldl (fun snapshot _ _ h ↦ h.flushSnapshot snapshot) hsettled
    | setIndexBase infoHash base =>
      refine hsettled.guarded fun _ ↦ ?_
      cases s.catalog.settle.entries.get? infoHash with
      | none => exact hsettled
      | some r => exact hsettled.based r hbases
    | markIndexWritten snapshot base =>
      refine hsettled.guarded fun _ ↦ ?_
      split
      · exact (hsettled.flushSnapshot snapshot).writtenLocked _ snapshot hbases
      · exact hsettled.flushSnapshot snapshot
    | setDatabaseCheck enabled => exact hsettled.setDatabaseCheck enabled
    | applyDatabaseChecks infoHashes found => exact hsettled.applyDatabaseChecks hbases infoHashes
    | resetIndexBase infoHash => exact hsettled.resetIndexBase infoHash
    | _ => exact absurd rfl hclient

end Counted

end TorrentCatalog

/-- What the threads of the program may call: claims are given back by their holders, and bases are
counts of rows. -/
def Lawful (s : Session) (op : CatalogOp) : Prop := Permitted s op ∧ op.basesCounted

instance (s : Session) (op : CatalogOp) : Decidable (Lawful s op) :=
  inferInstanceAs (Decidable (_ ∧ _))

namespace Session

variable {limits : CatalogLimits} {ops : List CatalogOp} {s : Session}

theorem sound_of_lawful (h : catalogMachine.Leads Lawful (.new limits) ops s) :
    Sound limits (fun _ ↦ True) s.catalog s.fetchClaims s.lookupClaims :=
  sound_of_leads ⟨h.along.imp fun _ _ hlawful ↦ hlawful.1, h.run⟩

theorem counted_of_lawful (h : catalogMachine.Leads Lawful (.new limits) ops s) :
    s.catalog.Counted := by
  have hstep (s : Session) (op : CatalogOp) (s' : Session)
      (hkept : Sound limits (fun _ ↦ True) s.catalog s.fetchClaims s.lookupClaims ∧ s.catalog.Counted)
      (hlawful : Lawful s op) (hstep : catalogMachine.step s op = some s') :
      Sound limits (fun _ ↦ True) s'.catalog s'.fetchClaims s'.lookupClaims ∧ s'.catalog.Counted := by
    obtain rfl := Option.some.inj hstep
    refine ⟨?_, hkept.2.exec hkept.1 hlawful.1 hlawful.2⟩
    exact s.exec_sound (anyEntry_invariant limits _) hkept.1 op hlawful.1
  have hstart : (Session.new limits).catalog.Counted := fun _ ↦ TorrentEntry.counted_new [] 0 true
  exact (catalogMachine.run_guarded_invariant hstep
    ⟨sound_of_leads (.refl catalogMachine Permitted (.new limits)), hstart⟩ h.along h.run).2

end Session

end DhtScraper
