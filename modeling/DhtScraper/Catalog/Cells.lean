import DhtScraper.Catalog.Claims
import Mathlib.Logic.Relation

/-!
# What an operation does to one cell of the heap

Seen from a single entry object, an operation is a short sequence of small changes.  `CellStep` lists
them for the operations that neither record a sighting nor report a failed fetch; the two others
are described by equations, since they are what the counts of the entry are about.
-/

namespace DhtScraper

open Library Relation

namespace CatalogOp

/-- The operation stores metadata of the hash. -/
def stores (h : Bytes) : CatalogOp → Bool
  | .storeMetadata metadata _ => metadata.infoHash = h
  | _ => false

def checksDatabase : CatalogOp → Bool
  | .applyDatabaseChecks .. => true
  | _ => false

def resetsBase : CatalogOp → Bool
  | .resetIndexBase .. => true
  | _ => false

/-- The operation records sightings. -/
def records : CatalogOp → Bool
  | .recordHash .. | .recordHashes .. => true
  | _ => false

/-- The operation reports a failed fetch. -/
def reportsFailure : CatalogOp → Bool
  | .markFetchFailed .. => true
  | _ => false

end CatalogOp

/-- The small changes of an entry object during an operation. -/
inductive CellStep (limits : CatalogLimits) (op : CatalogOp) :
    TorrentEntry → TorrentEntry → Prop where
  | noted {e : TorrentEntry} {lastError : String} {lookupsStarted : ℕ}
      {lookupInProgress databaseChecked knownFromDatabase : Bool} {nextLookupTime : ℚ}
      {indexBase : Option IndexBase} {flushedSeen flushedAnnounce : ℤ} :
      CellStep limits op e { e with
        lastError := lastError, lookupsStarted := lookupsStarted
        lookupInProgress := lookupInProgress, databaseChecked := databaseChecked
        knownFromDatabase := knownFromDatabase, nextLookupTime := nextLookupTime
        indexBase := indexBase, flushedSeen := flushedSeen, flushedAnnounce := flushedAnnounce }
  | peerAdded {e : TorrentEntry} (peer : Address) :
      CellStep limits op e (e.addPeer peer limits.maxPeersPerHash).1
  | gaveUp {e : TorrentEntry} (pending : e.fetchState = .pending) :
      CellStep limits op e { e with fetchState := .failed }
  | claimed {e : TorrentEntry} (pending : e.fetchState = .pending) :
      CellStep limits op e { e with fetchState := .inProgress }
  | released {e : TorrentEntry} (fetching : e.fetchState = .inProgress) :
      CellStep limits op e { e with fetchState := .pending }
  | stored {e : TorrentEntry} (metadata : TorrentMetadata) (stores : op.stores e.infoHash) :
      CellStep limits op e (TorrentCatalog.storedEntry e metadata)
  | dropped {e : TorrentEntry} (metadata : e.metadata.isSome) :
      CellStep limits op e (TorrentCatalog.droppedEntry e)
  | written {e : TorrentEntry} (metadata : e.metadata.isSome) :
      CellStep limits op e
        { e with metadata := none, inDatabase := true, peers := none, failedPeers := none }
  | known {e : TorrentEntry} (checks : op.checksDatabase) (pending : e.fetchState = .pending) :
      CellStep limits op e
        { e with inDatabase := true, peers := none, failedPeers := none, fetchState := .done }
  | reset {e : TorrentEntry} (inDatabase : e.inDatabase) :
      CellStep limits op e { e with inDatabase := false }
  | reopened {e : TorrentEntry} (resets : op.resetsBase) (done : e.fetchState = .done) :
      CellStep limits op e { e with fetchState := .pending }

namespace TorrentCatalog

/-- Nothing is created, and every cell of the heap goes through steps of the operation. -/
structure Evolved (limits : CatalogLimits) (op : CatalogOp) (c c' : TorrentCatalog) : Prop where
  nextRef : c'.nextRef = c.nextRef
  cells : ∀ r, ReflTransGen (CellStep limits op) (c.heap r) (c'.heap r)

section Evolved

variable {limits : CatalogLimits} {op : CatalogOp} {c c' c'' : TorrentCatalog} {r : Ref}
  {entry : TorrentEntry}

theorem Evolved.of_heap (hnext : c'.nextRef = c.nextRef) (hheap : c'.heap = c.heap) :
    Evolved limits op c c' :=
  ⟨hnext, fun r ↦ by rw [hheap]⟩

theorem Evolved.of_update (hnext : c'.nextRef = c.nextRef)
    (hheap : c'.heap = Function.update c.heap r entry)
    (hstep : CellStep limits op (c.heap r) entry) : Evolved limits op c c' where
  nextRef := hnext
  cells := fun r' ↦ by
    rw [hheap]
    by_cases hr : r' = r
    · rw [hr, Function.update_self]
      exact .single hstep
    · rw [Function.update_of_ne hr]

theorem Evolved.trans (h : Evolved limits op c c') (h' : Evolved limits op c' c'') :
    Evolved limits op c c'' :=
  ⟨h'.nextRef.trans h.nextRef, fun r ↦ (h.cells r).trans (h'.cells r)⟩

theorem Evolved.check (h : Evolved limits op c c') (p : Prop) [Decidable p] :
    Evolved limits op c (c'.check p) := ⟨h.nextRef, h.cells⟩

theorem Evolved.assertInvariantsLocked (h : Evolved limits op c c') :
    Evolved limits op c c'.assertInvariantsLocked := h.check _

theorem Evolved.indexEntryLocked (h : Evolved limits op c c') (r : Ref) :
    Evolved limits op c (c'.indexEntryLocked r) := ⟨h.nextRef, h.cells⟩

theorem evolved_foldl {α : Type} {f : TorrentCatalog → α → TorrentCatalog}
    (hf : ∀ c x, Evolved limits op c (f c x)) (l : List α) (c : TorrentCatalog) :
    Evolved limits op c (l.foldl f c) := by
  induction l generalizing c with
  | nil => exact .of_heap rfl rfl
  | cons x rest ih => exact (hf c x).trans (ih (f c x))

theorem evolved_guarded {p : Prop} [Decidable p] {body : TorrentCatalog}
    (hbody : p → Evolved limits op c body) : Evolved limits op c (c.guarded p body) := by
  unfold guarded
  split
  next hp => exact hbody hp
  next => exact .of_heap rfl rfl

/-! ## Crawler and fetch threads -/

theorem evolved_addPeerLocked (hlimits : c.limits = limits) (r : Ref) (peer : Address) :
    Evolved limits op c (c.addPeerLocked r peer).1 :=
  .of_update (r := r) rfl rfl (hlimits ▸ .peerAdded peer)

theorem evolved_addPeersLocked (r : Ref) (peers : List Address) (hlimits : c.limits = limits) :
    Evolved limits op c (c.addPeersLocked r peers).1 := by
  induction peers generalizing c with
  | nil => exact .of_heap rfl rfl
  | cons peer rest ih => exact (evolved_addPeerLocked hlimits r peer).trans (ih hlimits)

theorem evolved_noPeersFoundLocked (c : TorrentCatalog) (r : Ref) (now : ℚ) :
    Evolved limits op c (c.noPeersFoundLocked r now) := by
  have hretry : Evolved limits op c (c.modify r fun entry ↦
      { entry with
        nextLookupTime := now + c.limits.lookupRetrySeconds * entry.lookupsStarted }) :=
    .of_update (r := r) rfl rfl .noted
  unfold noPeersFoundLocked
  dsimp only
  split
  next hgive =>
    let retried := c.modify r fun entry ↦ { entry with
      nextLookupTime := now + c.limits.lookupRetrySeconds * entry.lookupsStarted
      lastError := "no_peers" }
    have hretried : Evolved limits op c retried := .of_update (r := r) rfl rfl .noted
    refine hretried.trans (.of_update (r := r) rfl ?_ (.gaveUp ?_))
    · simp [retried, setStateLocked, modify, TorrentCatalog.check]
    · simpa [retried, modify] using hgive.2
  next => exact hretry

theorem evolved_lookupResultLocked (hlimits : c.limits = limits) (r : Ref) (peers : List Address)
    (now : ℚ) : Evolved limits op c (c.lookupResultLocked r peers now) := by
  let ended := (c.endLookupLocked r).modify r fun entry ↦
    { entry with lookupsStarted := entry.lookupsStarted + 1 }
  have hreleased : Evolved limits op c (c.endLookupLocked r) := .of_update (r := r) rfl rfl .noted
  have hended : Evolved limits op c ended :=
    hreleased.trans (.of_update (r := r) rfl rfl .noted)
  have hadded : Evolved limits op c (ended.addPeersLocked r peers).1 :=
    hended.trans (evolved_addPeersLocked r peers hlimits)
  unfold lookupResultLocked
  dsimp only
  split
  · exact hadded.indexEntryLocked r
  · exact (hadded.trans (evolved_noPeersFoundLocked _ r now)).indexEntryLocked r

/-- Claiming fetches one after the other. -/
theorem evolved_foldl_claimFetch (chosen : List Ref) : ∀ {c : TorrentCatalog}, chosen.Nodup →
    (∀ r ∈ chosen, (c.heap r).fetchState = .pending) →
    Evolved limits op c (chosen.foldl claimFetch c) := by
  induction chosen with
  | nil => exact fun _ _ ↦ .of_heap rfl rfl
  | cons r rest ih =>
    intro c hnodup hpending
    obtain ⟨hnotin, hrest⟩ := List.nodup_cons.mp hnodup
    have hclaimed : Evolved limits op c (c.claimFetch r) :=
      .of_update (r := r) rfl rfl (.claimed (hpending r List.mem_cons_self))
    refine hclaimed.trans (ih hrest fun r' hr' ↦ ?_)
    have hother : (c.claimFetch r).heap r' = c.heap r' :=
      Function.update_of_ne (ne_of_mem_of_not_mem hr' hnotin) _ _
    rw [hother]
    exact hpending r' (List.mem_cons_of_mem _ hr')

theorem evolved_nextFetchCandidates (hrep : c.Represented ∅) (limit : ℕ) :
    Evolved limits op c (c.nextFetchCandidates limit).1 := by
  obtain ⟨hnodup, hlive⟩ := Sound.fetchCandidates_spec hrep limit
  refine (evolved_foldl_claimFetch _ hnodup fun r hr ↦ ?_).assertInvariantsLocked.check _
  obtain ⟨-, -, hready⟩ := hlive r hr
  exact (of_decide_eq_true hready).1

theorem evolved_dropUnwrittenMetadataLocked (c : TorrentCatalog) (r : Ref) :
    Evolved limits op c (c.dropUnwrittenMetadataLocked r) := by
  cases hmetadata : (c.heap r).metadata with
  | none =>
    simp only [dropUnwrittenMetadataLocked, hmetadata]
    exact .of_heap rfl rfl
  | some metadata =>
    simp only [dropUnwrittenMetadataLocked, hmetadata]
    split
    · refine .of_update (r := r) rfl ?_ (.dropped (by simp [hmetadata]))
      simp [indexEntryLocked, setStateLocked, TorrentCatalog.check, droppedEntry]
    · exact .of_heap rfl rfl

theorem evolved_queueDocumentLocked (c : TorrentCatalog) (r : Ref) :
    Evolved limits op c (c.queueDocumentLocked r) := by
  refine queueDocumentLocked_induction (P := fun c' ↦ Evolved limits op c c') c r (.of_heap rfl rfl) ?_
  intro key dropped rest _
  have hpopped : Evolved limits op c { c.documentQueued r with
      indexDocuments := rest
      indexDropped := (c.documentQueued r).indexDropped + 1 } := .of_heap rfl rfl
  exact hpopped.trans (evolved_dropUnwrittenMetadataLocked _ dropped)

theorem heap_storeLocked (c : TorrentCatalog) (r : Ref) (metadata : TorrentMetadata) :
    (c.storeLocked r metadata).heap =
      Function.update c.heap r (storedEntry (c.heap r) metadata) := by
  simp [storeLocked, indexEntryLocked, setStateLocked, forgetKnownLocked, modify,
    TorrentCatalog.check, storedEntry]

/-- Storing metadata in a live entry. -/
theorem evolved_storeMetadata {metadata : TorrentMetadata} {now : ℚ}
    (hr : c.entries.get? metadata.infoHash = some r)
    (hkey : (c.heap r).infoHash = metadata.infoHash) :
    Evolved limits (.storeMetadata metadata now) c (c.storeMetadata metadata now).1 := by
  have hfound : c.getOrCreateLocked metadata.infoHash now =
      (c.check ((c.heap r).infoHash = metadata.infoHash), r, false) := by
    simp [getOrCreateLocked, hr]
  have hstored : Evolved limits (.storeMetadata metadata now) c
      ((c.check ((c.heap r).infoHash = metadata.infoHash)).storeLocked r metadata) :=
    .of_update rfl (heap_storeLocked _ r metadata)
      (.stored metadata (by simp [CatalogOp.stores, hkey]))
  simp only [storeMetadata, hfound]
  refine evolved_guarded fun _ ↦ .assertInvariantsLocked ?_
  split
  · exact hstored.trans (evolved_queueDocumentLocked _ r)
  · exact hstored

theorem entries_storeMetadata {metadata : TorrentMetadata} {now : ℚ}
    (hr : c.entries.get? metadata.infoHash = some r) :
    (c.storeMetadata metadata now).1.entries = c.entries := by
  have hfound : c.getOrCreateLocked metadata.infoHash now =
      (c.check ((c.heap r).infoHash = metadata.infoHash), r, false) := by
    simp [getOrCreateLocked, hr]
  let stored := (c.check ((c.heap r).infoHash = metadata.infoHash)).storeLocked r metadata
  simp only [storeMetadata, hfound]
  refine entries_guarded ?_
  change (if stored.indexTracking then stored.queueDocumentLocked r else stored).entries = c.entries
  split
  · exact entries_queueDocumentLocked stored r
  · rfl

/-! ## Index thread -/

theorem evolved_drainDocumentsLocked (limit : ℕ) (c : TorrentCatalog) :
    Evolved limits op c (c.drainDocumentsLocked limit).1 := by
  induction limit generalizing c with
  | zero => exact .of_heap rfl rfl
  | succ limit ih =>
    unfold drainDocumentsLocked
    cases c.indexDocuments.popFirst with
    | none => exact .of_heap rfl rfl
    | some popped =>
      have hpopped : Evolved limits op c { c with indexDocuments := popped.2 } := .of_heap rfl rfl
      dsimp only
      split
      · exact hpopped.trans (ih _)
      · exact .of_heap rfl rfl

theorem evolved_drainOrphansLocked (orphans : List Ref) (limit : ℕ) (c : TorrentCatalog) :
    Evolved limits op c (c.drainOrphansLocked limit orphans).1 := by
  induction orphans generalizing limit with
  | nil => exact .of_heap rfl rfl
  | cons r rest ih =>
    unfold drainOrphansLocked
    dsimp only
    split
    · exact .of_heap rfl rfl
    · split
      · split
        · exact ih (limit - 1)
        · exact ih limit
      · exact .of_heap rfl rfl

theorem evolved_drainCountersLocked (fuel limit : ℕ) (c : TorrentCatalog) :
    Evolved limits op c (c.drainCountersLocked limit fuel).1 := by
  induction fuel generalizing c limit with
  | zero => exact .of_heap rfl rfl
  | succ fuel ih =>
    unfold drainCountersLocked
    split
    · exact .of_heap rfl rfl
    · cases c.indexCounters.popFirst with
      | none => exact .of_heap rfl rfl
      | some popped =>
        obtain ⟨⟨key, r⟩, rest⟩ := popped
        dsimp only
        have hpopped : Evolved limits op c { c with indexCounters := rest } := .of_heap rfl rfl
        split
        · refine .trans (hpopped.trans ?_) (ih limit _)
          split
          · exact evolved_queueDocumentLocked _ r
          · exact .of_heap rfl rfl
        · split
          · split
            · exact hpopped.trans (ih (limit - 1) _)
            · exact .of_heap rfl rfl
          · exact hpopped.trans (ih limit _)

theorem evolved_drainIndexCounters (c : TorrentCatalog) (limit : ℕ) :
    Evolved limits op c (c.drainIndexCounters limit).1 := by
  have horphans : Evolved limits op c (c.drainOrphansLocked limit c.orphanCounters).1 :=
    evolved_drainOrphansLocked c.orphanCounters limit c
  unfold drainIndexCounters
  dsimp only
  split
  · exact horphans
  · exact horphans.trans (evolved_drainCountersLocked _ _ _)

theorem evolved_writtenLocked (c : TorrentCatalog) (r : Ref) {snapshot : IndexSnapshot}
    (hmetadata : snapshot.metadata.isSome) (base : IndexBase) :
    Evolved limits op c (c.writtenLocked r snapshot base) := by
  let based := c.modify r fun entry ↦ { entry with indexBase := some base }
  have hbased : Evolved limits op c based := .of_update (r := r) rfl rfl .noted
  simp only [writtenLocked]
  split
  next hwritten =>
    refine hbased.trans (.of_update (r := r) rfl rfl (.written ?_))
    have hsome := congrArg Option.isSome hwritten
    rw [Option.isSome_map, Option.isSome_map, hmetadata] at hsome
    exact hsome
  next => exact hbased

theorem evolved_markIndexWritten (c : TorrentCatalog) (snapshot : IndexSnapshot)
    (base : IndexBase) : Evolved limits op c (c.markIndexWritten snapshot base) := by
  have hflushed : Evolved limits op c (c.flushSnapshot snapshot) :=
    .of_update (r := snapshot.entry) rfl rfl .noted
  refine evolved_guarded fun hmetadata ↦ .check (.assertInvariantsLocked ?_) _
  split
  · exact hflushed.trans (evolved_writtenLocked _ _ hmetadata base)
  · exact hflushed

theorem evolved_knownLocked (c : TorrentCatalog) (h : Bytes) (r : Ref) (base : IndexBase)
    (hchecks : op.checksDatabase) (hpending : (c.heap r).fetchState = .pending) :
    Evolved limits op c (c.knownLocked h r base) := by
  let noted := c.modify r fun entry ↦
    { entry with indexBase := some base, knownFromDatabase := true }
  have hnoted : Evolved limits op c noted := .of_update (r := r) rfl rfl .noted
  refine hnoted.trans
    (.of_update (r := r) rfl ?_ (.known hchecks (by simpa [noted, modify] using hpending)))
  simp [knownLocked, setStateLocked, modify, TorrentCatalog.check, noted]

theorem evolved_applyCheckLocked (found : List (Bytes × IndexBase)) (hchecks : op.checksDatabase)
    (c : TorrentCatalog) (h : Bytes) : Evolved limits op c (c.applyCheckLocked found h) := by
  have hpopped : Evolved limits op c { c with needsCheck := c.needsCheck.erase h } := .of_heap rfl rfl
  unfold applyCheckLocked
  dsimp only
  split
  · exact hpopped
  next r _ =>
    split
    · exact hpopped
    · have hchecked : Evolved limits op c
          ({ c with needsCheck := c.needsCheck.erase h }.modify r fun entry ↦
            { entry with databaseChecked := true }) := .of_update (r := r) rfl rfl .noted
      refine .indexEntryLocked (hchecked.trans ?_) r
      split
      · split
        next hpending => exact evolved_knownLocked _ h r _ hchecks hpending
        next => exact .of_heap rfl rfl
      · exact .of_heap rfl rfl

theorem evolved_resetLocked (hresets : op.resetsBase) (c : TorrentCatalog) (r : Ref) :
    Evolved limits op c (c.resetLocked r) := by
  unfold resetLocked
  split
  · exact evolved_queueDocumentLocked c r
  · split
    next hdatabase =>
      let reset := c.modify r fun entry ↦ { entry with inDatabase := false }
      have hreset : Evolved limits op c reset := .of_update (r := r) rfl rfl (.reset hdatabase)
      let entry : TorrentEntry :=
        { reset.heap r with databaseChecked := true, knownFromDatabase := false }
      have hforgot : Evolved limits op reset ((c.modify r fun entry ↦
          { entry with inDatabase := false, databaseChecked := true }).forgetKnownLocked r) := by
        have hnoted : CellStep limits op (reset.heap r) entry := .noted
        refine .of_update rfl ?_ hnoted
        simp only [entry, reset, forgetKnownLocked, modify, TorrentCatalog.check,
          Function.update_self, Function.update_idem]
      refine .indexEntryLocked (.trans (hreset.trans hforgot) ?_) r
      split
      next hdone => exact .of_update (r := r) rfl rfl (.reopened hresets hdone)
      next => exact .of_heap rfl rfl
    next => exact .of_heap rfl rfl

end Evolved

/-! ## Sightings -/

section Sighting

variable {c : TorrentCatalog} {P : TorrentEntry → Prop} {h : Bytes} {r : Ref}

/-- A sighted entry, with the announcing peer when its metadata is still wanted. -/
def sightedEntry (limits : CatalogLimits) (source : Source) (peer : Option Address) (moment : ℚ)
    (entry : TorrentEntry) : TorrentEntry :=
  match peer with
  | some peer =>
    if entry.fetchState ≠ .done then
      ((countSighting source moment entry).addPeer peer limits.maxPeersPerHash).1
    else countSighting source moment entry
  | none => countSighting source moment entry

theorem heap_sightLocked (c : TorrentCatalog) (k : Bytes) (source : Source)
    (peer : Option Address) (moment : ℚ) :
    let found := c.getOrCreateLocked k moment
    (c.sightLocked k source peer moment).1.nextRef = found.1.nextRef ∧
      (c.sightLocked k source peer moment).1.heap = Function.update found.1.heap found.2.1
        (sightedEntry found.1.limits source peer moment (found.1.heap found.2.1)) := by
  intro found
  cases peer with
  | none => exact ⟨rfl, rfl⟩
  | some peer =>
    by_cases hdone : (found.1.heap found.2.1).fetchState = .done
    · have hskip : (found.1.modify found.2.1 (countSighting source moment)).addSightedPeer
          found.2.1 (some peer) = found.1.modify found.2.1 (countSighting source moment) :=
        if_neg (by simp [modify, countSighting, hdone])
      have hentry : sightedEntry found.1.limits source (some peer) moment
          (found.1.heap found.2.1) = countSighting source moment (found.1.heap found.2.1) :=
        if_neg (by simp [hdone])
      simp only [sightLocked, indexEntryLocked, TorrentCatalog.check]
      rw [hentry, show (found.1.modify found.2.1 (countSighting source moment)).addSightedPeer
        found.2.1 (some peer) = _ from hskip]
      exact ⟨rfl, rfl⟩
    · have hadd : (found.1.modify found.2.1 (countSighting source moment)).addSightedPeer
          found.2.1 (some peer) = ((found.1.modify found.2.1
            (countSighting source moment)).addPeerLocked found.2.1 peer).1 :=
        if_pos (by simpa [modify, countSighting] using hdone)
      have hentry : sightedEntry found.1.limits source (some peer) moment
          (found.1.heap found.2.1) = ((countSighting source moment
            (found.1.heap found.2.1)).addPeer peer found.1.limits.maxPeersPerHash).1 :=
        if_pos hdone
      simp only [sightLocked, indexEntryLocked, TorrentCatalog.check]
      rw [hentry, show (found.1.modify found.2.1 (countSighting source moment)).addSightedPeer
        found.2.1 (some peer) = _ from hadd]
      refine ⟨rfl, ?_⟩
      simp [addPeerLocked, modify, TorrentCatalog.check]

/-- The entry object `r` has the property while it is the entry of `h`, and if it is yet to be
created it will have it then. -/
structure Upholds (P : TorrentEntry → Prop) (h : Bytes) (r : Ref) (c : TorrentCatalog) : Prop where
  live : c.entries.get? h = some r → P (c.heap r)
  fresh : c.nextRef ≤ r → ∀ now checked, P (TorrentEntry.new h now checked)

theorem Upholds.sightLocked (hu : Upholds P h r c) (hrep : c.Represented ∅) {k : Bytes}
    {source : Source} {peer : Option Address} {moment : ℚ}
    (hsighted : ∀ e, P e → P (sightedEntry c.limits source peer moment e)) :
    Upholds P h r (c.sightLocked k source peer moment).1 := by
  obtain ⟨hmid, hobtained, -, hlimits⟩ := getOrCreateLocked_spec hrep k moment
  obtain ⟨hnext, hheap⟩ := heap_sightLocked c k source peer moment
  have hentries : (c.sightLocked k source peer moment).1.entries =
      (c.getOrCreateLocked k moment).1.entries := by
    simp only [TorrentCatalog.sightLocked, TorrentCatalog.indexEntryLocked, TorrentCatalog.check]
    cases peer with
    | none => rfl
    | some peer =>
      simp only [addSightedPeer]
      split <;> rfl
  rw [hlimits] at hheap
  generalize (c.getOrCreateLocked k moment).2.1 = found at hobtained hheap
  generalize (c.getOrCreateLocked k moment).1 = mid at hmid hobtained hnext hheap hentries
  constructor
  · intro hr
    rw [hentries] at hr
    rw [hheap]
    by_cases hfound : r = found
    · subst hfound
      rw [Function.update_self]
      apply hsighted
      cases hobtained with
      | live hlive entries heap nextRef =>
        rw [entries] at hr
        rw [heap]
        exact hu.live hr
      | new hnone entries heap nextRef =>
        have hkey : h = k := hmid.live_unique (by rw [entries]; simp) hr
        rw [heap, Function.update_self, ← hkey]
        exact hu.fresh (Nat.le_refl _) _ _
    · rw [Function.update_of_ne hfound]
      cases hobtained with
      | live hlive entries heap nextRef =>
        rw [entries] at hr
        rw [heap]
        exact hu.live hr
      | new hnone entries heap nextRef =>
        rw [heap, Function.update_of_ne hfound]
        rw [entries, OrderedMap.get?_insert] at hr
        split at hr
        · exact absurd (Option.some.inj hr).symm hfound
        · exact hu.live hr
  · intro hle
    refine hu.fresh (le_trans ?_ hle)
    rw [hnext]
    cases hobtained with
    | live hlive entries heap nextRef => exact nextRef.ge
    | new hnone entries heap nextRef => exact nextRef ▸ Nat.le_succ _

theorem Upholds.evictLocked (hu : Upholds P h r c) (hrep : c.Represented ∅) :
    Upholds P h r c.evictLocked.1 := by
  refine (evictLocked_induction (I := Upholds P h r) hrep hu ?_ ?_).1
  · intro c k r' hrep hu hr' _
    have he := evicted_evictOneLocked (c := c) (hrep.key k r' hr')
    constructor
    · intro hr
      obtain ⟨hne, hlive⟩ := he.live_iff.mp hr
      rw [he.heap_other (Evicted.ne_of_live hrep hr' hne hlive)]
      exact hu.live hlive
    · rw [he.nextRef]
      exact hu.fresh
  · exact fun c n b hu ↦ ⟨hu.live, hu.fresh⟩

theorem Upholds.recordLocked (hu : Upholds P h r c) (hrep : c.Represented ∅) {k : Bytes}
    {source : Source} {peer : Option Address} {moment : ℚ}
    (hsighted : ∀ e, P e → P (sightedEntry c.limits source peer moment e)) :
    Upholds P h r (c.recordLocked k source peer moment).1 := by
  have hnext := hu.sightLocked (k := k) hrep hsighted
  simp only [TorrentCatalog.recordLocked]
  split
  · have hevicted := hnext.evictLocked (sightLocked_spec hrep k source peer moment).1
    exact ⟨hevicted.live, hevicted.fresh⟩
  · exact ⟨hnext.live, hnext.fresh⟩

end Sighting

/-! ## Failed fetches -/

section Failure

variable {c : TorrentCatalog} {r : Ref}

/-- A claimed entry after `mark_fetch_failed`. -/
def failedEntry (limits : CatalogLimits) (triedPeers : List Address) (reason : String) (now : ℚ)
    (entry : TorrentEntry) : TorrentEntry :=
  let tried : TorrentEntry := { triedPeers.foldl TorrentEntry.forgetPeer entry with
    fetchAttempts := (triedPeers.foldl TorrentEntry.forgetPeer entry).fetchAttempts + 1
    lastError := reason }
  let state := stateAfterFailure limits tried
  { tried with
    lastError :=
      if limits.maxFetchAttempts ≤ tried.fetchAttempts then tried.lastError
      else if state = .failed then "no_peers" else tried.lastError
    nextLookupTime := if state = .pending ∧ ¬ tried.hasPeers then now else tried.nextLookupTime
    fetchState := state }

theorem heap_forgetPeers (triedPeers : List Address) (c : TorrentCatalog) :
    let c' := triedPeers.foldl (fun c peer ↦ c.forgetPeerLocked r peer) c
    c'.limits = c.limits ∧ c'.heap =
      Function.update c.heap r (triedPeers.foldl TorrentEntry.forgetPeer (c.heap r)) := by
  induction triedPeers generalizing c with
  | nil => exact ⟨rfl, (Function.update_eq_self r c.heap).symm⟩
  | cons peer rest ih =>
    obtain ⟨hlimits, hheap⟩ := ih (c.forgetPeerLocked r peer)
    refine ⟨hlimits, hheap.trans ?_⟩
    simp [forgetPeerLocked, modify, TorrentCatalog.check]

theorem heap_fetchFailedLocked (c : TorrentCatalog) (r : Ref) (triedPeers : List Address)
    (reason : String) (now : ℚ) : (c.fetchFailedLocked r triedPeers reason now).heap =
      Function.update c.heap r (failedEntry c.limits triedPeers reason now (c.heap r)) := by
  obtain ⟨hlimits, hheap⟩ := heap_forgetPeers (r := r) triedPeers c
  simp only [fetchFailedLocked, indexEntryLocked, setStateLocked, modify, TorrentCatalog.check,
    hlimits, hheap, Function.update_self, Function.update_idem, failedEntry]

end Failure

end TorrentCatalog

/-! ## Operations -/

/-- Under the protocol, an operation that neither records nor reports a failure takes every entry
object through steps of its kind, and leaves the table of entries as it is. -/
theorem Session.exec_evolved {limits : CatalogLimits} {Q : TorrentEntry → Prop} {s : Session}
    (hs : Sound limits Q s.catalog s.fetchClaims s.lookupClaims) {op : CatalogOp}
    (hop : s.permits claimedStoresOnly op) (hrecords : ¬ op.records)
    (hfailure : ¬ op.reportsFailure) :
    TorrentCatalog.Evolved limits op s.catalog (s.exec op).catalog := by
  have hsettled := hs.settle
  have hlimits : s.catalog.settle.limits = limits := hs.limits
  have hsettle : TorrentCatalog.Evolved limits op s.catalog s.catalog.settle := .of_heap rfl rfl
  refine hsettle.trans ?_
  cases op with
  | recordHash | recordHashes => exact absurd rfl hrecords
  | markFetchFailed => exact absurd rfl hfailure
  | addPeers h peers =>
    simp only [exec, TorrentCatalog.apply, TorrentCatalog.addPeers]
    split
    · exact TorrentCatalog.evolved_guarded fun _ ↦
        ((TorrentCatalog.evolved_addPeersLocked _ peers hlimits).indexEntryLocked _).check _
    · exact TorrentCatalog.evolved_guarded fun _ ↦ .of_heap rfl rfl
  | hashesNeedingPeers limit now =>
    simp only [exec, TorrentCatalog.apply, TorrentCatalog.hashesNeedingPeers]
    split
    · exact TorrentCatalog.evolved_foldl (f := TorrentCatalog.claimLookup)
        (fun c r ↦ .of_update (r := r) rfl rfl .noted) _ _
    · exact .of_heap rfl rfl
  | releaseLookupClaim h =>
    refine TorrentCatalog.evolved_guarded fun _ ↦ .check ?_ _
    split
    next r _ =>
      split
      · exact .of_update (r := r) rfl rfl .noted
      · exact .of_heap rfl rfl
    next => exact .of_heap rfl rfl
  | addLookupResult h peers now =>
    refine TorrentCatalog.evolved_guarded fun _ ↦ .assertInvariantsLocked ?_
    split
    · exact TorrentCatalog.evolved_lookupResultLocked hlimits _ peers now
    · exact .of_heap rfl rfl
  | nextFetchCandidates limit =>
    exact TorrentCatalog.evolved_nextFetchCandidates hsettled.represented limit
  | storeMetadata metadata now =>
    obtain ⟨r, hr, -⟩ := hsettled.live_of_fetching (hop rfl)
    exact TorrentCatalog.evolved_storeMetadata hr (hsettled.represented.key _ r hr)
  | releaseFetchClaim h =>
    refine TorrentCatalog.evolved_guarded fun _ ↦ .assertInvariantsLocked ?_
    split
    next r _ =>
      split
      next hfetching => exact .of_update (r := r) rfl rfl (.released hfetching)
      next => exact .of_heap rfl rfl
    next => exact .of_heap rfl rfl
  | enableIndexTracking maxPending checkDatabase =>
    exact TorrentCatalog.evolved_guarded fun _ ↦ .of_heap rfl rfl
  | drainIndexDocuments limit =>
    exact TorrentCatalog.evolved_drainDocumentsLocked limit _
  | drainIndexCounters limit => exact TorrentCatalog.evolved_drainIndexCounters _ limit
  | requeueIndexDocuments snapshots =>
    refine .check (TorrentCatalog.evolved_foldl (fun c snapshot ↦ ?_) snapshots.reverse _) _
    unfold TorrentCatalog.requeueDocumentLocked
    split <;> exact .of_heap rfl rfl
  | requeueIndexCounters snapshots =>
    refine TorrentCatalog.evolved_foldl (fun c snapshot ↦ ?_) snapshots _
    unfold TorrentCatalog.requeueCounterLocked
    split <;> exact .of_heap rfl rfl
  | markCountersWritten snapshots =>
    exact .check (TorrentCatalog.evolved_foldl (f := TorrentCatalog.flushSnapshot)
      (fun c snapshot ↦ .of_update (r := snapshot.entry) rfl rfl .noted) snapshots _) _
  | setIndexBase h base =>
    refine TorrentCatalog.evolved_guarded fun _ ↦ .check ?_ _
    split
    next r _ => exact .of_update (r := r) rfl rfl .noted
    next => exact .of_heap rfl rfl
  | markIndexWritten snapshot base =>
    exact TorrentCatalog.evolved_markIndexWritten _ snapshot base
  | setDatabaseCheck enabled =>
    simp only [exec, TorrentCatalog.apply, TorrentCatalog.setDatabaseCheck]
    have hset : TorrentCatalog.Evolved limits (.setDatabaseCheck enabled) s.catalog.settle
        { s.catalog.settle with checkDatabase := enabled } := .of_heap rfl rfl
    refine .check (.assertInvariantsLocked (hset.trans ?_)) _
    split
    · exact .of_heap rfl rfl
    · exact TorrentCatalog.evolved_foldl (f := TorrentCatalog.uncheckedLocked)
        (fun c r ↦ .of_update (r := r) rfl rfl .noted) _ _
  | applyDatabaseChecks hashes found =>
    exact TorrentCatalog.evolved_guarded fun _ ↦ .check (.assertInvariantsLocked
      (TorrentCatalog.evolved_foldl (TorrentCatalog.evolved_applyCheckLocked found rfl) hashes _)) _
  | resetIndexBase h =>
    refine TorrentCatalog.evolved_guarded fun _ ↦ .assertInvariantsLocked ?_
    split
    next r _ =>
      have hunflushed : TorrentCatalog.Evolved limits (.resetIndexBase h) s.catalog.settle
          { s.catalog.settle.modify r fun entry ↦
              { entry with indexBase := none, flushedSeen := 0, flushedAnnounce := 0 } with
            indexCounters := s.catalog.settle.indexCounters.erase h } :=
        .of_update (r := r) rfl rfl .noted
      exact hunflushed.trans (TorrentCatalog.evolved_resetLocked rfl _ r)
    next => exact .of_heap rfl rfl

/-- Under the protocol, only recording changes the table of entries. -/
theorem Session.exec_entries {limits : CatalogLimits} {Q : TorrentEntry → Prop} {s : Session}
    (hs : Sound limits Q s.catalog s.fetchClaims s.lookupClaims) {op : CatalogOp}
    (hop : s.permits claimedStoresOnly op) (hrecords : ¬ op.records) :
    (s.exec op).catalog.entries = s.catalog.entries := by
  cases op with
  | recordHash | recordHashes => exact absurd rfl hrecords
  | storeMetadata metadata now =>
    obtain ⟨r, hr, -⟩ := hs.settle.live_of_fetching (hop rfl)
    exact TorrentCatalog.entries_storeMetadata hr
  | _ => exact TorrentCatalog.entries_apply s.catalog.settle rfl

/-- A permitted report of a failed fetch changes the claimed entry only. -/
theorem Session.exec_failed {limits : CatalogLimits} {Q : TorrentEntry → Prop} {s : Session}
    (hs : Sound limits Q s.catalog s.fetchClaims s.lookupClaims) {h : Bytes}
    (triedPeers : List Address) (reason : String) (now : ℚ)
    (hop : h ∈ s.fetchClaims) : ∃ r, s.catalog.entries.get? h = some r ∧
      (s.catalog.heap r).fetchState = .inProgress ∧
      (s.exec (.markFetchFailed h triedPeers reason now)).catalog.nextRef = s.catalog.nextRef ∧
      (s.exec (.markFetchFailed h triedPeers reason now)).catalog.heap =
        if h.length = nodeIdLength ∧ 0 ≤ now then Function.update s.catalog.heap r
          (TorrentCatalog.failedEntry limits triedPeers reason now (s.catalog.heap r))
        else s.catalog.heap := by
  obtain ⟨r, hr, hfetching⟩ := hs.live_of_fetching hop
  have hlive : s.catalog.settle.entries.get? h = some r := hr
  refine ⟨r, hr, hfetching, ?_⟩
  simp only [exec, TorrentCatalog.apply, TorrentCatalog.markFetchFailed, hlive,
    TorrentCatalog.guarded]
  have hnext : (s.catalog.settle.fetchFailedLocked r triedPeers reason now).nextRef =
      s.catalog.nextRef :=
    foldl_keeps TorrentCatalog.nextRef (fun c peer ↦ c.forgetPeerLocked r peer) (fun _ _ ↦ rfl)
      triedPeers s.catalog.settle
  by_cases hasserts : h.length = nodeIdLength ∧ 0 ≤ now
  · rw [if_pos hasserts, if_pos hasserts, ← hs.limits]
    exact ⟨hnext, TorrentCatalog.heap_fetchFailedLocked s.catalog.settle r triedPeers reason now⟩
  · rw [if_neg hasserts, if_neg hasserts]
    exact ⟨rfl, rfl⟩

/-- What the steps of an operation keep, an entry object keeps throughout the operation. -/
theorem Session.exec_upholds {limits : CatalogLimits} {Q P : TorrentEntry → Prop} {s : Session}
    {h : Bytes} {r : Ref} (hs : Sound limits Q s.catalog s.fetchClaims s.lookupClaims)
    (hinv : EntryInvariant limits claimedStoresOnly Q) {op : CatalogOp}
    (hop : s.permits claimedStoresOnly op) (hfailure : ¬ op.reportsFailure)
    (hsighted : ∀ source peer moment e, P e →
      P (TorrentCatalog.sightedEntry limits source peer moment e))
    (hcell : s.catalog.entries.get? h = some r → ∀ e e', CellStep limits op e e' → P e → P e')
    (hu : TorrentCatalog.Upholds P h r s.catalog) :
    TorrentCatalog.Upholds P h r (s.exec op).catalog := by
  by_cases hrecords : op.records
  · have hsettled := hs.settle
    have hus : TorrentCatalog.Upholds P h r s.catalog.settle := ⟨hu.live, hu.fresh⟩
    cases op with
    | recordHash k source peer now =>
      have hrecorded := hus.recordLocked (k := k) hsettled.represented fun e ↦
        hsettled.limits ▸ hsighted source peer now e
      simp only [exec, TorrentCatalog.apply, TorrentCatalog.recordHash, TorrentCatalog.guarded]
      split
      · exact ⟨hrecorded.live, hrecorded.fresh⟩
      · exact ⟨hu.live, hu.fresh⟩
    | recordHashes hashes source now =>
      have heach : ∀ (hashes : List Bytes) (c : TorrentCatalog),
          Sound limits Q c s.fetchClaims s.lookupClaims → TorrentCatalog.Upholds P h r c →
          TorrentCatalog.Upholds P h r (c.recordEachLocked source now hashes).1 := by
        intro hashes
        induction hashes with
        | nil => exact fun _ _ hu ↦ hu
        | cons first rest ih =>
          exact fun c hs hu ↦ ih _ (hs.recordLocked hinv first source none now)
            (hu.recordLocked hs.represented fun e ↦ hs.limits ▸ hsighted source none now e)
      have hrecorded := heach hashes _ hsettled hus
      simp only [exec, TorrentCatalog.apply, TorrentCatalog.recordHashes, TorrentCatalog.guarded]
      split
      · exact ⟨hrecorded.live, hrecorded.fresh⟩
      · exact ⟨hu.live, hu.fresh⟩
    | _ => exact absurd hrecords Bool.false_ne_true
  · have hevolved := s.exec_evolved hs hop hrecords hfailure
    have hentries := s.exec_entries hs hop hrecords
    constructor
    · intro hr
      rw [hentries] at hr
      have hsteps := hevolved.cells r
      generalize (s.exec op).catalog.heap r = e at hsteps
      induction hsteps with
      | refl => exact hu.live hr
      | tail _ hstep ih => exact hcell hr _ _ hstep ih
    · rw [hevolved.nextRef]
      exact hu.fresh

end DhtScraper
