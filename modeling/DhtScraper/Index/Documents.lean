import DhtScraper.Catalog.Queues
import DhtScraper.Index.Indexer

/-!
# The document queue

Documents join the queue at its end when metadata is stored, a base is reset or a counter without a
base is drained, and at its front when a failed batch is put back.  `_queue_document_locked` keeps the
queue within `max_pending` by dropping the oldest document, and counts the drop.
`requeue_index_documents` does not look at the bound.

The operations may be interleaved in any order, and the snapshots that were handed out may be put back
or marked at any time.
-/

namespace DhtScraper

open Library

/-- No lookup was started for the entry, and no more sightings are flushed than counted. -/
structure TorrentEntry.Plain (entry : TorrentEntry) : Prop where
  seenCount : 0 ≤ entry.seenCount
  flushedSeen : entry.flushedSeen ≤ entry.seenCount
  lookupsStarted : entry.lookupsStarted = 0
  lookupInProgress : entry.lookupInProgress = false

theorem TorrentEntry.plain_new (h : Bytes) (now : ℚ) (checked : Bool) :
    (TorrentEntry.new h now checked).Plain := ⟨le_rfl, le_rfl, rfl, rfl⟩

namespace TorrentCatalog

/-- Entry objects are only added, and keep their hashes. -/
structure Continues (c c' : TorrentCatalog) : Prop where
  nextRef : c.nextRef ≤ c'.nextRef
  infoHash : ∀ r < c.nextRef, (c'.heap r).infoHash = (c.heap r).infoHash

/-- Every queued document still has its metadata and waits under the hash of its entry. -/
structure Waiting (c : TorrentCatalog) : Prop where
  documents : ∀ h r, c.indexDocuments.get? h = some r →
    r < c.nextRef ∧ (c.heap r).infoHash = h ∧ (c.heap r).metadata.isSome
  orphans : ∀ r ∈ c.orphanCounters, r < c.nextRef
  entry : ∀ r, (c.heap r).Plain

/-- If `r` is still the live entry of `h`, its torrent waits to be fetched again. -/
def Reopened (c : TorrentCatalog) (h : Bytes) (r : Ref) : Prop :=
  c.entries.get? h = some r → (c.heap r).fetchState = .pending ∧ (c.heap r).metadata = none ∧
    (c.heap r).databaseChecked

/-- Documents joined the queue at its end and left it at its front, and what left was dropped and
counted. -/
def Shifted (c c' : TorrentCatalog) : Prop :=
  ∃ queued dropped : List (Bytes × Ref),
    c.indexDocuments.items ++ queued = dropped ++ c'.indexDocuments.items ∧
    c'.indexDropped = c.indexDropped + dropped.length ∧
    ∀ item ∈ dropped, c'.Reopened item.1 item.2

variable {c c' c'' mid : TorrentCatalog} {h : Bytes} {r : Ref} {entry : TorrentEntry}

theorem Continues.refl (c : TorrentCatalog) : c.Continues c := ⟨le_rfl, fun _ _ ↦ rfl⟩

theorem Continues.trans (hc : c.Continues c') (hc' : c'.Continues c'') : c.Continues c'' where
  nextRef := hc.nextRef.trans hc'.nextRef
  infoHash := fun r hr ↦ (hc'.infoHash r (hr.trans_le hc.nextRef)).trans (hc.infoHash r hr)

theorem Edited.continues (he : c.Edited c' h r entry) (hkey : (c.heap r).infoHash = h) :
    c.Continues c' where
  nextRef := he.nextRef.ge
  infoHash := fun r' _ ↦ by
    by_cases hr' : r' = r
    · rw [hr', he.key, hkey]
    · rw [he.heap, Function.update_of_ne hr']

theorem Obtained.continues {now : ℚ} (ho : c.Obtained mid h now r) : c.Continues mid := by
  cases ho with
  | live hr entries heap nextRef => exact ⟨nextRef.ge, fun r' _ ↦ by rw [heap]⟩
  | new hnone entries heap nextRef =>
    refine ⟨by rw [nextRef]; exact Nat.le_succ _, fun r' hr' ↦ ?_⟩
    rw [heap, Function.update_of_ne (Nat.ne_of_lt hr')]

theorem Evicted.continues (he : c.Evicted c' h r) : c.Continues c' where
  nextRef := he.nextRef.ge
  infoHash := fun r' _ ↦ by
    rw [he.heap]
    by_cases hr' : r' = r
    · rw [hr', Function.update_self]
    · rw [Function.update_of_ne hr']

theorem Shifted.trans (hs : c.Shifted c') (hs' : c'.Shifted c'')
    (hkept : ∀ h r, c'.Reopened h r → c''.Reopened h r) : c.Shifted c'' := by
  obtain ⟨queued, dropped, hitems, hcount, hreopened⟩ := hs
  obtain ⟨queued', dropped', hitems', hcount', hreopened'⟩ := hs'
  refine ⟨queued ++ queued', dropped ++ dropped', ?_, ?_, fun item hitem ↦ ?_⟩
  · rw [← List.append_assoc, hitems, List.append_assoc, hitems', List.append_assoc]
  · rw [hcount', hcount, List.length_append, Nat.add_assoc]
  · rcases List.mem_append.mp hitem with hold | hnew
    · exact hkept _ _ (hreopened item hold)
    · exact hreopened' item hnew

/-- Nothing happened to the document queue and to the count of drops. -/
theorem Shifted.of_same (hdocuments : c'.indexDocuments = c.indexDocuments)
    (hdropped : c'.indexDropped = c.indexDropped) : c.Shifted c' :=
  ⟨[], [], by rw [hdocuments]; simp, by rw [hdropped]; rfl, fun _ hitem ↦ by cases hitem⟩

/-! ## Small changes -/

theorem Waiting.of_same (hw : c.Waiting) (heap : c'.heap = c.heap) (nextRef : c'.nextRef = c.nextRef)
    (documents : ∀ h r, c'.indexDocuments.get? h = some r → c.indexDocuments.get? h = some r)
    (orphans : ∀ r ∈ c'.orphanCounters, r ∈ c.orphanCounters) : c'.Waiting where
  documents := fun h r hr ↦ by
    rw [heap, nextRef]
    exact hw.documents h r (documents h r hr)
  orphans := fun r hr ↦ nextRef ▸ hw.orphans r (orphans r hr)
  entry := fun r ↦ by rw [heap]; exact hw.entry r

/-- Fields that the queue does not depend on change. -/
theorem Waiting.of_eq (hw : c.Waiting) {limits : CatalogLimits}
    {entries fetched fetchable needsLookup needsCheck indexCounters : OrderedMap Bytes Ref}
    {stateCounts : FetchState → ℤ}
    {observations discovered evicted indexMaxPending indexDropped : ℕ}
    {lookupsInProgress metadataBytes knownDone : ℤ} {indexTracking checkDatabase raised : Bool} :
    { c with
      limits := limits, entries := entries, fetched := fetched, fetchable := fetchable
      needsLookup := needsLookup, needsCheck := needsCheck, stateCounts := stateCounts
      observations := observations, discovered := discovered, evicted := evicted
      lookupsInProgress := lookupsInProgress, indexTracking := indexTracking
      indexMaxPending := indexMaxPending, indexCounters := indexCounters
      indexDropped := indexDropped, checkDatabase := checkDatabase
      metadataBytes := metadataBytes, knownDone := knownDone, raised := raised }.Waiting :=
  hw.of_same rfl rfl (fun _ _ hr ↦ hr) fun _ hr ↦ hr

/-- An edited entry keeps its metadata as long as it is queued. -/
theorem Waiting.edited (hw : c.Waiting) (he : c.Edited c' h r entry)
    (hkey : (c.heap r).infoHash = h) (hplain : entry.Plain)
    (documents : ∀ k r', c'.indexDocuments.get? k = some r' →
      c.indexDocuments.get? k = some r' ∧
        (r' = r → (c.heap r).metadata.isSome → entry.metadata.isSome))
    (orphans : c'.orphanCounters = c.orphanCounters) : c'.Waiting where
  documents := fun k r' hr' ↦ by
    obtain ⟨hold, hkeeps⟩ := documents k r' hr'
    obtain ⟨halloc, howner, hmeta⟩ := hw.documents k r' hold
    refine ⟨by rw [he.nextRef]; exact halloc, ?_⟩
    by_cases heq : r' = r
    · subst heq
      rw [he.entry_eq, he.infoHash]
      exact ⟨hkey.symm.trans howner, hkeeps rfl hmeta⟩
    · rw [he.heap, Function.update_of_ne heq]
      exact ⟨howner, hmeta⟩
  orphans := fun r' hr' ↦ by
    rw [he.nextRef]
    exact hw.orphans r' (orphans ▸ hr')
  entry := fun r' ↦ by
    rw [he.heap]
    by_cases heq : r' = r
    · rw [heq, Function.update_self]
      exact hplain
    · rw [Function.update_of_ne heq]
      exact hw.entry r'

theorem Waiting.obtained (hw : c.Waiting) {now : ℚ} (ho : c.Obtained mid h now r)
    (hq : c.QueuesKept mid) : mid.Waiting := by
  cases ho with
  | live hr entries heap nextRef =>
    exact hw.of_same heap nextRef (fun _ _ hr ↦ hq.indexDocuments ▸ hr)
      fun _ hr ↦ hq.orphanCounters ▸ hr
  | new hnone entries heap nextRef =>
    have hold {r : Ref} (hr : r < c.nextRef) : mid.heap r = c.heap r := by
      rw [heap, Function.update_of_ne (Nat.ne_of_lt hr)]
    constructor
    · intro k r hr
      rw [hq.indexDocuments] at hr
      obtain ⟨halloc, howner, hmeta⟩ := hw.documents k r hr
      rw [hold halloc, nextRef]
      exact ⟨halloc.trans (Nat.lt_succ_self _), howner, hmeta⟩
    · intro r hr
      rw [hq.orphanCounters] at hr
      rw [nextRef]
      exact (hw.orphans r hr).trans (Nat.lt_succ_self _)
    · intro r
      rw [heap]
      by_cases hr : r = c.nextRef
      · rw [hr, Function.update_self]
        exact TorrentEntry.plain_new h now _
      · rw [Function.update_of_ne hr]
        exact hw.entry r

theorem Waiting.evicted (hw : c.Waiting) (hr : r < c.nextRef) (he : c.Evicted c' h r) :
    c'.Waiting := by
  have hsame (r' : Ref) : (c'.heap r').infoHash = (c.heap r').infoHash ∧
      (c'.heap r').metadata = (c.heap r').metadata ∧ (c'.heap r').Plain := by
    rw [he.heap]
    have hplain := hw.entry r'
    by_cases hr' : r' = r
    · subst hr'
      rw [Function.update_self]
      exact ⟨rfl, rfl, hplain.seenCount, hplain.flushedSeen, hplain.lookupsStarted,
        hplain.lookupInProgress⟩
    · rw [Function.update_of_ne hr']
      exact ⟨rfl, rfl, hplain⟩
  constructor
  · intro k r' hr'
    rw [he.indexDocuments] at hr'
    obtain ⟨hinfoHash, hmetadata, -⟩ := hsame r'
    rw [he.nextRef, hinfoHash, hmetadata]
    exact hw.documents k r' hr'
  · intro r' hr'
    rw [he.nextRef]
    have hmem : r' ∈ c.orphanCounters ++ [r] := by
      rw [he.orphanCounters] at hr'
      split at hr'
      · exact (c.addOrphanLocked_sublist r).subset hr'
      · exact List.mem_append_left _ hr'
    rcases List.mem_append.mp hmem with hold | hnew
    · exact hw.orphans r' hold
    · rw [List.mem_singleton.mp hnew]
      exact hr
  · exact fun r' ↦ (hsame r').2.2

/-! ## Queueing a document -/

/-- The document of a live entry that still has its metadata is dropped for good. -/
theorem reopened_dropUnwrittenMetadataLocked (hrep : c.Represented ∅)
    (hmeta : (c.heap r).metadata.isSome) (hkey : (c.heap r).infoHash = h) :
    (c.dropUnwrittenMetadataLocked r).Reopened h r := by
  obtain ⟨-, -, ⟨b, hsame⟩ | ⟨k, -, -, hedited⟩⟩ := dropUnwrittenMetadataLocked_spec hrep r
  · intro hlive
    rw [show c.dropUnwrittenMetadataLocked r = _ from hsame] at hlive
    have hdone := hrep.stored_done h r hlive hmeta
    obtain ⟨metadata, hmetadata⟩ := Option.isSome_iff_exists.mp hmeta
    have hheap : (c.dropUnwrittenMetadataLocked r).heap r = droppedEntry (c.heap r) := by
      simp only [dropUnwrittenMetadataLocked, hmetadata]
      rw [if_pos ⟨by rw [hkey]; exact hlive, hdone⟩]
      simp [indexEntryLocked, setStateLocked, TorrentCatalog.check, droppedEntry]
    rw [hheap]
    exact ⟨rfl, rfl, rfl⟩
  · intro _
    rw [show (c.dropUnwrittenMetadataLocked r).heap r = _ from hedited.entry_eq]
    exact ⟨rfl, rfl, rfl⟩

/-- What was reopened has no metadata to drop. -/
theorem Reopened.dropUnwrittenMetadataLocked {k : Bytes} {r' : Ref} (hreopened : c.Reopened k r')
    (hrep : c.Represented ∅) (r : Ref) : (c.dropUnwrittenMetadataLocked r).Reopened k r' := by
  obtain ⟨-, -, ⟨b, hsame⟩ | ⟨h, -, hmeta, hedited⟩⟩ := dropUnwrittenMetadataLocked_spec hrep r
  · rw [show c.dropUnwrittenMetadataLocked r = _ from hsame]
    exact hreopened
  · intro hlive
    rw [hedited.entries] at hlive
    have hne : r' ≠ r := by
      rintro rfl
      rw [(hreopened hlive).2.1] at hmeta
      cases hmeta
    rw [hedited.heap, Function.update_of_ne hne]
    exact hreopened hlive

/-- What `_queue_document_locked` does to the queue. -/
structure DocumentQueued (c c' : TorrentCatalog) : Prop where
  waiting : c'.Waiting
  represented : c'.Represented ∅
  continues : c.Continues c'
  shifted : c.Shifted c'
  reopened : ∀ h r, c.Reopened h r → c'.Reopened h r
  indexMaxPending : c'.indexMaxPending = c.indexMaxPending
  bounded : c.indexDocuments.size ≤ c.indexMaxPending → c'.indexDocuments.size ≤ c.indexMaxPending

theorem Waiting.documentQueued (hw : c.Waiting) (hr : r < c.nextRef)
    (hmeta : (c.heap r).metadata.isSome) : (c.documentQueued r).Waiting where
  documents := fun k r' hr' ↦ by
    rcases OrderedMap.get?_setDefault_cases hr' with hold | ⟨rfl, rfl⟩
    · exact hw.documents k r' hold
    · exact ⟨hr, rfl, hmeta⟩
  orphans := hw.orphans
  entry := hw.entry

theorem items_setDefault {m : OrderedMap Bytes Ref} (k : Bytes) (r : Ref) :
    ∃ queued, (m.setDefault k r).items = m.items ++ queued := by
  unfold OrderedMap.setDefault
  split
  · exact ⟨[], by simp⟩
  next habsent =>
    have hnone : m.get? k = none := by simpa [OrderedMap.contains] using habsent
    exact ⟨[(k, r)], by simp only [OrderedMap.insertLast, OrderedMap.erase_eq_self hnone]⟩

/-- The oldest document of a queue that one document joined is dropped. -/
theorem Waiting.dropped (hw : mid.Waiting) (hrep : mid.Represented ∅) (hs : c.Shifted mid)
    (hc : c.Continues mid) (hkept : ∀ h r, c.Reopened h r → mid.Reopened h r)
    (hmax : mid.indexMaxPending = c.indexMaxPending)
    (hsize : mid.indexDocuments.size ≤ c.indexDocuments.size + 1) {key : Bytes}
    {rest : OrderedMap Bytes Ref} (hpop : mid.indexDocuments.popFirst = some ((key, r), rest)) :
    c.DocumentQueued ({ mid with
      indexDocuments := rest
      indexDropped := mid.indexDropped + 1 }.dropUnwrittenMetadataLocked r) := by
  let popped : TorrentCatalog := { mid with
    indexDocuments := rest
    indexDropped := mid.indexDropped + 1 }
  obtain ⟨hfirst, hrest⟩ := OrderedMap.get?_of_popFirst hpop
  have hitems : mid.indexDocuments.items = (key, r) :: rest.items :=
    OrderedMap.items_of_popFirst hpop
  obtain ⟨halloc, hkey, hmeta⟩ := hw.documents key r hfirst
  have hpoppedRep : popped.Represented ∅ := hrep.of_eq
  obtain ⟨hnext, hqueues, hcases⟩ := dropUnwrittenMetadataLocked_spec hpoppedRep r
  have hother {k : Bytes} {r' : Ref} (hr' : rest.get? k = some r') :
      mid.indexDocuments.get? k = some r' ∧ r' ≠ r := by
    rw [hrest] at hr'
    split at hr'
    next => cases hr'
    next hne =>
      refine ⟨hr', fun heq ↦ hne ?_⟩
      rw [← (hw.documents k r' hr').2.1, heq, hkey]
  have hpopped : popped.Waiting :=
    hw.of_same rfl rfl (fun _ _ hr' ↦ (hother hr').1) fun _ hr' ↦ hr'
  have hwaiting : (popped.dropUnwrittenMetadataLocked r).Waiting ∧
      mid.Continues (popped.dropUnwrittenMetadataLocked r) := by
    rcases hcases with ⟨b, hsame⟩ | ⟨h, hlive, -, hedited⟩
    · rw [show popped.dropUnwrittenMetadataLocked r = _ from hsame]
      exact ⟨hpopped.of_eq, ⟨le_rfl, fun _ _ ↦ rfl⟩⟩
    · have hself := hpoppedRep.key h r hlive
      have hplain := hpopped.entry r
      refine ⟨hpopped.edited hedited hself
        ⟨hplain.seenCount, hplain.flushedSeen, hplain.lookupsStarted, hplain.lookupInProgress⟩
        (fun k r' hr' ↦ ?_) hqueues.orphanCounters, (hedited.continues hself).nextRef,
        (hedited.continues hself).infoHash⟩
      rw [hqueues.indexDocuments] at hr'
      exact ⟨hr', fun heq ↦ absurd heq (hother hr').2⟩
  have hshifted : mid.Shifted (popped.dropUnwrittenMetadataLocked r) := by
    refine ⟨[], [(key, r)], ?_, ?_, fun item hitem ↦ ?_⟩
    · rw [hqueues.indexDocuments, hitems]
      simp [popped]
    · rw [hqueues.indexDropped]
      rfl
    · rw [List.mem_singleton.mp hitem]
      exact reopened_dropUnwrittenMetadataLocked hpoppedRep hmeta hkey
  have hreopened (h : Bytes) (r' : Ref) (ho : mid.Reopened h r') :
      (popped.dropUnwrittenMetadataLocked r).Reopened h r' :=
    Reopened.dropUnwrittenMetadataLocked (c := popped) ho hpoppedRep r
  exact
    { waiting := hwaiting.1
      represented := hnext
      continues := hc.trans hwaiting.2
      shifted := hs.trans hshifted hreopened
      reopened := fun h r' ho ↦ hreopened h r' (hkept h r' ho)
      indexMaxPending := hqueues.indexMaxPending.trans hmax
      bounded := fun hbounded ↦ by
        rw [hqueues.indexDocuments]
        simp only [OrderedMap.size, hitems, List.length_cons] at hsize hbounded ⊢
        change rest.items.length ≤ _
        omega }

theorem Waiting.queueDocumentLocked (hw : c.Waiting) (hrep : c.Represented ∅) (hr : r < c.nextRef)
    (hmeta : (c.heap r).metadata.isSome) : c.DocumentQueued (c.queueDocumentLocked r) := by
  have hqueued := hw.documentQueued hr hmeta
  have hqueuedRep := hrep.documentQueued r
  obtain ⟨queued, hitems⟩ := items_setDefault (m := c.indexDocuments) (c.heap r).infoHash r
  have hjoined : c.Shifted (c.documentQueued r) :=
    ⟨queued, [], hitems.symm, rfl, fun _ hitem ↦ by cases hitem⟩
  have hsize : (c.documentQueued r).indexDocuments.size ≤ c.indexDocuments.size + 1 := by
    simp only [TorrentCatalog.documentQueued, OrderedMap.setDefault]
    split
    · exact Nat.le_succ _
    · exact OrderedMap.size_insertLast_le _ _ _
  rw [queueDocumentLocked_eq]
  split
  next hfull =>
    rw [TorrentCatalog.dropOldestDocument]
    split
    next key dropped rest hpop =>
      exact hqueued.dropped hqueuedRep hjoined ⟨le_rfl, fun _ _ ↦ rfl⟩ (fun _ _ ho ↦ ho) rfl hsize
        hpop
    next hempty =>
      have hzero : (c.documentQueued r).indexDocuments.items = [] :=
        OrderedMap.popFirst_eq_none_iff.mp hempty
      rw [OrderedMap.size, hzero] at hfull
      exact absurd hfull.2 (Nat.not_lt_zero _)
  next hroom =>
    exact
      { waiting := hqueued
        represented := hqueuedRep
        continues := ⟨le_rfl, fun _ _ ↦ rfl⟩
        shifted := hjoined
        reopened := fun _ _ ho ↦ ho
        indexMaxPending := rfl
        bounded := fun hbounded ↦ by
          by_cases hpresent : c.indexDocuments.contains (c.heap r).infoHash
          · rw [TorrentCatalog.documentQueued]
            simp only [OrderedMap.setDefault, hpresent, if_true]
            exact hbounded
          · rw [not_and] at hroom
            exact not_lt.mp (hroom (by simpa using hpresent)) }

/-! ## Recording -/

/-- The queue is as it was. -/
structure DocumentsKept (c c' : TorrentCatalog) : Prop where
  waiting : c'.Waiting
  continues : c.Continues c'
  indexDocuments : c'.indexDocuments = c.indexDocuments
  indexMaxPending : c'.indexMaxPending = c.indexMaxPending

theorem DocumentsKept.refl (hw : c.Waiting) : c.DocumentsKept c := ⟨hw, .refl c, rfl, rfl⟩

theorem DocumentsKept.trans (hk : c.DocumentsKept c') (hk' : c'.DocumentsKept c'') :
    c.DocumentsKept c'' where
  waiting := hk'.waiting
  continues := hk.continues.trans hk'.continues
  indexDocuments := hk'.indexDocuments.trans hk.indexDocuments
  indexMaxPending := hk'.indexMaxPending.trans hk.indexMaxPending

theorem DocumentsKept.raised (hk : c.DocumentsKept c') (n : ℕ) (b : Bool) :
    c.DocumentsKept { c' with evicted := n, raised := b } :=
  ⟨hk.waiting.of_eq, ⟨hk.continues.nextRef, hk.continues.infoHash⟩, hk.indexDocuments,
    hk.indexMaxPending⟩

theorem Waiting.obtainedKept (hw : c.Waiting) {now : ℚ} (ho : c.Obtained mid h now r)
    (hq : c.QueuesKept mid) : c.DocumentsKept mid :=
  ⟨hw.obtained ho hq, ho.continues, hq.indexDocuments, hq.indexMaxPending⟩

theorem Waiting.sighted (hw : mid.Waiting) {source : Source} {moment : ℚ}
    (hkey : (mid.heap r).infoHash = h) (hs : mid.Sighted c' h r source moment entry) :
    mid.DocumentsKept c' := by
  have hplain := hw.entry r
  have hentry : entry.Plain := by
    constructor
    · rw [hs.record.seenCount]
      exact Int.le_add_one hplain.seenCount
    · rw [hs.record.seenCount, hs.record.flushedSeen]
      exact Int.le_add_one hplain.flushedSeen
    · exact hs.lookupsStarted.trans hplain.lookupsStarted
    · exact hs.lookupInProgress.trans hplain.lookupInProgress
  refine ⟨hw.edited hs.edited hkey hentry (fun k r' hr' ↦ ⟨hs.indexDocuments ▸ hr', ?_⟩)
    hs.orphanCounters, hs.edited.continues hkey, hs.indexDocuments, hs.indexMaxPending⟩
  rintro - hmeta
  rw [hs.record.metadata]
  exact hmeta

theorem Waiting.recordLocked (hw : c.Waiting) (hrep : c.Represented ∅) (h : Bytes) (source : Source)
    (peer : Option Address) (moment : ℚ) :
    c.DocumentsKept (c.recordLocked h source peer moment).1 := by
  obtain ⟨hsightedRep, mid, entry, hmid, hobtained, hqueues, -, hsighted⟩ :=
    sightLocked_spec hrep h source peer moment
  have hobtainedKept := hw.obtainedKept hobtained hqueues
  have hkept := hobtainedKept.trans
    (hobtainedKept.waiting.sighted (hmid.key h _ hobtained.entry_live) hsighted)
  unfold TorrentCatalog.recordLocked
  dsimp only
  split
  next =>
    refine DocumentsKept.raised ?_ _ _
    refine (evictLocked_induction (I := fun c' ↦ c.DocumentsKept c') hsightedRep hkept ?_
      fun c' n b hk ↦ hk.raised n b).1
    intro c' k r hrep' hk hr hfree
    have hevicted := evicted_evictOneLocked (c := c') (hrep'.key k r hr)
    exact hk.trans ⟨hk.waiting.evicted (hrep'.allocated k r hr) hevicted, hevicted.continues,
      hevicted.indexDocuments, hevicted.indexMaxPending⟩
  next => exact hkept.raised _ _

/-! ## Storing -/

theorem DocumentsKept.shifted (hk : c.DocumentsKept mid) (hdropped : mid.indexDropped = c.indexDropped)
    (hs : mid.Shifted c') : c.Shifted c' := by
  obtain ⟨queued, dropped, hitems, hcount, hreopened⟩ := hs
  exact ⟨queued, dropped, hk.indexDocuments ▸ hitems, hdropped ▸ hcount, hreopened⟩

/-- What an operation that may queue documents does. -/
structure DocumentsShifted (c c' : TorrentCatalog) : Prop where
  waiting : c'.Waiting
  continues : c.Continues c'
  shifted : c.Shifted c'
  indexMaxPending : c'.indexMaxPending = c.indexMaxPending
  bounded : c.indexDocuments.size ≤ c.indexMaxPending → c'.indexDocuments.size ≤ c.indexMaxPending

theorem DocumentsKept.documentsShifted (hk : c.DocumentsKept c')
    (hdropped : c'.indexDropped = c.indexDropped) : c.DocumentsShifted c' where
  waiting := hk.waiting
  continues := hk.continues
  shifted := .of_same hk.indexDocuments hdropped
  indexMaxPending := hk.indexMaxPending
  bounded := fun hbounded ↦ by
    rw [hk.indexDocuments]
    exact hbounded

theorem DocumentsKept.queued (hk : c.DocumentsKept mid) (hdropped : mid.indexDropped = c.indexDropped)
    (hq : mid.DocumentQueued c') : c.DocumentsShifted c' where
  waiting := hq.waiting
  continues := hk.continues.trans hq.continues
  shifted := hk.shifted hdropped hq.shifted
  indexMaxPending := hq.indexMaxPending.trans hk.indexMaxPending
  bounded := fun hbounded ↦ by
    rw [← hk.indexMaxPending]
    exact hq.bounded (by rw [hk.indexDocuments, hk.indexMaxPending]; exact hbounded)

theorem DocumentsShifted.raised (hs : c.DocumentsShifted c') (b : Bool) :
    c.DocumentsShifted { c' with raised := b } :=
  ⟨hs.waiting.of_eq, ⟨hs.continues.nextRef, hs.continues.infoHash⟩, hs.shifted, hs.indexMaxPending,
    hs.bounded⟩

theorem Waiting.storeMetadata (hw : c.Waiting) (hrep : c.Represented ∅) (metadata : TorrentMetadata)
    (now : ℚ) : c.DocumentsShifted (c.storeMetadata metadata now).1 := by
  obtain ⟨hmid, hobtained, hqueues, -⟩ := getOrCreateLocked_spec hrep metadata.infoHash now
  let mid := (c.getOrCreateLocked metadata.infoHash now).1
  let r := (c.getOrCreateLocked metadata.infoHash now).2.1
  obtain ⟨hedited, hstoredRep, hkept⟩ := storeLocked_spec hmid hobtained.entry_live metadata
  let stored := mid.storeLocked r metadata
  have hkey := hmid.key _ r hobtained.entry_live
  have hobtainedKept := hw.obtainedKept hobtained hqueues
  have hplain := hobtainedKept.waiting.entry r
  have hstored : c.DocumentsKept stored := hobtainedKept.trans
    ⟨hobtainedKept.waiting.edited hedited hkey
      ⟨hplain.seenCount, hplain.flushedSeen, hplain.lookupsStarted, hplain.lookupInProgress⟩
      (fun k r' hr' ↦ ⟨hkept.indexDocuments ▸ hr', fun _ _ ↦ rfl⟩) hkept.orphanCounters,
      hedited.continues hkey, hkept.indexDocuments, hkept.indexMaxPending⟩
  have hdropped : stored.indexDropped = c.indexDropped := hkept.indexDropped.trans hqueues.indexDropped
  have hmeta : (stored.heap r).metadata.isSome := by
    rw [show stored.heap r = _ from hedited.entry_eq]
    rfl
  have halloc : r < stored.nextRef := by
    rw [hedited.nextRef]
    exact hmid.allocated _ _ hobtained.entry_live
  have hnext : c.DocumentsShifted
      (if stored.indexTracking then stored.queueDocumentLocked r else stored) := by
    split
    · exact hstored.queued hdropped (hstored.waiting.queueDocumentLocked hstoredRep halloc hmeta)
    · exact hstored.documentsShifted hdropped
  unfold TorrentCatalog.storeMetadata guarded
  dsimp only
  split
  · exact hnext.raised _
  · exact (DocumentsKept.refl hw).documentsShifted rfl |>.raised _

/-! ## Draining -/

/-- The snapshot was taken of the entry it names. -/
def Describes (c : TorrentCatalog) (snapshot : IndexSnapshot) : Prop :=
  snapshot.entry < c.nextRef ∧ (c.heap snapshot.entry).infoHash = snapshot.infoHash

theorem Continues.describes (hc : c.Continues c') {snapshot : IndexSnapshot}
    (hs : c.Describes snapshot) : c'.Describes snapshot :=
  ⟨hs.1.trans_le hc.nextRef, (hc.infoHash _ hs.1).trans hs.2⟩

/-- The drained documents leave the front of the queue, and the drain never fails. -/
theorem Waiting.drainIndexDocuments (hw : c.Waiting) (hquiet : c.raised = false) (limit : ℕ) :
    let drained := c.drainIndexDocuments limit
    drained.1.Waiting ∧ c.Continues drained.1 ∧ (∀ snapshot ∈ drained.2, drained.1.Describes snapshot) ∧
      c.indexDocuments.items = (drained.2.map fun snapshot ↦ (snapshot.infoHash, snapshot.entry)) ++
        drained.1.indexDocuments.items ∧
      drained.1.indexDropped = c.indexDropped ∧ drained.1.indexMaxPending = c.indexMaxPending := by
  intro drained
  obtain ⟨taken, rest, b, hsplit, hstate, hbatch, hraised⟩ := c.drainDocumentsLocked_spec limit
  have hwaits {item : Bytes × Ref} (hitem : item ∈ c.indexDocuments.items) :
      item.2 < c.nextRef ∧ (c.heap item.2).infoHash = item.1 ∧ (c.heap item.2).metadata.isSome :=
    hw.documents item.1 item.2 (OrderedMap.get?_eq_some_iff.mpr hitem)
  have hb : b = false := by
    by_contra hfailed
    rcases hraised (by simpa using hfailed) with hold | ⟨item, hitem, hfail⟩
    · rw [hquiet] at hold
      cases hold
    · have hasserts : indexSnapshotAsserts (c.heap item.2) := by
        simp only [indexSnapshotAsserts, decide_eq_true_eq]
        exact ⟨Or.inl (hwaits hitem).2.2, (hw.entry item.2).flushedSeen⟩
      rw [hfail] at hasserts
      cases hasserts
  have hcatalog : drained.1 = { c with indexDocuments := rest, raised := b } := hstate
  have htaken : drained.2 = taken.map fun item ↦ indexSnapshot item.2 (c.heap item.2) := by
    have hpicked : drained.2 = if (c.drainDocumentsLocked limit).1.raised then []
        else (c.drainDocumentsLocked limit).2 := rfl
    rw [hpicked, hstate, hb, if_neg Bool.false_ne_true]
    exact hbatch hb
  have htakenMem {item : Bytes × Ref} (hitem : item ∈ taken) : item ∈ c.indexDocuments.items := by
    rw [hsplit]
    exact List.mem_append_left _ hitem
  rw [hcatalog, htaken]
  refine ⟨hw.of_same rfl rfl (fun k r hr ↦ ?_) fun _ hr ↦ hr, ⟨le_rfl, fun _ _ ↦ rfl⟩,
    fun snapshot hsnapshot ↦ ?_, ?_, rfl, rfl⟩
  · exact (OrderedMap.get?_eq_some_iff_of_items hsplit).mpr (Or.inr hr)
  · obtain ⟨item, hitem, rfl⟩ := List.mem_map.mp hsnapshot
    exact ⟨(hwaits (htakenMem hitem)).1, rfl⟩
  · rw [hsplit, List.map_map]
    refine congrArg (· ++ rest.items)
      ((List.map_congr_left fun item hitem ↦ ?_).trans (List.map_id taken)).symm
    exact Prod.ext (hwaits (htakenMem hitem)).2.1 rfl

/-- A counter without a base becomes a document; the other drained entries have nothing to do with
the document queue. -/
theorem DocumentsShifted.drainRules (c : TorrentCatalog) : CounterDrainRules
    (fun batch c' ↦ c'.Represented ∅ ∧ c.DocumentsShifted c' ∧
      ∀ snapshot ∈ batch, c'.Describes snapshot)
    fun c' ↦ c.DocumentsShifted c' := by
  have hsame {c' c'' : TorrentCatalog} (hs : c.DocumentsShifted c') (heap : c''.heap = c'.heap)
      (nextRef : c''.nextRef = c'.nextRef) (entries : c''.entries = c'.entries)
      (documents : c''.indexDocuments = c'.indexDocuments)
      (orphans : ∀ r ∈ c''.orphanCounters, r ∈ c'.orphanCounters)
      (dropped : c''.indexDropped = c'.indexDropped)
      (maxPending : c''.indexMaxPending = c'.indexMaxPending) : c.DocumentsShifted c'' := by
    obtain ⟨queued, left, hitems, hcount, hreopened⟩ := hs.shifted
    refine ⟨hs.waiting.of_same heap nextRef (fun _ _ hr ↦ documents ▸ hr) orphans,
      ⟨nextRef ▸ hs.continues.nextRef, heap ▸ hs.continues.infoHash⟩,
      ⟨queued, left, documents ▸ hitems, dropped ▸ hcount, fun item hitem ↦ ?_⟩,
      maxPending.trans hs.indexMaxPending, documents ▸ hs.bounded⟩
    have hold := hreopened item hitem
    rw [Reopened, heap, entries]
    exact hold
  have htake {c' : TorrentCatalog} {batch : List IndexSnapshot} {r : Ref} (hr : r < c'.nextRef)
      (hbatch : ∀ snapshot ∈ batch, c'.Describes snapshot) :
      ∀ snapshot ∈ batch ++ [indexSnapshot r (c'.heap r)], c'.Describes snapshot := by
    intro snapshot hsnapshot
    rcases List.mem_append.mp hsnapshot with hold | hnew
    · exact hbatch snapshot hold
    · rw [List.mem_singleton.mp hnew]
      exact ⟨hr, rfl⟩
  have hpopOrphan {c' : TorrentCatalog} {r : Ref} {rest : List Ref}
      (horphans : c'.orphanCounters = r :: rest) : ∀ r' ∈ rest, r' ∈ c'.orphanCounters := by
    intro r' hr'
    rw [horphans]
    exact List.mem_cons_of_mem _ hr'
  have hpopCounter {c' : TorrentCatalog} {k : Bytes} {r : Ref} {rest : OrderedMap Bytes Ref}
      (hrep : c'.Represented ∅) (hpop : c'.indexCounters.popFirst = some ((k, r), rest)) :
      { c' with indexCounters := rest }.Represented ∅ ∧ r < c'.nextRef := by
    obtain ⟨hfirst, hrest⟩ := OrderedMap.get?_of_popFirst hpop
    refine ⟨hrep.of_counters fun k' r' hr' ↦ Or.inl ?_,
      hrep.allocated k r (hrep.counters_live k r hfirst)⟩
    rw [hrest] at hr'
    split at hr'
    · cases hr'
    · exact hr'
  constructor
  case orphanTaken =>
    rintro batch c' r rest ⟨hrep, hs, hbatch⟩ horphans -
    have hr : r < c'.nextRef := hs.waiting.orphans r (by rw [horphans]; exact List.mem_cons_self)
    exact ⟨hrep.of_eq, hsame hs rfl rfl rfl rfl (hpopOrphan horphans) rfl rfl, htake hr hbatch⟩
  case orphanSkipped =>
    rintro batch c' r rest ⟨hrep, hs, hbatch⟩ horphans - -
    exact ⟨hrep.of_eq, hsame hs rfl rfl rfl rfl (hpopOrphan horphans) rfl rfl, hbatch⟩
  case orphanFailed =>
    rintro batch c' r rest ⟨hrep, hs, hbatch⟩ horphans -
    exact hsame hs rfl rfl rfl rfl (hpopOrphan horphans) rfl rfl
  case documentQueued =>
    rintro batch c' k r rest ⟨hrep, hs, hbatch⟩ hpop - hmeta
    obtain ⟨hpoppedRep, hr⟩ := hpopCounter hrep hpop
    have hpopped : c.DocumentsShifted { c' with indexCounters := rest } :=
      hsame hs rfl rfl rfl rfl (fun _ hr ↦ hr) rfl rfl
    have hq := hpopped.waiting.queueDocumentLocked hpoppedRep hr hmeta
    refine ⟨hq.represented, ?_,
      fun snapshot hsnapshot ↦ hq.continues.describes (hbatch snapshot hsnapshot)⟩
    exact
      { waiting := hq.waiting
        continues := hpopped.continues.trans hq.continues
        shifted := hpopped.shifted.trans hq.shifted hq.reopened
        indexMaxPending := hq.indexMaxPending.trans hpopped.indexMaxPending
        bounded := fun hbounded ↦
          (hq.bounded ((hpopped.bounded hbounded).trans hpopped.indexMaxPending.ge)).trans
            hpopped.indexMaxPending.le }
  case unbasedSkipped =>
    rintro batch c' k r rest ⟨hrep, hs, hbatch⟩ hpop - -
    exact ⟨(hpopCounter hrep hpop).1, hsame hs rfl rfl rfl rfl (fun _ hr ↦ hr) rfl rfl, hbatch⟩
  case counterTaken =>
    rintro batch c' k r rest ⟨hrep, hs, hbatch⟩ hpop - - -
    obtain ⟨hpoppedRep, hr⟩ := hpopCounter hrep hpop
    exact ⟨hpoppedRep, hsame hs rfl rfl rfl rfl (fun _ hr ↦ hr) rfl rfl, htake hr hbatch⟩
  case counterSkipped =>
    rintro batch c' k r rest ⟨hrep, hs, hbatch⟩ hpop - -
    exact ⟨(hpopCounter hrep hpop).1, hsame hs rfl rfl rfl rfl (fun _ hr ↦ hr) rfl rfl, hbatch⟩
  case counterFailed =>
    rintro batch c' k r rest ⟨hrep, hs, hbatch⟩ hpop - -
    exact hsame hs rfl rfl rfl rfl (fun _ hr ↦ hr) rfl rfl
  case failed => exact fun batch c' hs _ ↦ hs.2.1

theorem Waiting.drainIndexCounters (hw : c.Waiting) (hrep : c.Represented ∅) (limit : ℕ) :
    c.DocumentsShifted (c.drainIndexCounters limit).1 ∧
      ∀ snapshot ∈ (c.drainIndexCounters limit).2,
        (c.drainIndexCounters limit).1.Describes snapshot := by
  have hstart : c.DocumentsShifted c := (DocumentsKept.refl hw).documentsShifted rfl
  rcases (DocumentsShifted.drainRules c).drainIndexCounters limit
    ⟨hrep, hstart, fun _ hsnapshot ↦ by cases hsnapshot⟩ with ⟨-, hs, hbatch⟩ | ⟨hempty, hs⟩
  · exact ⟨hs, hbatch⟩
  · rw [hempty]
    exact ⟨hs, fun _ hsnapshot ↦ by cases hsnapshot⟩

/-! ## Putting a batch back -/

/-- The hashes of the batch that have no document in the queue. -/
def missingHashes (c : TorrentCatalog) (snapshots : List IndexSnapshot) : List Bytes :=
  ((snapshots.map IndexSnapshot.infoHash).filter fun h ↦ ¬ c.indexDocuments.contains h).dedup

theorem items_requeueDocuments (c : TorrentCatalog) (snapshots : List IndexSnapshot) :
    ∃ back, (c.requeueIndexDocuments snapshots).indexDocuments.items = back ++ c.indexDocuments.items ∧
      ∀ item ∈ back, ∃ snapshot ∈ snapshots, item = (snapshot.infoHash, snapshot.entry) := by
  have hfold : ∃ back, (snapshots.reverse.foldl requeueDocumentLocked c).indexDocuments.items =
      back ++ c.indexDocuments.items ∧
      ∀ item ∈ back, ∃ snapshot ∈ snapshots, item = (snapshot.infoHash, snapshot.entry) := by
    rw [List.foldl_reverse]
    induction snapshots with
    | nil => exact ⟨[], rfl, fun _ hitem ↦ by cases hitem⟩
    | cons first rest ih =>
      obtain ⟨back, hitems, hback⟩ := ih
      rw [List.foldr_cons]
      set mid := rest.foldr (fun snapshot c ↦ requeueDocumentLocked c snapshot) c
      have hrest : ∀ item ∈ back, ∃ snapshot ∈ first :: rest,
          item = (snapshot.infoHash, snapshot.entry) := fun item hitem ↦ by
        obtain ⟨snapshot, hsnapshot, heq⟩ := hback item hitem
        exact ⟨snapshot, List.mem_cons_of_mem _ hsnapshot, heq⟩
      by_cases hqueued : mid.indexDocuments.contains first.infoHash
      · rw [requeueDocumentLocked, if_pos hqueued]
        exact ⟨back, hitems, hrest⟩
      · have hnone : mid.indexDocuments.get? first.infoHash = none := by
          simpa [OrderedMap.contains] using hqueued
        rw [requeueDocumentLocked, if_neg hqueued]
        refine ⟨(first.infoHash, first.entry) :: back, ?_, fun item hitem ↦ ?_⟩
        · simp only [OrderedMap.insertFirst, OrderedMap.erase_eq_self hnone, hitems, List.cons_append]
        · rcases List.mem_cons.mp hitem with rfl | hmem
          · exact ⟨first, List.mem_cons_self, rfl⟩
          · exact hrest item hmem
  exact hfold

/-- The queue grows by one document for every hash of the batch that had none. -/
theorem size_requeueIndexDocuments (c : TorrentCatalog) (snapshots : List IndexSnapshot) :
    (c.requeueIndexDocuments snapshots).indexDocuments.size =
      c.indexDocuments.size + (c.missingHashes snapshots).length := by
  obtain ⟨back, hitems, hback⟩ := c.items_requeueDocuments snapshots
  obtain ⟨documents, b, hstate, -, -, hall⟩ := c.requeueIndexDocuments_spec snapshots
  have hnodup := (c.requeueIndexDocuments snapshots).indexDocuments.nodup
  rw [hitems, List.map_append] at hnodup
  obtain ⟨hbackNodup, -, hdisjoint⟩ := List.nodup_append.mp hnodup
  have hperm : (back.map Prod.fst).Perm (c.missingHashes snapshots) := by
    rw [missingHashes, List.perm_ext_iff_of_nodup hbackNodup (List.nodup_dedup _)]
    intro h
    simp only [List.mem_dedup, List.mem_filter, List.mem_map, decide_eq_true_eq]
    constructor
    · rintro ⟨item, hitem, rfl⟩
      obtain ⟨snapshot, hsnapshot, rfl⟩ := hback item hitem
      refine ⟨⟨snapshot, hsnapshot, rfl⟩, fun hcontains ↦ ?_⟩
      exact hdisjoint _ (List.mem_map_of_mem hitem) _ (OrderedMap.get?_isSome_iff.mp hcontains) rfl
    · rintro ⟨⟨snapshot, hsnapshot, rfl⟩, habsent⟩
      have hpresent := hall snapshot hsnapshot
      rw [show documents = (c.requeueIndexDocuments snapshots).indexDocuments by rw [hstate],
        OrderedMap.get?_isSome_iff, OrderedMap.keys, hitems, List.map_append] at hpresent
      rcases List.mem_append.mp hpresent with hnew | hold
      · exact List.mem_map.mp hnew
      · exact absurd (OrderedMap.get?_isSome_iff.mpr hold) habsent
  rw [OrderedMap.size, hitems, List.length_append, Nat.add_comm, ← hperm.length_eq, List.length_map]
  rfl

theorem Waiting.requeueIndexDocuments (hw : c.Waiting) {snapshots : List IndexSnapshot}
    (hdescribed : ∀ snapshot ∈ snapshots, c.Describes snapshot)
    (hmeta : ∀ snapshot ∈ snapshots, (c.heap snapshot.entry).metadata.isSome) :
    (c.requeueIndexDocuments snapshots).Waiting ∧ c.Continues (c.requeueIndexDocuments snapshots) := by
  obtain ⟨documents, b, hstate, -, hnew, -⟩ := c.requeueIndexDocuments_spec snapshots
  rw [hstate]
  refine ⟨⟨fun k r hr ↦ ?_, hw.orphans, hw.entry⟩, ⟨le_rfl, fun _ _ ↦ rfl⟩⟩
  rcases hnew k r hr with hold | ⟨-, snapshot, hsnapshot, rfl, rfl⟩
  · exact hw.documents k r hold
  · obtain ⟨halloc, hkey⟩ := hdescribed snapshot hsnapshot
    exact ⟨halloc, hkey, hmeta snapshot hsnapshot⟩

/-! ## Marking and resetting -/

theorem Waiting.flushSnapshot (hw : c.Waiting) {snapshot : IndexSnapshot}
    (hflushed : (c.heap snapshot.entry).flushedSeen + snapshot.seenDelta ≤
      (c.heap snapshot.entry).seenCount) : c.DocumentsKept (c.flushSnapshot snapshot) := by
  have hself (r : Ref) : ((c.flushSnapshot snapshot).heap r).infoHash = (c.heap r).infoHash ∧
      ((c.flushSnapshot snapshot).heap r).metadata = (c.heap r).metadata ∧
      ((c.flushSnapshot snapshot).heap r).Plain := by
    have hplain := hw.entry r
    by_cases hr : r = snapshot.entry
    · subst hr
      simp only [TorrentCatalog.flushSnapshot, modify, Function.update_self]
      exact ⟨trivial, trivial, hplain.seenCount, hflushed, hplain.lookupsStarted,
        hplain.lookupInProgress⟩
    · simp only [TorrentCatalog.flushSnapshot, modify, Function.update_of_ne hr]
      exact ⟨trivial, trivial, hplain⟩
  refine ⟨⟨fun k r hr ↦ ?_, hw.orphans, fun r ↦ (hself r).2.2⟩,
    ⟨le_rfl, fun r _ ↦ (hself r).1⟩, rfl, rfl⟩
  rw [(hself r).1, (hself r).2.1]
  exact hw.documents k r hr

/-- `mark_index_written` for the live entry takes its document out of the queue. -/
theorem Waiting.markIndexWritten (hw : c.Waiting) (hrep : c.Represented ∅) {snapshot : IndexSnapshot}
    (hflushed : snapshot.metadata.isSome → (c.heap snapshot.entry).flushedSeen + snapshot.seenDelta ≤
      (c.heap snapshot.entry).seenCount) (base : IndexBase) :
    (c.markIndexWritten snapshot base).Waiting ∧
      c.Continues (c.markIndexWritten snapshot base) ∧
      (c.markIndexWritten snapshot base).indexDropped = c.indexDropped ∧
      (c.markIndexWritten snapshot base).indexMaxPending = c.indexMaxPending ∧
      (c.markIndexWritten snapshot base).indexDocuments =
        if snapshot.metadata.isSome ∧ c.entries.get? snapshot.infoHash = some snapshot.entry ∧
            isWritten (c.heap snapshot.entry) snapshot then
          c.indexDocuments.erase snapshot.infoHash
        else c.indexDocuments := by
  unfold TorrentCatalog.markIndexWritten guarded
  dsimp only
  by_cases hmeta : snapshot.metadata.isSome
  · rw [if_pos hmeta]
    have hkept := hw.flushSnapshot (hflushed hmeta)
    have hflushedRep := hrep.flushSnapshot snapshot
    have hself : ((c.flushSnapshot snapshot).heap snapshot.entry).metadata =
        (c.heap snapshot.entry).metadata := by
      simp [TorrentCatalog.flushSnapshot, modify]
    by_cases hlive : c.entries.get? snapshot.infoHash = some snapshot.entry
    · have hlive' : (c.flushSnapshot snapshot).entries.get? snapshot.infoHash = some snapshot.entry :=
        hlive
      obtain ⟨-, hwritten⟩ := writtenLocked_spec hflushedRep hlive' hmeta base
      have hmaxPending : ((c.flushSnapshot snapshot).writtenLocked snapshot.entry snapshot
          base).indexMaxPending = c.indexMaxPending := by
        simp only [writtenLocked]
        split <;> rfl
      have hkey := hflushedRep.key _ _ hlive'
      have hplain := hkept.waiting.entry snapshot.entry
      have hentry :
          (writtenEntry ((c.flushSnapshot snapshot).heap snapshot.entry) snapshot base).Plain := by
        unfold writtenEntry
        split
        · exact ⟨hplain.seenCount, hplain.flushedSeen, hplain.lookupsStarted, hplain.lookupInProgress⟩
        · exact ⟨hplain.seenCount, hplain.flushedSeen, hplain.lookupsStarted, hplain.lookupInProgress⟩
      have hnext := hkept.waiting.edited hwritten.edited hkey hentry (fun k r' hr' ↦ ?_)
        hwritten.orphanCounters
      · have hcontinues := hkept.continues.trans (hwritten.edited.continues hkey)
        rw [if_pos hlive]
        refine ⟨hnext.of_eq, ⟨hcontinues.nextRef, hcontinues.infoHash⟩, hwritten.indexDropped,
          hmaxPending, ?_⟩
        have hiff : isWritten ((c.flushSnapshot snapshot).heap snapshot.entry) snapshot ↔
            isWritten (c.heap snapshot.entry) snapshot := by
          rw [isWritten, isWritten, hself]
        simp only [hmeta, hlive, true_and]
        rw [← if_congr hiff rfl rfl]
        exact hwritten.indexDocuments
      · rw [hwritten.indexDocuments] at hr'
        split at hr'
        next =>
          rw [OrderedMap.get?_erase] at hr'
          split at hr'
          next => cases hr'
          next hne =>
            refine ⟨hr', fun heq ↦ absurd ?_ hne⟩
            rw [← (hkept.waiting.documents k r' hr').2.1, heq, hkey]
        next hother =>
          refine ⟨hr', fun _ hm ↦ ?_⟩
          rw [writtenEntry, if_neg hother]
          exact hm
    · rw [if_neg hlive]
      refine ⟨hkept.waiting.of_eq, ⟨hkept.continues.nextRef, hkept.continues.infoHash⟩, rfl, rfl, ?_⟩
      simp only [hlive, false_and, and_false, if_false]
      rfl
  · rw [if_neg hmeta]
    refine ⟨hw.of_eq, ⟨le_rfl, fun _ _ ↦ rfl⟩, rfl, rfl, ?_⟩
    simp only [hmeta]
    rfl

theorem indexMaxPending_resetLocked (c : TorrentCatalog) (r : Ref) :
    (c.resetLocked r).indexMaxPending = c.indexMaxPending := by
  unfold resetLocked
  split
  · exact queueDocumentLocked_induction (P := fun c' ↦ c'.indexMaxPending = c.indexMaxPending) c r rfl
      fun key dropped rest _ ↦ (dropUnwrittenMetadataLocked_queues _ dropped).2.2.2.2
  · split
    · simp only [indexEntryLocked, TorrentCatalog.check]
      split <;> rfl
    · rfl

/-- A reset entry that still has its metadata is queued again. -/
theorem Waiting.resetIndexBase (hw : c.Waiting) (hrep : c.Represented ∅) (h : Bytes) :
    c.DocumentsShifted (c.resetIndexBase h) := by
  have hkept : c.DocumentsShifted c := (DocumentsKept.refl hw).documentsShifted rfl
  unfold TorrentCatalog.resetIndexBase guarded
  split
  next hlength =>
    refine DocumentsShifted.raised ?_ _
    cases hget : c.entries.get? h with
    | none => exact hkept
    | some r =>
      dsimp only
      obtain ⟨mid, hedited, hmidRep, -, -, hdocuments, horphans, hdropped, -, heq⟩ :=
        resetLocked_spec hrep hget
      have hkey := hrep.key h r hget
      have hmaxPending := indexMaxPending_resetLocked { c.modify r fun entry ↦
          { entry with indexBase := none, flushedSeen := 0, flushedAnnounce := 0 } with
        indexCounters := c.indexCounters.erase h } r
      have hplain := hw.entry r
      have hentry : (resetEntry (c.heap r)).Plain := by
        unfold resetEntry
        dsimp only
        split
        · exact ⟨hplain.seenCount, hplain.seenCount, hplain.lookupsStarted, hplain.lookupInProgress⟩
        · exact ⟨hplain.seenCount, hplain.seenCount, hplain.lookupsStarted, hplain.lookupInProgress⟩
      have hmeta : (resetEntry (c.heap r)).metadata = (c.heap r).metadata := by
        unfold resetEntry
        dsimp only
        split <;> rfl
      have hmid : mid.Waiting := hw.edited hedited hkey hentry
        (fun k r' hr' ↦ ⟨hdocuments ▸ hr', fun _ hm ↦ by rw [hmeta]; exact hm⟩) horphans
      rw [heq] at hmaxPending ⊢
      split
      next hstored =>
        rw [if_pos hstored] at hmaxPending
        have hqueued := hmid.queueDocumentLocked hmidRep (r := r)
          (by rw [hedited.nextRef]; exact hrep.allocated h r hget)
          (by rw [hedited.entry_eq, hmeta]; exact hstored)
        exact DocumentsKept.queued ⟨hmid, hedited.continues hkey, hdocuments,
          hqueued.indexMaxPending.symm.trans hmaxPending⟩ hdropped hqueued
      next hreleased =>
        rw [if_neg hreleased] at hmaxPending
        exact DocumentsKept.documentsShifted ⟨hmid, hedited.continues hkey, hdocuments, hmaxPending⟩
          hdropped
  next => exact hkept.raised _

/-! ## What happens to a document -/

/-- If `r` is still the live entry of `h`, its torrent is pending again and back in the fetch or lookup
index. -/
def Refetchable (c : TorrentCatalog) (h : Bytes) (r : Ref) : Prop :=
  c.entries.get? h = some r → (c.heap r).fetchState = .pending ∧ (c.heap r).metadata = none ∧
    (c.fetchable.get? h = some r ∨ c.needsLookup.get? h = some r)

/-- Without lookups there is nothing to go back to for an entry without peers. -/
theorem Reopened.indexed_iff (ho : c.Reopened h r) (hrep : c.Represented ∅)
    (hplain : (c.heap r).Plain) (hlive : c.entries.get? h = some r) :
    c.fetchable.get? h = some r ∨ c.needsLookup.get? h = some r ↔
      (c.heap r).hasPeers ∨ 1 ≤ c.limits.maxLookups := by
  obtain ⟨hpending, -, hchecked⟩ := ho hlive
  rw [hrep.fetchable h (Set.notMem_empty h), hrep.needsLookup h (Set.notMem_empty h),
    liveWhere_eq_some_iff, liveWhere_eq_some_iff]
  by_cases hpeers : (c.heap r).hasPeers
  · refine iff_of_true (Or.inl ⟨hlive, ?_⟩) (Or.inl hpeers)
    simp [TorrentEntry.readyToFetch, hpending, hchecked, hpeers]
  · rw [or_iff_right hpeers, or_iff_right]
    · simp [hlive, TorrentEntry.awaitsLookup, hpending, hchecked, hpeers, hplain.lookupInProgress,
        hplain.lookupsStarted, Nat.pos_iff_ne_zero, Nat.one_le_iff_ne_zero]
    · rintro ⟨-, hready⟩
      simp [TorrentEntry.readyToFetch, hpeers] at hready

theorem Reopened.refetchable (ho : c.Reopened h r) (hrep : c.Represented ∅) (hplain : (c.heap r).Plain)
    (hlookups : 1 ≤ c.limits.maxLookups) : c.Refetchable h r := fun hlive ↦
  ⟨(ho hlive).1, (ho hlive).2.1, (ho.indexed_iff hrep hplain hlive).mpr (Or.inr hlookups)⟩

/-- The snapshots that an operation hands out. -/
def handsOut (c : TorrentCatalog) : CatalogOp → List IndexSnapshot
  | .drainIndexDocuments limit => (c.drainIndexDocuments limit).2
  | .drainIndexCounters limit => (c.drainIndexCounters limit).2
  | _ => []

/-- Documents leave the queue by being drained, by being written, or by a drop that is counted; a
dropped torrent has to be fetched again.  New documents join at the end, and a batch that is put back
at the front. -/
def DocumentsAccounted (c c' : TorrentCatalog) : CatalogOp → Prop
  | .recordHash .. => c'.indexDocuments = c.indexDocuments
  | .drainIndexDocuments limit =>
    c.indexDocuments.items =
      ((c.handsOut (.drainIndexDocuments limit)).map fun snapshot ↦
          (snapshot.infoHash, snapshot.entry)) ++
        c'.indexDocuments.items ∧
    c'.indexDropped = c.indexDropped
  | .requeueIndexDocuments snapshots =>
    (∃ back, c'.indexDocuments.items = back ++ c.indexDocuments.items ∧
      ∀ item ∈ back, ∃ snapshot ∈ snapshots, item = (snapshot.infoHash, snapshot.entry)) ∧
    c'.indexDropped = c.indexDropped
  | .markIndexWritten snapshot _ =>
    (c'.indexDocuments.items = c.indexDocuments.items ∨
      c'.indexDocuments.items =
        c.indexDocuments.items.filter fun item ↦ item ≠ (snapshot.infoHash, snapshot.entry)) ∧
    c'.indexDropped = c.indexDropped
  | _ => ∃ queued dropped : List (Bytes × Ref),
    c.indexDocuments.items ++ queued = dropped ++ c'.indexDocuments.items ∧
    c'.indexDropped = c.indexDropped + dropped.length ∧
    ∀ item ∈ dropped, c'.Refetchable item.1 item.2

theorem DocumentsShifted.accounted (hs : c.DocumentsShifted c') (hrep : c'.Represented ∅)
    (hlookups : 1 ≤ c'.limits.maxLookups) :
    ∃ queued dropped : List (Bytes × Ref),
      c.indexDocuments.items ++ queued = dropped ++ c'.indexDocuments.items ∧
      c'.indexDropped = c.indexDropped + dropped.length ∧
      ∀ item ∈ dropped, c'.Refetchable item.1 item.2 := by
  obtain ⟨queued, dropped, hitems, hcount, hreopened⟩ := hs.shifted
  exact ⟨queued, dropped, hitems, hcount,
    fun item hitem ↦ (hreopened item hitem).refetchable hrep (hs.waiting.entry item.2) hlookups⟩

end TorrentCatalog

/-! ## Runs -/

/-- A session, with every snapshot that was handed out so far. -/
structure QueueSession where
  session : Session
  handedOut : List IndexSnapshot

namespace QueueSession

open TorrentCatalog

/-- Tracking is switched on for a new catalog. -/
def start (limits : CatalogLimits) (maxPending : ℕ) (checkDatabase : Bool) : QueueSession where
  session := (Session.new limits).exec (.enableIndexTracking maxPending checkDatabase)
  handedOut := []

/-- The operations that meet in the document queue.  Only snapshots that were handed out exist. -/
def callable (s : QueueSession) : CatalogOp → Prop
  | .storeMetadata .. | .recordHash .. | .drainIndexDocuments _ | .drainIndexCounters _
  | .resetIndexBase _ => True
  | .requeueIndexDocuments snapshots => ∀ snapshot ∈ snapshots, snapshot ∈ s.handedOut
  | .markIndexWritten snapshot _ => snapshot ∈ s.handedOut
  | _ => False

instance (s : QueueSession) (op : CatalogOp) : Decidable (s.callable op) := by
  apply op.casesOn (motive := fun op ↦ Decidable (s.callable op)) <;> intros <;>
    unfold callable <;> infer_instance

def step (s : QueueSession) (op : CatalogOp) : Option QueueSession :=
  if s.callable op then
    some ⟨s.session.exec op, s.handedOut ++ s.session.catalog.settle.handsOut op⟩
  else none

/-- A batch is put back while there is room for it and its entries still have their metadata, and no
document is marked twice or in the place of another entry. -/
def inOrder (s : QueueSession) : CatalogOp → Prop
  | .requeueIndexDocuments snapshots =>
    s.session.catalog.indexDocuments.size + (s.session.catalog.missingHashes snapshots).length ≤
      s.session.catalog.indexMaxPending ∧
    ∀ snapshot ∈ snapshots, (s.session.catalog.heap snapshot.entry).metadata.isSome
  | .markIndexWritten snapshot _ =>
    snapshot.metadata.isSome →
      (s.session.catalog.heap snapshot.entry).flushedSeen + snapshot.seenDelta ≤
        (s.session.catalog.heap snapshot.entry).seenCount ∧
      (s.session.catalog.entries.get? snapshot.infoHash = some snapshot.entry →
        isWritten (s.session.catalog.heap snapshot.entry) snapshot →
        ∀ r ∈ s.session.catalog.indexDocuments.get? snapshot.infoHash, r = snapshot.entry)
  | _ => True

instance (s : QueueSession) (op : CatalogOp) : Decidable (s.inOrder op) := by
  apply op.casesOn (motive := fun op ↦ Decidable (s.inOrder op)) <;> intros <;>
    unfold inOrder <;> infer_instance

end QueueSession

def queueMachine : Machine QueueSession CatalogOp := ⟨QueueSession.step⟩

namespace QueueSession

open TorrentCatalog

structure Ordered (limits : CatalogLimits) (maxPending : ℕ) (s : QueueSession) : Prop where
  sound : Sound limits (fun _ ↦ True) s.session.catalog s.session.fetchClaims s.session.lookupClaims
  waiting : s.session.catalog.Waiting
  described : ∀ snapshot ∈ s.handedOut, s.session.catalog.Describes snapshot
  limit : s.session.catalog.indexMaxPending = maxPending
  bounded : s.session.catalog.indexDocuments.size ≤ maxPending

variable {limits : CatalogLimits} {maxPending : ℕ} {checkDatabase : Bool} {s s' : QueueSession}
  {op : CatalogOp}

theorem start_ordered (hpending : 1 ≤ maxPending) :
    (start limits maxPending checkDatabase).Ordered limits maxPending where
  sound := Session.exec_sound (anyEntry_invariant limits looseStores) Session.new_sound
    (.enableIndexTracking maxPending checkDatabase) trivial
  waiting := by
    have hnew : (TorrentCatalog.new limits).settle.Waiting :=
      ⟨(fun h r hr ↦ by cases hr), (fun r hr ↦ by cases hr), fun r ↦ ⟨le_rfl, le_rfl, rfl, rfl⟩⟩
    simp only [start, Session.exec, TorrentCatalog.apply, TorrentCatalog.enableIndexTracking, guarded,
      hpending, if_true]
    exact hnew.of_eq
  described := fun _ hsnapshot ↦ by cases hsnapshot
  limit := by
    simp only [start, Session.exec, TorrentCatalog.apply, TorrentCatalog.enableIndexTracking, guarded,
      hpending, if_true]
  bounded := by
    simp only [start, Session.exec, TorrentCatalog.apply, TorrentCatalog.enableIndexTracking, guarded,
      hpending, if_true]
    exact Nat.zero_le _

theorem Ordered.step (hlookups : 1 ≤ limits.maxLookups) (hs : s.Ordered limits maxPending)
    (horder : s.inOrder op) (hstep : s.step op = some s') :
    s'.Ordered limits maxPending ∧
      s.session.catalog.settle.DocumentsAccounted s'.session.catalog op := by
  unfold QueueSession.step at hstep
  split at hstep
  next hcallable =>
    have hs' := Option.some.inj hstep
    subst hs'
    let c := s.session.catalog.settle
    have hrep : c.Represented ∅ := hs.sound.settle.represented
    have hw : c.Waiting := hs.waiting.of_eq
    have hbounded : c.indexDocuments.size ≤ c.indexMaxPending := by
      rw [show c.indexMaxPending = maxPending from hs.limit]
      exact hs.bounded
    have hpermits : s.session.permits looseStores op := by
      cases op with
      | storeMetadata => exact fun hd ↦ by cases hd
      | resetIndexBase => exact fun hd ↦ by cases hd
      | recordHash | drainIndexDocuments | drainIndexCounters | requeueIndexDocuments
      | markIndexWritten => exact trivial
      | _ => exact hcallable.elim
    have hsound := s.session.exec_sound (anyEntry_invariant limits looseStores) hs.sound op hpermits
    have hnextLookups : 1 ≤ (s.session.exec op).catalog.limits.maxLookups :=
      hsound.limits.symm ▸ hlookups
    have hordered (hwaiting : (s.session.exec op).catalog.Waiting)
        (hcontinues : c.Continues (s.session.exec op).catalog)
        (hnew : ∀ snapshot ∈ c.handsOut op, (s.session.exec op).catalog.Describes snapshot)
        (hmaxPending : (s.session.exec op).catalog.indexMaxPending = c.indexMaxPending)
        (hsize : (s.session.exec op).catalog.indexDocuments.size ≤ c.indexMaxPending) :
        Ordered limits maxPending ⟨s.session.exec op, s.handedOut ++ c.handsOut op⟩ := by
      refine ⟨hsound, hwaiting, fun snapshot hsnapshot ↦ ?_, hmaxPending.trans hs.limit,
        hsize.trans hs.limit.le⟩
      rcases List.mem_append.mp hsnapshot with hold | hlast
      · exact hcontinues.describes (hs.described snapshot hold)
      · exact hnew snapshot hlast
    have hnone {op : CatalogOp} (hop : c.handsOut op = []) :
        ∀ snapshot ∈ c.handsOut op, (s.session.exec op).catalog.Describes snapshot :=
      fun _ hsnapshot ↦ by
      rw [hop] at hsnapshot
      cases hsnapshot
    have hshifted (hshift : c.DocumentsShifted (s.session.exec op).catalog)
        (hnew : ∀ snapshot ∈ c.handsOut op, (s.session.exec op).catalog.Describes snapshot) :
        Ordered limits maxPending ⟨s.session.exec op, s.handedOut ++ c.handsOut op⟩ :=
      hordered hshift.waiting hshift.continues hnew hshift.indexMaxPending (hshift.bounded hbounded)
    cases op with
    | recordHash h source peer now =>
      have hkept : c.DocumentsKept (c.recordHash h source peer now).1 := by
        unfold TorrentCatalog.recordHash guarded
        dsimp only
        split
        · exact (hw.recordLocked hrep h source peer now).raised _ _
        · exact (DocumentsKept.refl hw).raised _ _
      refine ⟨hordered hkept.waiting hkept.continues (hnone rfl) hkept.indexMaxPending ?_,
        hkept.indexDocuments⟩
      rw [show (s.session.exec (.recordHash h source peer now)).catalog.indexDocuments = _ from
        hkept.indexDocuments]
      exact hbounded
    | storeMetadata metadata now =>
      have hshift := hw.storeMetadata hrep metadata now
      exact ⟨hshifted hshift (hnone rfl), hshift.accounted hsound.represented hnextLookups⟩
    | drainIndexDocuments limit =>
      obtain ⟨hwaiting, hcontinues, hnew, hitems, hdropped, hmaxPending⟩ :=
        hw.drainIndexDocuments rfl limit
      refine ⟨hordered hwaiting hcontinues hnew hmaxPending ?_, hitems, hdropped⟩
      refine le_trans ?_ hbounded
      rw [OrderedMap.size, OrderedMap.size, hitems, List.length_append]
      exact Nat.le_add_left _ _
    | drainIndexCounters limit =>
      obtain ⟨hshift, hnew⟩ := hw.drainIndexCounters hrep limit
      exact ⟨hshifted hshift hnew, hshift.accounted hsound.represented hnextLookups⟩
    | requeueIndexDocuments snapshots =>
      obtain ⟨hroom, hmeta⟩ := horder
      have hdescribed (snapshot : IndexSnapshot) (hsnapshot : snapshot ∈ snapshots) :
          c.Describes snapshot :=
        hs.described snapshot (hcallable snapshot hsnapshot)
      obtain ⟨hwaiting, hcontinues⟩ := hw.requeueIndexDocuments hdescribed hmeta
      obtain ⟨documents, b, hstate, -, -, -⟩ := c.requeueIndexDocuments_spec snapshots
      have hstate' : (s.session.exec (.requeueIndexDocuments snapshots)).catalog = _ := hstate
      refine ⟨hordered hwaiting hcontinues (hnone rfl) (by rw [hstate']) ?_,
        c.items_requeueDocuments snapshots, by rw [hstate']⟩
      exact le_of_eq_of_le (c.size_requeueIndexDocuments snapshots) hroom
    | markIndexWritten snapshot base =>
      obtain ⟨hwaiting, hcontinues, hdropped, hmaxPending, hdocuments⟩ :=
        hw.markIndexWritten hrep (fun hmeta ↦ (horder hmeta).1) base
      have hsame : (s.session.exec (.markIndexWritten snapshot base)).catalog.indexDocuments = _ :=
        hdocuments
      refine ⟨hordered hwaiting hcontinues (hnone rfl) hmaxPending ?_, ?_, hdropped⟩
      · rw [hsame]
        split
        · exact (OrderedMap.size_erase_le _ _).trans hbounded
        · exact hbounded
      · rw [hsame]
        split
        next hwritten =>
          right
          refine List.filter_congr fun item hitem ↦ ?_
          have hplace := (horder hwritten.1).2 hwritten.2.1 hwritten.2.2
          have hsome : c.indexDocuments.get? item.1 = some item.2 :=
            OrderedMap.get?_eq_some_iff.mpr hitem
          simp only [ne_eq, decide_not, Prod.ext_iff]
          by_cases hkey : item.1 = snapshot.infoHash
          · rw [hkey] at hsome
            simp [hkey, hplace item.2 hsome]
          · simp [hkey]
        next => exact Or.inl rfl
    | resetIndexBase h =>
      have hshift := hw.resetIndexBase hrep h
      exact ⟨hshifted hshift (hnone rfl), hshift.accounted hsound.represented hnextLookups⟩
    | _ => exact hcallable.elim
  next => cases hstep

/-- With lookups, and in every run that stays in order, the document queue keeps its bound after every
operation, and every document that leaves it was drained, written or dropped by a counted drop. -/
theorem document_queue_accounted {ops : List CatalogOp} (hpending : 1 ≤ maxPending)
    (hlookups : 1 ≤ limits.maxLookups)
    (horder : queueMachine.Along inOrder (start limits maxPending checkDatabase) ops)
    (hrun : queueMachine.run (start limits maxPending checkDatabase) ops = some s)
    (hop : s.inOrder op) (hstep : queueMachine.step s op = some s') :
    s'.session.catalog.indexDocuments.size ≤ maxPending ∧
      s.session.catalog.settle.DocumentsAccounted s'.session.catalog op := by
  have hordered : s.Ordered limits maxPending :=
    queueMachine.run_guarded_invariant (fun s op s' hs hop hstep ↦ (hs.step hlookups hop hstep).1)
      (start_ordered hpending) horder hrun
  obtain ⟨hnext, haccounted⟩ := hordered.step hlookups hop hstep
  exact ⟨hnext.bounded, haccounted⟩

/-- A queue with room for one document drops the first torrent when the second is stored. -/
theorem document_queue_accounted_full : ∃ s s',
    queueMachine.run (start {} 1 false) [.storeMetadata (sampleMetadata 1) 0] = some s ∧
    queueMachine.step s (.storeMetadata (sampleMetadata 2) 0) = some s' ∧
    s'.session.catalog.indexDropped = 1 ∧
    s'.session.catalog.indexDocuments.size ≤ 1 ∧
    s.session.catalog.settle.DocumentsAccounted s'.session.catalog
      (.storeMetadata (sampleMetadata 2) 0) := by
  have hcomputed : ((queueMachine.run (start {} 1 false) [.storeMetadata (sampleMetadata 1) 0]).any
      fun s ↦ (queueMachine.step s (.storeMetadata (sampleMetadata 2) 0)).any
        fun s' ↦ s'.session.catalog.indexDropped = 1) = true := by
    decide +kernel
  obtain ⟨s, hrun, hrest⟩ := (Option.any_eq_true _ _).mp hcomputed
  obtain ⟨s', hstep, hdropped⟩ := (Option.any_eq_true _ _).mp hrest
  have horder : queueMachine.Along inOrder (start {} 1 false)
      [.storeMetadata (sampleMetadata 1) 0] := by
    decide +kernel
  exact ⟨s, s', hrun, hstep, of_decide_eq_true hdropped,
    document_queue_accounted le_rfl (by decide) horder hrun trivial hstep⟩

/-- What is drained after the first torrent of a new catalog was stored. -/
def storedSnapshot : IndexSnapshot :=
  indexSnapshot 0 { TorrentEntry.new (sampleHash 1) 0 true with
    metadata := some (sampleMetadata 1), fetchState := .done }

/-- The batch of a failed write returns to a queue that filled up meanwhile. -/
def overflowOps : List CatalogOp :=
  [.storeMetadata (sampleMetadata 1) 0, .drainIndexDocuments 10, .storeMetadata (sampleMetadata 2) 0,
    .requeueIndexDocuments [storedSnapshot]]

/-- Without lookups a dropped torrent that has no peers is in neither index. -/
def droppedOps : List CatalogOp :=
  [.storeMetadata (sampleMetadata 1) 0, .storeMetadata (sampleMetadata 2) 0]

theorem requeue_exceeds_bound :
    (∃ s, queueMachine.run (start {} 1 false) overflowOps = some s ∧
      s.session.catalog.indexMaxPending = 1 ∧ s.session.catalog.indexDocuments.size = 2 ∧
      s.session.catalog.indexDropped = 0) ∧
    ∃ s, queueMachine.run (start { maxLookups := 0 } 1 false) droppedOps = some s ∧
      s.session.catalog.indexDropped = 1 ∧
      s.session.catalog.entries.get? (sampleHash 1) = some 0 ∧
      (s.session.catalog.heap 0).fetchState = .pending ∧
      s.session.catalog.fetchable.get? (sampleHash 1) = none ∧
      s.session.catalog.needsLookup.get? (sampleHash 1) = none := by
  have hcomputed : ((queueMachine.run (start {} 1 false) overflowOps).any fun s ↦
      s.session.catalog.indexMaxPending = 1 ∧ s.session.catalog.indexDocuments.size = 2 ∧
        s.session.catalog.indexDropped = 0) = true := by
    decide +kernel
  have hdropped : ((queueMachine.run (start { maxLookups := 0 } 1 false) droppedOps).any fun s ↦
      s.session.catalog.indexDropped = 1 ∧
        s.session.catalog.entries.get? (sampleHash 1) = some 0 ∧
        (s.session.catalog.heap 0).fetchState = .pending ∧
        s.session.catalog.fetchable.get? (sampleHash 1) = none ∧
        s.session.catalog.needsLookup.get? (sampleHash 1) = none) = true := by
    decide +kernel
  obtain ⟨s, hrun, hfull⟩ := (Option.any_eq_true _ _).mp hcomputed
  obtain ⟨s', hrun', hlost⟩ := (Option.any_eq_true _ _).mp hdropped
  exact ⟨⟨s, hrun, of_decide_eq_true hfull⟩, s', hrun', of_decide_eq_true hlost⟩

end QueueSession

end DhtScraper
