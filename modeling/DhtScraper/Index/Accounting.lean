import DhtScraper.Catalog.Queues
import DhtScraper.Index.Indexer
import DhtScraper.Library.Tally

/-!
# Accounts of sightings

Every entry object is an account of the sightings it counted.  The part that reached the database is
its flushed count, and a batch in flight carries amounts that are on the way.  `Accounted` says that
the accounts of a hash together hold the sightings recorded so far, and that the row of the hash holds
its start value plus what was flushed plus what is committed but not marked yet.

The section after the definition follows single changes of the catalog; the last one follows a batch
to the database and back.
-/

namespace DhtScraper

open Library

/-- Announcements count for both counters, the other sightings for one. -/
def Counter.counts : Counter → Source → Bool
  | .seen, _ => true
  | .announce, source => source = .announcePeer

/-- How many of the sightings of a hash a counter counts. -/
def countSightings (k : Counter) (h : Bytes) (past : List Sighting) : ℤ :=
  past.countP fun sighting ↦ sighting.1 = h ∧ k.counts sighting.2

theorem countSightings_append (k : Counter) (h h' : Bytes) (past : List Sighting)
    (source : Source) : countSightings k h' (past ++ [(h, source)]) = countSightings k h' past +
      if h = h' then (if k.counts source then 1 else 0) else 0 := by
  rw [countSightings, List.countP_append, countSightings]
  by_cases hh : h = h'
  · by_cases hk : k.counts source <;> simp [hh, hk]
  · simp [hh]

theorem count_countSighting (k : Counter) (source : Source) (moment : ℚ) (entry : TorrentEntry) :
    (TorrentCatalog.countSighting source moment entry).count k =
      entry.count k + if k.counts source then 1 else 0 := by
  cases k <;> simp [TorrentCatalog.countSighting, TorrentEntry.count, Counter.counts]

/-- The two entries hold the same account. -/
structure TorrentEntry.SameAccount (entry entry' : TorrentEntry) : Prop where
  infoHash : entry'.infoHash = entry.infoHash := by rfl
  count : ∀ k, entry'.count k = entry.count k := by exact fun _ ↦ rfl
  flushed : ∀ k, entry'.flushed k = entry.flushed k := by exact fun _ ↦ rfl

/-- The account of an entry is its counts and what was flushed of them. -/
theorem TorrentEntry.SameAccount.of_eq {e : TorrentEntry}
    {firstSeen lastSeen nextLookupTime : ℚ} {peers : Option (OrderedMap Address Unit)}
    {failedPeers : Option (Finset Address)} {fetchState : FetchState}
    {fetchAttempts lookupsStarted : ℕ} {lastError : String}
    {lookupInProgress inDatabase databaseChecked knownFromDatabase : Bool}
    {metadata : Option TorrentMetadata} {indexBase : Option IndexBase} :
    e.SameAccount { e with
      firstSeen := firstSeen, lastSeen := lastSeen, peers := peers, failedPeers := failedPeers
      fetchState := fetchState, fetchAttempts := fetchAttempts, lastError := lastError
      lookupsStarted := lookupsStarted, lookupInProgress := lookupInProgress
      nextLookupTime := nextLookupTime, metadata := metadata, indexBase := indexBase
      inDatabase := inDatabase, databaseChecked := databaseChecked
      knownFromDatabase := knownFromDatabase } where
  infoHash := rfl
  count := fun k ↦ by cases k <;> rfl
  flushed := fun k ↦ by cases k <;> rfl

theorem TorrentEntry.SameRecord.account {entry entry' : TorrentEntry}
    (hr : entry.SameRecord entry') : entry.SameAccount entry' where
  infoHash := hr.infoHash
  count := fun k ↦ by
    cases k
    · exact hr.seenCount
    · exact hr.announceCount
  flushed := fun k ↦ by
    cases k
    · exact hr.flushedSeen
    · exact hr.flushedAnnounce

namespace TorrentCatalog

variable {c c' mid : TorrentCatalog} {start rows : Rows} {flight : List IndexSnapshot}
  {committed : Bool} {past : List Sighting} {h : Bytes} {r : Ref} {entry : TorrentEntry}

/-- The amount of an account that is committed, but not marked as flushed yet. -/
def unmarked (flight : List IndexSnapshot) (committed : Bool) (k : Counter) (r : Ref) : ℤ :=
  if committed then sentTo IndexSnapshot.entry (fun snapshot ↦ snapshot.delta k) flight r else 0

def owner (c : TorrentCatalog) (r : Ref) : Bytes := (c.heap r).infoHash

/-- A base that was read from a row. -/
def Based (rows : Rows) (h : Bytes) (base : IndexBase) : Prop := 0 ≤ base.1 ∧ (rows h).isSome

/-- A snapshot in flight describes an allocated entry, and its amounts fit into the account. -/
structure Carried (c : TorrentCatalog) (rows : Rows) (snapshot : IndexSnapshot) : Prop where
  allocated : snapshot.entry < c.nextRef
  owner : c.owner snapshot.entry = snapshot.infoHash
  nonneg : ∀ k, 0 ≤ snapshot.delta k
  le : ∀ k, (c.heap snapshot.entry).flushed k + snapshot.delta k ≤ (c.heap snapshot.entry).count k
  based : ∀ base, snapshot.base = some base → Based rows snapshot.infoHash base

structure Accounted (c : TorrentCatalog) (start rows : Rows) (flight : List IndexSnapshot)
    (committed : Bool) (past : List Sighting) : Prop where
  length : ∀ r < c.nextRef, (c.owner r).length = nodeIdLength
  documents : ∀ h r, c.indexDocuments.get? h = some r → r < c.nextRef ∧ c.owner r = h
  orphans_nodup : c.orphanCounters.Nodup
  orphans : ∀ r ∈ c.orphanCounters, r < c.nextRef ∧ ∀ h, c.entries.get? h ≠ some r
  flight_nodup : (flight.map IndexSnapshot.entry).Nodup
  carried : ∀ snapshot ∈ flight, c.Carried rows snapshot
  flushed : ∀ r < c.nextRef, ∀ k, 0 ≤ (c.heap r).flushed k ∧ (c.heap r).flushed k ≤ (c.heap r).count k
  based : ∀ r < c.nextRef, ∀ base, (c.heap r).indexBase = some base → Based rows (c.owner r) base
  sightings : ∀ k h, tally c.nextRef c.owner (fun r ↦ (c.heap r).count k) h = countSightings k h past
  written : ∀ k h, rows.count k h = start.count k h +
    tally c.nextRef c.owner (fun r ↦ (c.heap r).flushed k + unmarked flight committed k r) h

namespace Accounted

/-- The accounts stay the same; queues and live entries may change. -/
theorem kept (ha : c.Accounted start rows flight committed past)
    (heap : ∀ r < c.nextRef, (c.heap r).SameAccount (c'.heap r))
    (based : ∀ r < c.nextRef, ∀ base, (c'.heap r).indexBase = some base →
      (c.heap r).indexBase = some base ∨ Based rows (c.owner r) base)
    (documents : ∀ h r, c'.indexDocuments.get? h = some r →
      c.indexDocuments.get? h = some r ∨ r < c.nextRef ∧ c.owner r = h)
    (orphans_nodup : c'.orphanCounters.Nodup)
    (orphans : ∀ r ∈ c'.orphanCounters, r < c.nextRef ∧ ∀ h, c'.entries.get? h ≠ some r)
    (nextRef : c'.nextRef = c.nextRef := by rfl) :
    c'.Accounted start rows flight committed past := by
  have howner : ∀ r < c.nextRef, c'.owner r = c.owner r := fun r hr ↦ (heap r hr).infoHash
  constructor
  case length =>
    intro r hr
    rw [nextRef] at hr
    rw [howner r hr]
    exact ha.length r hr
  case documents =>
    intro k r hr
    rw [nextRef]
    have hold : r < c.nextRef ∧ c.owner r = k := (documents k r hr).elim (ha.documents k r) id
    exact ⟨hold.1, (howner r hold.1).trans hold.2⟩
  case orphans_nodup => exact orphans_nodup
  case orphans => rw [nextRef]; exact orphans
  case flight_nodup => exact ha.flight_nodup
  case carried =>
    intro snapshot hsnapshot
    have hold := ha.carried snapshot hsnapshot
    have hsame := heap _ hold.allocated
    exact
      { allocated := by rw [nextRef]; exact hold.allocated
        owner := (howner _ hold.allocated).trans hold.owner
        nonneg := hold.nonneg
        le := fun k ↦ by rw [hsame.flushed, hsame.count]; exact hold.le k
        based := hold.based }
  case flushed =>
    intro r hr k
    rw [nextRef] at hr
    rw [(heap r hr).flushed, (heap r hr).count]
    exact ha.flushed r hr k
  case based =>
    intro r hr base hbase
    rw [nextRef] at hr
    rw [howner r hr]
    exact (based r hr base hbase).elim (ha.based r hr base) id
  case sightings =>
    intro k h'
    rw [nextRef, tally_congr howner fun r hr _ ↦ (heap r hr).count k]
    exact ha.sightings k h'
  case written =>
    intro k h'
    rw [nextRef, tally_congr howner fun r hr _ ↦ by rw [(heap r hr).flushed k]]
    exact ha.written k h'

/-- Only fields that the accounts do not depend on change. -/
theorem of_fields (ha : c.Accounted start rows flight committed past)
    (heap : c'.heap = c.heap) (nextRef : c'.nextRef = c.nextRef)
    (entries : c'.entries = c.entries)
    (documents : c'.indexDocuments = c.indexDocuments)
    (orphans : c'.orphanCounters = c.orphanCounters) :
    c'.Accounted start rows flight committed past :=
  ha.kept (fun r _ ↦ by rw [heap]; exact .of_eq)
    (fun r _ base hbase ↦ Or.inl (by rw [← heap]; exact hbase))
    (fun k r hr ↦ Or.inl (by rw [← documents]; exact hr)) (by rw [orphans]; exact ha.orphans_nodup)
    (by rw [orphans, entries]; exact ha.orphans) nextRef

theorem of_eq (ha : c.Accounted start rows flight committed past)
    {limits : CatalogLimits}
    {fetched fetchable needsLookup needsCheck indexCounters : OrderedMap Bytes Ref}
    {stateCounts : FetchState → ℤ}
    {observations discovered evicted indexMaxPending indexDropped : ℕ}
    {lookupsInProgress metadataBytes knownDone : ℤ} {indexTracking checkDatabase raised : Bool} :
    { c with
      limits := limits, fetched := fetched, fetchable := fetchable, needsLookup := needsLookup
      needsCheck := needsCheck, stateCounts := stateCounts, observations := observations
      discovered := discovered, evicted := evicted, lookupsInProgress := lookupsInProgress
      indexTracking := indexTracking, indexMaxPending := indexMaxPending
      indexCounters := indexCounters, indexDropped := indexDropped, checkDatabase := checkDatabase
      metadataBytes := metadataBytes, knownDone := knownDone, raised := raised }.Accounted
        start rows flight committed past :=
  ha.of_fields rfl rfl rfl rfl rfl

/-- A live entry is edited without touching its account. -/
theorem edited (ha : c.Accounted start rows flight committed past)
    (he : c.Edited c' h r entry) (hsame : (c.heap r).SameAccount entry)
    (hbase : ∀ base, entry.indexBase = some base →
      (c.heap r).indexBase = some base ∨ Based rows (c.owner r) base)
    (documents : ∀ h r, c'.indexDocuments.get? h = some r →
      c.indexDocuments.get? h = some r ∨ r < c.nextRef ∧ c.owner r = h)
    (orphans : c'.orphanCounters = c.orphanCounters) :
    c'.Accounted start rows flight committed past := by
  refine ha.kept (fun r' _ ↦ ?_) (fun r' _ base hbase' ↦ ?_) documents
    (by rw [orphans]; exact ha.orphans_nodup) (by rw [orphans, he.entries]; exact ha.orphans)
    he.nextRef
  · rw [he.heap]
    by_cases hr' : r' = r
    · subst hr'
      rw [Function.update_self]
      exact hsame
    · rw [Function.update_of_ne hr']
      exact .of_eq
  · rw [he.heap] at hbase'
    by_cases hr' : r' = r
    · subst hr'
      rw [Function.update_self] at hbase'
      exact hbase base hbase'
    · rw [Function.update_of_ne hr'] at hbase'
      exact Or.inl hbase'

/-! ## Creation, sightings and eviction -/

/-- A new entry is an empty account. -/
theorem obtained (ha : c.Accounted start rows flight committed past) {now : ℚ}
    (ho : c.Obtained mid h now r) (hq : c.QueuesKept mid) (hlength : h.length = nodeIdLength) :
    mid.Accounted start rows flight committed past := by
  cases ho with
  | live hr entries heap nextRef =>
    exact ha.of_fields heap nextRef entries hq.indexDocuments hq.orphanCounters
  | new hnone entries heap nextRef =>
    have hold {r : Ref} (hr : r < c.nextRef) : mid.heap r = c.heap r := by
      rw [heap, Function.update_of_ne (Nat.ne_of_lt hr)]
    have hnew : mid.heap c.nextRef = TorrentEntry.new h now (!c.checkDatabase) := by
      rw [heap, Function.update_self]
    have howner {r : Ref} (hr : r < c.nextRef) : mid.owner r = c.owner r :=
      congrArg TorrentEntry.infoHash (hold hr)
    have hcases {r : Ref} (hr : r < mid.nextRef) : r < c.nextRef ∨ r = c.nextRef := by
      rw [nextRef] at hr
      exact Nat.lt_succ_iff_lt_or_eq.mp hr
    have hlt {r : Ref} (hr : r < c.nextRef) : r < mid.nextRef := by
      rw [nextRef]
      exact Nat.lt_succ_of_lt hr
    constructor
    case length =>
      intro r hr
      rcases hcases hr with hr | rfl
      · rw [howner hr]
        exact ha.length r hr
      · rw [TorrentCatalog.owner, hnew]
        exact hlength
    case documents =>
      intro k r hr
      rw [hq.indexDocuments] at hr
      obtain ⟨halloc, hkey⟩ := ha.documents k r hr
      exact ⟨hlt halloc, (howner halloc).trans hkey⟩
    case orphans_nodup => rw [hq.orphanCounters]; exact ha.orphans_nodup
    case orphans =>
      intro r hr
      rw [hq.orphanCounters] at hr
      obtain ⟨halloc, hdead⟩ := ha.orphans r hr
      refine ⟨hlt halloc, fun k hk ↦ ?_⟩
      rw [entries, OrderedMap.get?_insert] at hk
      split at hk
      · exact absurd (Option.some.inj hk).symm (Nat.ne_of_lt halloc)
      · exact hdead k hk
    case flight_nodup => exact ha.flight_nodup
    case carried =>
      intro snapshot hsnapshot
      have hc := ha.carried snapshot hsnapshot
      exact
        { allocated := hlt hc.allocated
          owner := (howner hc.allocated).trans hc.owner
          nonneg := hc.nonneg
          le := fun k ↦ by rw [hold hc.allocated]; exact hc.le k
          based := hc.based }
    case flushed =>
      intro r hr k
      rcases hcases hr with hr | rfl
      · rw [hold hr]
        exact ha.flushed r hr k
      · rw [hnew]
        cases k <;> exact ⟨le_rfl, le_rfl⟩
    case based =>
      intro r hr base hbase
      rcases hcases hr with hr | rfl
      · rw [hold hr] at hbase
        rw [howner hr]
        exact ha.based r hr base hbase
      · rw [hnew] at hbase
        cases hbase
    case sightings =>
      intro k h'
      have hzero : (mid.heap c.nextRef).count k = 0 := by
        rw [hnew]
        cases k <;> rfl
      rw [nextRef, tally_succ, hzero, ite_self, add_zero,
        tally_congr (fun r hr ↦ howner hr) fun r hr _ ↦ by rw [hold hr]]
      exact ha.sightings k h'
    case written =>
      intro k h'
      have hzero : (mid.heap c.nextRef).flushed k = 0 := by
        rw [hnew]
        cases k <;> rfl
      have hnone : unmarked flight committed k c.nextRef = 0 := by
        unfold unmarked
        split
        · apply sentTo_eq_zero
          rintro hmem
          obtain ⟨snapshot, hsnapshot, heq⟩ := List.mem_map.mp hmem
          exact absurd heq (Nat.ne_of_lt (ha.carried snapshot hsnapshot).allocated)
        · rfl
      rw [nextRef, tally_succ, hzero, hnone, add_zero, ite_self, add_zero,
        tally_congr (fun r hr ↦ howner hr) fun r hr _ ↦ by rw [hold hr]]
      exact ha.written k h'

/-- One sighting is credited to the account of its entry. -/
theorem sighted (ha : c.Accounted start rows flight committed past) {source : Source} {moment : ℚ}
    (hs : c.Sighted c' h r source moment entry) (hr : r < c.nextRef) (hkey : c.owner r = h) :
    c'.Accounted start rows flight committed (past ++ [(h, source)]) := by
  have hentry : c'.heap r = entry := hs.edited.entry_eq
  have hother {r' : Ref} (hne : r' ≠ r) : c'.heap r' = c.heap r' := by
    rw [hs.edited.heap, Function.update_of_ne hne]
  have hcount (k : Counter) : entry.count k =
      (c.heap r).count k + if k.counts source then 1 else 0 := by
    rw [hs.record.account.count, count_countSighting]
  have hflushed (r' : Ref) (k : Counter) : (c'.heap r').flushed k = (c.heap r').flushed k := by
    by_cases hr' : r' = r
    · subst hr'
      rw [hentry, hs.record.account.flushed]
      cases k <;> rfl
    · rw [hother hr']
  have howner (r' : Ref) : c'.owner r' = c.owner r' := by
    by_cases hr' : r' = r
    · subst hr'
      exact (congrArg TorrentEntry.infoHash hentry).trans hs.record.infoHash
    · exact congrArg TorrentEntry.infoHash (hother hr')
  have hbase (r' : Ref) : (c'.heap r').indexBase = (c.heap r').indexBase := by
    by_cases hr' : r' = r
    · subst hr'
      rw [hentry, hs.record.indexBase]
      rfl
    · rw [hother hr']
  have hgrows (r' : Ref) (k : Counter) : (c.heap r').count k ≤ (c'.heap r').count k := by
    by_cases hr' : r' = r
    · subst hr'
      rw [hentry, hcount]
      split <;> omega
    · rw [hother hr']
  constructor
  case length =>
    intro r' hr'
    rw [hs.edited.nextRef] at hr'
    rw [howner]
    exact ha.length r' hr'
  case documents =>
    intro k r' hr'
    rw [hs.indexDocuments] at hr'
    rw [howner, hs.edited.nextRef]
    exact ha.documents k r' hr'
  case orphans_nodup => rw [hs.orphanCounters]; exact ha.orphans_nodup
  case orphans => rw [hs.orphanCounters, hs.edited.entries, hs.edited.nextRef]; exact ha.orphans
  case flight_nodup => exact ha.flight_nodup
  case carried =>
    intro snapshot hsnapshot
    have hc := ha.carried snapshot hsnapshot
    exact
      { allocated := by rw [hs.edited.nextRef]; exact hc.allocated
        owner := (howner _).trans hc.owner
        nonneg := hc.nonneg
        le := fun k ↦ by rw [hflushed]; exact (hc.le k).trans (hgrows _ k)
        based := hc.based }
  case flushed =>
    intro r' hr' k
    rw [hs.edited.nextRef] at hr'
    rw [hflushed]
    exact ⟨(ha.flushed r' hr' k).1, (ha.flushed r' hr' k).2.trans (hgrows r' k)⟩
  case based =>
    intro r' hr' base hbase'
    rw [hs.edited.nextRef] at hr'
    rw [hbase] at hbase'
    rw [howner]
    exact ha.based r' hr' base hbase'
  case sightings =>
    intro k h'
    calc tally c'.nextRef c'.owner (fun r ↦ (c'.heap r).count k) h'
        = tally c.nextRef c.owner (fun r ↦ (c'.heap r).count k) h' := by
          rw [hs.edited.nextRef, tally_congr (fun r _ ↦ howner r) fun _ _ _ ↦ rfl]
      _ = countSightings k h' past +
            if c.owner r = h' then (c'.heap r).count k - (c.heap r).count k else 0 := by
          rw [tally_change (fun r ↦ (c.heap r).count k) hr fun r' hne ↦ by rw [hother hne],
            ha.sightings]
      _ = countSightings k h' (past ++ [(h, source)]) := by
          rw [countSightings_append, hentry, hcount, hkey, add_sub_cancel_left]
  case written =>
    intro k h'
    rw [hs.edited.nextRef, tally_congr (fun r _ ↦ howner r) fun r _ _ ↦ by rw [hflushed]]
    exact ha.written k h'

/-- An evicted entry keeps its account; when the account is not settled it becomes an orphan. -/
theorem evicted (ha : c.Accounted start rows flight committed past) (hrep : c.Represented ∅)
    (hr : c.entries.get? h = some r) (he : c.Evicted c' h r) :
    c'.Accounted start rows flight committed past := by
  have halloc := hrep.allocated h r hr
  have hheap (r' : Ref) : c'.heap r' = c.heap r' ∨
      c'.heap r' = { c.heap r' with knownFromDatabase := false } := by
    rw [he.heap]
    by_cases hr' : r' = r
    · subst hr'
      exact Or.inr (Function.update_self _ _ _)
    · exact Or.inl (Function.update_of_ne hr' _ _)
  have hdead {r' : Ref} (hr' : ∀ k, c.entries.get? k ≠ some r') (k : Bytes) :
      c'.entries.get? k ≠ some r' := fun hk ↦ hr' k (he.live_iff.mp hk).2
  have hgone (k : Bytes) : c'.entries.get? k ≠ some r := fun hk ↦ by
    obtain ⟨hne, hlive⟩ := he.live_iff.mp hk
    exact hne (hrep.live_unique hr hlive)
  have hnotin : r ∉ c.orphanCounters := fun hmem ↦ (ha.orphans r hmem).2 h hr
  have hall : (c.orphanCounters ++ [r]).Nodup :=
    List.Nodup.append ha.orphans_nodup (List.nodup_singleton r) (by simpa using hnotin)
  have hsub : c'.orphanCounters.Sublist (c.orphanCounters ++ [r]) := by
    rw [he.orphanCounters]
    split
    · exact c.addOrphanLocked_sublist r
    · exact List.sublist_append_left _ _
  refine ha.kept (fun r' _ ↦ ?_) (fun r' _ base hbase ↦ Or.inl ?_)
    (fun k r' hr' ↦ Or.inl (by rw [← he.indexDocuments]; exact hr')) (hall.sublist hsub) ?_ he.nextRef
  · rcases hheap r' with heq | heq <;> rw [heq] <;> exact .of_eq
  · rcases hheap r' with heq | heq <;> rw [heq] at hbase <;> exact hbase
  · intro r' hr'
    rcases List.mem_append.mp (hsub.subset hr') with hmem | hmem
    · exact ⟨(ha.orphans r' hmem).1, hdead (ha.orphans r' hmem).2⟩
    · rw [List.mem_singleton.mp hmem]
      exact ⟨halloc, hgone⟩

/-! ## Stored metadata and the document queue -/

theorem stored (ha : c.Accounted start rows flight committed past) {metadata : TorrentMetadata}
    (hs : c.Stored c' h r metadata) (hr : r < c.nextRef) (hkey : c.owner r = h) :
    c'.Accounted start rows flight committed past := by
  refine ha.edited hs.edited .of_eq (fun base hbase ↦ Or.inl hbase) (fun k r' hr' ↦ ?_)
    hs.orphanCounters
  rw [hs.indexDocuments] at hr'
  split at hr'
  · rcases OrderedMap.get?_setDefault_cases hr' with hold | ⟨rfl, rfl⟩
    · exact Or.inl hold
    · exact Or.inr ⟨hr, hkey⟩
  · exact Or.inl hr'

/-- Dropping the oldest document changes the metadata of an entry, not its account. -/
theorem dropped (ha : c.Accounted start rows flight committed past) (hrep : c.Represented ∅)
    {key : Bytes} {rest : OrderedMap Bytes Ref}
    (hpop : c.indexDocuments.popFirst = some ((key, r), rest)) :
    ({ c with
      indexDocuments := rest
      indexDropped := c.indexDropped + 1 }.dropUnwrittenMetadataLocked r).Accounted start rows
        flight committed past := by
  let popped : TorrentCatalog := { c with
    indexDocuments := rest
    indexDropped := c.indexDropped + 1 }
  have hpopped : popped.Accounted start rows flight committed past := by
    refine ha.kept (fun _ _ ↦ .of_eq) (fun _ _ _ hbase ↦ Or.inl hbase) (fun k r' hr' ↦ Or.inl ?_)
      ha.orphans_nodup ha.orphans
    rw [show popped.indexDocuments = rest from rfl, (OrderedMap.get?_of_popFirst hpop).2 k] at hr'
    split at hr'
    · cases hr'
    · exact hr'
  obtain ⟨-, hqueues, ⟨b, heq⟩ | ⟨k, hr, -, hedited⟩⟩ :=
    dropUnwrittenMetadataLocked_spec (c := popped) hrep.of_eq r
  · rw [show popped.dropUnwrittenMetadataLocked r = _ from heq]
    exact hpopped.of_eq
  · refine hpopped.edited hedited .of_eq (fun base hbase ↦ Or.inl hbase) (fun k' r' hr' ↦ Or.inl ?_)
      hqueues.orphanCounters
    rw [hqueues.indexDocuments] at hr'
    exact hr'

theorem documentQueued (ha : c.Accounted start rows flight committed past) (hr : r < c.nextRef) :
    (c.documentQueued r).Accounted start rows flight committed past := by
  refine ha.kept (fun _ _ ↦ .of_eq) (fun _ _ _ hbase ↦ Or.inl hbase) (fun k r' hr' ↦ ?_)
    ha.orphans_nodup ha.orphans
  rcases OrderedMap.get?_setDefault_cases hr' with hold | ⟨rfl, rfl⟩
  · exact Or.inl hold
  · exact Or.inr ⟨hr, rfl⟩

theorem queueDocumentLocked (ha : c.Accounted start rows flight committed past)
    (hrep : c.Represented ∅) (hr : r < c.nextRef) :
    (c.queueDocumentLocked r).Accounted start rows flight committed past :=
  queueDocumentLocked_induction
    (P := fun c ↦ c.Accounted start rows flight committed past) c r (ha.documentQueued hr)
    fun _ _ _ hpop ↦ (ha.documentQueued hr).dropped (hrep.documentQueued r) hpop

/-- The accounts survive every operation of the crawler and fetch threads. -/
theorem clientRules (start rows : Rows) (flight : List IndexSnapshot) (committed : Bool) :
    ClientRules (fun _ _ ↦ True) (fun _ _ ↦ True)
      fun past c ↦ c.Accounted start rows flight committed past where
  quiet := fun _ _ _ _ ha ↦ ha.of_eq
  reworked := fun _ c c' h r entry _ ha _ hw ↦ by
    refine ha.edited hw.edited hw.record.account (fun base hbase ↦ Or.inl ?_) (fun k r' hr' ↦ Or.inl ?_)
      hw.queues.orphanCounters
    · rw [← hw.record.indexBase]
      exact hbase
    · rw [← hw.queues.indexDocuments]
      exact hr'
  sighted := fun _ c mid c' h r _ _ _ _ ha hlength ho hq hmid hs ↦
    (ha.obtained ho hq hlength).sighted hs (hmid.allocated h r ho.entry_live)
      (hmid.key h r ho.entry_live)
  evicted := fun _ _ _ _ _ hrep ha hr _ _ he ↦ ha.evicted hrep hr he
  stored := fun _ c mid c' r metadata _ _ ha _ ho hq hmid hs ↦
    (ha.obtained ho hq metadata.infoHash_length).stored hs
      (hmid.allocated metadata.infoHash r ho.entry_live) (hmid.key metadata.infoHash r ho.entry_live)
  dropped := fun _ _ _ _ _ hrep ha hpop ↦ ha.dropped hrep hpop
  stable := fun _ _ _ _ _ _ _ _ ↦ trivial

/-! ## Batches -/

/-- Whether an empty batch is committed makes no difference. -/
theorem landed {landed : Bool} (ha : c.Accounted start rows [] committed past) :
    c.Accounted start rows [] landed past where
  length := ha.length
  documents := ha.documents
  orphans_nodup := ha.orphans_nodup
  orphans := ha.orphans
  flight_nodup := List.nodup_nil
  carried := ha.carried
  flushed := ha.flushed
  based := ha.based
  sightings := ha.sightings
  written := fun k h ↦ by
    have hnone : ∀ r, unmarked [] landed k r = unmarked [] committed k r := fun r ↦ by
      cases committed <;> cases landed <;> rfl
    simp only [hnone]
    exact ha.written k h

/-- A batch that is not committed may be forgotten. -/
theorem withdrawn (ha : c.Accounted start rows flight false past) :
    c.Accounted start rows [] false past where
  length := ha.length
  documents := ha.documents
  orphans_nodup := ha.orphans_nodup
  orphans := ha.orphans
  flight_nodup := List.nodup_nil
  carried := fun snapshot hsnapshot ↦ by cases hsnapshot
  flushed := ha.flushed
  based := ha.based
  sightings := ha.sightings
  written := ha.written

theorem carried_indexSnapshot (ha : c.Accounted start rows flight committed past)
    (hr : r < c.nextRef) : c.Carried rows (indexSnapshot r (c.heap r)) where
  allocated := hr
  owner := rfl
  nonneg := fun k ↦ by
    have hle := (ha.flushed r hr k).2
    cases k <;> simpa [indexSnapshot, IndexSnapshot.delta, TorrentEntry.count, TorrentEntry.flushed]
      using hle
  le := fun k ↦ by
    cases k <;> simp [indexSnapshot, IndexSnapshot.delta, TorrentEntry.count, TorrentEntry.flushed]
  based := fun base hbase ↦ ha.based r hr base hbase

/-- The snapshots of further accounts join a batch that is not committed. -/
theorem taken (ha : c.Accounted start rows flight false past) (refs : List Ref)
    (halloc : ∀ r ∈ refs, r < c.nextRef) (hnodup : refs.Nodup)
    (hdisjoint : ∀ r ∈ refs, r ∉ flight.map IndexSnapshot.entry) :
    c.Accounted start rows (flight ++ refs.map fun r ↦ indexSnapshot r (c.heap r)) false past where
  length := ha.length
  documents := ha.documents
  orphans_nodup := ha.orphans_nodup
  orphans := ha.orphans
  flight_nodup := by
    have hentries : (refs.map fun r ↦ indexSnapshot r (c.heap r)).map IndexSnapshot.entry = refs := by
      rw [List.map_map]
      exact List.map_id _
    rw [List.map_append, hentries]
    exact List.Nodup.append ha.flight_nodup hnodup fun r hr hmem ↦ hdisjoint r hmem hr
  carried := fun snapshot hsnapshot ↦ by
    rcases List.mem_append.mp hsnapshot with hold | hnew
    · exact ha.carried snapshot hold
    · obtain ⟨r, hr, rfl⟩ := List.mem_map.mp hnew
      exact ha.carried_indexSnapshot (halloc r hr)
  flushed := ha.flushed
  based := ha.based
  sightings := ha.sightings
  written := ha.written

/-- The database took the amounts of the batch. -/
theorem commit (ha : c.Accounted start rows flight false past) (rows' : Rows)
    (hrows : ∀ h, (rows h).isSome → (rows' h).isSome)
    (hcount : ∀ k h, rows'.count k h = rows.count k h +
      ((flight.filter fun snapshot ↦ snapshot.infoHash = h).map fun snapshot ↦
        snapshot.delta k).sum) : c.Accounted start rows' flight true past where
  length := ha.length
  documents := ha.documents
  orphans_nodup := ha.orphans_nodup
  orphans := ha.orphans
  flight_nodup := ha.flight_nodup
  carried := fun snapshot hsnapshot ↦
    { ha.carried snapshot hsnapshot with
      based := fun base hbase ↦
        ((ha.carried snapshot hsnapshot).based base hbase).imp_right (hrows _) }
  flushed := ha.flushed
  based := fun r hr base hbase ↦ (ha.based r hr base hbase).imp_right (hrows _)
  sightings := ha.sightings
  written := fun k h ↦ by
    have hflight : (flight.filter fun snapshot ↦ c.owner snapshot.entry = h) =
        flight.filter fun snapshot ↦ snapshot.infoHash = h := by
      apply List.filter_congr
      intro snapshot hsnapshot
      rw [(ha.carried snapshot hsnapshot).owner]
    have hsent : tally c.nextRef c.owner (unmarked flight true k) h =
        ((flight.filter fun snapshot ↦ snapshot.infoHash = h).map fun snapshot ↦
          snapshot.delta k).sum := by
      rw [← hflight]
      exact tally_sentTo (fun snapshot hsnapshot ↦ (ha.carried snapshot hsnapshot).allocated) h
    have hbefore : tally c.nextRef c.owner
        (fun r ↦ (c.heap r).flushed k + unmarked flight false k r) h =
        tally c.nextRef c.owner (fun r ↦ (c.heap r).flushed k) h := by
      simp [unmarked]
    rw [hcount, ha.written, hbefore, tally_add, hsent, add_assoc]

/-- Marking one snapshot moves its amount into the flushed count of its account. -/
theorem flushSnapshot {snapshot : IndexSnapshot}
    (ha : c.Accounted start rows (snapshot :: flight) true past) :
    (c.flushSnapshot snapshot).Accounted start rows flight true past := by
  have hcarried := ha.carried snapshot List.mem_cons_self
  obtain ⟨hnotin, hnodup⟩ := List.nodup_cons.mp ha.flight_nodup
  let c' := c.flushSnapshot snapshot
  have hself (k : Counter) : (c'.heap snapshot.entry).flushed k =
      (c.heap snapshot.entry).flushed k + snapshot.delta k := by
    simp only [c', TorrentCatalog.flushSnapshot, modify, Function.update_self]
    cases k <;> rfl
  have hother {r : Ref} (hne : r ≠ snapshot.entry) : c'.heap r = c.heap r :=
    Function.update_of_ne hne _ _
  have hsame (r : Ref) : (c'.heap r).infoHash = (c.heap r).infoHash ∧
      (c'.heap r).indexBase = (c.heap r).indexBase ∧ ∀ k, (c'.heap r).count k = (c.heap r).count k := by
    by_cases hr : r = snapshot.entry
    · subst hr
      simp only [c', TorrentCatalog.flushSnapshot, modify, Function.update_self]
      exact ⟨trivial, trivial, fun k ↦ rfl⟩
    · rw [hother hr]
      exact ⟨rfl, rfl, fun _ ↦ rfl⟩
  have howner (r : Ref) : c'.owner r = c.owner r := (hsame r).1
  constructor
  case length => exact fun r hr ↦ (howner r).symm ▸ ha.length r hr
  case documents => exact fun k r hr ↦ (howner r).symm ▸ ha.documents k r hr
  case orphans_nodup => exact ha.orphans_nodup
  case orphans => exact ha.orphans
  case flight_nodup => exact hnodup
  case carried =>
    intro other hmem
    have hc := ha.carried other (List.mem_cons_of_mem _ hmem)
    have hne : other.entry ≠ snapshot.entry := fun heq ↦
      hnotin (heq ▸ List.mem_map_of_mem hmem)
    exact
      { allocated := hc.allocated
        owner := (howner _).trans hc.owner
        nonneg := hc.nonneg
        le := fun k ↦ by
          rw [show (c.flushSnapshot snapshot).heap other.entry = _ from hother hne]
          exact hc.le k
        based := hc.based }
  case flushed =>
    intro r hr k
    change 0 ≤ (c'.heap r).flushed k ∧ (c'.heap r).flushed k ≤ (c'.heap r).count k
    rw [(hsame r).2.2]
    by_cases heq : r = snapshot.entry
    · subst heq
      rw [hself]
      exact ⟨add_nonneg (ha.flushed _ hr k).1 (hcarried.nonneg k), hcarried.le k⟩
    · rw [hother heq]
      exact ha.flushed r hr k
  case based =>
    intro r hr base hbase
    rw [show (c.flushSnapshot snapshot).heap r = c'.heap r from rfl, (hsame r).2.1] at hbase
    rw [show (c.flushSnapshot snapshot).owner r = _ from howner r]
    exact ha.based r hr base hbase
  case sightings =>
    intro k h
    rw [← ha.sightings k h]
    exact tally_congr (fun r _ ↦ howner r) fun r _ _ ↦ (hsame r).2.2 k
  case written =>
    intro k h
    rw [ha.written k h, add_right_inj]
    refine (tally_congr (fun r _ ↦ howner r) fun r _ _ ↦ ?_).symm
    simp only [unmarked, if_true, sentTo_cons]
    by_cases heq : r = snapshot.entry
    · subst heq
      rw [show (c.flushSnapshot snapshot).heap snapshot.entry = c'.heap snapshot.entry from rfl,
        hself, if_pos rfl, add_assoc]
    · rw [show (c.flushSnapshot snapshot).heap r = _ from hother heq, if_neg heq, zero_add]

/-- An evicted entry is put back into the orphan queue, unless it is there already. -/
theorem orphaned (ha : c.Accounted start rows flight committed past) (hr : r < c.nextRef)
    (hdead : ∀ h, c.entries.get? h ≠ some r) (hnotin : r ∉ c.orphanCounters) :
    (c.addOrphanLocked r).Accounted start rows flight committed past := by
  have hsub := c.addOrphanLocked_sublist r
  have hall : (c.orphanCounters ++ [r]).Nodup :=
    List.Nodup.append ha.orphans_nodup (List.nodup_singleton r) (by simpa using hnotin)
  refine ha.kept (fun _ _ ↦ .of_eq) (fun _ _ _ hbase ↦ Or.inl hbase) (fun _ _ hr' ↦ Or.inl hr')
    (hall.sublist hsub) fun r' hr' ↦ ?_
  rcases List.mem_append.mp (hsub.subset hr') with hmem | hmem
  · exact ha.orphans r' hmem
  · rw [List.mem_singleton.mp hmem]
    exact ⟨hr, hdead⟩

end Accounted

end TorrentCatalog

end DhtScraper
