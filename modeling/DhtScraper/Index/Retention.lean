import DhtScraper.Index.Balance

/-!
# Unflushed sightings stay reachable

What an entry counted beyond its flushed count and beyond the batch in flight has to be found again by
a later drain.  `Retained` says through which queue: once an entry has metadata or is in the database
it is in the document queue, in the counter queue or an orphan until nothing is left.  A new torrent
keeps its place in the document queue, or in the batch drained from it, until its first write gives it
a base.

The invariant is about queues only; how much each account holds is left to `Accounted`.
-/

namespace DhtScraper

open Library

/-- The entry has something to write, or has been written. -/
def TorrentEntry.held (entry : TorrentEntry) : Bool := entry.metadata.isSome ∨ entry.inDatabase

/-- The two entries hold the same account and stand in the same relation to the database. -/
structure TorrentEntry.SameStanding (entry entry' : TorrentEntry) : Prop
    extends entry.SameAccount entry' where
  metadata : entry'.metadata.isSome = entry.metadata.isSome := by rfl
  inDatabase : entry'.inDatabase = entry.inDatabase := by rfl
  based : entry'.indexBase.isSome = entry.indexBase.isSome := by rfl

namespace TorrentEntry

theorem SameStanding.held {entry entry' : TorrentEntry} (h : entry.SameStanding entry') :
    entry'.held = entry.held := by
  simp only [TorrentEntry.held, h.metadata, h.inDatabase]

theorem SameRecord.standing {entry entry' : TorrentEntry} (h : entry.SameRecord entry') :
    entry.SameStanding entry' where
  toSameAccount := h.account
  metadata := by rw [h.metadata]
  inDatabase := h.inDatabase
  based := by rw [h.indexBase]

end TorrentEntry

/-- The amount of an account that the batch carries. -/
def inFlight (flight : List IndexSnapshot) (k : Counter) (r : Ref) : ℤ :=
  sentTo IndexSnapshot.entry (fun snapshot ↦ snapshot.delta k) flight r

theorem inFlight_eq_zero {flight : List IndexSnapshot} {k : Counter} {r : Ref}
    (hr : r ∉ flight.map IndexSnapshot.entry) : inFlight flight k r = 0 := sentTo_eq_zero hr

theorem inFlight_cons (snapshot : IndexSnapshot) (flight : List IndexSnapshot) (k : Counter)
    (r : Ref) : inFlight (snapshot :: flight) k r =
      (if r = snapshot.entry then snapshot.delta k else 0) + inFlight flight k r :=
  sentTo_cons IndexSnapshot.entry (fun snapshot ↦ snapshot.delta k) snapshot flight r

namespace TorrentCatalog

/-- The flushed count and the batch in flight hold everything the entry counted. -/
def Covered (c : TorrentCatalog) (flight : List IndexSnapshot) (r : Ref) : Prop :=
  ∀ k, (c.heap r).count k ≤ (c.heap r).flushed k + inFlight flight k r

instance (c : TorrentCatalog) (flight : List IndexSnapshot) (r : Ref) :
    Decidable (c.Covered flight r) := by
  unfold Covered
  infer_instance

/-- A later drain finds the entry. -/
def Queued (c : TorrentCatalog) (r : Ref) : Prop :=
  c.indexDocuments.get? (c.owner r) = some r ∨ c.indexCounters.get? (c.owner r) = some r ∨
    r ∈ c.orphanCounters

/-- The unflushed sightings are reachable; `documents` says that the batch in flight is one of
documents. -/
structure Retained (c : TorrentCatalog) (stored : Finset Ref) (flight : List IndexSnapshot)
    (documents : Bool) : Prop where
  tracking : c.indexTracking = true
  stored_held : ∀ r ∈ stored, r < c.nextRef ∧ (c.heap r).held
  based : ∀ r, (c.heap r).inDatabase → (c.heap r).indexBase.isSome
  held : ∀ r, (c.heap r).indexBase.isSome → (c.heap r).held
  described : ∀ h r, c.indexDocuments.get? h = some r → (c.heap r).metadata.isSome
  orphans : ∀ r ∈ c.orphanCounters, (c.heap r).indexBase.isSome
  queued : ∀ r < c.nextRef, (c.heap r).held → ¬ c.Covered flight r → c.Queued r
  /-- Before the first write the document waits or is on its way. -/
  first : ∀ h r, c.entries.get? h = some r → (c.heap r).held → (c.heap r).indexBase = none →
    c.indexDocuments.get? h = some r ∨ documents = true ∧ r ∈ flight.map IndexSnapshot.entry
  flight_hashes : documents = true → (flight.map IndexSnapshot.infoHash).Nodup
  flight_described : documents = true → ∀ snapshot ∈ flight,
    snapshot.metadata.isSome ∧ (c.heap snapshot.entry).metadata.isSome
  /-- No other incarnation waits behind a live entry whose document is on its way. -/
  flight_alone : documents = true → ∀ snapshot ∈ flight,
    c.entries.get? snapshot.infoHash = some snapshot.entry →
      ∀ r, c.indexDocuments.get? snapshot.infoHash = some r → r = snapshot.entry
  flight_based : documents = false → ∀ snapshot ∈ flight,
    snapshot.base.isSome ∧ (c.heap snapshot.entry).indexBase.isSome

theorem Accounted.inFlight_nonneg {c : TorrentCatalog} {start rows : Rows}
    {flight : List IndexSnapshot} {committed : Bool} {past : List Sighting}
    (ha : c.Accounted start rows flight committed past) (k : Counter) (r : Ref) :
    0 ≤ inFlight flight k r := by
  by_cases hmem : r ∈ flight.map IndexSnapshot.entry
  · obtain ⟨snapshot, hsnapshot, rfl⟩ := List.mem_map.mp hmem
    unfold inFlight
    rw [sentTo_eq_amount ha.flight_nodup hsnapshot]
    exact (ha.carried snapshot hsnapshot).nonneg k
  · rw [inFlight_eq_zero hmem]

namespace Retained

variable {c c' mid : TorrentCatalog} {start rows : Rows} {stored : Finset Ref}
  {flight : List IndexSnapshot} {committed documents : Bool} {past : List Sighting} {h : Bytes}
  {r : Ref} {entry : TorrentEntry}

theorem isSome_of_held (hk : c.Retained stored flight documents) (hheld : (c.heap r).held)
    (hbase : (c.heap r).indexBase = none) : (c.heap r).metadata.isSome := by
  simp only [TorrentEntry.held, decide_eq_true_eq] at hheld
  rcases hheld with hmeta | hdatabase
  · exact hmeta
  · have hsome := hk.based r hdatabase
    simp [hbase] at hsome

/-- The standing of every entry stays the same, live entries may leave, and nothing that was queued
is forgotten. -/
theorem kept (hk : c.Retained stored flight documents)
    (heap : ∀ r, (c.heap r).SameStanding (c'.heap r))
    (entries : ∀ h r, c'.entries.get? h = some r → c.entries.get? h = some r)
    (orphans : ∀ r ∈ c'.orphanCounters, (c.heap r).indexBase.isSome)
    (queued : ∀ r < c.nextRef, (c.heap r).held → ¬ c.Covered flight r → c.Queued r → c'.Queued r)
    (nextRef : c'.nextRef = c.nextRef := by rfl)
    (tracking : c'.indexTracking = c.indexTracking := by rfl)
    (documents_eq : c'.indexDocuments = c.indexDocuments := by rfl) :
    c'.Retained stored flight documents := by
  have hnone {r : Ref} (hbase : (c'.heap r).indexBase = none) : (c.heap r).indexBase = none := by
    have hsome := (heap r).based
    rw [hbase] at hsome
    simpa using hsome.symm
  constructor
  case tracking => rw [tracking, hk.tracking]
  case stored_held =>
    intro r hr
    rw [nextRef, (heap r).held]
    exact hk.stored_held r hr
  case based =>
    intro r hr
    rw [(heap r).based]
    rw [(heap r).inDatabase] at hr
    exact hk.based r hr
  case held =>
    intro r hr
    rw [(heap r).held]
    rw [(heap r).based] at hr
    exact hk.held r hr
  case described =>
    intro k r hr
    rw [documents_eq] at hr
    rw [(heap r).metadata]
    exact hk.described k r hr
  case orphans =>
    intro r hr
    rw [(heap r).based]
    exact orphans r hr
  case queued =>
    intro r hr hheld huncovered
    rw [nextRef] at hr
    rw [(heap r).held] at hheld
    have huncovered' : ¬ c.Covered flight r := fun hcovered ↦ huncovered fun k ↦ by
      rw [(heap r).count, (heap r).flushed]
      exact hcovered k
    exact queued r hr hheld huncovered' (hk.queued r hr hheld huncovered')
  case first =>
    intro k r hr hheld hbase
    rw [(heap r).held] at hheld
    rw [documents_eq]
    exact hk.first k r (entries k r hr) hheld (hnone hbase)
  case flight_hashes => exact hk.flight_hashes
  case flight_described =>
    intro hd snapshot hsnapshot
    rw [(heap _).metadata]
    exact hk.flight_described hd snapshot hsnapshot
  case flight_alone =>
    intro hd snapshot hsnapshot hlive r hr
    rw [documents_eq] at hr
    exact hk.flight_alone hd snapshot hsnapshot (entries _ _ hlive) r hr
  case flight_based =>
    intro hd snapshot hsnapshot
    rw [(heap _).based]
    exact hk.flight_based hd snapshot hsnapshot

theorem of_fields (hk : c.Retained stored flight documents) (heap : c'.heap = c.heap)
    (entries : c'.entries = c.entries) (nextRef : c'.nextRef = c.nextRef)
    (tracking : c'.indexTracking = c.indexTracking)
    (documents_eq : c'.indexDocuments = c.indexDocuments)
    (counters : c'.indexCounters = c.indexCounters)
    (orphans : c'.orphanCounters = c.orphanCounters) : c'.Retained stored flight documents := by
  refine hk.kept (fun r ↦ by rw [heap]; exact { toSameAccount := {} })
    (fun k r hr ↦ by rw [← entries]; exact hr) (by rw [orphans]; exact hk.orphans)
    (fun r _ _ _ hqueued ↦ ?_) nextRef tracking documents_eq
  unfold Queued owner at hqueued ⊢
  rw [heap, documents_eq, counters, orphans]
  exact hqueued

theorem of_eq (hk : c.Retained stored flight documents)
    {limits : CatalogLimits} {fetched fetchable needsLookup needsCheck : OrderedMap Bytes Ref}
    {stateCounts : FetchState → ℤ}
    {observations discovered evicted indexMaxPending indexDropped : ℕ}
    {lookupsInProgress metadataBytes knownDone : ℤ} {checkDatabase raised : Bool} :
    { c with
      limits := limits, fetched := fetched, fetchable := fetchable, needsLookup := needsLookup
      needsCheck := needsCheck, stateCounts := stateCounts, observations := observations
      discovered := discovered, evicted := evicted, lookupsInProgress := lookupsInProgress
      indexMaxPending := indexMaxPending, indexDropped := indexDropped
      checkDatabase := checkDatabase, metadataBytes := metadataBytes, knownDone := knownDone
      raised := raised }.Retained stored flight documents :=
  hk.of_fields rfl rfl rfl rfl rfl rfl rfl

/-- A live entry is edited without changing its standing or any queue. -/
theorem edited (hk : c.Retained stored flight documents) (he : c.Edited c' h r entry)
    (hsame : (c.heap r).SameStanding entry) (hq : c.QueuesKept c') :
    c'.Retained stored flight documents := by
  have hheap (r' : Ref) : (c.heap r').SameStanding (c'.heap r') := by
    rw [he.heap]
    by_cases hr' : r' = r
    · subst hr'
      rw [Function.update_self]
      exact hsame
    · rw [Function.update_of_ne hr']
      exact { toSameAccount := {} }
  refine hk.kept hheap (fun k r hr ↦ by rw [← he.entries]; exact hr)
    (by rw [hq.orphanCounters]; exact hk.orphans) (fun r' _ _ _ hqueued ↦ ?_) he.nextRef
    hq.indexTracking hq.indexDocuments
  have howner : c'.owner r' = c.owner r' := (hheap r').infoHash
  unfold Queued at hqueued ⊢
  rw [howner, hq.indexDocuments, hq.indexCounters, hq.orphanCounters]
  exact hqueued

/-! ## Creation, sightings and eviction -/

theorem obtained (hk : c.Retained stored flight documents)
    (ha : c.Accounted start rows flight committed past) {now : ℚ} (ho : c.Obtained mid h now r)
    (hq : c.QueuesKept mid) : mid.Retained stored flight documents := by
  cases ho with
  | live hr entries heap nextRef =>
    exact hk.of_fields heap entries nextRef hq.indexTracking hq.indexDocuments hq.indexCounters
      hq.orphanCounters
  | new hnone entries heap nextRef =>
    have hold {r : Ref} (hr : r ≠ c.nextRef) : mid.heap r = c.heap r := by
      rw [heap, Function.update_of_ne hr]
    have hnew : mid.heap c.nextRef = TorrentEntry.new h now (!c.checkDatabase) := by
      rw [heap, Function.update_self]
    have hempty : (mid.heap c.nextRef).held = false ∧ (mid.heap c.nextRef).indexBase = none ∧
        (mid.heap c.nextRef).inDatabase = false := by
      rw [hnew]
      exact ⟨rfl, rfl, rfl⟩
    have hlive {k : Bytes} {r : Ref} (hr : mid.entries.get? k = some r) (hne : r ≠ c.nextRef) :
        c.entries.get? k = some r := by
      rw [entries, OrderedMap.get?_insert] at hr
      split at hr
      · exact absurd (Option.some.inj hr).symm hne
      · exact hr
    have hflight {snapshot : IndexSnapshot} (hsnapshot : snapshot ∈ flight) :
        snapshot.entry ≠ c.nextRef := Nat.ne_of_lt (ha.carried snapshot hsnapshot).allocated
    constructor
    case tracking => rw [hq.indexTracking, hk.tracking]
    case stored_held =>
      intro r hr
      obtain ⟨halloc, hheld⟩ := hk.stored_held r hr
      rw [nextRef, hold (Nat.ne_of_lt halloc)]
      exact ⟨Nat.lt_succ_of_lt halloc, hheld⟩
    case based =>
      intro r hr
      by_cases hne : r = c.nextRef
      · rw [hne, hempty.2.2] at hr
        cases hr
      · rw [hold hne] at hr ⊢
        exact hk.based r hr
    case held =>
      intro r hr
      by_cases hne : r = c.nextRef
      · rw [hne, hempty.2.1] at hr
        cases hr
      · rw [hold hne] at hr ⊢
        exact hk.held r hr
    case described =>
      intro k r hr
      rw [hq.indexDocuments] at hr
      rw [hold (Nat.ne_of_lt (ha.documents k r hr).1)]
      exact hk.described k r hr
    case orphans =>
      intro r hr
      rw [hq.orphanCounters] at hr
      rw [hold (Nat.ne_of_lt (ha.orphans r hr).1)]
      exact hk.orphans r hr
    case queued =>
      intro r hr hheld huncovered
      by_cases hne : r = c.nextRef
      · rw [hne, hempty.1] at hheld
        cases hheld
      · have hlt : r < c.nextRef := by
          rw [nextRef] at hr
          exact lt_of_le_of_ne (Nat.lt_succ_iff.mp hr) hne
        have hqueued := hk.queued r hlt (by rw [← hold hne]; exact hheld) fun hcovered ↦
          huncovered fun k ↦ by rw [hold hne]; exact hcovered k
        unfold Queued owner at hqueued ⊢
        rw [hold hne, hq.indexDocuments, hq.indexCounters, hq.orphanCounters]
        exact hqueued
    case first =>
      intro k r hr hheld hbase
      by_cases hne : r = c.nextRef
      · rw [hne, hempty.1] at hheld
        cases hheld
      · rw [hold hne] at hheld hbase
        rw [hq.indexDocuments]
        exact hk.first k r (hlive hr hne) hheld hbase
    case flight_hashes => exact hk.flight_hashes
    case flight_described =>
      intro hd snapshot hsnapshot
      rw [hold (hflight hsnapshot)]
      exact hk.flight_described hd snapshot hsnapshot
    case flight_alone =>
      intro hd snapshot hsnapshot hr r' hr'
      rw [hq.indexDocuments] at hr'
      exact hk.flight_alone hd snapshot hsnapshot (hlive hr (hflight hsnapshot)) r' hr'
    case flight_based =>
      intro hd snapshot hsnapshot
      rw [hold (hflight hsnapshot)]
      exact hk.flight_based hd snapshot hsnapshot

/-- The counter queue receives the sighted entry, if there is anything to write. -/
theorem sighted (hk : c.Retained stored flight documents) (hrep : c.Represented {h})
    (hr : c.entries.get? h = some r) {source : Source} {moment : ℚ}
    (hs : c.Sighted c' h r source moment entry) : c'.Retained stored flight documents := by
  have hentry : c'.heap r = entry := hs.edited.entry_eq
  have hother {r' : Ref} (hne : r' ≠ r) : c'.heap r' = c.heap r' := by
    rw [hs.edited.heap, Function.update_of_ne hne]
  have hsame (r' : Ref) : (c'.heap r').infoHash = (c.heap r').infoHash ∧
      (c'.heap r').metadata = (c.heap r').metadata ∧
      (c'.heap r').inDatabase = (c.heap r').inDatabase ∧
      (c'.heap r').indexBase = (c.heap r').indexBase := by
    by_cases hr' : r' = r
    · subst hr'
      rw [hentry]
      exact ⟨hs.record.infoHash, hs.record.metadata, hs.record.inDatabase, hs.record.indexBase⟩
    · rw [hother hr']
      exact ⟨rfl, rfl, rfl, rfl⟩
  have hheld (r' : Ref) : (c'.heap r').held = (c.heap r').held := by
    simp only [TorrentEntry.held, (hsame r').2.1, (hsame r').2.2.1]
  have howner (r' : Ref) : c'.owner r' = c.owner r' := (hsame r').1
  have hcounters {k : Bytes} {r' : Ref} (hr' : c.indexCounters.get? k = some r') :
      c'.indexCounters.get? k = some r' := by
    rw [hs.indexCounters]
    split
    · rw [OrderedMap.get?_setDefault]
      split
      next heq => rw [← heq, hr']; rfl
      next => exact hr'
    · exact hr'
  constructor
  case tracking => rw [hs.indexTracking, hk.tracking]
  case stored_held =>
    intro r' hr'
    rw [hs.edited.nextRef, hheld]
    exact hk.stored_held r' hr'
  case based =>
    intro r' hr'
    rw [(hsame r').2.2.2]
    rw [(hsame r').2.2.1] at hr'
    exact hk.based r' hr'
  case held =>
    intro r' hr'
    rw [hheld]
    rw [(hsame r').2.2.2] at hr'
    exact hk.held r' hr'
  case described =>
    intro k r' hr'
    rw [hs.indexDocuments] at hr'
    rw [(hsame r').2.1]
    exact hk.described k r' hr'
  case orphans =>
    intro r' hr'
    rw [hs.orphanCounters] at hr'
    rw [(hsame r').2.2.2]
    exact hk.orphans r' hr'
  case queued =>
    intro r' hr' hheld' huncovered
    rw [hs.edited.nextRef] at hr'
    rw [hheld] at hheld'
    by_cases heq : r' = r
    · subst heq
      -- the counter queue has room for one entry of a hash, and it is the live one
      right
      left
      have hwritable : entry.metadata.isSome ∨ entry.inDatabase := by
        rw [hs.record.metadata, hs.record.inDatabase]
        exact of_decide_eq_true hheld'
      rw [howner, show c.owner r' = h from hrep.key h r' hr, hs.indexCounters,
        if_pos ⟨hk.tracking, hwritable⟩, OrderedMap.get?_setDefault, if_pos rfl]
      cases hget : c.indexCounters.get? h with
      | none => rfl
      | some r'' => exact (hrep.counters_live h r'' hget).symm.trans hr
    · have hqueued := hk.queued r' hr' hheld' fun hcovered ↦ huncovered fun k ↦ by
        rw [hother heq]
        exact hcovered k
      unfold Queued at hqueued ⊢
      rw [howner, hs.indexDocuments, hs.orphanCounters]
      exact hqueued.imp_right fun hrest ↦ hrest.imp_left hcounters
  case first =>
    intro k r' hr' hheld' hbase
    rw [hs.edited.entries] at hr'
    rw [hheld] at hheld'
    rw [(hsame r').2.2.2] at hbase
    rw [hs.indexDocuments]
    exact hk.first k r' hr' hheld' hbase
  case flight_hashes => exact hk.flight_hashes
  case flight_described =>
    intro hd snapshot hsnapshot
    rw [(hsame _).2.1]
    exact hk.flight_described hd snapshot hsnapshot
  case flight_alone =>
    intro hd snapshot hsnapshot hlive r' hr'
    rw [hs.edited.entries] at hlive
    rw [hs.indexDocuments] at hr'
    exact hk.flight_alone hd snapshot hsnapshot hlive r' hr'
  case flight_based =>
    intro hd snapshot hsnapshot
    rw [(hsame _).2.2.2]
    exact hk.flight_based hd snapshot hsnapshot

/-- The entry may leave: an earlier write gave it a base, its document waits, or the batch in flight
holds all of its sightings. -/
def Evictable (flight : List IndexSnapshot) (c : TorrentCatalog) (r : Ref) : Prop :=
  (c.heap r).indexBase.isSome ∨ (c.heap r).metadata = none ∨
    c.indexDocuments.get? (c.owner r) = some r ∨ c.Covered flight r

instance (flight : List IndexSnapshot) (c : TorrentCatalog) (r : Ref) :
    Decidable (Evictable flight c r) := by
  unfold Evictable
  infer_instance

theorem evicted (hk : c.Retained stored flight documents)
    (ha : c.Accounted start rows flight committed past) (hrep : c.Represented ∅)
    (hr : c.entries.get? h = some r) (hsafe : Evictable flight c r) (he : c.Evicted c' h r)
    (hdropped : c'.indexDropped = 0) : c'.Retained stored flight documents := by
  have hheap (r' : Ref) : (c.heap r').SameStanding (c'.heap r') := by
    rw [he.heap]
    by_cases hr' : r' = r
    · subst hr'
      rw [Function.update_self]
      exact { toSameAccount := {} }
    · rw [Function.update_of_ne hr']
      exact { toSameAccount := {} }
  have howner (r' : Ref) : c'.owner r' = c.owner r' := (hheap r').infoHash
  -- without an overflow the orphan queue only grows
  have horphans : c'.orphanCounters =
      if (c.heap r).indexBase.isSome ∧ (c.heap r).hasUnflushed then c.orphanCounters ++ [r]
      else c.orphanCounters := by
    have hcount := he.indexDropped
    rw [he.orphanCounters]
    split
    next horphan =>
      rw [if_pos horphan, hdropped] at hcount
      simp only [addOrphanLocked, TorrentCatalog.check] at hcount ⊢
      split at hcount
      · omega
      next hroom => rw [if_neg hroom]
    next => rfl
  refine hk.kept hheap (fun k r' hr' ↦ (he.live_iff.mp hr').2) (fun r' hr' ↦ ?_)
    (fun r' hr' hheld huncovered hqueued ↦ ?_) he.nextRef he.indexTracking he.indexDocuments
  · rw [horphans] at hr'
    split at hr'
    next horphan =>
      rcases List.mem_append.mp hr' with hold | hnew
      · exact hk.orphans r' hold
      · rw [List.mem_singleton.mp hnew]
        exact horphan.1
    next => exact hk.orphans r' hr'
  · unfold Queued at hqueued ⊢
    rw [howner, he.indexDocuments, he.indexCounters, OrderedMap.get?_erase, horphans]
    by_cases heq : r' = r
    · subst heq
      have hbasedCase (hbased : (c.heap r').indexBase.isSome) : r' ∈ c.orphanCounters ++ [r'] ∧
          ((c.heap r').indexBase.isSome ∧ (c.heap r').hasUnflushed) := by
        refine ⟨List.mem_append_right _ List.mem_cons_self, hbased, ?_⟩
        -- the batch holds a part, so the flushed count alone does not hold everything either
        by_contra hflushed
        simp only [TorrentEntry.hasUnflushed, decide_eq_true_eq, not_or, not_lt] at hflushed
        refine huncovered fun k ↦ ?_
        have hcarried := ha.inFlight_nonneg k r'
        have hle : (c.heap r').count k ≤ (c.heap r').flushed k := by
          cases k
          · exact hflushed.1
          · exact hflushed.2
        omega
      rcases hsafe with hbased | hnone | hwaits | hcovered
      · obtain ⟨hmem, horphan⟩ := hbasedCase hbased
        right
        right
        rw [if_pos horphan]
        exact hmem
      · have hdatabase : (c.heap r').inDatabase := by
          simpa [TorrentEntry.held, hnone] using hheld
        obtain ⟨hmem, horphan⟩ := hbasedCase (hk.based r' hdatabase)
        right
        right
        rw [if_pos horphan]
        exact hmem
      · exact Or.inl hwaits
      · exact absurd hcovered huncovered
    · rcases hqueued with hdocument | hcounter | horphan
      · exact Or.inl hdocument
      · have hlive := hrep.counters_live _ r' hcounter
        have hne : c.owner r' ≠ h := fun hh ↦ by
          rw [hh, hr] at hlive
          exact heq (Option.some.inj hlive).symm
        rw [if_neg hne]
        exact Or.inr (Or.inl hcounter)
      · right
        right
        split
        · exact List.mem_append_left _ horphan
        · exact horphan

/-! ## Stored metadata -/

/-- The document queue has no place taken by another incarnation of the hash. -/
def Storable (c : TorrentCatalog) (h : Bytes) : Prop :=
  ∀ r ∈ c.indexDocuments.get? h, c.entries.get? h = some r

instance (c : TorrentCatalog) (h : Bytes) : Decidable (Storable c h) := by
  unfold Storable
  infer_instance

/-- The document of the entry is queued. -/
theorem described_again (hk : c.Retained stored flight documents) (hrep : c.Represented {h})
    (hr : c.entries.get? h = some r)
    (halone : ∀ r', c.indexDocuments.get? h = some r' → r' = r) {metadata : TorrentMetadata}
    (hs : c.Stored c' h r metadata) : c'.Retained stored flight documents := by
  have hentry : c'.heap r = storedEntry (c.heap r) metadata := hs.edited.entry_eq
  have hother {r' : Ref} (hne : r' ≠ r) : c'.heap r' = c.heap r' := by
    rw [hs.edited.heap, Function.update_of_ne hne]
  have hsame (r' : Ref) : (c'.heap r').SameAccount (c.heap r') ∧
      (c'.heap r').inDatabase = (c.heap r').inDatabase ∧
      (c'.heap r').indexBase = (c.heap r').indexBase ∧
      ((c.heap r').metadata.isSome → (c'.heap r').metadata.isSome) := by
    by_cases hr' : r' = r
    · subst hr'
      rw [hentry]
      exact ⟨{}, rfl, rfl, fun _ ↦ rfl⟩
    · rw [hother hr']
      exact ⟨{}, rfl, rfl, id⟩
  have hheld {r' : Ref} (hh : (c.heap r').held) : (c'.heap r').held := by
    simp only [TorrentEntry.held, decide_eq_true_eq, (hsame r').2.1] at hh ⊢
    exact hh.imp_left (hsame r').2.2.2
  have hkey : c.owner r = h := hrep.key h r hr
  have howner (r' : Ref) : c'.owner r' = c.owner r' := (hsame r').1.infoHash.symm
  have hdocuments (k : Bytes) : c'.indexDocuments.get? k =
      if k = h then some r else c.indexDocuments.get? k := by
    rw [hs.indexDocuments, if_pos hk.tracking, OrderedMap.get?_setDefault]
    cases hget : c.indexDocuments.get? h with
    | none => rfl
    | some r' => rw [halone r' hget]; rfl
  have hcounters : c'.indexCounters = c.indexCounters.erase h := by
    rw [hs.indexCounters, if_pos hk.tracking]
  have hself : (c'.heap r).metadata.isSome := by
    rw [hentry]
    rfl
  constructor
  case tracking => rw [hs.indexTracking, hk.tracking]
  case stored_held =>
    intro r' hr'
    rw [hs.edited.nextRef]
    exact (hk.stored_held r' hr').imp_right hheld
  case based =>
    intro r' hr'
    rw [(hsame r').2.2.1]
    rw [(hsame r').2.1] at hr'
    exact hk.based r' hr'
  case held =>
    intro r' hr'
    rw [(hsame r').2.2.1] at hr'
    exact hheld (hk.held r' hr')
  case described =>
    intro k r' hr'
    rw [hdocuments] at hr'
    split at hr'
    · rw [← Option.some.inj hr']
      exact hself
    · exact (hsame r').2.2.2 (hk.described k r' hr')
  case orphans =>
    intro r' hr'
    rw [hs.orphanCounters] at hr'
    rw [(hsame r').2.2.1]
    exact hk.orphans r' hr'
  case queued =>
    intro r' hr' hheld' huncovered
    rw [hs.edited.nextRef] at hr'
    by_cases heq : r' = r
    · left
      rw [howner, heq, hkey, hdocuments, if_pos rfl]
    · have hqueued := hk.queued r' hr' (by rw [← hother heq]; exact hheld') fun hcovered ↦
        huncovered fun k ↦ by rw [hother heq]; exact hcovered k
      unfold Queued at hqueued ⊢
      rw [howner, hdocuments, hcounters, OrderedMap.get?_erase, hs.orphanCounters]
      rcases hqueued with hdocument | hcounter | horphan
      · have hne : c.owner r' ≠ h := fun hh ↦ heq (halone r' (hh ▸ hdocument))
        rw [if_neg hne]
        exact Or.inl hdocument
      · have hlive := hrep.counters_live _ r' hcounter
        have hne : c.owner r' ≠ h := fun hh ↦ by
          rw [hh, hr] at hlive
          exact heq (Option.some.inj hlive).symm
        rw [if_neg hne, if_neg hne]
        exact Or.inr (Or.inl hcounter)
      · exact Or.inr (Or.inr horphan)
  case first =>
    intro k r' hr' hheld' hbase
    rw [hs.edited.entries] at hr'
    rw [(hsame r').2.2.1] at hbase
    rw [hdocuments]
    by_cases hk' : k = h
    · subst hk'
      rw [if_pos rfl]
      exact Or.inl (hr.symm.trans hr')
    · have heq : r' ≠ r := fun heq ↦ hk' (hrep.live_unique hr (heq ▸ hr'))
      rw [if_neg hk']
      rw [hother heq] at hheld'
      exact hk.first k r' hr' hheld' hbase
  case flight_hashes => exact hk.flight_hashes
  case flight_described =>
    intro hd snapshot hsnapshot
    exact (hk.flight_described hd snapshot hsnapshot).imp_right (hsame _).2.2.2
  case flight_alone =>
    intro hd snapshot hsnapshot hlive r' hr'
    rw [hs.edited.entries] at hlive
    rw [hdocuments] at hr'
    split at hr'
    next hh =>
      rw [hh, hr] at hlive
      exact Option.some.inj (hr'.symm.trans hlive)
    next => exact hk.flight_alone hd snapshot hsnapshot hlive r' hr'
  case flight_based =>
    intro hd snapshot hsnapshot
    rw [(hsame _).2.2.1]
    exact hk.flight_based hd snapshot hsnapshot

/-- Nothing is lost by an operation of the crawler and fetch threads that stores only where the
document queue has room and evicts only what may leave. -/
theorem clientRules (start rows : Rows) (stored : Finset Ref) (flight : List IndexSnapshot)
    (committed documents : Bool) : ClientRules (Evictable flight) Storable
      fun past c ↦ c.Accounted start rows flight committed past ∧
        (c.indexDropped = 0 → c.Retained stored flight documents) where
  quiet := fun _ _ _ _ hc ↦ ⟨hc.1.of_eq, fun hd ↦ (hc.2 hd).of_eq⟩
  reworked := fun past c c' h r entry hrep hc hr hw ↦
    ⟨(Accounted.clientRules start rows flight committed).reworked past c c' h r entry hrep hc.1 hr hw,
      fun hd ↦ (hc.2 (hw.queues.indexDropped ▸ hd)).edited hw.edited hw.record.standing hw.queues⟩
  sighted := fun past c mid c' h r source moment entry hrep hc hlength ho hq hmid hs ↦
    ⟨(Accounted.clientRules start rows flight committed).sighted past c mid c' h r source moment entry
        hrep hc.1 hlength ho hq hmid hs,
      fun hd ↦ ((hc.2 ((hs.indexDropped.trans hq.indexDropped) ▸ hd)).obtained hc.1 ho hq).sighted
        hmid ho.entry_live hs⟩
  evicted := fun past c c' h r hrep hc hr hfree hsafe he ↦ by
    refine ⟨(Accounted.clientRules start rows flight committed).evicted past c c' h r hrep hc.1 hr
      hfree trivial he, fun hd ↦ ?_⟩
    have hbefore : c.indexDropped = 0 := by
      have hcount := he.indexDropped
      rw [hd] at hcount
      split at hcount
      · simp only [addOrphanLocked, TorrentCatalog.check] at hcount
        omega
      · exact hcount.symm
    exact (hc.2 hbefore).evicted hc.1 hrep hr hsafe he hd
  stored := fun past c mid c' r metadata now hrep hc hsafe ho hq hmid hs ↦ by
    refine ⟨(Accounted.clientRules start rows flight committed).stored past c mid c' r metadata now
      hrep hc.1 trivial ho hq hmid hs, fun hd ↦ ?_⟩
    have hk := (hc.2 ((hs.indexDropped.trans hq.indexDropped) ▸ hd)).obtained hc.1 ho hq
    refine hk.described_again hmid ho.entry_live (fun r' hr' ↦ ?_) hs
    rw [hq.indexDocuments] at hr'
    have hlive := (ho.keeps hrep.allocated (hsafe r' hr')).1
    exact Option.some.inj (hlive.symm.trans ho.entry_live)
  dropped := fun past c key r rest hrep hc hpop ↦ by
    refine ⟨(Accounted.clientRules start rows flight committed).dropped past c key r rest hrep hc.1
      hpop, fun hd ↦ ?_⟩
    have hkept := (dropUnwrittenMetadataLocked_spec
      (c := { c with indexDocuments := rest, indexDropped := c.indexDropped + 1 })
      hrep.of_eq r).2.1.indexDropped
    rw [hd] at hkept
    exact absurd hkept (Nat.zero_ne_add_one _)
  stable := fun c c' h r r' he hne hsafe ↦ by
    unfold Evictable Covered owner at hsafe ⊢
    rw [he.heap_other hne, he.indexDocuments]
    exact hsafe

end Retained

end TorrentCatalog

end DhtScraper
