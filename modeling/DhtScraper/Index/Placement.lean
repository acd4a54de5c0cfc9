import DhtScraper.Index.Recovery

/-!
# Where the index thread finds an entry

As long as metadata is stored for claimed hashes only, an entry has either nothing to write, or metadata
and no base, or it was written, which released its metadata and gave it a base.  `Placed` says where the
live entries wait in each of these stages.  Other than `Retained` it allows that documents are dropped.
-/

namespace DhtScraper

open Library

/-- An entry has a base exactly when it is in the database, and its metadata is released by then. -/
structure TorrentEntry.Coherent (entry : TorrentEntry) : Prop where
  based : entry.indexBase.isSome = entry.inDatabase
  released : entry.inDatabase = true → entry.metadata = none ∧ entry.fetchState = .done

/-- The two entries hold the same account and are in the same stage. -/
structure TorrentEntry.SameStage (entry entry' : TorrentEntry) : Prop
    extends entry.SameAccount entry' where
  metadata : entry'.metadata = entry.metadata
  inDatabase : entry'.inDatabase = entry.inDatabase
  based : entry'.indexBase.isSome = entry.indexBase.isSome
  done : entry'.fetchState = .done ↔ entry.fetchState = .done

namespace TorrentEntry

variable {entry entry' : TorrentEntry}

theorem SameStage.refl (entry : TorrentEntry) : entry.SameStage entry :=
  ⟨⟨rfl, fun _ ↦ rfl, fun _ ↦ rfl⟩, rfl, rfl, rfl, Iff.rfl⟩

theorem SameRecord.stage (h : entry.SameRecord entry')
    (done : entry'.fetchState = .done ↔ entry.fetchState = .done) : entry.SameStage entry' :=
  ⟨h.account, h.metadata, h.inDatabase, by rw [h.indexBase], done⟩

theorem Coherent.of_same (h : entry.Coherent) (hsame : entry.SameStage entry') :
    entry'.Coherent where
  based := by rw [hsame.based, hsame.inDatabase, h.based]
  released := fun hdatabase ↦ by
    rw [hsame.inDatabase] at hdatabase
    rw [hsame.metadata, hsame.done]
    exact h.released hdatabase

theorem Coherent.unwritten (h : entry.Coherent) (hmeta : entry.metadata.isSome) :
    entry.inDatabase = false ∧ entry.indexBase = none := by
  have hdatabase : entry.inDatabase = false := by
    by_contra hdatabase
    have hnone := (h.released (by simpa using hdatabase)).1
    rw [hnone] at hmeta
    cases hmeta
  refine ⟨hdatabase, ?_⟩
  have hbased := h.based
  rw [hdatabase] at hbased
  simpa using hbased

end TorrentEntry

namespace TorrentCatalog

/-- The queues and the batch in flight follow the stages of the entries; `documents` says that the batch
is one of documents. -/
structure Placed (c : TorrentCatalog) (flight : List IndexSnapshot) (documents : Bool) : Prop where
  tracking : c.indexTracking = true
  room : 1 ≤ c.indexMaxPending
  coherent : ∀ r, (c.heap r).Coherent
  described : ∀ h r, c.indexDocuments.get? h = some r → (c.heap r).metadata.isSome
  orphans : ∀ r ∈ c.orphanCounters, (c.heap r).inDatabase = true
  /-- What a live entry counted since it was written, or since its document left, waits in the counter
  queue. -/
  counted : ∀ h r, c.entries.get? h = some r →
    (c.heap r).inDatabase = true ∨ documents = true ∧ r ∈ flight.map IndexSnapshot.entry →
    ¬ c.Covered flight r → c.indexCounters.get? h = some r
  flight_documents : documents = true → ∀ snapshot ∈ flight, snapshot.metadata.isSome ∧
    (c.heap snapshot.entry).metadata = snapshot.metadata ∧
    ∀ h, c.indexDocuments.get? h ≠ some snapshot.entry
  flight_counters : documents = false → ∀ snapshot ∈ flight,
    snapshot.base.isSome ∧ (c.heap snapshot.entry).inDatabase = true

namespace Placed

variable {c c' mid : TorrentCatalog} {start rows : Rows} {flight : List IndexSnapshot}
  {committed documents : Bool} {past : List Sighting} {h : Bytes} {r : Ref} {entry : TorrentEntry}

theorem covered_iff (heap : (c.heap r).SameAccount (c'.heap r)) :
    c'.Covered flight r ↔ c.Covered flight r := by
  unfold Covered
  simp only [heap.count, heap.flushed]

/-- The stages stay the same, live entries and queued documents may leave, and every live entry that
is queued stays queued. -/
theorem kept (hp : c.Placed flight documents)
    (heap : ∀ r, (c.heap r).SameStage (c'.heap r))
    (entries : ∀ h r, c'.entries.get? h = some r → c.entries.get? h = some r)
    (waiting : ∀ h r, c'.indexDocuments.get? h = some r → c.indexDocuments.get? h = some r)
    (orphans : ∀ r ∈ c'.orphanCounters, (c.heap r).inDatabase = true)
    (counters : ∀ h r, c'.entries.get? h = some r → c.indexCounters.get? h = some r →
      c'.indexCounters.get? h = some r)
    (tracking : c'.indexTracking = c.indexTracking)
    (room : c'.indexMaxPending = c.indexMaxPending) : c'.Placed flight documents where
  tracking := tracking.trans hp.tracking
  room := room ▸ hp.room
  coherent := fun r ↦ (hp.coherent r).of_same (heap r)
  described := fun h r hr ↦ by
    rw [(heap r).metadata]
    exact hp.described h r (waiting h r hr)
  orphans := fun r hr ↦ by
    rw [(heap r).inDatabase]
    exact orphans r hr
  counted := fun h r hr hstage huncovered ↦ by
    rw [(heap r).inDatabase] at hstage
    rw [covered_iff (heap r).toSameAccount] at huncovered
    exact counters h r hr (hp.counted h r (entries h r hr) hstage huncovered)
  flight_documents := fun hd snapshot hsnapshot ↦ by
    rw [(heap _).metadata]
    obtain ⟨hmeta, hsame, hgone⟩ := hp.flight_documents hd snapshot hsnapshot
    exact ⟨hmeta, hsame, fun h hh ↦ hgone h (waiting h _ hh)⟩
  flight_counters := fun hd snapshot hsnapshot ↦ by
    rw [(heap _).inDatabase]
    exact hp.flight_counters hd snapshot hsnapshot

theorem of_fields (hp : c.Placed flight documents) (heap : c'.heap = c.heap)
    (entries : c'.entries = c.entries) (waiting : c'.indexDocuments = c.indexDocuments)
    (counters : c'.indexCounters = c.indexCounters) (orphans : c'.orphanCounters = c.orphanCounters)
    (tracking : c'.indexTracking = c.indexTracking)
    (room : c'.indexMaxPending = c.indexMaxPending) : c'.Placed flight documents := by
  refine hp.kept (fun r ↦ ?_) (fun _ _ hr ↦ ?_) (fun _ _ hr ↦ ?_) ?_ (fun _ _ _ hr ↦ ?_) tracking
    room
  · rw [heap]
    exact .refl _
  · rwa [← entries]
  · rwa [← waiting]
  · rw [orphans]
    exact hp.orphans
  · rwa [counters]

/-- The stages do not depend on the other fields. -/
theorem of_eq (hp : c.Placed flight documents) {limits : CatalogLimits} {nextRef : Ref}
    {fetched fetchable needsLookup needsCheck : OrderedMap Bytes Ref}
    {stateCounts : FetchState → ℤ}
    {observations discovered evicted indexDropped : ℕ}
    {lookupsInProgress metadataBytes knownDone : ℤ} {checkDatabase raised : Bool} :
    { c with
      limits := limits, nextRef := nextRef, fetched := fetched, fetchable := fetchable
      needsLookup := needsLookup, needsCheck := needsCheck, stateCounts := stateCounts
      observations := observations, discovered := discovered, evicted := evicted
      lookupsInProgress := lookupsInProgress, indexDropped := indexDropped
      checkDatabase := checkDatabase, metadataBytes := metadataBytes, knownDone := knownDone
      raised := raised }.Placed flight documents :=
  hp.of_fields rfl rfl rfl rfl rfl rfl rfl

/-- A live entry is edited without leaving its stage. -/
theorem edited (hp : c.Placed flight documents) (he : c.Edited c' h r entry)
    (hsame : (c.heap r).SameStage entry) (hq : c.QueuesKept c') : c'.Placed flight documents := by
  refine hp.kept (fun r' ↦ ?_) (fun _ _ hr' ↦ ?_) (fun _ _ hr' ↦ ?_) ?_ (fun _ _ _ hr' ↦ ?_)
    hq.indexTracking hq.indexMaxPending
  · rw [he.heap]
    by_cases heq : r' = r
    · subst heq
      rw [Function.update_self]
      exact hsame
    · rw [Function.update_of_ne heq]
      exact .refl _
  · rwa [← he.entries]
  · rwa [← hq.indexDocuments]
  · rw [hq.orphanCounters]
    exact hp.orphans
  · rwa [hq.indexCounters]

/-! ## Creation, sightings and eviction -/

theorem obtained (hp : c.Placed flight documents)
    (ha : c.Accounted start rows flight committed past) {now : ℚ} (ho : c.Obtained mid h now r)
    (hq : c.QueuesKept mid) : mid.Placed flight documents := by
  cases ho with
  | live hr entries heap nextRef =>
    exact hp.of_fields heap entries hq.indexDocuments hq.indexCounters hq.orphanCounters
      hq.indexTracking hq.indexMaxPending
  | new hnone entries heap nextRef =>
    have hold {r : Ref} (hr : r < c.nextRef) : mid.heap r = c.heap r := by
      rw [heap, Function.update_of_ne (Nat.ne_of_lt hr)]
    have hnew : mid.heap c.nextRef = TorrentEntry.new h now (!c.checkDatabase) := by
      rw [heap, Function.update_self]
    have hflight {snapshot : IndexSnapshot} (hsnapshot : snapshot ∈ flight) :
        snapshot.entry < c.nextRef := (ha.carried snapshot hsnapshot).allocated
    constructor
    case tracking => rw [hq.indexTracking, hp.tracking]
    case room => rw [hq.indexMaxPending]; exact hp.room
    case coherent =>
      intro r
      by_cases heq : r = c.nextRef
      · rw [heq, hnew]
        exact ⟨rfl, fun hdatabase ↦ by cases hdatabase⟩
      · rw [heap, Function.update_of_ne heq]
        exact hp.coherent r
    case described =>
      intro k r hr
      rw [hq.indexDocuments] at hr
      rw [hold (ha.documents k r hr).1]
      exact hp.described k r hr
    case orphans =>
      intro r hr
      rw [hq.orphanCounters] at hr
      rw [hold (ha.orphans r hr).1]
      exact hp.orphans r hr
    case counted =>
      intro k r hr hstage huncovered
      have hne : r ≠ c.nextRef := fun heq ↦ by
        rcases hstage with hdatabase | ⟨-, hmem⟩
        · rw [heq, hnew] at hdatabase
          cases hdatabase
        · obtain ⟨snapshot, hsnapshot, hentry⟩ := List.mem_map.mp hmem
          exact Nat.lt_irrefl _ (heq ▸ hentry ▸ hflight hsnapshot)
      have hsame : mid.heap r = c.heap r := by rw [heap, Function.update_of_ne hne]
      have hlive : c.entries.get? k = some r := by
        rw [entries, OrderedMap.get?_insert] at hr
        split at hr
        · exact absurd (Option.some.inj hr).symm hne
        · exact hr
      rw [hsame] at hstage
      have hcovered : mid.Covered flight r ↔ c.Covered flight r :=
        covered_iff (by rw [hsame]; exact ⟨rfl, fun _ ↦ rfl, fun _ ↦ rfl⟩)
      rw [hq.indexCounters]
      exact hp.counted k r hlive hstage (hcovered.not.mp huncovered)
    case flight_documents =>
      intro hd snapshot hsnapshot
      rw [hold (hflight hsnapshot), hq.indexDocuments]
      exact hp.flight_documents hd snapshot hsnapshot
    case flight_counters =>
      intro hd snapshot hsnapshot
      rw [hold (hflight hsnapshot)]
      exact hp.flight_counters hd snapshot hsnapshot

/-- The counter queue receives the sighted entry, if there is anything to write. -/
theorem sighted (hp : c.Placed flight documents) (hrep : c.Represented {h})
    (hr : c.entries.get? h = some r) {source : Source} {moment : ℚ}
    (hs : c.Sighted c' h r source moment entry) : c'.Placed flight documents := by
  have hentry : c'.heap r = entry := hs.edited.entry_eq
  have hother {r' : Ref} (hne : r' ≠ r) : c'.heap r' = c.heap r' := by
    rw [hs.edited.heap, Function.update_of_ne hne]
  have hsame (r' : Ref) : (c'.heap r').metadata = (c.heap r').metadata ∧
      (c'.heap r').inDatabase = (c.heap r').inDatabase ∧
      (c'.heap r').indexBase = (c.heap r').indexBase ∧
      (c'.heap r').fetchState = (c.heap r').fetchState := by
    by_cases heq : r' = r
    · subst heq
      rw [hentry]
      exact ⟨hs.record.metadata, hs.record.inDatabase, hs.record.indexBase, hs.fetchState⟩
    · rw [hother heq]
      exact ⟨rfl, rfl, rfl, rfl⟩
  constructor
  case tracking => rw [hs.indexTracking, hp.tracking]
  case room => rw [hs.indexMaxPending]; exact hp.room
  case coherent =>
    intro r'
    obtain ⟨hmeta, hdatabase, hbase, hstate⟩ := hsame r'
    constructor
    · rw [hbase, hdatabase, (hp.coherent r').based]
    · rw [hdatabase, hmeta, hstate]
      exact (hp.coherent r').released
  case described =>
    intro k r' hr'
    rw [hs.indexDocuments] at hr'
    rw [(hsame r').1]
    exact hp.described k r' hr'
  case orphans =>
    intro r' hr'
    rw [hs.orphanCounters] at hr'
    rw [(hsame r').2.1]
    exact hp.orphans r' hr'
  case counted =>
    intro k r' hr' hstage huncovered
    rw [hs.edited.entries] at hr'
    rw [(hsame r').2.1] at hstage
    by_cases heq : r' = r
    · subst heq
      have hwritable : entry.metadata.isSome ∨ entry.inDatabase = true := by
        rw [hs.record.metadata, hs.record.inDatabase]
        rcases hstage with hdatabase | ⟨hd, hmem⟩
        · exact Or.inr hdatabase
        · obtain ⟨snapshot, hsnapshot, rfl⟩ := List.mem_map.mp hmem
          obtain ⟨hmeta, hkept, -⟩ := hp.flight_documents hd snapshot hsnapshot
          exact Or.inl (by rw [← hkept] at hmeta; exact hmeta)
      rw [hs.indexCounters, if_pos ⟨hp.tracking, hwritable⟩, hrep.live_unique hr hr',
        OrderedMap.get?_setDefault, if_pos rfl]
      cases hget : c.indexCounters.get? h with
      | none => rfl
      | some r'' => exact (hrep.counters_live h r'' hget).symm.trans hr
    · have hqueued := hp.counted k r' hr' hstage fun hcovered ↦ huncovered fun k ↦ by
        rw [hother heq]
        exact hcovered k
      rw [hs.indexCounters]
      split
      · rw [OrderedMap.get?_setDefault]
        split
        next hk => rw [← hk, hqueued]; rfl
        next => exact hqueued
      · exact hqueued
  case flight_documents =>
    intro hd snapshot hsnapshot
    rw [(hsame _).1, hs.indexDocuments]
    exact hp.flight_documents hd snapshot hsnapshot
  case flight_counters =>
    intro hd snapshot hsnapshot
    rw [(hsame _).2.1]
    exact hp.flight_counters hd snapshot hsnapshot

theorem evicted (hp : c.Placed flight documents) (he : c.Evicted c' h r) :
    c'.Placed flight documents := by
  refine hp.kept (fun r' ↦ ?_) (fun _ _ hr' ↦ (he.live_iff.mp hr').2) (fun _ _ hr' ↦ ?_)
    (fun r' hr' ↦ ?_) (fun k r' hr' hcounter ↦ ?_) he.indexTracking he.indexMaxPending
  · rw [he.heap]
    by_cases heq : r' = r
    · subst heq
      rw [Function.update_self]
      exact ⟨⟨rfl, fun k ↦ by cases k <;> rfl, fun k ↦ by cases k <;> rfl⟩, rfl, rfl, rfl, Iff.rfl⟩
    · rw [Function.update_of_ne heq]
      exact .refl _
  · rwa [← he.indexDocuments]
  · rw [he.orphanCounters] at hr'
    split at hr'
    next horphan =>
      rcases List.mem_append.mp ((c.addOrphanLocked_sublist r).subset hr') with hold | hnew
      · exact hp.orphans r' hold
      · rw [List.mem_singleton.mp hnew, ← (hp.coherent r).based]
        exact horphan.1
    next => exact hp.orphans r' hr'
  · rw [he.indexCounters, OrderedMap.get?_erase, if_neg (he.live_iff.mp hr').1]
    exact hcounter

/-! ## Stored and dropped metadata -/

/-- Metadata is stored for a hash whose fetch is claimed. -/
def Storing (c : TorrentCatalog) (h : Bytes) : Prop :=
  ∃ r, c.entries.get? h = some r ∧ (c.heap r).fetchState = .inProgress

/-- An entry whose fetch is claimed has nothing to write, so it is not in flight. -/
theorem not_in_flight (hp : c.Placed flight documents)
    (hdatabase : (c.heap r).inDatabase = false) (hmeta : (c.heap r).metadata = none)
    {snapshot : IndexSnapshot} (hsnapshot : snapshot ∈ flight) : snapshot.entry ≠ r := by
  rintro rfl
  cases documents with
  | true =>
    obtain ⟨hsome, hsame, -⟩ := hp.flight_documents rfl snapshot hsnapshot
    rw [← hsame, hmeta] at hsome
    cases hsome
  | false =>
    have hwritten := (hp.flight_counters rfl snapshot hsnapshot).2
    rw [hdatabase] at hwritten
    cases hwritten

/-- A pending or claimed entry is not in the database and has no metadata. -/
theorem plain_of_open (hp : c.Placed flight documents) {opened : Set Bytes}
    (hrep : c.Represented opened) (hr : c.entries.get? h = some r)
    (hopen : (c.heap r).fetchState ≠ .done) :
    (c.heap r).inDatabase = false ∧ (c.heap r).metadata = none := by
  refine ⟨?_, ?_⟩
  · by_contra hdatabase
    exact hopen ((hp.coherent r).released (by simpa using hdatabase)).2
  · by_contra hmeta
    exact hopen (hrep.stored_done h r hr (Option.isSome_iff_ne_none.mpr hmeta))

/-- An entry that is neither in the database nor in flight is edited, and stays out of both. -/
theorem outside (hp : c.Placed flight documents) (hdatabase : (c.heap r).inDatabase = false)
    (hflight : ∀ snapshot ∈ flight, snapshot.entry ≠ r)
    (heap : c'.heap = Function.update c.heap r entry) (entries : c'.entries = c.entries)
    (based : entry.indexBase = none) (database : entry.inDatabase = false)
    (waiting : ∀ k r', c'.indexDocuments.get? k = some r' →
      r' = r ∧ entry.metadata.isSome ∨ r' ≠ r ∧ c.indexDocuments.get? k = some r')
    (counters : ∀ k r', r' ≠ r → c.entries.get? k = some r' → c.indexCounters.get? k = some r' →
      c'.indexCounters.get? k = some r')
    (orphans : c'.orphanCounters = c.orphanCounters)
    (tracking : c'.indexTracking = c.indexTracking)
    (room : c'.indexMaxPending = c.indexMaxPending) : c'.Placed flight documents := by
  have hentry : c'.heap r = entry := by rw [heap, Function.update_self]
  have hother {r' : Ref} (hne : r' ≠ r) : c'.heap r' = c.heap r' := by
    rw [heap, Function.update_of_ne hne]
  constructor
  case tracking => rw [tracking, hp.tracking]
  case room => rw [room]; exact hp.room
  case coherent =>
    intro r'
    by_cases heq : r' = r
    · rw [heq, hentry]
      refine ⟨by rw [based, database]; rfl, fun hwritten ↦ ?_⟩
      rw [database] at hwritten
      cases hwritten
    · rw [hother heq]
      exact hp.coherent r'
  case described =>
    intro k r' hr'
    rcases waiting k r' hr' with ⟨rfl, hmeta⟩ | ⟨hne, hold⟩
    · rw [hentry]
      exact hmeta
    · rw [hother hne]
      exact hp.described k r' hold
  case orphans =>
    intro r' hr'
    rw [orphans] at hr'
    have hne : r' ≠ r := fun heq ↦ by
      have hwritten := hp.orphans r' hr'
      rw [heq, hdatabase] at hwritten
      cases hwritten
    rw [hother hne]
    exact hp.orphans r' hr'
  case counted =>
    intro k r' hr' hstage huncovered
    rw [entries] at hr'
    have hne : r' ≠ r := fun heq ↦ by
      rcases hstage with hwritten | ⟨-, hmem⟩
      · rw [heq, hentry, database] at hwritten
        cases hwritten
      · obtain ⟨snapshot, hsnapshot, hsame⟩ := List.mem_map.mp hmem
        exact hflight snapshot hsnapshot (hsame.trans heq)
    rw [hother hne] at hstage
    refine counters k r' hne hr' (hp.counted k r' hr' hstage fun hcovered ↦ huncovered fun k ↦ ?_)
    rw [hother hne]
    exact hcovered k
  case flight_documents =>
    intro hd snapshot hsnapshot
    have hne := hflight snapshot hsnapshot
    rw [hother hne]
    obtain ⟨hsome, hsame, hgone⟩ := hp.flight_documents hd snapshot hsnapshot
    refine ⟨hsome, hsame, fun k hk ↦ ?_⟩
    rcases waiting k _ hk with ⟨heq, -⟩ | ⟨-, hold⟩
    · exact hne heq
    · exact hgone k hold
  case flight_counters =>
    intro hd snapshot hsnapshot
    rw [hother (hflight snapshot hsnapshot)]
    exact hp.flight_counters hd snapshot hsnapshot

theorem stored (hp : c.Placed flight documents) {opened : Set Bytes} (hrep : c.Represented opened)
    (hr : c.entries.get? h = some r) (hclaimed : (c.heap r).fetchState = .inProgress)
    {metadata : TorrentMetadata} (hs : c.Stored c' h r metadata) : c'.Placed flight documents := by
  obtain ⟨hdatabase, hmeta⟩ := hp.plain_of_open hrep hr (by rw [hclaimed]; decide)
  have hbase : (c.heap r).indexBase = none := by
    have hbased := (hp.coherent r).based
    rw [hdatabase] at hbased
    simpa using hbased
  refine hp.outside hdatabase (fun snapshot hsnapshot ↦ hp.not_in_flight hdatabase hmeta hsnapshot)
    hs.edited.heap hs.edited.entries hbase hdatabase (fun k r' hr' ↦ ?_)
    (fun k r' hne hlive hcounter ↦ ?_) hs.orphanCounters hs.indexTracking hs.indexMaxPending
  · by_cases heq : r' = r
    · exact Or.inl ⟨heq, rfl⟩
    · refine Or.inr ⟨heq, ?_⟩
      rw [hs.indexDocuments, if_pos hp.tracking, OrderedMap.get?_setDefault] at hr'
      split at hr'
      next hk =>
        cases hget : c.indexDocuments.get? h with
        | none =>
          rw [hget] at hr'
          exact absurd (Option.some.inj hr').symm heq
        | some other =>
          rw [hget] at hr'
          rw [hk, hget]
          exact hr'
      next => exact hr'
  · have hk : k ≠ h := fun hk ↦ hne (Option.some.inj ((hk ▸ hlive).symm.trans hr))
    rw [hs.indexCounters, if_pos hp.tracking, OrderedMap.get?_erase, if_neg hk]
    exact hcounter

/-- The oldest document is dropped: its entry, when it is the live one, has nothing to write. -/
theorem dropped (hp : c.Placed flight documents)
    (ha : c.Accounted start rows flight committed past) (hrep : c.Represented ∅) {key : Bytes}
    {rest : OrderedMap Bytes Ref} (hpop : c.indexDocuments.popFirst = some ((key, r), rest)) :
    ({ c with
      indexDocuments := rest
      indexDropped := c.indexDropped + 1 }.dropUnwrittenMetadataLocked r).Placed flight
        documents := by
  let popped : TorrentCatalog := { c with
    indexDocuments := rest
    indexDropped := c.indexDropped + 1 }
  obtain ⟨hfirst, hrest⟩ := OrderedMap.get?_of_popFirst hpop
  have hsub {k : Bytes} {r' : Ref} (hr' : rest.get? k = some r') :
      k ≠ key ∧ c.indexDocuments.get? k = some r' := by
    rw [hrest] at hr'
    split at hr'
    · cases hr'
    next hne => exact ⟨hne, hr'⟩
  have hpopped : popped.Placed flight documents :=
    hp.kept (fun _ ↦ .refl _) (fun _ _ hr' ↦ hr') (fun _ _ hr' ↦ (hsub hr').2) hp.orphans
      (fun _ _ _ hr' ↦ hr') rfl rfl
  change (popped.dropUnwrittenMetadataLocked r).Placed flight documents
  obtain ⟨-, hqueues, ⟨b, heq⟩ | ⟨h, hr, -, hedited⟩⟩ :=
    dropUnwrittenMetadataLocked_spec (c := popped) hrep.of_eq r
  · rw [heq]
    exact hpopped.of_eq
  · obtain ⟨hdatabase, hbase⟩ := (hp.coherent r).unwritten (hp.described key r hfirst)
    refine hpopped.outside hdatabase (fun snapshot hsnapshot heq ↦ ?_) hedited.heap hedited.entries
      hbase hdatabase (fun k r' hr' ↦ ?_) (fun k r' _ _ hcounter ↦ ?_) hqueues.orphanCounters
      hqueues.indexTracking hqueues.indexMaxPending
    · cases documents with
      | true => exact (hp.flight_documents rfl snapshot hsnapshot).2.2 key (heq ▸ hfirst)
      | false =>
        have hwritten := (hp.flight_counters rfl snapshot hsnapshot).2
        rw [heq, hdatabase] at hwritten
        cases hwritten
    · rw [hqueues.indexDocuments] at hr'
      refine Or.inr ⟨fun heq ↦ ?_, hr'⟩
      -- a reference waits under the hash of its entry only
      obtain ⟨hne, hold⟩ := hsub hr'
      exact hne ((ha.documents k r' hold).2.symm.trans (heq ▸ (ha.documents key r hfirst).2))
    · rw [hqueues.indexCounters]
      exact hcounter

/-- The operations of the crawler and fetch threads keep the places of the entries. -/
theorem clientRules (start rows : Rows) (flight : List IndexSnapshot) (committed documents : Bool) :
    ClientRules (fun _ _ ↦ True) Storing fun past c ↦
      c.Accounted start rows flight committed past ∧ c.Placed flight documents where
  quiet := fun _ _ _ _ hc ↦ ⟨hc.1.of_eq, hc.2.of_eq⟩
  reworked := fun past c c' h r entry hrep hc hr hw ↦
    ⟨(Accounted.clientRules start rows flight committed).reworked past c c' h r entry hrep hc.1 hr hw,
      hc.2.edited hw.edited (hw.record.stage hw.done) hw.queues⟩
  sighted := fun past c mid c' h r source moment entry hrep hc hlength ho hq hmid hs ↦
    ⟨(Accounted.clientRules start rows flight committed).sighted past c mid c' h r source moment entry
        hrep hc.1 hlength ho hq hmid hs,
      (hc.2.obtained hc.1 ho hq).sighted hmid ho.entry_live hs⟩
  evicted := fun past c c' h r hrep hc hr hfree _ he ↦
    ⟨(Accounted.clientRules start rows flight committed).evicted past c c' h r hrep hc.1 hr hfree
      trivial he, hc.2.evicted he⟩
  stored := fun past c mid c' r metadata now hrep hc hclaimed ho hq hmid hs ↦ by
    refine ⟨(Accounted.clientRules start rows flight committed).stored past c mid c' r metadata now
      hrep hc.1 trivial ho hq hmid hs, ?_⟩
    obtain ⟨r', hr', hfetching⟩ := hclaimed
    obtain ⟨hlive, hsame⟩ := ho.keeps hrep.allocated hr'
    have heq : r' = r := Option.some.inj (hlive.symm.trans ho.entry_live)
    exact (hc.2.obtained hc.1 ho hq).stored hmid ho.entry_live
      (by rw [← heq, hsame]; exact hfetching) hs
  dropped := fun past c key r rest hrep hc hpop ↦
    ⟨(Accounted.clientRules start rows flight committed).dropped past c key r rest hrep hc.1 hpop,
      hc.2.dropped hc.1 hrep hpop⟩
  stable := fun _ _ _ _ _ _ _ _ ↦ trivial

end Placed

end TorrentCatalog

end DhtScraper
