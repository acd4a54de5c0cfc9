import DhtScraper.Catalog.Rework

/-!
# Creation and eviction of entries

The two places where the set of live entries changes.  An entry is created with its key open, to be
closed by the operation that asked for it.  Eviction removes victims one by one; what holds before
and is kept by each removal holds after it.
-/

namespace DhtScraper

open Library

namespace TorrentCatalog

variable {c c' : TorrentCatalog} {h : Bytes} {r : Ref}

/-! ## Creation -/

/-- `r` is the entry of `h` in `c'`: the live one of `c`, or a new one that was never stored in the
heap before. -/
inductive Obtained (c c' : TorrentCatalog) (h : Bytes) (now : ℚ) : Ref → Prop where
  | live {r : Ref} (hr : c.entries.get? h = some r) (entries : c'.entries = c.entries)
      (heap : c'.heap = c.heap) (nextRef : c'.nextRef = c.nextRef) : Obtained c c' h now r
  | new (hnone : c.entries.get? h = none) (entries : c'.entries = c.entries.insert h c.nextRef)
      (heap : c'.heap =
        Function.update c.heap c.nextRef (TorrentEntry.new h now (!c.checkDatabase)))
      (nextRef : c'.nextRef = c.nextRef + 1) : Obtained c c' h now c.nextRef

theorem Obtained.entry_live {now : ℚ} (ho : c.Obtained c' h now r) : c'.entries.get? h = some r := by
  cases ho with
  | live hr entries heap nextRef => rw [entries, hr]
  | new hnone entries heap nextRef => simp [entries]

theorem Obtained.other_live {now : ℚ} (ho : c.Obtained c' h now r) {k : Bytes} (hk : k ≠ h) :
    c'.entries.get? k = c.entries.get? k := by
  cases ho with
  | live hr entries heap nextRef => rw [entries]
  | new hnone entries heap nextRef => simp [entries, hk]

/-- A live entry of the old catalog is live under the same hash and has the same contents. -/
theorem Obtained.keeps {now : ℚ} (ho : c.Obtained c' h now r)
    (hc : ∀ k r', c.entries.get? k = some r' → r' < c.nextRef) {k : Bytes} {r' : Ref}
    (hr' : c.entries.get? k = some r') : c'.entries.get? k = some r' ∧ c'.heap r' = c.heap r' := by
  cases ho with
  | live hr entries heap nextRef => exact ⟨by rw [entries, hr'], by rw [heap]⟩
  | new hnone entries heap nextRef =>
    have hne : k ≠ h := fun hk ↦ by simp [hk, hnone] at hr'
    refine ⟨by simp [entries, hne, hr'], ?_⟩
    rw [heap, Function.update_of_ne (Nat.ne_of_lt (hc k r' hr'))]

theorem countLive_created (hc : c.Represented ∅) (hnone : c.entries.get? h = none)
    (entries : c'.entries = c.entries.insert h c.nextRef) {entry : TorrentEntry}
    (heap : c'.heap = Function.update c.heap c.nextRef entry) (p : TorrentEntry → Bool) :
    c'.countLive p = c.countLive p + indicator (p entry) := by
  have hinsert : c.entries.insert h c.nextRef = c.entries.insertLast h c.nextRef := by
    simp [OrderedMap.insert, OrderedMap.contains, hnone]
  have hcount := c.entries.countP_values_insertLast (fun r' ↦ p (c'.heap r')) c.nextRef hnone
  have hold : c.entries.values.countP (fun r' ↦ p (c'.heap r')) =
      c.entries.values.countP (fun r' ↦ p (c.heap r')) := by
    refine List.countP_congr fun r' hr' ↦ ?_
    obtain ⟨k, hk⟩ := OrderedMap.mem_values_iff.mp hr'
    rw [heap, Function.update_of_ne (Nat.ne_of_lt (hc.allocated k r' hk))]
  rw [countLive, countLive, entries, hinsert, hcount, hold, heap, Function.update_self, indicator]
  split <;> simp

theorem liveWhere_created (hc : c.Represented ∅)
    (entries : c'.entries = c.entries.insert h c.nextRef) {entry : TorrentEntry}
    (heap : c'.heap = Function.update c.heap c.nextRef entry) (p : TorrentEntry → Bool) (k : Bytes) :
    c'.liveWhere p k =
      if k = h then (if p entry then some c.nextRef else none) else c.liveWhere p k := by
  by_cases hk : k = h
  · have hself : c'.entries.get? k = some c.nextRef := by simp [entries, hk]
    rw [if_pos hk, liveWhere_of_live hself, heap, Function.update_self]
  · rw [if_neg hk, liveWhere, liveWhere, entries, OrderedMap.get?_insert, if_neg hk, heap]
    cases hget : c.entries.get? k with
    | none => rfl
    | some r' =>
      simp only [Option.filter, Function.update_of_ne (Nat.ne_of_lt (hc.allocated k r' hget))]

/-- `_get_or_create_locked` leaves the key of the entry open and changes nothing else. -/
theorem getOrCreateLocked_spec (hc : c.Represented ∅) (h : Bytes) (now : ℚ) :
    let found := c.getOrCreateLocked h now
    found.1.Represented {h} ∧ c.Obtained found.1 h now found.2.1 ∧ c.QueuesKept found.1 ∧
      found.1.limits = c.limits := by
  intro found
  cases hget : c.entries.get? h with
  | some r =>
    have hfound : found = (c.check ((c.heap r).infoHash = h), r, false) := by
      simp [found, getOrCreateLocked, hget]
    rw [hfound]
    exact ⟨(hc.check _).mono (Set.empty_subset _), .live hget rfl rfl rfl, .of_eq, rfl⟩
  | none =>
    let created : TorrentCatalog := { c with
      heap := Function.update c.heap c.nextRef (.new h now (!c.checkDatabase))
      nextRef := c.nextRef + 1
      entries := c.entries.insert h c.nextRef
      stateCounts := bump c.stateCounts .pending 1
      discovered := c.discovered + 1 }
    have hfound : found = (created.check (h.length = nodeIdLength ∧ 0 ≤ now),
        c.nextRef, true) := by
      simp [found, created, getOrCreateLocked, hget]
    rw [hfound]
    refine ⟨?_, .new hget rfl rfl rfl, .of_eq, rfl⟩
    apply Represented.check
    have hcount (p : TorrentEntry → Bool) : created.countLive p = _ :=
      countLive_created hc hget rfl rfl p
    have hlive (p : TorrentEntry → Bool) (k : Bytes) : created.liveWhere p k = _ :=
      liveWhere_created hc rfl rfl p k
    have hold {k : Bytes} {r : Ref} (hr : c.entries.get? k = some r) :
        Function.update c.heap c.nextRef (TorrentEntry.new h now (!c.checkDatabase)) r = c.heap r :=
      Function.update_of_ne (Nat.ne_of_lt (hc.allocated k r hr)) _ _
    have hother {k : Bytes} {r : Ref} (hr : c.entries.get? k = some r) :
        (c.entries.insert h c.nextRef).get? k = some r := by
      have hne : k ≠ h := fun hk ↦ by simp [hk, hget] at hr
      simp [hne, hr]
    have hcases {k : Bytes} {r : Ref} (hr : (c.entries.insert h c.nextRef).get? k = some r) :
        k = h ∧ r = c.nextRef ∨ k ≠ h ∧ c.entries.get? k = some r := by
      by_cases hk : k = h
      · simp only [OrderedMap.get?_insert, hk, if_true, Option.some.injEq] at hr
        exact Or.inl ⟨hk, hr.symm⟩
      · simp only [OrderedMap.get?_insert, hk, if_false] at hr
        exact Or.inr ⟨hk, hr⟩
    constructor
    case key =>
      intro k r hr
      rcases hcases hr with ⟨rfl, rfl⟩ | ⟨hk, hr⟩
      · simp [created, TorrentEntry.new]
      · exact (congrArg TorrentEntry.infoHash (hold hr)).trans (hc.key k r hr)
    case allocated =>
      intro k r hr
      rcases hcases hr with ⟨-, rfl⟩ | ⟨hk, hr⟩
      · exact Nat.lt_succ_self _
      · exact Nat.lt_succ_of_lt (hc.allocated k r hr)
    case stateCounts =>
      intro s
      rw [hcount, ← hc.stateCounts s]
      simp [created, bump_apply, indicator, TorrentEntry.new, eq_comm]
    case knownDone => rw [hcount, ← hc.knownDone]; simp [created, indicator, TorrentEntry.new]
    case lookupsInProgress =>
      rw [hcount, ← hc.lookupsInProgress]
      simp [created, indicator, TorrentEntry.new]
    case fetched =>
      intro k
      rw [hlive, ← hc.fetched k]
      by_cases hk : k = h
      · rw [if_pos hk, hk, hc.fetched]
        simp [liveWhere, hget, TorrentEntry.new]
      · rw [if_neg hk]
    case stored_done =>
      intro k r hr
      rcases hcases hr with ⟨-, rfl⟩ | ⟨hk, hr⟩
      · simp [created, TorrentEntry.new]
      · rw [show created.heap r = c.heap r from hold hr]
        exact hc.stored_done k r hr
    case known_done =>
      intro k r hr
      rcases hcases hr with ⟨-, rfl⟩ | ⟨hk, hr⟩
      · simp [created, TorrentEntry.new]
      · rw [show created.heap r = c.heap r from hold hr]
        exact hc.known_done k r hr
    case counters_live => exact fun k r hr ↦ hother (hc.counters_live k r hr)
    case needsCheck =>
      intro k hk
      rw [hlive, if_neg (show ¬ k = h from hk)]
      exact hc.needsCheck k (Set.notMem_empty k)
    case fetchable =>
      intro k hk
      rw [hlive, if_neg (show ¬ k = h from hk)]
      exact hc.fetchable k (Set.notMem_empty k)
    case needsLookup =>
      intro k hk
      rw [hlive, if_neg (show ¬ k = h from hk)]
      exact hc.needsLookup k (Set.notMem_empty k)
    case needsCheck_live => exact fun k r hr ↦ hother (hc.needsCheck_live k r hr)
    case fetchable_live => exact fun k r hr ↦ hother (hc.fetchable_live k r hr)
    case needsLookup_live => exact fun k r hr ↦ hother (hc.needsLookup_live k r hr)

/-! ## Eviction -/

/-- The live entry `r` of `h` has left the catalog; unflushed counters with a base are orphaned. -/
structure Evicted (c c' : TorrentCatalog) (h : Bytes) (r : Ref) : Prop where
  limits : c'.limits = c.limits
  nextRef : c'.nextRef = c.nextRef
  entries : c'.entries = c.entries.erase h
  heap : c'.heap = Function.update c.heap r { c.heap r with knownFromDatabase := false }
  fetched : c'.fetched = c.fetched.erase h
  fetchable : c'.fetchable = c.fetchable.erase h
  needsLookup : c'.needsLookup = c.needsLookup.erase h
  needsCheck : c'.needsCheck = c.needsCheck.erase h
  stateCounts : c'.stateCounts = bump c.stateCounts (c.heap r).fetchState (-1)
  knownDone : c'.knownDone = c.knownDone - indicator (c.heap r).knownFromDatabase
  lookupsInProgress : c'.lookupsInProgress = c.lookupsInProgress
  indexTracking : c'.indexTracking = c.indexTracking
  indexMaxPending : c'.indexMaxPending = c.indexMaxPending
  checkDatabase : c'.checkDatabase = c.checkDatabase
  indexDocuments : c'.indexDocuments = c.indexDocuments
  indexCounters : c'.indexCounters = c.indexCounters.erase h
  orphanCounters : c'.orphanCounters =
    if (c.heap r).indexBase.isSome ∧ (c.heap r).hasUnflushed then
      (c.addOrphanLocked r).orphanCounters
    else c.orphanCounters
  indexDropped : c'.indexDropped =
    if (c.heap r).indexBase.isSome ∧ (c.heap r).hasUnflushed then
      (c.addOrphanLocked r).indexDropped
    else c.indexDropped

/-- The orphan queue grows by one at most, and may lose its oldest entry. -/
theorem addOrphanLocked_sublist (c : TorrentCatalog) (r : Ref) :
    (c.addOrphanLocked r).orphanCounters.Sublist (c.orphanCounters ++ [r]) := by
  simp only [addOrphanLocked, TorrentCatalog.check]
  split
  · exact List.tail_sublist _
  · exact List.Sublist.refl _

/-- The orphan queue keeps its bound. -/
theorem length_addOrphanLocked (c : TorrentCatalog) (r : Ref)
    (h : c.orphanCounters.length ≤ maxOrphanCounters) :
    (c.addOrphanLocked r).orphanCounters.length ≤ maxOrphanCounters := by
  simp only [addOrphanLocked, TorrentCatalog.check]
  split
  · rw [List.length_tail, List.length_append, List.length_singleton]
    omega
  next hfull => exact not_lt.mp hfull

theorem evicted_evictOneLocked (hkey : (c.heap r).infoHash = h) :
    c.Evicted (c.evictOneLocked r) h r := by
  subst hkey
  unfold evictOneLocked
  by_cases horphan : (c.heap r).indexBase.isSome ∧ (c.heap r).hasUnflushed
  · constructor
    case knownDone =>
      simp only [horphan, forgetKnownLocked, addOrphanLocked, TorrentCatalog.check, indicator]
      by_cases hk : (c.heap r).knownFromDatabase <;> simp [hk]
    all_goals simp only [horphan, and_self, if_true]; rfl
  · constructor
    case knownDone =>
      simp only [horphan, if_false, forgetKnownLocked, TorrentCatalog.check, indicator]
      by_cases hk : (c.heap r).knownFromDatabase <;> simp [hk]
    all_goals simp only [horphan, if_false]; rfl

namespace Evicted

/-- The other live entries stay, with their contents. -/
theorem live_iff (he : c.Evicted c' h r) {k : Bytes} {r' : Ref} :
    c'.entries.get? k = some r' ↔ k ≠ h ∧ c.entries.get? k = some r' := by
  rw [he.entries, OrderedMap.get?_erase]
  by_cases hk : k = h <;> simp [hk]

theorem heap_other (he : c.Evicted c' h r) {r' : Ref} (hne : r' ≠ r) : c'.heap r' = c.heap r' := by
  rw [he.heap, Function.update_of_ne hne]

theorem ne_of_live {opened : Set Bytes} (hc : c.Represented opened)
    (hr : c.entries.get? h = some r) {k : Bytes} {r' : Ref} (hk : k ≠ h)
    (hr' : c.entries.get? k = some r') : r' ≠ r :=
  fun heq ↦ hk (hc.live_unique hr (hr'.trans (congrArg some heq)))

theorem countLive (he : c.Evicted c' h r) (hc : c.Represented ∅)
    (hr : c.entries.get? h = some r) (p : TorrentEntry → Bool) :
    c'.countLive p = c.countLive p - indicator (p (c.heap r)) := by
  have hcount := c.entries.countP_values_erase (fun r' ↦ p (c.heap r')) hr
  have hrest : (c.entries.erase h).values.countP (fun r' ↦ p (c'.heap r')) =
      (c.entries.erase h).values.countP (fun r' ↦ p (c.heap r')) := by
    refine List.countP_congr fun r' hr' ↦ ?_
    obtain ⟨k, hk⟩ := OrderedMap.mem_values_iff.mp hr'
    rw [← he.entries] at hk
    obtain ⟨hne, hlive⟩ := he.live_iff.mp hk
    rw [he.heap_other (ne_of_live hc hr hne hlive)]
  rw [TorrentCatalog.countLive, TorrentCatalog.countLive, he.entries, hrest, ← hcount, indicator]
  split <;> simp

theorem liveWhere (he : c.Evicted c' h r) (hc : c.Represented ∅)
    (hr : c.entries.get? h = some r) (p : TorrentEntry → Bool) (k : Bytes) :
    c'.liveWhere p k = if k = h then none else c.liveWhere p k := by
  rw [TorrentCatalog.liveWhere, TorrentCatalog.liveWhere, he.entries, OrderedMap.get?_erase]
  by_cases hk : k = h
  · simp [hk]
  · rw [if_neg hk, if_neg hk]
    cases hget : c.entries.get? k with
    | none => rfl
    | some r' => simp only [Option.filter, he.heap_other (ne_of_live hc hr hk hget)]

/-- Evicting an entry that nobody claimed keeps the invariant. -/
theorem represented (he : c.Evicted c' h r) (hc : c.Represented ∅)
    (hr : c.entries.get? h = some r) (hfree : (c.heap r).isEvictable) : c'.Represented ∅ := by
  have hsame {k : Bytes} {r' : Ref} (hr' : c'.entries.get? k = some r') :
      c.entries.get? k = some r' ∧ c'.heap r' = c.heap r' := by
    obtain ⟨hne, hlive⟩ := he.live_iff.mp hr'
    exact ⟨hlive, he.heap_other (ne_of_live hc hr hne hlive)⟩
  have herase {m : OrderedMap Bytes Ref} {k : Bytes} {r' : Ref}
      (hm : ∀ k r', m.get? k = some r' → c.entries.get? k = some r')
      (hr' : (m.erase h).get? k = some r') : c'.entries.get? k = some r' := by
    rw [OrderedMap.get?_erase] at hr'
    by_cases hk : k = h
    · simp [hk] at hr'
    · rw [if_neg hk] at hr'
      exact he.live_iff.mpr ⟨hk, hm k r' hr'⟩
  have hlookup : (c.heap r).lookupInProgress = false := by
    simp only [TorrentEntry.isEvictable, decide_eq_true_eq, Bool.not_eq_true] at hfree
    exact hfree.2
  constructor
  case key =>
    intro k r' hr'
    rw [(hsame hr').2]
    exact hc.key k r' (hsame hr').1
  case allocated =>
    intro k r' hr'
    rw [he.nextRef]
    exact hc.allocated k r' (hsame hr').1
  case stateCounts =>
    intro s
    rw [he.countLive hc hr, he.stateCounts, bump_apply, ← hc.stateCounts, indicator]
    by_cases hs : s = (c.heap r).fetchState
    · simp [hs, sub_eq_add_neg]
    · simp [hs, Ne.symm hs]
  case knownDone => rw [he.countLive hc hr, he.knownDone, ← hc.knownDone]
  case lookupsInProgress =>
    rw [he.countLive hc hr, he.lookupsInProgress, ← hc.lookupsInProgress, hlookup]
    simp [indicator]
  case fetched =>
    intro k
    rw [he.liveWhere hc hr, he.fetched, OrderedMap.get?_erase, hc.fetched]
  case stored_done =>
    intro k r' hr'
    rw [(hsame hr').2]
    exact hc.stored_done k r' (hsame hr').1
  case known_done =>
    intro k r' hr'
    rw [(hsame hr').2]
    exact hc.known_done k r' (hsame hr').1
  case counters_live =>
    intro k r' hr'
    rw [he.indexCounters] at hr'
    exact herase hc.counters_live hr'
  case needsCheck =>
    intro k hk
    rw [he.liveWhere hc hr, he.needsCheck, OrderedMap.get?_erase, hc.needsCheck k hk]
  case fetchable =>
    intro k hk
    rw [he.liveWhere hc hr, he.fetchable, OrderedMap.get?_erase, hc.fetchable k hk]
  case needsLookup =>
    intro k hk
    rw [he.liveWhere hc hr, he.needsLookup, OrderedMap.get?_erase, he.limits, hc.needsLookup k hk]
  case needsCheck_live =>
    intro k r' hr'
    rw [he.needsCheck] at hr'
    exact herase hc.needsCheck_live hr'
  case fetchable_live =>
    intro k r' hr'
    rw [he.fetchable] at hr'
    exact herase hc.fetchable_live hr'
  case needsLookup_live =>
    intro k r' hr'
    rw [he.needsLookup] at hr'
    exact herase hc.needsLookup_live hr'

end Evicted

/-! ## The victims -/

/-- The values of an index of live entries are distinct. -/
theorem nodup_values (hc : c.Represented ∅) {m : OrderedMap Bytes Ref}
    (hm : ∀ h r, m.get? h = some r → c.entries.get? h = some r) : m.values.Nodup := by
  refine List.Nodup.of_map (fun r ↦ (c.heap r).infoHash) ?_
  have hkeys : m.values.map (fun r ↦ (c.heap r).infoHash) = m.keys := by
    rw [OrderedMap.values, OrderedMap.keys, List.map_map]
    refine List.map_congr_left fun item hitem ↦ ?_
    exact hc.key item.1 item.2 (hm _ _ (OrderedMap.get?_eq_some_iff.mpr hitem))
  rw [hkeys]
  exact m.nodup

/-- The victims are distinct live entries that nobody claimed. -/
theorem evictionVictims_spec (hc : c.Represented ∅) : c.evictionVictims.Nodup ∧
    ∀ r ∈ c.evictionVictims, (∃ h, c.entries.get? h = some r) ∧ (c.heap r).isEvictable := by
  have hvalues : c.entries.values.Nodup := nodup_values hc fun _ _ hr ↦ hr
  have hscan : c.scannedVictims.Nodup :=
    (hvalues.filter _).sublist (List.take_sublist _ _)
  have hscanned {r : Ref} (hr : r ∈ c.scannedVictims) :
      r ∈ c.entries.values ∧ (c.heap r).isEvictable := by
    have hmem := List.mem_filter.mp (List.mem_of_mem_take hr)
    have htest := hmem.2
    simp only [decide_eq_true_eq] at htest
    exact ⟨hmem.1, htest.2.2.2⟩
  have hlive {r : Ref} (hr : r ∈ c.entries.values) : ∃ h, c.entries.get? h = some r :=
    OrderedMap.mem_values_iff.mp hr
  by_cases hfew : c.scannedVictims.length < c.evictionCount
  · rw [show c.evictionVictims = _ from if_pos hfew]
    refine ⟨List.Nodup.append hscan (nodup_takeFirst _ (hvalues.filter _)) ?_, ?_⟩
    · intro r hr hr'
      have htest := (List.mem_filter.mp (mem_of_mem_takeFirst _ hr')).2
      simp only [decide_eq_true_eq] at htest
      exact htest.1 (List.mem_map.mpr ⟨r, hr, rfl⟩)
    · intro r hr
      rcases List.mem_append.mp hr with hr | hr
      · exact ⟨hlive (hscanned hr).1, (hscanned hr).2⟩
      · have hmem := List.mem_filter.mp (mem_of_mem_takeFirst _ hr)
        have htest := hmem.2
        simp only [decide_eq_true_eq] at htest
        exact ⟨hlive hmem.1, htest.2⟩
  · rw [show c.evictionVictims = _ from if_neg hfew]
    exact ⟨hscan, fun r hr ↦ ⟨hlive (hscanned hr).1, (hscanned hr).2⟩⟩

/-- What every single eviction of an allowed victim keeps is kept by the loop over the victims. -/
theorem foldl_evictOneLocked {I : TorrentCatalog → Prop} {E : TorrentCatalog → Ref → Prop}
    (hstable : ∀ (c c' : TorrentCatalog) h r r', c.Evicted c' h r → r' ≠ r → E c r' → E c' r')
    (hstep : ∀ (c : TorrentCatalog) h r, c.Represented ∅ → I c → c.entries.get? h = some r →
      (c.heap r).isEvictable → E c r → I (c.evictOneLocked r)) (victims : List Ref) :
    ∀ {c : TorrentCatalog}, victims.Nodup → c.Represented ∅ → I c →
      (∀ r ∈ victims, (∃ h, c.entries.get? h = some r) ∧ (c.heap r).isEvictable) →
        (∀ r ∈ victims, E c r) →
          I (victims.foldl evictOneLocked c) ∧ (victims.foldl evictOneLocked c).Represented ∅ := by
  induction victims with
  | nil => exact fun _ hc hI _ _ ↦ ⟨hI, hc⟩
  | cons r rest ih =>
    intro c hnodup hc hI hlive hallowed
    obtain ⟨hnotin, hrest⟩ := List.nodup_cons.mp hnodup
    obtain ⟨⟨h, hr⟩, hfree⟩ := hlive r List.mem_cons_self
    have hevicted := evicted_evictOneLocked (c := c) (hc.key h r hr)
    have hnext := hstep c h r hc hI hr hfree (hallowed r List.mem_cons_self)
    refine ih hrest (hevicted.represented hc hr hfree) hnext ?_ ?_
    · intro r' hr'
      obtain ⟨⟨h', hlive'⟩, hfree'⟩ := hlive r' (List.mem_cons_of_mem _ hr')
      have hne : r' ≠ r := ne_of_mem_of_not_mem hr' hnotin
      have hkey : h' ≠ h := fun heq ↦ by
        rw [heq, hr] at hlive'
        exact hne (Option.some.inj hlive').symm
      rw [hevicted.heap_other hne]
      exact ⟨⟨h', hevicted.live_iff.mpr ⟨hkey, hlive'⟩⟩, hfree'⟩
    · intro r' hr'
      exact hstable c _ h r r' hevicted (ne_of_mem_of_not_mem hr' hnotin)
        (hallowed r' (List.mem_cons_of_mem _ hr'))

/-- What every single eviction of an allowed victim keeps is kept by `_evict_locked`. -/
theorem evictLocked_induction_of_allowed {I : TorrentCatalog → Prop}
    {E : TorrentCatalog → Ref → Prop} (hc : c.Represented ∅) (hstart : I c)
    (hallowed : ∀ r ∈ c.evictionVictims, E c r)
    (hstable : ∀ (c c' : TorrentCatalog) h r r', c.Evicted c' h r → r' ≠ r → E c r' → E c' r')
    (hstep : ∀ (c : TorrentCatalog) h r, c.Represented ∅ → I c → c.entries.get? h = some r →
      (c.heap r).isEvictable → E c r → I (c.evictOneLocked r))
    (hcount : ∀ (c : TorrentCatalog) n b, I c → I { c with evicted := n, raised := b }) :
    I c.evictLocked.1 ∧ c.evictLocked.1.Represented ∅ := by
  obtain ⟨hnodup, hvictims⟩ := evictionVictims_spec hc
  obtain ⟨hI, hrep⟩ := foldl_evictOneLocked hstable hstep _ hnodup hc hstart hvictims hallowed
  exact ⟨hcount (c.evictionVictims.foldl evictOneLocked c) _ _ hI, Represented.of_eq hrep⟩

/-- What every single eviction keeps is kept by `_evict_locked`. -/
theorem evictLocked_induction {I : TorrentCatalog → Prop} (hc : c.Represented ∅) (hstart : I c)
    (hstep : ∀ (c : TorrentCatalog) h r, c.Represented ∅ → I c → c.entries.get? h = some r →
      (c.heap r).isEvictable → I (c.evictOneLocked r))
    (hcount : ∀ (c : TorrentCatalog) n b, I c → I { c with evicted := n, raised := b }) :
    I c.evictLocked.1 ∧ c.evictLocked.1.Represented ∅ :=
  evictLocked_induction_of_allowed (E := fun _ _ ↦ True) hc hstart (fun _ _ ↦ trivial)
    (fun _ _ _ _ _ _ _ _ ↦ trivial) (fun c h r hc hI hr hfree _ ↦ hstep c h r hc hI hr hfree) hcount

end TorrentCatalog

end DhtScraper
