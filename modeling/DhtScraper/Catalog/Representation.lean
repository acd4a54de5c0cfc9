import DhtScraper.Catalog.Operations

/-!
# The representation invariant of the catalog

The catalog keeps seven indexes and four counters beside its entries.  `Represented` says what each
of them is, as a function of the live entries.  Inside an operation the three indexes that
`_index_entry_locked` maintains lag behind the entry being changed, so the invariant is stated
relative to a set of open keys; every operation closes it again.

Operations change one entry at a time.  `Edited` is what such a change may do to the rest of the
catalog, it composes, and an edit followed by `_index_entry_locked` restores the invariant.
-/

namespace DhtScraper

open Library

namespace TorrentEntry

/-- Pending and not yet compared with the database. -/
def awaitsCheck (entry : TorrentEntry) : Bool :=
  entry.fetchState = .pending ∧ ¬ entry.databaseChecked

/-- Pending, checked, with a peer to ask. -/
def readyToFetch (entry : TorrentEntry) : Bool :=
  entry.fetchState = .pending ∧ entry.databaseChecked ∧ entry.hasPeers

/-- Pending, checked, without a peer, and with a lookup left that is not running. -/
def awaitsLookup (maxLookups : ℕ) (entry : TorrentEntry) : Bool :=
  entry.fetchState = .pending ∧ entry.databaseChecked ∧ ¬ entry.hasPeers
    ∧ ¬ entry.lookupInProgress ∧ entry.lookupsStarted < maxLookups

end TorrentEntry

/-- One for a true condition, as a summand of a counter. -/
def indicator (b : Bool) : ℤ := if b then 1 else 0

namespace TorrentCatalog

/-- The number of live entries that satisfy a test. -/
def countLive (c : TorrentCatalog) (p : TorrentEntry → Bool) : ℤ :=
  c.entries.values.countP fun r ↦ p (c.heap r)

/-- The live entry of a hash, when it satisfies a test. -/
def liveWhere (c : TorrentCatalog) (p : TorrentEntry → Bool) (h : Bytes) : Option Ref :=
  (c.entries.get? h).filter fun r ↦ p (c.heap r)

theorem liveWhere_eq_some_iff {c : TorrentCatalog} {p : TorrentEntry → Bool} {h : Bytes} {r : Ref} :
    c.liveWhere p h = some r ↔ c.entries.get? h = some r ∧ p (c.heap r) :=
  Option.filter_eq_some_iff

theorem liveWhere_of_live {c : TorrentCatalog} {h : Bytes} {r : Ref}
    (hr : c.entries.get? h = some r) (p : TorrentEntry → Bool) :
    c.liveWhere p h = if p (c.heap r) then some r else none := by
  simp [liveWhere, hr, Option.filter]

/-- Indexes and counters agree with the live entries, except that the indexes maintained by
`_index_entry_locked` may lag behind at the open keys. -/
structure Represented (c : TorrentCatalog) (opened : Set Bytes) : Prop where
  key : ∀ h r, c.entries.get? h = some r → (c.heap r).infoHash = h
  allocated : ∀ h r, c.entries.get? h = some r → r < c.nextRef
  stateCounts : ∀ s, c.stateCounts s = c.countLive fun entry ↦ entry.fetchState = s
  knownDone : c.knownDone = c.countLive fun entry ↦ entry.knownFromDatabase
  lookupsInProgress : c.lookupsInProgress = c.countLive fun entry ↦ entry.lookupInProgress
  fetched : ∀ h, c.fetched.get? h = c.liveWhere (fun entry ↦ entry.metadata.isSome) h
  stored_done : ∀ h r, c.entries.get? h = some r → (c.heap r).metadata.isSome →
    (c.heap r).fetchState = .done
  known_done : ∀ h r, c.entries.get? h = some r → (c.heap r).knownFromDatabase →
    (c.heap r).fetchState = .done ∧ (c.heap r).metadata = none
  counters_live : ∀ h r, c.indexCounters.get? h = some r → c.entries.get? h = some r
  needsCheck : ∀ h ∉ opened, c.needsCheck.get? h = c.liveWhere TorrentEntry.awaitsCheck h
  fetchable : ∀ h ∉ opened, c.fetchable.get? h = c.liveWhere TorrentEntry.readyToFetch h
  needsLookup : ∀ h ∉ opened,
    c.needsLookup.get? h = c.liveWhere (TorrentEntry.awaitsLookup c.limits.maxLookups) h
  needsCheck_live : ∀ h r, c.needsCheck.get? h = some r → c.entries.get? h = some r
  fetchable_live : ∀ h r, c.fetchable.get? h = some r → c.entries.get? h = some r
  needsLookup_live : ∀ h r, c.needsLookup.get? h = some r → c.entries.get? h = some r

theorem Represented.mono {c : TorrentCatalog} {opened opened' : Set Bytes}
    (hc : c.Represented opened) (hsub : opened ⊆ opened') : c.Represented opened' :=
  { hc with
    needsCheck := fun h hh ↦ hc.needsCheck h fun hh' ↦ hh (hsub hh')
    fetchable := fun h hh ↦ hc.fetchable h fun hh' ↦ hh (hsub hh')
    needsLookup := fun h hh ↦ hc.needsLookup h fun hh' ↦ hh (hsub hh') }

/-- A live reference is stored under one hash only. -/
theorem Represented.live_unique {c : TorrentCatalog} {opened : Set Bytes}
    (hc : c.Represented opened) {h h' : Bytes} {r : Ref} (hr : c.entries.get? h = some r)
    (hr' : c.entries.get? h' = some r) : h' = h := by
  rw [← hc.key h r hr, hc.key h' r hr']

/-- Fields that no index or counter depends on can be changed freely, and live entries can be
queued for a counter update. -/
theorem Represented.of_counters {c c' : TorrentCatalog} {opened : Set Bytes}
    (hc : c.Represented opened)
    (counters : ∀ h r, c'.indexCounters.get? h = some r → c.indexCounters.get? h = some r ∨
      c.entries.get? h = some r)
    (limits : c'.limits = c.limits := by rfl) (heap : c'.heap = c.heap := by rfl)
    (nextRef : c'.nextRef = c.nextRef := by rfl) (entries : c'.entries = c.entries := by rfl)
    (fetched : c'.fetched = c.fetched := by rfl)
    (fetchable : c'.fetchable = c.fetchable := by rfl)
    (needsLookup : c'.needsLookup = c.needsLookup := by rfl)
    (needsCheck : c'.needsCheck = c.needsCheck := by rfl)
    (stateCounts : c'.stateCounts = c.stateCounts := by rfl)
    (lookupsInProgress : c'.lookupsInProgress = c.lookupsInProgress := by rfl)
    (knownDone : c'.knownDone = c.knownDone := by rfl) : c'.Represented opened := by
  have hcount (p : TorrentEntry → Bool) : c'.countLive p = c.countLive p := by
    simp only [countLive, heap, entries]
  have hlive (p : TorrentEntry → Bool) (h : Bytes) : c'.liveWhere p h = c.liveWhere p h := by
    simp only [liveWhere, heap, entries]
  constructor
  case key => rw [heap, entries]; exact hc.key
  case allocated => rw [entries, nextRef]; exact hc.allocated
  case stateCounts => intro s; rw [hcount, stateCounts]; exact hc.stateCounts s
  case knownDone => rw [hcount, knownDone]; exact hc.knownDone
  case lookupsInProgress => rw [hcount, lookupsInProgress]; exact hc.lookupsInProgress
  case fetched => intro h; rw [hlive, fetched]; exact hc.fetched h
  case stored_done => rw [heap, entries]; exact hc.stored_done
  case known_done => rw [heap, entries]; exact hc.known_done
  case counters_live =>
    intro h r hr
    rw [entries]
    rcases counters h r hr with hr | hr
    · exact hc.counters_live h r hr
    · exact hr
  case needsCheck => intro h hh; rw [hlive, needsCheck]; exact hc.needsCheck h hh
  case fetchable => intro h hh; rw [hlive, fetchable]; exact hc.fetchable h hh
  case needsLookup => intro h hh; rw [hlive, needsLookup, limits]; exact hc.needsLookup h hh
  case needsCheck_live => rw [needsCheck, entries]; exact hc.needsCheck_live
  case fetchable_live => rw [fetchable, entries]; exact hc.fetchable_live
  case needsLookup_live => rw [needsLookup, entries]; exact hc.needsLookup_live

/-- The settings, the statistics and the document and orphan queues are not part of the
representation. -/
theorem Represented.of_eq {c : TorrentCatalog} {opened : Set Bytes} (hc : c.Represented opened)
    {observations discovered evicted indexMaxPending indexDropped : ℕ}
    {indexTracking checkDatabase raised : Bool} {indexDocuments : OrderedMap Bytes Ref}
    {orphanCounters : List Ref} {metadataBytes : ℤ} :
    { c with
      observations := observations, discovered := discovered, evicted := evicted
      indexMaxPending := indexMaxPending, indexDropped := indexDropped
      indexTracking := indexTracking, checkDatabase := checkDatabase, raised := raised
      indexDocuments := indexDocuments, orphanCounters := orphanCounters
      metadataBytes := metadataBytes }.Represented opened :=
  hc.of_counters fun _ _ hr ↦ Or.inl hr

theorem Represented.check {c : TorrentCatalog} {opened : Set Bytes} (hc : c.Represented opened)
    (p : Prop) [Decidable p] : (c.check p).Represented opened := hc.of_eq

theorem represented_new (limits : CatalogLimits) : (new limits).Represented ∅ := by
  constructor <;> intros <;> simp_all [new, countLive, liveWhere, OrderedMap.values,
    OrderedMap.empty, OrderedMap.get?]

/-! ## Editing one entry -/

/-- `c'` is `c` with the contents of the live entry `r` of `h` replaced by `entry`; counters and
`_fetched` follow the change, the indexes may lose their item for `h`. -/
structure Edited (c c' : TorrentCatalog) (h : Bytes) (r : Ref) (entry : TorrentEntry) : Prop where
  limits : c'.limits = c.limits := by rfl
  entries : c'.entries = c.entries := by rfl
  nextRef : c'.nextRef = c.nextRef := by rfl
  heap : c'.heap = Function.update c.heap r entry
  infoHash : entry.infoHash = h
  stateCounts : ∀ s, c'.stateCounts s = c.stateCounts s
    - indicator ((c.heap r).fetchState = s) + indicator (entry.fetchState = s)
  knownDone : c'.knownDone = c.knownDone
    - indicator (c.heap r).knownFromDatabase + indicator entry.knownFromDatabase
  lookupsInProgress : c'.lookupsInProgress = c.lookupsInProgress
    - indicator (c.heap r).lookupInProgress + indicator entry.lookupInProgress
  fetched : ∀ k ≠ h, c'.fetched.get? k = c.fetched.get? k := by exact fun _ _ ↦ rfl
  fetched_self :
    c'.fetched.get? h = c.fetched.get? h ∧
      entry.metadata.isSome = (c.heap r).metadata.isSome ∨
    c'.fetched.get? h = if entry.metadata.isSome then some r else none
  counters : ∀ k, c'.indexCounters.get? k = c.indexCounters.get? k ∨
    k = h ∧ (c'.indexCounters.get? k = none ∨ c'.indexCounters.get? k = some r) := by
      exact fun _ ↦ Or.inl rfl
  needsCheck : ∀ k, c'.needsCheck.get? k = c.needsCheck.get? k ∨
    k = h ∧ (c'.needsCheck.get? k = none ∨ c'.needsCheck.get? k = some r) := by
      exact fun _ ↦ Or.inl rfl
  fetchable : ∀ k, c'.fetchable.get? k = c.fetchable.get? k ∨
    k = h ∧ (c'.fetchable.get? k = none ∨ c'.fetchable.get? k = some r) := by
      exact fun _ ↦ Or.inl rfl
  needsLookup : ∀ k, c'.needsLookup.get? k = c.needsLookup.get? k ∨
    k = h ∧ (c'.needsLookup.get? k = none ∨ c'.needsLookup.get? k = some r) := by
      exact fun _ ↦ Or.inl rfl

namespace Edited

variable {c c' c'' : TorrentCatalog} {h : Bytes} {r : Ref} {entry entry' : TorrentEntry}

theorem entry_eq (he : c.Edited c' h r entry) : c'.heap r = entry := by
  rw [he.heap, Function.update_self]

theorem key (he : c.Edited c' h r entry) : (c'.heap r).infoHash = h := by
  rw [he.entry_eq]
  exact he.infoHash

theorem refl (hkey : (c.heap r).infoHash = h) : c.Edited c h r (c.heap r) where
  heap := (Function.update_eq_self r c.heap).symm
  infoHash := hkey
  stateCounts := fun s ↦ by omega
  knownDone := by omega
  lookupsInProgress := by omega
  fetched_self := Or.inl ⟨rfl, rfl⟩

theorem trans (he : c.Edited c' h r entry) (he' : c'.Edited c'' h r entry') :
    c.Edited c'' h r entry' where
  limits := he'.limits.trans he.limits
  entries := he'.entries.trans he.entries
  nextRef := he'.nextRef.trans he.nextRef
  heap := by rw [he'.heap, he.heap, Function.update_idem]
  infoHash := he'.infoHash
  stateCounts := fun s ↦ by
    rw [he'.stateCounts s, he.stateCounts s, he.entry_eq]
    omega
  knownDone := by
    rw [he'.knownDone, he.knownDone, he.entry_eq]
    omega
  lookupsInProgress := by
    rw [he'.lookupsInProgress, he.lookupsInProgress, he.entry_eq]
    omega
  fetched := fun k hk ↦ (he'.fetched k hk).trans (he.fetched k hk)
  fetched_self := by
    rcases he'.fetched_self with ⟨hsame, hmeta⟩ | hset
    · rw [hsame, hmeta, he.entry_eq]
      exact he.fetched_self
    · exact Or.inr hset
  counters := fun k ↦ by
    rcases he'.counters k with hk | hk
    · rw [hk]
      exact he.counters k
    · exact Or.inr hk
  needsCheck := fun k ↦ by
    rcases he'.needsCheck k with hk | hk
    · rw [hk]
      exact he.needsCheck k
    · exact Or.inr hk
  fetchable := fun k ↦ by
    rcases he'.fetchable k with hk | hk
    · rw [hk]
      exact he.fetchable k
    · exact Or.inr hk
  needsLookup := fun k ↦ by
    rcases he'.needsLookup k with hk | hk
    · rw [hk]
      exact he.needsLookup k
    · exact Or.inr hk

/-- An edit changes the test of its own hash only. -/
theorem liveWhere {opened : Set Bytes} (hc : c.Represented opened)
    (hr : c.entries.get? h = some r) (he : c.Edited c' h r entry) (p : TorrentEntry → Bool)
    (k : Bytes) :
    c'.liveWhere p k = if k = h then (if p entry then some r else none) else c.liveWhere p k := by
  by_cases hk : k = h
  · subst hk
    rw [if_pos rfl, liveWhere_of_live (by rw [he.entries]; exact hr), he.entry_eq]
  · rw [if_neg hk, TorrentCatalog.liveWhere, TorrentCatalog.liveWhere, he.entries, he.heap]
    cases hget : c.entries.get? k with
    | none => rfl
    | some r' =>
      have hne : r' ≠ r := fun heq ↦ hk (hc.live_unique hr (hget.trans (congrArg some heq)))
      simp only [Option.filter, Function.update_of_ne hne]

theorem countLive {opened : Set Bytes} (hc : c.Represented opened)
    (hr : c.entries.get? h = some r) (he : c.Edited c' h r entry) (p : TorrentEntry → Bool) :
    c'.countLive p = c.countLive p - indicator (p (c.heap r)) + indicator (p entry) := by
  have hcount := c.entries.countP_values_update (fun r' ↦ p (c.heap r'))
    (fun r' ↦ p (Function.update c.heap r entry r')) hr
    (fun k' hk' ↦ hc.live_unique hr hk')
    (fun r' hne ↦ by rw [Function.update_of_ne hne])
  rw [Function.update_self] at hcount
  simp only [TorrentCatalog.countLive, he.entries, he.heap, indicator]
  by_cases hold : p (c.heap r) <;> by_cases hnew : p entry <;>
    simp only [hold, hnew, if_true, if_false, Bool.false_eq_true] at hcount ⊢ <;> omega

/-- An edit keeps the invariant up to the indexes of its hash. -/
theorem represented_open {opened : Set Bytes} (hc : c.Represented opened) (hopen : opened ⊆ {h})
    (hr : c.entries.get? h = some r) (he : c.Edited c' h r entry)
    (hstored : entry.metadata.isSome → entry.fetchState = .done)
    (hknown : entry.knownFromDatabase → entry.fetchState = .done ∧ entry.metadata = none) :
    c'.Represented {h} := by
  have hother {k : Bytes} {r' : Ref} (hk : k ≠ h) (hr' : c.entries.get? k = some r') :
      c'.heap r' = c.heap r' := by
    rw [he.heap]
    exact Function.update_of_ne
      (fun heq ↦ hk (hc.live_unique hr (hr'.trans (congrArg some heq)))) _ _
  have hself {k : Bytes} {r' : Ref} (hk : k = h) (hr' : c.entries.get? k = some r') :
      r' = r ∧ c'.heap r' = entry := by
    subst hk
    have heq : r' = r := Option.some.inj (hr'.symm.trans hr)
    exact ⟨heq, by rw [heq, he.entry_eq]⟩
  have hclosed {k : Bytes} (hk : k ∉ ({h} : Set Bytes)) : k ≠ h ∧ k ∉ opened :=
    ⟨hk, fun hk' ↦ hk (hopen hk')⟩
  have hlive (p : TorrentEntry → Bool) {k : Bytes} (hk : k ≠ h) :
      c'.liveWhere p k = c.liveWhere p k := by
    rw [he.liveWhere hc hr, if_neg hk]
  have live_of_self {m : OrderedMap Bytes Ref} {k : Bytes} {r' : Ref}
      (hm : m.get? k = none ∨ m.get? k = some r) (hr' : m.get? k = some r') :
      c.entries.get? h = some r' := by
    rcases hm with hm | hm
    · exact absurd (hm ▸ hr') (by simp)
    · rw [hm] at hr'
      exact Option.some.inj hr' ▸ hr
  constructor
  case key =>
    intro k r' hr'
    rw [he.entries] at hr'
    by_cases hk : k = h
    · rw [(hself hk hr').2, hk]
      exact he.infoHash
    · rw [hother hk hr']
      exact hc.key k r' hr'
  case allocated => rw [he.entries, he.nextRef]; exact hc.allocated
  case stateCounts =>
    intro s
    rw [he.countLive hc hr, he.stateCounts s, hc.stateCounts s]
  case knownDone => rw [he.countLive hc hr, he.knownDone, hc.knownDone]
  case lookupsInProgress =>
    rw [he.countLive hc hr, he.lookupsInProgress, hc.lookupsInProgress]
  case fetched =>
    intro k
    rw [he.liveWhere hc hr]
    by_cases hk : k = h
    · rw [if_pos hk, hk]
      rcases he.fetched_self with ⟨hsame, hmeta⟩ | hset
      · rw [hsame, hmeta, hc.fetched, liveWhere_of_live hr]
      · exact hset
    · rw [if_neg hk, he.fetched k hk, hc.fetched]
  case stored_done =>
    intro k r' hr'
    rw [he.entries] at hr'
    by_cases hk : k = h
    · rw [(hself hk hr').2]
      exact hstored
    · rw [hother hk hr']
      exact hc.stored_done k r' hr'
  case known_done =>
    intro k r' hr'
    rw [he.entries] at hr'
    by_cases hk : k = h
    · rw [(hself hk hr').2]
      exact hknown
    · rw [hother hk hr']
      exact hc.known_done k r' hr'
  case counters_live =>
    intro k r' hr'
    rw [he.entries]
    rcases he.counters k with hk | ⟨hk, hself⟩
    · exact hc.counters_live k r' (hk ▸ hr')
    · exact hk ▸ live_of_self hself hr'
  case needsCheck =>
    intro k hk
    obtain ⟨hne, hk'⟩ := hclosed hk
    rw [hlive _ hne, ← hc.needsCheck k hk']
    exact (he.needsCheck k).resolve_right fun hh ↦ hne hh.1
  case fetchable =>
    intro k hk
    obtain ⟨hne, hk'⟩ := hclosed hk
    rw [hlive _ hne, ← hc.fetchable k hk']
    exact (he.fetchable k).resolve_right fun hh ↦ hne hh.1
  case needsLookup =>
    intro k hk
    obtain ⟨hne, hk'⟩ := hclosed hk
    rw [hlive _ hne, he.limits, ← hc.needsLookup k hk']
    exact (he.needsLookup k).resolve_right fun hh ↦ hne hh.1
  case needsCheck_live =>
    intro k r' hr'
    rw [he.entries]
    rcases he.needsCheck k with hk | ⟨hk, hself⟩
    · exact hc.needsCheck_live k r' (hk ▸ hr')
    · exact hk ▸ live_of_self hself hr'
  case fetchable_live =>
    intro k r' hr'
    rw [he.entries]
    rcases he.fetchable k with hk | ⟨hk, hself⟩
    · exact hc.fetchable_live k r' (hk ▸ hr')
    · exact hk ▸ live_of_self hself hr'
  case needsLookup_live =>
    intro k r' hr'
    rw [he.entries]
    rcases he.needsLookup k with hk | ⟨hk, hself⟩
    · exact hc.needsLookup_live k r' (hk ▸ hr')
    · exact hk ▸ live_of_self hself hr'

end Edited

/-- `_index_entry_locked` closes the key of the entry. -/
theorem Represented.indexEntryLocked {c : TorrentCatalog} {h : Bytes} {r : Ref}
    (hc : c.Represented {h}) (hr : c.entries.get? h = some r) :
    (c.indexEntryLocked r).Represented ∅ := by
  have hkey := hc.key h r hr
  have hitem {m : OrderedMap Bytes Ref}
      (hlive : ∀ k r', m.get? k = some r' → c.entries.get? k = some r') :
      (m.get? h).getD r = r := by
    cases hget : m.get? h with
    | none => rfl
    | some r' => exact Option.some.inj ((hlive h r' hget).symm.trans hr)
  have hcheck (k : Bytes) : (c.indexEntryLocked r).needsCheck.get? k =
      if k = h then c.liveWhere TorrentEntry.awaitsCheck h else c.needsCheck.get? k := by
    simp only [TorrentCatalog.indexEntryLocked, TorrentCatalog.check, hkey, liveWhere_of_live hr,
      TorrentEntry.awaitsCheck]
    by_cases hp : (c.heap r).fetchState = .pending <;> by_cases hd : (c.heap r).databaseChecked <;>
      simp [hp, hd, hitem hc.needsCheck_live]
  have hfetch (k : Bytes) : (c.indexEntryLocked r).fetchable.get? k =
      if k = h then c.liveWhere TorrentEntry.readyToFetch h else c.fetchable.get? k := by
    simp only [TorrentCatalog.indexEntryLocked, TorrentCatalog.check, hkey, liveWhere_of_live hr,
      TorrentEntry.readyToFetch]
    by_cases hp : (c.heap r).fetchState = .pending <;> by_cases hd : (c.heap r).databaseChecked <;>
      by_cases hs : (c.heap r).hasPeers <;> simp [hp, hd, hs]
  have hlookup (k : Bytes) : (c.indexEntryLocked r).needsLookup.get? k =
      if k = h then c.liveWhere (TorrentEntry.awaitsLookup c.limits.maxLookups) h
      else c.needsLookup.get? k := by
    simp only [TorrentCatalog.indexEntryLocked, TorrentCatalog.check, hkey, liveWhere_of_live hr,
      TorrentEntry.awaitsLookup]
    by_cases hp : (c.heap r).fetchState = .pending <;> by_cases hd : (c.heap r).databaseChecked <;>
      by_cases hs : (c.heap r).hasPeers <;> by_cases hl : (c.heap r).lookupInProgress <;>
      by_cases hm : (c.heap r).lookupsStarted < c.limits.maxLookups <;>
      simp [hp, hd, hs, hl, hm, hitem hc.needsLookup_live]
  constructor
  case key => exact hc.key
  case allocated => exact hc.allocated
  case stateCounts => exact hc.stateCounts
  case knownDone => exact hc.knownDone
  case lookupsInProgress => exact hc.lookupsInProgress
  case fetched => exact hc.fetched
  case stored_done => exact hc.stored_done
  case known_done => exact hc.known_done
  case counters_live => exact hc.counters_live
  case needsCheck =>
    intro k _
    rw [hcheck]
    by_cases hk : k = h
    · rw [if_pos hk, hk]
      rfl
    · rw [if_neg hk]
      exact hc.needsCheck k hk
  case fetchable =>
    intro k _
    rw [hfetch]
    by_cases hk : k = h
    · rw [if_pos hk, hk]
      rfl
    · rw [if_neg hk]
      exact hc.fetchable k hk
  case needsLookup =>
    intro k _
    rw [hlookup]
    by_cases hk : k = h
    · rw [if_pos hk, hk]
      rfl
    · rw [if_neg hk]
      exact hc.needsLookup k hk
  case needsCheck_live =>
    intro k r' hr'
    rw [hcheck] at hr'
    by_cases hk : k = h
    · rw [if_pos hk] at hr'
      exact hk ▸ (liveWhere_eq_some_iff.mp hr').1
    · rw [if_neg hk] at hr'
      exact hc.needsCheck_live k r' hr'
  case fetchable_live =>
    intro k r' hr'
    rw [hfetch] at hr'
    by_cases hk : k = h
    · rw [if_pos hk] at hr'
      exact hk ▸ (liveWhere_eq_some_iff.mp hr').1
    · rw [if_neg hk] at hr'
      exact hc.fetchable_live k r' hr'
  case needsLookup_live =>
    intro k r' hr'
    rw [hlookup] at hr'
    by_cases hk : k = h
    · rw [if_pos hk] at hr'
      exact hk ▸ (liveWhere_eq_some_iff.mp hr').1
    · rw [if_neg hk] at hr'
      exact hc.needsLookup_live k r' hr'

/-! ## The built-in assertions -/

/-- The assertions of `_assert_invariants_locked` follow from the representation. -/
theorem Represented.assertInvariantsLocked_raised {c : TorrentCatalog} (hc : c.Represented ∅) :
    c.assertInvariantsLocked.raised = c.raised := by
  have hstates (refs : List Ref) :
      refs.countP (fun r ↦ decide ((c.heap r).fetchState = .pending)) +
        refs.countP (fun r ↦ decide ((c.heap r).fetchState = .inProgress)) +
        refs.countP (fun r ↦ decide ((c.heap r).fetchState = .done)) +
        refs.countP (fun r ↦ decide ((c.heap r).fetchState = .failed)) = refs.length := by
    induction refs with
    | nil => rfl
    | cons r rest ih =>
      simp only [List.countP_cons, List.length_cons]
      cases (c.heap r).fetchState <;> simp <;> omega
  have hsize : c.entries.values.length = c.entries.size := List.length_map _
  have htotal : c.stateCounts .pending + c.stateCounts .inProgress + c.stateCounts .done +
      c.stateCounts .failed = c.entries.size := by
    simp only [hc.stateCounts, countLive, ← hsize]
    exact_mod_cast hstates c.entries.values
  have hfetched : (c.fetched.size : ℤ) ≤ c.stateCounts .done := by
    rw [hc.stateCounts, countLive, Nat.cast_le]
    apply OrderedMap.size_le_countP
    intro h r hr
    rw [hc.fetched] at hr
    obtain ⟨hlive, hmeta⟩ := liveWhere_eq_some_iff.mp hr
    exact ⟨hlive, by simpa using hc.stored_done h r hlive hmeta⟩
  have hlookups : 0 ≤ c.lookupsInProgress := by
    rw [hc.lookupsInProgress]
    exact Nat.cast_nonneg _
  have hqueues : c.needsLookup.size + c.fetchable.size ≤ c.entries.size := by
    have hlookup : c.needsLookup.size ≤ c.entries.values.countP fun r ↦
        (c.heap r).awaitsLookup c.limits.maxLookups := by
      apply OrderedMap.size_le_countP
      intro h r hr
      rw [hc.needsLookup h (Set.notMem_empty h)] at hr
      exact liveWhere_eq_some_iff.mp hr
    have hfetch : c.fetchable.size ≤ c.entries.values.countP fun r ↦
        decide ¬ (c.heap r).awaitsLookup c.limits.maxLookups = true := by
      apply OrderedMap.size_le_countP
      intro h r hr
      rw [hc.fetchable h (Set.notMem_empty h)] at hr
      obtain ⟨hlive, hready⟩ := liveWhere_eq_some_iff.mp hr
      simp only [TorrentEntry.readyToFetch, decide_eq_true_eq] at hready
      exact ⟨hlive, by simp [TorrentEntry.awaitsLookup, hready.2.2]⟩
    have hsplit := List.length_eq_countP_add_countP
      (fun r ↦ (c.heap r).awaitsLookup c.limits.maxLookups) (l := c.entries.values)
    omega
  simp [TorrentCatalog.assertInvariantsLocked, TorrentCatalog.check, htotal, hfetched, hlookups,
    hqueues]

end TorrentCatalog

end DhtScraper
