import DhtScraper.Catalog.Cells

/-!
# Eviction is bounded and its scan agrees with the ranking

The scan of `_evict_locked` takes entries seen once, without metadata and peers, in the order they
came into the catalog.  It may stop early because an entry that was seen once was last seen when it was
created, and because creation moments do not decrease along the table of entries: within the class
the scan looks for, the insertion order is the order of the ranking, and every other entry ranks
behind.
-/

namespace DhtScraper

open Library

/-- The moment at which an operation records sightings. -/
def CatalogOp.recordMoment : CatalogOp → Option ℚ
  | .recordHash _ _ _ now => some now
  | .recordHashes _ _ now => some now
  | _ => none

namespace TorrentCatalog

/-! ## The calls of `_evict_locked` -/

/-- The catalogs on which `_record_locked` calls `_evict_locked`. -/
def evictionsOfRecord (c : TorrentCatalog) (infoHash : Bytes) (source : Source)
    (peer : Option Address) (moment : ℚ) : List TorrentCatalog :=
  let sighted := (c.sightLocked infoHash source peer moment).1
  if sighted.limits.maxEntries < sighted.entries.size then [sighted] else []

def evictionsOfEach (c : TorrentCatalog) (source : Source) (now : ℚ) :
    List Bytes → List TorrentCatalog
  | [] => []
  | infoHash :: rest =>
    c.evictionsOfRecord infoHash source none now ++
      (c.recordLocked infoHash source none now).1.evictionsOfEach source now rest

/-- The catalogs on which an operation calls `_evict_locked`. -/
def evictions (c : TorrentCatalog) : CatalogOp → List TorrentCatalog
  | .recordHash infoHash source peer now =>
    if infoHash.length = nodeIdLength ∧ 0 ≤ now then c.evictionsOfRecord infoHash source peer now
    else []
  | .recordHashes infoHashes source now =>
    if (∀ infoHash ∈ infoHashes, infoHash.length = nodeIdLength) ∧ 0 ≤ now then
      c.evictionsOfEach source now infoHashes
    else []
  | _ => []

/-- The entries that may be evicted, in the order of the table. -/
def evictable (c : TorrentCatalog) : List Ref :=
  c.entries.values.filter fun r ↦ (c.heap r).isEvictable

/-- The first entries of a stable sort of all evictable entries by `eviction_key`. -/
def lowestRanked (c : TorrentCatalog) : List Ref :=
  takeFirst (fun r r' ↦ (c.heap r).evictionKey ≤ (c.heap r').evictionKey) c.evictionCount c.evictable

/-- What `_evict_locked` does to the table of entries. -/
structure EvictsLowestRanked (c : TorrentCatalog) : Prop where
  remaining : c.evictLocked.1.entries.items =
    c.entries.items.filter fun item ↦ item.2 ∉ c.lowestRanked
  returned : c.evictLocked.2 =
    min (max 1 (c.limits.maxEntries / evictionDivisor)) c.evictable.length
  size : c.evictLocked.1.entries.size + c.evictLocked.2 = c.entries.size
  spared : ∀ r ∈ c.entries.values, ¬ (c.heap r).isEvictable → r ∈ c.evictLocked.1.entries.values

/-! ## Ageing -/

/-- The scan's view of the entries: how often they were seen, and since when. -/
structure Aged (moments : List ℚ) (c : TorrentCatalog) : Prop where
  seen : ∀ h r, c.entries.get? h = some r → 1 ≤ (c.heap r).seenCount
  fresh : ∀ h r, c.entries.get? h = some r → (c.heap r).seenCount ≤ 1 →
    (c.heap r).lastSeen = (c.heap r).firstSeen
  first : ∀ h r, c.entries.get? h = some r → (c.heap r).firstSeen ∈ moments
  ordered : c.entries.values.Pairwise fun r r' ↦ (c.heap r).firstSeen ≤ (c.heap r').firstSeen

variable {c c' mid : TorrentCatalog} {moments : List ℚ} {h : Bytes} {r : Ref}

theorem Aged.mono (ha : Aged moments c) {moments' : List ℚ} (hsub : moments ⊆ moments') :
    Aged moments' c where
  seen := ha.seen
  fresh := ha.fresh
  first := fun h r hr ↦ hsub (ha.first h r hr)
  ordered := ha.ordered

/-- Only the sightings of the live entries matter. -/
theorem Aged.of_sightings (ha : Aged moments c) (hentries : c'.entries = c.entries)
    (hheap : ∀ r, (c'.heap r).firstSeen = (c.heap r).firstSeen ∧
      (c'.heap r).lastSeen = (c.heap r).lastSeen ∧ (c'.heap r).seenCount = (c.heap r).seenCount) :
    Aged moments c' where
  seen := fun h r hr ↦ by
    rw [(hheap r).2.2]
    exact ha.seen h r (hentries ▸ hr)
  fresh := fun h r hr hseen ↦ by
    rw [(hheap r).2.2] at hseen
    rw [(hheap r).1, (hheap r).2.1]
    exact ha.fresh h r (hentries ▸ hr) hseen
  first := fun h r hr ↦ by
    rw [(hheap r).1]
    exact ha.first h r (hentries ▸ hr)
  ordered := by
    rw [hentries]
    refine ha.ordered.imp fun {r r'} hle ↦ ?_
    rw [(hheap r).1, (hheap r').1]
    exact hle

theorem Aged.of_heap (ha : Aged moments c) (hentries : c'.entries = c.entries)
    (hheap : c'.heap = c.heap) : Aged moments c' :=
  ha.of_sightings hentries fun r ↦ by rw [hheap]; exact ⟨rfl, rfl, rfl⟩

/-- Every entry of a smaller table was in the larger one, in the same order. -/
theorem Aged.evicted (ha : Aged moments c) (hrep : c.Represented ∅)
    (hr : c.entries.get? h = some r) (he : c.Evicted c' h r) : Aged moments c' := by
  have hsame {k : Bytes} {r' : Ref} (hr' : c'.entries.get? k = some r') :
      c.entries.get? k = some r' ∧ c'.heap r' = c.heap r' := by
    obtain ⟨hne, hlive⟩ := he.live_iff.mp hr'
    exact ⟨hlive, he.heap_other (Evicted.ne_of_live hrep hr hne hlive)⟩
  constructor
  case seen =>
    intro k r' hr'
    rw [(hsame hr').2]
    exact ha.seen k r' (hsame hr').1
  case fresh =>
    intro k r' hr'
    rw [(hsame hr').2]
    exact ha.fresh k r' (hsame hr').1
  case first =>
    intro k r' hr'
    rw [(hsame hr').2]
    exact ha.first k r' (hsame hr').1
  case ordered =>
    have hsub : c'.entries.values.Sublist c.entries.values := by
      rw [he.entries]
      exact List.filter_sublist.map _
    refine (ha.ordered.sublist hsub).imp_of_mem fun {r₁ r₂} h₁ h₂ hle ↦ ?_
    obtain ⟨k₁, hk₁⟩ := OrderedMap.mem_values_iff.mp h₁
    obtain ⟨k₂, hk₂⟩ := OrderedMap.mem_values_iff.mp h₂
    rw [(hsame hk₁).2, (hsame hk₂).2]
    exact hle

/-- A sighting creates an entry at the end of the table, or counts an old one for at least the
second time. -/
theorem Aged.sighted (ha : Aged moments c) (hrep : c.Represented ∅) {source : Source} {moment : ℚ}
    {entry : TorrentEntry} (hmoment : moment ∈ moments) (hlatest : ∀ m ∈ moments, m ≤ moment)
    (ho : c.Obtained mid h moment r) (hs : mid.Sighted c' h r source moment entry) :
    Aged moments c' := by
  have hentry : c'.heap r = entry := hs.edited.entry_eq
  have hother {r' : Ref} (hne : r' ≠ r) : c'.heap r' = mid.heap r' := by
    rw [hs.edited.heap, Function.update_of_ne hne]
  have hfirst := hs.record.firstSeen
  have hlast := hs.record.lastSeen
  have hseen := hs.record.seenCount
  simp only [countSighting] at hfirst hlast hseen
  cases ho with
  | live hr entries heap nextRef =>
    rw [heap] at hfirst hlast hseen
    have hold := ha.seen h r hr
    have hfirsts (r' : Ref) : (c'.heap r').firstSeen = (c.heap r').firstSeen := by
      by_cases hr' : r' = r
      · rw [hr', hentry, hfirst]
      · rw [hother hr', heap]
    have hentries : c'.entries = c.entries := hs.edited.entries.trans entries
    constructor
    case seen =>
      intro k r' hr'
      by_cases heq : r' = r
      · rw [heq, hentry, hseen]
        omega
      · rw [hother heq, heap]
        exact ha.seen k r' (hentries ▸ hr')
    case fresh =>
      intro k r' hr' hcount
      by_cases heq : r' = r
      · rw [heq, hentry, hseen] at hcount
        omega
      · rw [hother heq, heap] at hcount ⊢
        exact ha.fresh k r' (hentries ▸ hr') hcount
    case first =>
      intro k r' hr'
      rw [hfirsts]
      exact ha.first k r' (hentries ▸ hr')
    case ordered =>
      rw [hentries]
      refine ha.ordered.imp fun {r₁ r₂} hle ↦ ?_
      rw [hfirsts, hfirsts]
      exact hle
  | new hnone entries heap nextRef =>
    rw [heap, Function.update_self] at hfirst hlast hseen
    have hentries : c'.entries = c.entries.insertLast h c.nextRef := by
      rw [hs.edited.entries, entries, OrderedMap.insert, if_neg (by simp [OrderedMap.contains, hnone])]
    have hold {k : Bytes} {r' : Ref} (hr' : c.entries.get? k = some r') :
        r' ≠ c.nextRef ∧ c'.heap r' = c.heap r' := by
      have hne : r' ≠ c.nextRef := Nat.ne_of_lt (hrep.allocated k r' hr')
      refine ⟨hne, ?_⟩
      rw [hother hne, heap, Function.update_of_ne hne]
    have hcases {k : Bytes} {r' : Ref} (hr' : c'.entries.get? k = some r') :
        r' = c.nextRef ∨ c.entries.get? k = some r' := by
      rw [hentries, OrderedMap.get?_insertLast] at hr'
      by_cases hk : k = h
      · rw [if_pos hk] at hr'
        exact Or.inl (Option.some.inj hr').symm
      · rw [if_neg hk] at hr'
        exact Or.inr hr'
    constructor
    case seen =>
      intro k r' hr'
      rcases hcases hr' with rfl | hr'
      · rw [hentry, hseen]
        exact le_of_eq rfl
      · rw [(hold hr').2]
        exact ha.seen k r' hr'
    case fresh =>
      intro k r' hr'
      rcases hcases hr' with rfl | hr'
      · rw [hentry, hlast, hfirst]
        exact fun _ ↦ max_self moment
      · rw [(hold hr').2]
        exact ha.fresh k r' hr'
    case first =>
      intro k r' hr'
      rcases hcases hr' with rfl | hr'
      · rw [hentry, hfirst]
        exact hmoment
      · rw [(hold hr').2]
        exact ha.first k r' hr'
    case ordered =>
      have herase : c.entries.erase h = c.entries := OrderedMap.erase_eq_self hnone
      have hvalues : c'.entries.values = c.entries.values ++ [c.nextRef] := by
        rw [hentries]
        simp [OrderedMap.values, OrderedMap.insertLast, herase]
      rw [hvalues, List.pairwise_append]
      refine ⟨ha.ordered.imp_of_mem fun {r₁ r₂} h₁ h₂ hle ↦ ?_, List.pairwise_singleton _ _, ?_⟩
      · obtain ⟨k₁, hk₁⟩ := OrderedMap.mem_values_iff.mp h₁
        obtain ⟨k₂, hk₂⟩ := OrderedMap.mem_values_iff.mp h₂
        rw [(hold hk₁).2, (hold hk₂).2]
        exact hle
      · intro r₁ h₁ r₂ h₂
        obtain ⟨k₁, hk₁⟩ := OrderedMap.mem_values_iff.mp h₁
        rw [List.mem_singleton.mp h₂, (hold hk₁).2, hentry, hfirst]
        exact hlatest _ (ha.first k₁ r₁ hk₁)

/-! ## The scan and the ranking -/

/-- What the scan looks for among the evictable entries. -/
def seenOnce (c : TorrentCatalog) (r : Ref) : Bool :=
  (c.heap r).metadata.isNone ∧ (c.heap r).seenCount ≤ 1 ∧ ¬ (c.heap r).hasPeers

theorem scannedVictims_eq (c : TorrentCatalog) :
    c.scannedVictims = (c.evictable.filter c.seenOnce).take c.evictionCount := by
  rw [scannedVictims, evictable, List.filter_filter]
  congr 1
  refine List.filter_congr fun r _ ↦ ?_
  rw [Bool.eq_iff_iff]
  simp only [seenOnce, Bool.and_eq_true, decide_eq_true_eq, and_assoc]

/-- Entries seen once are ranked by the moment of their creation. -/
theorem Aged.scan_sorted (ha : Aged moments c) : (c.evictable.filter c.seenOnce).Pairwise
    fun r r' ↦ (c.heap r).evictionKey ≤ (c.heap r').evictionKey := by
  have hsub : (c.evictable.filter c.seenOnce).Sublist c.entries.values :=
    List.filter_sublist.trans List.filter_sublist
  refine (ha.ordered.sublist hsub).imp_of_mem fun {r r'} hr hr' hle ↦ ?_
  obtain ⟨k, hk⟩ := OrderedMap.mem_values_iff.mp (hsub.subset hr)
  obtain ⟨k', hk'⟩ := OrderedMap.mem_values_iff.mp (hsub.subset hr')
  have honce := List.of_mem_filter hr
  have honce' := List.of_mem_filter hr'
  simp only [seenOnce, decide_eq_true_eq, Bool.not_eq_true, Option.isNone_iff_eq_none]
    at honce honce'
  have hseen : (c.heap r).seenCount = 1 := le_antisymm honce.2.1 (ha.seen k r hk)
  have hseen' : (c.heap r').seenCount = 1 := le_antisymm honce'.2.1 (ha.seen k' r' hk')
  rw [← ha.fresh k r hk honce.2.1, ← ha.fresh k' r' hk' honce'.2.1] at hle
  simp [TorrentEntry.evictionKey, honce.1, honce'.1, honce.2.2, honce'.2.2, hseen, hseen',
    Prod.Lex.toLex_le_toLex', hle]

/-- Every other entry is ranked behind them. -/
theorem Aged.scan_first (ha : Aged moments c) {r r' : Ref} (hr : r ∈ c.entries.values)
    (honce : c.seenOnce r) (hother : ¬ c.seenOnce r') :
    ¬ (c.heap r').evictionKey ≤ (c.heap r).evictionKey := by
  obtain ⟨k, hk⟩ := OrderedMap.mem_values_iff.mp hr
  simp only [seenOnce, decide_eq_true_eq, Bool.not_eq_true, Option.isNone_iff_eq_none]
    at honce hother
  have hseen : (c.heap r).seenCount = 1 := le_antisymm honce.2.1 (ha.seen k r hk)
  intro hle
  simp only [TorrentEntry.evictionKey, honce.1, honce.2.2, hseen, Prod.Lex.toLex_le_toLex',
    Option.isSome_none, Bool.false_eq_true, if_false] at hle
  refine hother ⟨?_, ?_, ?_⟩
  · cases hmetadata : (c.heap r').metadata with
    | none => rfl
    | some metadata => simp [hmetadata] at hle
  · by_contra hseen'
    cases hmetadata : (c.heap r').metadata <;> cases hpeers : (c.heap r').hasPeers <;>
      simp [hmetadata, hpeers] at hle
    omega
  · cases hpeers : (c.heap r').hasPeers with
    | false => rfl
    | true =>
      cases hmetadata : (c.heap r').metadata <;> simp [hmetadata, hpeers] at hle

/-- The victims are the first entries of the ranking, whether the scan finds enough or not. -/
theorem Aged.evictionVictims_eq (ha : Aged moments c) (hrep : c.Represented ∅) :
    c.evictionVictims = c.lowestRanked := by
  have : Std.Total fun r r' ↦ (c.heap r).evictionKey ≤ (c.heap r').evictionKey :=
    ⟨fun _ _ ↦ le_total _ _⟩
  have : IsTrans Ref fun r r' ↦ (c.heap r).evictionKey ≤ (c.heap r').evictionKey :=
    ⟨fun _ _ _ ↦ le_trans⟩
  have hsort := insertionSort_eq_append
    (fun r r' ↦ (c.heap r).evictionKey ≤ (c.heap r').evictionKey) c.seenOnce ha.scan_sorted
    fun r hr r' _ honce hother ↦ ha.scan_first (List.mem_of_mem_filter hr) honce hother
  have hlowest : c.lowestRanked = (c.evictable.filter c.seenOnce ++
      (c.evictable.filter fun r ↦ !c.seenOnce r).insertionSort
        fun r r' ↦ (c.heap r).evictionKey ≤ (c.heap r').evictionKey).take c.evictionCount :=
    congrArg (List.take c.evictionCount) hsort
  have hscan := c.scannedVictims_eq
  by_cases hfew : c.scannedVictims.length < c.evictionCount
  · have hall : c.scannedVictims = c.evictable.filter c.seenOnce := by
      rw [hscan, List.length_take] at hfew
      rw [hscan, List.take_of_length_le (by omega)]
    -- the hashes that were taken are those of the entries seen once
    have hremaining : (c.entries.values.filter fun r ↦
        (c.heap r).infoHash ∉ c.scannedVictims.map (fun r ↦ (c.heap r).infoHash) ∧
          (c.heap r).isEvictable) = c.evictable.filter fun r ↦ !c.seenOnce r := by
      rw [evictable, List.filter_filter]
      refine List.filter_congr fun r hr ↦ ?_
      obtain ⟨k, hk⟩ := OrderedMap.mem_values_iff.mp hr
      by_cases hfree : (c.heap r).isEvictable
      · have htaken : (c.heap r).infoHash ∈ c.scannedVictims.map (fun r ↦ (c.heap r).infoHash) ↔
            c.seenOnce r := by
          rw [hall, List.mem_map]
          constructor
          · rintro ⟨r', hr', hkey⟩
            have hlive' := (List.mem_filter.mp (List.mem_of_mem_filter hr')).1
            obtain ⟨k', hk'⟩ := OrderedMap.mem_values_iff.mp hlive'
            rw [hrep.key k r hk, hrep.key k' r' hk'] at hkey
            rw [hkey, hk] at hk'
            rw [Option.some.inj hk']
            exact List.of_mem_filter hr'
          · exact fun honce ↦ ⟨r, List.mem_filter.mpr ⟨List.mem_filter.mpr ⟨hr, hfree⟩, honce⟩, rfl⟩
        by_cases honce : c.seenOnce r
        · simp [htaken.mpr honce, honce]
        · have hnotin : (c.heap r).infoHash ∉
              c.scannedVictims.map fun r ↦ (c.heap r).infoHash := fun hmem ↦ honce (htaken.mp hmem)
          rw [decide_eq_true ⟨hnotin, hfree⟩]
          simp [honce, hfree]
      · simp [hfree]
    rw [show c.evictionVictims = _ from if_pos hfew, hremaining, hlowest, hall, List.take_append]
    rw [hall] at hfew
    rw [List.take_of_length_le hfew.le]
    rfl
  · have hmany : c.evictionCount ≤ (c.evictable.filter c.seenOnce).length := by
      rw [hscan, List.length_take] at hfew
      omega
    rw [show c.evictionVictims = _ from if_neg hfew, hlowest, hscan,
      List.take_append_of_le_length hmany]

/-- Evicting the victims takes exactly them out of the table. -/
theorem foldl_evictOneLocked_items (victims : List Ref) : ∀ {c : TorrentCatalog}, victims.Nodup →
    c.Represented ∅ →
    (∀ r ∈ victims, (∃ h, c.entries.get? h = some r) ∧ (c.heap r).isEvictable) →
    (victims.foldl evictOneLocked c).entries.items =
      c.entries.items.filter fun item ↦ item.2 ∉ victims := by
  induction victims with
  | nil => exact fun _ _ _ ↦ by simp
  | cons r rest ih =>
    intro c hnodup hrep hlive
    obtain ⟨hnotin, hrest⟩ := List.nodup_cons.mp hnodup
    obtain ⟨⟨h, hr⟩, hfree⟩ := hlive r List.mem_cons_self
    have he := evicted_evictOneLocked (c := c) (hrep.key h r hr)
    have hnext := ih hrest (he.represented hrep hr hfree) fun r' hr' ↦ by
      obtain ⟨⟨h', hlive'⟩, hfree'⟩ := hlive r' (List.mem_cons_of_mem _ hr')
      have hne : r' ≠ r := ne_of_mem_of_not_mem hr' hnotin
      have hkey : h' ≠ h := fun heq ↦ by
        rw [heq, hr] at hlive'
        exact hne (Option.some.inj hlive').symm
      rw [he.heap_other hne]
      exact ⟨⟨h', he.live_iff.mpr ⟨hkey, hlive'⟩⟩, hfree'⟩
    rw [List.foldl_cons, hnext, he.entries]
    simp only [OrderedMap.erase, OrderedMap.filterKeys, List.filter_filter]
    refine List.filter_congr fun item hitem ↦ ?_
    have hget : c.entries.get? item.1 = some item.2 := OrderedMap.get?_eq_some_iff.mpr hitem
    have hsame : item.1 = h ↔ item.2 = r := by
      constructor
      · intro hk
        rw [hk, hr] at hget
        exact (Option.some.inj hget).symm
      · intro hv
        rw [hv] at hget
        exact hrep.live_unique hr hget
    by_cases hk : item.1 = h
    · simp [hk, hsame.mp hk]
    · have hv : item.2 ≠ r := fun hv ↦ hk (hsame.mpr hv)
      simp [hk, hv]

theorem Aged.evictsLowestRanked (ha : Aged moments c) (hrep : c.Represented ∅) :
    c.EvictsLowestRanked := by
  have hvictims := ha.evictionVictims_eq hrep
  obtain ⟨hnodup, hlive⟩ := evictionVictims_spec hrep
  have hitems : c.evictLocked.1.entries.items =
      c.entries.items.filter fun item ↦ item.2 ∉ c.evictionVictims :=
    foldl_evictOneLocked_items _ hnodup hrep hlive
  have hreturned : c.evictLocked.2 =
      min (max 1 (c.limits.maxEntries / evictionDivisor)) c.evictable.length := by
    rw [show c.evictLocked.2 = c.evictionVictims.length from rfl, hvictims, lowestRanked,
      length_takeFirst]
    rfl
  constructor
  case remaining => rw [hitems, hvictims]
  case returned => exact hreturned
  case size =>
    have hvalues : c.entries.values.Nodup := nodup_values hrep fun _ _ hr ↦ hr
    have hsub : c.evictionVictims ⊆ c.entries.values := fun r hr ↦
      OrderedMap.mem_values_iff.mpr (hlive r hr).1
    have hout : (c.entries.values.filter fun r ↦ r ∈ c.evictionVictims).length =
        c.evictionVictims.length := by
      refine List.Perm.length_eq ((List.perm_ext_iff_of_nodup (hvalues.filter _) hnodup).mpr ?_)
      intro r
      simpa using fun hr ↦ hsub hr
    have hsplit := c.entries.values.length_eq_length_filter_add fun r ↦ r ∈ c.evictionVictims
    have hleft : (c.entries.values.filter fun r ↦ !decide (r ∈ c.evictionVictims)).length =
        c.evictLocked.1.entries.size := by
      rw [OrderedMap.size, hitems, OrderedMap.values, List.filter_map, List.length_map]
      congr 1
      refine List.filter_congr fun item _ ↦ ?_
      simp
    have hsize : c.entries.values.length = c.entries.size := List.length_map _
    have htwo : c.evictLocked.2 = c.evictionVictims.length := rfl
    omega
  case spared =>
    intro r hr hbusy
    obtain ⟨item, hitem, hvalue⟩ := List.mem_map.mp hr
    refine List.mem_map.mpr ⟨item, ?_, hvalue⟩
    rw [hitems]
    refine List.mem_filter.mpr ⟨hitem, decide_eq_true fun hvictim ↦ ?_⟩
    rw [hvalue] at hvictim
    exact hbusy (hlive r hvictim).2

end TorrentCatalog

/-! ## Runs -/

theorem CellStep.sightings {limits : CatalogLimits} {op : CatalogOp} {e e' : TorrentEntry}
    (hstep : CellStep limits op e e') :
    e'.firstSeen = e.firstSeen ∧ e'.lastSeen = e.lastSeen ∧ e'.seenCount = e.seenCount := by
  cases hstep with
  | peerAdded peer =>
    unfold TorrentEntry.addPeer
    split <;> exact ⟨rfl, rfl, rfl⟩
  | _ => exact ⟨rfl, rfl, rfl⟩

namespace TorrentCatalog

variable {limits : CatalogLimits} {c c' : TorrentCatalog} {moments : List ℚ} {h : Bytes} {r : Ref}
  {F L : Finset Bytes}

theorem Evolved.sightings {op : CatalogOp} (hc : Evolved limits op c c') (r : Ref) :
    (c'.heap r).firstSeen = (c.heap r).firstSeen ∧ (c'.heap r).lastSeen = (c.heap r).lastSeen ∧
      (c'.heap r).seenCount = (c.heap r).seenCount := by
  have hsteps := hc.cells r
  generalize c'.heap r = e at hsteps
  induction hsteps with
  | refl => exact ⟨rfl, rfl, rfl⟩
  | tail _ hstep ih =>
    obtain ⟨hfirst, hlast, hseen⟩ := hstep.sightings
    exact ⟨hfirst.trans ih.1, hlast.trans ih.2.1, hseen.trans ih.2.2⟩

theorem failedEntry_sightings (triedPeers : List Address) (reason : String) (now : ℚ)
    (e : TorrentEntry) : (failedEntry limits triedPeers reason now e).firstSeen = e.firstSeen ∧
      (failedEntry limits triedPeers reason now e).lastSeen = e.lastSeen ∧
      (failedEntry limits triedPeers reason now e).seenCount = e.seenCount :=
  ⟨foldl_keeps TorrentEntry.firstSeen TorrentEntry.forgetPeer (fun _ _ ↦ rfl) triedPeers e,
    foldl_keeps TorrentEntry.lastSeen TorrentEntry.forgetPeer (fun _ _ ↦ rfl) triedPeers e,
    foldl_keeps TorrentEntry.seenCount TorrentEntry.forgetPeer (fun _ _ ↦ rfl) triedPeers e⟩

/-- A sound catalog within its bound whose entries have aged since the recorded moments. -/
structure Bounded (limits : CatalogLimits) (moments : List ℚ) (F L : Finset Bytes)
    (c : TorrentCatalog) : Prop where
  sound : Sound limits (fun _ ↦ True) c F L
  aged : Aged moments c
  size : c.entries.size ≤ limits.maxEntries

theorem Bounded.check (hc : Bounded limits moments F L c) (p : Prop) [Decidable p] :
    Bounded limits moments F L (c.check p) := ⟨hc.sound.check p, hc.aged.of_heap rfl rfl, hc.size⟩

/-- A sighting above the bound has created an entry that can be evicted. -/
theorem evictable_pos_of_full (hs : Sound limits (fun _ ↦ True) c F L)
    (hsize : c.entries.size ≤ limits.maxEntries) {source : Source} {peer : Option Address}
    {moment : ℚ} (hfull : limits.maxEntries < (c.sightLocked h source peer moment).1.entries.size) :
    (c.sightLocked h source peer moment).1.entries.size ≤ limits.maxEntries + 1 ∧
      1 ≤ (c.sightLocked h source peer moment).1.evictable.length := by
  obtain ⟨-, mid, entry, -, hobtained, -, -, hsighted⟩ :=
    sightLocked_spec hs.represented h source peer moment
  have hlive : (c.sightLocked h source peer moment).1.entries.get? h =
      some (c.sightLocked h source peer moment).2.1 := by
    rw [hsighted.edited.entries]
    exact hobtained.entry_live
  generalize (c.sightLocked h source peer moment).2.1 = r at hobtained hsighted hlive
  generalize (c.sightLocked h source peer moment).1 = sighted at hfull hsighted hlive ⊢
  cases hobtained with
  | live hr entries heap nextRef =>
    rw [hsighted.edited.entries, entries] at hfull
    omega
  | new hnone entries heap nextRef =>
    have hentries : sighted.entries.size = c.entries.size + 1 := by
      rw [hsighted.edited.entries, entries, OrderedMap.size_insert_of_absent _ hnone]
    have hstate := hsighted.fetchState
    have hlookup := hsighted.lookupInProgress
    rw [heap, Function.update_self] at hstate hlookup
    have hfree : (sighted.heap c.nextRef).isEvictable := by
      rw [hsighted.edited.entry_eq]
      simp [TorrentEntry.isEvictable, hstate, hlookup, TorrentEntry.new]
    refine ⟨by omega, List.length_pos_of_mem (a := c.nextRef) (List.mem_filter.mpr ⟨?_, hfree⟩)⟩
    exact OrderedMap.mem_values_iff.mpr ⟨h, hlive⟩

/-- One record keeps the catalog within its bound, and its eviction follows the ranking. -/
theorem Bounded.recordLocked (hc : Bounded limits moments F L c) (h : Bytes) (source : Source)
    (peer : Option Address) {moment : ℚ} (hmoment : moment ∈ moments)
    (hlatest : ∀ m ∈ moments, m ≤ moment) :
    Bounded limits moments F L (c.recordLocked h source peer moment).1 ∧
      ∀ e ∈ c.evictionsOfRecord h source peer moment, e.EvictsLowestRanked := by
  have hinv := anyEntry_invariant limits claimedStoresOnly
  have hrep := hc.sound.represented
  have hsound := hc.sound.sightLocked hinv h source peer moment
  obtain ⟨-, mid, entry, -, hobtained, -, -, hsighted⟩ :=
    sightLocked_spec hrep h source peer moment
  have haged := hc.aged.sighted hrep hmoment hlatest hobtained hsighted
  have hevicts := haged.evictsLowestRanked hsound.represented
  have hlimits := hsound.limits
  constructor
  · simp only [TorrentCatalog.recordLocked]
    refine Bounded.check ?_ _
    split
    next hfull =>
      rw [hlimits] at hfull
      obtain ⟨hsize, hfree⟩ := evictable_pos_of_full hc.sound hc.size hfull
      have hreturned := hevicts.returned
      have hleft := hevicts.size
      refine ⟨hsound.evictLocked, ?_, by omega⟩
      refine (evictLocked_induction (I := Aged moments) hsound.represented haged ?_ ?_).1
      · intro c h r hrep ha hr _
        exact ha.evicted hrep hr (evicted_evictOneLocked (hrep.key h r hr))
      · exact fun c n b ha ↦ ha.of_heap rfl rfl
    next hroom =>
      rw [hlimits] at hroom
      exact ⟨hsound, haged, not_lt.mp hroom⟩
  · intro e he
    simp only [evictionsOfRecord] at he
    split at he
    · rw [List.mem_singleton.mp he]
      exact hevicts
    · cases he

theorem Bounded.recordEachLocked (source : Source) {now : ℚ} (hmoment : now ∈ moments)
    (hlatest : ∀ m ∈ moments, m ≤ now) (hashes : List Bytes) : ∀ {c : TorrentCatalog},
    Bounded limits moments F L c →
    Bounded limits moments F L (c.recordEachLocked source now hashes).1 ∧
      ∀ e ∈ c.evictionsOfEach source now hashes, e.EvictsLowestRanked := by
  induction hashes with
  | nil => exact fun hc ↦ ⟨hc, fun e he ↦ absurd he List.not_mem_nil⟩
  | cons h rest ih =>
    intro c hc
    obtain ⟨hfirst, hevicts⟩ := hc.recordLocked h source none hmoment hlatest
    obtain ⟨hrest, hothers⟩ := ih hfirst
    refine ⟨hrest, fun e he ↦ ?_⟩
    rcases List.mem_append.mp he with he | he
    · exact hevicts e he
    · exact hothers e he

end TorrentCatalog

open TorrentCatalog in
/-- Every permitted operation keeps the catalog within its bound, and each of its evictions follows
the ranking. -/
theorem Session.exec_bounded {limits : CatalogLimits} {moments : List ℚ} {s : Session}
    (hs : Bounded limits moments s.fetchClaims s.lookupClaims s.catalog) {op : CatalogOp}
    (hop : s.permits claimedStoresOnly op)
    (hmoment : ∀ now ∈ op.recordMoment, now ∈ moments ∧ ∀ m ∈ moments, m ≤ now) :
    Bounded limits moments (s.exec op).fetchClaims (s.exec op).lookupClaims (s.exec op).catalog ∧
      ∀ e ∈ s.catalog.settle.evictions op, e.EvictsLowestRanked := by
  have hinv := anyEntry_invariant limits claimedStoresOnly
  have hsound := s.exec_sound hinv hs.sound op hop
  have hsettled : Bounded limits moments s.fetchClaims s.lookupClaims s.catalog.settle :=
    ⟨hs.sound.settle, hs.aged.of_heap rfl rfl, hs.size⟩
  have hraised (b : Bool) : Aged moments { s.catalog.settle with raised := b } :=
    hs.aged.of_heap rfl rfl
  -- an operation that leaves the sightings alone leaves the table alone as well
  have hquiet {op : CatalogOp} (hop : s.permits claimedStoresOnly op) (hrecords : ¬ op.records)
      (hsightings : ∀ r, ((s.exec op).catalog.heap r).firstSeen = (s.catalog.heap r).firstSeen ∧
        ((s.exec op).catalog.heap r).lastSeen = (s.catalog.heap r).lastSeen ∧
        ((s.exec op).catalog.heap r).seenCount = (s.catalog.heap r).seenCount) :
      Bounded limits moments (s.exec op).fetchClaims (s.exec op).lookupClaims
        (s.exec op).catalog := by
    have hentries := s.exec_entries hs.sound hop hrecords
    refine ⟨s.exec_sound hinv hs.sound op hop, hs.aged.of_sightings hentries hsightings, ?_⟩
    rw [hentries]
    exact hs.size
  cases op with
  | recordHash h source peer now =>
    obtain ⟨hnow, hlatest⟩ := hmoment now rfl
    obtain ⟨hrecorded, hevicts⟩ := hsettled.recordLocked h source peer hnow hlatest
    by_cases hasserts : h.length = nodeIdLength ∧ 0 ≤ now
    · have hexec : (s.exec (.recordHash h source peer now)).catalog =
          (s.catalog.settle.recordLocked h source peer now).1.assertInvariantsLocked :=
        if_pos hasserts
      refine ⟨⟨hsound, ?_, ?_⟩, ?_⟩
      · rw [hexec]
        exact hrecorded.aged.of_heap rfl rfl
      · rw [hexec]
        exact hrecorded.size
      · simpa only [evictions, if_pos hasserts] using hevicts
    · have hexec : (s.exec (.recordHash h source peer now)).catalog =
          { s.catalog.settle with raised := true } := if_neg hasserts
      refine ⟨⟨hsound, hexec ▸ hraised true, hexec ▸ hs.size⟩, ?_⟩
      simp [evictions, if_neg hasserts]
  | recordHashes hashes source now =>
    obtain ⟨hnow, hlatest⟩ := hmoment now rfl
    obtain ⟨hrecorded, hevicts⟩ := Bounded.recordEachLocked source hnow hlatest hashes hsettled
    by_cases hasserts : (∀ h ∈ hashes, h.length = nodeIdLength) ∧ 0 ≤ now
    · have hexec : (s.exec (.recordHashes hashes source now)).catalog =
          (s.catalog.settle.recordEachLocked source now hashes).1.assertInvariantsLocked.check
            ((s.catalog.settle.recordEachLocked source now hashes).2 ≤ hashes.length) :=
        if_pos hasserts
      refine ⟨⟨hsound, ?_, ?_⟩, ?_⟩
      · rw [hexec]
        exact hrecorded.aged.of_heap rfl rfl
      · rw [hexec]
        exact hrecorded.size
      · simpa only [evictions, if_pos hasserts] using hevicts
    · have hexec : (s.exec (.recordHashes hashes source now)).catalog =
          { s.catalog.settle with raised := true } := if_neg hasserts
      refine ⟨⟨hsound, hexec ▸ hraised true, hexec ▸ hs.size⟩, ?_⟩
      simp [evictions, if_neg hasserts]
  | markFetchFailed h triedPeers reason now =>
    refine ⟨hquiet hop Bool.false_ne_true fun r ↦ ?_, fun e he ↦ by cases he⟩
    obtain ⟨r', -, -, -, hheap⟩ := s.exec_failed hs.sound triedPeers reason now hop
    rw [hheap]
    split
    · by_cases hr : r = r'
      · rw [hr, Function.update_self]
        exact failedEntry_sightings triedPeers reason now _
      · rw [Function.update_of_ne hr]
        exact ⟨rfl, rfl, rfl⟩
    · exact ⟨rfl, rfl, rfl⟩
  | _ =>
    exact ⟨hquiet hop Bool.false_ne_true
      (s.exec_evolved hs.sound hop Bool.false_ne_true Bool.false_ne_true).sightings,
      fun e he ↦ by cases he⟩

theorem Session.run_bounded {limits : CatalogLimits} {ops : List CatalogOp} {s : Session}
    (hops : catalogMachine.Along (fun s op ↦ s.permits claimedStoresOnly op) (.new limits) ops)
    (hmoments : (ops.filterMap CatalogOp.recordMoment).Pairwise (· ≤ ·))
    (hrun : catalogMachine.run (.new limits) ops = some s) :
    TorrentCatalog.Bounded limits (ops.filterMap CatalogOp.recordMoment) s.fetchClaims
      s.lookupClaims s.catalog := by
  have hhistory := catalogMachine.run_history_invariant
    (I := fun past s ↦ (past.filterMap CatalogOp.recordMoment).Pairwise (· ≤ ·) →
      TorrentCatalog.Bounded limits (past.filterMap CatalogOp.recordMoment) s.fetchClaims
        s.lookupClaims s.catalog)
    (fun past s op s' hs hop hstep hordered ↦ ?_) [] (fun _ ↦ ?_) hops hrun
  · rw [List.nil_append] at hhistory
    exact hhistory hmoments
  · simp only [catalogMachine, Option.some.injEq] at hstep
    rw [List.filterMap_append, List.pairwise_append] at hordered
    have hbounded := hs hordered.1
    rw [← hstep, List.filterMap_append]
    have hlonger : TorrentCatalog.Bounded limits (past.filterMap CatalogOp.recordMoment ++
        [op].filterMap CatalogOp.recordMoment) s.fetchClaims s.lookupClaims s.catalog :=
      ⟨hbounded.sound, hbounded.aged.mono (List.subset_append_left _ _), hbounded.size⟩
    refine (s.exec_bounded hlonger hop fun now hnow ↦ ?_).1
    · have hlast : [op].filterMap CatalogOp.recordMoment = [now] := by
        simp [Option.mem_def.mp hnow]
      rw [hlast] at hordered ⊢
      refine ⟨List.mem_append_right _ List.mem_cons_self, fun m hm ↦ ?_⟩
      rcases List.mem_append.mp hm with hm | hm
      · exact hordered.2.2 m hm now List.mem_cons_self
      · exact (List.mem_singleton.mp hm).le
  · refine ⟨Session.new_sound, ⟨?_, ?_, ?_, List.Pairwise.nil⟩, Nat.zero_le _⟩ <;>
      exact fun h r hr ↦ by cases hr

/-- As long as the moments of the sightings do not decrease, the catalog stays within its bound, and
every call of `_evict_locked` removes the first entries of the stable ranking of all evictable
entries, as many as it wants or all there are. -/
theorem evictions_ranked (limits : CatalogLimits) (ops : List CatalogOp) (s : Session)
    (hops : catalogMachine.Along (fun s op ↦ s.permits claimedStoresOnly op) (.new limits) ops)
    (hmoments : (ops.filterMap CatalogOp.recordMoment).Pairwise (· ≤ ·))
    (hrun : catalogMachine.run (.new limits) ops = some s) :
    s.catalog.entries.size ≤ limits.maxEntries ∧
      ∀ op, s.permits claimedStoresOnly op →
        (∀ now ∈ op.recordMoment, ∀ m ∈ ops.filterMap CatalogOp.recordMoment, m ≤ now) →
        ∀ c ∈ s.catalog.settle.evictions op, c.EvictsLowestRanked := by
  have hbounded := Session.run_bounded hops hmoments hrun
  refine ⟨hbounded.size, fun op hop hlatest ↦ ?_⟩
  let moments := ops.filterMap CatalogOp.recordMoment ++ op.recordMoment.toList
  have haged : TorrentCatalog.Bounded limits moments s.fetchClaims s.lookupClaims s.catalog :=
    ⟨hbounded.sound, hbounded.aged.mono (List.subset_append_left _ _), hbounded.size⟩
  refine (s.exec_bounded haged hop fun now hnow ↦ ?_).2
  have hmoment : moments = ops.filterMap CatalogOp.recordMoment ++ [now] := by
    simp [moments, Option.mem_def.mp hnow]
  rw [hmoment]
  refine ⟨List.mem_append_right _ List.mem_cons_self, fun m hm ↦ ?_⟩
  rcases List.mem_append.mp hm with hm | hm
  · exact hlatest now hnow m hm
  · exact (List.mem_singleton.mp hm).le

/-- A hash is looked up, and two others are seen later. -/
def crowdedOps : List CatalogOp :=
  [.recordHash (sampleHash 1) .getPeers none 0, .hashesNeedingPeers 1 0,
    .recordHash (sampleHash 2) .getPeers none 1]

theorem evictions_ranked_crowded : ∃ s, catalogMachine.run (.new twoEntries) crowdedOps = some s ∧
    (s.catalog.settle.evictions (.recordHash (sampleHash 3) .getPeers none 2)).length = 1 ∧
    s.catalog.entries.size ≤ 2 ∧
    ∀ c ∈ s.catalog.settle.evictions (.recordHash (sampleHash 3) .getPeers none 2),
      c.EvictsLowestRanked := by
  refine ⟨_, catalogMachine_run _ _, by decide +kernel, ?_⟩
  obtain ⟨hsize, hevicts⟩ := evictions_ranked twoEntries crowdedOps _ (by decide +kernel)
    (by decide +kernel) (catalogMachine_run _ _)
  exact ⟨hsize, hevicts _ (by decide +kernel) (by decide +kernel)⟩

end DhtScraper
