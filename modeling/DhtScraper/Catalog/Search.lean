import DhtScraper.Catalog.Counts
import DhtScraper.Library.Tally
import DhtScraper.Search.Results
import DhtScraper.Codec.Hex
import Mathlib.Data.Sum.Order

/-!
# Searching the catalog

`TorrentCatalog.search` and `TorrentCatalog.torrent_detail`, which the web interface calls from its own
threads.  `str.lower` and `str.strip` are parameters.  The result is `none` when an exception leaves
the method; from the states that the threads of the program reach none does, and the results of a
search are a prefix of one ranking of the torrents with metadata in memory.
-/

namespace DhtScraper

open Library

/-- The texts and numbers by which results are sorted. -/
abbrev SortValue := Text ⊕ₗ ℚ

/-- What `_search_record_locked` copies from an entry. -/
structure SearchRow where
  infoHash : Text
  name : Text
  size : ℕ
  fileCount : ℕ
  seenCount : ℤ
  announceCount : ℤ
  firstSeen : ℚ
  lastSeen : ℚ
  deriving DecidableEq

/-- The metadata of a detail record. -/
structure DetailMetadata where
  name : Text
  size : ℕ
  pieceLength : ℕ
  fileCount : ℕ
  files : List (Text × ℕ)
  isPrivate : Bool
  fetchedAt : ℚ
  sourcePeer : Option Address

/-- What `_detail_record_locked` copies from an entry. -/
structure DetailRecord where
  infoHash : Text
  seenCount : ℤ
  announceCount : ℤ
  firstSeen : ℚ
  lastSeen : ℚ
  fetchState : FetchState
  fetchAttempts : ℕ
  lastError : String
  lookupsStarted : ℕ
  peers : List Address
  metadata : Option DetailMetadata

def detailMetadata (metadata : TorrentMetadata) : DetailMetadata where
  name := metadata.name
  size := metadata.totalSize
  pieceLength := metadata.pieceLength
  fileCount := metadata.fileCount
  files := metadata.files
  isPrivate := metadata.isPrivate
  fetchedAt := metadata.fetchedAt
  sourcePeer := metadata.sourcePeer

namespace TorrentEntry

/-- The counts of this run and of earlier ones: `cumulative_counters`. -/
def cumulativeCounters (entry : TorrentEntry) : Option (ℤ × ℤ × ℚ) := do
  let result := match entry.indexBase with
    | none => (entry.seenCount, entry.announceCount, entry.firstSeen)
    | some base =>
      (base.1 + entry.seenCount, base.2.1 + entry.announceCount,
        (base.2.2.map fun first ↦ min first entry.firstSeen).getD entry.firstSeen)
  guard (entry.seenCount ≤ result.1)
  return result

/-- `_search_record_locked`. -/
def searchRow (entry : TorrentEntry) : Option SearchRow := do
  let metadata ← entry.metadata
  let (seenCount, announceCount, firstSeen) ← entry.cumulativeCounters
  return {
    infoHash := hex entry.infoHash
    name := metadata.name
    size := metadata.totalSize
    fileCount := metadata.fileCount
    seenCount := seenCount
    announceCount := announceCount
    firstSeen := firstSeen
    lastSeen := entry.lastSeen }

/-- `_detail_record_locked`. -/
def detailRecord (entry : TorrentEntry) : Option DetailRecord := do
  let (seenCount, announceCount, firstSeen) ← entry.cumulativeCounters
  guard (entry.metadata.isSome → entry.fetchState = .done)
  return {
    infoHash := hex entry.infoHash
    seenCount := seenCount
    announceCount := announceCount
    firstSeen := firstSeen
    lastSeen := entry.lastSeen
    fetchState := entry.fetchState
    fetchAttempts := entry.fetchAttempts
    lastError := entry.lastError
    lookupsStarted := entry.lookupsStarted
    peers := entry.peerList
    metadata := entry.metadata.map detailMetadata }

section Keys

variable (lower : Text → Text)

/-- `build_search_text`. -/
def searchText (metadata : TorrentMetadata) : Text :=
  lower (metadata.name ++ '\n' :: ['\n'].intercalate (metadata.files.map Prod.fst))

/-- `SORT_KEYS`. -/
def sortValue (entry : TorrentEntry) : SortColumn → Option SortValue
  | .name => entry.metadata.map fun metadata ↦ toLex (.inl (lower metadata.name))
  | .size => entry.metadata.map fun metadata ↦ toLex (.inr (metadata.totalSize : ℚ))
  | .fileCount => entry.metadata.map fun metadata ↦ toLex (.inr (metadata.fileCount : ℚ))
  | .seenCount => some (toLex (.inr (entry.seenCount : ℚ)))
  | .announceCount => some (toLex (.inr (entry.announceCount : ℚ)))
  | .lastSeen => some (toLex (.inr entry.lastSeen))

/-- `rank_key` without a column; the column and then the popularity with one. -/
def sortKey (sort : Option SortColumn) (entry : TorrentEntry) : Option (List SortValue) :=
  let popularity : List SortValue := [toLex (.inr (entry.seenCount : ℚ)), toLex (.inr entry.lastSeen)]
  match sort with
  | none => do
    guard (0 ≤ entry.seenCount)
    return popularity
  | some column => do
    let value ← entry.sortValue lower column
    return value :: popularity

/-- `not needle or needle in entry.metadata.search_text`. -/
def hasNeedle (needle : Text) (entry : TorrentEntry) : Option Bool :=
  if needle = [] then some true
  else entry.metadata.map fun metadata ↦ needle <:+: searchText lower metadata

end Keys

end TorrentEntry

open TorrentEntry

/-- The order of `sorted`, where `reverse` keeps equal keys in the order in which they came. -/
def keyedLe {α : Type} (reverse : Bool) (a b : List SortValue × α) : Prop :=
  if reverse then b.1 ≤ a.1 else a.1 ≤ b.1

instance {α : Type} (reverse : Bool) : DecidableRel (keyedLe (α := α) reverse) := fun a b ↦ by
  unfold keyedLe
  infer_instance

namespace TorrentCatalog

section Search

variable (lower strip : Text → Text) (c : TorrentCatalog)

/-- The entries with metadata in which the needle is found. -/
def matching (needle : Text) : Option (List Ref) := do
  let entries ← c.fetched.values.mapM fun r ↦ do
    let found ← (c.heap r).hasNeedle lower needle
    return (found, r)
  return (entries.filter Prod.fst).map Prod.snd

def withKeys (sort : Option SortColumn) (refs : List Ref) : Option (List (List SortValue × Ref)) :=
  refs.mapM fun r ↦ do
    let key ← (c.heap r).sortKey lower sort
    return (key, r)

def search (query : Text) (limit : ℕ) (sort : Option SortColumn) (descending : Bool) :
    Option (List SearchRow) := do
  let refs ← c.matching lower (lower (strip query))
  let keyed ← c.withKeys lower sort refs
  let result ← (takeFirst (keyedLe (sort = none ∨ descending)) limit keyed).mapM
    fun item ↦ (c.heap item.2).searchRow
  guard (result.length ≤ limit)
  return result

end Search

def torrentDetail (c : TorrentCatalog) (infoHash : Bytes) : Option (Option DetailRecord) := do
  guard (infoHash.length = nodeIdLength)
  match c.entries.get? infoHash with
  | none => return none
  | some r =>
    let record ← (c.heap r).detailRecord
    guard (record.infoHash = hex infoHash)
    return some record

end TorrentCatalog

/-! ## No exception leaves a search -/

theorem exists_mapM {α β : Type*} {f : α → Option β} {items : List α}
    (h : ∀ item ∈ items, ∃ result, f item = some result) : ∃ results, items.mapM f = some results := by
  induction items with
  | nil => exact ⟨[], rfl⟩
  | cons first rest ih =>
    obtain ⟨result, hresult⟩ := h first List.mem_cons_self
    obtain ⟨results, hresults⟩ := ih fun item hitem ↦ h item (List.mem_cons_of_mem first hitem)
    exact ⟨result :: results, by rw [List.mapM_cons, hresult, hresults]; rfl⟩

theorem mapM_eq_some {α β : Type*} {f : α → Option β} {g : α → β} {items : List α}
    (h : ∀ item ∈ items, f item = some (g item)) : items.mapM f = some (items.map g) := by
  induction items with
  | nil => rfl
  | cons first rest ih =>
    rw [List.mapM_cons, h first List.mem_cons_self,
      ih fun item hitem ↦ h item (List.mem_cons_of_mem first hitem)]
    rfl

namespace TorrentEntry

variable {entry : TorrentEntry} {metadata : TorrentMetadata} (lower : Text → Text)

theorem Counted.exists_counters (h : entry.Counted) :
    ∃ counters, entry.cumulativeCounters = some counters := by
  unfold cumulativeCounters
  cases hbase : entry.indexBase with
  | none => exact ⟨_, by simp only [guard, le_refl, if_true]; rfl⟩
  | some base =>
    have hmore : entry.seenCount ≤ base.1 + entry.seenCount := le_add_of_nonneg_left (h.base base hbase)
    exact ⟨_, by simp only [guard, if_pos hmore]; rfl⟩

theorem Counted.exists_searchRow (h : entry.Counted) (hmetadata : entry.metadata = some metadata) :
    ∃ row, entry.searchRow = some row := by
  obtain ⟨counters, hcounters⟩ := h.exists_counters
  simp [searchRow, hmetadata, hcounters]

theorem Counted.exists_detailRecord (h : entry.Counted)
    (hdone : entry.metadata.isSome → entry.fetchState = .done) :
    ∃ record, entry.detailRecord = some record ∧ record.infoHash = hex entry.infoHash := by
  obtain ⟨counters, hcounters⟩ := h.exists_counters
  refine ⟨_, by simp only [detailRecord, hcounters, guard, if_pos hdone]; rfl, rfl⟩

theorem exists_sortValue (hmetadata : entry.metadata = some metadata) (column : SortColumn) :
    ∃ value, entry.sortValue lower column = some value := by
  cases column <;> simp [sortValue, hmetadata]

theorem Counted.exists_sortKey (h : entry.Counted) (hmetadata : entry.metadata = some metadata)
    (sort : Option SortColumn) : ∃ key, entry.sortKey lower sort = some key := by
  cases sort with
  | none => exact ⟨_, by simp only [sortKey, guard, if_pos h.seen]; rfl⟩
  | some column =>
    obtain ⟨value, hvalue⟩ := exists_sortValue lower hmetadata column
    exact ⟨_, by simp only [sortKey, hvalue]; rfl⟩

theorem hasNeedle_eq (hmetadata : entry.metadata = some metadata) (needle : Text) :
    entry.hasNeedle lower needle =
      some (needle = [] ∨ needle <:+: searchText lower metadata : Bool) := by
  unfold hasNeedle
  split
  next hempty => simp [hempty]
  next hneedle => simp [hmetadata, hneedle]

end TorrentEntry

section Order

variable {α : Type} (reverse : Bool)

instance : Std.Total (keyedLe (α := α) reverse) := ⟨fun a b ↦ by
  unfold keyedLe
  split
  · exact le_total _ _
  · exact le_total _ _⟩

instance : IsTrans (List SortValue × α) (keyedLe reverse) := ⟨fun a b c hab hbc ↦ by
  unfold keyedLe at *
  split at hab
  next hreverse =>
    rw [if_pos hreverse] at hbc ⊢
    exact hbc.trans hab
  next hreverse =>
    rw [if_neg hreverse] at hbc ⊢
    exact hab.trans hbc⟩

end Order

namespace TorrentCatalog

variable {c : TorrentCatalog}

/-- The torrents that a search finds. -/
def Found (lower : Text → Text) (c : TorrentCatalog) (needle : Text) (r : Ref) : Prop :=
  (∃ h, c.entries.get? h = some r) ∧ ∃ metadata, (c.heap r).metadata = some metadata ∧
    (needle = [] ∨ needle <:+: searchText lower metadata)

/-- All the torrents that a search finds, in the order of the results. -/
structure Ranking (lower : Text → Text) (c : TorrentCatalog) (needle : Text) (sort : Option SortColumn)
    (descending : Bool) (ranking : List Ref) : Prop where
  nodup : ranking.Nodup
  found : ∀ r, r ∈ ranking ↔ c.Found lower needle r
  sorted : ranking.Pairwise fun r r' ↦ ∃ key key', (c.heap r).sortKey lower sort = some key ∧
    (c.heap r').sortKey lower sort = some key' ∧
      if sort = none ∨ descending then key' ≤ key else key ≤ key'

theorem Represented.fetched_live (hc : c.Represented ∅) {h : Bytes} {r : Ref}
    (hr : c.fetched.get? h = some r) : c.entries.get? h = some r ∧ (c.heap r).metadata.isSome := by
  rw [hc.fetched] at hr
  exact liveWhere_eq_some_iff.mp hr

theorem Represented.mem_fetched (hc : c.Represented ∅) {r : Ref} :
    r ∈ c.fetched.values ↔ (∃ h, c.entries.get? h = some r) ∧ (c.heap r).metadata.isSome := by
  rw [OrderedMap.mem_values_iff]
  constructor
  · rintro ⟨h, hr⟩
    exact ⟨⟨h, (hc.fetched_live hr).1⟩, (hc.fetched_live hr).2⟩
  · rintro ⟨⟨h, hr⟩, hsome⟩
    exact ⟨h, (hc.fetched h).trans (liveWhere_eq_some_iff.mpr ⟨hr, hsome⟩)⟩

section Ranking

variable (hc : c.Represented ∅) (hcounted : c.Counted) (lower : Text → Text)

include hc

theorem matching_eq (needle : Text) : ∃ refs, c.matching lower needle = some refs ∧ refs.Nodup ∧
    ∀ r, r ∈ refs ↔ c.Found lower needle r := by
  let found := fun r ↦ ((c.heap r).hasNeedle lower needle).getD false
  have hfound {r : Ref} {metadata : TorrentMetadata} (hmetadata : (c.heap r).metadata = some metadata) :
      (c.heap r).hasNeedle lower needle = some (found r) := by
    simp only [found, hasNeedle_eq lower hmetadata, Option.getD_some]
  have hentries : c.matching lower needle = some (c.fetched.values.filter found) := by
    unfold matching
    rw [mapM_eq_some (g := fun r ↦ (found r, r)) fun r hr ↦ ?_]
    · simp [List.filter_map, Function.comp_def]
    · obtain ⟨metadata, hmetadata⟩ := Option.isSome_iff_exists.mp (hc.mem_fetched.mp hr).2
      rw [hfound hmetadata]
      rfl
  have hvalues : c.fetched.values.Nodup := nodup_values hc fun h r hr ↦ (hc.fetched_live hr).1
  refine ⟨_, hentries, hvalues.filter _, fun r ↦ ?_⟩
  rw [List.mem_filter, hc.mem_fetched, Found]
  constructor
  · rintro ⟨⟨hlive, hsome⟩, htrue⟩
    obtain ⟨metadata, hmetadata⟩ := Option.isSome_iff_exists.mp hsome
    simp only [found, hasNeedle_eq lower hmetadata, Option.getD_some, decide_eq_true_eq] at htrue
    exact ⟨hlive, metadata, hmetadata, htrue⟩
  · rintro ⟨hlive, metadata, hmetadata, hneedle⟩
    refine ⟨⟨hlive, by rw [hmetadata]; rfl⟩, ?_⟩
    simp only [found, hasNeedle_eq lower hmetadata, Option.getD_some, decide_eq_true_eq]
    exact hneedle

omit hc in
include hcounted in
theorem withKeys_eq (sort : Option SortColumn) {refs : List Ref}
    (hrefs : ∀ r ∈ refs, (c.heap r).metadata.isSome) :
    ∃ keyed, c.withKeys lower sort refs = some keyed ∧ keyed.map Prod.snd = refs ∧
      ∀ item ∈ keyed, (c.heap item.2).sortKey lower sort = some item.1 := by
  let key := fun r ↦ ((c.heap r).sortKey lower sort).getD []
  have hkey {r : Ref} (hr : r ∈ refs) : (c.heap r).sortKey lower sort = some (key r) := by
    obtain ⟨metadata, hmetadata⟩ := Option.isSome_iff_exists.mp (hrefs r hr)
    obtain ⟨value, hvalue⟩ := (hcounted r).exists_sortKey lower hmetadata sort
    simp only [key, hvalue, Option.getD_some]
  refine ⟨refs.map fun r ↦ (key r, r), mapM_eq_some fun r hr ↦ ?_, ?_, fun item hitem ↦ ?_⟩
  · rw [hkey hr]
    rfl
  · rw [List.map_map]
    exact List.map_id refs
  · obtain ⟨r, hr, rfl⟩ := List.mem_map.mp hitem
    exact hkey hr

include hcounted in
/-- All results of a search, of which a limit takes the first ones. -/
theorem search_ranking (strip : Text → Text) (query : Text) (sort : Option SortColumn)
    (descending : Bool) : ∃ ranking, c.Ranking lower (lower (strip query)) sort descending ranking ∧
      ∀ limit, ∃ rows, c.search lower strip query limit sort descending = some rows ∧
        List.Forall₂ (fun r row ↦ (c.heap r).searchRow = some row) (ranking.take limit) rows := by
  obtain ⟨refs, hrefs, hnodup, hfound⟩ := matching_eq hc lower (lower (strip query))
  have hmetadata {r : Ref} (hr : r ∈ refs) : ∃ metadata, (c.heap r).metadata = some metadata := by
    obtain ⟨-, metadata, hsome, -⟩ := (hfound r).mp hr
    exact ⟨metadata, hsome⟩
  obtain ⟨keyed, hkeyed, hsnd, hkey⟩ := withKeys_eq hcounted lower sort fun r hr ↦
    Option.isSome_iff_exists.mpr (hmetadata hr)
  let le := keyedLe (α := Ref) (sort = none ∨ descending)
  have hperm : ((keyed.insertionSort le).map Prod.snd).Perm refs :=
    hsnd ▸ (List.perm_insertionSort le keyed).map Prod.snd
  refine ⟨(keyed.insertionSort le).map Prod.snd, ⟨hperm.nodup_iff.mpr hnodup,
    fun r ↦ hperm.mem_iff.trans (hfound r), ?_⟩, fun limit ↦ ?_⟩
  · rw [List.pairwise_map]
    refine (List.pairwise_insertionSort le keyed).imp_of_mem fun {a b} ha hb hle ↦ ?_
    refine ⟨a.1, b.1, hkey a ((List.mem_insertionSort _).mp ha),
      hkey b ((List.mem_insertionSort _).mp hb), ?_⟩
    simpa only [le, keyedLe, decide_eq_true_eq] using hle
  · have hchosen : ∀ item ∈ takeFirst le limit keyed, ∃ row, (c.heap item.2).searchRow = some row := by
      intro item hitem
      have hr : item.2 ∈ refs := hsnd ▸ List.mem_map_of_mem (mem_of_mem_takeFirst le hitem)
      obtain ⟨metadata, hsome⟩ := hmetadata hr
      exact (hcounted item.2).exists_searchRow hsome
    obtain ⟨rows, hrows⟩ := exists_mapM hchosen
    have hall := forall₂_of_mapM hrows
    have hlength : rows.length ≤ limit := by
      rw [← hall.length_eq, length_takeFirst]
      exact min_le_left _ _
    refine ⟨rows, ?_, ?_⟩
    · simp only [search, hrefs, hkeyed, Option.bind_eq_bind, Option.bind_some]
      rw [show (takeFirst (keyedLe (sort = none ∨ descending)) limit keyed).mapM _ = some rows from
        hrows]
      simp only [Option.bind_some, guard, if_pos hlength]
      rfl
    · rw [← List.map_take]
      exact List.forall₂_map_left_iff.mpr hall

end Ranking

/-- A detail record is that of the torrent that was asked for. -/
theorem torrentDetail_spec (hc : c.Represented ∅) (hcounted : c.Counted) {infoHash : Bytes}
    (hlength : infoHash.length = nodeIdLength) :
    ∃ found, c.torrentDetail infoHash = some found ∧
      (found = none ↔ c.entries.get? infoHash = none) ∧
      ∀ record, found = some record → record.infoHash = hex infoHash ∧
        ∃ r, c.entries.get? infoHash = some r ∧ (c.heap r).detailRecord = some record := by
  unfold torrentDetail
  cases hr : c.entries.get? infoHash with
  | none =>
    refine ⟨none, by simp only [guard, if_pos hlength]; rfl, iff_of_true rfl rfl,
      fun record hrecord ↦ ?_⟩
    cases hrecord
  | some r =>
    obtain ⟨record, hrecord, hhex⟩ := (hcounted r).exists_detailRecord (hc.stored_done infoHash r hr)
    rw [hc.key infoHash r hr] at hhex
    refine ⟨some record, ?_, by simp, fun found hfound ↦ ?_⟩
    · simp only [guard, if_pos hlength, hrecord]
      simp [hhex]
    · obtain rfl := Option.some.inj hfound
      exact ⟨hhex, r, rfl, hrecord⟩

end TorrentCatalog

/-- From every state that the threads of the program reach, a search ends without an exception, and
for every limit it shows the first torrents of one ranking: each torrent with metadata in memory that
has the needle, once, in the order asked for. -/
theorem Session.catalog_search_exact {limits : CatalogLimits} {ops : List CatalogOp} {s : Session}
    (h : catalogMachine.Leads Lawful (.new limits) ops s) (lower strip : Text → Text) (query : Text)
    (sort : Option SortColumn) (descending : Bool) :
    ∃ ranking, s.catalog.Ranking lower (lower (strip query)) sort descending ranking ∧
      ∀ limit, ∃ rows, s.catalog.search lower strip query limit sort descending = some rows ∧
        List.Forall₂ (fun r row ↦ (s.catalog.heap r).searchRow = some row) (ranking.take limit) rows :=
  TorrentCatalog.search_ranking (Session.sound_of_lawful h).represented (Session.counted_of_lawful h)
    lower strip query sort descending

/-- Two torrents are stored, of which the second one was seen last. -/
def storedOps : List CatalogOp :=
  [.storeMetadata (sampleMetadata 1) 0, .storeMetadata (sampleMetadata 2) 1]

def storedSession : Session := storedOps.foldl Session.exec (.new oneLookup)

theorem stored_leads : catalogMachine.Leads Lawful (.new oneLookup) storedOps storedSession :=
  ⟨by decide +kernel, rfl⟩

/-- Both have the empty name; a search for everything shows the two. -/
theorem Session.catalog_search_exact_stored : storedSession.catalog.fetched.size = 2 ∧
    ∃ ranking, storedSession.catalog.Ranking id [] none true ranking ∧
      ∀ limit, ∃ rows, storedSession.catalog.search id id [] limit none true = some rows ∧
        List.Forall₂ (fun r row ↦ (storedSession.catalog.heap r).searchRow = some row)
          (ranking.take limit) rows :=
  ⟨by decide +kernel, Session.catalog_search_exact stored_leads id id [] none true⟩

end DhtScraper
