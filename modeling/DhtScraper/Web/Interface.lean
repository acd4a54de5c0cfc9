import DhtScraper.Catalog.Search
import DhtScraper.Web.MagnetLink

/-!
# The web interface

`CatalogRequestHandler.dispatch` up to the rendering as JSON: routes, query strings, searches in memory
or in the database, and the details of a torrent with their magnet links.  The result is `none` when an
exception leaves the handler.  From every catalog that the threads of the program reach, every request
gets a reply, also while the database cannot be read.
-/

namespace DhtScraper

open Library

def defaultSearchLimit : ℤ := 20

def maxSearchLimit : ℤ := 200

def maxQueryLength : ℕ := 200

def databaseUnavailable : String := "search database unavailable"

def routeTorrentPrefix : Text := "/api/torrent/".toList

/-- Functions of the standard library and of SQLite. -/
structure WebBuiltins where
  lower : Text → Text
  strip : Text → Text
  /-- `int(text)`; `none` for a `ValueError`. -/
  toInt : Text → Option ℤ
  ftsMatch : Text → ℕ → Bool
  textTerms : Text → List Text
  isDigit : Char → Bool

/-- The catalog and, where there is a database, what the two attempts of a read find: its tables, or
`none` for an `sqlite3.Error`. -/
structure CatalogWebServer where
  catalog : TorrentCatalog
  database : Option (Option Tables × Option Tables)

/-- A reply before it is rendered. -/
inductive WebReply where
  | page
  | stats
  | search (query : Text) (limit : ℕ) (engine : String) (sort : Option SortColumn) (descending : Bool)
      (results : List (SearchRow × Text))
  | torrent (record : DetailRecord) (magnet : Text)
  | error (status : ℕ) (message : String)

/-! ## Query strings -/

section Parsing

variable (builtins : WebBuiltins)

def parseSearchQuery (queryString : Text) : Option (Text × ℕ) := do
  let fields := readFields queryString
  let query := (builtins.strip ((fields.lookup "q".toList).getD [])).take maxQueryLength
  let limit := match fields.lookup "limit".toList with
    | some text => (builtins.toInt text).getD defaultSearchLimit
    | none => defaultSearchLimit
  let limit := max 1 (min limit maxSearchLimit)
  guard (1 ≤ limit ∧ limit ≤ maxSearchLimit ∧ query.length ≤ maxQueryLength)
  return (query, limit.toNat)

/-- `SORT_COLUMNS`. -/
def sortColumns : List (Text × SortColumn) :=
  [("name".toList, .name), ("size".toList, .size), ("file_count".toList, .fileCount),
    ("seen_count".toList, .seenCount), ("announce_count".toList, .announceCount),
    ("last_seen".toList, .lastSeen)]

/-- The column and whether the order is descending. -/
def parseSort (queryString : Text) : Option SortColumn × Bool :=
  let fields := readFields queryString
  let sort := sortColumns.lookup ((fields.lookup "sort".toList).getD [])
  let order := (fields.lookup "order".toList).getD []
  let descending :=
    if order = "asc".toList then false
    else if order = "desc".toList then true
    else decide (sort ≠ some .name)
  (sort, descending)

end Parsing

/-! ## Replies -/

/-- `attach_magnet`. -/
def attachMagnet (infoHash name : Text) : Option Text := do
  let infoHash ← fromHex infoHash
  let magnet ← (buildMagnetLink infoHash name).toOption
  guard ("magnet:".toList <+: magnet)
  return magnet

/-- The record of a row, after the assertion of `search_record`. -/
def databaseRow (record : SearchRecord) : Option SearchRow := do
  guard (record.infoHash.length = nodeIdLength)
  return {
    infoHash := hex record.infoHash
    name := record.name
    size := record.size
    fileCount := record.fileCount
    seenCount := record.seenCount
    announceCount := record.announceCount
    firstSeen := record.firstSeen
    lastSeen := record.lastSeen }

/-- `document_detail_record`. -/
def documentDetailRecord (document : Document) : DetailRecord where
  infoHash := hex document.infoHash
  seenCount := document.seenCount
  announceCount := document.announceCount
  firstSeen := document.firstSeen
  lastSeen := document.lastSeen
  fetchState := .done
  fetchAttempts := 0
  lastError := ""
  lookupsStarted := 0
  peers := []
  metadata := some {
    name := document.name
    size := document.size
    pieceLength := document.pieceLength
    fileCount := document.fileCount
    files := document.files
    isPrivate := document.isPrivate
    fetchedAt := document.fetchedAt
    sourcePeer := none }

/-- `TorrentDatabase.get_document`. -/
def getDocument (tables : Tables) (infoHash : Text) : Option (Option Document) := do
  guard (infoHash.length = 40)
  return tables.torrents.values.find? fun document ↦ hex document.infoHash = infoHash

namespace CatalogWebServer

variable (builtins : WebBuiltins) (server : CatalogWebServer)

/-- `read_database`: a second attempt after an error of SQLite. -/
def readDatabase (attempts : Option Tables × Option Tables) : Option Tables := attempts.1.or attempts.2

/-- `search_records`: the engine, and the records unless the database cannot be read. -/
def searchRecords (query : Text) (limit : ℕ) (sort : Option SortColumn) (descending : Bool) :
    Option (String × Option (List SearchRow)) :=
  match server.database with
  | none => do
    let records ← server.catalog.search builtins.lower builtins.strip query limit sort descending
    return ("memory", some records)
  | some attempts =>
    match readDatabase attempts with
    | none => return ("sqlite", none)
    | some tables => do
      let records ← (TorrentDatabase.search builtins.ftsMatch builtins.textTerms builtins.isDigit tables
        query limit sort descending).mapM databaseRow
      guard (records.length ≤ limit)
      return ("sqlite", some records)

def renderSearch (queryString : Text) : Option WebReply := do
  let (query, limit) ← parseSearchQuery builtins queryString
  let (sort, descending) := parseSort queryString
  let (engine, records) ← server.searchRecords builtins query limit sort descending
  match records with
  | none => return .error 503 databaseUnavailable
  | some records =>
    let results ← records.mapM fun record ↦ do
      let magnet ← attachMagnet record.infoHash record.name
      return (record, magnet)
    return .search query limit engine sort descending results

/-- The record that is shown for a hash, and whether the database could not be read. -/
def detail (infoHash : Bytes) : Option (Option DetailRecord × Bool) := do
  let record ← server.catalog.torrentDetail infoHash
  match server.database with
  | none => return (record, false)
  | some attempts =>
    if (record.bind DetailRecord.metadata).isSome then return (record, false)
    else
      match readDatabase attempts with
      | none => return (record, true)
      | some tables =>
        let document ← getDocument tables (hex infoHash)
        return ((document.map documentDetailRecord).or record, false)

def renderTorrent (hexHash : Text) : Option WebReply :=
  match parseInfoHashHex hexHash with
  | none => return .error 400 "invalid info hash"
  | some infoHash => do
    let (record, databaseFailed) ← server.detail infoHash
    match record with
    | none =>
      if databaseFailed then return .error 503 databaseUnavailable else return .error 404 "not found"
    | some record =>
      let magnet ← attachMagnet record.infoHash ((record.metadata.map DetailMetadata.name).getD [])
      return .torrent record magnet

def dispatch (path queryString : Text) : Option WebReply :=
  if path = "/".toList then return .page
  else if path = "/api/stats".toList then return .stats
  else if path = "/api/search".toList then server.renderSearch builtins queryString
  else if routeTorrentPrefix <+: path then server.renderTorrent (path.drop routeTorrentPrefix.length)
  else return .error 404 "not found"

/-- The tables that a read finds, where there is a database. -/
def tables : Option Tables := server.database.bind readDatabase

/-- What the other threads leave for the server: the catalog indexes its entries, and all hashes have
the length that the catalog and `write_documents` assert. -/
structure Ready : Prop where
  represented : server.catalog.Represented ∅
  counted : server.catalog.Counted
  lengths : server.catalog.HashLengths
  rows : ∀ tables, server.tables = some tables →
    ∀ document ∈ tables.torrents.values, document.infoHash.length = nodeIdLength

/-- The row of a search describes a torrent of the catalog or, with a database, of its table. -/
def Knows (infoHash : Bytes) (row : SearchRow) : Prop :=
  (server.database = none ∧ ∃ r, server.catalog.entries.get? infoHash = some r ∧
    (server.catalog.heap r).searchRow = some row) ∨
  ∃ tables, server.tables = some tables ∧ ∃ item ∈ tables.torrents.items,
    item.2.infoHash = infoHash ∧ databaseRow (searchRecord item) = some row

/-- A detail record is that of the entry or that of the row in the database. -/
def Details (infoHash : Bytes) (record : DetailRecord) : Prop :=
  (∃ r, server.catalog.entries.get? infoHash = some r ∧
    (server.catalog.heap r).detailRecord = some record) ∨
  ∃ tables, server.tables = some tables ∧ ∃ document ∈ tables.torrents.values,
    document.infoHash = infoHash ∧ record = documentDetailRecord document

/-- Whoever reads the link finds the hash, the name and the trackers. -/
def LinksTo (infoHash : Bytes) (name link : Text) : Prop :=
  readFields (linkQuery link) =
    ("xt".toList, "urn:btih:".toList ++ hex infoHash) ::
      (if name ≠ [] then [("dn".toList, name)] else []) ++
        magnetTrackers.map (fun tracker ↦ ("tr".toList, tracker))

/-- What a reply to a request says. -/
inductive Answers (path queryString : Text) : WebReply → Prop
  | page (route : path = "/".toList) : Answers path queryString .page
  | stats (route : path = "/api/stats".toList) : Answers path queryString .stats
  | search {query : Text} {limit : ℕ} {engine : String} {sort : Option SortColumn} {descending : Bool}
      {results : List (SearchRow × Text)} (route : path = "/api/search".toList)
      (asked : parseSearchQuery builtins queryString = some (query, limit))
      (ordered : parseSort queryString = (sort, descending))
      (found : server.searchRecords builtins query limit sort descending =
        some (engine, some (results.map Prod.fst)))
      (limited : results.length ≤ limit) (bounded : limit ≤ 200)
      (shown : ∀ result ∈ results, ∃ infoHash, server.Knows infoHash result.1 ∧
        LinksTo infoHash result.1.name result.2) :
      Answers path queryString (.search query limit engine sort descending results)
  | torrent {text : Text} {infoHash : Bytes} {record : DetailRecord} {link : Text}
      (route : path = routeTorrentPrefix ++ text) (asked : parseInfoHashHex text = some infoHash)
      (shown : server.Details infoHash record)
      (linked : LinksTo infoHash ((record.metadata.map DetailMetadata.name).getD []) link) :
      Answers path queryString (.torrent record link)
  | invalid {text : Text} (route : path = routeTorrentPrefix ++ text)
      (refused : parseInfoHashHex text = none) :
      Answers path queryString (.error 400 "invalid info hash")
  | missing {text : Text} {infoHash : Bytes} (route : path = routeTorrentPrefix ++ text)
      (asked : parseInfoHashHex text = some infoHash)
      (readable : server.database.isSome → server.tables.isSome)
      (absent : ∀ record, ¬server.Details infoHash record) :
      Answers path queryString (.error 404 "not found")
  | unrouted (other : path ∉ ["/".toList, "/api/stats".toList, "/api/search".toList])
      (outside : ¬routeTorrentPrefix <+: path) : Answers path queryString (.error 404 "not found")
  | unavailable (unreadable : server.database.isSome ∧ server.tables = none)
      (asked : path = "/api/search".toList ∨ ∃ text infoHash, path = routeTorrentPrefix ++ text ∧
        parseInfoHashHex text = some infoHash ∧ server.catalog.entries.get? infoHash = none) :
      Answers path queryString (.error 503 databaseUnavailable)

end CatalogWebServer

/-! ## Links and rows -/

theorem exists_attachMagnet {infoHash : Bytes} (h : infoHash.length = nodeIdLength) (name : Text) :
    ∃ link, attachMagnet (hex infoHash) name = some link ∧
      CatalogWebServer.LinksTo infoHash name link := by
  have hstarts : "magnet:".toList <+: magnetText infoHash name := by
    have hscheme : "magnet:?".toList = "magnet:".toList ++ ['?'] := rfl
    rw [magnetText_eq, hscheme, List.append_assoc]
    exact List.prefix_append _ _
  refine ⟨magnetText infoHash name, ?_, readFields_magnetText infoHash name⟩
  simp only [attachMagnet, fromHex_hex, buildMagnetLink_eq h, Except.toOption, Option.bind_eq_bind,
    Option.bind_some, guard, if_pos hstarts]
  rfl

theorem exists_databaseRow {item : Row} (h : item.2.infoHash.length = nodeIdLength) :
    ∃ row, databaseRow (searchRecord item) = some row ∧ row.infoHash = hex item.2.infoHash := by
  have hrecord : (searchRecord item).infoHash.length = nodeIdLength := h
  refine ⟨_, by simp only [databaseRow, guard, if_pos hrecord]; rfl, rfl⟩

/-- A search of the database shows rows of the table, and no more than the limit. -/
theorem TorrentDatabase.search_rows (ftsMatch : Text → ℕ → Bool) (textTerms : Text → List Text)
    (isDigit : Char → Bool) (tables : Tables) (query : Text) (limit : ℕ) (sort : Option SortColumn)
    (descending : Bool) : ∃ rows : List Row,
      search ftsMatch textTerms isDigit tables query limit sort descending = rows.map searchRecord ∧
        rows.length ≤ limit ∧ ∀ row ∈ rows, row ∈ tables.torrents.items := by
  by_cases hterms : queryTerms textTerms query = []
  · exact ⟨_, search_of_no_terms hterms, List.length_take_le _ _,
      fun row hrow ↦ mem_inOrder.mp (List.mem_of_mem_take hrow)⟩
  · cases sort with
    | none =>
      exact ⟨_, search_unsorted hterms, List.length_take_le _ _,
        fun row hrow ↦ mem_allRanked (List.mem_of_mem_take hrow)⟩
    | some column =>
      rw [search_sorted hterms]
      split
      · exact ⟨_, rfl, List.length_take_le _ _,
          fun row hrow ↦ (mem_ranked.mp (List.mem_of_mem_take hrow)).1⟩
      · exact ⟨_, rfl, List.length_take_le _ _,
          fun row hrow ↦ (mem_ranked.mp (List.mem_of_mem_take hrow)).1⟩

namespace TorrentEntry

theorem infoHash_searchRow {entry : TorrentEntry} {row : SearchRow} (h : entry.searchRow = some row) :
    row.infoHash = hex entry.infoHash := by
  obtain ⟨metadata, -, h⟩ := Option.bind_eq_some_iff.mp h
  obtain ⟨counters, -, h⟩ := Option.bind_eq_some_iff.mp h
  obtain rfl := Option.some.inj h
  rfl

end TorrentEntry

theorem exists_parseSearchQuery (builtins : WebBuiltins) (queryString : Text) :
    ∃ query limit, parseSearchQuery builtins queryString = some (query, limit) ∧ limit ≤ 200 := by
  obtain ⟨asked, query, hparse, hlength⟩ : ∃ (asked : ℤ) (query : Text),
      parseSearchQuery builtins queryString = (do
        guard (1 ≤ max 1 (min asked maxSearchLimit) ∧
          max 1 (min asked maxSearchLimit) ≤ maxSearchLimit ∧ query.length ≤ maxQueryLength)
        return (query, (max 1 (min asked maxSearchLimit)).toNat)) ∧ query.length ≤ maxQueryLength :=
    ⟨_, _, rfl, List.length_take_le _ _⟩
  have hmax : maxSearchLimit = 200 := rfl
  have hclamped : 1 ≤ max 1 (min asked maxSearchLimit) ∧
      max 1 (min asked maxSearchLimit) ≤ maxSearchLimit ∧ query.length ≤ maxQueryLength :=
    ⟨le_max_left _ _, max_le (by omega) (min_le_right _ _), hlength⟩
  refine ⟨query, _, by rw [hparse, guard, if_pos hclamped]; rfl, ?_⟩
  omega

namespace CatalogWebServer

section Answers

variable {server : CatalogWebServer} (h : server.Ready) (builtins : WebBuiltins)

include h

/-- The records of a search, unless the database cannot be read. -/
theorem searchRecords_spec (query : Text) (limit : ℕ) (sort : Option SortColumn) (descending : Bool) :
    ∃ engine records,
      server.searchRecords builtins query limit sort descending = some (engine, records) ∧
      (records = none → server.database.isSome ∧ server.tables = none) ∧
      ∀ rows, records = some rows → rows.length ≤ limit ∧ ∀ row ∈ rows, ∃ infoHash,
        server.Knows infoHash row ∧ infoHash.length = nodeIdLength ∧ row.infoHash = hex infoHash := by
  cases hdatabase : server.database with
  | none =>
    obtain ⟨ranking, hranking, hrows⟩ := TorrentCatalog.search_ranking h.represented h.counted
      builtins.lower builtins.strip query sort descending
    obtain ⟨rows, hsearch, hall⟩ := hrows limit
    refine ⟨"memory", some rows, ?_, fun hnone ↦ (by cases hnone), fun found hfound ↦ ?_⟩
    · simp only [searchRecords, hdatabase, hsearch]
      rfl
    · obtain rfl := Option.some.inj hfound
      refine ⟨hall.length_eq ▸ List.length_take_le _ _, fun row hrow ↦ ?_⟩
      obtain ⟨r, hr, hrecord⟩ := exists_of_forall₂ hall.flip hrow
      obtain ⟨⟨infoHash, hlive⟩, -⟩ := (hranking.found r).mp (List.mem_of_mem_take hr)
      have hkey := h.represented.key infoHash r hlive
      have hlength := h.lengths infoHash (by rw [hlive]; rfl)
      refine ⟨infoHash, .inl ⟨hdatabase, r, hlive, hrecord⟩, hlength, ?_⟩
      rw [TorrentEntry.infoHash_searchRow hrecord, hkey]
  | some attempts =>
    have htables : server.tables = readDatabase attempts := by rw [tables, hdatabase]; rfl
    cases hread : readDatabase attempts with
    | none =>
      refine ⟨"sqlite", none, ?_, fun _ ↦ ⟨rfl, htables.trans hread⟩,
        fun rows hrows ↦ (by cases hrows)⟩
      simp only [searchRecords, hdatabase, hread]
      rfl
    | some tables =>
      have hread' : server.tables = some tables := htables.trans hread
      obtain ⟨rows, hsearch, hlength, hsub⟩ := TorrentDatabase.search_rows builtins.ftsMatch
        builtins.textTerms builtins.isDigit tables query limit sort descending
      have hvalid : ∀ item ∈ rows, item.2.infoHash.length = nodeIdLength := fun item hitem ↦
        h.rows tables hread' _ (List.mem_map_of_mem (hsub item hitem))
      obtain ⟨records, hrecords⟩ := exists_mapM (f := fun item ↦ databaseRow (searchRecord item))
        fun item hitem ↦ (exists_databaseRow (hvalid item hitem)).imp fun _ hrow ↦ hrow.1
      have hall := forall₂_of_mapM hrecords
      have hcount : records.length ≤ limit := hall.length_eq ▸ hlength
      refine ⟨"sqlite", some records, ?_, fun hnone ↦ (by cases hnone), fun found hfound ↦ ?_⟩
      · have hmap : (rows.map searchRecord).mapM databaseRow = some records := by
          rw [List.mapM_map]
          exact hrecords
        simp only [searchRecords, hdatabase, hread, hsearch, hmap, Option.bind_eq_bind,
          Option.bind_some, guard, if_pos hcount]
        rfl
      · obtain rfl := Option.some.inj hfound
        refine ⟨hcount, fun row hrow ↦ ?_⟩
        obtain ⟨item, hitem, hrecord⟩ := exists_of_forall₂ hall.flip hrow
        obtain ⟨row', hrow', hhash⟩ := exists_databaseRow (hvalid item hitem)
        obtain rfl := Option.some.inj (hrow'.symm.trans hrecord)
        exact ⟨item.2.infoHash, .inr ⟨tables, hread', item, hsub item hitem, rfl, hrecord⟩,
          hvalid item hitem, hhash⟩

theorem renderSearch_answers {path : Text} (queryString : Text) (route : path = "/api/search".toList) :
    ∃ reply, server.renderSearch builtins queryString = some reply ∧
      server.Answers builtins path queryString reply := by
  obtain ⟨query, limit, hparse, hlimit⟩ := exists_parseSearchQuery builtins queryString
  obtain ⟨⟨sort, descending⟩, hsort⟩ : ∃ order, parseSort queryString = order := ⟨_, rfl⟩
  obtain ⟨engine, records, hrecords, hnone, hsome⟩ :=
    searchRecords_spec h builtins query limit sort descending
  cases records with
  | none =>
    refine ⟨.error 503 databaseUnavailable, ?_, .unavailable (hnone rfl) (.inl route)⟩
    simp only [renderSearch, hparse, hsort, hrecords, Option.bind_eq_bind, Option.bind_some]
    rfl
  | some rows =>
    obtain ⟨hcount, hknown⟩ := hsome rows rfl
    have hlinked : ∀ row ∈ rows, ∃ result,
        (do let magnet ← attachMagnet row.infoHash row.name
            return (row, magnet)) = some result ∧
          ∃ infoHash, server.Knows infoHash result.1 ∧ LinksTo infoHash result.1.name result.2 := by
      intro row hrow
      obtain ⟨infoHash, hknows, hlength, hhash⟩ := hknown row hrow
      obtain ⟨magnet, hmagnet, hlinks⟩ := exists_attachMagnet hlength row.name
      rw [← hhash] at hmagnet
      exact ⟨(row, magnet), by rw [hmagnet]; rfl, infoHash, hknows, hlinks⟩
    obtain ⟨results, hresults⟩ := exists_mapM fun row hrow ↦ (hlinked row hrow).imp fun _ h ↦ h.1
    have hall := forall₂_of_mapM hresults
    have hmade (result : SearchRow × Text) (hresult : result ∈ results) :
        ∃ infoHash, server.Knows infoHash result.1 ∧ LinksTo infoHash result.1.name result.2 := by
      obtain ⟨row, hrow, hmade⟩ := exists_of_forall₂ hall.flip hresult
      obtain ⟨result', hmade', hshown⟩ := hlinked row hrow
      obtain rfl := Option.some.inj (hmade'.symm.trans hmade)
      exact hshown
    have hrows : results.map Prod.fst = rows := by
      rw [← List.forall₂_eq_eq_eq, List.forall₂_map_left_iff]
      refine hall.flip.imp fun result row hmade ↦ ?_
      obtain ⟨magnet, -, hpair⟩ := Option.bind_eq_some_iff.mp hmade
      exact (congrArg Prod.fst (Option.some.inj hpair)).symm
    refine ⟨.search query limit engine sort descending results, ?_,
      .search route hparse hsort (hrows ▸ hrecords) (hall.length_eq ▸ hcount) hlimit hmade⟩
    simp only [renderSearch, hparse, hsort, hrecords, Option.bind_eq_bind, Option.bind_some]
    simp only [Option.bind_eq_bind] at hresults
    rw [hresults]
    rfl

omit h in
theorem getDocument_hex (tables : Tables) {infoHash : Bytes}
    (hlength : infoHash.length = nodeIdLength) :
    ∃ found, getDocument tables (hex infoHash) = some found ∧
      (∀ document, found = some document →
        document ∈ tables.torrents.values ∧ document.infoHash = infoHash) ∧
      (found = none → ∀ document ∈ tables.torrents.values, document.infoHash ≠ infoHash) := by
  have htext : (hex infoHash).length = 40 := by rw [length_hex, hlength]; rfl
  refine ⟨_, by simp only [getDocument, guard, if_pos htext]; rfl, fun document hfound ↦ ?_,
    fun hnone ↦ ?_⟩
  · have hfind := List.find?_some hfound
    have hhex := of_decide_eq_true hfind
    have hsame := congrArg fromHex hhex
    rw [fromHex_hex, fromHex_hex, Option.some.injEq] at hsame
    exact ⟨List.mem_of_find?_eq_some hfound, hsame⟩
  · intro document hdocument heq
    have hother := List.find?_eq_none.mp hnone document hdocument
    exact hother (decide_eq_true (congrArg hex heq))

/-- The record that is shown for a hash; an entry of the catalog is shown in any case. -/
theorem detail_spec {infoHash : Bytes} (hlength : infoHash.length = nodeIdLength) :
    ∃ record failed, server.detail infoHash = some (record, failed) ∧
      (∀ found, record = some found → server.Details infoHash found ∧ found.infoHash = hex infoHash) ∧
      (record = none → server.catalog.entries.get? infoHash = none ∧
        (failed = true → server.database.isSome ∧ server.tables = none) ∧
        (failed = false → (server.database.isSome → server.tables.isSome) ∧
          ∀ found, ¬server.Details infoHash found)) := by
  obtain ⟨entry, hentry, hnone, hsome⟩ :=
    TorrentCatalog.torrentDetail_spec h.represented h.counted hlength
  have hshown (found : DetailRecord) (hfound : entry = some found) :
      server.Details infoHash found ∧ found.infoHash = hex infoHash := by
    obtain ⟨hhash, hrecord⟩ := hsome found hfound
    exact ⟨.inl hrecord, hhash⟩
  have habsent (hentryNone : entry = none) (htables : server.tables = none) (found : DetailRecord) :
      ¬server.Details infoHash found := by
    rintro (⟨r, hr, -⟩ | ⟨tables, hread, -⟩)
    · rw [hnone.mp hentryNone] at hr
      cases hr
    · rw [htables] at hread
      cases hread
  unfold detail
  rw [hentry]
  simp only [Option.bind_eq_bind, Option.bind_some]
  cases hdatabase : server.database with
  | none =>
    have htables : server.tables = none := by rw [tables, hdatabase]; rfl
    refine ⟨entry, false, rfl, hshown, fun hentryNone ↦ ⟨hnone.mp hentryNone,
      fun hfailed ↦ (by cases hfailed),
      fun _ ↦ ⟨fun hdb ↦ (by cases hdb), habsent hentryNone htables⟩⟩⟩
  | some attempts =>
    have htables : server.tables = readDatabase attempts := by rw [tables, hdatabase]; rfl
    dsimp only
    split
    next hmetadata =>
      refine ⟨entry, false, rfl, hshown, fun hentryNone ↦ ?_⟩
      rw [hentryNone] at hmetadata
      cases hmetadata
    next hmetadata =>
      cases hread : readDatabase attempts with
      | none =>
        refine ⟨entry, true, rfl, hshown, fun hentryNone ↦ ⟨hnone.mp hentryNone,
          fun _ ↦ ⟨rfl, htables.trans hread⟩, fun hfailed ↦ (by cases hfailed)⟩⟩
      | some tables =>
        have hread' : server.tables = some tables := htables.trans hread
        obtain ⟨document, hdocument, hfound, hmissing⟩ := getDocument_hex tables hlength
        refine ⟨(document.map documentDetailRecord).or entry, false, ?_, ?_, fun hor ↦ ?_⟩
        · dsimp only
          rw [hdocument]
          rfl
        · intro found hor
          cases document with
          | none => exact hshown found hor
          | some document =>
            obtain rfl := Option.some.inj hor
            obtain ⟨hmem, hhash⟩ := hfound document rfl
            exact ⟨.inr ⟨tables, hread', document, hmem, hhash, rfl⟩, congrArg hex hhash⟩
        · cases document with
          | some document => cases hor
          | none =>
            refine ⟨hnone.mp hor, fun hfailed ↦ (by cases hfailed),
              fun _ ↦ ⟨fun _ ↦ by rw [hread']; rfl, ?_⟩⟩
            rintro found (⟨r, hr, -⟩ | ⟨tables', hread'', document, hmem, hhash, -⟩)
            · rw [hnone.mp hor] at hr
              cases hr
            · obtain rfl := Option.some.inj (hread'.symm.trans hread'')
              exact hmissing rfl document hmem hhash

theorem renderTorrent_answers {path text : Text} (queryString : Text)
    (route : path = routeTorrentPrefix ++ text) :
    ∃ reply, server.renderTorrent text = some reply ∧
      server.Answers builtins path queryString reply := by
  unfold renderTorrent
  cases hparse : parseInfoHashHex text with
  | none => exact ⟨_, rfl, .invalid route hparse⟩
  | some infoHash =>
    have hlength := (parseInfoHashHex_eq_some_iff.mp hparse).1
    obtain ⟨record, failed, hdetail, hshown, habsent⟩ := detail_spec h hlength
    simp only [hdetail, Option.bind_eq_bind, Option.bind_some]
    cases record with
    | none =>
      obtain ⟨hentry, hfailed, hmissing⟩ := habsent rfl
      cases failed with
      | true =>
        exact ⟨_, rfl, .unavailable (hfailed rfl) (.inr ⟨text, infoHash, route, hparse, hentry⟩)⟩
      | false => exact ⟨_, rfl, .missing route hparse (hmissing rfl).1 (hmissing rfl).2⟩
    | some found =>
      obtain ⟨hdetails, hhash⟩ := hshown found rfl
      obtain ⟨link, hlink, hlinks⟩ :=
        exists_attachMagnet hlength ((found.metadata.map DetailMetadata.name).getD [])
      refine ⟨.torrent found link, ?_, .torrent route hparse hdetails hlinks⟩
      dsimp only
      rw [hhash, hlink]
      rfl

/-- Every request gets a reply that says what it should. -/
theorem dispatch_answers (path queryString : Text) :
    ∃ reply, server.dispatch builtins path queryString = some reply ∧
      server.Answers builtins path queryString reply := by
  unfold dispatch
  split
  next hpage => exact ⟨_, rfl, .page hpage⟩
  next hpage =>
    split
    next hstats => exact ⟨_, rfl, .stats hstats⟩
    next hstats =>
      split
      next hsearch => exact renderSearch_answers h builtins queryString hsearch
      next hsearch =>
        split
        next htorrent =>
          have hpath := (List.prefix_iff_eq_append.mp htorrent).symm
          exact renderTorrent_answers h builtins queryString hpath
        next htorrent =>
          refine ⟨_, rfl, .unrouted ?_ htorrent⟩
          simp only [List.mem_cons, List.not_mem_nil, or_false, not_or]
          exact ⟨hpage, hstats, hsearch⟩

end Answers

/-- Whatever is asked, while the threads of the program work on the catalog and whether the database can
be read or not: no exception leaves the handler, and the reply is the one that the path asks for. -/
theorem requests_answered {limits : CatalogLimits} {ops : List CatalogOp} {s : Session}
    (hrun : catalogMachine.Leads Lawful (.new limits) ops s) (server : CatalogWebServer)
    (hcatalog : server.catalog = s.catalog)
    (hrows : ∀ tables, server.tables = some tables →
      ∀ document ∈ tables.torrents.values, document.infoHash.length = nodeIdLength)
    (builtins : WebBuiltins) (path queryString : Text) :
    ∃ reply, server.dispatch builtins path queryString = some reply ∧
      server.Answers builtins path queryString reply := by
  have hready : server.Ready := by
    constructor
    case represented =>
      rw [hcatalog]
      exact (Session.sound_of_lawful hrun).represented
    case counted =>
      rw [hcatalog]
      exact Session.counted_of_lawful hrun
    case lengths =>
      rw [hcatalog]
      exact Session.hashLengths_of_leads ⟨hrun.along.imp fun _ _ hlawful ↦ hlawful.1, hrun.run⟩
    case rows => exact hrows
  exact dispatch_answers hready builtins path queryString

/-- The first attempt to read the database fails; the second one finds three torrents. -/
def retriedServer : CatalogWebServer where
  catalog := storedSession.catalog
  database := some (none, some TorrentDatabase.alphaTables)

def plainBuiltins : WebBuiltins where
  lower := id
  strip := id
  toInt := fun _ ↦ none
  ftsMatch := fun _ _ ↦ false
  textTerms := fun _ ↦ []
  isDigit := Char.isDigit

/-- The names of the rows that a reply shows. -/
def shownNames : WebReply → List Text
  | .search _ _ _ _ _ results => results.map fun result ↦ result.1.name
  | _ => []

/-- The largest of the three comes first. -/
theorem requests_answered_retried : ∃ reply,
    retriedServer.dispatch plainBuiltins "/api/search".toList "sort=size".toList = some reply ∧
      shownNames reply = ["alphc".toList, "alphb".toList, "alpha".toList] ∧
      retriedServer.Answers plainBuiltins "/api/search".toList "sort=size".toList reply := by
  have hrows : ∀ document ∈ TorrentDatabase.alphaTables.torrents.values,
      document.infoHash.length = nodeIdLength := by
    decide +kernel
  obtain ⟨reply, hreply, hanswers⟩ := requests_answered stored_leads retriedServer rfl
    (fun _ htables ↦ Option.some.inj htables ▸ hrows) plainBuiltins "/api/search".toList
    "sort=size".toList
  have hshown : (retriedServer.dispatch plainBuiltins "/api/search".toList "sort=size".toList).any
      fun reply ↦ shownNames reply = ["alphc".toList, "alphb".toList, "alpha".toList] := by
    decide +kernel
  rw [hreply] at hshown
  exact ⟨reply, hreply, of_decide_eq_true hshown, hanswers⟩

end CatalogWebServer

end DhtScraper
