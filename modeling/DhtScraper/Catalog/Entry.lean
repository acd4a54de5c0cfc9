import DhtScraper.Basic

/-!
# Catalog entries

`TorrentEntry`, the mutable record kept per info hash, the metadata record stored in it and the
snapshot handed to the index thread.  Objects that the source compares with `is` carry their
identity: an entry is referred to by a `Ref`, and a metadata record has an `ident`.
-/

namespace DhtScraper

open Library

inductive FetchState where
  | pending
  | inProgress
  | done
  | failed
  deriving DecidableEq, Repr

inductive Source where
  | getPeers
  | announcePeer
  | sample
  deriving DecidableEq, Repr

/-- Identity of a `TorrentEntry` object. -/
abbrev Ref := ℕ

def maxListedFiles : ℕ := 200

/-- The summary of one torrent's info dictionary, with the assertions of its constructor.  `ident`
is the identity of the object. -/
structure TorrentMetadata where
  ident : ℕ
  infoHash : Bytes
  name : Text
  totalSize : ℕ
  pieceLength : ℕ
  fileCount : ℕ
  files : List (Text × ℕ)
  isPrivate : Bool
  fetchedAt : ℚ
  sourcePeer : Option Address
  infoHash_length : infoHash.length = nodeIdLength := by decide
  pieceLength_pos : 0 < pieceLength := by decide
  fileCount_pos : 1 ≤ fileCount := by decide
  files_pos : 1 ≤ files.length := by decide
  files_le : files.length ≤ min fileCount maxListedFiles := by decide
  deriving DecidableEq

/-- Counters of previous runs: seen count, announce count and, when known, the first sighting. -/
abbrev IndexBase := ℤ × ℤ × Option ℚ

structure TorrentEntry where
  infoHash : Bytes
  firstSeen : ℚ
  lastSeen : ℚ
  seenCount : ℤ := 0
  announceCount : ℤ := 0
  peers : Option (OrderedMap Address Unit) := none
  failedPeers : Option (Finset Address) := none
  fetchState : FetchState := .pending
  fetchAttempts : ℕ := 0
  lastError : String := ""
  lookupsStarted : ℕ := 0
  lookupInProgress : Bool := false
  nextLookupTime : ℚ := 0
  metadata : Option TorrentMetadata := none
  indexBase : Option IndexBase := none
  inDatabase : Bool := false
  databaseChecked : Bool := true
  knownFromDatabase : Bool := false
  flushedSeen : ℤ := 0
  flushedAnnounce : ℤ := 0

/-- `TorrentEntry.__init__`, followed by the assignment of `database_checked` that every caller
makes. -/
def TorrentEntry.new (infoHash : Bytes) (now : ℚ) (databaseChecked : Bool) : TorrentEntry where
  infoHash := infoHash
  firstSeen := now
  lastSeen := now
  databaseChecked := databaseChecked

instance : Inhabited TorrentEntry := ⟨TorrentEntry.new [] 0 true⟩

namespace TorrentEntry

/-- The truth value of `entry.peers`: a map that exists and is not empty. -/
def hasPeers (entry : TorrentEntry) : Bool :=
  match entry.peers with
  | none => false
  | some peers => peers.size ≠ 0

def peerList (entry : TorrentEntry) : List Address :=
  match entry.peers with
  | none => []
  | some peers => peers.keys

/-- `seen_count > flushed_seen or announce_count > flushed_announce`. -/
def hasUnflushed (entry : TorrentEntry) : Bool :=
  entry.flushedSeen < entry.seenCount ∨ entry.flushedAnnounce < entry.announceCount

/-- `is_evictable`. -/
def isEvictable (entry : TorrentEntry) : Bool :=
  entry.fetchState ≠ .inProgress ∧ ¬ entry.lookupInProgress

/-- `eviction_key`, ordered lexicographically: entries without metadata first, then without peers,
then by sightings. -/
def evictionKey (entry : TorrentEntry) : ℕ ×ₗ ℕ ×ₗ ℤ ×ₗ ℚ :=
  toLex (if entry.metadata.isSome then 1 else 0, toLex (if entry.hasPeers then 1 else 0,
    toLex (entry.seenCount, entry.lastSeen)))

/-- `RANK_ATTRIBUTES`. -/
def rankAttributes (entry : TorrentEntry) : ℤ ×ₗ ℚ := toLex (entry.seenCount, entry.lastSeen)

/-- The entry part of `_add_peer_locked`: a peer that failed before is refused. -/
def addPeer (entry : TorrentEntry) (peer : Address) (maxPeersPerHash : ℕ) : TorrentEntry × Bool :=
  if peer ∈ entry.failedPeers.getD ∅ then (entry, false)
  else
    let result := remember (entry.peers.getD .empty) peer () maxPeersPerHash
    ({ entry with peers := some result.1 }, result.2)

/-- `_forget_peer_locked`. -/
def forgetPeer (entry : TorrentEntry) (peer : Address) : TorrentEntry :=
  { entry with
    peers := entry.peers.map fun peers ↦ peers.erase peer
    failedPeers := some (insert peer (entry.failedPeers.getD ∅)) }

end TorrentEntry

/-- Counters of one entry copied under the catalog lock for the index thread. -/
structure IndexSnapshot where
  infoHash : Bytes
  metadata : Option TorrentMetadata
  seenCount : ℤ
  announceCount : ℤ
  firstSeen : ℚ
  lastSeen : ℚ
  base : Option IndexBase
  entry : Ref
  seenDelta : ℤ
  announceDelta : ℤ
  deriving DecidableEq

/-- `index_snapshot`. -/
def indexSnapshot (ref : Ref) (entry : TorrentEntry) : IndexSnapshot where
  infoHash := entry.infoHash
  metadata := entry.metadata
  seenCount := entry.seenCount
  announceCount := entry.announceCount
  firstSeen := entry.firstSeen
  lastSeen := entry.lastSeen
  base := entry.indexBase
  entry := ref
  seenDelta := entry.seenCount - entry.flushedSeen
  announceDelta := entry.announceCount - entry.flushedAnnounce

/-- The assertions of `index_snapshot`. -/
def indexSnapshotAsserts (entry : TorrentEntry) : Bool :=
  (entry.metadata.isSome ∨ entry.inDatabase) ∧ entry.flushedSeen ≤ entry.seenCount

end DhtScraper
