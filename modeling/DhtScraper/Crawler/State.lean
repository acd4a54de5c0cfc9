import DhtScraper.Catalog.Protocol
import DhtScraper.Crawler.Messages
import DhtScraper.Lookup.Manager
import DhtScraper.Library.Stateful

/-!
# The state of the crawler

`DhtCrawler` with the catalog it shares with the other threads.  What the environment answers is a
`World`: the questions of a run (clock readings, random bytes, whether `sendto` works, what the
resolver returns, what the other threads do meanwhile) are numbered, and the answer to a question
may depend on its number.  A method is a stateful computation that raises what the source raises.
`history` is there for the statements only.
-/

namespace DhtScraper

open Library

def recentNodesSize : ℕ := 8
def recentHashesSize : ℕ := 64
def samplesPerResponse : ℕ := 20
def ownSampleInterval : ℤ := 300
def bootstrapRetrySeconds : ℚ := 2
def maxBackoffEntries : ℕ := 50000
def tokenSecretLength : ℕ := 16
def lookupSeedScan : ℕ := 2000
def lookupSeedCount : ℕ := 16
def hintNodesSize : ℕ := 65536
def socketAffinitySize : ℕ := 65536

/-- The family of an address: IPv6 when there is a colon. -/
def addressFamily (ip : Text) : AddressFamily := if ':' ∈ ip then .inet6 else .inet

/-- `append` of a deque with `maxlen`. -/
def appendBounded {α : Type} (maxlen : ℕ) (queue : List α) (value : α) : List α :=
  (queue ++ [value]).drop (queue.length + 1 - maxlen)

/-- `extend` of a deque with `maxlen`. -/
def extendBounded {α : Type} (maxlen : ℕ) (queue values : List α) : List α :=
  values.foldl (appendBounded maxlen) queue

section Bounded

variable {α : Type} {maxlen : ℕ} {queue : List α} {value x : α}

theorem mem_of_mem_appendBounded (h : x ∈ appendBounded maxlen queue value) :
    x ∈ queue ∨ x = value := by
  have hmem := List.mem_of_mem_drop h
  rwa [List.mem_append, List.mem_singleton] at hmem

theorem length_appendBounded_le (maxlen : ℕ) (queue : List α) (value : α) :
    (appendBounded maxlen queue value).length ≤ maxlen := by
  rw [appendBounded, List.length_drop, List.length_append, List.length_singleton]
  omega

theorem mem_of_mem_extendBounded (values : List α) : ∀ {queue : List α},
    x ∈ extendBounded maxlen queue values → x ∈ queue ∨ x ∈ values := by
  induction values with
  | nil => exact fun h ↦ Or.inl h
  | cons value rest ih =>
    intro queue h
    rcases ih h with hold | hnew
    · rcases mem_of_mem_appendBounded hold with hold | heq
      · exact Or.inl hold
      · exact Or.inr (heq ▸ List.mem_cons_self)
    · exact Or.inr (List.mem_cons_of_mem _ hnew)

/-- The value that is appended is the last one. -/
theorem getLast?_appendBounded (hmaxlen : 1 ≤ maxlen) (queue : List α) (value : α) :
    (appendBounded maxlen queue value).getLast? = some value := by
  rw [appendBounded, List.drop_append_of_le_length (by omega), List.getLast?_append]
  rfl

end Bounded

/-! ## The environment -/

/-- The answers to the questions of a run, with the external functions that are always the same.
`tooDeep` tells which data exceed the interpreter's limits: the depth of its stack or the number of
digits that `int` takes. -/
structure World where
  net : Inet
  clock : ℕ → ℚ
  wallClock : ℕ → ℚ
  sendto : ℕ → Bool
  urandom : ℕ → ℕ → Bytes
  resolver : ℕ → Text → ℤ → AddressFamily → Option (List Text)
  others : ℕ → List CatalogOp
  hmacDigest : Bytes → Text → Bytes
  tooDeep : Bytes → Bool
  length_urandom : ∀ n count, (urandom n count).length = count
  length_hmacDigest : ∀ secret text, (hmacDigest secret text).length = 20

/-- The constructor arguments of the crawler, with the assertions on them. -/
structure CrawlerConfig where
  nodeSockets : List NodeSocket
  bootstrapNodes : List (Text × ℤ)
  batchSize : ℕ
  maxQueue : ℕ
  lookupFetchableTarget : ℕ
  lookupLimits : LookupLimits
  nodeSockets_ne : nodeSockets ≠ []
  bootstrapNodes_ne : bootstrapNodes ≠ []
  batchSize_pos : 1 ≤ batchSize
  maxQueue_pos : 1 ≤ maxQueue
  length_ownId : ∀ nodeSocket ∈ nodeSockets, nodeSocket.ownId.length = nodeIdLength

/-- `own_id_suffixes`. -/
def ownIdSuffixes (nodeSockets : List NodeSocket) : List Bytes :=
  nodeSockets.map fun nodeSocket ↦ nodeSocket.ownId.drop neighborPrefixLength

/-- `is_foreign_node`, with the suffixes of the own ids and the families that have sockets. -/
def isForeignNode (net : Inet) (ownSuffixes : List Bytes) (families : List AddressFamily)
    (node : Node) : Bool :=
  isValidNodeId node.nodeId && node.nodeId.drop neighborPrefixLength ∉ ownSuffixes
    && addressFamily node.ip ∈ families && isRoutableAddress net node.address

/-! ## The state -/

/-- Crawl queue, recent nodes and socket rotation of one family; `none` is the bootstrap time of a
family that was never bootstrapped. -/
structure FamilyState where
  family : AddressFamily
  nodeSockets : List NodeSocket
  socketCycle : ℕ
  maxQueue : ℕ
  nodeQueue : List Node
  recentNodes : List Node
  lastBootstrapTime : Option ℚ
  nodeSockets_ne : nodeSockets ≠ []
  family_eq : ∀ nodeSocket ∈ nodeSockets, nodeSocket.family = family

def FamilyState.nodesKey (state : FamilyState) : Bytes :=
  match state.family with
  | .inet => DhtScraper.nodesKey
  | .inet6 => nodes6Key

/-- `next(socket_cycle)`. -/
def FamilyState.nextSocket (state : FamilyState) : NodeSocket :=
  state.nodeSockets.get ⟨state.socketCycle % state.nodeSockets.length,
    Nat.mod_lt _ (List.length_pos_iff.mpr state.nodeSockets_ne)⟩

structure CrawlerStats where
  packetsReceived : ℕ
  queriesReceived : ℕ
  responsesReceived : ℕ
  errorsReceived : ℕ
  samplesReceived : ℕ
  sampleResponses : ℕ
  announcedPeers : ℕ
  lookupsStarted : ℕ
  sampleQueriesSent : ℕ
  findNodeSent : ℕ

inductive CrawlerEvent where
  /-- A datagram came in. -/
  | received (address : Address) (nodeSocket : NodeSocket)
  /-- The resolver returned. -/
  | resolved (host : Text) (port : ℤ) (family : AddressFamily) (ips : List Text)
  /-- A call of the catalog. -/
  | called (op : CatalogOp)

structure DhtCrawler where
  config : CrawlerConfig
  families : OrderedMap AddressFamily FamilyState
  tokenSecret : Bytes
  resolvedBootstrapHosts : OrderedMap AddressFamily (OrderedMap Text (List Text))
  recentHashes : List Bytes
  sampleBackoff : OrderedMap Address ℚ
  fallbackSent : OrderedMap Address Unit
  recentlyQueued : OrderedMap Address Unit
  hintNodes : OrderedMap Bytes Node
  socketAffinity : OrderedMap Address NodeSocket
  sender : Sender
  stats : CrawlerStats
  lookupManager : LookupManager
  session : Session
  readings : ℕ
  history : List CrawlerEvent

/-- The state of a family, when the crawler has sockets for it. -/
def CrawlerConfig.familyState (config : CrawlerConfig) (family : AddressFamily) :
    Option FamilyState :=
  let members := config.nodeSockets.filter fun nodeSocket ↦ nodeSocket.family = family
  if hmembers : members ≠ [] then
    some
      { family := family
        nodeSockets := members
        socketCycle := 0
        maxQueue := config.maxQueue
        nodeQueue := []
        recentNodes := []
        lastBootstrapTime := none
        nodeSockets_ne := hmembers
        family_eq := fun _ hmem ↦ of_decide_eq_true (List.mem_filter.mp hmem).2 }
  else none

def CrawlerConfig.families (config : CrawlerConfig) : OrderedMap AddressFamily FamilyState :=
  [AddressFamily.inet, .inet6].foldl (fun families family ↦
    match config.familyState family with
    | some state => families.insert family state
    | none => families) .empty

namespace DhtCrawler

/-- `DhtCrawler.__init__`, on a catalog that other threads may have worked on before. -/
def new (W : World) (config : CrawlerConfig) (session : Session) : DhtCrawler where
  config := config
  families := config.families
  tokenSecret := W.urandom 0 tokenSecretLength
  resolvedBootstrapHosts := config.families.keys.foldl (fun hosts family ↦
    hosts.insert family .empty) .empty
  recentHashes := []
  sampleBackoff := .empty
  fallbackSent := .empty
  recentlyQueued := .empty
  hintNodes := .empty
  socketAffinity := .empty
  sender := .new
  stats := ⟨0, 0, 0, 0, 0, 0, 0, 0, 0, 0⟩
  lookupManager := .new config.lookupLimits
    (isForeignNode W.net (ownIdSuffixes config.nodeSockets) config.families.keys) (W.clock 1)
  session := session
  readings := 2
  history := []

end DhtCrawler

/-! ## Computations -/

/-- How a method of the crawler ends when it does not return. -/
inductive CrawlerError where
  | failure (failure : Failure)
  | keyError
  /-- An assertion of the lookup manager. -/
  | lookupManager
  /-- An assertion of the catalog. -/
  | catalog

abbrev Crawl := EStateM CrawlerError DhtCrawler

namespace DhtCrawler

/-- An `assert` statement. -/
def require (condition : Prop) [Decidable condition] : Crawl Unit :=
  if condition then pure () else throw (.failure .assertionError)

/-- A call of a function of the other modules. -/
def lift {α : Type} (result : Except Failure α) : Crawl α :=
  match result with
  | .ok value => pure value
  | .error failure => throw (.failure failure)

/-- The number of the next question. -/
def ask : Crawl ℕ := do
  let s ← get
  set { s with readings := s.readings + 1 }
  return s.readings

def count (tally : CrawlerStats → CrawlerStats) : Crawl Unit :=
  modify fun s ↦ { s with stats := tally s.stats }

def record (event : CrawlerEvent) : Crawl Unit :=
  modify fun s ↦ { s with history := s.history ++ [event] }

/-- `families[family]`. -/
def familyState (family : AddressFamily) : Crawl FamilyState := do
  let s ← get
  match s.families.get? family with
  | some state => return state
  | none => throw .keyError

/-- The object of `families` has changed. -/
def saveFamily (state : FamilyState) : Crawl Unit :=
  modify fun s ↦ { s with families := s.families.insert state.family state }

/-- `remember`, with its assertions. -/
@[irreducible]
def rememberIn {α β : Type} [DecidableEq α] (mapping : OrderedMap α β) (key : α) (value : β)
    (limit : ℕ) : Crawl (OrderedMap α β × Bool) := do
  require (rememberAsserts mapping key value limit)
  return remember mapping key value limit

variable (W : World)

def readClock : Crawl ℚ := do
  let n ← ask
  return W.clock n

def readWallClock : Crawl ℚ := do
  let n ← ask
  return W.wallClock n

def urandom (count : ℕ) : Crawl Bytes := do
  let n ← ask
  return W.urandom n count

end DhtCrawler

/-! ## The catalog -/

/-- The operations that only the crawler calls. -/
def CatalogOp.handlesLookups : CatalogOp → Bool
  | .hashesNeedingPeers .. | .releaseLookupClaim .. | .addLookupResult .. => true
  | _ => false

/-- The callers give back only the claims they hold. -/
def ownClaimsOnly : Discipline := ⟨false, false⟩

/-- An operation of another thread, when it is one that the thread may call. -/
def Session.execOther (s : Session) (op : CatalogOp) : Session :=
  if op.handlesLookups = false ∧ s.permits ownClaimsOnly op then s.exec op else s

/-- The other threads work on the catalog. -/
def Session.interfere (s : Session) (ops : List CatalogOp) : Session := ops.foldl execOther s

namespace DhtCrawler

variable (W : World)

/-- The crawler waits for the lock of the catalog while the other threads use it. -/
def interleave : Crawl Unit := do
  let n ← ask
  modify fun s ↦ { s with session := s.session.interfere (W.others n) }

/-- An operation of the crawler, under the lock. -/
def execCatalog (op : CatalogOp) : Crawl Unit := do
  modify fun s ↦ { s with session := s.session.exec op, history := s.history ++ [.called op] }
  let s ← get
  if s.session.catalog.raised then throw .catalog

def callCatalog (op : CatalogOp) : Crawl Unit := do
  interleave W
  execCatalog op

def hashesNeedingPeers (limit : ℕ) : Crawl (List Bytes) := do
  let now ← readWallClock W
  interleave W
  let s ← get
  let result := (s.session.catalog.settle.hashesNeedingPeers limit now).2
  execCatalog (.hashesNeedingPeers limit now)
  require (result.length ≤ limit)
  return result

def fetchableCount : Crawl ℕ := do
  interleave W
  let s ← get
  return s.session.catalog.fetchableCount

end DhtCrawler

end DhtScraper
