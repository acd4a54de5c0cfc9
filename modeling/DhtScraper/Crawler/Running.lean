import DhtScraper.Crawler.Handlers

/-!
# The crawler thread

Bootstrap, crawl steps and the start of lookups, and the machine of the calls that `run` makes.
`iteration` is what the loop of `run` does when the interval is over; the pacing itself, the
selector and the shutdown of the sockets are not modelled.
-/

namespace DhtScraper

open Library

namespace DhtCrawler

variable (W : World)

/-! ## Bootstrap -/

/-- `resolved_bootstrap_hosts[family]`. -/
def resolvedHosts (family : AddressFamily) : Crawl (OrderedMap Text (List Text)) := do
  let s ← get
  match s.resolvedBootstrapHosts.get? family with
  | some resolved => return resolved
  | none => throw .keyError

def saveResolved (family : AddressFamily) (host : Text) (ips : List Text) : Crawl Unit := do
  let resolved ← resolvedHosts family
  modify fun s ↦ { s with
    resolvedBootstrapHosts := s.resolvedBootstrapHosts.insert family (resolved.insert host ips) }

/-- The resolver is asked; a host that cannot be resolved has no address. -/
def resolveHost (family : AddressFamily) (host : Text) (port : ℤ) : Crawl Unit := do
  let n ← ask
  match W.resolver n host port family with
  | some ips =>
    record (.resolved host port family ips)
    saveResolved family host ips
  | none => saveResolved family host []

/-- Whether a host is resolved now: it never was, or no host was and this one failed. -/
def needsResolving (resolved : OrderedMap Text (List Text)) (retryFailed : Bool) (host : Text) :
    Bool :=
  match resolved.get? host with
  | none => true
  | some ips => retryFailed && ips.isEmpty

/-- Every node of the family asks one address. -/
def contact (nodeSockets : List NodeSocket) (port : ℤ) (ip : Text) : Crawl Unit :=
  nodeSockets.forM fun nodeSocket ↦ sendFindNode W nodeSocket ⟨nodeSocket.ownId, ip, port⟩

def resolveIfNeeded (family : AddressFamily) (retryFailed : Bool) (host : Text) (port : ℤ) :
    Crawl Unit := do
  let resolved ← resolvedHosts family
  if needsResolving resolved retryFailed host then resolveHost W family host port else pure ()

def bootstrapHost (state : FamilyState) (retryFailed : Bool) (entry : Text × ℤ) : Crawl Unit := do
  resolveIfNeeded W state.family retryFailed entry.1 entry.2
  let resolved ← resolvedHosts state.family
  match resolved.get? entry.1 with
  | some ips => ips.forM (contact W state.nodeSockets entry.2)
  | none => throw .keyError

def bootstrapFamily (family : AddressFamily) : Crawl Unit := do
  let state ← familyState family
  let now ← readClock W
  saveFamily { state with lastBootstrapTime := some now }
  let resolved ← resolvedHosts family
  let retryFailed := !resolved.values.any fun ips ↦ !ips.isEmpty
  let s ← get
  s.config.bootstrapNodes.forM (bootstrapHost W state retryFailed)

/-- `bootstrap`, for the given families. -/
def bootstrap (families : List AddressFamily) : Crawl Unit := families.forM (bootstrapFamily W)

/-- `bootstrap()`, for all families. -/
def bootstrapAll : Crawl Unit := do
  let s ← get
  bootstrap W s.families.keys
  let s ← get
  require (∀ state ∈ s.families.values, state.lastBootstrapTime.isSome)

/-! ## Crawling -/

/-- The family has nobody to ask, and was not bootstrapped lately. -/
def isStarving (now : ℚ) (state : FamilyState) : Bool :=
  state.nodeQueue.isEmpty && match state.lastBootstrapTime with
    | some time => bootstrapRetrySeconds ≤ now - time
    | none => true

/-- The loop of `crawl_step` over the queue of a family, for at most `limit` queries. -/
def crawlQueue (family : AddressFamily) : ℕ → Crawl ℕ
  | 0 => return 0
  | limit + 1 => do
    let state ← familyState family
    match state.nodeQueue with
    | [] => return 0
    | node :: rest =>
      saveFamily { state with nodeQueue := rest }
      sendCrawlQuery W node
      let others ← crawlQueue family limit
      return others + 1

def crawlFamily (family : AddressFamily) : Crawl ℕ := do
  let s ← get
  let state ← familyState family
  crawlQueue W family (s.config.batchSize * state.nodeSockets.length)

def crawlFamilies : List AddressFamily → Crawl ℕ
  | [] => return 0
  | family :: rest => do
    let sent ← crawlFamily W family
    let others ← crawlFamilies rest
    return sent + others

/-- The families without a node to ask are bootstrapped again. -/
def feedStarving (now : ℚ) : Crawl Unit := do
  let s ← get
  bootstrap W ((s.families.values.filter (isStarving now)).map FamilyState.family)

def crawlStep : Crawl ℕ := do
  let now ← readClock W
  feedStarving W now
  let s ← get
  let sent ← crawlFamilies W s.families.keys
  require (sent ≤ s.config.batchSize * s.config.nodeSockets.length)
  return sent

/-! ## Lookups -/

def seedNodes (infoHash : Bytes) : Crawl (List Node) := do
  require (infoHash.length = nodeIdLength)
  let s ← get
  let scanEach := lookupSeedScan / s.families.size
  let queued := s.families.values.flatMap fun state ↦ state.nodeQueue.take scanEach
  let recent := s.families.values.flatMap FamilyState.recentNodes
  require (selectClosestAsserts queued infoHash)
  let result := selectClosestNodes queued infoHash lookupSeedCount ++ recent
  require (result.length ≤ lookupSeedCount + recentNodesSize * s.families.size)
  return result

/-- The nodes a lookup starts from: the recent ones of the hint's family, or the closest queued. -/
def seedsFor (infoHash : Bytes) (hint : Option Node) : Crawl (List Node) :=
  match hint with
  | some node => do
    let state ← familyState (addressFamily node.ip)
    return state.recentNodes
  | none => seedNodes infoHash

/-- One claimed hash: its lookup starts, or the claim is released. -/
def startOne (now : ℚ) (infoHash : Bytes) : Crawl Bool := do
  let s ← get
  let hint := s.hintNodes.get? infoHash
  let seeds ← seedsFor infoHash hint
  let s ← get
  let started := (s.lookupManager.startLookup infoHash seeds now hint).2
  callManager W (.startLookup infoHash seeds now hint)
  if started then return true
  else
    callCatalog W (.releaseLookupClaim infoHash)
    return false

def startEach (now : ℚ) : List Bytes → Crawl ℕ
  | [] => return 0
  | infoHash :: rest => do
    let started ← startOne W now infoHash
    let others ← startEach now rest
    return others + if started then 1 else 0

/-- `slots` of `start_pending_lookups`. -/
def lookupSlots (s : DhtCrawler) (fetchable : ℕ) : ℤ :=
  min (min (s.lookupManager.freeSlots : ℤ) (s.config.lookupFetchableTarget - fetchable))
    ⌊s.lookupManager.tokens⌋

def startPendingLookups (now : ℚ) : Crawl ℕ := do
  require (0 ≤ now)
  let fetchable ← fetchableCount W
  let s ← get
  require (s.lookupManager.active.size ≤ s.lookupManager.limits.maxActive)
  callManager W (.refill now)
  let s ← get
  let slots := lookupSlots s fetchable
  if slots ≤ 0 then return 0
  else
    let infoHashes ← hashesNeedingPeers W slots.toNat
    let started ← startEach W now infoHashes
    count fun stats ↦ { stats with lookupsStarted := stats.lookupsStarted + started }
    require ((started : ℤ) ≤ slots)
    return started

/-! ## Runs -/

/-- What `run` does at the end of an interval. -/
def iteration : Crawl Unit := do
  let now ← readClock W
  let _ ← crawlStep W
  callManager W (.tick now)
  let _ ← startPendingLookups W now

end DhtCrawler

/-- The calls of the crawler thread.  Between two of them the other threads may use the catalog. -/
inductive CrawlerCall where
  | bootstrap
  | crawlStep
  | tick (now : ℚ)
  | startPendingLookups (now : ℚ)
  | iteration
  | datagram (data : Bytes) (address : Address) (nodeSocket : NodeSocket)
  | abortAll
  | others (ops : List CatalogOp)

namespace DhtCrawler

variable (W : World)

def perform : CrawlerCall → Crawl Unit
  | .bootstrap => bootstrapAll W
  | .crawlStep => do
    let _ ← crawlStep W
  | .tick now => callManager W (.tick now)
  | .startPendingLookups now => do
    let _ ← startPendingLookups W now
  | .iteration => iteration W
  | .datagram data address nodeSocket => handleDatagram W data address nodeSocket
  | .abortAll => callManager W .abortAll
  | .others ops => modify fun s ↦ { s with session := s.session.interfere ops }

end DhtCrawler

/-- The machine of all sequences of calls that return. -/
def crawlerMachine (W : World) : Machine DhtCrawler CrawlerCall :=
  ⟨fun s call ↦ match DhtCrawler.perform W call s with
    | .ok _ s' => some s'
    | .error _ _ => none⟩

/-! ## Sample values -/

/-- An environment in which nothing fails and no other thread uses the catalog. -/
def sampleWorld : World where
  net := plainInet
  clock := fun _ ↦ 0
  wallClock := fun _ ↦ 0
  sendto := fun _ ↦ true
  urandom := fun _ count ↦ List.replicate count 0
  resolver := fun _ _ _ _ ↦ some ["8.8.4.4".toList]
  others := fun _ ↦ []
  hmacDigest := fun _ _ ↦ List.replicate 20 0
  tooDeep := fun _ ↦ false
  length_urandom := fun _ _ ↦ List.length_replicate
  length_hmacDigest := fun _ _ ↦ List.length_replicate

def sampleSocket : NodeSocket := ⟨0, List.replicate nodeIdLength 255, 6881, .inet⟩

def sampleCrawlerConfig : CrawlerConfig where
  nodeSockets := [sampleSocket]
  bootstrapNodes := [("router".toList, 6881)]
  batchSize := 1
  maxQueue := 8
  lookupFetchableTarget := 8
  lookupLimits := defaultLookupLimits
  nodeSockets_ne := List.cons_ne_nil _ _
  bootstrapNodes_ne := List.cons_ne_nil _ _
  batchSize_pos := le_refl 1
  maxQueue_pos := Nat.le_add_left 1 7
  length_ownId := fun nodeSocket hmem ↦ by
    rw [List.mem_singleton.mp hmem]
    rfl

def sampleCrawler : DhtCrawler := .new sampleWorld sampleCrawlerConfig (.new oneLookup)

/-- A node asks for the peers of a hash. -/
def sampleGetPeers : CrawlerCall :=
  .datagram (ascii ("d1:ad2:id20:aaaaaaaaaaaaaaaaaaaa9:info_hash20:bbbbbbbbbbbbbbbbbbbbe" ++
    "1:q9:get_peers1:t2:aa1:y1:qe").toList) ("8.8.8.1".toList, 6881) sampleSocket

/-- A lookup of that hash asks that node. -/
def sampleCalls : List CrawlerCall := [sampleGetPeers, .startPendingLookups 0]

end DhtScraper
