import DhtScraper.Codec.Krpc
import DhtScraper.Library.Machine

/-!
# The lookup manager

`LookupManager` runs the `get_peers` lookups: the shortlist and the pending queries of each, the
table of transactions, the queries in flight to each address and the bucket of tokens.  The lookups
of `active` are objects that the methods change in place; here a method takes the lookup it works on
and `save` puts it back.

A failed `assert` sets `raised`; what the model does afterwards has no meaning, and a call that ends
with `raised` did not return.  The callbacks are recorded in `log`.  Three things are there for the
statements only: the number of a lookup and of a query, counted from the start of the manager, and
the events `started` and `released`.
-/

namespace DhtScraper

open Library

/-- `LookupLimits`, with the assertions of the manager's constructor. -/
structure LookupLimits where
  alpha : ℕ := 1
  queryTimeout : ℚ := 3 / 2
  hintTimeout : ℚ := 1
  deadline : ℚ := 6
  maxQueries : ℕ := 16
  enoughPeers : ℕ := 8
  maxValueResponses : ℕ := 2
  maxActive : ℕ := 256
  queriesPerSecond : ℚ := 420
  maxPerNode : ℕ := 4
  shortlistSize : ℕ := 32
  maxPeers : ℕ := 50
  alpha_pos : 1 ≤ alpha := by decide
  maxActive_pos : 1 ≤ maxActive := by decide
  queriesPerSecond_pos : 0 < queriesPerSecond := by decide
  maxPerNode_pos : 1 ≤ maxPerNode := by decide

def defaultLookupLimits : LookupLimits := { alpha_pos := Nat.one_pos }

/-- A pending query: the address asked, the time it expires and its number. -/
structure PendingQuery where
  address : Address
  expiry : ℚ
  number : ℕ

structure PeerLookup where
  number : ℕ
  infoHash : Bytes
  shortlist : OrderedMap Bytes Node
  queried : Finset Address
  pending : OrderedMap Bytes PendingQuery
  foundPeers : OrderedMap Address Unit
  queriesSent : ℕ
  valueResponses : ℕ
  hintTransaction : Option Bytes
  deadline : ℚ
  finished : Bool

/-- `PeerLookup.__init__`. -/
def PeerLookup.new (number : ℕ) (infoHash : Bytes) (deadline : ℚ) : PeerLookup where
  number := number
  infoHash := infoHash
  shortlist := .empty
  queried := ∅
  pending := .empty
  foundPeers := .empty
  queriesSent := 0
  valueResponses := 0
  hintTransaction := none
  deadline := deadline
  finished := false

inductive LookupEvent where
  /-- `start_lookup` returned `True`. -/
  | started (lookup : ℕ) (infoHash : Bytes) (now : ℚ)
  /-- `send_query`. -/
  | sent (query lookup : ℕ) (transactionId : Bytes) (node : Node) (infoHash : Bytes)
  /-- A query is not pending any more. -/
  | released (query : ℕ)
  /-- `on_peers`. -/
  | foundPeers (lookup : ℕ) (infoHash : Bytes) (peers : List Address)
  /-- `on_finished`. -/
  | finished (lookup : ℕ) (infoHash : Bytes) (peers : List Address)
  deriving DecidableEq

structure LookupManager where
  limits : LookupLimits
  nodeFilter : Node → Bool
  active : OrderedMap Bytes PeerLookup
  transactions : OrderedMap Bytes Bytes
  inFlight : OrderedMap Address ℤ
  tokens : ℚ
  tokensTime : ℚ
  sequence : ℕ
  startedTotal : ℕ
  finishedTotal : ℕ
  withPeersTotal : ℕ
  peersFoundTotal : ℕ
  queriesTotal : ℕ
  hintQueries : ℕ
  hintAnswers : ℕ
  hintValues : ℕ
  log : List LookupEvent
  raised : Bool

/-- Order of `sorted` on addresses. -/
def addressLe (left right : Address) : Prop :=
  left.1 < right.1 ∨ left.1 = right.1 ∧ left.2 ≤ right.2

instance : DecidableRel addressLe := fun left right ↦
  inferInstanceAs (Decidable (left.1 < right.1 ∨ left.1 = right.1 ∧ left.2 ≤ right.2))

def sortedAddresses (peers : List Address) : List Address := peers.insertionSort addressLe

namespace LookupManager

/-- `LookupManager.__init__`, at the clock reading `now`. -/
def new (limits : LookupLimits) (nodeFilter : Node → Bool) (now : ℚ) : LookupManager where
  limits := limits
  nodeFilter := nodeFilter
  active := .empty
  transactions := .empty
  inFlight := .empty
  tokens := limits.queriesPerSecond
  tokensTime := now
  sequence := 0
  startedTotal := 0
  finishedTotal := 0
  withPeersTotal := 0
  peersFoundTotal := 0
  queriesTotal := 0
  hintQueries := 0
  hintAnswers := 0
  hintValues := 0
  log := []
  raised := false

def check (m : LookupManager) (p : Prop) [Decidable p] : LookupManager :=
  { m with raised := m.raised || !decide p }

/-- The callback or ghost event is recorded. -/
def emit (m : LookupManager) (event : LookupEvent) : LookupManager :=
  { m with log := m.log ++ [event] }

/-- The object of `active` has changed. -/
def save (m : LookupManager) (lookup : PeerLookup) : LookupManager :=
  { m with active := m.active.insert lookup.infoHash lookup }

def freeSlots (m : LookupManager) : ℕ := m.limits.maxActive - m.active.size

def ownsTransaction (m : LookupManager) (transactionId : Bytes) : Bool :=
  m.transactions.contains transactionId

/-- The number of queries in flight to an address. -/
def inFlightTo (m : LookupManager) (address : Address) : ℤ := (m.inFlight.get? address).getD 0

def refill (m : LookupManager) (now : ℚ) : LookupManager :=
  let elapsed := max 0 (now - m.tokensTime)
  let tokens := min m.limits.queriesPerSecond (m.tokens + elapsed * m.limits.queriesPerSecond)
  { m with tokens := tokens, tokensTime := max m.tokensTime now }.check
    (0 ≤ now ∧ 0 ≤ tokens ∧ tokens ≤ m.limits.queriesPerSecond)

/-- `is_usable_node`. -/
def isUsableNode (m : LookupManager) (node : Node) : Bool :=
  isValidNodeId node.nodeId && m.nodeFilter node

/-- The nodes that `add_to_shortlist` puts in. -/
def isNewNode (m : LookupManager) (lookup : PeerLookup) (node : Node) : Bool :=
  m.isUsableNode node && node.address ∉ lookup.queried

/-- `{node[0]: node for node in nodes}`. -/
def nodesById (nodes : List Node) : OrderedMap Bytes Node :=
  nodes.foldl (fun shortlist node ↦ shortlist.insert node.nodeId node) .empty

def addToShortlist (m : LookupManager) (lookup : PeerLookup) (nodes : List Node) :
    LookupManager × PeerLookup :=
  let shortlist := (nodes.filter (m.isNewNode lookup)).foldl
    (fun shortlist node ↦ shortlist.insert node.nodeId node) lookup.shortlist
  if m.limits.shortlistSize < shortlist.size then
    let closest := selectClosestNodes shortlist.values lookup.infoHash m.limits.shortlistSize
    let trimmed := nodesById closest
    ((m.check (selectClosestAsserts shortlist.values lookup.infoHash)).check
      (trimmed.size ≤ m.limits.shortlistSize), { lookup with shortlist := trimmed })
  else (m, { lookup with shortlist := shortlist })

/-- `send_to`, returning the transaction id last. -/
def sendTo (m : LookupManager) (lookup : PeerLookup) (node : Node) (now timeout : ℚ) :
    LookupManager × PeerLookup × Bytes :=
  let transactionId := lookupTransactionId m.sequence
  let address := node.address
  (({ m with
      sequence := m.sequence + 1
      transactions := m.transactions.insert transactionId lookup.infoHash
      inFlight := m.inFlight.insert address (m.inFlightTo address + 1)
      tokens := m.tokens - 1
      queriesTotal := m.queriesTotal + 1 }.check (lookup.finished = false ∧ 0 < timeout)).emit
        (.sent m.sequence lookup.number transactionId node lookup.infoHash),
    { lookup with
      pending := lookup.pending.insert transactionId ⟨address, now + timeout, m.sequence⟩
      queried := insert address lookup.queried
      queriesSent := lookup.queriesSent + 1 },
    transactionId)

def releaseTransaction (m : LookupManager) (lookup : PeerLookup) (transactionId : Bytes) :
    LookupManager × PeerLookup :=
  match lookup.pending.get? transactionId with
  | none => ({ m with raised := true }, lookup)
  | some query =>
    let remaining := m.inFlightTo query.address - 1
    ({ m with
        transactions := m.transactions.erase transactionId
        inFlight :=
          if 0 < remaining then m.inFlight.insert query.address remaining
          else m.inFlight.erase query.address }.emit (.released query.number),
      { lookup with
        pending := lookup.pending.erase transactionId
        hintTransaction :=
          if lookup.hintTransaction = some transactionId then none else lookup.hintTransaction })

/-- The loops that call `release_transaction` for each id. -/
def releaseEach (m : LookupManager) (lookup : PeerLookup) : List Bytes → LookupManager × PeerLookup
  | [] => (m, lookup)
  | transactionId :: rest =>
    let released := m.releaseTransaction lookup transactionId
    released.1.releaseEach released.2 rest

/-! ## Sending and finishing -/

/-- The candidates of `top_up`. -/
def isCandidate (m : LookupManager) (lookup : PeerLookup) (node : Node) : Bool :=
  node.address ∉ lookup.queried && m.inFlightTo node.address < m.limits.maxPerNode

/-- The loop of `top_up`; the number of queries sent is returned last. -/
def sendEach (m : LookupManager) (lookup : PeerLookup) (now : ℚ) :
    List Node → LookupManager × PeerLookup × ℕ
  | [] => (m, lookup, 0)
  | node :: rest =>
    if m.tokens < 1 then (m, lookup, 0)
    else
      let first := m.sendTo lookup node now m.limits.queryTimeout
      let others := first.1.sendEach first.2.1 now rest
      (others.1, others.2.1, others.2.2 + 1)

/-- `free` of `top_up`. -/
def freeQueries (m : LookupManager) (lookup : PeerLookup) : ℤ :=
  min ((m.limits.alpha : ℤ) - lookup.pending.size) ((m.limits.maxQueries : ℤ) - lookup.queriesSent)

def topUp (m : LookupManager) (lookup : PeerLookup) (now : ℚ) : LookupManager × PeerLookup :=
  let free := m.freeQueries lookup
  let m := m.check (lookup.finished = false)
  if free ≤ 0 then (m, lookup)
  else
    let m := m.refill now
    if m.tokens < 1 then (m, lookup)
    else
      let candidates := lookup.shortlist.values.filter (m.isCandidate lookup)
      let m := m.check (selectClosestAsserts candidates lookup.infoHash)
      let sent := m.sendEach lookup now
        (selectClosestNodes candidates lookup.infoHash free.toNat)
      (sent.1.check (sent.2.2 ≤ m.limits.alpha), sent.2.1)

def canQueryMore (m : LookupManager) (lookup : PeerLookup) : Bool :=
  lookup.queriesSent < m.limits.maxQueries
    && lookup.shortlist.values.any fun node ↦ node.address ∉ lookup.queried

/-- The end of `finish`, when no query of the lookup is pending any more. -/
def close (m : LookupManager) (lookup : PeerLookup) : LookupManager :=
  let peers := sortedAddresses lookup.foundPeers.keys
  { m with
    active := m.active.erase lookup.infoHash
    finishedTotal := m.finishedTotal + 1
    peersFoundTotal := m.peersFoundTotal + peers.length
    withPeersTotal := m.withPeersTotal + if peers ≠ [] then 1 else 0 }.emit
      (.finished lookup.number lookup.infoHash peers)

/-- `finish` on the changed object `lookup`, which is the one in `active`. -/
def finish (m : LookupManager) (lookup : PeerLookup) : LookupManager :=
  let finished := { lookup with finished := true }
  let m := (m.check (lookup.finished = false)).save finished
  let released := m.releaseEach finished finished.pending.keys
  let m := released.1.close released.2
  m.check (¬ m.active.contains lookup.infoHash)

/-- The first three conditions that end a lookup. -/
def isDone (m : LookupManager) (lookup : PeerLookup) (now : ℚ) : Prop :=
  lookup.deadline ≤ now ∨ m.limits.enoughPeers ≤ lookup.foundPeers.size
    ∨ m.limits.maxValueResponses ≤ lookup.valueResponses

instance (m : LookupManager) (lookup : PeerLookup) (now : ℚ) : Decidable (m.isDone lookup now) := by
  unfold isDone
  infer_instance

/-- `advance` on the changed object `lookup`. -/
def advance (m : LookupManager) (lookup : PeerLookup) (now : ℚ) : LookupManager :=
  if lookup.finished then m
  else if m.isDone lookup now then m.finish lookup
  else if lookup.hintTransaction = none then
    let topped := m.topUp lookup now
    if topped.2.pending.size = 0 ∧ ¬ topped.1.canQueryMore topped.2 then topped.1.finish topped.2
    else (topped.1.check (m.active.contains lookup.infoHash)).save topped.2
  else (m.check (m.active.contains lookup.infoHash)).save lookup

/-! ## The calls of the crawler -/

/-- The end of `start_lookup`, for a lookup that is not refused any more. -/
def launch (m : LookupManager) (lookup : PeerLookup) (hint : Option Node) (now : ℚ) :
    LookupManager :=
  let m := { m with startedTotal := m.startedTotal + 1 }.emit
    (.started lookup.number lookup.infoHash now)
  match hint with
  | some node =>
    let sent := m.sendTo lookup node now m.limits.hintTimeout
    { sent.1 with hintQueries := sent.1.hintQueries + 1 }.save
      { sent.2.1 with hintTransaction := some sent.2.2 }
  | none =>
    let topped := m.topUp lookup now
    topped.1.save topped.2

/-- `start_lookup` once a slot and a token are there. -/
def openLookup (m : LookupManager) (infoHash : Bytes) (seedNodes : List Node) (now : ℚ)
    (hint : Option Node) : LookupManager × Bool :=
  let hint := hint.filter m.isUsableNode
  if hint.any fun node ↦ (m.limits.maxPerNode : ℤ) ≤ m.inFlightTo node.address then (m, false)
  else
    let lookup := PeerLookup.new m.startedTotal infoHash (now + m.limits.deadline)
    let filled := m.addToShortlist lookup seedNodes
    if hint = none ∧ filled.2.shortlist.size = 0 then (filled.1, false)
    else (filled.1.launch filled.2 hint now, true)

def startLookup (m : LookupManager) (infoHash : Bytes) (seedNodes : List Node) (now : ℚ)
    (hint : Option Node) : LookupManager × Bool :=
  if infoHash.length ≠ nodeIdLength then ({ m with raised := true }, false)
  else if m.active.contains infoHash then (m, false)
  else
    let m := m.check (m.active.size ≤ m.limits.maxActive)
    if m.freeSlots = 0 then (m, false)
    else
      let m := m.refill now
      if m.tokens < 1 then (m, false) else m.openLookup infoHash seedNodes now hint

/-- The loop of `handle_response` over the peers of a reply; the new ones are returned last. -/
def addFoundPeers (net : Inet) (maxPeers : ℕ) (found : OrderedMap Address Unit) :
    List Address → OrderedMap Address Unit × List Address
  | [] => (found, [])
  | peer :: rest =>
    if isRoutableAddress net peer ∧ ¬ found.contains peer ∧ found.size < maxPeers then
      let others := addFoundPeers net maxPeers (found.insert peer ()) rest
      (others.1, peer :: others.2)
    else addFoundPeers net maxPeers found rest

/-- The part of `handle_response` about `values`. -/
def takeValues (m : LookupManager) (net : Inet) (lookup : PeerLookup) (fromHint : Bool)
    (values : List Address) : LookupManager × PeerLookup :=
  let found := addFoundPeers net m.limits.maxPeers lookup.foundPeers values
  let m := { m with
    hintValues := m.hintValues + if fromHint ∧ values ≠ [] then 1 else 0 }
  let lookup := { lookup with
    foundPeers := found.1
    valueResponses := lookup.valueResponses + if values ≠ [] then 1 else 0 }
  (if found.2 = [] then m else m.emit (.foundPeers lookup.number lookup.infoHash found.2), lookup)

/-- One iteration of the loop of `handle_response` over `nodes` and `nodes6`. -/
def takeNodes (m : LookupManager) (lookup : PeerLookup)
    (decoder : Bytes → Except Failure (List Node)) (compactNodes : Option BencodeValue) :
    LookupManager × PeerLookup :=
  match compactNodes with
  | some (.bytes data) =>
    match decoder data with
    | .ok nodes => m.addToShortlist lookup nodes
    | .error _ => ({ m with raised := true }, lookup)
  | _ => (m, lookup)

/-- The middle of `handle_response`: what a reply says is taken in. -/
def takeResponse (m : LookupManager) (net : Inet) (lookup : PeerLookup) (fromHint : Bool)
    (response : Option BencodeValue) : LookupManager × PeerLookup :=
  match response with
  | some (.dict items) =>
    match decodeCompactPeers net (items.lookup (ascii "values".toList)) with
    | .ok values =>
      let taken := m.takeValues net lookup fromHint values
      let taken := taken.1.takeNodes taken.2 (decodeCompactNodes net) (items.lookup nodesKey)
      taken.1.takeNodes taken.2 (decodeCompactNodes6 net) (items.lookup nodes6Key)
    | .error _ => ({ m with raised := true }, lookup)
  | _ => (m, lookup)

/-- The lookup that `handle_response` accepts the reply for. -/
def awaitedFrom (m : LookupManager) (transactionId infoHash : Bytes) (address : Address) :
    Option PeerLookup :=
  (m.active.get? infoHash).filter fun lookup ↦
    (lookup.pending.get? transactionId).map PendingQuery.address = some address

/-- No lookup object keeps the transaction pending. -/
def forgotten (m : LookupManager) (transactionId infoHash : Bytes) : Prop :=
  ∀ lookup ∈ m.active.get? infoHash, ¬ lookup.pending.contains transactionId

instance (m : LookupManager) (transactionId infoHash : Bytes) :
    Decidable (m.forgotten transactionId infoHash) := by
  unfold forgotten
  infer_instance

/-- `handle_response`, at the clock reading `now`. -/
def handleResponse (m : LookupManager) (net : Inet) (transactionId : Bytes)
    (response : Option BencodeValue) (address : Address) (now : ℚ) : LookupManager :=
  match m.transactions.get? transactionId with
  | none => { m with raised := true }
  | some infoHash =>
    match m.awaitedFrom transactionId infoHash address with
    | none => m
    | some lookup =>
      let fromHint : Bool := lookup.hintTransaction = some transactionId
      let released := m.releaseTransaction lookup transactionId
      let m := { released.1 with
        hintAnswers := released.1.hintAnswers + if fromHint then 1 else 0 }
      let taken := m.takeResponse net released.2 fromHint response
      let m := taken.1.advance taken.2 now
      m.check (m.forgotten transactionId infoHash)

/-- `handle_error`, at the clock reading `now`. -/
def handleError (m : LookupManager) (transactionId : Bytes) (now : ℚ) : LookupManager :=
  match m.transactions.get? transactionId with
  | none => { m with raised := true }
  | some infoHash =>
    let m :=
      match (m.active.get? infoHash).filter fun lookup ↦ lookup.pending.contains transactionId with
      | some lookup =>
        let released := m.releaseTransaction lookup transactionId
        released.1.advance released.2 now
      | none => { m with transactions := m.transactions.erase transactionId }
    m.check (¬ m.ownsTransaction transactionId)

/-- The transactions that `expire_pending` releases. -/
def expired (lookup : PeerLookup) (now : ℚ) : List Bytes :=
  (lookup.pending.items.filter fun item ↦ item.2.expiry ≤ now).map Prod.fst

def expirePending (m : LookupManager) (lookup : PeerLookup) (now : ℚ) :
    LookupManager × PeerLookup :=
  let released := m.releaseEach lookup (expired lookup now)
  (released.1.check (∀ query ∈ released.2.pending.values, now < query.expiry), released.2)

/-- The body of the loop of `tick`, for the lookup of `infoHash`. -/
def tickLookup (now : ℚ) (m : LookupManager) (infoHash : Bytes) : LookupManager :=
  match m.active.get? infoHash with
  | none => m
  | some lookup =>
    let expired := m.expirePending lookup now
    expired.1.advance expired.2 now

def tick (m : LookupManager) (now : ℚ) : LookupManager :=
  let m := (m.check (0 ≤ now)).refill now
  let m := m.active.keys.foldl (tickLookup now) m
  m.check (∀ lookup ∈ m.active.values, lookup.finished = false)

/-- The body of the loop of `abort_all`. -/
def finishLookup (m : LookupManager) (infoHash : Bytes) : LookupManager :=
  match m.active.get? infoHash with
  | none => m
  | some lookup => m.finish lookup

def abortAll (m : LookupManager) : LookupManager :=
  let m := m.active.keys.foldl finishLookup m
  m.check (m.active.size = 0 ∧ m.transactions.size = 0)

end LookupManager

/-! ## Runs -/

/-- The calls of a manager, with the clock readings they make. -/
inductive LookupCall where
  | startLookup (infoHash : Bytes) (seedNodes : List Node) (now : ℚ) (hint : Option Node)
  | handleResponse (transactionId : Bytes) (response : Option BencodeValue) (address : Address)
      (now : ℚ)
  | handleError (transactionId : Bytes) (now : ℚ)
  | tick (now : ℚ)
  | abortAll
  | refill (now : ℚ)

namespace LookupManager

def apply (net : Inet) (m : LookupManager) : LookupCall → LookupManager
  | .startLookup infoHash seedNodes now hint => (m.startLookup infoHash seedNodes now hint).1
  | .handleResponse transactionId response address now =>
    m.handleResponse net transactionId response address now
  | .handleError transactionId now => m.handleError transactionId now
  | .tick now => m.tick now
  | .abortAll => m.abortAll
  | .refill now => m.refill now

end LookupManager

/-- The machine of all sequences of calls that return. -/
def lookupMachine (net : Inet) : Machine LookupManager LookupCall :=
  ⟨fun m call ↦ if (m.apply net call).raised then none else some (m.apply net call)⟩

end DhtScraper
