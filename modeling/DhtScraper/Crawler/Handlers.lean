import DhtScraper.Crawler.State

/-!
# Sending, and handling datagrams

The methods of `DhtCrawler` that send messages and those that `handle_datagram` calls, in the order
of the source.  A message goes out through `send_message`, whose cap on packets is that of
`Sender`; the callbacks of the lookup manager run when its method is over, since nothing they do
reaches the manager.
-/

namespace DhtScraper

open Library

namespace DhtCrawler

variable (W : World)

/-! ## Sending -/

def pickNodeSocket (family : AddressFamily) : Crawl (Option NodeSocket) := do
  let s ← get
  match s.families.get? family with
  | none => return none
  | some state =>
    saveFamily { state with socketCycle := state.socketCycle + 1 }
    require (state.nextSocket.family = family)
    return some state.nextSocket

def sendMessage (nodeSocket : NodeSocket) (message : Message) (address : Address) :
    Crawl Unit := do
  let s ← get
  require (nodeSocket ∈ s.config.nodeSockets)
  let now ← readClock W
  let n ← ask
  modify fun s ↦ { s with
    sender := (s.sender.sendMessage ⟨now, nodeSocket, message, address, W.sendto n⟩).1 }

/-- The two crawl queries, to an id near the node and for a random target. -/
def sendCrawlTo (build : Bytes → Bytes → Bytes → Except Failure Message) (nodeSocket : NodeSocket)
    (node : Node) : Crawl Unit := do
  require (isValidNodeId node.nodeId ∧ 0 ≤ node.port ∧ node.port ≤ 65535)
  let transactionId ← urandom W transactionIdLength
  let nodeId ← lift (neighborNodeId node.nodeId nodeSocket.ownId)
  let targetId ← urandom W nodeIdLength
  let query ← lift (build transactionId nodeId targetId)
  sendMessage W nodeSocket query node.address

def sendFindNode (nodeSocket : NodeSocket) (node : Node) : Crawl Unit := do
  sendCrawlTo W buildFindNodeQuery nodeSocket node
  count fun stats ↦ { stats with findNodeSent := stats.findNodeSent + 1 }

def sendSampleInfohashes (nodeSocket : NodeSocket) (node : Node) : Crawl Unit := do
  sendCrawlTo W buildSampleInfohashesQuery nodeSocket node
  count fun stats ↦ { stats with sampleQueriesSent := stats.sampleQueriesSent + 1 }

/-- Whether the node is to be asked `find_node`, because it did not answer samples lately. -/
def backsOff (address : Address) : Crawl Bool := do
  let s ← get
  match s.sampleBackoff.get? address with
  | some backoffUntil =>
    let now ← readClock W
    return now < backoffUntil
  | none => return false

def sendCrawlQuery (node : Node) : Crawl Unit := do
  let picked ← pickNodeSocket (addressFamily node.ip)
  match picked with
  | none => pure ()
  | some nodeSocket =>
    let backing ← backsOff W node.address
    if backing then sendFindNode W nodeSocket node else sendSampleInfohashes W nodeSocket node

/-- The socket for a lookup query: the one the address was heard on, or the next of its family. -/
def lookupSocket (node : Node) : Crawl (Option NodeSocket) := do
  let s ← get
  match s.socketAffinity.get? node.address with
  | some nodeSocket => return some nodeSocket
  | none => pickNodeSocket (addressFamily node.ip)

def sendLookupQuery (transactionId : Bytes) (node : Node) (infoHash : Bytes) : Crawl Unit := do
  require (transactionId.length = lookupTransactionIdLength ∧ infoHash.length = nodeIdLength)
  let picked ← lookupSocket node
  match picked with
  | none => pure ()
  | some nodeSocket =>
    let nodeId ← lift (neighborNodeId node.nodeId nodeSocket.ownId)
    let query ← lift (buildGetPeersQuery transactionId nodeId infoHash)
    sendMessage W nodeSocket query node.address

/-! ## The lookup manager -/

/-- The callbacks of the manager: `send_lookup_query`, `add_peers` and `add_lookup_result`. -/
def callback : LookupEvent → Crawl Unit
  | .sent _ _ transactionId node infoHash => sendLookupQuery W transactionId node infoHash
  | .foundPeers _ infoHash peers => callCatalog W (.addPeers infoHash peers)
  | .finished _ infoHash peers => do
    let now ← readWallClock W
    callCatalog W (.addLookupResult infoHash peers now)
  | _ => pure ()

/-- A call of the lookup manager. -/
def callManager (call : LookupCall) : Crawl Unit := do
  let s ← get
  let manager := s.lookupManager.apply W.net call
  set { s with lookupManager := manager }
  (manager.log.drop s.lookupManager.log.length).forM (callback W)
  if manager.raised then throw .lookupManager

/-- The transaction of a message, when `owns_transaction` accepts it. -/
def ownedTransaction (s : DhtCrawler) (value : Option BencodeValue) : Option Bytes :=
  match value with
  | some (.bytes transactionId) =>
    if s.lookupManager.ownsTransaction transactionId then some transactionId else none
  | _ => none

/-! ## Nodes -/

def isForeign (s : DhtCrawler) (node : Node) : Bool :=
  isForeignNode W.net (ownIdSuffixes s.config.nodeSockets) s.families.keys node

/-- The end of `add_node`, for a node that is not filtered out. -/
def queueNode (state : FamilyState) (node : Node) : Crawl Unit := do
  let nodeQueue := appendBounded state.maxQueue state.nodeQueue node
  saveFamily { state with
    nodeQueue := nodeQueue
    recentNodes := appendBounded recentNodesSize state.recentNodes node }
  require (nodeQueue.length ≤ state.maxQueue)

def addNode (node : Node) : Crawl Unit := do
  let s ← get
  match s.families.get? (addressFamily node.ip) with
  | none => pure ()
  | some state =>
    if isForeign W s node then do
      let (recentlyQueued, isNew) ← rememberIn s.recentlyQueued node.address () maxBackoffEntries
      modify fun s ↦ { s with recentlyQueued := recentlyQueued }
      if isNew then queueNode state node
    else pure ()

/-- The nodes of `nodes` or `nodes6`. -/
def addNodes (decoder : Bytes → Except Failure (List Node)) (compactNodes : Option BencodeValue) :
    Crawl Unit := do
  match compactNodes with
  | some (.bytes data) =>
    let nodes ← lift (decoder data)
    nodes.forM (addNode W)
  | _ => pure ()

/-! ## Responses and errors -/

/-- The sender joins the recent nodes of its family. -/
def addRecent (sender : Node) : Crawl Unit := do
  let state ← familyState (addressFamily sender.ip)
  saveFamily { state with
    recentNodes := appendBounded recentNodesSize state.recentNodes sender }

/-- The sender of a response, when it is a node to ask. -/
def foreignSender (value : Option BencodeValue) (address : Address) : Crawl (Option Node) := do
  let s ← get
  match readNodeId value with
  | some nodeId =>
    let sender : Node := ⟨nodeId, address.1, address.2⟩
    if isForeign W s sender then do
      addRecent sender
      return some sender
    else return none
  | none => return none

/-- The sampling node is remembered for one of its hashes. -/
def addHint (sender : Node) (infoHash : Bytes) : Crawl Unit := do
  let s ← get
  let (hintNodes, _) ← rememberIn s.hintNodes infoHash sender hintNodesSize
  modify fun s ↦ { s with hintNodes := hintNodes }

def addHints (sender : Option Node) (infoHashes : List Bytes) : Crawl Unit :=
  match sender with
  | some sender => infoHashes.forM (addHint sender)
  | none => pure ()

def backOff (address : Address) (seconds : ℤ) : Crawl Unit := do
  let now ← readClock W
  let s ← get
  let (sampleBackoff, _) ← rememberIn s.sampleBackoff address (now + seconds) maxBackoffEntries
  modify fun s ↦ { s with sampleBackoff := sampleBackoff }

/-- The seconds that a response asks to wait. -/
def intervalOf (value : Option BencodeValue) : ℤ :=
  match value with
  | some (.int seconds) => max 0 (min seconds maxSampleInterval)
  | _ => 0

def handleSamples (response : Message) (address : Address) (sender : Option Node) :
    Crawl Unit := do
  let samples ← lift (decodeSamples (getItem response "samples"))
  let now ← readWallClock W
  callCatalog W (.recordHashes samples .sample now)
  modify fun s ↦ { s with
    recentHashes := extendBounded recentHashesSize s.recentHashes samples }
  addHints sender samples
  count fun stats ↦ { stats with sampleResponses := stats.sampleResponses + 1 }
  backOff W address (intervalOf (getItem response "interval"))
  count fun stats ↦ { stats with samplesReceived := stats.samplesReceived + samples.length }
  let s ← get
  require (s.sampleBackoff.contains address)

/-- The part of `handle_response` for a response that belongs to no lookup. -/
def takeResponse (response : Message) (address : Address) : Crawl Unit := do
  let sender ← foreignSender W (getItem response "id") address
  addNodes W (decodeCompactNodes W.net) (response.lookup nodesKey)
  addNodes W (decodeCompactNodes6 W.net) (response.lookup nodes6Key)
  if (getItem response "samples").isSome then handleSamples W response address sender
  else pure ()

def handleResponse (message : Message) (address : Address) : Crawl Unit := do
  count fun stats ↦ { stats with responsesReceived := stats.responsesReceived + 1 }
  let response := getItem message "r"
  let s ← get
  match ownedTransaction s (getItem message "t") with
  | some transactionId =>
    let now ← readClock W
    callManager W (.handleResponse transactionId response address now)
  | none =>
    match response with
    | some (.dict fields) => takeResponse W fields address
    | _ => pure ()

/-- The node that does not know `sample_infohashes` is asked for nodes once. -/
def fallBack (address : Address) (nodeSocket : NodeSocket) : Crawl Unit := do
  backOff W address maxSampleInterval
  let state ← familyState nodeSocket.family
  if state.nodeQueue.length * 2 < state.maxQueue then do
    let s ← get
    let (fallbackSent, isNew) ← rememberIn s.fallbackSent address () maxBackoffEntries
    modify fun s ↦ { s with fallbackSent := fallbackSent }
    if isNew then sendFindNode W nodeSocket ⟨nodeSocket.ownId, address.1, address.2⟩
  else pure ()

def handleError (message : Message) (address : Address) (nodeSocket : NodeSocket) :
    Crawl Unit := do
  count fun stats ↦ { stats with errorsReceived := stats.errorsReceived + 1 }
  let s ← get
  match ownedTransaction s (getItem message "t") with
  | some transactionId =>
    let now ← readClock W
    callManager W (.handleError transactionId now)
  | none =>
    if readErrorCode message = some errorMethodUnknown then fallBack W address nodeSocket
    else pure ()

/-! ## Queries -/

/-- Build a reply and send it. -/
def reply (built : Except Failure Message) (address : Address) (nodeSocket : NodeSocket) :
    Crawl Unit := do
  let message ← lift built
  sendMessage W nodeSocket message address

/-- The compact form of the recent nodes of a family, with the key they are sent under. -/
def compactRecent (family : AddressFamily) : Crawl (Bytes × Bytes) := do
  let state ← familyState family
  let compactNodes ← lift (encodeCompactNodes W.net state.recentNodes)
  return (compactNodes, state.nodesKey)

def handlePingQuery (transactionId replyId : Bytes) (address : Address) (nodeSocket : NodeSocket) :
    Crawl Unit := do
  require (replyId.length = nodeIdLength)
  reply W (buildPingResponse transactionId replyId) address nodeSocket

def handleFindNodeQuery (transactionId replyId : Bytes) (address : Address)
    (nodeSocket : NodeSocket) : Crawl Unit := do
  require (replyId.length = nodeIdLength)
  let (compactNodes, key) ← compactRecent W nodeSocket.family
  reply W (buildFindNodeResponse transactionId replyId compactNodes key) address nodeSocket

/-- `read_info_hash`; without one the sender gets an error. -/
def readInfoHash (transactionId : Bytes) (args : Message) (address : Address)
    (nodeSocket : NodeSocket) : Crawl (Option Bytes) := do
  match readNodeId (getItem args "info_hash") with
  | some infoHash => return some infoHash
  | none =>
    reply W (buildErrorResponse transactionId errorProtocol (ascii "invalid info_hash".toList))
      address nodeSocket
    return none

def recordHash (infoHash : Bytes) (source : Source) (peer : Option Address) : Crawl Unit := do
  require (infoHash.length = nodeIdLength)
  let now ← readWallClock W
  callCatalog W (.recordHash infoHash source peer now)
  modify fun s ↦ { s with
    recentHashes := appendBounded recentHashesSize s.recentHashes infoHash }
  let s ← get
  require (s.recentHashes.getLast? = some infoHash)

def tokenFor (address : Address) : Crawl Bytes := do
  let s ← get
  lift (makeToken W.hmacDigest s.tokenSecret address.1)

def handleGetPeersQuery (transactionId replyId : Bytes) (args : Message) (address : Address)
    (nodeSocket : NodeSocket) : Crawl Unit := do
  require (replyId.length = nodeIdLength)
  let found ← readInfoHash W transactionId args address nodeSocket
  match found with
  | none => pure ()
  | some infoHash =>
    recordHash W infoHash .getPeers none
    let token ← tokenFor W address
    let (compactNodes, key) ← compactRecent W nodeSocket.family
    reply W (buildGetPeersResponse transactionId replyId token compactNodes key) address nodeSocket

/-- The peer that an announcement with a valid token names. -/
def announcedPeer (args : Message) (address : Address) (tokenValid : Bool) :
    Crawl (Option Address) := do
  if tokenValid then do
    let port ← lift (readAnnouncedPort args address.2)
    match port with
    | some port =>
      if isRoutableAddress W.net (address.1, port) then do
        count fun stats ↦ { stats with announcedPeers := stats.announcedPeers + 1 }
        return some (address.1, port)
      else return none
    | none => return none
  else return none

def handleAnnouncePeerQuery (transactionId replyId : Bytes) (args : Message) (address : Address)
    (nodeSocket : NodeSocket) : Crawl Unit := do
  require (replyId.length = nodeIdLength)
  let found ← readInfoHash W transactionId args address nodeSocket
  match found with
  | none => pure ()
  | some infoHash =>
    let token ← tokenFor W address
    let tokenValid := isText (getItem args "token") token
    let peer ← announcedPeer W args address tokenValid
    recordHash W infoHash .announcePeer peer
    if tokenValid then reply W (buildPingResponse transactionId replyId) address nodeSocket
    else
      reply W (buildErrorResponse transactionId errorProtocol (ascii "bad token".toList)) address
        nodeSocket

def handleSampleInfohashesQuery (transactionId replyId : Bytes) (address : Address)
    (nodeSocket : NodeSocket) : Crawl Unit := do
  require (replyId.length = nodeIdLength)
  let s ← get
  let recent := s.recentHashes.drop (s.recentHashes.length - samplesPerResponse)
  let (compactNodes, key) ← compactRecent W nodeSocket.family
  reply W (buildSampleInfohashesResponse transactionId replyId ownSampleInterval compactNodes
    s.recentHashes.length recent.flatten key) address nodeSocket

/-- The neighbour of an id, when there is one. -/
def idNear (otherId : Option Bytes) (nodeSocket : NodeSocket) (otherwise : Bytes) : Crawl Bytes :=
  match otherId with
  | some otherId => lift (neighborNodeId otherId nodeSocket.ownId)
  | none => return otherwise

/-- The id under which a query is answered: near the sender, or near the hash that is asked for. -/
def replyIdFor (queryName : Option BencodeValue) (args : Message) (nodeSocket : NodeSocket) :
    Crawl Bytes := do
  let nearSender ← idNear (readNodeId (getItem args "id")) nodeSocket nodeSocket.ownId
  if isText queryName (ascii "get_peers".toList) || isText queryName (ascii "announce_peer".toList)
  then idNear (readNodeId (getItem args "info_hash")) nodeSocket nearSender
  else return nearSender

/-- The dispatch of `handle_query` by the name of the query. -/
def answerQuery (queryName : Option BencodeValue) (transactionId replyId : Bytes) (args : Message)
    (address : Address) (nodeSocket : NodeSocket) : Crawl Unit :=
  if isText queryName (ascii "ping".toList) then
    handlePingQuery W transactionId replyId address nodeSocket
  else if isText queryName (ascii "find_node".toList) then
    handleFindNodeQuery W transactionId replyId address nodeSocket
  else if isText queryName (ascii "get_peers".toList) then
    handleGetPeersQuery W transactionId replyId args address nodeSocket
  else if isText queryName (ascii "announce_peer".toList) then
    handleAnnouncePeerQuery W transactionId replyId args address nodeSocket
  else if isText queryName querySampleInfohashes then
    handleSampleInfohashesQuery W transactionId replyId address nodeSocket
  else
    reply W (buildErrorResponse transactionId errorMethodUnknown (ascii "Method Unknown".toList))
      address nodeSocket

/-- The sender of a query is a node to ask. -/
def addSender (value : Option BencodeValue) (address : Address) : Crawl Unit :=
  match readNodeId value with
  | some senderId => addNode W ⟨senderId, address.1, address.2⟩
  | none => pure ()

def handleQuery (message : Message) (address : Address) (nodeSocket : NodeSocket) :
    Crawl Unit := do
  count fun stats ↦ { stats with queriesReceived := stats.queriesReceived + 1 }
  match getItem message "t", getItem message "a" with
  | some (.bytes transactionId), some (.dict args) =>
    let queryName := getItem message "q"
    let replyId ← replyIdFor queryName args nodeSocket
    answerQuery W queryName transactionId replyId args address nodeSocket
    addSender W (getItem args "id") address
  | _, _ => pure ()

/-! ## Datagrams -/

/-- A message is a response, a query or an error. -/
def handleMessage (message : Message) (address : Address) (nodeSocket : NodeSocket) :
    Crawl Unit :=
  if isText (getItem message "y") (ascii ['r']) then handleResponse W message address
  else if isText (getItem message "y") (ascii ['q']) then handleQuery W message address nodeSocket
  else if isText (getItem message "y") (ascii ['e']) then handleError W message address nodeSocket
  else pure ()

/-- The socket on which an address was heard last. -/
def noteAffinity (address : Address) (nodeSocket : NodeSocket) : Crawl Unit := do
  let s ← get
  let (socketAffinity, _) ← rememberIn s.socketAffinity address nodeSocket socketAffinitySize
  modify fun s ↦ { s with
    socketAffinity := socketAffinity, history := s.history ++ [.received address nodeSocket] }

def handleDatagram (data : Bytes) (address : Address) (nodeSocket : NodeSocket) : Crawl Unit := do
  let s ← get
  require (nodeSocket ∈ s.config.nodeSockets)
  count fun stats ↦ { stats with packetsReceived := stats.packetsReceived + 1 }
  noteAffinity address nodeSocket
  if W.tooDeep data then pure ()
  else
    match decodeBencode data with
    | .ok (.dict message) => handleMessage W message address nodeSocket
    | .ok _ => pure ()
    | .error (.valueError _) => pure ()
    | .error failure => throw (.failure failure)

end DhtCrawler

end DhtScraper
