import DhtScraper.Crawler.Runs
import DhtScraper.Lookup.Memory

/-!
# The memory of the crawler

Between any two calls of the crawler thread every table is within its bound, whatever datagrams came
and whatever the resolver answered.  The catalog, which the crawler shares, is not part of this.
-/

namespace DhtScraper

open Library

theorem length_extendBounded_le {α : Type} {maxlen : ℕ} (values : List α) :
    ∀ queue : List α, queue.length ≤ maxlen → (extendBounded maxlen queue values).length ≤ maxlen := by
  induction values with
  | nil => exact fun _ h ↦ h
  | cons value rest ih => exact fun queue _ ↦ ih _ (length_appendBounded_le _ _ _)

/-- What the queue of a family holds. -/
structure FamilyState.Fits (config : CrawlerConfig) (state : FamilyState) : Prop where
  maxQueue : state.maxQueue = config.maxQueue
  nodeQueue : state.nodeQueue.length ≤ config.maxQueue
  recentNodes : state.recentNodes.length ≤ recentNodesSize

namespace DhtCrawler

variable (W : World) (config : CrawlerConfig)

/-- What the tables of the crawler hold. -/
structure Fits (s : DhtCrawler) : Prop where
  config_eq : s.config = config
  families : ∀ family state, s.families.get? family = some state → state.Fits config
  hosts : ∀ family resolved, s.resolvedBootstrapHosts.get? family = some resolved →
    resolved.keys ⊆ config.bootstrapNodes.map Prod.fst
  recentHashes : s.recentHashes.length ≤ recentHashesSize
  sampleBackoff : s.sampleBackoff.size ≤ maxBackoffEntries
  fallbackSent : s.fallbackSent.size ≤ maxBackoffEntries
  recentlyQueued : s.recentlyQueued.size ≤ maxBackoffEntries
  hintNodes : s.hintNodes.size ≤ hintNodesSize
  socketAffinity : s.socketAffinity.size ≤ socketAffinitySize
  sendWindows : s.sender.sendWindows.size ≤ sendWindowEntries
  keyed : s.lookupManager.Keyed
  lookups : s.lookupManager.Held config.lookupLimits
  consistent : s.lookupManager.ConsistentUnlessReused

variable {W : World} {config : CrawlerConfig}

/-! ## Primitives -/

theorem preserves_require {p : Prop} [Decidable p] : Preserves (Fits config) (require p) := by
  unfold require
  split
  · exact .pure trivial
  · exact .throw

theorem preserves_lift {α : Type} (result : Except Failure α) :
    Preserves (Fits config) (lift result) := by
  cases result with
  | ok value => exact .pure trivial
  | error failure => exact .throw

theorem preserves_ask : Preserves (Fits config) ask :=
  fun _ hs ↦ ⟨trivial, { hs with }⟩

theorem preserves_readClock : Preserves (Fits config) (readClock W) :=
  preserves_ask.bind fun _ _ ↦ .pure trivial

theorem preserves_readWallClock : Preserves (Fits config) (readWallClock W) :=
  preserves_ask.bind fun _ _ ↦ .pure trivial

theorem preserves_urandom (count : ℕ) : Preserves (Fits config) (urandom W count) :=
  preserves_ask.bind fun _ _ ↦ .pure trivial

theorem preserves_count (tally : CrawlerStats → CrawlerStats) :
    Preserves (Fits config) (count tally) := .modify fun _ hs ↦ { hs with }

theorem preserves_record (event : CrawlerEvent) : Preserves (Fits config) (record event) :=
  .modify fun _ hs ↦ { hs with }

theorem yields_familyState (family : AddressFamily) :
    Yields (Fits config) (FamilyState.Fits config) (familyState family) := by
  refine .get fun s hs ↦ ?_
  cases hget : s.families.get? family with
  | some state => exact .pure (hs.families family state hget)
  | none => exact .throw

theorem preserves_saveFamily {state : FamilyState} (hstate : state.Fits config) :
    Preserves (Fits config) (saveFamily state) := by
  refine .modify fun s hs ↦ { hs with families := fun family other hother ↦ ?_ }
  rw [OrderedMap.get?_insert] at hother
  split at hother
  · exact Option.some.inj hother ▸ hstate
  · exact hs.families family other hother

theorem yields_rememberIn {α β : Type} [DecidableEq α] (mapping : OrderedMap α β) (key : α) (value : β)
    (limit : ℕ) : Yields (Fits config) (fun result ↦ result.1.size ≤ limit)
      (rememberIn mapping key value limit) := by
  unfold rememberIn
  exact preserves_require.bind fun _ _ ↦ .pure (size_remember_le _ _ _ _)

/-! ## The catalog -/

theorem preserves_interleave : Preserves (Fits config) (interleave W) :=
  preserves_ask.bind fun _ _ ↦ .modify fun _ hs ↦ { hs with }

theorem preserves_execCatalog (op : CatalogOp) : Preserves (Fits config) (execCatalog op) := by
  refine (Yields.modify fun _ hs ↦ { hs with }).bind fun _ _ ↦ .get fun s _ ↦ ?_
  split
  · exact .throw
  · exact .pure trivial

theorem preserves_callCatalog (op : CatalogOp) : Preserves (Fits config) (callCatalog W op) :=
  preserves_interleave.bind fun _ _ ↦ preserves_execCatalog op

theorem preserves_hashesNeedingPeers (limit : ℕ) :
    Preserves (Fits config) (hashesNeedingPeers W limit) := by
  refine preserves_readWallClock.bind fun now _ ↦ preserves_interleave.bind fun _ _ ↦ ?_
  refine .get fun s _ ↦ (preserves_execCatalog _).bind fun _ _ ↦ ?_
  exact preserves_require.bind fun _ _ ↦ .pure trivial

theorem preserves_fetchableCount : Preserves (Fits config) (fetchableCount W) :=
  preserves_interleave.bind fun _ _ ↦ .get fun _ _ ↦ .pure trivial

/-! ## Sending -/

theorem preserves_pickNodeSocket (family : AddressFamily) :
    Preserves (Fits config) (pickNodeSocket family) := by
  refine .get fun s hs ↦ ?_
  cases hget : s.families.get? family with
  | none => exact .pure trivial
  | some state =>
    have hstate := hs.families family state hget
    have hnext : { state with socketCycle := state.socketCycle + 1 }.Fits config :=
      ⟨hstate.maxQueue, hstate.nodeQueue, hstate.recentNodes⟩
    exact (preserves_saveFamily hnext).bind fun _ _ ↦ preserves_require.bind fun _ _ ↦ .pure trivial

theorem size_sendWindows_sendMessage {s : Sender} (h : s.sendWindows.size ≤ sendWindowEntries)
    (call : SendCall) : (s.sendMessage call).1.sendWindows.size ≤ sendWindowEntries := by
  have hallowed : (s.allowSend call.address.1 call.now).1.sendWindows.size ≤ sendWindowEntries := by
    unfold Sender.allowSend
    split
    · exact size_remember_le _ _ _ _
    next window hget =>
      split
      · exact size_remember_le _ _ _ _
      · split
        · exact h
        · have hkeys := congrArg List.length (OrderedMap.keys_insert_of_contains
            (m := s.sendWindows) (k := call.address.1) (by rw [OrderedMap.contains, hget]; rfl)
            (window.1, window.2 + 1))
          rw [OrderedMap.keys, OrderedMap.keys, List.length_map, List.length_map] at hkeys
          exact hkeys.trans_le h
  unfold Sender.sendMessage
  dsimp only
  split
  · exact hallowed
  · split <;> exact hallowed

theorem preserves_sendMessage (nodeSocket : NodeSocket) (message : Message) (address : Address) :
    Preserves (Fits config) (sendMessage W nodeSocket message address) := by
  refine .get fun _ _ ↦ preserves_require.bind fun _ _ ↦ preserves_readClock.bind fun now _ ↦ ?_
  refine preserves_ask.bind fun n _ ↦ .modify fun s hs ↦ { hs with sendWindows := ?_ }
  exact size_sendWindows_sendMessage hs.sendWindows _

theorem preserves_sendCrawlTo (build : Bytes → Bytes → Bytes → Except Failure Message)
    (nodeSocket : NodeSocket) (node : Node) :
    Preserves (Fits config) (sendCrawlTo W build nodeSocket node) := by
  refine preserves_require.bind fun _ _ ↦ (preserves_urandom _).bind fun _ _ ↦ ?_
  refine (preserves_lift _).bind fun _ _ ↦ (preserves_urandom _).bind fun _ _ ↦ ?_
  exact (preserves_lift _).bind fun _ _ ↦ preserves_sendMessage _ _ _

theorem preserves_sendFindNode (nodeSocket : NodeSocket) (node : Node) :
    Preserves (Fits config) (sendFindNode W nodeSocket node) :=
  (preserves_sendCrawlTo _ _ _).bind fun _ _ ↦ preserves_count _

theorem preserves_sendCrawlQuery (node : Node) : Preserves (Fits config) (sendCrawlQuery W node) := by
  refine (preserves_pickNodeSocket _).bind fun picked _ ↦ ?_
  cases picked with
  | none => exact .pure trivial
  | some nodeSocket =>
    have hbacks : Preserves (Fits config) (backsOff W node.address) := by
      refine .get fun s _ ↦ ?_
      cases s.sampleBackoff.get? node.address with
      | none => exact .pure trivial
      | some backoffUntil => exact preserves_readClock.bind fun _ _ ↦ .pure trivial
    refine hbacks.bind fun backing _ ↦ ?_
    split
    · exact preserves_sendFindNode _ _
    · exact (preserves_sendCrawlTo _ _ _).bind fun _ _ ↦ preserves_count _

theorem preserves_sendLookupQuery (transactionId : Bytes) (node : Node) (infoHash : Bytes) :
    Preserves (Fits config) (sendLookupQuery W transactionId node infoHash) := by
  have hsocket : Preserves (Fits config) (lookupSocket node) := by
    refine .get fun s _ ↦ ?_
    cases s.socketAffinity.get? node.address with
    | some nodeSocket => exact .pure trivial
    | none => exact preserves_pickNodeSocket _
  refine preserves_require.bind fun _ _ ↦ hsocket.bind fun picked _ ↦ ?_
  cases picked with
  | none => exact .pure trivial
  | some nodeSocket =>
    refine (preserves_lift _).bind fun _ _ ↦ (preserves_lift _).bind fun _ _ ↦ ?_
    exact preserves_sendMessage _ _ _

/-! ## The lookup manager -/

theorem preserves_callback (event : LookupEvent) : Preserves (Fits config) (callback W event) := by
  cases event with
  | sent => exact preserves_sendLookupQuery _ _ _
  | foundPeers => exact preserves_callCatalog _
  | finished => exact preserves_readWallClock.bind fun _ _ ↦ preserves_callCatalog _
  | _ => exact .pure trivial

/-- A call of the manager keeps its tables. -/
theorem Fits.apply {s : DhtCrawler} (hs : Fits config s) (net : Inet) (call : LookupCall) :
    Fits config { s with lookupManager := s.lookupManager.apply net call } := by
  have hoffer := s.lookupManager.callOffer_any net call
  have hheld := (LookupManager.held_rules net config.lookupLimits).apply hs.keyed hs.lookups call hoffer
  have htables := (LookupManager.consistent_rules net).apply hs.keyed hs.consistent call hoffer
  exact { hs with keyed := hheld.1, lookups := hheld.2, consistent := htables.2 }

theorem preserves_callManager (call : LookupCall) : Preserves (Fits config) (callManager W call) := by
  refine .get fun s hs ↦ (Yields.set (hs.apply W.net call)).bind fun _ _ ↦ ?_
  refine (Yields.forM _ fun event _ ↦ preserves_callback event).bind fun _ _ ↦ ?_
  split
  · exact .throw
  · exact .pure trivial

/-! ## Handling datagrams -/

theorem preserves_addNode (node : Node) : Preserves (Fits config) (addNode W node) := by
  refine .get fun s hs ↦ ?_
  cases hget : s.families.get? (addressFamily node.ip) with
  | none => exact .pure trivial
  | some state =>
    have hstate := hs.families _ state hget
    dsimp only
    split
    · refine (yields_rememberIn _ _ _ _).bind fun result hresult ↦ ?_
      refine (Yields.modify fun s hs ↦ { hs with recentlyQueued := hresult }).bind fun _ _ ↦ ?_
      split
      · have hnext : { state with
            nodeQueue := appendBounded state.maxQueue state.nodeQueue node
            recentNodes := appendBounded recentNodesSize state.recentNodes node }.Fits config := by
          refine ⟨hstate.maxQueue, ?_, length_appendBounded_le _ _ _⟩
          exact (length_appendBounded_le _ _ _).trans_eq hstate.maxQueue
        exact (preserves_saveFamily hnext).bind fun _ _ ↦ preserves_require
      · exact .pure trivial
    · exact .pure trivial

theorem preserves_addNodes (decoder : Bytes → Except Failure (List Node))
    (compactNodes : Option BencodeValue) :
    Preserves (Fits config) (addNodes W decoder compactNodes) := by
  unfold addNodes
  split
  · exact (preserves_lift _).bind fun nodes _ ↦ .forM nodes fun node _ ↦ preserves_addNode node
  · exact .pure trivial

theorem preserves_foreignSender (value : Option BencodeValue) (address : Address) :
    Preserves (Fits config) (foreignSender W value address) := by
  refine .get fun s _ ↦ ?_
  cases readNodeId value with
  | none => exact .pure trivial
  | some nodeId =>
    dsimp only
    split
    · refine Yields.bind (Q := fun _ ↦ True) ?_ fun _ _ ↦ .pure trivial
      refine (yields_familyState _).bind fun state hstate ↦ preserves_saveFamily ?_
      exact ⟨hstate.maxQueue, hstate.nodeQueue, length_appendBounded_le _ _ _⟩
    · exact .pure trivial

theorem preserves_addHints (sender : Option Node) (infoHashes : List Bytes) :
    Preserves (Fits config) (addHints sender infoHashes) := by
  cases sender with
  | none => exact .pure trivial
  | some sender =>
    refine .forM infoHashes fun infoHash _ ↦ .get fun s _ ↦ ?_
    refine (yields_rememberIn _ _ _ _).bind fun result hresult ↦ ?_
    exact .modify fun s hs ↦ { hs with hintNodes := hresult }

theorem preserves_backOff (address : Address) (seconds : ℤ) :
    Preserves (Fits config) (backOff W address seconds) := by
  refine preserves_readClock.bind fun now _ ↦ .get fun s _ ↦ ?_
  refine (yields_rememberIn _ _ _ _).bind fun result hresult ↦ ?_
  exact .modify fun s hs ↦ { hs with sampleBackoff := hresult }

theorem preserves_handleSamples (response : Message) (address : Address) (sender : Option Node) :
    Preserves (Fits config) (handleSamples W response address sender) := by
  refine (preserves_lift _).bind fun samples _ ↦ preserves_readWallClock.bind fun now _ ↦ ?_
  refine (preserves_callCatalog _).bind fun _ _ ↦ ?_
  have hrecent : Preserves (Fits config) (modify fun s : DhtCrawler ↦ { s with
      recentHashes := extendBounded recentHashesSize s.recentHashes samples } : Crawl Unit) :=
    .modify fun s hs ↦
      { hs with recentHashes := length_extendBounded_le samples _ hs.recentHashes }
  refine hrecent.bind fun _ _ ↦ (preserves_addHints _ _).bind fun _ _ ↦ ?_
  refine (preserves_count _).bind fun _ _ ↦ (preserves_backOff _ _).bind fun _ _ ↦ ?_
  exact (preserves_count _).bind fun _ _ ↦ .get fun _ _ ↦ preserves_require

theorem preserves_handleResponse (message : Message) (address : Address) :
    Preserves (Fits config) (handleResponse W message address) := by
  refine (preserves_count _).bind fun _ _ ↦ .get fun s _ ↦ ?_
  cases ownedTransaction s (getItem message "t") with
  | some transactionId =>
    exact preserves_readClock.bind fun now _ ↦ preserves_callManager _
  | none =>
    dsimp only
    split
    next fields _ =>
      refine (preserves_foreignSender _ _).bind fun sender _ ↦ ?_
      refine (preserves_addNodes _ _).bind fun _ _ ↦ (preserves_addNodes _ _).bind fun _ _ ↦ ?_
      split
      · exact preserves_handleSamples _ _ _
      · exact .pure trivial
    next => exact .pure trivial

theorem preserves_fallBack (address : Address) (nodeSocket : NodeSocket) :
    Preserves (Fits config) (fallBack W address nodeSocket) := by
  refine (preserves_backOff _ _).bind fun _ _ ↦ (yields_familyState _).bind fun state _ ↦ ?_
  split
  · refine .get fun s _ ↦ (yields_rememberIn _ _ _ _).bind fun result hresult ↦ ?_
    refine (Yields.modify fun s hs ↦ { hs with fallbackSent := hresult }).bind fun _ _ ↦ ?_
    split
    · exact preserves_sendFindNode _ _
    · exact .pure trivial
  · exact .pure trivial

theorem preserves_handleError (message : Message)
    (address : Address) (nodeSocket : NodeSocket) :
    Preserves (Fits config) (handleError W message address nodeSocket) := by
  refine (preserves_count _).bind fun _ _ ↦ .get fun s _ ↦ ?_
  cases ownedTransaction s (getItem message "t") with
  | some transactionId =>
    exact preserves_readClock.bind fun now _ ↦ preserves_callManager _
  | none =>
    dsimp only
    split
    · exact preserves_fallBack _ _
    · exact .pure trivial

/-! ## Answering queries -/

theorem preserves_reply (built : Except Failure Message) (address : Address) (nodeSocket : NodeSocket) :
    Preserves (Fits config) (reply W built address nodeSocket) :=
  (preserves_lift _).bind fun _ _ ↦ preserves_sendMessage _ _ _

theorem preserves_compactRecent (family : AddressFamily) :
    Preserves (Fits config) (compactRecent W family) :=
  (yields_familyState _).bind fun _ _ ↦ (preserves_lift _).bind fun _ _ ↦ .pure trivial

theorem preserves_readInfoHash (transactionId : Bytes) (args : Message) (address : Address)
    (nodeSocket : NodeSocket) :
    Preserves (Fits config) (readInfoHash W transactionId args address nodeSocket) := by
  unfold readInfoHash
  split
  · exact .pure trivial
  · exact (preserves_reply _ _ _).bind fun _ _ ↦ .pure trivial

theorem preserves_recordHash (infoHash : Bytes) (source : Source) (peer : Option Address) :
    Preserves (Fits config) (recordHash W infoHash source peer) := by
  refine preserves_require.bind fun _ _ ↦ preserves_readWallClock.bind fun now _ ↦ ?_
  have hrecent : Preserves (Fits config) (modify fun s : DhtCrawler ↦ { s with
      recentHashes := appendBounded recentHashesSize s.recentHashes infoHash } : Crawl Unit) :=
    .modify fun s hs ↦ { hs with recentHashes := length_appendBounded_le _ _ _ }
  refine (preserves_callCatalog _).bind fun _ _ ↦ hrecent.bind fun _ _ ↦ ?_
  exact .get fun _ _ ↦ preserves_require

theorem preserves_tokenFor (address : Address) : Preserves (Fits config) (tokenFor W address) :=
  .get fun _ _ ↦ preserves_lift _

theorem preserves_handleGetPeersQuery (transactionId replyId : Bytes) (args : Message)
    (address : Address) (nodeSocket : NodeSocket) :
    Preserves (Fits config)
      (handleGetPeersQuery W transactionId replyId args address nodeSocket) := by
  refine preserves_require.bind fun _ _ ↦ (preserves_readInfoHash _ _ _ _).bind fun found _ ↦ ?_
  cases found with
  | none => exact .pure trivial
  | some infoHash =>
    refine (preserves_recordHash _ _ _).bind fun _ _ ↦ (preserves_tokenFor _).bind fun _ _ ↦ ?_
    exact (preserves_compactRecent _).bind fun _ _ ↦ preserves_reply _ _ _

theorem preserves_announcedPeer (args : Message) (address : Address) (tokenValid : Bool) :
    Preserves (Fits config) (announcedPeer W args address tokenValid) := by
  unfold announcedPeer
  split
  · refine (preserves_lift _).bind fun port _ ↦ ?_
    cases port with
    | none => exact .pure trivial
    | some port =>
      dsimp only
      split
      · exact (preserves_count _).bind fun _ _ ↦ .pure trivial
      · exact .pure trivial
  · exact .pure trivial

theorem preserves_handleAnnouncePeerQuery (transactionId replyId : Bytes) (args : Message)
    (address : Address) (nodeSocket : NodeSocket) :
    Preserves (Fits config)
      (handleAnnouncePeerQuery W transactionId replyId args address nodeSocket) := by
  refine preserves_require.bind fun _ _ ↦ (preserves_readInfoHash _ _ _ _).bind fun found _ ↦ ?_
  cases found with
  | none => exact .pure trivial
  | some infoHash =>
    refine (preserves_tokenFor _).bind fun token _ ↦ ?_
    refine (preserves_announcedPeer _ _ _).bind fun _ _ ↦ (preserves_recordHash _ _ _).bind fun _ _ ↦ ?_
    split <;> exact preserves_reply _ _ _

theorem preserves_idNear (otherId : Option Bytes) (nodeSocket : NodeSocket) (otherwise : Bytes) :
    Preserves (Fits config) (idNear otherId nodeSocket otherwise) := by
  cases otherId with
  | none => exact .pure trivial
  | some otherId => exact preserves_lift _

theorem preserves_answerQuery (queryName : Option BencodeValue) (transactionId replyId : Bytes)
    (args : Message) (address : Address) (nodeSocket : NodeSocket) :
    Preserves (Fits config)
      (answerQuery W queryName transactionId replyId args address nodeSocket) := by
  unfold answerQuery
  split
  · exact preserves_require.bind fun _ _ ↦ preserves_reply _ _ _
  split
  · refine preserves_require.bind fun _ _ ↦ (preserves_compactRecent _).bind fun _ _ ↦ ?_
    exact preserves_reply _ _ _
  split
  · exact preserves_handleGetPeersQuery _ _ _ _ _
  split
  · exact preserves_handleAnnouncePeerQuery _ _ _ _ _
  split
  · refine preserves_require.bind fun _ _ ↦ .get fun s _ ↦ ?_
    exact (preserves_compactRecent _).bind fun _ _ ↦ preserves_reply _ _ _
  · exact preserves_reply _ _ _

theorem preserves_handleQuery (message : Message) (address : Address) (nodeSocket : NodeSocket) :
    Preserves (Fits config) (handleQuery W message address nodeSocket) := by
  refine (preserves_count _).bind fun _ _ ↦ ?_
  split
  next transactionId args _ _ =>
    have hreplyId : Preserves (Fits config) (replyIdFor (getItem message "q") args nodeSocket) := by
      refine (preserves_idNear _ _ _).bind fun nearSender _ ↦ ?_
      split
      · exact preserves_idNear _ _ _
      · exact .pure trivial
    refine hreplyId.bind fun _ _ ↦ (preserves_answerQuery _ _ _ _ _ _).bind fun _ _ ↦ ?_
    unfold addSender
    split
    · exact preserves_addNode _
    · exact .pure trivial
  next => exact .pure trivial

/-- Whatever a datagram holds, the tables stay within their bounds. -/
theorem preserves_handleDatagram (data : Bytes)
    (address : Address) (nodeSocket : NodeSocket) :
    Preserves (Fits config) (handleDatagram W data address nodeSocket) := by
  have hmessage (message : Message) :
      Preserves (Fits config) (handleMessage W message address nodeSocket) := by
    unfold handleMessage
    split
    · exact preserves_handleResponse _ _
    split
    · exact preserves_handleQuery _ _ _
    split
    · exact preserves_handleError _ _ _
    · exact .pure trivial
  have hnote : Preserves (Fits config) (noteAffinity address nodeSocket) := by
    refine .get fun s _ ↦ (yields_rememberIn _ _ _ _).bind fun result hresult ↦ ?_
    exact .modify fun s hs ↦ { hs with socketAffinity := hresult }
  refine .get fun s _ ↦ preserves_require.bind fun _ _ ↦ (preserves_count _).bind fun _ _ ↦ ?_
  refine hnote.bind fun _ _ ↦ ?_
  split
  · exact .pure trivial
  · split
    · exact hmessage _
    · exact .pure trivial
    · exact .pure trivial
    · exact .throw

/-! ## Bootstrap and crawling -/

theorem yields_resolvedHosts (family : AddressFamily) :
    Yields (Fits config) (fun resolved ↦ resolved.keys ⊆ config.bootstrapNodes.map Prod.fst)
      (resolvedHosts family) := by
  refine .get fun s hs ↦ ?_
  cases hget : s.resolvedBootstrapHosts.get? family with
  | none => exact .throw
  | some resolved => exact .pure (hs.hosts family resolved hget)

theorem preserves_saveResolved (family : AddressFamily) {host : Text}
    (hhost : host ∈ config.bootstrapNodes.map Prod.fst) (ips : List Text) :
    Preserves (Fits config) (saveResolved family host ips) := by
  refine (yields_resolvedHosts family).bind fun resolved hresolved ↦ ?_
  refine .modify fun s hs ↦ { hs with hosts := fun other table htable ↦ ?_ }
  rw [OrderedMap.get?_insert] at htable
  split at htable
  · intro k hk
    rw [← Option.some.inj htable, ← OrderedMap.get?_isSome_iff, OrderedMap.get?_insert] at hk
    split at hk
    next hnew => exact hnew ▸ hhost
    next => exact hresolved (OrderedMap.get?_isSome_iff.mp hk)
  · exact hs.hosts other table htable

theorem preserves_bootstrapHost (state : FamilyState) (retryFailed : Bool) {entry : Text × ℤ}
    (hentry : entry ∈ config.bootstrapNodes) :
    Preserves (Fits config) (bootstrapHost W state retryFailed entry) := by
  have hhost : entry.1 ∈ config.bootstrapNodes.map Prod.fst := List.mem_map_of_mem hentry
  have hresolve : Preserves (Fits config)
      (resolveIfNeeded W state.family retryFailed entry.1 entry.2) := by
    refine (yields_resolvedHosts _).bind fun resolved _ ↦ ?_
    split
    · refine preserves_ask.bind fun n _ ↦ ?_
      split
      · exact (preserves_record _).bind fun _ _ ↦ preserves_saveResolved _ hhost _
      · exact preserves_saveResolved _ hhost _
    · exact .pure trivial
  refine hresolve.bind fun _ _ ↦ (yields_resolvedHosts _).bind fun resolved _ ↦ ?_
  split
  next ips _ =>
    refine .forM ips fun ip _ ↦ .forM state.nodeSockets fun nodeSocket _ ↦ ?_
    exact preserves_sendFindNode _ _
  next => exact .throw

theorem preserves_bootstrap (families : List AddressFamily) :
    Preserves (Fits config) (bootstrap W families) := by
  refine .forM families fun family _ ↦ (yields_familyState _).bind fun state hstate ↦ ?_
  refine preserves_readClock.bind fun now _ ↦ ?_
  have hnext : { state with lastBootstrapTime := some now }.Fits config :=
    ⟨hstate.maxQueue, hstate.nodeQueue, hstate.recentNodes⟩
  refine (preserves_saveFamily hnext).bind fun _ _ ↦ (yields_resolvedHosts _).bind fun _ _ ↦ ?_
  refine .get fun s hs ↦ .forM _ fun entry hentry ↦ ?_
  exact preserves_bootstrapHost _ _ (hs.config_eq ▸ hentry)

theorem preserves_crawlQueue (family : AddressFamily) (limit : ℕ) :
    Preserves (Fits config) (crawlQueue W family limit) := by
  induction limit with
  | zero => exact .pure trivial
  | succ limit ih =>
    refine (yields_familyState _).bind fun state hstate ↦ ?_
    have hqueue := hstate.nodeQueue
    cases hnodes : state.nodeQueue with
    | nil => exact .pure trivial
    | cons node rest =>
      rw [hnodes, List.length_cons] at hqueue
      have hnext : { state with nodeQueue := rest }.Fits config :=
        ⟨hstate.maxQueue, (Nat.le_succ _).trans hqueue, hstate.recentNodes⟩
      refine (preserves_saveFamily hnext).bind fun _ _ ↦ ?_
      refine (preserves_sendCrawlQuery _).bind fun _ _ ↦ ih.bind fun _ _ ↦ .pure trivial

theorem preserves_crawlFamilies (families : List AddressFamily) :
    Preserves (Fits config) (crawlFamilies W families) := by
  induction families with
  | nil => exact .pure trivial
  | cons family rest ih =>
    have hfamily : Preserves (Fits config) (crawlFamily W family) :=
      .get fun s _ ↦ (yields_familyState _).bind fun _ _ ↦ preserves_crawlQueue _ _
    exact hfamily.bind fun _ _ ↦ ih.bind fun _ _ ↦ .pure trivial

theorem preserves_crawlStep : Preserves (Fits config) (crawlStep W) := by
  have hfeed (now : ℚ) : Preserves (Fits config) (feedStarving W now) :=
    .get fun s _ ↦ preserves_bootstrap _
  refine preserves_readClock.bind fun now _ ↦ (hfeed now).bind fun _ _ ↦ .get fun s _ ↦ ?_
  refine (preserves_crawlFamilies _).bind fun _ _ ↦ ?_
  exact preserves_require.bind fun _ _ ↦ .pure trivial

/-! ## Starting lookups -/

theorem preserves_seedsFor (infoHash : Bytes) (hint : Option Node) :
    Preserves (Fits config) (seedsFor infoHash hint) := by
  cases hint with
  | some node => exact (yields_familyState _).bind fun _ _ ↦ .pure trivial
  | none =>
    refine preserves_require.bind fun _ _ ↦ .get fun s _ ↦ ?_
    exact preserves_require.bind fun _ _ ↦ preserves_require.bind fun _ _ ↦ .pure trivial

theorem preserves_startEach (now : ℚ) (infoHashes : List Bytes) :
    Preserves (Fits config) (startEach W now infoHashes) := by
  induction infoHashes with
  | nil => exact .pure trivial
  | cons infoHash rest ih =>
    have hone : Preserves (Fits config) (startOne W now infoHash) := by
      refine .get fun s _ ↦ (preserves_seedsFor _ _).bind fun seeds _ ↦ .get fun s _ ↦ ?_
      refine (preserves_callManager _).bind fun _ _ ↦ ?_
      split
      · exact .pure trivial
      · exact (preserves_callCatalog _).bind fun _ _ ↦ .pure trivial
    exact hone.bind fun _ _ ↦ ih.bind fun _ _ ↦ .pure trivial

theorem preserves_startPendingLookups (now : ℚ) :
    Preserves (Fits config) (startPendingLookups W now) := by
  refine preserves_require.bind fun _ _ ↦ preserves_fetchableCount.bind fun fetchable _ ↦ ?_
  refine .get fun s _ ↦ preserves_require.bind fun _ _ ↦ ?_
  refine (preserves_callManager _).bind fun _ _ ↦ .get fun s _ ↦ ?_
  dsimp only
  split
  · exact .pure trivial
  · refine (preserves_hashesNeedingPeers _).bind fun infoHashes _ ↦ ?_
    refine (preserves_startEach _ _).bind fun _ _ ↦ (preserves_count _).bind fun _ _ ↦ ?_
    exact preserves_require.bind fun _ _ ↦ .pure trivial

/-! ## Runs -/

theorem preserves_perform (call : CrawlerCall) :
    Preserves (Fits config) (perform W call) := by
  cases call with
  | bootstrap =>
    refine .get fun s _ ↦ (preserves_bootstrap _).bind fun _ _ ↦ ?_
    exact .get fun _ _ ↦ preserves_require
  | crawlStep => exact preserves_crawlStep.bind fun _ _ ↦ .pure trivial
  | tick now => exact preserves_callManager _
  | startPendingLookups now =>
    exact (preserves_startPendingLookups now).bind fun _ _ ↦ .pure trivial
  | iteration =>
    refine preserves_readClock.bind fun now _ ↦ preserves_crawlStep.bind fun _ _ ↦ ?_
    refine (preserves_callManager _).bind fun _ _ ↦ ?_
    exact (preserves_startPendingLookups now).bind fun _ _ ↦ .pure trivial
  | datagram data address nodeSocket => exact preserves_handleDatagram _ _ _
  | abortAll => exact preserves_callManager _
  | others ops => exact .modify fun _ hs ↦ { hs with }

theorem fits_new (W : World) (config : CrawlerConfig) (session : Session) :
    Fits config (new W config session) where
  config_eq := rfl
  families := by
    intro family state hget
    rw [new, CrawlerConfig.get?_families] at hget
    unfold CrawlerConfig.familyState at hget
    dsimp only at hget
    split at hget
    · rw [← Option.some.inj hget]
      exact ⟨rfl, Nat.zero_le _, Nat.zero_le _⟩
    · cases hget
  hosts := by
    intro family resolved hget
    have hempty (keys : List AddressFamily) : ∀ table : OrderedMap AddressFamily
        (OrderedMap Text (List Text)), (∀ k v, table.get? k = some v → v = .empty) → ∀ k v,
        (keys.foldl (fun hosts family ↦ hosts.insert family .empty) table).get? k = some v →
          v = .empty := by
      induction keys with
      | nil => exact fun _ h ↦ h
      | cons key rest ih =>
        refine fun table h ↦ ih _ fun k v hv ↦ ?_
        rw [OrderedMap.get?_insert] at hv
        split at hv
        · exact (Option.some.inj hv).symm
        · exact h k v hv
    rw [hempty _ .empty (fun _ _ hnone ↦ by cases hnone) family resolved hget]
    exact List.nil_subset _
  recentHashes := Nat.zero_le _
  sampleBackoff := Nat.zero_le _
  fallbackSent := Nat.zero_le _
  recentlyQueued := Nat.zero_le _
  hintNodes := Nat.zero_le _
  socketAffinity := Nat.zero_le _
  sendWindows := Nat.zero_le _
  keyed := LookupManager.keyed_new _ _ _
  lookups := LookupManager.held_new _ _ _
  consistent := LookupManager.consistentUnlessReused_new _ _ _

theorem run_fits {session : Session} {calls : List CrawlerCall} {s : DhtCrawler}
    (hrun : (crawlerMachine W).run (new W config session) calls = some s) : Fits config s := by
  refine (crawlerMachine W).run_invariant (fun s call s' hs hstep ↦ ?_) (fits_new W config session) hrun
  exact ((preserves_perform call s hs).ok (perform_of_step hstep)).2

/-- The bounds of a crawler with this configuration.  A lookup with a hint asks one node even when
`max_queries` is zero. -/
structure WithinBounds (config : CrawlerConfig) (s : DhtCrawler) : Prop where
  nodeQueue : ∀ family state, s.families.get? family = some state →
    state.nodeQueue.length ≤ config.maxQueue ∧ state.recentNodes.length ≤ recentNodesSize
  recentHashes : s.recentHashes.length ≤ recentHashesSize
  sampleBackoff : s.sampleBackoff.size ≤ maxBackoffEntries
  fallbackSent : s.fallbackSent.size ≤ maxBackoffEntries
  recentlyQueued : s.recentlyQueued.size ≤ maxBackoffEntries
  hintNodes : s.hintNodes.size ≤ hintNodesSize
  socketAffinity : s.socketAffinity.size ≤ socketAffinitySize
  sendWindows : s.sender.sendWindows.size ≤ sendWindowEntries
  resolvedHosts : ∀ family resolved, s.resolvedBootstrapHosts.get? family = some resolved →
    resolved.size ≤ config.bootstrapNodes.length
  active : s.lookupManager.active.size ≤ config.lookupLimits.maxActive
  lookups : ∀ infoHash lookup, s.lookupManager.active.get? infoHash = some lookup →
    lookup.shortlist.size ≤ config.lookupLimits.shortlistSize ∧
      lookup.queried.card ≤ max 1 config.lookupLimits.maxQueries ∧
        lookup.pending.size ≤ config.lookupLimits.alpha ∧
          lookup.foundPeers.size ≤ config.lookupLimits.maxPeers
  transactions : s.lookupManager.transactions.size ≤
    config.lookupLimits.maxActive * config.lookupLimits.alpha
  inFlight : NoReuse s.lookupManager.log → s.lookupManager.inFlight.size ≤
    config.lookupLimits.maxActive * config.lookupLimits.alpha

/-- Whatever datagrams come from whomever, whatever the resolver, the clock and the random bytes are
and whatever the other threads do: between two calls every table of the crawler and of its lookup
manager is within its bound. -/
theorem memory_bounded {session : Session} {calls : List CrawlerCall} {s : DhtCrawler}
    (hrun : (crawlerMachine W).run (new W config session) calls = some s) : WithinBounds config s := by
  have hfits := run_fits hrun
  constructor
  case nodeQueue =>
    intro family state hget
    have hstate := hfits.families family state hget
    exact ⟨hstate.nodeQueue, hstate.recentNodes⟩
  case recentHashes => exact hfits.recentHashes
  case sampleBackoff => exact hfits.sampleBackoff
  case fallbackSent => exact hfits.fallbackSent
  case recentlyQueued => exact hfits.recentlyQueued
  case hintNodes => exact hfits.hintNodes
  case socketAffinity => exact hfits.socketAffinity
  case sendWindows => exact hfits.sendWindows
  case resolvedHosts =>
    intro family resolved hget
    calc resolved.size
        = resolved.keys.length := (List.length_map _).symm
      _ ≤ (config.bootstrapNodes.map Prod.fst).length :=
        (resolved.nodup.subperm (hfits.hosts family resolved hget)).length_le
      _ = config.bootstrapNodes.length := List.length_map _
  case active => exact hfits.lookups.active
  case lookups =>
    intro infoHash lookup hget
    have hheld := hfits.lookups.lookups infoHash lookup hget
    exact ⟨hheld.shortlist, hheld.queried.trans hheld.sent, hheld.pending, hheld.found⟩
  case transactions => exact hfits.lookups.size_transactions
  case inFlight => exact fun hreuse ↦ hfits.lookups.size_inFlight (hfits.consistent hreuse)

theorem memory_bounded_sample :
    ∃ s, (crawlerMachine sampleWorld).run sampleCrawler sampleCalls = some s ∧
      s.lookupManager.transactions.size = 1 ∧ WithinBounds sampleCrawlerConfig s := by
  have heval : ((crawlerMachine sampleWorld).run sampleCrawler sampleCalls).any fun s ↦
      s.lookupManager.transactions.size = 1 := by
    decide +kernel
  rw [Option.any_eq_true] at heval
  obtain ⟨s, hrun, hsize⟩ := heval
  exact ⟨s, hrun, of_decide_eq_true hsize, memory_bounded hrun⟩

end DhtCrawler

end DhtScraper
