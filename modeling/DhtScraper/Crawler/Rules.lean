import DhtScraper.Crawler.Invariant

/-!
# What a property of the crawler has to survive

A method of the crawler asks its environment, sends messages, calls the catalog and calls the lookup
manager; everything else it does is bookkeeping that `Configured` describes.  `ActionRules`,
`CallbackRules`, `RecordRules` and `HandlerRules` list what a property of the core has to survive.
The property may depend on the events that the manager still has to deliver and on the claimed
hashes whose lookup has yet to be started.  `E` says whether a method may raise.
-/

namespace DhtScraper

open Library

/-- The operation reports what was seen on the network. -/
def CatalogOp.Records (W : World) : CatalogOp → Prop
  | .recordHash infoHash _ peer now => infoHash.length = nodeIdLength ∧
      (∀ address ∈ peer, isRoutableAddress W.net address) ∧ ∃ n, now = W.wallClock n
  | .recordHashes infoHashes _ now =>
      (∀ infoHash ∈ infoHashes, infoHash.length = nodeIdLength) ∧ ∃ n, now = W.wallClock n
  | _ => False

/-- The event is a callback of the catalog. -/
def LookupEvent.isReport : LookupEvent → Bool
  | .foundPeers .. | .finished .. => true
  | _ => false

/-- A call that answers a message about the transaction, at the time `now`. -/
def LookupCall.Answers (transactionId : Bytes) (now : ℚ) : LookupCall → Prop
  | .handleResponse asked _ _ time => asked = transactionId ∧ time = now
  | .handleError asked time => asked = transactionId ∧ time = now
  | _ => False

namespace CrawlerCore

/-- After an operation of the catalog. -/
def executed (c : CrawlerCore) (op : CatalogOp) : CrawlerCore :=
  { c with session := c.session.exec op, history := c.history ++ [.called op] }

/-- The events that a call of the manager adds. -/
def newEvents (net : Inet) (m : LookupManager) (call : LookupCall) : List LookupEvent :=
  (m.apply net call).log.drop m.log.length

end CrawlerCore

/-- What holds after a call that may raise: `P`, or the error is allowed. -/
def Called (E : Prop) (raised : Bool) (P : Prop) : Prop :=
  (raised = true → E) ∧ (raised = false → P)

/-- A call that returns raises no error. -/
theorem Called.returns {E E' : Prop} {raised : Bool} {P : Prop} (h : Called E raised P)
    (hreturned : raised = false) : Called E' raised P :=
  ⟨fun hraised ↦ absurd (hreturned.symm.trans hraised) Bool.false_ne_true, h.2⟩

theorem Called.and {E : Prop} {raised : Bool} {P P' : Prop} (h : Called E raised P)
    (h' : Called E raised P') : Called E raised (P ∧ P') :=
  ⟨h.1, fun hreturned ↦ ⟨h.2 hreturned, h'.2 hreturned⟩⟩

/-- The length of a compact node of the family. -/
def AddressFamily.nodeLength : AddressFamily → ℕ
  | .inet => compactNodeLength
  | .inet6 => compactNode6Length

/-- The node can be put into a compact list of the family. -/
def PackedNode (net : Inet) (family : AddressFamily) (node : Node) : Prop :=
  ∃ data : Bytes, encodeCompactNode net node = .ok data ∧ data.length = family.nodeLength

namespace DhtCrawler

variable (W : World) (config : CrawlerConfig)

/-- What a property of the core has to survive when the crawler asks, waits and sends. -/
structure ActionRules (I : CrawlerCore → Prop) : Prop where
  asked : ∀ c, I c → I { c with readings := c.readings + 1 }
  interfered : ∀ c ops, I c → I { c with session := c.session.interfere ops }
  sent : ∀ c (call : SendCall), call.nodeSocket ∈ config.nodeSockets →
    (isQuery call.message → config.Targets W.net c.history call.nodeSocket call.address) → I c →
      I { c with sender := (c.sender.sendMessage call).1 }

theorem ActionRules.and {W : World} {config : CrawlerConfig} {I J : CrawlerCore → Prop}
    (hI : ActionRules W config I) (hJ : ActionRules W config J) :
    ActionRules W config fun c ↦ I c ∧ J c where
  asked := fun c h ↦ ⟨hI.asked c h.1, hJ.asked c h.2⟩
  interfered := fun c ops h ↦ ⟨hI.interfered c ops h.1, hJ.interfered c ops h.2⟩
  sent := fun c call hsocket htarget h ↦
    ⟨hI.sent c call hsocket htarget h.1, hJ.sent c call hsocket htarget h.2⟩

/-- What a property has to survive when the callbacks of the manager are delivered. -/
structure CallbackRules (E : Prop) (I : List LookupEvent → List Bytes → CrawlerCore → Prop) :
    Prop where
  actions : ∀ events claimed, ActionRules W config (I events claimed)
  skipped : ∀ event rest claimed c, event.isReport = false → I (event :: rest) claimed c →
    I rest claimed c
  foundPeers : ∀ number infoHash peers rest claimed c, infoHash.length = nodeIdLength →
    (∀ peer ∈ peers, isRoutableAddress W.net peer) →
      I (.foundPeers number infoHash peers :: rest) claimed c →
        let c' := c.executed (.addPeers infoHash peers)
        Called E c'.session.catalog.raised (I rest claimed c')
  finished : ∀ number infoHash peers n rest claimed c, infoHash.length = nodeIdLength →
    (∀ peer ∈ peers, isRoutableAddress W.net peer) →
      I (.finished number infoHash peers :: rest) claimed c →
        let c' := c.executed (.addLookupResult infoHash peers (W.wallClock n))
        Called E c'.session.catalog.raised (I rest claimed c')

/-- What a property has to survive when a message is handled that belongs to no lookup. -/
structure RecordRules (E : Prop) (I : CrawlerCore → Prop) : Prop extends ActionRules W config I where
  recorded : ∀ c op, op.Records W → I c →
    Called E (c.executed op).session.catalog.raised (I (c.executed op))
  packed : ∀ c node, I c → config.Known W.net c.history node →
    E ∨ PackedNode W.net (addressFamily node.ip) node

/-- What a property has to survive when a datagram is handled. -/
structure HandlerRules (E : Prop) (I : List LookupEvent → List Bytes → CrawlerCore → Prop) :
    Prop where
  callbacks : CallbackRules W config E I
  records : RecordRules W config E (I [] [])
  answered : ∀ c transactionId call, call.Answers transactionId (W.clock c.readings) →
    c.lookupManager.ownsTransaction transactionId → c.lookupManager.Keyed →
      c.lookupManager.Filtered W.net config.lookupLimits (config.accepts W.net) → I [] [] c →
        let m := c.lookupManager.apply W.net call
        Called E m.raised (I (CrawlerCore.newEvents W.net c.lookupManager call) []
          { c with readings := c.readings + 1, lookupManager := m })

variable {W : World} {config : CrawlerConfig} {E : Prop} {I : CrawlerCore → Prop}
  {past : List CrawlerEvent} {s : DhtCrawler}

/-! ## Primitives -/

theorem ensures_require {p : Prop} [Decidable p] (h : p ∨ E) :
    Ensures (require p) s (fun _ s' ↦ s' = s ∧ p) fun _ _ ↦ E := by
  unfold require
  split
  next hp => exact Ensures.pure ⟨rfl, hp⟩
  next hp => exact Ensures.throw (h.resolve_left hp)

theorem ensures_ask :
    Ensures ask s (fun n s' ↦ n = s.readings ∧ s' = { s with readings := s.readings + 1 })
      fun _ _ ↦ E := ⟨rfl, rfl⟩

theorem ensures_readClock :
    Ensures (readClock W) s (fun now s' ↦ now = W.clock s.readings ∧
      s' = { s with readings := s.readings + 1 }) fun _ _ ↦ E := ⟨rfl, rfl⟩

theorem ensures_lift {α : Type} {result : Except Failure α} {Q : α → Prop}
    (h : Ends result Q fun _ ↦ E) :
    Ensures (lift result) s (fun value s' ↦ s' = s ∧ Q value) fun _ _ ↦ E := by
  cases result with
  | ok value => exact Ensures.pure ⟨rfl, h⟩
  | error failure => exact Ensures.throw h

theorem ensures_familyState {family : AddressFamily}
    (h : E ∨ family ∈ s.families.keys) :
    Ensures (familyState family) s
      (fun state s' ↦ s' = s ∧ s.families.get? family = some state) fun _ _ ↦ E := by
  refine Ensures.get ?_
  cases hget : s.families.get? family with
  | some state => exact Ensures.pure ⟨rfl, rfl⟩
  | none =>
    refine Ensures.throw (h.resolve_right fun hmem ↦ ?_)
    exact OrderedMap.get?_eq_none_iff.mp hget hmem

theorem ensures_rememberIn {α β : Type} [DecidableEq α] {mapping : OrderedMap α β} {key : α}
    {value : β} {limit : ℕ} (hlimit : 1 ≤ limit) :
    Ensures (rememberIn mapping key value limit) s
      (fun result s' ↦ s' = s ∧ result = remember mapping key value limit) fun _ _ ↦ E := by
  unfold rememberIn
  refine (ensures_require (Or.inl (remember_asserts mapping key value hlimit))).bind ?_
  rintro _ _ ⟨rfl, -⟩
  exact Ensures.pure ⟨rfl, rfl⟩

namespace Good

/-- Bookkeeping that keeps the core. -/
theorem noted {s' : DhtCrawler} (h : Good W config I past s) (hcore : s'.core = s.core)
    (hconfigured : Configured W config s') : Good W config I past s' where
  configured := hconfigured
  past := by
    have hhistory : s'.history = s.history := congrArg CrawlerCore.history hcore
    exact hhistory ▸ h.past
  kept := hcore ▸ h.kept

theorem count (h : Good W config I past s) (tally : CrawlerStats → CrawlerStats) :
    Ensures (DhtCrawler.count tally) s (fun _ ↦ Good W config I past) fun _ _ ↦ E :=
  Ensures.modify ⟨{ h.configured with }, h.past, h.kept⟩

theorem forget {events : List CrawlerEvent} (h : Good W config I past s) (hsub : events ⊆ past) :
    Good W config I events s := ⟨h.configured, fun _ hmem ↦ h.past (hsub hmem), h.kept⟩

theorem all (h : Good W config I past s) : Good W config I s.history s :=
  ⟨h.configured, fun _ hmem ↦ hmem, h.kept⟩

theorem saveFamily (h : Good W config I past s) {state : FamilyState}
    (hmem : state.family ∈ config.families.keys)
    (hstate : config.FamilyKept W.net s.history state.family state) :
    Ensures (DhtCrawler.saveFamily state) s (fun _ ↦ Good W config I past) fun _ _ ↦ E :=
  Ensures.modify (h.noted rfl (h.configured.saveFamily hmem hstate))

end Good

namespace ActionRules

theorem ask (hI : ActionRules W config I) (h : Good W config I past s) :
    Good W config I past { s with readings := s.readings + 1 } :=
  ⟨{ h.configured with }, h.past, hI.asked _ h.kept⟩

theorem readClock (hI : ActionRules W config I) (h : Good W config I past s) :
    Ensures (DhtCrawler.readClock W) s (fun _ ↦ Good W config I past) fun _ _ ↦ E := hI.ask h

theorem readWallClock (hI : ActionRules W config I) (h : Good W config I past s) :
    Ensures (DhtCrawler.readWallClock W) s
      (fun now s' ↦ (∃ n, now = W.wallClock n) ∧ Good W config I past s') fun _ _ ↦ E :=
  ⟨⟨s.readings, rfl⟩, hI.ask h⟩

theorem urandom (hI : ActionRules W config I) (h : Good W config I past s) (count : ℕ) :
    Ensures (DhtCrawler.urandom W count) s
      (fun data s' ↦ data.length = count ∧ Good W config I past s') fun _ _ ↦ E :=
  ⟨W.length_urandom s.readings count, hI.ask h⟩

theorem interleave (hI : ActionRules W config I) (h : Good W config I past s) :
    Ensures (DhtCrawler.interleave W) s (fun _ ↦ Good W config I past) fun _ _ ↦ E :=
  ⟨{ h.configured with }, h.past, hI.interfered _ (W.others s.readings) (hI.asked _ h.kept)⟩

/-! ## Sending -/

theorem sendMessage (hI : ActionRules W config I) (h : Good W config I past s) {nodeSocket : NodeSocket}
    (hsocket : nodeSocket ∈ config.nodeSockets) {message : Message} {address : Address}
    (htarget : isQuery message → config.Targets W.net past nodeSocket address) :
    Ensures (DhtCrawler.sendMessage W nodeSocket message address) s
      (fun _ ↦ Good W config I past) fun _ _ ↦ E := by
  refine Ensures.get ?_
  rw [h.configured.config_eq]
  refine (ensures_require (Or.inl hsocket)).bind ?_
  rintro _ _ ⟨rfl, -⟩
  have hasked := hI.ask (hI.ask h)
  refine Ensures.modify (Q := fun _ ↦ Good W config I past) ?_
  refine ⟨{ hasked.configured with }, h.past, ?_⟩
  exact hI.sent _ ⟨W.clock _, nodeSocket, message, address, W.sendto _⟩ hsocket
    (fun hquery ↦ (htarget hquery).mono h.past) hasked.kept

/-- The socket that is picked is one of the family. -/
theorem pickNodeSocket (h : Good W config I past s) (family : AddressFamily) :
    Ensures (DhtCrawler.pickNodeSocket family) s (fun picked s' ↦ Good W config I past s' ∧
      ∀ nodeSocket ∈ picked, nodeSocket ∈ config.nodeSockets ∧ nodeSocket.family = family)
      fun _ _ ↦ E := by
  refine Ensures.get ?_
  cases hget : s.families.get? family with
  | none => exact Ensures.pure ⟨h, fun _ hnone ↦ by cases hnone⟩
  | some state =>
    have hkept := h.configured.families family state hget
    have hmem : state.nextSocket ∈ state.nodeSockets := List.get_mem _ _
    have hfamily : state.nextSocket.family = family :=
      (state.family_eq _ hmem).trans hkept.family_eq
    refine (h.saveFamily (hkept.family_eq ▸ h.configured.mem_keys hget) ?_).bind ?_
    · exact
        { family_eq := rfl
          sockets := hkept.sockets
          queued := hkept.queued
          recent := fun node hnode ↦ ⟨(hkept.recent node hnode).1,
            (hkept.recent node hnode).2.trans hkept.family_eq.symm⟩ }
    · intro _ s' h'
      refine (ensures_require (Or.inl hfamily)).bind ?_
      rintro _ _ ⟨rfl, -⟩
      refine Ensures.pure ⟨h', fun nodeSocket hsome ↦ ?_⟩
      rw [← Option.mem_some.mp hsome]
      exact ⟨hkept.sockets _ hmem, hfamily⟩

/-- The two builders of crawl queries. -/
def Builds (build : Bytes → Bytes → Bytes → Except Failure Message) : Prop :=
  ∀ transactionId nodeId targetId : Bytes, nodeId.length = nodeIdLength →
    targetId.length = nodeIdLength → ∃ message, build transactionId nodeId targetId = .ok message

theorem sendCrawlTo (hI : ActionRules W config I) (h : Good W config I past s)
    {build : Bytes → Bytes → Bytes → Except Failure Message} (hbuild : Builds build)
    {nodeSocket : NodeSocket} (hsocket : nodeSocket ∈ config.nodeSockets) {node : Node}
    (hid : node.nodeId.length = nodeIdLength) (hport : 0 ≤ node.port ∧ node.port ≤ 65535 ∨ E)
    (htarget : config.Targets W.net past nodeSocket node.address) :
    Ensures (DhtCrawler.sendCrawlTo W build nodeSocket node) s (fun _ ↦ Good W config I past)
      fun _ _ ↦ E := by
  have hvalid : isValidNodeId node.nodeId := by simpa [isValidNodeId] using hid
  refine (ensures_require (hport.imp_left fun hport ↦ ⟨hvalid, hport⟩)).bind ?_
  rintro _ _ ⟨rfl, -⟩
  refine (hI.urandom h _).bind ?_
  rintro transactionId s₁ ⟨-, h₁⟩
  have hneighbor := neighborNodeId_eq hid (config.length_ownId nodeSocket hsocket)
  refine (ensures_lift (Q := fun id ↦ neighborNodeId node.nodeId nodeSocket.ownId = .ok id)
    (hneighbor ▸ rfl)).bind ?_
  rintro nodeId _ ⟨rfl, hnodeId⟩
  refine (hI.urandom h₁ _).bind ?_
  rintro targetId s₂ ⟨htargetId, h₂⟩
  obtain ⟨message, hmessage⟩ := hbuild transactionId nodeId targetId
    (length_of_neighborNodeId hnodeId) htargetId
  refine (ensures_lift (Q := fun _ ↦ True) (hmessage ▸ trivial)).bind ?_
  rintro query _ ⟨rfl, -⟩
  exact hI.sendMessage h₂ hsocket fun _ ↦ htarget

theorem builds_findNode : Builds buildFindNodeQuery := fun _ _ _ hid htarget ↦
  ⟨_, buildIdQuery_eq "target" hid htarget⟩

theorem builds_sampleInfohashes : Builds buildSampleInfohashesQuery := fun _ _ _ hid htarget ↦
  ⟨_, buildIdQuery_eq "target" hid htarget⟩

theorem sendFindNode (hI : ActionRules W config I) (h : Good W config I past s)
    {nodeSocket : NodeSocket} (hsocket : nodeSocket ∈ config.nodeSockets) {node : Node}
    (hid : node.nodeId.length = nodeIdLength) (hport : 0 ≤ node.port ∧ node.port ≤ 65535 ∨ E)
    (htarget : config.Targets W.net past nodeSocket node.address) :
    Ensures (DhtCrawler.sendFindNode W nodeSocket node) s (fun _ ↦ Good W config I past)
      fun _ _ ↦ E :=
  (hI.sendCrawlTo h builds_findNode hsocket hid hport htarget).bind fun _ _ h' ↦ h'.count _

theorem sendSampleInfohashes (hI : ActionRules W config I) (h : Good W config I past s)
    {nodeSocket : NodeSocket} (hsocket : nodeSocket ∈ config.nodeSockets) {node : Node}
    (hid : node.nodeId.length = nodeIdLength) (hport : 0 ≤ node.port ∧ node.port ≤ 65535 ∨ E)
    (htarget : config.Targets W.net past nodeSocket node.address) :
    Ensures (DhtCrawler.sendSampleInfohashes W nodeSocket node) s (fun _ ↦ Good W config I past)
      fun _ _ ↦ E :=
  (hI.sendCrawlTo h builds_sampleInfohashes hsocket hid hport htarget).bind
    fun _ _ h' ↦ h'.count _

/-- The socket of a lookup query heard the address or has its family. -/
theorem lookupSocket (h : Good W config I past s) {node : Node}
    (hroutable : isRoutableAddress W.net node.address) :
    Ensures (DhtCrawler.lookupSocket node) s (fun picked s' ↦ Good W config I past s' ∧
      ∀ nodeSocket ∈ picked, nodeSocket ∈ config.nodeSockets ∧
        config.Targets W.net s'.history nodeSocket node.address) fun _ _ ↦ E := by
  refine Ensures.get ?_
  cases hget : s.socketAffinity.get? node.address with
  | some nodeSocket =>
    have hreceived := h.configured.affinity node.address nodeSocket hget
    refine Ensures.pure ⟨h, fun other hother ↦ ?_⟩
    rw [← Option.mem_some.mp hother]
    exact ⟨h.configured.received _ _ hreceived, Or.inr (Or.inl hreceived)⟩
  | none =>
    refine (pickNodeSocket h _).imp (fun picked s' hpicked ↦ ⟨hpicked.1, ?_⟩) fun _ _ hE ↦ hE
    intro nodeSocket hsome
    obtain ⟨hsocket, hfamily⟩ := hpicked.2 nodeSocket hsome
    exact ⟨hsocket, Or.inr (Or.inr ⟨hroutable, hfamily⟩)⟩

theorem sendLookupQuery (hI : ActionRules W config I) (h : Good W config I past s)
    {transactionId infoHash : Bytes} {node : Node}
    (htransaction : transactionId.length = lookupTransactionIdLength)
    (hlength : infoHash.length = nodeIdLength) (hnode : config.accepts W.net node) :
    Ensures (DhtCrawler.sendLookupQuery W transactionId node infoHash) s
      (fun _ ↦ Good W config I past) fun _ _ ↦ E := by
  obtain ⟨hid, -, -, hroutable⟩ := CrawlerConfig.accepts_iff.mp hnode
  refine (ensures_require (Or.inl ⟨htransaction, hlength⟩)).bind ?_
  rintro _ _ ⟨rfl, -⟩
  refine (lookupSocket h hroutable).bind ?_
  rintro picked s₁ ⟨h₁, hpicked⟩
  cases picked with
  | none => exact Ensures.pure h₁
  | some nodeSocket =>
    obtain ⟨hsocket, htarget⟩ := hpicked nodeSocket rfl
    have hneighbor := neighborNodeId_eq hid (config.length_ownId nodeSocket hsocket)
    refine (ensures_lift (Q := fun id ↦ neighborNodeId node.nodeId nodeSocket.ownId = .ok id)
      (hneighbor ▸ rfl)).bind ?_
    rintro nodeId _ ⟨rfl, hnodeId⟩
    obtain ⟨message, hmessage⟩ : ∃ message,
        buildGetPeersQuery transactionId nodeId infoHash = .ok message :=
      ⟨_, buildIdQuery_eq "info_hash" (length_of_neighborNodeId hnodeId) hlength⟩
    refine (ensures_lift (Q := fun _ ↦ True) (hmessage ▸ trivial)).bind ?_
    rintro query _ ⟨rfl, -⟩
    exact (hI.sendMessage h₁.all hsocket fun _ ↦ htarget).imp
      (fun _ _ h' ↦ h'.forget h₁.past) fun _ _ hE ↦ hE

/-- Replies go to the address of the datagram. -/
theorem reply (hI : ActionRules W config I) (h : Good W config I past s)
    {built : Except Failure Message} (hbuilt : BuildsReply built) {nodeSocket : NodeSocket}
    (hsocket : nodeSocket ∈ config.nodeSockets) (address : Address) :
    Ensures (DhtCrawler.reply W built address nodeSocket) s (fun _ ↦ Good W config I past)
      fun _ _ ↦ E := by
  refine (ensures_lift (hbuilt.mono (fun _ hmessage ↦ hmessage) fun _ hfalse ↦ hfalse.elim)).bind ?_
  rintro message _ ⟨rfl, hmessage⟩
  exact hI.sendMessage h hsocket fun hquery ↦ absurd hquery (by simp [hmessage])

end ActionRules

/-! ## The catalog and the lookup manager -/

/-- An operation of the catalog turns one property of the core into another. -/
theorem Good.execCatalog {J : CrawlerCore → Prop} (h : Good W config I past s) {op : CatalogOp}
    (hnext : Called E (s.core.executed op).session.catalog.raised (J (s.core.executed op))) :
    Ensures (DhtCrawler.execCatalog op) s (fun _ ↦ Good W config J past) fun _ _ ↦ E := by
  have hconfigured : Configured W config
      { s with session := s.session.exec op, history := s.history ++ [.called op] } := by
    have hrecorded : Configured W config { s with history := s.history ++ [.called op] } :=
      h.configured.record fun _ _ hmem ↦ by simp at hmem
    exact { hrecorded with }
  refine Ensures.bind (Ensures.modify rfl : Ensures _ s (fun _ s' ↦ s' = _) _) ?_
  rintro _ _ rfl
  refine Ensures.get ?_
  split
  next hraised => exact Ensures.throw (hnext.1 hraised)
  next hraised =>
    exact Ensures.pure ⟨hconfigured, List.subset_append_of_subset_left _ h.past,
      hnext.2 (Bool.not_eq_true _ ▸ hraised)⟩

/-- When errors are allowed nothing has to be shown of the way to them. -/
theorem ensures_trivial {α : Type} (hE : E) (x : Crawl α) :
    Ensures x s (fun _ _ ↦ True) fun _ _ ↦ E := by
  unfold Ensures
  cases x s <;> trivial

namespace CallbackRules

variable {I : List LookupEvent → List Bytes → CrawlerCore → Prop} {claimed : List Bytes}

/-- One callback of the manager is delivered. -/
theorem callback (hI : CallbackRules W config E I) {event : LookupEvent} {rest : List LookupEvent}
    (h : Good W config (I (event :: rest) claimed) past s)
    (hevent : event.WellFormed W.net (config.accepts W.net)) :
    Ensures (DhtCrawler.callback W event) s (fun _ ↦ Good W config (I rest claimed) past)
      fun _ _ ↦ E := by
  have hskip (hreport : event.isReport = false) : Good W config (I rest claimed) past s :=
    ⟨h.configured, h.past, hI.skipped event rest claimed _ hreport h.kept⟩
  cases event with
  | started number infoHash now => exact Ensures.pure (hskip rfl)
  | released query => exact Ensures.pure (hskip rfl)
  | sent query number transactionId node infoHash =>
    obtain ⟨htransaction, hlength, -, hnode⟩ := hevent
    exact (hI.actions rest claimed).sendLookupQuery (hskip rfl) htransaction hlength hnode
  | foundPeers number infoHash peers =>
    obtain ⟨hlength, hpeers⟩ := hevent
    exact ((hI.actions _ claimed).interleave h).bind fun _ _ h' ↦
      h'.execCatalog (hI.foundPeers number infoHash peers rest claimed _ hlength hpeers h'.kept)
  | finished number infoHash peers =>
    obtain ⟨hlength, hpeers⟩ := hevent
    refine ((hI.actions _ claimed).readWallClock h).bind ?_
    rintro now s₁ ⟨⟨n, rfl⟩, h₁⟩
    exact ((hI.actions _ claimed).interleave h₁).bind fun _ _ h' ↦
      h'.execCatalog (hI.finished number infoHash peers n rest claimed _ hlength hpeers h'.kept)

/-- A call of the manager and its callbacks. -/
theorem callManager (hI : CallbackRules W config E I) (claimed : List Bytes)
    {J : CrawlerCore → Prop} (h : Good W config J past s) {call : LookupCall}
    (hnext : let m := s.lookupManager.apply W.net call
      Called E m.raised (I (CrawlerCore.newEvents W.net s.lookupManager call) claimed
        { s.core with lookupManager := m })) :
    Ensures (DhtCrawler.callManager W call) s (fun _ ↦ Good W config (I [] claimed) past)
      fun _ _ ↦ E := by
  obtain ⟨hkeyed, hfiltered⟩ := (LookupManager.filtered_rules W.net config.lookupLimits
    (config.accepts W.net)).apply h.configured.keyed h.configured.filtered call
      (LookupManager.callOffer_any W.net _ call)
  have hconfigured : Configured W config
      { s with lookupManager := s.lookupManager.apply W.net call } :=
    { h.configured with
      keyed := hkeyed
      filtered := hfiltered }
  refine Ensures.get ?_
  refine Ensures.bind (Ensures.set rfl : Ensures _ s (fun _ s' ↦ s' = _) _) ?_
  rintro _ _ rfl
  cases hraised : (s.lookupManager.apply W.net call).raised with
  | true =>
    have hE := hnext.1 hraised
    exact (ensures_trivial hE _).bind fun _ _ _ ↦ Ensures.throw hE
  | false =>
    refine Ensures.bind (Ensures.forM (I := fun events ↦ Good W config (I events claimed) past) _
      ?_ _ ?_) fun _ s' h' ↦ Ensures.pure h'
    · exact fun event rest s' hmem h' ↦
        hI.callback h' (hfiltered.log event (List.mem_of_mem_drop hmem))
    · exact ⟨hconfigured, h.past, hnext.2 hraised⟩

end CallbackRules

end DhtCrawler

end DhtScraper
