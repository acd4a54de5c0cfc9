import DhtScraper.Codec.Grammar
import DhtScraper.Crawler.Rules

/-!
# Induction over the handling of a datagram

Every method that `handle_datagram` calls keeps what survives the rules.
-/

namespace DhtScraper

open Library

namespace DhtCrawler

variable {W : World} {config : CrawlerConfig} {E : Prop} {I : CrawlerCore → Prop}
  {past : List CrawlerEvent} {s : DhtCrawler}

/-! ## Nodes -/

theorem maxBackoffEntries_pos : 1 ≤ maxBackoffEntries := by simp [maxBackoffEntries]

theorem hintNodesSize_pos : 1 ≤ hintNodesSize := by simp [hintNodesSize]

theorem socketAffinitySize_pos : 1 ≤ socketAffinitySize := by simp [socketAffinitySize]

namespace Good

variable {node : Node} {family : AddressFamily} {state : FamilyState}

theorem queueNode (h : Good W config I past s) (hget : s.families.get? family = some state)
    (hknown : config.Known W.net past node) (hfamily : addressFamily node.ip = family) :
    Ensures (DhtCrawler.queueNode state node) s (fun _ ↦ Good W config I past) fun _ _ ↦ E := by
  have hkept := h.configured.families family state hget
  have hnew := hknown.mono h.past
  refine (h.saveFamily (hkept.family_eq ▸ h.configured.mem_keys hget) ?_).bind ?_
  · refine ⟨rfl, hkept.sockets, fun other hother ↦ ?_, fun other hother ↦ ?_⟩
    · rcases mem_of_mem_appendBounded hother with hold | rfl
      · exact hkept.queued other hold
      · exact hnew
    · rcases mem_of_mem_appendBounded hother with hold | rfl
      · exact ⟨(hkept.recent other hold).1, (hkept.recent other hold).2.trans hkept.family_eq.symm⟩
      · exact ⟨hnew, hfamily.trans hkept.family_eq.symm⟩
  · intro _ s' h'
    refine (ensures_require (Or.inl (length_appendBounded_le _ _ _))).imp ?_ fun _ _ hE ↦ hE
    rintro _ _ ⟨rfl, -⟩
    exact h'

theorem addNode (h : Good W config I past s) (hsource : Sourced W.net past node.address) :
    Ensures (DhtCrawler.addNode W node) s (fun _ ↦ Good W config I past) fun _ _ ↦ E := by
  refine Ensures.get ?_
  cases hget : s.families.get? (addressFamily node.ip) with
  | none => exact Ensures.pure h
  | some state =>
    dsimp only
    split
    next hforeign =>
      rw [h.configured.isForeign_eq] at hforeign
      refine (ensures_rememberIn maxBackoffEntries_pos).bind ?_
      rintro ⟨queued, isNew⟩ s ⟨rfl, -⟩
      refine Ensures.bind (Ensures.modify rfl : Ensures _ _ (fun _ s' ↦ s' = _) _) ?_
      rintro _ _ rfl
      have hnoted : Good W config I past { s with recentlyQueued := queued } :=
        h.noted rfl { h.configured with }
      dsimp only
      split
      next => exact hnoted.queueNode hget ⟨hforeign, hsource⟩ rfl
      next => exact Ensures.pure hnoted
    next => exact Ensures.pure h

/-- The decoders of `nodes` and `nodes6` read nodes from compact forms. -/
def ReadsNodes (net : Inet) (decoder : Bytes → Except Failure (List Node)) : Prop :=
  ∀ data, ∃ nodes, decoder data = .ok nodes ∧ ∀ node ∈ nodes, ∃ compact : Bytes,
    (compact.length = compactAddressLength ∨ compact.length = compactAddress6Length) ∧
      node.address = compactAddress net compact

theorem readsNodes_of_eq {net : Inet} {decoder : Bytes → Except Failure (List Node)}
    {entryLength : ℕ} (he : isEntryLength entryLength) (hdecoder : ∀ data, decoder data =
      .ok ((entryOffsets data.length entryLength).map (compactNode net data entryLength))) :
    ReadsNodes net decoder := by
  refine fun data ↦ ⟨_, hdecoder data, fun node hnode ↦ ?_⟩
  obtain ⟨offset, hoffset, rfl⟩ := List.mem_map.mp hnode
  exact ⟨_, (slice_entry he hoffset).2, rfl⟩

theorem readsNodes_decodeCompactNodes (net : Inet) : ReadsNodes net (decodeCompactNodes net) :=
  readsNodes_of_eq (Or.inl rfl) fun _ ↦ decodeCompactNodes_eq net (Or.inl rfl)

theorem readsNodes_decodeCompactNodes6 (net : Inet) : ReadsNodes net (decodeCompactNodes6 net) :=
  readsNodes_of_eq (Or.inr rfl) fun _ ↦ decodeCompactNodes6_eq net

theorem addNodes (h : Good W config I past s)
    {decoder : Bytes → Except Failure (List Node)} (hdecoder : ReadsNodes W.net decoder)
    (compactNodes : Option BencodeValue) :
    Ensures (DhtCrawler.addNodes W decoder compactNodes) s (fun _ ↦ Good W config I past)
      fun _ _ ↦ E := by
  unfold DhtCrawler.addNodes
  split
  next data =>
    obtain ⟨nodes, hnodes, hcompact⟩ := hdecoder data
    refine (ensures_lift (Q := fun result ↦ result = nodes) (hnodes ▸ rfl)).bind ?_
    rintro _ s ⟨rfl, rfl⟩
    exact Ensures.forM (I := fun _ ↦ Good W config I past) _
      (fun node _ _ hmem h' ↦ h'.addNode (Or.inr (hcompact node hmem))) s h
  next => exact Ensures.pure h

/-! ## Responses and errors -/

theorem addRecent (h : Good W config I past s) {sender : Node}
    (hknown : config.Known W.net past sender) :
    Ensures (DhtCrawler.addRecent sender) s (fun _ ↦ Good W config I past) fun _ _ ↦ E := by
  obtain ⟨-, -, hfamily, -⟩ := CrawlerConfig.accepts_iff.mp hknown.accepted
  refine (ensures_familyState (Or.inr (h.configured.keys ▸ hfamily))).bind ?_
  rintro state s ⟨rfl, hget⟩
  have hkept := h.configured.families _ state hget
  refine h.saveFamily (hkept.family_eq ▸ h.configured.mem_keys hget) ?_
  refine ⟨rfl, hkept.sockets, hkept.queued, fun other hother ↦ ?_⟩
  rcases mem_of_mem_appendBounded hother with hold | rfl
  · exact ⟨(hkept.recent other hold).1, (hkept.recent other hold).2.trans hkept.family_eq.symm⟩
  · exact ⟨hknown.mono h.past, hkept.family_eq.symm⟩

theorem foreignSender (h : Good W config I past s) {address : Address} {nodeSocket : NodeSocket}
    (hreceived : .received address nodeSocket ∈ past) (value : Option BencodeValue) :
    Ensures (DhtCrawler.foreignSender W value address) s (fun sender s' ↦
      Good W config I past s' ∧ ∀ node ∈ sender, config.Known W.net past node) fun _ _ ↦ E := by
  refine Ensures.get ?_
  split
  next nodeId _ =>
    dsimp only
    split
    next hforeign =>
      rw [h.configured.isForeign_eq] at hforeign
      have hknown : config.Known W.net past ⟨nodeId, address.1, address.2⟩ :=
        ⟨hforeign, Or.inl ⟨nodeSocket, hreceived⟩⟩
      refine (h.addRecent hknown).bind fun _ s' h' ↦ Ensures.pure ⟨h', fun node hnode ↦ ?_⟩
      rw [← Option.mem_some.mp hnode]
      exact hknown
    next => exact Ensures.pure ⟨h, fun _ hnone ↦ by cases hnone⟩
  next => exact Ensures.pure ⟨h, fun _ hnone ↦ by cases hnone⟩

theorem addHint (h : Good W config I past s) {sender : Node}
    (hknown : config.Known W.net past sender) (infoHash : Bytes) :
    Ensures (DhtCrawler.addHint sender infoHash) s (fun _ ↦ Good W config I past)
      fun _ _ ↦ E := by
  refine Ensures.get ?_
  refine (ensures_rememberIn hintNodesSize_pos).bind ?_
  rintro ⟨hints, isNew⟩ s ⟨rfl, hremember⟩
  have hhints : hints = (remember s.hintNodes infoHash sender hintNodesSize).1 :=
    congrArg Prod.fst hremember
  refine Ensures.modify (h.noted rfl { h.configured with hints := fun other node hget ↦ ?_ })
  rw [hhints] at hget
  rcases get?_remember_cases hget with ⟨-, rfl⟩ | hold
  · exact hknown.mono h.past
  · exact h.configured.hints other node hold

theorem addHints (h : Good W config I past s) {sender : Option Node}
    (hknown : ∀ node ∈ sender, config.Known W.net past node) (infoHashes : List Bytes) :
    Ensures (DhtCrawler.addHints sender infoHashes) s (fun _ ↦ Good W config I past)
      fun _ _ ↦ E := by
  cases sender with
  | none => exact Ensures.pure h
  | some node =>
    exact Ensures.forM (I := fun _ ↦ Good W config I past) _
      (fun infoHash _ _ _ h' ↦ h'.addHint (hknown node rfl) infoHash) s h

end Good

theorem ActionRules.backOff (hI : ActionRules W config I) (h : Good W config I past s)
    (address : Address) (seconds : ℤ) :
    Ensures (DhtCrawler.backOff W address seconds) s (fun _ s' ↦ Good W config I past s' ∧
      s'.sampleBackoff.contains address) fun _ _ ↦ E := by
  refine (hI.readClock h).bind fun now s₁ h₁ ↦ ?_
  refine Ensures.get ?_
  refine (ensures_rememberIn maxBackoffEntries_pos).bind ?_
  rintro ⟨backoff, isNew⟩ s₂ ⟨rfl, hremember⟩
  have hbackoff : backoff = (remember s₂.sampleBackoff address (now + seconds)
      maxBackoffEntries).1 := congrArg Prod.fst hremember
  refine Ensures.modify ⟨h₁.noted rfl { h₁.configured with }, ?_⟩
  rw [OrderedMap.contains, hbackoff, remember_contains _ _ _ maxBackoffEntries_pos]
  rfl

namespace RecordRules

/-- A recording operation, with the other threads in between. -/
theorem callRecord (hI : RecordRules W config E I) (h : Good W config I past s)
    {op : CatalogOp} (hop : op.Records W) :
    Ensures (DhtCrawler.callCatalog W op) s (fun _ ↦ Good W config I past)
      fun _ _ ↦ E :=
  (hI.interleave h).bind fun _ _ h' ↦
    h'.execCatalog (hI.recorded _ op hop h'.kept)

/-! ## Responses and errors -/

theorem handleSamples (hI : RecordRules W config E I) (h : Good W config I past s)
    {sender : Option Node} (hknown : ∀ node ∈ sender, config.Known W.net past node)
    (response : Message) (address : Address) :
    Ensures (DhtCrawler.handleSamples W response address sender) s
      (fun _ ↦ Good W config I past) fun _ _ ↦ E := by
  obtain ⟨samples, hsamples, hlength⟩ := decodeSamples_eq (getItem response "samples")
  refine (ensures_lift (Q := fun result ↦ result = samples) (hsamples ▸ rfl)).bind ?_
  rintro samples s ⟨rfl, rfl⟩
  refine (hI.readWallClock h).bind ?_
  rintro now s₁ ⟨htime, h₁⟩
  have hrecords : (CatalogOp.recordHashes samples .sample now).Records W := ⟨hlength, htime⟩
  refine (hI.callRecord h₁ hrecords).bind fun _ s₂ h₂ ↦ ?_
  refine Ensures.bind (Ensures.modify rfl : Ensures _ _ (fun _ s' ↦ s' = _) _) ?_
  rintro _ _ rfl
  have h₃ : Good W config I past { s₂ with
      recentHashes := extendBounded recentHashesSize s₂.recentHashes samples } :=
    h₂.noted rfl { h₂.configured with
      hashes := fun infoHash hmem ↦ (mem_of_mem_extendBounded samples hmem).elim
        (h₂.configured.hashes infoHash) (hlength infoHash) }
  refine (h₃.addHints hknown samples).bind fun _ s₄ h₄ ↦ ?_
  refine (h₄.count _).bind fun _ s₅ h₅ ↦ ?_
  refine (hI.backOff h₅ address _).bind ?_
  rintro _ s₆ ⟨h₆, hcontains⟩
  refine Ensures.bind (Ensures.modify rfl : Ensures _ _ (fun _ s' ↦ s' = _) _) ?_
  rintro _ _ rfl
  refine Ensures.get ?_
  refine (ensures_require (Or.inl hcontains)).imp ?_ fun _ _ hE ↦ hE
  rintro _ _ ⟨rfl, -⟩
  exact ⟨{ h₆.configured with }, h₆.past, h₆.kept⟩

theorem takeResponse (hI : RecordRules W config E I) (h : Good W config I past s)
    {address : Address} {nodeSocket : NodeSocket} (hreceived : .received address nodeSocket ∈ past)
    (response : Message) :
    Ensures (DhtCrawler.takeResponse W response address) s
      (fun _ ↦ Good W config I past) fun _ _ ↦ E := by
  refine (h.foreignSender hreceived _).bind ?_
  rintro sender s₁ ⟨h₁, hknown⟩
  refine (h₁.addNodes (Good.readsNodes_decodeCompactNodes W.net) _).bind fun _ s₂ h₂ ↦ ?_
  refine (h₂.addNodes (Good.readsNodes_decodeCompactNodes6 W.net) _).bind fun _ s₃ h₃ ↦ ?_
  split
  next => exact hI.handleSamples h₃ hknown response address
  next => exact Ensures.pure h₃

theorem fallBack (hI : ActionRules W config I) (h : Good W config I past s)
    {address : Address} {nodeSocket : NodeSocket} (hreceived : .received address nodeSocket ∈ past)
    (hport : 0 ≤ address.2 ∧ address.2 ≤ 65535 ∨ E) :
    Ensures (DhtCrawler.fallBack W address nodeSocket) s (fun _ ↦ Good W config I past)
      fun _ _ ↦ E := by
  have hsocket := h.configured.received address nodeSocket (h.past hreceived)
  refine (hI.backOff h address _).bind ?_
  rintro _ s₁ ⟨h₁, -⟩
  refine (ensures_familyState (Or.inr ?_)).bind ?_
  · rw [h₁.configured.keys]
    exact CrawlerConfig.family_mem_keys hsocket
  rintro state s₁ ⟨rfl, -⟩
  split
  next =>
    refine Ensures.get ?_
    refine (ensures_rememberIn maxBackoffEntries_pos).bind ?_
    rintro ⟨fallbackSent, isNew⟩ s₁ ⟨rfl, -⟩
    refine Ensures.bind (Ensures.modify rfl : Ensures _ _ (fun _ s' ↦ s' = _) _) ?_
    rintro _ _ rfl
    have h₂ : Good W config I past { s₁ with fallbackSent := fallbackSent } :=
      h₁.noted rfl { h₁.configured with }
    split
    next =>
      exact hI.sendFindNode h₂ hsocket (config.length_ownId nodeSocket hsocket) hport
        (Or.inr (Or.inl hreceived))
    next => exact Ensures.pure h₂
  next => exact Ensures.pure h₁

/-! ## Queries -/

/-- Packed nodes of one family make a compact list. -/
theorem exists_encodeCompactNodes {net : Inet} {family : AddressFamily} {nodes : List Node}
    (h : ∀ node ∈ nodes, node.nodeId.length = nodeIdLength ∧ PackedNode net family node) :
    ∃ data, encodeCompactNodes net nodes = .ok data := by
  choose! encode hencode using fun node hnode ↦ (h node hnode).2
  have hparts : nodes.mapM (encodeCompactNode net) = .ok (nodes.map encode) :=
    mapM_eq_ok fun node hnode ↦ (hencode node hnode).1
  have hflatten : (nodes.map encode).flatten.length = family.nodeLength * nodes.length := by
    rw [length_flatten_of_forall, List.length_map]
    intro part hpart
    obtain ⟨node, hnode, rfl⟩ := List.mem_map.mp hpart
    exact (hencode node hnode).2
  have hlength : (nodes.map encode).flatten.length = compactNodeLength * nodes.length ∨
      (nodes.map encode).flatten.length = compactNode6Length * nodes.length := by
    rw [hflatten]
    cases family with
    | inet => exact Or.inl rfl
    | inet6 => exact Or.inr rfl
  refine ⟨(nodes.map encode).flatten, ?_⟩
  rw [encodeCompactNodes, assert_true (fun node hnode ↦ (h node hnode).1), ok_bind, hparts, ok_bind]
  simp only
  rw [assert_true hlength, ok_bind]
  rfl

theorem compactRecent (hI : RecordRules W config E I) (h : Good W config I past s)
    {nodeSocket : NodeSocket} (hsocket : nodeSocket ∈ config.nodeSockets) :
    Ensures (DhtCrawler.compactRecent W nodeSocket.family) s (fun result s' ↦
      Good W config I past s' ∧ (result.2 = nodesKey ∨ result.2 = nodes6Key))
      fun _ _ ↦ E := by
  refine (ensures_familyState (Or.inr ?_)).bind ?_
  · rw [h.configured.keys]
    exact CrawlerConfig.family_mem_keys hsocket
  rintro state s ⟨rfl, hget⟩
  have hkept := h.configured.families _ state hget
  have hencoded : Ends (encodeCompactNodes W.net state.recentNodes) (fun _ ↦ True) fun _ ↦ E := by
    by_cases hE : E
    · cases encodeCompactNodes W.net state.recentNodes with
      | ok data => trivial
      | error failure => exact hE
    · have hpacked : ∀ node ∈ state.recentNodes, node.nodeId.length = nodeIdLength ∧
          PackedNode W.net nodeSocket.family node := by
        intro node hnode
        obtain ⟨hknown, hfamily⟩ := hkept.recent node hnode
        have hpacked := (hI.packed _ node h.kept hknown).resolve_left hE
        exact ⟨(CrawlerConfig.accepts_iff.mp hknown.accepted).1, hfamily ▸ hpacked⟩
      obtain ⟨data, hdata⟩ := exists_encodeCompactNodes hpacked
      rw [hdata]
      trivial
  refine (ensures_lift hencoded).bind ?_
  rintro data s ⟨rfl, -⟩
  refine Ensures.pure ⟨h, ?_⟩
  cases hfamily : state.family with
  | inet => exact Or.inl (by rw [FamilyState.nodesKey, hfamily])
  | inet6 => exact Or.inr (by rw [FamilyState.nodesKey, hfamily])

section Queries

variable {address : Address} {nodeSocket : NodeSocket} {replyId : Bytes}

theorem handlePingQuery (hI : ActionRules W config I) (h : Good W config I past s)
    (hsocket : nodeSocket ∈ config.nodeSockets) (hid : replyId.length = nodeIdLength)
    (transactionId : Bytes) :
    Ensures (DhtCrawler.handlePingQuery W transactionId replyId address nodeSocket) s
      (fun _ ↦ Good W config I past) fun _ _ ↦ E := by
  refine (ensures_require (Or.inl hid)).bind ?_
  rintro _ s ⟨rfl, -⟩
  exact hI.reply h (buildsReply_ping hid) hsocket address

theorem handleFindNodeQuery (hI : RecordRules W config E I) (h : Good W config I past s)
    (hsocket : nodeSocket ∈ config.nodeSockets) (hid : replyId.length = nodeIdLength)
    (transactionId : Bytes) :
    Ensures (DhtCrawler.handleFindNodeQuery W transactionId replyId address nodeSocket) s
      (fun _ ↦ Good W config I past) fun _ _ ↦ E := by
  refine (ensures_require (Or.inl hid)).bind ?_
  rintro _ s ⟨rfl, -⟩
  refine (hI.compactRecent h hsocket).bind ?_
  rintro ⟨compactNodes, key⟩ s₁ ⟨h₁, hkey⟩
  exact hI.reply h₁ (buildsReply_findNode hid hkey compactNodes) hsocket address

theorem readInfoHash (hI : ActionRules W config I) (h : Good W config I past s)
    (hsocket : nodeSocket ∈ config.nodeSockets) (transactionId : Bytes) (args : Message) :
    Ensures (DhtCrawler.readInfoHash W transactionId args address nodeSocket) s (fun found s' ↦
      Good W config I past s' ∧ ∀ infoHash ∈ found, infoHash.length = nodeIdLength)
      fun _ _ ↦ E := by
  unfold DhtCrawler.readInfoHash
  split
  next infoHash hread =>
    refine Ensures.pure ⟨h, fun other hother ↦ ?_⟩
    rw [← Option.mem_some.mp hother]
    exact length_of_readNodeId hread
  next =>
    have hcode : errorProtocol ∈ knownErrorCodes := by decide
    refine (hI.reply h (buildsReply_error hcode _) hsocket address).bind fun _ s' h' ↦ ?_
    exact Ensures.pure ⟨h', fun _ hnone ↦ by cases hnone⟩

theorem recordHash (hI : RecordRules W config E I) (h : Good W config I past s)
    {infoHash : Bytes} (hlength : infoHash.length = nodeIdLength) (source : Source)
    {peer : Option Address} (hpeer : ∀ address ∈ peer, isRoutableAddress W.net address) :
    Ensures (DhtCrawler.recordHash W infoHash source peer) s
      (fun _ ↦ Good W config I past) fun _ _ ↦ E := by
  refine (ensures_require (Or.inl hlength)).bind ?_
  rintro _ s ⟨rfl, -⟩
  refine (hI.readWallClock h).bind ?_
  rintro now s₁ ⟨htime, h₁⟩
  have hrecords : (CatalogOp.recordHash infoHash source peer now).Records W :=
    ⟨hlength, hpeer, htime⟩
  refine (hI.callRecord h₁ hrecords).bind fun _ s₂ h₂ ↦ ?_
  refine Ensures.bind (Ensures.modify rfl : Ensures _ _ (fun _ s' ↦ s' = _) _) ?_
  rintro _ _ rfl
  refine Ensures.get ?_
  refine (ensures_require (Or.inl (getLast?_appendBounded (by decide) _ _))).imp ?_ fun _ _ hE ↦ hE
  rintro _ _ ⟨rfl, -⟩
  refine h₂.noted rfl { h₂.configured with hashes := fun other hmem ↦ ?_ }
  rcases mem_of_mem_appendBounded hmem with hold | rfl
  · exact h₂.configured.hashes other hold
  · exact hlength

theorem tokenFor (h : Good W config I past s) (address : Address) :
    Ensures (DhtCrawler.tokenFor W address) s (fun token s' ↦ s' = s ∧ 0 < token.length)
      fun _ _ ↦ E := by
  refine Ensures.get ?_
  have hsecret : 0 < s.tokenSecret.length := by
    rw [h.configured.secret]
    decide
  have hdigest : tokenLength ≤ (W.hmacDigest s.tokenSecret address.1).length := by
    rw [W.length_hmacDigest]
    decide
  exact ensures_lift ((makeToken_ends hsecret hdigest).mono (fun _ htoken ↦ htoken)
    fun _ hfalse ↦ hfalse.elim)

theorem handleGetPeersQuery (hI : RecordRules W config E I) (h : Good W config I past s)
    (hsocket : nodeSocket ∈ config.nodeSockets) (hid : replyId.length = nodeIdLength)
    (transactionId : Bytes) (args : Message) :
    Ensures (DhtCrawler.handleGetPeersQuery W transactionId replyId args address nodeSocket) s
      (fun _ ↦ Good W config I past) fun _ _ ↦ E := by
  refine (ensures_require (Or.inl hid)).bind ?_
  rintro _ s ⟨rfl, -⟩
  refine (readInfoHash hI.toActionRules h hsocket transactionId args).bind ?_
  rintro found s₁ ⟨h₁, hfound⟩
  cases found with
  | none => exact Ensures.pure h₁
  | some infoHash =>
    refine (hI.recordHash h₁ (hfound infoHash rfl) _ fun _ hnone ↦ by cases hnone).bind
      fun _ s₂ h₂ ↦ ?_
    refine (tokenFor h₂ address).bind ?_
    rintro token s₂ ⟨rfl, htoken⟩
    refine (hI.compactRecent h₂ hsocket).bind ?_
    rintro ⟨compactNodes, key⟩ s₃ ⟨h₃, hkey⟩
    exact hI.reply h₃ (buildsReply_getPeers hid hkey htoken compactNodes) hsocket
      address

theorem announcedPeer (h : Good W config I past s)
    (hport : 0 ≤ address.2 ∧ address.2 ≤ 65535 ∨ E) (args : Message) (tokenValid : Bool) :
    Ensures (DhtCrawler.announcedPeer W args address tokenValid) s (fun peer s' ↦
      Good W config I past s' ∧ ∀ address ∈ peer, isRoutableAddress W.net address)
      fun _ _ ↦ E := by
  unfold DhtCrawler.announcedPeer
  split
  next =>
    have hread : Ends (readAnnouncedPort args address.2) (fun _ ↦ True) fun _ ↦ E := by
      rcases hport with hport | hE
      · exact (readAnnouncedPort_ends args hport).mono (fun _ _ ↦ trivial) fun _ h ↦ h.elim
      · cases readAnnouncedPort args address.2 with
        | ok port => trivial
        | error failure => exact hE
    refine (ensures_lift hread).bind ?_
    rintro port s ⟨rfl, -⟩
    cases port with
    | none => exact Ensures.pure ⟨h, fun _ hnone ↦ by cases hnone⟩
    | some port =>
      dsimp only
      split
      next hroutable =>
        refine (h.count _).bind fun _ s' h' ↦ Ensures.pure ⟨h', fun peer hpeer ↦ ?_⟩
        rw [← Option.mem_some.mp hpeer]
        exact hroutable
      next => exact Ensures.pure ⟨h, fun _ hnone ↦ by cases hnone⟩
  next => exact Ensures.pure ⟨h, fun _ hnone ↦ by cases hnone⟩

theorem handleAnnouncePeerQuery (hI : RecordRules W config E I)
    (h : Good W config I past s) (hsocket : nodeSocket ∈ config.nodeSockets)
    (hport : 0 ≤ address.2 ∧ address.2 ≤ 65535 ∨ E) (hid : replyId.length = nodeIdLength)
    (transactionId : Bytes) (args : Message) :
    Ensures (DhtCrawler.handleAnnouncePeerQuery W transactionId replyId args address nodeSocket) s
      (fun _ ↦ Good W config I past) fun _ _ ↦ E := by
  refine (ensures_require (Or.inl hid)).bind ?_
  rintro _ s ⟨rfl, -⟩
  refine (readInfoHash hI.toActionRules h hsocket transactionId args).bind ?_
  rintro found s₁ ⟨h₁, hfound⟩
  cases found with
  | none => exact Ensures.pure h₁
  | some infoHash =>
    refine (tokenFor h₁ address).bind ?_
    rintro token s₁ ⟨rfl, -⟩
    refine (announcedPeer h₁ hport args _).bind ?_
    rintro peer s₂ ⟨h₂, hpeer⟩
    refine (hI.recordHash h₂ (hfound infoHash rfl) _ hpeer).bind fun _ s₃ h₃ ↦ ?_
    split
    next => exact hI.reply h₃ (buildsReply_ping hid) hsocket address
    next =>
      have hcode : errorProtocol ∈ knownErrorCodes := by decide
      exact hI.reply h₃ (buildsReply_error hcode _) hsocket address

theorem handleSampleInfohashesQuery (hI : RecordRules W config E I)
    (h : Good W config I past s) (hsocket : nodeSocket ∈ config.nodeSockets)
    (hid : replyId.length = nodeIdLength) (transactionId : Bytes) :
    Ensures (DhtCrawler.handleSampleInfohashesQuery W transactionId replyId address nodeSocket) s
      (fun _ ↦ Good W config I past) fun _ _ ↦ E := by
  refine (ensures_require (Or.inl hid)).bind ?_
  rintro _ s ⟨rfl, -⟩
  refine Ensures.get ?_
  have hsamples : (s.recentHashes.drop
      (s.recentHashes.length - samplesPerResponse)).flatten.length % nodeIdLength = 0 := by
    rw [length_flatten_of_forall fun part hpart ↦
      h.configured.hashes part (List.mem_of_mem_drop hpart)]
    exact Nat.mul_mod_right _ _
  refine (hI.compactRecent h hsocket).bind ?_
  rintro ⟨compactNodes, key⟩ s₁ ⟨h₁, hkey⟩
  have hinterval : 0 ≤ ownSampleInterval ∧ ownSampleInterval ≤ maxSampleInterval := by decide
  exact hI.reply h₁
    (buildsReply_sampleInfohashes hid hinterval hkey hsamples compactNodes _) hsocket address

theorem idNear (hsocket : nodeSocket ∈ config.nodeSockets) {otherId : Option Bytes}
    {otherwise : Bytes} (hother : ∀ nodeId ∈ otherId, nodeId.length = nodeIdLength)
    (hotherwise : otherwise.length = nodeIdLength) :
    Ensures (DhtCrawler.idNear otherId nodeSocket otherwise) s
      (fun replyId s' ↦ s' = s ∧ replyId.length = nodeIdLength) fun _ _ ↦ E := by
  cases otherId with
  | none => exact Ensures.pure ⟨rfl, hotherwise⟩
  | some nodeId =>
    have hneighbor := neighborNodeId_eq (hother nodeId rfl) (config.length_ownId nodeSocket hsocket)
    refine ensures_lift ?_
    rw [hneighbor]
    exact length_of_neighborNodeId hneighbor

theorem replyIdFor (hsocket : nodeSocket ∈ config.nodeSockets) (queryName : Option BencodeValue)
    (args : Message) :
    Ensures (DhtCrawler.replyIdFor queryName args nodeSocket) s
      (fun replyId s' ↦ s' = s ∧ replyId.length = nodeIdLength) fun _ _ ↦ E := by
  refine (idNear hsocket (fun _ hread ↦ length_of_readNodeId hread)
    (config.length_ownId nodeSocket hsocket)).bind ?_
  rintro nearSender s ⟨rfl, hnear⟩
  split
  next => exact idNear hsocket (fun _ hread ↦ length_of_readNodeId hread) hnear
  next => exact Ensures.pure ⟨rfl, hnear⟩

theorem answerQuery (hI : RecordRules W config E I) (h : Good W config I past s)
    (hsocket : nodeSocket ∈ config.nodeSockets) (hport : 0 ≤ address.2 ∧ address.2 ≤ 65535 ∨ E)
    (hid : replyId.length = nodeIdLength) (queryName : Option BencodeValue) (transactionId : Bytes)
    (args : Message) :
    Ensures (DhtCrawler.answerQuery W queryName transactionId replyId args address nodeSocket) s
      (fun _ ↦ Good W config I past) fun _ _ ↦ E := by
  unfold DhtCrawler.answerQuery
  split
  next => exact handlePingQuery hI.toActionRules h hsocket hid transactionId
  split
  next => exact hI.handleFindNodeQuery h hsocket hid transactionId
  split
  next => exact hI.handleGetPeersQuery h hsocket hid transactionId args
  split
  next => exact hI.handleAnnouncePeerQuery h hsocket hport hid transactionId args
  split
  next => exact hI.handleSampleInfohashesQuery h hsocket hid transactionId
  next =>
    have hcode : errorMethodUnknown ∈ knownErrorCodes := by decide
    exact hI.reply h (buildsReply_error hcode _) hsocket address

theorem handleQuery (hI : RecordRules W config E I) (h : Good W config I past s)
    (hreceived : .received address nodeSocket ∈ past)
    (hport : 0 ≤ address.2 ∧ address.2 ≤ 65535 ∨ E) (message : Message) :
    Ensures (DhtCrawler.handleQuery W message address nodeSocket) s
      (fun _ ↦ Good W config I past) fun _ _ ↦ E := by
  have hsocket := h.configured.received address nodeSocket (h.past hreceived)
  refine (h.count _).bind fun _ s₁ h₁ ↦ ?_
  split
  next transactionId args _ _ =>
    refine (replyIdFor hsocket _ args).bind ?_
    rintro replyId s₁ ⟨rfl, hid⟩
    refine (hI.answerQuery h₁ hsocket hport hid _ transactionId args).bind fun _ s₂ h₂ ↦ ?_
    unfold addSender
    split
    next senderId _ => exact h₂.addNode (Or.inl ⟨nodeSocket, hreceived⟩)
    next => exact Ensures.pure h₂
  next => exact Ensures.pure h₁

end Queries

end RecordRules

namespace HandlerRules

variable {I : List LookupEvent → List Bytes → CrawlerCore → Prop}

/-- A call that answers a message about a transaction of the manager. -/
theorem answer (hI : HandlerRules W config E I) (h : Good W config (I [] []) past s)
    {transactionId : Bytes} (howned : s.lookupManager.ownsTransaction transactionId)
    {call : ℚ → LookupCall} (hcall : ∀ now, (call now).Answers transactionId now) :
    Ensures (DhtCrawler.readClock W >>= fun now ↦ DhtCrawler.callManager W (call now)) s
      (fun _ ↦ Good W config (I [] []) past) fun _ _ ↦ E := by
  have hanswered := hI.answered s.core transactionId (call (W.clock s.readings)) (hcall _) howned
    h.configured.keyed h.configured.filtered h.kept
  refine ensures_readClock.bind ?_
  rintro _ _ ⟨rfl, rfl⟩
  exact hI.callbacks.callManager [] (hI.records.ask h) hanswered

theorem owned_of_ownedTransaction {value : Option BencodeValue} {transactionId : Bytes}
    (h : ownedTransaction s value = some transactionId) :
    value = some (.bytes transactionId) ∧ s.lookupManager.ownsTransaction transactionId := by
  unfold ownedTransaction at h
  split at h
  · split at h
    next howned =>
      rw [← Option.some.inj h]
      exact ⟨rfl, howned⟩
    next => cases h
  · cases h

theorem handleResponse (hI : HandlerRules W config E I) (h : Good W config (I [] []) past s)
    {address : Address} {nodeSocket : NodeSocket} (hreceived : .received address nodeSocket ∈ past)
    (message : Message) :
    Ensures (DhtCrawler.handleResponse W message address) s
      (fun _ ↦ Good W config (I [] []) past) fun _ _ ↦ E := by
  refine (h.count _).bind fun _ s₁ h₁ ↦ ?_
  refine Ensures.get ?_
  split
  next transactionId howned =>
    exact hI.answer h₁ (owned_of_ownedTransaction howned).2 fun now ↦ ⟨rfl, rfl⟩
  next =>
    split
    next fields _ => exact hI.records.takeResponse h₁ hreceived fields
    next => exact Ensures.pure h₁

theorem handleError (hI : HandlerRules W config E I) (h : Good W config (I [] []) past s)
    {address : Address} {nodeSocket : NodeSocket} (hreceived : .received address nodeSocket ∈ past)
    (hport : 0 ≤ address.2 ∧ address.2 ≤ 65535 ∨ E) (message : Message) :
    Ensures (DhtCrawler.handleError W message address nodeSocket) s
      (fun _ ↦ Good W config (I [] []) past) fun _ _ ↦ E := by
  refine (h.count _).bind fun _ s₁ h₁ ↦ ?_
  refine Ensures.get ?_
  split
  next transactionId howned =>
    exact hI.answer h₁ (owned_of_ownedTransaction howned).2 fun now ↦ ⟨rfl, rfl⟩
  next =>
    split
    next => exact RecordRules.fallBack hI.records.toActionRules h₁ hreceived hport
    next => exact Ensures.pure h₁

/-! ## Datagrams -/

theorem handleMessage (hI : HandlerRules W config E I) (h : Good W config (I [] []) past s)
    {address : Address} {nodeSocket : NodeSocket} (hreceived : .received address nodeSocket ∈ past)
    (hport : 0 ≤ address.2 ∧ address.2 ≤ 65535 ∨ E) (message : Message) :
    Ensures (DhtCrawler.handleMessage W message address nodeSocket) s
      (fun _ ↦ Good W config (I [] []) past) fun _ _ ↦ E := by
  unfold DhtCrawler.handleMessage
  split
  next => exact hI.handleResponse h hreceived message
  split
  next => exact hI.records.handleQuery h hreceived hport message
  split
  next => exact hI.handleError h hreceived hport message
  next => exact Ensures.pure h

end HandlerRules

theorem Good.noteAffinity (h : Good W config I past s) {address : Address} {nodeSocket : NodeSocket}
    (hsocket : nodeSocket ∈ config.nodeSockets)
    (hreceived : ∀ c, I c → I { c with history := c.history ++ [.received address nodeSocket] }) :
    Ensures (DhtCrawler.noteAffinity address nodeSocket) s
      (fun _ ↦ Good W config I (.received address nodeSocket :: past)) fun _ _ ↦ E := by
  refine Ensures.get ?_
  refine (ensures_rememberIn socketAffinitySize_pos).bind ?_
  rintro ⟨affinity, isNew⟩ s ⟨rfl, hremember⟩
  have haffinity : affinity = (remember s.socketAffinity address nodeSocket
      socketAffinitySize).1 := congrArg Prod.fst hremember
  have hrecorded : Configured W config
      { s with history := s.history ++ [.received address nodeSocket] } := by
    refine h.configured.record fun other nodeSocket' hmem ↦ ?_
    rw [List.mem_singleton, CrawlerEvent.received.injEq] at hmem
    exact hmem.2 ▸ hsocket
  refine Ensures.modify ⟨{ hrecorded with affinity := fun other nodeSocket' hget ↦ ?_ }, ?_, ?_⟩
  · rw [haffinity] at hget
    rcases get?_remember_cases hget with ⟨rfl, rfl⟩ | hold
    · exact List.mem_append_right _ (List.mem_singleton_self _)
    · exact hrecorded.affinity other nodeSocket' hold
  · exact List.cons_subset.mpr ⟨List.mem_append_right _ (List.mem_singleton_self _),
      List.subset_append_of_subset_left _ h.past⟩
  · exact hreceived _ h.kept

/-- A datagram of a possible port is handled. -/
theorem HandlerRules.handleDatagram {I : List LookupEvent → List Bytes → CrawlerCore → Prop}
    (hI : HandlerRules W config E I) (h : Good W config (I [] []) past s) {address : Address}
    {nodeSocket : NodeSocket} (hsocket : nodeSocket ∈ config.nodeSockets ∨ E)
    (hport : 0 ≤ address.2 ∧ address.2 ≤ 65535 ∨ E)
    (hreceived : ∀ c, I [] [] c →
      I [] [] { c with history := c.history ++ [.received address nodeSocket] }) (data : Bytes) :
    Ensures (DhtCrawler.handleDatagram W data address nodeSocket) s
      (fun _ ↦ Good W config (I [] []) past) fun _ _ ↦ E := by
  refine Ensures.get ?_
  rw [h.configured.config_eq]
  refine (ensures_require hsocket).bind ?_
  rintro _ s ⟨rfl, hsocket⟩
  refine (h.count _).bind fun _ s₁ h₁ ↦ ?_
  refine (h₁.noteAffinity hsocket hreceived).bind fun _ s₂ h₂ ↦ ?_
  have hdone : Good W config (I [] []) past s₂ := h₂.forget (List.subset_cons_self _ _)
  split
  next => exact Ensures.pure hdone
  split
  next message _ =>
    exact (hI.handleMessage h₂ List.mem_cons_self hport message).imp
      (fun _ _ h₃ ↦ h₃.forget (List.subset_cons_self _ _)) fun _ _ hE ↦ hE
  next => exact Ensures.pure hdone
  next => exact Ensures.pure hdone
  next failure hvalue herror =>
    -- the decoder fails with a `ValueError` only
    exfalso
    by_cases hsentence : ∃ value, Sentence data value
    · obtain ⟨value, hsentence⟩ := hsentence
      rw [decodeBencode_eq_ok_iff.mpr hsentence] at herror
      cases herror
    · obtain ⟨text, htext⟩ := decodeBencode_eq_error (not_exists.mp hsentence)
      rw [htext] at herror
      exact hvalue text (Except.error.inj herror).symm

end DhtCrawler

end DhtScraper
