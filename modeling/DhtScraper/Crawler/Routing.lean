import DhtScraper.Crawler.Runs

/-!
# Where the crawler sends queries

Remote nodes name addresses in many places: compact nodes of two families, peer values,
announcements, and the source addresses of their datagrams.  Whatever they send, a query goes to an
address that the resolver returned, that was heard from, or that is routable; and the catalog gets
routable peers only.
-/

namespace DhtScraper

open Library

/-- The peers that an operation gives to the catalog. -/
def CatalogOp.peersGiven : CatalogOp → List Address
  | .recordHash _ _ peer _ => peer.toList
  | .addPeers _ peers => peers
  | .addLookupResult _ peers _ => peers
  | _ => []

theorem CatalogOp.Records.peersGiven {W : World} {op : CatalogOp} (h : op.Records W) :
    ∀ peer ∈ op.peersGiven, isRoutableAddress W.net peer := by
  cases op with
  | recordHash infoHash source peer now =>
    intro address haddress
    exact h.2.1 address (Option.mem_toList.mp haddress)
  | recordHashes infoHashes source now => exact fun _ hpeer ↦ absurd hpeer List.not_mem_nil
  | _ => exact h.elim

/-- The windows say whether a packet may leave; they do not send it. -/
theorem Sender.sent_allowSend (sender : Sender) (ip : Text) (now : ℚ) :
    (sender.allowSend ip now).1.sent = sender.sent := by
  -- the fields get names, so that nothing compares the tables of windows
  obtain ⟨windows, packets, throttled, sent⟩ := sender
  unfold Sender.allowSend
  generalize remember _ ip (now, 1) sendWindowEntries = remembered
  obtain ⟨remembered, isNew⟩ := remembered
  dsimp only
  split
  · rfl
  · split
    · rfl
    · split <;> rfl

/-- Nothing leaves a sender but the call it is given. -/
theorem Sender.mem_sent_sendMessage {sender : Sender} {call other : SendCall}
    (h : other ∈ (sender.sendMessage call).1.sent) : other ∈ sender.sent ∨ other = call := by
  have hsent := sender.sent_allowSend call.address.1 call.now
  simp only [Sender.sendMessage] at h
  generalize sender.allowSend call.address.1 call.now = result at h hsent
  rw [← hsent]
  split at h
  · exact Or.inl h
  · split at h
    · exact Or.inl h
    · exact (List.mem_append.mp h).imp_right List.mem_singleton.mp

/-- What the crawler heard and resolved has the family it was heard or resolved for, queries went
where they may go, and the catalog was given routable peers. -/
structure Contained (W : World) (config : CrawlerConfig) (c : CrawlerCore) : Prop where
  received : ∀ address nodeSocket, .received address nodeSocket ∈ c.history →
    nodeSocket.family = addressFamily address.1
  resolved : ∀ host port family ips, .resolved host port family ips ∈ c.history →
    ∀ ip ∈ ips, addressFamily ip = family
  queries : ∀ call ∈ c.sender.sent, isQuery call.message →
    call.nodeSocket ∈ config.nodeSockets ∧
      config.Targets W.net c.history call.nodeSocket call.address
  peers : ∀ op, .called op ∈ c.history → ∀ peer ∈ op.peersGiven, isRoutableAddress W.net peer

namespace Contained

variable {W : World} {config : CrawlerConfig} {c c' : CrawlerCore}

/-- Steps that neither send nor record anything. -/
theorem of_eq (h : Contained W config c) (hsender : c'.sender = c.sender)
    (hhistory : c'.history = c.history) : Contained W config c' where
  received := hhistory ▸ h.received
  resolved := hhistory ▸ h.resolved
  queries := hsender ▸ hhistory ▸ h.queries
  peers := hhistory ▸ h.peers

/-- One more event in the history. -/
theorem record (h : Contained W config c) {event : CrawlerEvent}
    (hreceived : ∀ address nodeSocket, event = .received address nodeSocket →
      nodeSocket.family = addressFamily address.1)
    (hresolved : ∀ host port family ips, event = .resolved host port family ips →
      ∀ ip ∈ ips, addressFamily ip = family)
    (hpeers : ∀ op, event = .called op → ∀ peer ∈ op.peersGiven, isRoutableAddress W.net peer) :
    Contained W config { c with history := c.history ++ [event] } where
  received := fun address nodeSocket hmem ↦ (List.mem_append.mp hmem).elim
    (h.received address nodeSocket) fun hnew ↦
      hreceived address nodeSocket (List.mem_singleton.mp hnew).symm
  resolved := fun host port family ips hmem ↦ (List.mem_append.mp hmem).elim
    (h.resolved host port family ips) fun hnew ↦
      hresolved host port family ips (List.mem_singleton.mp hnew).symm
  queries := fun call hcall hquery ↦ ⟨(h.queries call hcall hquery).1,
    (h.queries call hcall hquery).2.mono (List.subset_append_left _ _)⟩
  peers := fun op hmem ↦ (List.mem_append.mp hmem).elim (h.peers op) fun hnew ↦
    hpeers op (List.mem_singleton.mp hnew).symm

theorem executed (h : Contained W config c) {op : CatalogOp}
    (hop : ∀ peer ∈ op.peersGiven, isRoutableAddress W.net peer) :
    Contained W config (c.executed op) := by
  have hrecorded : Contained W config { c with history := c.history ++ [.called op] } := by
    refine h.record (fun _ _ heq ↦ by cases heq) (fun _ _ _ _ heq ↦ by cases heq) ?_
    intro other heq
    rwa [← CrawlerEvent.called.inj heq]
  exact hrecorded.of_eq rfl rfl

theorem sent (h : Contained W config c) {call : SendCall}
    (hsocket : call.nodeSocket ∈ config.nodeSockets)
    (htarget : isQuery call.message →
      config.Targets W.net c.history call.nodeSocket call.address) :
    Contained W config { c with sender := (c.sender.sendMessage call).1 } where
  received := h.received
  resolved := h.resolved
  queries := by
    intro other hother hquery
    rcases Sender.mem_sent_sendMessage hother with hold | rfl
    · exact h.queries other hold hquery
    · exact ⟨hsocket, htarget hquery⟩
  peers := h.peers

/-- A query goes out over a socket of its destination's family. -/
theorem family_eq (h : Contained W config c) {nodeSocket : NodeSocket} {address : Address}
    (htarget : config.Targets W.net c.history nodeSocket address) :
    nodeSocket.family = addressFamily address.1 := by
  rcases htarget with ⟨host, port, ips, -, hresolved, hip⟩ | hreceived | ⟨-, hfamily⟩
  · exact (h.resolved host port _ ips hresolved _ hip).symm
  · exact h.received _ _ hreceived
  · exact hfamily

end Contained

namespace DhtCrawler

variable {W : World} {config : CrawlerConfig} {s : DhtCrawler}

theorem contained_rules (W : World) (config : CrawlerConfig)
    (hresolver : ∀ n host port family ips, W.resolver n host port family = some ips →
      ∀ ip ∈ ips, addressFamily ip = family) :
    CrawlerRules W config (fun _ ↦ True) fun _ _ c ↦ Contained W config c := by
  have hactions : ActionRules W config (Contained W config) :=
    { asked := fun c h ↦ h.of_eq rfl rfl
      interfered := fun c ops h ↦ h.of_eq rfl rfl
      sent := fun c call hsocket htarget h ↦ h.sent hsocket htarget }
  have hmanager {c : CrawlerCore} (h : Contained W config c) (m : LookupManager) (n : ℕ) :
      Contained W config { c with readings := n, lookupManager := m } := h.of_eq rfl rfl
  exact
    { callbacks :=
        { actions := fun _ _ ↦ hactions
          skipped := fun _ _ _ _ _ h ↦ h
          foundPeers := fun _ _ _ _ _ _ _ hpeers h ↦ ⟨fun _ ↦ trivial, fun _ ↦ h.executed hpeers⟩
          finished := fun _ _ _ _ _ _ _ _ hpeers h ↦
            ⟨fun _ ↦ trivial, fun _ ↦ h.executed hpeers⟩ }
      records :=
        { hactions with
          recorded := fun c op hop h ↦ ⟨fun _ ↦ trivial, fun _ ↦ h.executed hop.peersGiven⟩
          packed := fun _ _ _ _ ↦ Or.inl trivial }
      answered := fun c _ _ _ _ _ _ h ↦ ⟨fun _ ↦ trivial, fun _ ↦ hmanager h _ _⟩
      resolved := by
        intro c n host port family ips hips h
        refine h.record (fun _ _ heq ↦ by cases heq) ?_ fun _ heq ↦ by cases heq
        rintro _ _ _ _ ⟨⟩
        exact hresolver n host port family ips hips
      claimed := fun c _ _ h ↦ ⟨fun _ ↦ trivial, fun _ ↦
        h.executed fun _ hpeer ↦ absurd hpeer List.not_mem_nil⟩
      released := fun c _ _ h ↦ ⟨fun _ ↦ trivial, fun _ ↦
        h.executed fun _ hpeer ↦ absurd hpeer List.not_mem_nil⟩
      started := fun c _ _ _ _ _ _ _ _ h ↦ ⟨fun _ ↦ trivial, fun _ ↦ hmanager h _ _⟩
      upkeep := fun c _ _ _ _ h ↦ ⟨fun _ ↦ trivial, fun _ ↦ hmanager h _ _⟩ }

theorem contained_new (W : World) (config : CrawlerConfig) (session : Session) :
    Contained W config (new W config session).core where
  received := fun _ _ hmem ↦ absurd hmem List.not_mem_nil
  resolved := fun _ _ _ _ hmem ↦ absurd hmem List.not_mem_nil
  queries := fun _ hmem ↦ absurd hmem List.not_mem_nil
  peers := fun _ hmem ↦ absurd hmem List.not_mem_nil

/-- A node that the crawler may keep has none of the crawler's own suffixes. -/
def Stranger (config : CrawlerConfig) (node : Node) : Prop :=
  ∀ nodeSocket ∈ config.nodeSockets,
    node.nodeId.drop neighborPrefixLength ≠ nodeSocket.ownId.drop neighborPrefixLength

theorem stranger_of_accepts {node : Node} (h : config.accepts W.net node) :
    Stranger config node := by
  intro nodeSocket hsocket heq
  refine (CrawlerConfig.accepts_iff.mp h).2.1 ?_
  rw [heq]
  exact List.mem_map_of_mem hsocket

/-- The nodes that the crawler stores: in the queues, as recent nodes, as hints and in the
shortlists of lookups. -/
def storedNodes (s : DhtCrawler) : List Node :=
  s.families.values.flatMap FamilyState.nodeQueue
    ++ s.families.values.flatMap FamilyState.recentNodes ++ s.hintNodes.values
    ++ s.lookupManager.active.values.flatMap fun lookup ↦ lookup.shortlist.values

/-- Every stored node passed the filter of foreign nodes. -/
theorem Configured.storedNodes (h : Configured W config s) :
    ∀ node ∈ s.storedNodes, config.accepts W.net node := by
  intro node hnode
  simp only [DhtCrawler.storedNodes, List.mem_append, List.mem_flatMap] at hnode
  rcases hnode with ((⟨state, hstate, hqueued⟩ | ⟨state, hstate, hrecent⟩) | hhint) |
    ⟨lookup, hlookup, hlisted⟩
  · obtain ⟨family, hget⟩ := OrderedMap.mem_values_iff.mp hstate
    exact ((h.families family state hget).queued node hqueued).accepted
  · obtain ⟨family, hget⟩ := OrderedMap.mem_values_iff.mp hstate
    exact ((h.families family state hget).recent node hrecent).1.accepted
  · obtain ⟨infoHash, hget⟩ := OrderedMap.mem_values_iff.mp hhint
    exact (h.hints infoHash node hget).accepted
  · obtain ⟨infoHash, hget⟩ := OrderedMap.mem_values_iff.mp hlookup
    exact ((h.filtered.lookups infoHash lookup hget).shortlist node hlisted).2

/-- Whatever datagrams arrive, each on a socket of its family: a query goes to an address that the
resolver returned, that was heard from or that is routable, over a socket of its family; no stored
node has one of the crawler's own suffixes; and every peer given to the catalog is routable. -/
theorem queries_contained {session : Session} {calls : List CrawlerCall}
    (hresolver : ∀ n host port family ips, W.resolver n host port family = some ips →
      ∀ ip ∈ ips, addressFamily ip = family)
    (harrives : ∀ data address nodeSocket, .datagram data address nodeSocket ∈ calls →
      nodeSocket.family = addressFamily address.1)
    (hrun : (crawlerMachine W).run (new W config session) calls = some s) :
    (∀ call ∈ s.sender.sent, isQuery call.message →
      call.nodeSocket ∈ config.nodeSockets ∧ call.nodeSocket.family = addressFamily call.address.1 ∧
        ((∃ host port family ips, .resolved host port family ips ∈ s.history ∧
            call.address.1 ∈ ips) ∨
          (∃ nodeSocket, .received call.address nodeSocket ∈ s.history) ∨
            isRoutableAddress W.net call.address)) ∧
      (∀ node ∈ s.storedNodes, Stranger config node) ∧
        ∀ op, .called op ∈ s.history → ∀ peer ∈ op.peersGiven, isRoutableAddress W.net peer := by
  have hgood : Good W config (Contained W config) [] s :=
    (contained_rules W config hresolver).run
      (fun address nodeSocket hfamily c h ↦ h.record
        (fun _ _ heq ↦ by cases heq; exact hfamily) (fun _ _ _ _ heq ↦ by cases heq)
        fun _ heq ↦ by cases heq) (contained_new W config session) harrives hrun
  refine ⟨fun call hcall hquery ↦ ?_, fun node hnode ↦ ?_, hgood.kept.peers⟩
  · obtain ⟨hsocket, htarget⟩ := hgood.kept.queries call hcall hquery
    refine ⟨hsocket, hgood.kept.family_eq htarget, ?_⟩
    rcases htarget with ⟨host, port, ips, -, hresolved, hip⟩ | hreceived | ⟨hroutable, -⟩
    · exact Or.inl ⟨host, port, _, ips, hresolved, hip⟩
    · exact Or.inr (Or.inl ⟨_, hreceived⟩)
    · exact Or.inr (Or.inr hroutable)
  · exact stranger_of_accepts (hgood.configured.storedNodes node hnode)

/-- The resolver knows IPv4 addresses only. -/
def resolvingWorld : World :=
  { sampleWorld with
    resolver := fun _ _ _ family ↦ if family = .inet then some ["8.8.4.4".toList] else none }

/-- A run that bootstraps, hears a query and asks the node that sent it: a query goes to a resolved
address and another to one that was heard. -/
theorem queries_contained_sample :
    ∃ s, (crawlerMachine resolvingWorld).run (.new resolvingWorld sampleCrawlerConfig
        (.new oneLookup)) (.bootstrap :: sampleCalls) = some s ∧
      (s.sender.sent.filter fun call ↦ isQuery call.message).map SendCall.address =
          [("8.8.4.4".toList, 6881), ("8.8.8.1".toList, 6881)] ∧
        ∀ call ∈ s.sender.sent, isQuery call.message →
          call.nodeSocket.family = addressFamily call.address.1 := by
  have heval : ((crawlerMachine resolvingWorld).run (.new resolvingWorld sampleCrawlerConfig
      (.new oneLookup)) (.bootstrap :: sampleCalls)).any fun s ↦
        (s.sender.sent.filter fun call ↦ isQuery call.message).map SendCall.address =
          [("8.8.4.4".toList, 6881), ("8.8.8.1".toList, 6881)] := by
    decide +kernel
  rw [Option.any_eq_true] at heval
  obtain ⟨s, hrun, hsent⟩ := heval
  have hcontained := queries_contained (fun n host port family ips hips ip hip ↦ ?_) ?_ hrun
  · exact ⟨s, hrun, of_decide_eq_true hsent, fun call hcall hquery ↦
      (hcontained.1 call hcall hquery).2.1⟩
  · simp only [resolvingWorld] at hips
    split at hips
    next hfamily =>
      rw [← Option.some.inj hips, List.mem_singleton] at hip
      rw [hip, hfamily]
      decide
    next => cases hips
  · intro data address nodeSocket hmem
    simp only [sampleCalls, sampleGetPeers, List.mem_cons, List.not_mem_nil, reduceCtorEq, or_false,
      false_or, CrawlerCall.datagram.injEq] at hmem
    rw [hmem.2.1, hmem.2.2]
    decide

end DhtCrawler

end DhtScraper
