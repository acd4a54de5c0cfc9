import DhtScraper.Catalog.Returns
import DhtScraper.Crawler.Agreement
import DhtScraper.Lookup.Answering

/-!
# No datagram crashes the crawler thread

Whatever a datagram says, `handle_datagram` returns.  Its own assertions follow from what every
crawler keeps; those of the catalog from the protocol of its callers; those of the lookup manager from
the pace of the queries, as long as the times the manager hears of are readings of one clock.
-/

namespace DhtScraper

open Library

/-- The length of an address as the functions of `socket` pack it. -/
def AddressFamily.packedLength : AddressFamily → ℕ
  | .inet => 4
  | .inet6 => 16

/-- An address that a socket can report: of its family, with a port, and readable again when the
crawler may keep it. -/
structure NodeSocket.Reports (net : Inet) (nodeSocket : NodeSocket) (address : Address) : Prop where
  family : addressFamily address.1 = nodeSocket.family
  port : 0 ≤ address.2 ∧ address.2 ≤ 65535
  packed : isRoutableAddress net address → ∃ packed, packAddress net address.1 = .ok packed ∧
    packed.length = nodeSocket.family.packedLength

/-- The times of the environment do not run backwards, and are never negative. -/
structure World.Timed (W : World) : Prop where
  clock : Monotone W.clock
  clock_nonneg : 0 ≤ W.clock 0
  wallClock_nonneg : ∀ n, 0 ≤ W.wallClock n

/-- The call can be made in the state: its time was read before, its datagram is from an address that
the socket can report. -/
def CrawlerCall.Arises (W : World) (s : DhtCrawler) : CrawlerCall → Prop
  | .tick now => now ≤ W.clock s.readings
  | .startPendingLookups now => now ≤ W.clock s.readings
  | .datagram _ address nodeSocket => nodeSocket.Reports W.net address
  | _ => True

/-! ## Compact nodes -/

section Packing

variable {config : CrawlerConfig} {net : Inet} {history : List CrawlerEvent} {node : Node}

theorem packedNode_of_address {family : AddressFamily} {data : Bytes}
    (hid : node.nodeId.length = nodeIdLength)
    (hencoded : encodeCompactAddress net node.address.1 node.address.2 = .ok data)
    (hlength : nodeIdLength + data.length = family.nodeLength) : PackedNode net family node := by
  refine ⟨node.nodeId ++ data, encodeCompactNode_append hencoded, ?_⟩
  rw [List.length_append, hid, hlength]

/-- The compact form of an address tells its family. -/
theorem length_of_compactAddress (hnet : net.Inverse) {data : Bytes}
    (h : data.length = compactAddressLength ∨ data.length = compactAddress6Length) :
    nodeIdLength + data.length = (addressFamily (compactAddress net data).1).nodeLength := by
  rcases h with h | h
  · have hfour : (data.take 4).length = 4 := by
      rw [List.length_take, h]
      rfl
    have hshort : ¬ data.length = compactAddress6Length := by
      rw [h]
      decide
    rw [compactAddress, if_neg hshort, addressFamily, if_neg (hnet.aton _ hfour).1, h]
    rfl
  · have hsixteen : (data.take 16).length = 16 := by
      rw [List.length_take, h]
      rfl
    rw [compactAddress, if_pos h, addressFamily, if_pos (hnet.pton _ hsixteen).1, h]
    rfl

theorem packedNode_of_reports {nodeSocket : NodeSocket} (hreports : nodeSocket.Reports net node.address)
    (hid : node.nodeId.length = nodeIdLength) (hroutable : isRoutableAddress net node.address) :
    PackedNode net (addressFamily node.ip) node := by
  obtain ⟨packed, hpacked, hlength⟩ := hreports.packed hroutable
  have hfamily : addressFamily node.ip = nodeSocket.family := hreports.family
  rw [hfamily]
  refine packedNode_of_address hid (encodeCompactAddress_of_packed hreports.port hpacked ?_) ?_
  · rw [hlength]
    cases nodeSocket.family
    · exact Or.inl rfl
    · exact Or.inr rfl
  · rw [List.length_append, length_toBigEndian, hlength]
    cases nodeSocket.family <;> rfl

/-- The nodes that a crawler keeps can be packed for the family of their address. -/
theorem packedNode_of_known (hnet : net.Inverse)
    (hreported : ∀ address nodeSocket, .received address nodeSocket ∈ history →
      nodeSocket.Reports net address) (h : config.Known net history node) :
    PackedNode net (addressFamily node.ip) node := by
  obtain ⟨hid, -, -, hroutable⟩ := CrawlerConfig.accepts_iff.mp h.accepted
  rcases h.sourced with ⟨nodeSocket, hreceived⟩ | ⟨data, hlength, haddress⟩
  · exact packedNode_of_reports (hreported _ nodeSocket hreceived) hid hroutable
  · have hip : node.ip = (compactAddress net data).1 := congrArg Prod.fst haddress
    have hencoded := encode_compactAddress hnet hlength
    rw [← haddress] at hencoded
    exact packedNode_of_address hid hencoded (hip ▸ length_of_compactAddress hnet hlength)

end Packing

namespace DhtCrawler

variable {W : World} {config : CrawlerConfig} {limits : CatalogLimits} {since : ℕ} {s : DhtCrawler}

/-! ## The invariant -/

/-- The manager returned from its calls, at a pace that its clock allows, and knows no time that is
not read yet; every datagram came in on a socket. -/
structure Clocked (W : World) (config : CrawlerConfig) (since : ℕ) (c : CrawlerCore) : Prop where
  paced : c.lookupManager.Paced config.lookupLimits
  returned : c.lookupManager.raised = false
  seen : c.lookupManager.tokensTime ≤ W.clock c.readings
  since : since ≤ c.readings
  reported : ∀ address nodeSocket, .received address nodeSocket ∈ c.history →
    nodeSocket.Reports W.net address

namespace Clocked

variable {c : CrawlerCore}

theorem ask (h : Clocked W config since c) (hclock : Monotone W.clock) :
    Clocked W config since { c with readings := c.readings + 1 } :=
  { h with
    seen := h.seen.trans (hclock (Nat.le_succ _))
    since := h.since.trans (Nat.le_succ _) }

/-- Events that are no datagrams. -/
theorem noted (h : Clocked W config since c) {event : CrawlerEvent}
    (hevent : ∀ address nodeSocket, event ≠ .received address nodeSocket) :
    Clocked W config since { c with history := c.history ++ [event] } :=
  { h with
    reported := fun address nodeSocket hmem ↦ by
      rcases List.mem_append.mp hmem with hold | hnew
      · exact h.reported address nodeSocket hold
      · exact absurd (List.mem_singleton.mp hnew).symm (hevent address nodeSocket) }

theorem executed (h : Clocked W config since c) (op : CatalogOp) :
    Clocked W config since (c.executed op) := by
  have hnoted : Clocked W config since { c with history := c.history ++ [.called op] } :=
    h.noted fun _ _ heq ↦ by cases heq
  exact { hnoted with }

/-- A datagram came in on a socket. -/
theorem received (h : Clocked W config since c) {address : Address} {nodeSocket : NodeSocket}
    (hreports : nodeSocket.Reports W.net address) :
    Clocked W config since { c with history := c.history ++ [.received address nodeSocket] } :=
  { h with
    reported := fun other nodeSocket' hmem ↦ by
      rcases List.mem_append.mp hmem with hold | hnew
      · exact h.reported other nodeSocket' hold
      · rw [List.mem_singleton, CrawlerEvent.received.injEq] at hnew
        rw [hnew.1, hnew.2]
        exact hreports }

/-- A call of the manager at a time that was read. -/
theorem called (h : Clocked W config since c) (hkeyed : c.lookupManager.Keyed) (call : LookupCall)
    (hcall : call.Until (W.clock c.readings)) :
    Called True (c.lookupManager.apply W.net call).raised (Clocked W config since
      { c with lookupManager := c.lookupManager.apply W.net call }) :=
  ⟨fun _ ↦ trivial, fun hreturned ↦
    { h with
      paced := ((LookupManager.paced_rules W.net config.lookupLimits).apply hkeyed h.paced call
        (LookupManager.callOffer_any W.net c.lookupManager call)).2
      returned := hreturned
      seen := LookupManager.tokensTime_apply W.net h.seen hcall }⟩

end Clocked

theorem clocked_callbacks (hclock : Monotone W.clock) :
    CallbackRules W config True fun _ _ c ↦ Clocked W config since c where
  actions := fun _ _ ↦ ⟨fun _ h ↦ h.ask hclock, fun _ _ h ↦ { h with }, fun _ _ _ _ h ↦ { h with }⟩
  skipped := fun _ _ _ _ _ h ↦ h
  foundPeers := fun _ _ _ _ _ _ _ _ h ↦ ⟨fun _ ↦ trivial, fun _ ↦ h.executed _⟩
  finished := fun _ _ _ _ _ _ _ _ _ h ↦ ⟨fun _ ↦ trivial, fun _ ↦ h.executed _⟩

theorem clocked_rules (hclock : Monotone W.clock) :
    CrawlerRules W config (fun now ↦ now ≤ W.clock since) fun _ _ c ↦ Clocked W config since c where
  callbacks := clocked_callbacks hclock
  records :=
    { (clocked_callbacks hclock).actions [] [] with
      recorded := fun _ op _ h ↦ ⟨fun _ ↦ trivial, fun _ ↦ h.executed op⟩
      packed := fun _ _ _ _ ↦ Or.inl trivial }
  answered := by
    intro c transactionId call hcall _ hkeyed _ h
    have hcalled := h.called hkeyed call (by
      cases call <;> first | exact hcall.2.le | cases hcall)
    exact ⟨fun _ ↦ trivial, fun hreturned ↦ (hcalled.2 hreturned).ask hclock⟩
  resolved := fun _ _ _ _ _ _ _ h ↦ h.noted fun _ _ heq ↦ by cases heq
  claimed := fun _ _ _ h ↦ ⟨fun _ ↦ trivial, fun _ ↦ h.executed _⟩
  released := fun _ _ _ h ↦ ⟨fun _ ↦ trivial, fun _ ↦ h.executed _⟩
  started := fun c infoHash _ seeds now hint hnow hkeyed _ h ↦
    h.called hkeyed (.startLookup infoHash seeds now hint) (hnow.trans (hclock h.since))
  upkeep := fun c call hcall hkeyed _ h ↦ h.called hkeyed call (by
    cases call <;> first | exact hcall.trans (hclock h.since) | trivial)

/-! ## Nothing is raised -/

/-- The property under which a datagram is handled. -/
def Ready (W : World) (config : CrawlerConfig) (limits : CatalogLimits) (since : ℕ)
    (events : List LookupEvent) (claimed : List Bytes) (c : CrawlerCore) : Prop :=
  Agreed limits events claimed c ∧ Clocked W config since c

theorem ready_rules (hclock : Monotone W.clock) :
    CrawlerRules W config (fun now ↦ now ≤ W.clock since) (Ready W config limits since) :=
  (agreed_rules W config limits).and (clocked_rules hclock)

theorem Ready.received {events : List LookupEvent} {claimed : List Bytes} {c : CrawlerCore}
    (h : Ready W config limits since events claimed c) {address : Address} {nodeSocket : NodeSocket}
    (hreports : nodeSocket.Reports W.net address) :
    Ready W config limits since events claimed
      { c with history := c.history ++ [.received address nodeSocket] } :=
  ⟨h.1.noted rfl, h.2.received hreports⟩

/-- No assertion of the catalog or of the manager fails, and every node can be packed. -/
theorem ready_handlers (hlimits : config.lookupLimits.Unhurried) (htimed : W.Timed)
    (hnet : W.net.Inverse) : HandlerRules W config False (Ready W config limits since) := by
  have hrules : HandlerRules W config True (Ready W config limits since) :=
    (ready_rules htimed.clock).toHandlerRules
  have hsteady {events : List LookupEvent} {claimed : List Bytes} {c : CrawlerCore}
      (h : Ready W config limits since events claimed c) :
      Steady limits c.session.catalog.settle c.session.fetchClaims c.session.lookupClaims := by
    obtain ⟨ops, hled, -⟩ := h.1.led
    exact (Session.steady_of_leads hled).settle
  exact
    { callbacks :=
        { actions := hrules.callbacks.actions
          skipped := hrules.callbacks.skipped
          foundPeers := fun number infoHash peers rest claimed c hlength hpeers h ↦
            (hrules.callbacks.foundPeers number infoHash peers rest claimed c hlength hpeers
              h).returns (TorrentCatalog.addPeers_raised hlength peers)
          finished := fun number infoHash peers n rest claimed c hlength hpeers h ↦
            (hrules.callbacks.finished number infoHash peers n rest claimed c hlength hpeers
              h).returns ((hsteady h).addLookupResult hlength (htimed.wallClock_nonneg n) peers) }
      records :=
        { hrules.callbacks.actions [] [] with
          recorded := by
            intro c op hop h
            refine (hrules.records.recorded c op hop h).returns ?_
            cases op with
            | recordHash infoHash source peer now =>
              obtain ⟨hlength, -, n, rfl⟩ := hop
              exact (hsteady h).recordHash hlength (htimed.wallClock_nonneg n) source peer
            | recordHashes infoHashes source now =>
              obtain ⟨hlength, n, rfl⟩ := hop
              exact (hsteady h).recordHashes hlength (htimed.wallClock_nonneg n) source
            | _ => exact hop.elim
          packed := fun c node h hknown ↦ Or.inr (packedNode_of_known hnet h.2.reported hknown) }
      answered := by
        intro c transactionId call hcall howned hkeyed hfiltered h
        refine (hrules.answered c transactionId call hcall howned hkeyed hfiltered h).returns ?_
        have hnonneg : 0 ≤ W.clock c.readings :=
          htimed.clock_nonneg.trans (htimed.clock (Nat.zero_le _))
        have hanswerable : c.lookupManager.Answerable W.net config.lookupLimits
            (config.accepts W.net) (W.clock c.readings) :=
          ⟨hkeyed, hfiltered, h.2.paced, hnonneg, h.2.seen⟩
        cases call with
        | handleResponse asked response address now =>
          obtain ⟨rfl, rfl⟩ := hcall
          exact (hanswerable.raised_handleResponse hlimits howned response address).trans
            h.2.returned
        | handleError asked now =>
          obtain ⟨rfl, rfl⟩ := hcall
          exact (hanswerable.raised_handleError hlimits howned).trans h.2.returned
        | _ => cases hcall }

/-! ## Runs -/

theorem run_ready (htimed : W.Timed) {ops : List CatalogOp} {session : Session}
    {calls : List CrawlerCall} (hsession : catalogMachine.Leads Permitted (.new limits) ops session)
    (hidle : session.lookupClaims = ∅)
    (harises : (crawlerMachine W).Along (fun s call ↦ call.Arises W s) (new W config session) calls)
    (hrun : (crawlerMachine W).run (new W config session) calls = some s) :
    Good W config (Ready W config limits 0 [] []) [] s := by
  have hstart : Clocked W config 0 (new W config session).core :=
    { paced := LookupManager.paced_new _ _ _
      returned := rfl
      seen := htimed.clock (Nat.le_succ 1)
      since := Nat.zero_le _
      reported := fun _ _ hmem ↦ absurd hmem List.not_mem_nil }
  refine (crawlerMachine W).run_guarded_invariant
    (I := Good W config (Ready W config limits 0 [] []) []) ?_
    ⟨configured_new W config session, List.nil_subset _, agreed_new hsession hidle, hstart⟩
    harises hrun
  intro s call s' h harise hstep
  have hgood : Good W config (Ready W config limits s.readings [] []) [] s :=
    ⟨h.configured, h.past, h.kept.1, { h.kept.2 with since := le_rfl }⟩
  have htimely : Timely W (fun now ↦ now ≤ W.clock s.readings) s call := by
    cases call <;> first | exact harise | exact le_rfl | trivial
  have hreceived : ∀ data address nodeSocket, call = .datagram data address nodeSocket →
      ∀ c, Ready W config limits s.readings [] [] c → Ready W config limits s.readings [] []
        { c with history := c.history ++ [.received address nodeSocket] } := by
    rintro data address nodeSocket rfl c hc
    exact hc.received harise
  have hnext := ((ready_rules htimed.clock).perform hgood htimely hreceived).ok
    (perform_of_step hstep)
  exact ⟨hnext.configured, hnext.past, hnext.kept.1, { hnext.kept.2 with since := Nat.zero_le _ }⟩

/-- No datagram crashes the crawler thread.  In every state that the calls of the thread lead to,
with the other threads at work on the catalog, any bytes from any address that a socket of the crawler
can report are handled to the end: no assertion fails and no exception escapes. -/
theorem datagrams_handled (hlimits : config.lookupLimits.Unhurried) (htimed : W.Timed)
    (hnet : W.net.Inverse) {ops : List CatalogOp} {session : Session} {calls : List CrawlerCall}
    (hsession : catalogMachine.Leads Permitted (.new limits) ops session)
    (hidle : session.lookupClaims = ∅)
    (harises : (crawlerMachine W).Along (fun s call ↦ call.Arises W s) (new W config session) calls)
    (hrun : (crawlerMachine W).run (new W config session) calls = some s) (data : Bytes)
    {address : Address} {nodeSocket : NodeSocket} (hsocket : nodeSocket ∈ config.nodeSockets)
    (hreports : nodeSocket.Reports W.net address) :
    ∃ s', (crawlerMachine W).step s (.datagram data address nodeSocket) = some s' := by
  have hready := run_ready htimed hsession hidle harises hrun
  have hhandled : Ensures (handleDatagram W data address nodeSocket) s
      (fun _ ↦ Good W config (Ready W config limits 0 [] []) []) fun _ _ ↦ False :=
    (ready_handlers hlimits htimed hnet).handleDatagram hready (Or.inl hsocket) (Or.inl hreports.port)
      (fun _ h ↦ h.received hreports) data
  cases hrun : handleDatagram W data address nodeSocket s with
  | ok a s' =>
    refine ⟨s', ?_⟩
    have hperform : perform W (.datagram data address nodeSocket) s = .ok a s' := hrun
    simp only [crawlerMachine, hperform]
  | error e s' => exact (hhandled.error hrun).elim

/-- A reply of the node that the lookup asked, with a value of another type in every place. -/
def oddReplyData : Bytes :=
  ascii "d1:rd2:idi7e5:nodesle6:nodes6d1:ai1ee5:token0:6:valuesli1e3:abcee1:t4:".toList ++
    lookupTransactionId 0 ++ ascii "1:y1:re".toList

/-- The reply ends the only lookup of the sample run. -/
theorem datagrams_handled_sample :
    ∃ s s', (crawlerMachine sampleWorld).run sampleCrawler sampleCalls = some s ∧
      s.lookupManager.active.size = 1 ∧
        (crawlerMachine sampleWorld).step s
          (.datagram oddReplyData ("8.8.8.1".toList, 6881) sampleSocket) = some s' ∧
            s'.lookupManager.active.size = 0 := by
  have heval : ((crawlerMachine sampleWorld).run sampleCrawler sampleCalls).any fun s ↦
      s.lookupManager.active.size = 1 && ((crawlerMachine sampleWorld).step s
        (.datagram oddReplyData ("8.8.8.1".toList, 6881) sampleSocket)).any fun s' ↦
          s'.lookupManager.active.size = 0 := by
    decide +kernel
  rw [Option.any_eq_true] at heval
  obtain ⟨s, hrun, heval⟩ := heval
  rw [Bool.and_eq_true, decide_eq_true_eq] at heval
  obtain ⟨hone, hended⟩ := heval
  have htimed : sampleWorld.Timed := ⟨monotone_const, le_rfl, fun _ ↦ le_rfl⟩
  have hreports : sampleSocket.Reports plainInet ("8.8.8.1".toList, 6881) :=
    ⟨by decide, by decide, fun _ ↦ ⟨[8, 8, 8, 1], by decide +kernel, rfl⟩⟩
  have harises : (crawlerMachine sampleWorld).Along (fun s call ↦ call.Arises sampleWorld s)
      sampleCrawler sampleCalls :=
    ⟨hreports, fun _ _ ↦ ⟨le_rfl, fun _ _ ↦ trivial⟩⟩
  obtain ⟨s', hstep⟩ := datagrams_handled defaultLookupLimits_unhurried htimed plainInet_inverse
    (.refl catalogMachine Permitted (.new oneLookup)) rfl harises hrun oddReplyData
    (List.mem_singleton_self sampleSocket) hreports
  rw [hstep, Option.any_some, decide_eq_true_eq] at hended
  exact ⟨s, s', hrun, hone, hstep, hended⟩

end DhtCrawler

end DhtScraper
