import DhtScraper.Crawler.Datagrams

/-!
# Induction over the calls of the crawler thread

`CrawlerRules` adds what a property has to survive in bootstraps, crawl steps and lookup steps to
the rules for datagrams.  These calls may raise; nothing is claimed then.
-/

namespace DhtScraper

open Library

/-- The calls of the manager that no message and no hash causes, at times that are allowed. -/
def LookupCall.Upkeep (Moment : ℚ → Prop) : LookupCall → Prop
  | .tick now => Moment now
  | .refill now => Moment now
  | .abortAll => True
  | _ => False

namespace DhtCrawler

variable (W : World) (config : CrawlerConfig)

/-- What a property has to survive in the calls of the crawler thread. -/
structure CrawlerRules (Moment : ℚ → Prop) (I : List LookupEvent → List Bytes → CrawlerCore → Prop) :
    Prop extends HandlerRules W config True I where
  resolved : ∀ c n host port family ips, W.resolver n host port family = some ips → I [] [] c →
    I [] [] { c with history := c.history ++ [.resolved host port family ips] }
  claimed : ∀ c limit n, I [] [] c →
    let c' := c.executed (.hashesNeedingPeers limit (W.wallClock n))
    Called True c'.session.catalog.raised
      (I [] (c.session.catalog.settle.hashesNeedingPeers limit (W.wallClock n)).2 c')
  released : ∀ c infoHash rest, I [] (infoHash :: rest) c →
    let c' := c.executed (.releaseLookupClaim infoHash)
    Called True c'.session.catalog.raised (I [] rest c')
  started : ∀ c infoHash rest seeds now hint, Moment now → c.lookupManager.Keyed →
    c.lookupManager.Filtered W.net config.lookupLimits (config.accepts W.net) →
      I [] (infoHash :: rest) c →
        let call := LookupCall.startLookup infoHash seeds now hint
        let result := c.lookupManager.startLookup infoHash seeds now hint
        Called True result.1.raised (I (CrawlerCore.newEvents W.net c.lookupManager call)
          (if result.2 then rest else infoHash :: rest) { c with lookupManager := result.1 })
  upkeep : ∀ c call, call.Upkeep Moment → c.lookupManager.Keyed →
    c.lookupManager.Filtered W.net config.lookupLimits (config.accepts W.net) → I [] [] c →
      let m := c.lookupManager.apply W.net call
      Called True m.raised (I (CrawlerCore.newEvents W.net c.lookupManager call) []
        { c with lookupManager := m })

variable {W : World} {config : CrawlerConfig} {past : List CrawlerEvent} {s : DhtCrawler}

/-! ## Bootstrap -/

section Bootstrap

variable {I : CrawlerCore → Prop} {family : AddressFamily}

theorem ensures_resolvedHosts :
    Ensures (resolvedHosts family) s (fun resolved s' ↦ s' = s ∧
      s.resolvedBootstrapHosts.get? family = some resolved) fun _ _ ↦ True := by
  refine Ensures.get ?_
  cases hget : s.resolvedBootstrapHosts.get? family with
  | some resolved => exact Ensures.pure ⟨rfl, rfl⟩
  | none => exact Ensures.throw trivial

theorem Good.saveResolved (h : Good W config I past s) {host : Text} {ips : List Text}
    (hips : ips ≠ [] → ∃ port, .resolved host port family ips ∈ past) :
    Ensures (DhtCrawler.saveResolved family host ips) s (fun _ ↦ Good W config I past)
      fun _ _ ↦ True := by
  refine ensures_resolvedHosts.bind ?_
  rintro resolved s ⟨rfl, hresolved⟩
  refine Ensures.modify (h.noted rfl { h.configured with resolved := ?_ })
  intro other hosts name known hhosts hknown hne
  rw [OrderedMap.get?_insert] at hhosts
  split at hhosts
  next heq =>
    rw [← Option.some.inj hhosts, OrderedMap.get?_insert] at hknown
    split at hknown
    next hname =>
      obtain ⟨port, hport⟩ := hips (by rwa [Option.some.inj hknown])
      rw [heq, hname, ← Option.some.inj hknown]
      exact ⟨port, h.past hport⟩
    next => exact heq ▸ h.configured.resolved family resolved name known hresolved hknown hne
  next => exact h.configured.resolved other hosts name known hhosts hknown hne

/-- Every socket of the family asks a resolved address. -/
theorem ActionRules.contact (hI : ActionRules W config I) (h : Good W config I past s)
    {nodeSockets : List NodeSocket} (hsockets : ∀ nodeSocket ∈ nodeSockets,
      nodeSocket ∈ config.nodeSockets ∧ nodeSocket.family = family) {host : Text} {port : ℤ}
    (hhost : (host, port) ∈ config.bootstrapNodes) {ips : List Text}
    (hresolved : ∃ asked, .resolved host asked family ips ∈ past) {ip : Text} (hip : ip ∈ ips) :
    Ensures (DhtCrawler.contact W nodeSockets port ip) s (fun _ ↦ Good W config I past)
      fun _ _ ↦ True := by
  obtain ⟨asked, hresolved⟩ := hresolved
  refine Ensures.forM (I := fun _ ↦ Good W config I past) _ (fun nodeSocket _ _ hmem h' ↦ ?_) s h
  obtain ⟨hsocket, hfamily⟩ := hsockets nodeSocket hmem
  exact hI.sendFindNode h' hsocket (config.length_ownId nodeSocket hsocket) (Or.inr trivial)
    (Or.inl ⟨host, asked, ips, hhost, hfamily ▸ hresolved, hip⟩)

end Bootstrap

namespace CrawlerRules

variable {Moment : ℚ → Prop} {I : List LookupEvent → List Bytes → CrawlerCore → Prop}
  {family : AddressFamily}

theorem act (hI : CrawlerRules W config Moment I) : ActionRules W config (I [] []) :=
  hI.records.toActionRules

theorem resolveHost (hI : CrawlerRules W config Moment I) (h : Good W config (I [] []) past s)
    (host : Text) (port : ℤ) :
    Ensures (DhtCrawler.resolveHost W family host port) s (fun _ ↦ Good W config (I [] []) past)
      fun _ _ ↦ True := by
  refine ensures_ask.bind ?_
  rintro n _ ⟨-, rfl⟩
  have hasked := hI.act.ask h
  cases hresolver : W.resolver n host port family with
  | none => exact hasked.saveResolved fun hne ↦ absurd rfl hne
  | some ips =>
    refine Ensures.bind (Ensures.modify rfl : Ensures _ _ (fun _ s' ↦ s' = _) _) ?_
    rintro _ _ rfl
    have hrecorded : Good W config (I [] []) (.resolved host port family ips :: past) _ :=
      { configured := hasked.configured.record fun _ _ hmem ↦ by simp at hmem
        past := List.cons_subset.mpr ⟨List.mem_append_right _ (List.mem_singleton_self _),
          List.subset_append_of_subset_left _ hasked.past⟩
        kept := hI.resolved _ n host port family ips hresolver hasked.kept }
    exact (hrecorded.saveResolved fun _ ↦ ⟨port, List.mem_cons_self⟩).imp
      (fun _ _ h' ↦ h'.forget (List.subset_cons_self _ _)) fun _ _ hE ↦ hE

theorem resolveIfNeeded (hI : CrawlerRules W config Moment I) (h : Good W config (I [] []) past s)
    (retryFailed : Bool) (host : Text) (port : ℤ) :
    Ensures (DhtCrawler.resolveIfNeeded W family retryFailed host port) s
      (fun _ ↦ Good W config (I [] []) past) fun _ _ ↦ True := by
  refine ensures_resolvedHosts.bind ?_
  rintro resolved s ⟨rfl, -⟩
  split
  next => exact hI.resolveHost h host port
  next => exact Ensures.pure h

theorem bootstrapHost (hI : CrawlerRules W config Moment I) (h : Good W config (I [] []) past s)
    {state : FamilyState} (hstate : ∀ nodeSocket ∈ state.nodeSockets,
      nodeSocket ∈ config.nodeSockets) (retryFailed : Bool) {entry : Text × ℤ}
    (hentry : entry ∈ config.bootstrapNodes) :
    Ensures (DhtCrawler.bootstrapHost W state retryFailed entry) s
      (fun _ ↦ Good W config (I [] []) past) fun _ _ ↦ True := by
  refine (hI.resolveIfNeeded h retryFailed entry.1 entry.2).bind fun _ s₁ h₁ ↦ ?_
  refine ensures_resolvedHosts.bind ?_
  rintro resolved s₁ ⟨rfl, hresolved⟩
  cases hips : resolved.get? entry.1 with
  | none => exact Ensures.throw trivial
  | some ips =>
    have hsockets : ∀ nodeSocket ∈ state.nodeSockets, nodeSocket ∈ config.nodeSockets ∧
        nodeSocket.family = state.family := fun nodeSocket hmem ↦
      ⟨hstate nodeSocket hmem, state.family_eq nodeSocket hmem⟩
    refine (Ensures.forM (I := fun _ ↦ Good W config (I [] []) s₁.history) ips
      (fun ip _ _ hip h' ↦ ?_) s₁ h₁.all).imp (fun _ _ h' ↦ h'.forget h₁.past) fun _ _ hE ↦ hE
    have hne : ips ≠ [] := List.ne_nil_of_mem hip
    exact hI.act.contact h' hsockets hentry
      (h₁.configured.resolved _ resolved entry.1 ips hresolved hips hne) hip

theorem bootstrapFamily (hI : CrawlerRules W config Moment I) (h : Good W config (I [] []) past s)
    (family : AddressFamily) :
    Ensures (DhtCrawler.bootstrapFamily W family) s (fun _ ↦ Good W config (I [] []) past)
      fun _ _ ↦ True := by
  refine (ensures_familyState (Or.inl trivial)).bind ?_
  rintro state s ⟨rfl, hget⟩
  have hkept := h.configured.families family state hget
  refine ensures_readClock.bind ?_
  rintro now _ ⟨-, rfl⟩
  have hasked := hI.act.ask h
  refine (hasked.saveFamily (hkept.family_eq ▸ h.configured.mem_keys hget) ?_).bind
    fun _ s₂ h₂ ↦ ?_
  · exact ⟨rfl, hkept.sockets, hkept.queued, fun node hnode ↦
      ⟨(hkept.recent node hnode).1, (hkept.recent node hnode).2.trans hkept.family_eq.symm⟩⟩
  refine ensures_resolvedHosts.bind ?_
  rintro resolved s₂ ⟨rfl, -⟩
  refine Ensures.get ?_
  rw [h₂.configured.config_eq]
  exact Ensures.forM (I := fun _ ↦ Good W config (I [] []) past) _
    (fun entry _ _ hentry h' ↦ hI.bootstrapHost h' hkept.sockets _ hentry) _ h₂

theorem bootstrap (hI : CrawlerRules W config Moment I) (h : Good W config (I [] []) past s)
    (families : List AddressFamily) :
    Ensures (DhtCrawler.bootstrap W families) s (fun _ ↦ Good W config (I [] []) past)
      fun _ _ ↦ True :=
  Ensures.forM (I := fun _ ↦ Good W config (I [] []) past) _
    (fun family _ _ _ h' ↦ hI.bootstrapFamily h' family) s h

theorem bootstrapAll (hI : CrawlerRules W config Moment I) (h : Good W config (I [] []) past s) :
    Ensures (DhtCrawler.bootstrapAll W) s (fun _ ↦ Good W config (I [] []) past)
      fun _ _ ↦ True := by
  refine Ensures.get ?_
  refine (hI.bootstrap h _).bind fun _ s₁ h₁ ↦ ?_
  refine Ensures.get ?_
  refine (ensures_require (Or.inr trivial)).imp ?_ fun _ _ hE ↦ hE
  rintro _ _ ⟨rfl, -⟩
  exact h₁

/-! ## Crawl steps -/

theorem sendCrawlQuery (hI : CrawlerRules W config Moment I) (h : Good W config (I [] []) past s)
    {node : Node} (hnode : config.accepts W.net node) :
    Ensures (DhtCrawler.sendCrawlQuery W node) s (fun _ ↦ Good W config (I [] []) past)
      fun _ _ ↦ True := by
  obtain ⟨hid, -, -, hroutable⟩ := CrawlerConfig.accepts_iff.mp hnode
  refine (ActionRules.pickNodeSocket h _).bind ?_
  rintro picked s₁ ⟨h₁, hpicked⟩
  cases picked with
  | none => exact Ensures.pure h₁
  | some nodeSocket =>
    obtain ⟨hsocket, hfamily⟩ := hpicked nodeSocket rfl
    have htarget : config.Targets W.net past nodeSocket node.address :=
      Or.inr (Or.inr ⟨hroutable, hfamily⟩)
    have hbacks : Ensures (DhtCrawler.backsOff W node.address) s₁
        (fun _ ↦ Good W config (I [] []) past) fun _ _ ↦ True := by
      refine Ensures.get ?_
      split
      next => exact (hI.act.readClock h₁).bind fun _ _ h₂ ↦ Ensures.pure h₂
      next => exact Ensures.pure h₁
    refine hbacks.bind fun backing s₂ h₂ ↦ ?_
    split
    next => exact hI.act.sendFindNode h₂ hsocket hid (Or.inr trivial) htarget
    next => exact hI.act.sendSampleInfohashes h₂ hsocket hid (Or.inr trivial) htarget

theorem crawlQueue (hI : CrawlerRules W config Moment I) (family : AddressFamily) (limit : ℕ) :
    ∀ {s : DhtCrawler}, Good W config (I [] []) past s →
      Ensures (DhtCrawler.crawlQueue W family limit) s (fun _ ↦ Good W config (I [] []) past)
        fun _ _ ↦ True := by
  induction limit with
  | zero => exact fun h ↦ Ensures.pure h
  | succ limit ih =>
    intro s h
    refine (ensures_familyState (Or.inl trivial)).bind ?_
    rintro state s ⟨rfl, hget⟩
    have hkept := h.configured.families family state hget
    cases hqueue : state.nodeQueue with
    | nil => exact Ensures.pure h
    | cons node rest =>
      have hnode : config.Known W.net s.history node :=
        hkept.queued node (hqueue ▸ List.mem_cons_self)
      refine (h.saveFamily (hkept.family_eq ▸ h.configured.mem_keys hget) ?_).bind
        fun _ s₁ h₁ ↦ ?_
      · exact ⟨rfl, hkept.sockets, fun other hother ↦
          hkept.queued other (hqueue ▸ List.mem_cons_of_mem _ hother), fun other hother ↦
            ⟨(hkept.recent other hother).1,
              (hkept.recent other hother).2.trans hkept.family_eq.symm⟩⟩
      refine (hI.sendCrawlQuery h₁ hnode.accepted).bind fun _ s₂ h₂ ↦ ?_
      exact (ih h₂).bind fun _ _ h₃ ↦ Ensures.pure h₃

theorem crawlFamilies (hI : CrawlerRules W config Moment I) (families : List AddressFamily) :
    ∀ {s : DhtCrawler}, Good W config (I [] []) past s →
      Ensures (DhtCrawler.crawlFamilies W families) s (fun _ ↦ Good W config (I [] []) past)
        fun _ _ ↦ True := by
  induction families with
  | nil => exact fun h ↦ Ensures.pure h
  | cons family rest ih =>
    intro s h
    have hfamily : Ensures (DhtCrawler.crawlFamily W family) s
        (fun _ ↦ Good W config (I [] []) past) fun _ _ ↦ True := by
      refine Ensures.get ?_
      refine (ensures_familyState (Or.inl trivial)).bind ?_
      rintro state s ⟨rfl, -⟩
      exact hI.crawlQueue family _ h
    exact hfamily.bind fun _ _ h₁ ↦ (ih h₁).bind fun _ _ h₂ ↦ Ensures.pure h₂

theorem crawlStep (hI : CrawlerRules W config Moment I) (h : Good W config (I [] []) past s) :
    Ensures (DhtCrawler.crawlStep W) s (fun _ ↦ Good W config (I [] []) past) fun _ _ ↦ True := by
  refine (hI.act.readClock h).bind fun now s₁ h₁ ↦ ?_
  have hfeed : Ensures (DhtCrawler.feedStarving W now) s₁ (fun _ ↦ Good W config (I [] []) past)
      fun _ _ ↦ True := Ensures.get (hI.bootstrap h₁ _)
  refine hfeed.bind fun _ s₂ h₂ ↦ ?_
  refine Ensures.get ?_
  refine (hI.crawlFamilies _ h₂).bind fun sent s₃ h₃ ↦ ?_
  refine (ensures_require (Or.inr trivial)).bind ?_
  rintro _ _ ⟨rfl, -⟩
  exact Ensures.pure h₃

/-! ## Lookup steps -/

theorem ensures_seedsFor (infoHash : Bytes) (hint : Option Node) :
    Ensures (seedsFor infoHash hint) s (fun _ s' ↦ s' = s) fun _ _ ↦ True := by
  cases hint with
  | some node =>
    refine (ensures_familyState (Or.inl trivial)).bind ?_
    rintro state s ⟨rfl, -⟩
    exact Ensures.pure rfl
  | none =>
    refine (ensures_require (Or.inr trivial)).bind ?_
    rintro _ s ⟨rfl, -⟩
    refine Ensures.get ?_
    refine (ensures_require (Or.inr trivial)).bind ?_
    rintro _ s ⟨rfl, -⟩
    refine (ensures_require (Or.inr trivial)).bind ?_
    rintro _ s ⟨rfl, -⟩
    exact Ensures.pure rfl

theorem hashesNeedingPeers (hI : CrawlerRules W config Moment I)
    (h : Good W config (I [] []) past s) (limit : ℕ) :
    Ensures (DhtCrawler.hashesNeedingPeers W limit) s
      (fun result ↦ Good W config (I [] result) past) fun _ _ ↦ True := by
  refine (hI.act.readWallClock h).bind ?_
  rintro now s₁ ⟨⟨n, rfl⟩, h₁⟩
  refine (hI.act.interleave h₁).bind fun _ s₂ h₂ ↦ ?_
  refine Ensures.get ?_
  refine (h₂.execCatalog (hI.claimed _ limit n h₂.kept)).bind fun _ s₃ h₃ ↦ ?_
  refine (ensures_require (Or.inr trivial)).bind ?_
  rintro _ _ ⟨rfl, -⟩
  exact Ensures.pure h₃

theorem startOne (hI : CrawlerRules W config Moment I) {infoHash : Bytes} {rest : List Bytes}
    (h : Good W config (I [] (infoHash :: rest)) past s) {now : ℚ} (hnow : Moment now) :
    Ensures (DhtCrawler.startOne W now infoHash) s (fun _ ↦ Good W config (I [] rest) past)
      fun _ _ ↦ True := by
  refine Ensures.get ?_
  refine (ensures_seedsFor infoHash _).bind ?_
  rintro seeds s rfl
  refine Ensures.get ?_
  have hstarted := hI.started s.core infoHash rest seeds now (s.hintNodes.get? infoHash) hnow
    h.configured.keyed h.configured.filtered h.kept
  have hdelivered : Ensures (DhtCrawler.callManager W
      (.startLookup infoHash seeds now (s.hintNodes.get? infoHash))) s (fun _ ↦ Good W config
        (I [] (if (s.lookupManager.startLookup infoHash seeds now (s.hintNodes.get? infoHash)).2
          then rest else infoHash :: rest)) past) fun _ _ ↦ True :=
            hI.callbacks.callManager _ h hstarted
  refine hdelivered.bind fun _ s₁ h₁ ↦ ?_
  split
  next hresult =>
    rw [if_pos hresult] at h₁
    exact Ensures.pure h₁
  next hresult =>
    rw [if_neg hresult] at h₁
    refine Ensures.bind (((hI.callbacks.actions [] _).interleave h₁).bind fun _ _ h₂ ↦
      h₂.execCatalog (hI.released _ infoHash rest h₂.kept)) fun _ _ h₃ ↦ Ensures.pure h₃

theorem startEach (hI : CrawlerRules W config Moment I) {now : ℚ} (hnow : Moment now)
    (infoHashes : List Bytes) : ∀ {s : DhtCrawler}, Good W config (I [] infoHashes) past s →
      Ensures (DhtCrawler.startEach W now infoHashes) s (fun _ ↦ Good W config (I [] []) past)
        fun _ _ ↦ True := by
  induction infoHashes with
  | nil => exact fun h ↦ Ensures.pure h
  | cons infoHash rest ih =>
    exact fun h ↦ (hI.startOne h hnow).bind fun _ _ h₁ ↦ (ih h₁).bind fun _ _ h₂ ↦
      Ensures.pure h₂

theorem callUpkeep (hI : CrawlerRules W config Moment I) (h : Good W config (I [] []) past s)
    {call : LookupCall} (hcall : call.Upkeep Moment) :
    Ensures (DhtCrawler.callManager W call) s (fun _ ↦ Good W config (I [] []) past)
      fun _ _ ↦ True :=
  hI.callbacks.callManager [] h (hI.upkeep _ call hcall h.configured.keyed h.configured.filtered h.kept)

theorem startPendingLookups (hI : CrawlerRules W config Moment I)
    (h : Good W config (I [] []) past s) {now : ℚ} (hnow : Moment now) :
    Ensures (DhtCrawler.startPendingLookups W now) s (fun _ ↦ Good W config (I [] []) past)
      fun _ _ ↦ True := by
  refine (ensures_require (Or.inr trivial)).bind ?_
  rintro _ s ⟨rfl, -⟩
  have hfetchable : Ensures (DhtCrawler.fetchableCount W) s
      (fun _ ↦ Good W config (I [] []) past) fun _ _ ↦ True :=
    (hI.act.interleave h).bind fun _ _ h₁ ↦ Ensures.get (Ensures.pure h₁)
  refine hfetchable.bind fun fetchable s₁ h₁ ↦ ?_
  refine Ensures.get ?_
  refine (ensures_require (Or.inr trivial)).bind ?_
  rintro _ s₁ ⟨rfl, -⟩
  have hrefill : (LookupCall.refill now).Upkeep Moment := hnow
  refine (hI.callUpkeep h₁ hrefill).bind fun _ s₂ h₂ ↦ ?_
  refine Ensures.get ?_
  dsimp only
  split
  next => exact Ensures.pure h₂
  next =>
    refine (hI.hashesNeedingPeers h₂ _).bind fun infoHashes s₃ h₃ ↦ ?_
    refine (hI.startEach hnow infoHashes h₃).bind fun started s₄ h₄ ↦ ?_
    refine (h₄.count _).bind fun _ s₅ h₅ ↦ ?_
    refine (ensures_require (Or.inr trivial)).bind ?_
    rintro _ _ ⟨rfl, -⟩
    exact Ensures.pure h₅

theorem iteration (hI : CrawlerRules W config Moment I) (h : Good W config (I [] []) past s)
    (hnow : Moment (W.clock s.readings)) :
    Ensures (DhtCrawler.iteration W) s (fun _ ↦ Good W config (I [] []) past) fun _ _ ↦ True := by
  refine ensures_readClock.bind ?_
  rintro now _ ⟨rfl, rfl⟩
  refine (hI.crawlStep (hI.act.ask h)).bind fun _ s₁ h₁ ↦ ?_
  have htick : (LookupCall.tick (W.clock s.readings)).Upkeep Moment := hnow
  refine (hI.callUpkeep h₁ htick).bind fun _ s₂ h₂ ↦ ?_
  exact (hI.startPendingLookups h₂ hnow).bind fun _ _ h₃ ↦ Ensures.pure h₃

end CrawlerRules

/-! ## All calls -/

/-- The clock reading that the call works with is allowed. -/
def Timely (W : World) (Moment : ℚ → Prop) (s : DhtCrawler) : CrawlerCall → Prop
  | .tick now => Moment now
  | .startPendingLookups now => Moment now
  | .iteration => Moment (W.clock s.readings)
  | _ => True

/-- A property that survives the small steps survives every call. -/
theorem CrawlerRules.perform {Moment : ℚ → Prop}
    {I : List LookupEvent → List Bytes → CrawlerCore → Prop} (hI : CrawlerRules W config Moment I)
    (h : Good W config (I [] []) past s) {call : CrawlerCall} (htimely : Timely W Moment s call)
    (hreceived : ∀ data address nodeSocket, call = .datagram data address nodeSocket →
      ∀ c, I [] [] c → I [] [] { c with history := c.history ++ [.received address nodeSocket] }) :
    Ensures (DhtCrawler.perform W call) s (fun _ ↦ Good W config (I [] []) past)
      fun _ _ ↦ True := by
  cases call with
  | bootstrap => exact hI.bootstrapAll h
  | crawlStep => exact (hI.crawlStep h).bind fun _ _ h' ↦ Ensures.pure h'
  | tick now => exact hI.callUpkeep h htimely
  | startPendingLookups now =>
    exact (hI.startPendingLookups h htimely).bind fun _ _ h' ↦ Ensures.pure h'
  | iteration => exact hI.iteration h htimely
  | datagram data address nodeSocket =>
    exact hI.handleDatagram h (Or.inr trivial) (Or.inr trivial)
      (hreceived data address nodeSocket rfl) data
  | abortAll => exact hI.callUpkeep h trivial
  | others ops =>
    exact Ensures.modify ⟨{ h.configured with }, h.past, hI.act.interfered _ ops h.kept⟩

/-- Two properties that survive the small steps survive them together. -/
theorem CrawlerRules.and {Moment : ℚ → Prop}
    {I J : List LookupEvent → List Bytes → CrawlerCore → Prop} (hI : CrawlerRules W config Moment I)
    (hJ : CrawlerRules W config Moment J) :
    CrawlerRules W config Moment fun events claimed c ↦ I events claimed c ∧ J events claimed c where
  callbacks :=
    { actions := fun events claimed ↦ (hI.callbacks.actions events claimed).and
        (hJ.callbacks.actions events claimed)
      skipped := fun event rest claimed c hreport h ↦
        ⟨hI.callbacks.skipped event rest claimed c hreport h.1,
          hJ.callbacks.skipped event rest claimed c hreport h.2⟩
      foundPeers := fun number infoHash peers rest claimed c hlength hpeers h ↦
        (hI.callbacks.foundPeers number infoHash peers rest claimed c hlength hpeers h.1).and
          (hJ.callbacks.foundPeers number infoHash peers rest claimed c hlength hpeers h.2)
      finished := fun number infoHash peers n rest claimed c hlength hpeers h ↦
        (hI.callbacks.finished number infoHash peers n rest claimed c hlength hpeers h.1).and
          (hJ.callbacks.finished number infoHash peers n rest claimed c hlength hpeers h.2) }
  records :=
    { (hI.callbacks.actions [] []).and (hJ.callbacks.actions [] []) with
      recorded := fun c op hop h ↦
        (hI.records.recorded c op hop h.1).and (hJ.records.recorded c op hop h.2)
      packed := fun _ _ _ _ ↦ Or.inl trivial }
  answered := fun c transactionId call hcall howned hkeyed hfiltered h ↦
    (hI.answered c transactionId call hcall howned hkeyed hfiltered h.1).and
      (hJ.answered c transactionId call hcall howned hkeyed hfiltered h.2)
  resolved := fun c n host port family ips hips h ↦
    ⟨hI.resolved c n host port family ips hips h.1, hJ.resolved c n host port family ips hips h.2⟩
  claimed := fun c limit n h ↦ (hI.claimed c limit n h.1).and (hJ.claimed c limit n h.2)
  released := fun c infoHash rest h ↦
    (hI.released c infoHash rest h.1).and (hJ.released c infoHash rest h.2)
  started := fun c infoHash rest seeds now hint hnow hkeyed hfiltered h ↦
    (hI.started c infoHash rest seeds now hint hnow hkeyed hfiltered h.1).and
      (hJ.started c infoHash rest seeds now hint hnow hkeyed hfiltered h.2)
  upkeep := fun c call hcall hkeyed hfiltered h ↦
    (hI.upkeep c call hcall hkeyed hfiltered h.1).and (hJ.upkeep c call hcall hkeyed hfiltered h.2)

/-- The step of the machine is a call that returned. -/
theorem perform_of_step {call : CrawlerCall} {s' : DhtCrawler}
    (h : (crawlerMachine W).step s call = some s') : DhtCrawler.perform W call s = .ok ⟨⟩ s' := by
  simp only [crawlerMachine] at h
  split at h
  next hrun => rw [hrun, Option.some.inj h]
  next => cases h

/-- What survives the small steps holds at the end of every run whose datagrams are allowed. -/
theorem CrawlerRules.run {I : List LookupEvent → List Bytes → CrawlerCore → Prop}
    (hI : CrawlerRules W config (fun _ ↦ True) I) {Arrives : Address → NodeSocket → Prop}
    (hreceived : ∀ address nodeSocket, Arrives address nodeSocket → ∀ c, I [] [] c →
      I [] [] { c with history := c.history ++ [.received address nodeSocket] })
    {session : Session} (hstart : I [] [] (new W config session).core) {calls : List CrawlerCall}
    (harrives : ∀ data address nodeSocket, .datagram data address nodeSocket ∈ calls →
      Arrives address nodeSocket)
    (hrun : (crawlerMachine W).run (new W config session) calls = some s) :
    Good W config (I [] []) [] s := by
  have hguard : (crawlerMachine W).Along (fun _ call ↦ ∀ data address nodeSocket,
      call = .datagram data address nodeSocket → Arrives address nodeSocket) (new W config session)
      calls := by
    apply (crawlerMachine W).along_of_forall
    exact fun call hcall data address nodeSocket heq ↦
      harrives data address nodeSocket (heq ▸ hcall)
  refine (crawlerMachine W).run_guarded_invariant (I := Good W config (I [] []) []) ?_
    ⟨configured_new W config session, List.nil_subset _, hstart⟩ hguard hrun
  intro s call s' h hallowed hstep
  have htimely : Timely W (fun _ ↦ True) s call := by cases call <;> trivial
  refine (hI.perform h htimely fun data address nodeSocket heq c hc ↦ ?_).ok (perform_of_step hstep)
  exact hreceived address nodeSocket (hallowed data address nodeSocket heq) c hc

/-! ## Properties of the manager -/

/-- Only calls of the manager change the manager. -/
theorem callbackRules_manager (W : World) (config : CrawlerConfig) (P : LookupManager → Prop) :
    CallbackRules W config True fun _ _ c ↦ P c.lookupManager where
  actions := fun _ _ ↦ ⟨fun _ h ↦ h, fun _ _ h ↦ h, fun _ _ _ _ h ↦ h⟩
  skipped := fun _ _ _ _ _ h ↦ h
  foundPeers := fun _ _ _ _ _ _ _ _ h ↦ ⟨fun _ ↦ trivial, fun _ ↦ h⟩
  finished := fun _ _ _ _ _ _ _ _ _ h ↦ ⟨fun _ ↦ trivial, fun _ ↦ h⟩

theorem recordRules_manager (W : World) (config : CrawlerConfig) (P : LookupManager → Prop) :
    RecordRules W config True fun c ↦ P c.lookupManager where
  asked := fun _ h ↦ h
  interfered := fun _ _ h ↦ h
  sent := fun _ _ _ _ h ↦ h
  recorded := fun _ _ _ h ↦ ⟨fun _ ↦ trivial, fun _ ↦ h⟩
  packed := fun _ _ _ _ ↦ Or.inl trivial

/-- What the small steps of the manager keep, the crawler keeps. -/
theorem crawlerRules_of_manager {J : LookupManager → Prop}
    (hJ : LookupManager.ManagerRules W.net LookupManager.anyOffer J) (config : CrawlerConfig) :
    CrawlerRules W config (fun _ ↦ True) fun _ _ c ↦ J c.lookupManager := by
  have hcall {m : LookupManager} (hkeyed : m.Keyed) (h : J m) (call : LookupCall) :
      J (m.apply W.net call) :=
    (hJ.apply hkeyed h call (LookupManager.callOffer_any W.net m call)).2
  exact
    { callbacks := callbackRules_manager W config J
      records := recordRules_manager W config J
      answered := fun c _ call _ _ hkeyed _ h ↦ ⟨fun _ ↦ trivial, fun _ ↦ hcall hkeyed h call⟩
      resolved := fun _ _ _ _ _ _ _ h ↦ h
      claimed := fun _ _ _ h ↦ ⟨fun _ ↦ trivial, fun _ ↦ h⟩
      released := fun _ _ _ h ↦ ⟨fun _ ↦ trivial, fun _ ↦ h⟩
      started := fun c infoHash _ seeds now hint _ hkeyed _ h ↦
        ⟨fun _ ↦ trivial, fun _ ↦ hcall hkeyed h (.startLookup infoHash seeds now hint)⟩
      upkeep := fun c call _ hkeyed _ h ↦ ⟨fun _ ↦ trivial, fun _ ↦ hcall hkeyed h call⟩ }

theorem run_manager {J : LookupManager → Prop}
    (hJ : LookupManager.ManagerRules W.net LookupManager.anyOffer J) {session : Session}
    (hstart : J (new W config session).lookupManager) {calls : List CrawlerCall}
    (hrun : (crawlerMachine W).run (new W config session) calls = some s) :
    Configured W config s ∧ J s.lookupManager := by
  have hgood : Good W config (fun c ↦ J c.lookupManager) [] s :=
    (crawlerRules_of_manager hJ config).run (fun _ _ (_ : True) _ h ↦ h) hstart
      (fun _ _ _ _ ↦ trivial) hrun
  exact ⟨hgood.configured, hgood.kept⟩

end DhtCrawler

end DhtScraper
