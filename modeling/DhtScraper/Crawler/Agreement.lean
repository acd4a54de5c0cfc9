import DhtScraper.Catalog.Custody
import DhtScraper.Crawler.Runs
import DhtScraper.Lookup.Ledger

/-!
# The crawler and the catalog agree on the running lookups

The crawler takes the claim of a hash in `hashes_needing_peers` and gives it back when it does not
start the lookup, or when the lookup ends.  A claim is on its way while the hash waits for its lookup
to be started, while the lookup is active, and while the callback about its end is to be delivered.
The other threads never touch the claims of lookups.
-/

namespace DhtScraper

open Library

/-- The hashes whose claim the crawler holds. -/
def claimsHeld (events : List LookupEvent) (claimed : List Bytes) (m : LookupManager) : List Bytes :=
  claimed ++ (finishedHashes events ++ m.active.keys)

/-- The operations that the crawler has called. -/
def calledOps (history : List CrawlerEvent) : List CatalogOp :=
  history.filterMap fun event ↦ match event with
    | .called op => some op
    | _ => none

theorem calledOps_append (history more : List CrawlerEvent) :
    calledOps (history ++ more) = calledOps history ++ calledOps more :=
  List.filterMap_append

/-- The catalog got to its state by permitted operations, among them those of the history in their
order, and its claims of lookups are the ones the crawler holds. -/
structure Agreed (limits : CatalogLimits) (events : List LookupEvent) (claimed : List Bytes)
    (c : CrawlerCore) : Prop where
  led : ∃ ops, catalogMachine.Leads Permitted (.new limits) ops c.session ∧
    (calledOps c.history).Sublist ops
  nodup : (claimsHeld events claimed c.lookupManager).Nodup
  held : ∀ h, h ∈ claimsHeld events claimed c.lookupManager ↔ h ∈ c.session.lookupClaims

theorem Agreed.sound {limits : CatalogLimits} {events : List LookupEvent} {claimed : List Bytes}
    {c : CrawlerCore} (h : Agreed limits events claimed c) :
    Sound limits (fun _ ↦ True) c.session.catalog c.session.fetchClaims c.session.lookupClaims := by
  obtain ⟨ops, hled, -⟩ := h.led
  exact Session.sound_of_leads hled

/-! ## The other threads -/

theorem Session.lookupClaims_execOther (s : Session) (op : CatalogOp) :
    (s.execOther op).lookupClaims = s.lookupClaims := by
  unfold Session.execOther
  split
  next hallowed =>
    obtain ⟨hother, -⟩ := hallowed
    cases op <;> first | rfl | cases hother
  next => rfl

/-- The other threads leave the claims of lookups alone and keep the protocol. -/
theorem Session.interfere_led {s₀ : Session} (ops : List CatalogOp) : ∀ {s : Session}
    {past : List CatalogOp}, catalogMachine.Leads Permitted s₀ past s →
      (∃ more, catalogMachine.Leads Permitted s₀ (past ++ more) (s.interfere ops)) ∧
        (s.interfere ops).lookupClaims = s.lookupClaims := by
  induction ops with
  | nil => exact fun hled ↦ ⟨⟨[], (List.append_nil _).symm ▸ hled⟩, rfl⟩
  | cons op rest ih =>
    intro s past hled
    have hclaims := s.lookupClaims_execOther op
    by_cases hallowed : op.handlesLookups = false ∧ s.permits ownClaimsOnly op
    · have hexec : s.execOther op = s.exec op := if_pos hallowed
      have hnext : catalogMachine.Leads Permitted s₀ (past ++ [op]) (s.execOther op) :=
        hexec ▸ hled.concat hallowed.2 rfl
      obtain ⟨⟨more, hmore⟩, hrest⟩ := ih hnext
      rw [List.append_assoc] at hmore
      exact ⟨⟨[op] ++ more, hmore⟩, hrest.trans hclaims⟩
    · have hsame : s.execOther op = s := if_neg hallowed
      obtain ⟨hmore, hrest⟩ := ih hled
      have hfold : s.interfere (op :: rest) = s.interfere rest :=
        congrArg (List.foldl Session.execOther · rest) hsame
      exact ⟨hfold ▸ hmore, hfold ▸ hrest⟩

/-! ## The invariant of the crawler -/

namespace Agreed

variable {limits : CatalogLimits} {events events' : List LookupEvent} {claimed claimed' : List Bytes}
  {c : CrawlerCore}

/-- The manager moves claims around. -/
theorem moved (h : Agreed limits events claimed c) {m : LookupManager} (readings : ℕ)
    (hperm : (claimsHeld events' claimed' m).Perm (claimsHeld events claimed c.lookupManager)) :
    Agreed limits events' claimed' { c with readings := readings, lookupManager := m } where
  led := h.led
  nodup := hperm.nodup_iff.mpr h.nodup
  held := fun k ↦ hperm.mem_iff.trans (h.held k)

theorem interfered (h : Agreed limits events claimed c) (ops : List CatalogOp) :
    Agreed limits events claimed { c with session := c.session.interfere ops } := by
  obtain ⟨past, hled, hsub⟩ := h.led
  obtain ⟨⟨more, hmore⟩, hclaims⟩ := Session.interfere_led ops hled
  exact ⟨⟨past ++ more, hmore, hsub.trans (List.sublist_append_left _ _)⟩, h.nodup,
    fun k ↦ (h.held k).trans (by rw [hclaims])⟩

/-- A permitted operation of the crawler extends the run of the catalog. -/
theorem extend (h : Agreed limits events claimed c) {op : CatalogOp}
    (hop : c.session.permits ownClaimsOnly op) : ∃ ops,
      catalogMachine.Leads Permitted (.new limits) ops (c.executed op).session ∧
        (calledOps (c.executed op).history).Sublist ops := by
  obtain ⟨past, hled, hsub⟩ := h.led
  refine ⟨past ++ [op], hled.concat hop rfl, ?_⟩
  have hhistory : calledOps (c.executed op).history = calledOps c.history ++ [op] :=
    calledOps_append _ _
  exact hhistory ▸ hsub.append (List.Sublist.refl _)

/-- Events that are no calls of the catalog. -/
theorem noted (h : Agreed limits events claimed c) {event : CrawlerEvent}
    (hevent : calledOps [event] = []) :
    Agreed limits events claimed { c with history := c.history ++ [event] } where
  led := by
    have hhistory : calledOps (c.history ++ [event]) = calledOps c.history := by
      rw [calledOps_append, hevent, List.append_nil]
    exact hhistory.symm ▸ h.led
  nodup := h.nodup
  held := h.held

/-- Operations that have nothing to do with the claims of lookups. -/
theorem executed (h : Agreed limits events claimed c) {op : CatalogOp}
    (hop : c.session.permits ownClaimsOnly op)
    (hclaims : c.session.nextLookupClaims op = c.session.lookupClaims)
    (hheld : claimsHeld events' claimed' c.lookupManager = claimsHeld events claimed c.lookupManager) :
    Agreed limits events' claimed' (c.executed op) where
  led := h.extend hop
  nodup := hheld ▸ h.nodup
  held := fun k ↦ by
    have hnext : (c.executed op).session.lookupClaims = c.session.lookupClaims := hclaims
    rw [hnext, ← h.held k, ← hheld]
    rfl

/-- An operation that gives one claim back. -/
theorem gaveBack (h : Agreed limits events claimed c) {op : CatalogOp} {infoHash : Bytes}
    (hop : infoHash ∈ c.session.lookupClaims → c.session.permits ownClaimsOnly op)
    (hclaims : c.session.nextLookupClaims op = c.session.lookupClaims.erase infoHash)
    (hperm : (claimsHeld events claimed c.lookupManager).Perm
      (infoHash :: claimsHeld events' claimed' c.lookupManager)) :
    Agreed limits events' claimed' (c.executed op) := by
  have hmem : infoHash ∈ c.session.lookupClaims :=
    (h.held infoHash).mp (hperm.mem_iff.mpr List.mem_cons_self)
  obtain ⟨hnotin, hnodup⟩ := List.nodup_cons.mp (hperm.nodup_iff.mp h.nodup)
  refine ⟨h.extend (hop hmem), hnodup, fun k ↦ ?_⟩
  have hnext : (c.executed op).session.lookupClaims = c.session.lookupClaims.erase infoHash := hclaims
  rw [hnext, Finset.mem_erase, ← h.held k, hperm.mem_iff, List.mem_cons]
  constructor
  · exact fun hk ↦ ⟨fun heq ↦ hnotin (heq ▸ hk), Or.inr hk⟩
  · exact fun ⟨hne, hk⟩ ↦ hk.resolve_left hne

theorem tookClaims (h : Agreed limits [] [] c) (limit : ℕ) (now : ℚ) :
    Agreed limits [] (c.session.catalog.settle.hashesNeedingPeers limit now).2
      (c.executed (.hashesNeedingPeers limit now)) := by
  obtain ⟨hnodup, hfree⟩ := h.sound.settle.hashesNeedingPeers_spec limit now
  refine ⟨h.extend trivial, ?_, fun k ↦ ?_⟩
  · refine List.nodup_append'.mpr ⟨hnodup, h.nodup, fun k hk hactive ↦ ?_⟩
    exact hfree k hk ((h.held k).mp hactive)
  · have hheld := h.held k
    have hnext : (c.executed (.hashesNeedingPeers limit now)).session.lookupClaims =
        c.session.lookupClaims ∪
          (c.session.catalog.settle.hashesNeedingPeers limit now).2.toFinset := rfl
    rw [hnext, Finset.mem_union, List.mem_toFinset, ← hheld, or_comm]
    exact List.mem_append

end Agreed

/-- Nothing is on its way: the active lookups are the entries with a lookup in progress. -/
theorem Agreed.active_iff {limits : CatalogLimits} {c : CrawlerCore} (h : Agreed limits [] [] c)
    (k : Bytes) : k ∈ c.lookupManager.active.keys ↔
      ∃ r, c.session.catalog.entries.get? k = some r ∧
        (c.session.catalog.heap r).lookupInProgress := by
  refine (h.held k).trans ((h.sound.lookingUp k).trans ?_)
  rw [Option.isSome_iff_exists]
  exact exists_congr fun r ↦ TorrentCatalog.liveWhere_eq_some_iff

namespace DhtCrawler

variable {W : World} {config : CrawlerConfig} {limits : CatalogLimits} {s s' : DhtCrawler}

theorem agreed_actions (W : World) (config : CrawlerConfig) (limits : CatalogLimits)
    (events : List LookupEvent) (claimed : List Bytes) :
    ActionRules W config (Agreed limits events claimed) where
  asked := fun _ h ↦ ⟨h.led, h.nodup, h.held⟩
  interfered := fun _ ops h ↦ h.interfered ops
  sent := fun _ _ _ _ h ↦ ⟨h.led, h.nodup, h.held⟩

theorem agreed_callbacks (W : World) (config : CrawlerConfig) (limits : CatalogLimits) :
    CallbackRules W config True (Agreed limits) where
  actions := agreed_actions W config limits
  skipped := by
    intro event rest claimed c hreport h
    have hheld : claimsHeld (event :: rest) claimed c.lookupManager =
        claimsHeld rest claimed c.lookupManager := by
      cases event <;> first | rfl | cases hreport
    exact ⟨h.led, hheld ▸ h.nodup, fun k ↦ hheld ▸ h.held k⟩
  foundPeers := fun _ _ _ _ _ _ _ _ h ↦ ⟨fun _ ↦ trivial, fun _ ↦ h.executed trivial rfl rfl⟩
  finished := by
    intro number infoHash peers n rest claimed c _ _ h
    refine ⟨fun _ ↦ trivial, fun hreturned ↦ ?_⟩
    have hguard := TorrentCatalog.of_guarded hreturned
    exact h.gaveBack (fun hmem ↦ hmem) (if_pos hguard) List.perm_middle

theorem agreed_rules (W : World) (config : CrawlerConfig) (limits : CatalogLimits)
    {Moment : ℚ → Prop} : CrawlerRules W config Moment (Agreed limits) where
  callbacks := agreed_callbacks W config limits
  records :=
    { agreed_actions W config limits [] [] with
      recorded := by
        intro c op hop h
        refine ⟨fun _ ↦ trivial, fun _ ↦ ?_⟩
        cases op with
        | recordHash infoHash source peer now => exact h.executed trivial rfl rfl
        | recordHashes infoHashes source now => exact h.executed trivial rfl rfl
        | _ => exact hop.elim
      packed := fun _ _ _ _ ↦ Or.inl trivial }
  answered := by
    intro c transactionId call hcall _ hkeyed _ h
    refine ⟨fun _ ↦ trivial, fun _ ↦ h.moved _ ?_⟩
    refine LookupManager.newEvents_perm W.net hkeyed fun _ _ _ _ heq ↦ ?_
    rw [heq] at hcall
    exact hcall
  resolved := fun _ _ _ _ _ _ _ h ↦ h.noted rfl
  claimed := fun _ limit n h ↦ ⟨fun _ ↦ trivial, fun _ ↦ h.tookClaims limit (W.wallClock n)⟩
  released := by
    intro c infoHash rest h
    refine ⟨fun _ ↦ trivial, fun hreturned ↦ ?_⟩
    have hguard := TorrentCatalog.of_guarded hreturned
    exact h.gaveBack (fun hmem ↦ hmem) (if_pos hguard) (List.Perm.refl _)
  started := by
    intro c infoHash rest seeds now hint _ hkeyed _ h
    refine ⟨fun _ ↦ trivial, fun _ ↦ h.moved _ ?_⟩
    have hperm := LookupManager.newEvents_perm_start W.net hkeyed infoHash seeds now hint
    dsimp only at hperm
    -- a started hash goes to the table, a refused one keeps waiting
    split
    next hstarted =>
      rw [if_pos hstarted] at hperm
      refine (hperm.append_left rest).trans ?_
      rw [← List.append_assoc]
      exact List.perm_append_comm
    next hrefused =>
      rw [if_neg hrefused, List.append_nil] at hperm
      exact hperm.append_left (infoHash :: rest)
  upkeep := by
    intro c call hcall hkeyed _ h
    refine ⟨fun _ ↦ trivial, fun _ ↦ h.moved _ ?_⟩
    refine LookupManager.newEvents_perm W.net hkeyed fun _ _ _ _ heq ↦ ?_
    rw [heq] at hcall
    exact hcall

/-- The counter of a sound catalog is the number of its claims. -/
theorem lookupsInProgress_eq {c : TorrentCatalog} {F L : Finset Bytes} {keys : List Bytes}
    (hs : Sound limits (fun _ ↦ True) c F L) (hnodup : keys.Nodup) (hkeys : ∀ h, h ∈ keys ↔ h ∈ L) :
    c.lookupsInProgress = keys.length := by
  let busy := c.entries.items.filter fun item ↦ (c.heap item.2).lookupInProgress
  have hcount : c.lookupsInProgress = (busy.map Prod.fst).length := by
    rw [hs.represented.lookupsInProgress, TorrentCatalog.countLive, OrderedMap.values,
      List.countP_map, List.countP_eq_length_filter, List.length_map]
    rfl
  have hbusy : (busy.map Prod.fst).Nodup :=
    c.entries.nodup.sublist (List.filter_sublist.map Prod.fst)
  have hperm : (busy.map Prod.fst).Perm keys := by
    refine (List.perm_ext_iff_of_nodup hbusy hnodup).mpr fun h ↦ ?_
    rw [hkeys, hs.lookingUp, Option.isSome_iff_exists, List.mem_map]
    constructor
    · rintro ⟨item, hitem, rfl⟩
      obtain ⟨hmem, hlookup⟩ := List.mem_filter.mp hitem
      exact ⟨item.2, TorrentCatalog.liveWhere_eq_some_iff.mpr
        ⟨OrderedMap.get?_eq_some_iff.mpr hmem, hlookup⟩⟩
    · rintro ⟨r, hr⟩
      obtain ⟨hlive, hlookup⟩ := TorrentCatalog.liveWhere_eq_some_iff.mp hr
      exact ⟨(h, r), List.mem_filter.mpr ⟨OrderedMap.get?_eq_some_iff.mp hlive, hlookup⟩, rfl⟩
  rw [hcount, hperm.length_eq]

/-- `abort_all` leaves no lookup, and the callbacks start none. -/
theorem size_of_abortAll {session : Session} {calls : List CrawlerCall}
    (hrun : (crawlerMachine W).run (new W config session) calls = some s)
    (hstep : (crawlerMachine W).step s .abortAll = some s') : s'.lookupManager.active.size = 0 := by
  obtain ⟨hconfigured, -⟩ := run_manager (LookupManager.keyed_rules W.net) trivial hrun
  have hgood : Good W config (fun _ ↦ True) [] s := ⟨hconfigured, List.nil_subset _, trivial⟩
  have hempty : (s.lookupManager.apply W.net .abortAll).active.size = 0 :=
    OrderedMap.size_eq_zero_iff.mpr (LookupManager.get?_abortAll hconfigured.keyed)
  have hcalled := (callbackRules_manager W config fun m ↦ m.active.size = 0).callManager [] hgood
    ⟨fun _ ↦ trivial, fun _ ↦ hempty⟩
  exact (hcalled.ok (perform_of_step hstep)).kept

/-- A catalog on which the other threads may have worked, but no lookup is running. -/
theorem agreed_new {ops : List CatalogOp} {session : Session}
    (hsession : catalogMachine.Leads Permitted (.new limits) ops session)
    (hidle : session.lookupClaims = ∅) : Agreed limits [] [] (new W config session).core where
  led := ⟨ops, hsession, List.nil_sublist _⟩
  nodup := List.nodup_nil
  held := fun h ↦ by
    have hnone : (new W config session).core.session.lookupClaims = ∅ := hidle
    rw [hnone]
    exact iff_of_false List.not_mem_nil (Finset.notMem_empty h)

theorem run_agreed {ops : List CatalogOp} {session : Session} {calls : List CrawlerCall}
    (hsession : catalogMachine.Leads Permitted (.new limits) ops session)
    (hidle : session.lookupClaims = ∅)
    (hrun : (crawlerMachine W).run (new W config session) calls = some s) :
    Agreed limits [] [] s.core :=
  ((agreed_rules W config limits).run (fun _ _ (_ : True) _ h ↦ h.noted rfl)
    (agreed_new hsession hidle) (fun _ _ _ _ ↦ trivial) hrun).kept

/-- Between two calls of the crawler thread, whatever the other threads do: the entries with a lookup
in progress are those of the active lookups, and the counter is their number. -/
theorem lookups_agree {ops : List CatalogOp} {session : Session} {calls : List CrawlerCall}
    (hsession : catalogMachine.Leads Permitted (.new limits) ops session)
    (hidle : session.lookupClaims = ∅)
    (hrun : (crawlerMachine W).run (new W config session) calls = some s) :
    (∀ h, h ∈ s.lookupManager.active.keys ↔ ∃ r, s.session.catalog.entries.get? h = some r ∧
        (s.session.catalog.heap r).lookupInProgress) ∧
      s.session.catalog.lookupsInProgress = s.lookupManager.active.size ∧
        ∀ s', (crawlerMachine W).step s .abortAll = some s' →
          s'.lookupManager.active.size = 0 ∧ s'.session.catalog.lookupsInProgress = 0 ∧
            ∀ h r, s'.session.catalog.entries.get? h = some r →
              (s'.session.catalog.heap r).lookupInProgress = false := by
  have hcount {s : DhtCrawler} (h : Agreed limits [] [] s.core) :
      s.session.catalog.lookupsInProgress = s.lookupManager.active.size := by
    have hlength := lookupsInProgress_eq h.sound h.nodup h.held
    exact hlength.trans (congrArg Nat.cast (List.length_map _))
  have h := run_agreed hsession hidle hrun
  refine ⟨h.active_iff, hcount h, fun s' hstep ↦ ?_⟩
  have hrun' : (crawlerMachine W).run (new W config session) (calls ++ [.abortAll]) = some s' := by
    rw [Machine.run_append, hrun]
    exact (crawlerMachine W).run_cons_eq_some.mpr ⟨s', hstep, rfl⟩
  have h' := run_agreed hsession hidle hrun'
  have hempty : s'.lookupManager.active.size = 0 := size_of_abortAll hrun hstep
  have hnone : s'.session.catalog.lookupsInProgress = 0 := by rw [hcount h', hempty]; rfl
  refine ⟨hempty, hnone, fun k r hr ↦ ?_⟩
  have habsent : k ∉ s'.lookupManager.active.keys :=
    OrderedMap.get?_eq_none_iff.mp (OrderedMap.size_eq_zero_iff.mp hempty k)
  exact Bool.eq_false_of_not_eq_true fun hlookup ↦ habsent ((h'.active_iff k).mpr ⟨r, hr, hlookup⟩)

/-- A lookup of one hash is running. -/
theorem lookups_agree_sample :
    ∃ s, (crawlerMachine sampleWorld).run sampleCrawler sampleCalls = some s ∧
      s.lookupManager.active.size = 1 ∧ s.session.catalog.lookupsInProgress = 1 := by
  have heval : ((crawlerMachine sampleWorld).run sampleCrawler sampleCalls).any fun s ↦
      s.lookupManager.active.size = 1 := by
    decide +kernel
  rw [Option.any_eq_true] at heval
  obtain ⟨s, hrun, hsize⟩ := heval
  have hone : s.lookupManager.active.size = 1 := of_decide_eq_true hsize
  have hagree := lookups_agree (.refl catalogMachine Permitted (.new oneLookup)) rfl hrun
  refine ⟨s, hrun, hone, ?_⟩
  rw [hagree.2.1, hone]
  rfl

end DhtCrawler

end DhtScraper
