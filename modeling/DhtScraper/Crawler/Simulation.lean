import DhtScraper.Crawler.Agreement

/-!
# The components inside the crawler

A crawler run is a run of the lookup manager and, interleaved with the other threads, a run of the
catalog that keeps the protocol of its callers.  What is known of all runs of the two holds inside
the crawler.
-/

namespace DhtScraper

open Library

namespace DhtCrawler

variable {W : World} {config : CrawlerConfig} {limits : CatalogLimits} {s s' : DhtCrawler}

/-- What every call of the manager that returns keeps, the crawler keeps. -/
theorem crawlerRules_of_calls {J : LookupManager → Prop}
    (hJ : ∀ m call, J m → (m.apply W.net call).raised = false → J (m.apply W.net call))
    (config : CrawlerConfig) : CrawlerRules W config (fun _ ↦ True) fun _ _ c ↦ J c.lookupManager where
  callbacks := callbackRules_manager W config J
  records := recordRules_manager W config J
  answered := fun c _ call _ _ _ _ h ↦ ⟨fun _ ↦ trivial, hJ c.lookupManager call h⟩
  resolved := fun _ _ _ _ _ _ _ h ↦ h
  claimed := fun _ _ _ h ↦ ⟨fun _ ↦ trivial, fun _ ↦ h⟩
  released := fun _ _ _ h ↦ ⟨fun _ ↦ trivial, fun _ ↦ h⟩
  started := fun c infoHash _ seeds now hint _ _ _ h ↦
    ⟨fun _ ↦ trivial, hJ c.lookupManager (.startLookup infoHash seeds now hint) h⟩
  upkeep := fun c call _ _ _ h ↦ ⟨fun _ ↦ trivial, hJ c.lookupManager call h⟩

/-- The manager of a crawler run went through a run of its own. -/
theorem run_lookupManager {session : Session} {calls : List CrawlerCall}
    (hrun : (crawlerMachine W).run (new W config session) calls = some s) :
    ∃ lookupCalls, (lookupMachine W.net).run (new W config session).lookupManager lookupCalls =
      some s.lookupManager := by
  let Reached := fun m : LookupManager ↦ ∃ lookupCalls,
    (lookupMachine W.net).run (new W config session).lookupManager lookupCalls = some m
  have hrules : CrawlerRules W config (fun _ ↦ True) fun _ _ c ↦ Reached c.lookupManager := by
    refine crawlerRules_of_calls (fun m call hreached hreturned ↦ ?_) config
    obtain ⟨lookupCalls, hcalls⟩ := hreached
    refine ⟨lookupCalls ++ [call], ?_⟩
    rw [Machine.run_append, hcalls]
    refine (lookupMachine W.net).run_cons_eq_some.mpr ⟨m.apply W.net call, ?_, rfl⟩
    exact if_neg (by rw [hreturned]; exact Bool.false_ne_true)
  exact (hrules.run (fun _ _ (_ : True) _ h ↦ h) ⟨[], rfl⟩ (fun _ _ _ _ ↦ trivial) hrun).kept

/-- The crawler keeps the protocol of the catalog's callers: there is a run of the catalog, of
operations that their callers may issue, that leads to its state and has the crawler's own calls in
it, in their order. -/
theorem catalog_protocol_kept {ops : List CatalogOp} {session : Session} {calls : List CrawlerCall}
    (hsession : catalogMachine.Leads Permitted (.new limits) ops session)
    (hidle : session.lookupClaims = ∅)
    (hrun : (crawlerMachine W).run (new W config session) calls = some s) :
    ∃ all, catalogMachine.Along (fun s op ↦ s.permits ownClaimsOnly op) (.new limits) all ∧
      catalogMachine.run (.new limits) all = some s.session ∧ (calledOps s.history).Sublist all := by
  obtain ⟨all, hled, hsub⟩ := (run_agreed hsession hidle hrun).led
  exact ⟨all, hled.along, hled.run, hsub⟩

/-- The crawler records a hash, claims it and starts its lookup. -/
theorem catalog_protocol_kept_sample :
    ∃ s, (crawlerMachine sampleWorld).run sampleCrawler sampleCalls = some s ∧
      (calledOps s.history).length = 2 ∧
        ∃ all, catalogMachine.run (.new oneLookup) all = some s.session ∧
          (calledOps s.history).Sublist all := by
  have heval : ((crawlerMachine sampleWorld).run sampleCrawler sampleCalls).any fun s ↦
      (calledOps s.history).length = 2 := by
    decide +kernel
  rw [Option.any_eq_true] at heval
  obtain ⟨s, hrun, hlength⟩ := heval
  obtain ⟨all, -, hall, hsub⟩ :=
    catalog_protocol_kept (.refl catalogMachine Permitted (.new oneLookup)) rfl hrun
  exact ⟨s, hrun, of_decide_eq_true hlength, all, hall, hsub⟩

/-! ## Claims expire -/

/-- A tick of the crawler is a tick of its manager; the callbacks leave the manager alone. -/
theorem lookupManager_of_tick {session : Session} {calls : List CrawlerCall} {now : ℚ}
    (hrun : (crawlerMachine W).run (new W config session) calls = some s)
    (hstep : (crawlerMachine W).step s (.tick now) = some s') :
    s'.lookupManager = s.lookupManager.tick now := by
  obtain ⟨hconfigured, -⟩ := run_manager (LookupManager.keyed_rules W.net) trivial hrun
  have hgood : Good W config (fun _ ↦ True) [] s := ⟨hconfigured, List.nil_subset _, trivial⟩
  let P := (· = s.lookupManager.tick now)
  have hcalled : Ensures (callManager W (.tick now)) s
      (fun _ ↦ Good W config (fun c ↦ P c.lookupManager) []) fun _ _ ↦ True :=
    (callbackRules_manager W config P).callManager [] hgood ⟨fun _ ↦ trivial, fun _ ↦ rfl⟩
  exact (hcalled.ok (perform_of_step hstep)).kept

/-- After a tick, a hash whose lookup is in progress belongs to a lookup that was started less than
the deadline ago: no claim is held longer, whoever answers and whatever the other threads do. -/
theorem lookup_claims_expire {ops : List CatalogOp} {session : Session} {calls : List CrawlerCall}
    {now : ℚ} (hsession : catalogMachine.Leads Permitted (.new limits) ops session)
    (hidle : session.lookupClaims = ∅) (hqueries : 1 ≤ config.lookupLimits.maxQueries)
    (hrun : (crawlerMachine W).run (new W config session) calls = some s)
    (hstep : (crawlerMachine W).step s (.tick now) = some s') :
    ∀ h r, s'.session.catalog.entries.get? h = some r →
      (s'.session.catalog.heap r).lookupInProgress →
        ∃ number time, .started number h time ∈ s'.lookupManager.log ∧
          now < time + config.lookupLimits.deadline := by
  intro h r hr hlookup
  have hrun' : (crawlerMachine W).run (new W config session) (calls ++ [.tick now]) = some s' := by
    rw [Machine.run_append, hrun]
    exact (crawlerMachine W).run_cons_eq_some.mpr ⟨s', hstep, rfl⟩
  have hnew := LookupManager.ongoing_new W.net hqueries (config.accepts W.net) (W.clock 1)
  obtain ⟨before, hbefore⟩ := run_lookupManager hrun
  obtain ⟨after, hafter⟩ := run_lookupManager hrun'
  have hongoing := (hnew.run hbefore).1
  obtain ⟨hended, hrecorded⟩ := hnew.run hafter
  have hactive : h ∈ s'.lookupManager.active.keys :=
    ((run_agreed hsession hidle hrun').active_iff h).mpr ⟨r, hr, hlookup⟩
  obtain ⟨lookup, hget⟩ := Option.isSome_iff_exists.mp (OrderedMap.get?_isSome_iff.mpr hactive)
  obtain ⟨time, hstarted⟩ := hended.recorded.active h lookup hget
  refine ⟨lookup.number, time, hstarted, ?_⟩
  have hdeadline := (hended.streams.started _ h time hstarted).2 h lookup hget rfl
  have hlimits : s'.lookupManager.limits = config.lookupLimits := hrecorded.limits
  rw [lookupManager_of_tick hrun hstep] at hget
  have hlate := LookupManager.deadline_of_tick W.net hongoing.keyed hongoing.alive hget
  rwa [hdeadline, hlimits] at hlate

/-- A tick within the deadline leaves the lookup in progress. -/
theorem lookup_claims_expire_sample :
    ∃ s s' r, (crawlerMachine sampleWorld).run sampleCrawler sampleCalls = some s ∧
      (crawlerMachine sampleWorld).step s (.tick 1) = some s' ∧
        s'.session.catalog.entries.get? (ascii "bbbbbbbbbbbbbbbbbbbb".toList) = some r ∧
          (s'.session.catalog.heap r).lookupInProgress ∧ ∃ number time,
            .started number (ascii "bbbbbbbbbbbbbbbbbbbb".toList) time ∈ s'.lookupManager.log ∧
              1 < time + defaultLookupLimits.deadline := by
  have heval : ((crawlerMachine sampleWorld).run sampleCrawler sampleCalls).any fun s ↦
      ((crawlerMachine sampleWorld).step s (.tick 1)).any fun s' ↦
        (s'.session.catalog.entries.get? (ascii "bbbbbbbbbbbbbbbbbbbb".toList)).any fun r ↦
          (s'.session.catalog.heap r).lookupInProgress := by
    decide +kernel
  rw [Option.any_eq_true] at heval
  obtain ⟨s, hrun, heval⟩ := heval
  rw [Option.any_eq_true] at heval
  obtain ⟨s', hstep, heval⟩ := heval
  rw [Option.any_eq_true] at heval
  obtain ⟨r, hr, hlookup⟩ := heval
  exact ⟨s, s', r, hrun, hstep, hr, hlookup, lookup_claims_expire
    (.refl catalogMachine Permitted (.new oneLookup)) rfl (by decide) hrun hstep _ r hr hlookup⟩

end DhtCrawler

end DhtScraper
