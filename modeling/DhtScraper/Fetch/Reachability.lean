import DhtScraper.Fetch.Custody

/-!
# The reachability cache

`run_job` skips a peer that the cache of the engine knows to be unreachable.  The cache is read here
against the run: it only names peers that an attempt could not connect to within the last
`UNREACHABLE_SECONDS` and that were not reached over uTP since, and it names all of them as long as
fewer than `UNREACHABLE_ENTRIES` attempts could not connect in the meantime.
-/

namespace DhtScraper

open Library RecentEdit

/-- What a failure over TCP makes unreachable. -/
def unreachableKey (reason : FetchReason) (peer : Address) : Option UnreachableKey :=
  match reason with
  | .connectTimeout => some (.host peer.1)
  | .connect => some (.peer peer)
  | _ => none

/-- A fetch function could not connect. -/
def EngineStep.unconnected : EngineStep → Bool
  | fetchEnds _ (.failed .connect) .. | fetchEnds _ (.failed .connectTimeout) .. => true
  | _ => false

/-- The step is one of `run_job`, after its call or after a wait. -/
def EngineStep.runsJob : EngineStep → Bool
  | startJob .. | wakeJob .. => true
  | _ => false

namespace EngineState

variable {digest : Bytes → Bytes} {config : EngineConfig} {s s' : EngineState} {key : TaskKey}
  {attempt : Attempt} {number : ℕ}

/-! ## What the steps tell the cache -/

/-- What the end of a fetch over TCP tells. -/
def failureEdit (peer : Address) (result : FetchResult) (loopTime : ℚ) :
    Option (RecentEdit UnreachableKey ℚ) :=
  match result with
  | .failed reason => (unreachableKey reason peer).map fun k ↦ .renew k (loopTime + unreachableSeconds)
  | _ => none

/-- What a step tells of the reachability of a peer. -/
def reachabilityEdit (digest : Bytes → Bytes) (s : EngineState) :
    EngineStep → Option (RecentEdit UnreachableKey ℚ)
  | .fetchEnds key result loopTime now => (s.tasks.get? key).bind fun attempt ↦
      match attempt.stage with
      | .utp _ =>
        match fetched digest s.summaries attempt.infoHash attempt.peer now result with
        | .ok _ => some (.drop (.peer attempt.peer))
        | .error _ => none
      | _ => failureEdit attempt.peer result loopTime
  | _ => none

/-- The cache and the log of its edits. -/
def cache (s : EngineState) : OrderedMap UnreachableKey ℚ × List (RecentEdit UnreachableKey ℚ) :=
  (s.unreachable, s.reachability)

/-- The cache after an edit. -/
def editCache (s : EngineState) :
    Option (RecentEdit UnreachableKey ℚ) →
      OrderedMap UnreachableKey ℚ × List (RecentEdit UnreachableKey ℚ)
  | none => s.cache
  | some edit => (edit.apply unreachableEntries s.unreachable, s.reachability ++ [edit])

theorem cache_rememberUnreachable (s : EngineState) (peer : Address) (reason : FetchReason)
    (loopTime : ℚ) : (s.rememberUnreachable peer reason loopTime).cache =
      s.editCache (failureEdit peer (.failed reason) loopTime) := by
  cases s
  cases reason <;>
    dsimp only [rememberUnreachable, rememberKey, failureEdit, unreachableKey, Option.map_some,
      Option.map_none, editCache, cache, RecentEdit.apply, remember, OrderedMap.renew]

/-- Verifying what came over TCP notes a failure to connect. -/
theorem cache_verified_tcp (digest : Bytes → Bytes) (s : EngineState) (attempt : Attempt)
    {route : Route} (hroute : route ≠ .utp) (result : FetchResult) (loopTime now : ℚ) :
    (verified digest s attempt route result loopTime now).1.cache =
      s.editCache (failureEdit attempt.peer result loopTime) := by
  cases result with
  | failed reason =>
    have hverified : (verified digest s attempt route (.failed reason) loopTime now).1 =
        (s.rememberUnreachable attempt.peer reason loopTime).countReason reason.text := by
      simp only [verified, fetched, if_neg hroute]
    rw [hverified]
    exact s.cache_rememberUnreachable attempt.peer reason loopTime
  | raw bytes exhausted =>
    unfold verified
    split
    next => rfl
    next reason hreason =>
      -- the only such failure of verifying is the hash
      have hmismatch : reason = .sha1Mismatch := by
        simp only [fetched, readMetadata] at hreason
        split at hreason
        · exact (FetchError.fetch.inj (Except.error.inj hreason)).symm
        · split at hreason
          · cases hreason
          · split at hreason <;> cases hreason
      rw [if_neg hroute, hmismatch]
      exact s.cache_rememberUnreachable attempt.peer .sha1Mismatch loopTime
    next => rfl
    next => rfl
  | valueError => rfl
  | unexpected => rfl

/-- Verifying what came over uTP leaves the cache alone. -/
theorem cache_verified_utp (digest : Bytes → Bytes) (s : EngineState) (attempt : Attempt)
    (result : FetchResult) (loopTime now : ℚ) :
    (verified digest s attempt .utp result loopTime now).1.cache = s.cache ∧
      ((verified digest s attempt .utp result loopTime now).2.1 ≠ none ↔
        ∃ metadata, fetched digest s.summaries attempt.infoHash attempt.peer now result =
          .ok metadata) := by
  unfold verified
  split
  next metadata hmetadata =>
    exact ⟨rfl, ⟨fun _ ↦ ⟨metadata, hmetadata⟩, fun _ ↦ Option.some_ne_none _⟩⟩
  next reason herror =>
    rw [if_pos rfl]
    refine ⟨rfl, ⟨fun hsome ↦ absurd rfl hsome, fun ⟨metadata, hmetadata⟩ ↦ ?_⟩⟩
    rw [herror] at hmetadata
    cases hmetadata
  all_goals
    rename_i herror
    refine ⟨rfl, ⟨fun hsome ↦ absurd rfl hsome, fun ⟨metadata, hmetadata⟩ ↦ ?_⟩⟩
    rw [herror] at hmetadata
    cases hmetadata

theorem cache_endTcp (s : EngineState) (key : TaskKey) (attempt : Attempt) {route : Route}
    (hroute : route ≠ .utp) (result : FetchResult) (loopTime now : ℚ) :
    (endTcp digest config s key attempt route result loopTime now).cache =
      s.editCache (failureEdit attempt.peer result loopTime) := by
  have hverified := cache_verified_tcp digest s attempt hroute result loopTime now
  unfold endTcp
  dsimp only
  split <;> exact hverified

theorem cache_endUtp (s : EngineState) (key : TaskKey) (attempt : Attempt) (overTcp : AttemptOutcome)
    (result : FetchResult) (loopTime now : ℚ) :
    (endUtp digest s key attempt overTcp result loopTime now).cache =
      s.editCache (match fetched digest s.summaries attempt.infoHash attempt.peer now result with
        | .ok _ => some (.drop (.peer attempt.peer))
        | .error _ => none) := by
  obtain ⟨hcache, hsome⟩ := cache_verified_utp digest s attempt result loopTime now
  unfold endUtp
  dsimp only
  split
  next hfetched =>
    obtain ⟨metadata, hmetadata⟩ := hsome.mp hfetched
    simp only [cache, Prod.mk.injEq] at hcache
    rw [hmetadata]
    refine Prod.ext ?_ ?_
    · exact congrArg (OrderedMap.erase · _) hcache.1
    · exact congrArg (· ++ [_]) hcache.2
  next hnone =>
    cases hresult : fetched digest s.summaries attempt.infoHash attempt.peer now result with
    | ok metadata => exact absurd (hsome.mpr ⟨metadata, hresult⟩) hnone
    | error failure => exact hcache

theorem cache_fetchEnds (hget : s.tasks.get? key = some attempt) {result : FetchResult}
    {loopTime now : ℚ≥0}
    (hstep : fetchEnds digest config s key attempt result loopTime now = some s') :
    s'.cache = s.editCache (reachabilityEdit digest s (.fetchEnds key result loopTime now)) := by
  rw [reachabilityEdit, hget, Option.bind_some]
  unfold fetchEnds at hstep
  split at hstep
  next hstage =>
    rw [hstage]
    split at hstep
    · obtain rfl := Option.some.inj hstep
      rfl
    · obtain rfl := Option.some.inj hstep
      exact s.cache_endTcp key attempt (by decide) _ loopTime now
  next hstage _ =>
    obtain rfl := Option.some.inj hstep
    rw [hstage]
    exact s.cache_endTcp key attempt (by decide) _ loopTime now
  next hstage =>
    obtain rfl := Option.some.inj hstep
    rw [hstage]
    exact s.cache_endTcp key attempt (by decide) _ loopTime now
  next overTcp hstage =>
    obtain rfl := Option.some.inj hstep
    rw [hstage]
    exact s.cache_endUtp key attempt overTcp _ loopTime now
  · cases hstep

/-- The pieces of a job leave the cache alone. -/
theorem cache_advanceJob (s : EngineState) (number skipped created called : ℕ) (job : FetchJob) :
    (s.advanceJob number skipped created called job).cache = s.cache := by
  have hskipped (n : ℕ) : ∀ s : EngineState,
      ((fun s ↦ countReason s "skipped_unreachable")^[n] s).cache = s.cache := by
    induction n with
    | zero => exact fun _ ↦ rfl
    | succ n ih => exact fun s ↦ ih (s.countReason "skipped_unreachable")
  have hreport (s : EngineState) (op : CatalogOp) : (s.report op).cache = s.cache := by
    unfold EngineState.report
    dsimp only
    split
    · rfl
    · cases op <;> rfl
  have hcalls := foldl_keeps cache EngineState.report hreport (job.calls.drop called)
  unfold advanceJob
  dsimp only
  split <;> exact (hcalls _).trans (hskipped _ s)

/-- Every step edits the cache by what it tells. -/
theorem step_cache {label : EngineStep} (hstep : (engineMachine digest config).step s label = some s') :
    s'.cache = s.editCache (reachabilityEdit digest s label) := by
  cases label with
  | schedule loopTime =>
    simp only [engineMachine, EngineState.step] at hstep
    split at hstep
    · cases hstep
    · obtain rfl := Option.some.inj hstep
      unfold schedule
      dsimp only
      split
      · split
        · rfl
        · exact foldl_keeps cache createJob (fun _ _ ↦ rfl) _ _
      · rfl
  | startJob number clock now =>
    simp only [engineMachine, EngineState.step, EngineState.startJob] at hstep
    split at hstep
    · exact Option.some.inj hstep ▸ s.cache_advanceJob _ _ _ _ _
    · cases hstep
  | wakeJob number done clock loopTime now =>
    simp only [engineMachine, EngineState.step, EngineState.wakeJob] at hstep
    split at hstep
    · obtain ⟨outcomes, -, hstep⟩ := Option.bind_eq_some_iff.mp hstep
      obtain ⟨next, -, hstep⟩ := Option.bind_eq_some_iff.mp hstep
      obtain rfl := Option.some.inj hstep
      exact cache_advanceJob _ _ _ _ _ _
    · cases hstep
  | cancelJob number =>
    simp only [engineMachine, EngineState.step, EngineState.cancelJob] at hstep
    split at hstep
    · split at hstep
      · obtain rfl := Option.some.inj hstep
        rfl
      · obtain ⟨next, -, rfl⟩ := Option.map_eq_some_iff.mp hstep
        exact s.cache_advanceJob _ _ _ _ _
      · cases hstep
    · cases hstep
  | startAttempt key =>
    obtain ⟨attempt, -, -, hpiece⟩ := onAttempt_eq_some.mp hstep
    split at hpiece
    · obtain rfl := Option.some.inj hpiece
      rfl
    · cases hpiece
  | acquireSlot key =>
    obtain ⟨attempt, -, -, hpiece⟩ := onAttempt_eq_some.mp hstep
    split at hpiece
    · split at hpiece
      · obtain rfl := Option.some.inj hpiece
        rfl
      · cases hpiece
    · cases hpiece
  | fetchEnds key result loopTime now =>
    obtain ⟨attempt, hget, -, hpiece⟩ := onAttempt_eq_some.mp hstep
    exact cache_fetchEnds hget hpiece
  | unwind key =>
    simp only [engineMachine, EngineState.step] at hstep
    split at hstep
    · split at hstep
      · obtain rfl := Option.some.inj hstep
        unfold unwind
        dsimp only
        split <;> rfl
      · cases hstep
    · cases hstep
  | others op =>
    obtain rfl := Option.some.inj hstep
    rfl
  | stop =>
    obtain rfl := Option.some.inj hstep
    rfl

/-- A key is only renewed by an attempt over TCP that could not connect. -/
theorem renew_of_edit {label : EngineStep} {k : UnreachableKey} {expiry : ℚ}
    (h : reachabilityEdit digest s label = some (.renew k expiry)) :
    ∃ task reason loopTime now attempt, label = .fetchEnds task (.failed reason) loopTime now ∧
      s.tasks.get? task = some attempt ∧ (∀ overTcp, attempt.stage ≠ .utp overTcp) ∧
      unreachableKey reason attempt.peer = some k ∧ expiry = loopTime + unreachableSeconds := by
  cases label with
  | fetchEnds task result loopTime now =>
    obtain ⟨attempt, hget, hedit⟩ := Option.bind_eq_some_iff.mp h
    split at hedit
    · split at hedit <;> cases hedit
    next hstage =>
      cases result with
      | failed reason =>
        obtain ⟨other, hkey, heq⟩ := Option.map_eq_some_iff.mp hedit
        cases heq
        exact ⟨task, reason, loopTime, now, attempt, rfl, hget, hstage, hkey, rfl⟩
      | raw bytes exhausted => cases hedit
      | valueError => cases hedit
      | unexpected => cases hedit
  | schedule loopTime => cases h
  | startJob number clock now => cases h
  | wakeJob number done clock loopTime now => cases h
  | cancelJob number => cases h
  | startAttempt task => cases h
  | acquireSlot task => cases h
  | unwind task => cases h
  | others op => cases h
  | stop => cases h

theorem edit_of_failure {task : TaskKey} {reason : FetchReason} {loopTime now : ℚ≥0}
    {k : UnreachableKey} (hget : s.tasks.get? task = some attempt)
    (hstage : ∀ overTcp, attempt.stage ≠ .utp overTcp)
    (hkey : unreachableKey reason attempt.peer = some k) :
    reachabilityEdit digest s (.fetchEnds task (.failed reason) loopTime now) =
      some (.renew k (loopTime + unreachableSeconds)) := by
  rw [reachabilityEdit, hget, Option.bind_some]
  split
  next overTcp hutp => exact absurd hutp (hstage overTcp)
  next => rw [failureEdit, hkey, Option.map_some]

/-! ## The cache and the run -/

/-- An attempt of the run could not connect, which makes the key unreachable until `expiry`, and
in the steps `rest` since then no peer was reached over uTP that is this key. -/
def Refused (digest : Bytes → Bytes) (config : EngineConfig) (start : EngineState)
    (past : List EngineStep) (s : EngineState) (k : UnreachableKey) (expiry : ℚ)
    (rest : List EngineStep) : Prop :=
  ∃ before task reason loopTime now mid mid' attempt,
    past = before ++ .fetchEnds task (.failed reason) loopTime now :: rest ∧
    (engineMachine digest config).run start before = some mid ∧
    mid.tasks.get? task = some attempt ∧ (∀ overTcp, attempt.stage ≠ .utp overTcp) ∧
    unreachableKey reason attempt.peer = some k ∧ expiry = loopTime + unreachableSeconds ∧
    (engineMachine digest config).step mid (.fetchEnds task (.failed reason) loopTime now) =
      some mid' ∧
    (engineMachine digest config).Leads
      (fun s label ↦ reachabilityEdit digest s label ≠ some (.drop k)) mid' rest s

/-- An attempt to connect to the address of the peer, or to the peer itself, failed so that the peer is
unreachable at `now`, and the steps `rest` since then did not reach it over uTP. -/
def FailedRecently (digest : Bytes → Bytes) (config : EngineConfig) (start : EngineState)
    (past : List EngineStep) (s : EngineState) (peer : Address) (now : ℚ≥0) (expiry : ℚ)
    (rest : List EngineStep) : Prop :=
  ∃ k, (k = .host peer.1 ∨ k = .peer peer) ∧ now < expiry ∧
    Refused digest config start past s k expiry rest

/-- The cache still has the failure: the clock did not go back, and not too many failures came since. -/
def Recalled (expiry : ℚ) (rest : List EngineStep) : Prop :=
  (∀ label ∈ rest, ∀ task result time clock,
    label = EngineStep.fetchEnds task result time clock → expiry ≤ time + unreachableSeconds) ∧
  rest.countP EngineStep.unconnected < unreachableEntries

variable {start : EngineState} {past rest : List EngineStep} {k : UnreachableKey} {expiry : ℚ}

theorem Refused.concat (h : Refused digest config start past s k expiry rest) {label : EngineStep}
    (hstep : (engineMachine digest config).step s label = some s')
    (hedit : reachabilityEdit digest s label ≠ some (.drop k)) :
    Refused digest config start (past ++ [label]) s' k expiry (rest ++ [label]) := by
  obtain ⟨before, task, reason, loopTime, now, mid, mid', attempt, rfl, hbefore, hget, hstage, hkey,
    hexpiry, hfailure, hleads⟩ := h
  refine ⟨before, task, reason, loopTime, now, mid, mid', attempt, ?_, hbefore, hget, hstage, hkey,
    hexpiry, hfailure, hleads.concat hedit hstep⟩
  rw [List.append_assoc, List.cons_append]

/-- The cache is what its log says, and the log tells of the run. -/
structure Logged (digest : Bytes → Bytes) (config : EngineConfig) (start : EngineState)
    (past : List EngineStep) (s : EngineState) : Prop where
  run : (engineMachine digest config).run start past = some s
  replayed : s.unreachable = replay unreachableEntries s.reachability
  refused : ∀ k expiry, standing s.reachability k = some expiry →
    ∃ rest, Refused digest config start past s k expiry rest

theorem Logged.step (h : Logged digest config start past s) {label : EngineStep}
    (hstep : (engineMachine digest config).step s label = some s') :
    Logged digest config start (past ++ [label]) s' := by
  have hcache := step_cache hstep
  have hkept {k : UnreachableKey} {expiry : ℚ} (hstanding : standing s.reachability k = some expiry)
      (hedit : reachabilityEdit digest s label ≠ some (.drop k)) :
      ∃ rest, Refused digest config start (past ++ [label]) s' k expiry rest := by
    obtain ⟨rest, hrefused⟩ := h.refused k expiry hstanding
    exact ⟨rest ++ [label], hrefused.concat hstep hedit⟩
  constructor
  case run =>
    rw [Machine.run_append, h.run]
    exact (Machine.run_cons_eq_some _).mpr ⟨s', hstep, rfl⟩
  case replayed =>
    cases hedit : reachabilityEdit digest s label with
    | none =>
      rw [hedit] at hcache
      obtain ⟨hmap, hlog⟩ := Prod.mk.inj hcache
      rw [hmap, hlog, h.replayed]
    | some edit =>
      rw [hedit] at hcache
      obtain ⟨hmap, hlog⟩ := Prod.mk.inj hcache
      rw [hmap, hlog, replay_concat, h.replayed]
  case refused =>
    intro k expiry hstanding
    cases hedit : reachabilityEdit digest s label with
    | none =>
      rw [hedit] at hcache
      rw [(Prod.mk.inj hcache).2] at hstanding
      exact hkept hstanding (by simp [hedit])
    | some edit =>
      rw [hedit] at hcache
      rw [(Prod.mk.inj hcache).2] at hstanding
      cases edit with
      | renew k' expiry' =>
        rw [standing_renew] at hstanding
        split at hstanding
        next heq =>
          obtain rfl := Option.some.inj hstanding
          obtain rfl := heq
          obtain ⟨task, reason, loopTime, now, attempt, rfl, hget, hstage, hkey, hexpiry⟩ :=
            renew_of_edit hedit
          exact ⟨[], past, task, reason, loopTime, now, s, s', attempt, rfl, h.run, hget, hstage, hkey,
            hexpiry, hstep, .refl _ _ _⟩
        next => exact hkept hstanding (by simp [hedit])
      | drop k' =>
        rw [standing_drop] at hstanding
        split at hstanding
        next => cases hstanding
        next hne => exact hkept hstanding (hedit ▸ fun heq ↦ hne (by cases heq; rfl))

theorem run_logged {session : Session} {steps : List EngineStep}
    (hrun : (engineMachine digest config).run (new config session) steps = some s) :
    Logged digest config (new config session) steps s := by
  refine (engineMachine digest config).run_history_invariant (G := fun _ _ ↦ True)
    (fun past s label s' h _ hstep ↦ h.step hstep) [] ?_ ((engineMachine digest config).along_true _ _)
    hrun
  exact ⟨rfl, rfl, fun k expiry hnone ↦ by cases hnone⟩

/-- The log still knows a failure that is not too long ago, and few others came since. -/
theorem recalled_of_leads {mid : EngineState}
    (hmid : standing mid.reachability k = some expiry ∧ renewedSince mid.reachability k = ∅)
    (hleads : (engineMachine digest config).Leads
      (fun s label ↦ reachabilityEdit digest s label ≠ some (.drop k)) mid rest s)
    (hlater : ∀ label ∈ rest, ∀ task result time now,
      label = EngineStep.fetchEnds task result time now → expiry ≤ time + unreachableSeconds) :
    ∃ later, standing s.reachability k = some later ∧ expiry ≤ later ∧
      (renewedSince s.reachability k).card ≤ rest.countP EngineStep.unconnected := by
  have hguard := hleads.along.and ((engineMachine digest config).along_of_forall hlater mid)
  refine (engineMachine digest config).run_history_invariant
    (I := fun past s ↦ ∃ later, standing s.reachability k = some later ∧ expiry ≤ later ∧
      (renewedSince s.reachability k).card ≤ past.countP EngineStep.unconnected)
    (fun past s label s' h hlabel hstep ↦ ?_) [] ?_ hguard hleads.run
  · obtain ⟨later, hstanding, hle, hcard⟩ := h
    have hmono : past.countP EngineStep.unconnected ≤
        (past ++ [label]).countP EngineStep.unconnected := by
      rw [List.countP_append]
      exact Nat.le_add_right _ _
    have hcache := step_cache hstep
    cases hedit : reachabilityEdit digest s label with
    | none =>
      rw [hedit] at hcache
      rw [(Prod.mk.inj hcache).2]
      exact ⟨later, hstanding, hle, hcard.trans hmono⟩
    | some edit =>
      rw [hedit] at hcache
      rw [(Prod.mk.inj hcache).2]
      cases edit with
      | renew k' expiry' =>
        obtain ⟨task, reason, loopTime, now, attempt, rfl, -, -, hkey, hexpiry⟩ := renew_of_edit hedit
        rw [standing_renew, renewedSince_renew]
        by_cases heq : k = k'
        · rw [if_pos heq, if_pos heq]
          exact ⟨expiry', rfl, hexpiry ▸ hlabel.2 task _ loopTime now rfl, Nat.zero_le _⟩
        · rw [if_neg heq, if_neg heq]
          refine ⟨later, hstanding, hle, (Finset.card_insert_le _ _).trans ?_⟩
          have hcount : EngineStep.unconnected (.fetchEnds task (.failed reason) loopTime now) := by
            cases reason <;> first | rfl | cases hkey
          rw [List.countP_append, List.countP_singleton, if_pos hcount]
          exact Nat.add_le_add_right hcard 1
      | drop k' =>
        have hne : k ≠ k' := fun heq ↦ hlabel.1 (heq ▸ hedit)
        rw [standing_drop, renewedSince_drop, if_neg hne]
        exact ⟨later, hstanding, hle, hcard.trans hmono⟩
  · exact ⟨expiry, hmid.1, le_rfl, by rw [hmid.2]; exact Nat.zero_le _⟩

/-- A peer is known to be unreachable only when an attempt to connect failed not too long ago; and it is
known then, as long as the failure is recalled. -/
theorem isKnownUnreachable_spec {session : Session} {steps : List EngineStep}
    (hrun : (engineMachine digest config).run (new config session) steps = some s) (peer : Address)
    (now : ℚ≥0) :
    (s.isKnownUnreachable peer now → ∃ expiry rest,
      FailedRecently digest config (new config session) steps s peer now expiry rest) ∧
    ∀ expiry rest, FailedRecently digest config (new config session) steps s peer now expiry rest →
      Recalled expiry rest → s.isKnownUnreachable peer now := by
  have hlogged := run_logged hrun
  constructor
  · intro hknown
    have hfound (k : UnreachableKey) (hlt : (now : ℚ) < (s.unreachable.get? k).getD 0) :
        ∃ expiry : ℚ, ∃ rest, now < expiry ∧
          Refused digest config (new config session) steps s k expiry rest := by
      cases hget : s.unreachable.get? k with
      | none =>
        rw [hget] at hlt
        exact absurd hlt (not_lt.mpr now.coe_nonneg)
      | some expiry =>
        rw [hget] at hlt
        rw [hlogged.replayed] at hget
        obtain ⟨rest, hrefused⟩ := hlogged.refused k expiry (standing_of_get? hget)
        exact ⟨expiry, rest, hlt, hrefused⟩
    rcases Bool.or_eq_true_iff.mp hknown with hhost | hpeer
    · obtain ⟨expiry, rest, hlt, hrefused⟩ := hfound _ (of_decide_eq_true hhost)
      exact ⟨expiry, rest, _, .inl rfl, hlt, hrefused⟩
    · obtain ⟨expiry, rest, hlt, hrefused⟩ := hfound _ (of_decide_eq_true hpeer)
      exact ⟨expiry, rest, _, .inr rfl, hlt, hrefused⟩
  · rintro expiry rest ⟨k, hk, hlt, hrefused⟩ ⟨hlater, hfew⟩
    obtain ⟨before, task, reason, loopTime, clock, mid, mid', attempt, -, -, hget, hstage, hkey, rfl,
      hfailure, hleads⟩ := hrefused
    have hcache := step_cache hfailure
    rw [edit_of_failure hget hstage hkey] at hcache
    have hnew : standing mid'.reachability k = some (loopTime + unreachableSeconds) ∧
        renewedSince mid'.reachability k = ∅ := by
      rw [(Prod.mk.inj hcache).2, standing_renew, renewedSince_renew, if_pos rfl, if_pos rfl]
      exact ⟨rfl, rfl⟩
    obtain ⟨later, hstanding, hle, hcard⟩ := recalled_of_leads hnew hleads hlater
    have hfound : s.unreachable.get? k = some later := by
      rw [hlogged.replayed]
      exact get?_of_standing hstanding (hcard.trans_lt hfew)
    have hknown : (now : ℚ) < (s.unreachable.get? k).getD 0 := by
      rw [hfound]
      exact hlt.trans_le hle
    rcases hk with rfl | rfl
    · exact Bool.or_eq_true_iff.mpr (.inl (decide_eq_true hknown))
    · exact Bool.or_eq_true_iff.mpr (.inr (decide_eq_true hknown))

/-! ## The peers that the jobs skip -/

/-- The job that a step of `run_job` advances, before and after the step, and the readings of the clock
for the peers it takes. -/
def piece (config : EngineConfig) (s : EngineState) :
    EngineStep → Option (FetchJob × FetchJob × (Address → ℚ≥0))
  | .startJob number clock now =>
    match s.jobs.get? number with
    | some (.created infoHash peers) =>
      some (.atStart infoHash peers s.pauseUntil, .runJob config.toFetchEngine infoHash peers
        (fun peer ↦ s.isKnownUnreachable peer (clock peer)) now s.pauseUntil, clock)
    | _ => none
  | .wakeJob number done clock _ now =>
    match s.jobs.get? number with
    | some (.started job) => do
      let outcomes ← s.outcomes number done
      let next ← (jobMachine config.toFetchEngine).step job
        (.wake outcomes (fun peer ↦ s.isKnownUnreachable peer (clock peer)) now)
      some (job, next, clock)
    | _ => none
  | _ => none

/-- Every step of `run_job` has its piece, and the engine goes on with the job after it. -/
theorem piece_of_step {label : EngineStep} (hruns : label.runsJob = true)
    (hstep : (engineMachine digest config).step s label = some s') :
    ∃ job next clock number mid, s.piece config label = some (job, next, clock) ∧
      s' = advanceJob mid number job.skipped.length job.created job.calls.length next := by
  cases label with
  | startJob number clock now =>
    simp only [engineMachine, EngineState.step, EngineState.startJob] at hstep
    split at hstep
    next infoHash peers hget =>
      refine ⟨.atStart infoHash peers s.pauseUntil, _, clock, number, s, ?_,
        (Option.some.inj hstep).symm⟩
      simp only [piece, hget]
    next => cases hstep
  | wakeJob number done clock loopTime now =>
    simp only [engineMachine, EngineState.step, EngineState.wakeJob] at hstep
    split at hstep
    next job hget =>
      obtain ⟨outcomes, houtcomes, hstep⟩ := Option.bind_eq_some_iff.mp hstep
      obtain ⟨next, hnext, hstep⟩ := Option.bind_eq_some_iff.mp hstep
      refine ⟨job, next, clock, number, _, ?_, (Option.some.inj hstep).symm⟩
      simp only [piece, hget]
      exact Option.bind_eq_some_iff.mpr
        ⟨outcomes, houtcomes, Option.bind_eq_some_iff.mpr ⟨next, hnext, rfl⟩⟩
    next => cases hstep
  | schedule loopTime => cases hruns
  | cancelJob number => cases hruns
  | startAttempt task => cases hruns
  | acquireSlot task => cases hruns
  | fetchEnds task result loopTime now => cases hruns
  | unwind task => cases hruns
  | others op => cases hruns
  | stop => cases hruns

theorem piece_divides {label : EngineStep} {job next : FetchJob} {clock : Address → ℚ≥0}
    (hpiece : s.piece config label = some (job, next, clock)) :
    FetchJob.Divides (fun peer ↦ s.isKnownUnreachable peer (clock peer)) job.waiting job next := by
  unfold piece at hpiece
  split at hpiece
  next number clock now =>
    split at hpiece
    next infoHash peers hget =>
      cases hpiece
      exact FetchJob.loop_divides config.toFetchEngine _ _ _ _
    next => cases hpiece
  next number done clock loopTime now =>
    split at hpiece
    next job hget =>
      obtain ⟨outcomes, -, hpiece⟩ := Option.bind_eq_some_iff.mp hpiece
      obtain ⟨next, hnext, hpiece⟩ := Option.bind_eq_some_iff.mp hpiece
      cases hpiece
      exact FetchJob.wake_divides hnext
    next => cases hpiece
  next => cases hpiece

/-- A step of `run_job` skips a peer that it takes only when an attempt to connect to its address timed
out within the last `UNREACHABLE_SECONDS`, or when the peer refused a connection within this time and
was not reached over uTP since; and it attempts the others, so that a peer with such a failure is only
attempted when the clock went back or `UNREACHABLE_ENTRIES` attempts could not connect since. -/
theorem unreachable_exact {session : Session} {steps : List EngineStep}
    (hrun : (engineMachine digest config).run (new config session) steps = some s)
    {label : EngineStep} (hruns : label.runsJob = true)
    (hstep : (engineMachine digest config).step s label = some s') :
    ∃ job next clock number mid taken skipped attempted,
      s.piece config label = some (job, next, clock) ∧
      s' = advanceJob mid number job.skipped.length job.created job.calls.length next ∧
      job.waiting = taken ++ next.waiting ∧ (skipped ++ attempted).Perm taken ∧
      next.skipped = job.skipped ++ skipped ∧ next.attempted = job.attempted ++ attempted ∧
      (∀ peer ∈ skipped, ∃ expiry rest,
        FailedRecently digest config (new config session) steps s peer (clock peer) expiry rest) ∧
      ∀ peer ∈ attempted, ∀ expiry rest,
        FailedRecently digest config (new config session) steps s peer (clock peer) expiry rest →
          ¬ Recalled expiry rest := by
  obtain ⟨job, next, clock, number, mid, hpiece, hnext⟩ := piece_of_step hruns hstep
  obtain ⟨taken, hwaiting, hskipped, hattempted⟩ := piece_divides hpiece
  refine ⟨job, next, clock, number, mid, taken, _, _, hpiece, hnext, hwaiting,
    List.filter_append_perm _ taken, hskipped, hattempted, fun peer hpeer ↦ ?_,
    fun peer hpeer expiry rest hfailed hrecalled ↦ ?_⟩
  · obtain ⟨-, hknown⟩ := List.mem_filter.mp hpeer
    exact (isKnownUnreachable_spec hrun peer (clock peer)).1 hknown
  · obtain ⟨-, hunknown⟩ := List.mem_filter.mp hpeer
    have hknown := (isKnownUnreachable_spec hrun peer (clock peer)).2 expiry rest hfailed hrecalled
    rw [hknown] at hunknown
    cases hunknown

/-- The peer refuses a connection and is announced for another hash, which the engine claims. -/
def refusedSteps : List EngineStep :=
  sampleSteps.take 5 ++ [.others (.recordHash (sampleHash 2) .announcePeer (some samplePeer) 0),
    .schedule 1]

/-- The job of the other hash skips the peer, because of the refused connection. -/
theorem unreachable_exact_sample :
    ∃ s job next clock, (engineMachine (fun _ ↦ sampleHash 1) {}).run (new {} announcedSession)
        refusedSteps = some s ∧
      s.piece {} (.startJob 1 (fun _ ↦ 2) 2) = some (job, next, clock) ∧
      next.skipped = [samplePeer] ∧ ∃ expiry rest, FailedRecently (fun _ ↦ sampleHash 1) {}
        (new {} announcedSession) refusedSteps s samplePeer (clock samplePeer) expiry rest := by
  have heval : ((engineMachine (fun _ ↦ sampleHash 1) {}).run (new {} announcedSession)
      refusedSteps).any fun s ↦
        ((engineMachine (fun _ ↦ sampleHash 1) {}).step s (.startJob 1 (fun _ ↦ 2) 2)).isSome ∧
          (s.piece {} (.startJob 1 (fun _ ↦ 2) 2)).any fun piece ↦
            piece.1.skipped = [] ∧ piece.2.1.skipped = [samplePeer] := by
    decide +kernel
  rw [Option.any_eq_true] at heval
  obtain ⟨s, hrun, hs⟩ := heval
  obtain ⟨hsome, hany⟩ := of_decide_eq_true hs
  obtain ⟨s', hstep⟩ := Option.isSome_iff_exists.mp hsome
  obtain ⟨job, next, clock, -, -, -, skipped, -, hpiece, -, -, -, hskipped, -, hfailed, -⟩ :=
    unreachable_exact hrun rfl hstep
  rw [hpiece] at hany
  obtain ⟨hbefore, hafter⟩ := of_decide_eq_true hany
  rw [hbefore, List.nil_append, hafter] at hskipped
  exact ⟨s, job, next, clock, hrun, hpiece, hafter, hfailed samplePeer (hskipped ▸ List.mem_cons_self)⟩

end EngineState

end DhtScraper
