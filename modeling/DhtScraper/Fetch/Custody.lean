import DhtScraper.Fetch.Engine

/-!
# The claims of the fetch engine

Every claim that `next_fetch_candidates` hands to the engine belongs to one job until the job reports
to the catalog, in whatever order the tasks run and whatever the other threads do; and metadata is
stored only after bytes with the hash of the claim were summarized.
-/

namespace DhtScraper

open Library

/-! ## What a job tells the catalog -/

/-- The metadata is the summary of an info dictionary that has the hash. -/
def Authentic (digest : Bytes → Bytes) (infoHash : Bytes) (metadata : TorrentMetadata) : Prop :=
  ∃ raw info, digest raw = infoHash ∧ decodeBencode raw = .ok info ∧
    summarizeInfoDict metadata.ident infoHash info metadata.fetchedAt metadata.sourcePeer = .ok metadata

/-- A call that gives the claim of the hash back. -/
inductive Resolves (genuine : TorrentMetadata → Prop) (infoHash : Bytes) : CatalogOp → Prop where
  | stored {metadata : TorrentMetadata} {now : ℚ} (hgenuine : genuine metadata)
      (hhash : metadata.infoHash = infoHash) (hnow : 0 ≤ now) :
      Resolves genuine infoHash (.storeMetadata metadata now)
  | failed {blamed : List Address} {reason : String} {now : ℚ} (hnow : 0 ≤ now) :
      Resolves genuine infoHash (.markFetchFailed infoHash blamed reason now)
  | released : Resolves genuine infoHash (.releaseFetchClaim infoHash)

theorem Resolves.permitted {genuine : TorrentMetadata → Prop} {infoHash : Bytes} {op : CatalogOp}
    (h : Resolves genuine infoHash op) {s : Session} (hclaimed : infoHash ∈ s.fetchClaims) :
    Permitted s op := by
  cases h with
  | stored hgenuine hhash hnow => exact fun hnever ↦ by cases hnever
  | failed hnow => exact hclaimed
  | released => exact hclaimed

theorem Resolves.nextFetchClaims {genuine : TorrentMetadata → Prop} {infoHash : Bytes} {op : CatalogOp}
    (h : Resolves genuine infoHash op) (hlength : infoHash.length = nodeIdLength) (s : Session) :
    s.nextFetchClaims op = s.fetchClaims.erase infoHash := by
  cases h with
  | stored hgenuine hhash hnow => exact hhash ▸ if_pos hnow
  | failed hnow => exact if_pos ⟨hlength, hnow⟩
  | released => exact if_pos hlength

namespace FetchJob

variable {engine : FetchEngine} {infoHash : Bytes} {peers : List Address} {job next : FetchJob}
  {genuine : TorrentMetadata → Prop}

/-- The job is in a wait, or it has ended with one call of the catalog. -/
def Proceeds (genuine : TorrentMetadata → Prop) (job : FetchJob) : Prop :=
  (∃ timer, job.phase = .waiting timer ∧ job.calls = []) ∨
    (∀ timer, job.phase ≠ .waiting timer) ∧ ∃ op, job.calls = [op] ∧ Resolves genuine job.infoHash op

theorem finishJob_resolves {now : ℚ} (hnow : 0 ≤ now) (hgenuine : ∀ metadata,
    job.metadata = some metadata → genuine metadata ∧ metadata.infoHash = job.infoHash) :
    (job.finishJob now).infoHash = job.infoHash ∧ ∃ op, (job.finishJob now).calls = job.calls ++ [op] ∧
      Resolves genuine job.infoHash op := by
  unfold finishJob
  dsimp only
  split
  next metadata hmetadata =>
    obtain ⟨htrue, hhash⟩ := hgenuine metadata hmetadata
    exact ⟨rfl, _, rfl, .stored htrue hhash hnow⟩
  next =>
    split
    · exact ⟨rfl, _, rfl, .failed hnow⟩
    · exact ⟨rfl, _, rfl, .released⟩

theorem proceeds_finish (hcalls : job.calls = []) {now : ℚ} (hnow : 0 ≤ now)
    (hgenuine : ∀ metadata, job.metadata = some metadata →
      genuine metadata ∧ metadata.infoHash = job.infoHash) :
    (job.finish now).infoHash = job.infoHash ∧ (job.finish now).Proceeds genuine := by
  obtain ⟨hhash, op, hop, hresolves⟩ := finishJob_resolves hnow hgenuine
  rw [hcalls, List.nil_append] at hop
  exact ⟨hhash, .inr ⟨by simp [FetchJob.finish], op, hop, hhash.symm ▸ hresolves⟩⟩

/-- The loop goes on to a wait or to one call of the catalog. -/
theorem proceeds_loop (genuine : TorrentMetadata → Prop) (engine : FetchEngine)
    (known : Address → Bool) {now : ℚ} (hnow : 0 ≤ now) (ws : List Address) :
    ∀ job : FetchJob, job.calls = [] →
      (∀ metadata, job.metadata = some metadata →
        genuine metadata ∧ metadata.infoHash = job.infoHash) →
      (loop engine known now ws job).infoHash = job.infoHash ∧
        (loop engine known now ws job).Proceeds genuine := by
  induction ws with
  | nil =>
    intro job hcalls hgenuine
    unfold loop
    split
    · exact ⟨rfl, .inl ⟨false, rfl, hcalls⟩⟩
    · have hquiet : { job with waiting := [] }.calls = [] := hcalls
      exact proceeds_finish hquiet hnow hgenuine
  | cons peer rest ih =>
    intro job hcalls hgenuine
    unfold loop
    split
    · have hquiet : { job with waiting := peer :: rest }.calls = [] := hcalls
      exact proceeds_finish hquiet hnow hgenuine
    · split
      · split
        · exact ih (job.skip peer) hcalls hgenuine
        · exact ⟨rfl, .inl ⟨_, rfl, hcalls⟩⟩
      · exact ⟨rfl, .inl ⟨false, rfl, hcalls⟩⟩

/-- What collecting an outcome adds is the outcome. -/
theorem collect_adds (engine : FetchEngine) (now : ℚ) (finished : ℕ × AttemptOutcome) (job : FetchJob) :
    (job.collect engine now finished).infoHash = job.infoHash ∧
      (job.collect engine now finished).calls = job.calls ∧
      ∀ item ∈ (job.collect engine now finished).collected,
        item ∈ job.collected ∨ item.2 = finished.2 := by
  unfold collect
  split
  next => exact ⟨rfl, rfl, fun item hitem ↦ .inl hitem⟩
  next peer _ =>
    dsimp only
    have hadded : ∀ item ∈ job.collected ++ [(peer, finished.2)],
        item ∈ job.collected ∨ item.2 = finished.2 := fun item hitem ↦ by
      rcases List.mem_append.mp hitem with hold | hnew
      · exact .inl hold
      · exact .inr (congrArg Prod.snd (List.mem_singleton.mp hnew))
    split <;> exact ⟨rfl, rfl, hadded⟩

theorem collectEach_adds (engine : FetchEngine) (now : ℚ) (done : List (ℕ × AttemptOutcome)) :
    ∀ job : FetchJob, (done.foldl (collect engine now) job).infoHash = job.infoHash ∧
      (done.foldl (collect engine now) job).calls = job.calls ∧
      ∀ item ∈ (done.foldl (collect engine now) job).collected,
        item ∈ job.collected ∨ ∃ finished ∈ done, item.2 = finished.2 := by
  induction done with
  | nil => exact fun job ↦ ⟨rfl, rfl, fun item hitem ↦ .inl hitem⟩
  | cons first rest ih =>
    intro job
    obtain ⟨hhash, hcalls, hfirst⟩ := job.collect_adds engine now first
    obtain ⟨hrestHash, hrestCalls, hrest⟩ := ih (job.collect engine now first)
    refine ⟨hrestHash.trans hhash, hrestCalls.trans hcalls, fun item hitem ↦ ?_⟩
    rcases hrest item hitem with hold | ⟨finished, hfinished, heq⟩
    · rcases hfirst item hold with hbefore | heq
      · exact .inl hbefore
      · exact .inr ⟨first, List.mem_cons_self, heq⟩
    · exact .inr ⟨finished, List.mem_cons_of_mem _ hfinished, heq⟩

/-- A wait that ends leads to the next wait or to the end. -/
theorem proceeds_wake (genuine : TorrentMetadata → Prop)
    (hreached : Reached engine infoHash peers job) {done : List (ℕ × AttemptOutcome)}
    {known : Address → Bool} {now : ℚ} (hnow : 0 ≤ now)
    (hdone : ∀ item ∈ done, ∀ metadata, item.2.1 = some metadata →
      genuine metadata ∧ metadata.infoHash = infoHash)
    (hstep : (jobMachine engine).step job (.wake done known now) = some next) :
    next.infoHash = infoHash ∧ next.Proceeds genuine := by
  cases hreached with
  | finished hphase => simp [jobMachine, hphase] at hstep
  | cancelled hphase => simp [jobMachine, hphase] at hstep
  | waiting timer hphase hopen hnone hrunning htimer =>
    simp only [jobMachine, hphase] at hstep
    split at hstep
    next hreturn =>
      obtain rfl := Option.some.inj hstep
      obtain ⟨hcollected, -⟩ := hopen.collectEach now done hreturn.1 hreturn.2.1
      obtain ⟨hhash, hcalls, hadds⟩ := job.collectEach_adds engine now done
      rw [hopen.infoHash] at hhash
      have hloop := proceeds_loop genuine engine known hnow job.waiting
        (done.foldl (collect engine now) job) (hcalls.trans hopen.calls) fun metadata hmetadata ↦ by
          rw [hcollected.metadata] at hmetadata
          obtain ⟨item, hitem, hsome⟩ := List.exists_of_findSome?_eq_some hmetadata
          rw [hhash]
          rcases hadds item hitem with hbefore | ⟨finished, hfinished, heq⟩
          · -- before the wait no attempt had brought metadata
            have hfirst : firstMetadata job.collected = none := hopen.metadata ▸ hnone
            rw [List.findSome?_eq_none_iff.mp hfirst item hbefore] at hsome
            cases hsome
          · exact hdone finished hfinished metadata (heq ▸ hsome)
      exact ⟨hloop.1.trans hhash, hloop.2⟩
    next => cases hstep

theorem Reached.calls_of_waiting (hreached : Reached engine infoHash peers job) {timer : Bool}
    (hphase : job.phase = .waiting timer) : job.calls = [] := by
  cases hreached with
  | waiting _ _ hopen => exact hopen.calls
  | finished hother => cases hphase.symm.trans hother
  | cancelled hother => cases hphase.symm.trans hother

theorem proceeds_cancel (genuine : TorrentMetadata → Prop)
    (hreached : Reached engine infoHash peers job)
    (hstep : (jobMachine engine).step job .cancel = some next) :
    next.infoHash = infoHash ∧ next.Proceeds genuine := by
  cases hreached with
  | finished hphase => simp [jobMachine, hphase] at hstep
  | cancelled hphase => simp [jobMachine, hphase] at hstep
  | waiting timer hphase hopen hnone hrunning htimer =>
    simp only [jobMachine, hphase, Option.some.injEq] at hstep
    subst hstep
    refine ⟨hopen.infoHash, .inr ⟨fun timer hwaits ↦ ?_, .releaseFetchClaim job.infoHash, ?_,
      .released⟩⟩
    · cases hwaits
    · change job.calls ++ [.releaseFetchClaim job.infoHash] = _
      rw [hopen.calls]
      rfl

theorem proceeds_runJob (genuine : TorrentMetadata → Prop) (engine : FetchEngine)
    (infoHash : Bytes) (peers : List Address) (known : Address → Bool) {now : ℚ} (hnow : 0 ≤ now)
    (pauseUntil : ℚ) :
    (runJob engine infoHash peers known now pauseUntil).infoHash = infoHash ∧
      (runJob engine infoHash peers known now pauseUntil).Proceeds genuine := by
  refine proceeds_loop genuine engine known hnow peers.reverse _ rfl fun metadata hmetadata ↦ ?_
  cases hmetadata

end FetchJob

/-- The outcome that an attempt has so far. -/
def AttemptStage.outcome : AttemptStage → Option AttemptOutcome
  | utp result => some result
  | ended outcome => some outcome
  | _ => none

/-! ## Verified metadata -/

theorem Authentic.infoHash {digest : Bytes → Bytes} {infoHash : Bytes} {metadata : TorrentMetadata}
    (h : Authentic digest infoHash metadata) : metadata.infoHash = infoHash := by
  obtain ⟨raw, info, -, -, hsummary⟩ := h
  exact (summarizes_of_ok hsummary).infoHash

namespace EngineState

variable {digest : Bytes → Bytes} {config : EngineConfig} {limits : CatalogLimits}
  {s s' : EngineState} {genuine : Bytes → TorrentMetadata → Prop}

/-- Only bytes with the hash are made into metadata. -/
theorem fetched_eq_ok {ident : ℕ} {infoHash : Bytes} {peer : Address} {now : ℚ}
    {result : FetchResult} {metadata : TorrentMetadata}
    (h : fetched digest ident infoHash peer now result = .ok metadata) :
    ∃ raw info, result = .raw raw false ∧ digest raw = infoHash ∧ decodeBencode raw = .ok info ∧
      summarizeInfoDict ident infoHash info now (some peer) = .ok metadata := by
  cases result with
  | raw bytes exhausted =>
    simp only [fetched, readMetadata] at h
    split at h
    next => cases h
    next hdigest =>
      split at h
      next => cases h
      next hlimits =>
        split at h
        next summary hsummary =>
          obtain ⟨info, hinfo, hsummary⟩ := bind_eq_ok.mp hsummary
          obtain rfl := Except.ok.inj h
          obtain rfl := Bool.not_eq_true _ ▸ hlimits
          exact ⟨bytes, info, rfl, not_not.mp hdigest, hinfo, hsummary⟩
        next => cases h
  | failed reason => cases h
  | valueError => cases h
  | unexpected => cases h

theorem authentic_of_fetched {ident : ℕ} {infoHash : Bytes} {peer : Address} {now : ℚ}
    {result : FetchResult} {metadata : TorrentMetadata}
    (h : fetched digest ident infoHash peer now result = .ok metadata) :
    Authentic digest infoHash metadata := by
  obtain ⟨raw, info, -, hdigest, hinfo, hsummary⟩ := fetched_eq_ok h
  have hmade := summarizes_of_ok hsummary
  refine ⟨raw, info, hdigest, hinfo, ?_⟩
  rw [hmade.ident, hmade.fetchedAt, hmade.sourcePeer]
  exact hsummary

/-- What the claims of the engine are about. -/
def desk (s : EngineState) :
    Session × OrderedMap ℕ JobTask × ℕ × Bool × List CatalogOp × List Bytes :=
  (s.session, s.jobs, s.nextJob, s.stopping, s.calls, s.leaked)

theorem desk_rememberUnreachable (s : EngineState) (peer : Address) (reason : FetchReason) (now : ℚ) :
    (s.rememberUnreachable peer reason now).desk = s.desk ∧
      (s.rememberUnreachable peer reason now).tasks = s.tasks := by
  have hkey (key : UnreachableKey) (expiry : ℚ) : (s.rememberKey key expiry).desk = s.desk ∧
      (s.rememberKey key expiry).tasks = s.tasks := by
    cases s
    dsimp only [desk, rememberKey]
    exact ⟨rfl, rfl⟩
  unfold rememberUnreachable
  split
  · exact hkey _ _
  · exact hkey _ _
  · exact ⟨rfl, rfl⟩

/-- Verifying leaves the jobs and the tasks alone, and passes only metadata made of what was fetched. -/
theorem verified_spec (digest : Bytes → Bytes) (s : EngineState) (attempt : Attempt)
    (route : Route) (result : FetchResult) (loopTime now : ℚ) :
    (verified digest s attempt route result loopTime now).1.desk = s.desk ∧
      (verified digest s attempt route result loopTime now).1.tasks = s.tasks ∧
        ∀ metadata, (verified digest s attempt route result loopTime now).2.1 = some metadata →
          fetched digest s.summaries attempt.infoHash attempt.peer now result = .ok metadata := by
  unfold verified
  split
  next metadata hmetadata =>
    exact ⟨rfl, rfl, fun other hother ↦ Option.some.inj hother ▸ hmetadata⟩
  next reason _ =>
    split
    · exact ⟨rfl, rfl, fun metadata hnone ↦ by cases hnone⟩
    · obtain ⟨hdesk, htasks⟩ := s.desk_rememberUnreachable attempt.peer reason loopTime
      exact ⟨hdesk, htasks, fun metadata hnone ↦ by cases hnone⟩
  next => exact ⟨rfl, rfl, fun metadata hnone ↦ by cases hnone⟩
  next => exact ⟨rfl, rfl, fun metadata hnone ↦ by cases hnone⟩

/-! ## The pieces of a job -/

theorem setTask_tasks (s : EngineState) (key : TaskKey) (attempt : Attempt) :
    (s.setTask key attempt).tasks = s.tasks.insert key attempt := rfl

theorem countSkipped (n : ℕ) : ∀ s : EngineState,
    ((fun s ↦ countReason s "skipped_unreachable")^[n] s).desk = s.desk ∧
      ((fun s ↦ countReason s "skipped_unreachable")^[n] s).tasks = s.tasks := by
  induction n with
  | zero => exact fun _ ↦ ⟨rfl, rfl⟩
  | succ n ih => exact fun s ↦ ih (s.countReason "skipped_unreachable")

/-- The tasks that a job has started belong to its hash. -/
theorem startTasks_cases {number : ℕ} {infoHash : Bytes} (started : List (ℕ × Address)) :
    ∀ {s : EngineState} {key : TaskKey} {attempt : Attempt},
      (s.startTasks number infoHash started).tasks.get? key = some attempt →
        s.tasks.get? key = some attempt ∨
          key.1 = number ∧ attempt.infoHash = infoHash ∧ attempt.stage = .created := by
  induction started with
  | nil => exact fun hget ↦ .inl hget
  | cons first rest ih =>
    intro s key attempt hget
    have hrest := ih (s := s.setTask (number, first.1)
      { infoHash := infoHash, peer := first.2, stage := .created, cancelled := false }) hget
    rcases hrest with hold | hnew
    · rw [setTask_tasks, OrderedMap.get?_insert] at hold
      split at hold
      next heq =>
        obtain rfl := Option.some.inj hold
        exact .inr ⟨congrArg Prod.fst heq, rfl, rfl⟩
      next => exact .inl hold
    · exact .inr hnew

theorem report_spec (s : EngineState) (op : CatalogOp) :
    (s.report op).desk = (s.callCatalog op).desk ∧ (s.report op).tasks = s.tasks := by
  unfold EngineState.report
  dsimp only
  split
  · exact ⟨rfl, rfl⟩
  · cases op <;> exact ⟨rfl, rfl⟩

/-- Cancelling marks tasks and changes nothing else of them. -/
theorem cancelTasks_cases {number : ℕ} {key : TaskKey} {attempt : Attempt}
    (h : (s.cancelTasks number).tasks.get? key = some attempt) :
    ∃ before, s.tasks.get? key = some before ∧ attempt.infoHash = before.infoHash ∧
      attempt.stage = before.stage := by
  simp only [cancelTasks, OrderedMap.get?_mapValues, Option.map_eq_some_iff] at h
  obtain ⟨before, hbefore, rfl⟩ := h
  refine ⟨before, hbefore, ?_⟩
  split <;> exact ⟨rfl, rfl⟩

/-- A task that is not cancelled belongs to another job. -/
theorem cancelTasks_alive {number : ℕ} {key : TaskKey} {attempt : Attempt}
    (h : (s.cancelTasks number).tasks.get? key = some attempt) (halive : attempt.cancelled = false) :
    key.1 ≠ number ∧ s.tasks.get? key = some attempt := by
  simp only [cancelTasks, OrderedMap.get?_mapValues, Option.map_eq_some_iff] at h
  obtain ⟨before, hbefore, rfl⟩ := h
  split at halive
  next => cases halive
  next hother =>
    rw [if_neg hother]
    exact ⟨hother, hbefore⟩

/-- A piece of an attempt that has not been cancelled. -/
theorem onAttempt_eq_some {key : TaskKey} {piece : Attempt → Option EngineState} :
    s.onAttempt key piece = some s' ↔ ∃ attempt, s.tasks.get? key = some attempt ∧
      attempt.cancelled = false ∧ piece attempt = some s' := by
  unfold onAttempt
  cases hget : s.tasks.get? key with
  | none => simp only [reduceCtorEq, false_and, exists_false]
  | some attempt => cases hcancelled : attempt.cancelled <;> simp [hcancelled]

/-! ## The invariant -/

/-- The hashes whose claim the engine holds. -/
def claimsHeld (s : EngineState) : List Bytes := s.jobs.values.map JobTask.infoHash ++ s.leaked

/-- The claims of the other jobs. -/
def claimsBeside (s : EngineState) (number : ℕ) : List Bytes :=
  (s.jobs.erase number).values.map JobTask.infoHash ++ s.leaked

theorem claimsHeld_perm {number : ℕ} {task : JobTask} (h : s.jobs.get? number = some task) :
    s.claimsHeld.Perm (task.infoHash :: s.claimsBeside number) :=
  ((OrderedMap.values_perm h).map JobTask.infoHash).append_right s.leaked

/-- The job is ready for its next step. -/
def Live (config : EngineConfig) : JobTask → Prop
  | .created infoHash peers => infoHash.length = nodeIdLength ∧ peers ≠ []
  | .started job => job.infoHash.length = nodeIdLength ∧ ∃ peers timer,
      FetchJob.Reached config.toFetchEngine job.infoHash peers job ∧ job.phase = .waiting timer

/-- The engine keeps the protocol of the catalog, its jobs hold its claims, one each, and what its
attempts bring is genuine. -/
structure Custody (genuine : Bytes → TorrentMetadata → Prop) (config : EngineConfig)
    (limits : CatalogLimits) (s : EngineState) : Prop where
  led : ∃ ops, catalogMachine.Leads Permitted (.new limits) ops s.session ∧ s.calls.Sublist ops
  nodup : s.claimsHeld.Nodup
  held : ∀ h, h ∈ s.claimsHeld ↔ h ∈ s.session.fetchClaims
  fresh : ∀ number, (s.jobs.get? number).isSome → number < s.nextJob
  live : ∀ number task, s.jobs.get? number = some task → Live config task
  owner : ∀ key attempt, s.tasks.get? key = some attempt → attempt.cancelled = false →
    ∃ job, s.jobs.get? key.1 = some (.started job) ∧ attempt.infoHash = job.infoHash
  outcome : ∀ key attempt outcome, s.tasks.get? key = some attempt →
    attempt.stage.outcome = some outcome → ∀ metadata, outcome.1 = some metadata →
      genuine attempt.infoHash metadata
  idle : s.stopping = false → s.leaked = []
  stored : ∀ metadata now, .storeMetadata metadata now ∈ s.calls →
    genuine metadata.infoHash metadata

namespace Custody

theorem sound (h : Custody genuine config limits s) :
    Sound limits (fun _ ↦ True) s.session.catalog s.session.fetchClaims s.session.lookupClaims := by
  obtain ⟨ops, hled, -⟩ := h.led
  exact Session.sound_of_leads hled

/-- A step that leaves the jobs and their claims alone. -/
theorem of_desk (h : Custody genuine config limits s) (hdesk : s'.desk = s.desk)
    (howner : ∀ key attempt, s'.tasks.get? key = some attempt → attempt.cancelled = false →
      ∃ job, s.jobs.get? key.1 = some (.started job) ∧ attempt.infoHash = job.infoHash)
    (houtcome : ∀ key attempt outcome, s'.tasks.get? key = some attempt →
      attempt.stage.outcome = some outcome → ∀ metadata, outcome.1 = some metadata →
        genuine attempt.infoHash metadata) : Custody genuine config limits s' := by
  obtain ⟨session, jobs, nextJob⟩ := s'
  simp only [desk, Prod.mk.injEq] at hdesk
  obtain ⟨rfl, rfl, rfl, rfl, rfl, rfl⟩ := hdesk
  exact ⟨h.led, h.nodup, h.held, h.fresh, h.live, howner, houtcome, h.idle, h.stored⟩

/-- An attempt goes on to another stage. -/
theorem setTask (h : Custody genuine config limits s) (hdesk : s'.desk = s.desk) {key : TaskKey}
    {attempt attempt' : Attempt} (hget : s.tasks.get? key = some attempt)
    (htasks : s'.tasks = s.tasks.insert key attempt') (hhash : attempt'.infoHash = attempt.infoHash)
    (hcancelled : attempt'.cancelled = attempt.cancelled)
    (houtcome : ∀ outcome, attempt'.stage.outcome = some outcome → ∀ metadata,
      outcome.1 = some metadata → genuine attempt.infoHash metadata) :
    Custody genuine config limits s' := by
  refine h.of_desk hdesk (fun other found hfound hlive ↦ ?_) fun other found outcome hfound hended ↦ ?_
  · rw [htasks, OrderedMap.get?_insert] at hfound
    split at hfound
    next heq =>
      obtain rfl := Option.some.inj hfound
      rw [heq, hhash]
      exact h.owner key attempt hget (hcancelled.symm.trans hlive)
    next => exact h.owner other found hfound hlive
  · rw [htasks, OrderedMap.get?_insert] at hfound
    split at hfound
    next =>
      obtain rfl := Option.some.inj hfound
      rw [hhash]
      exact houtcome outcome hended
    next => exact h.outcome other found outcome hfound hended

/-- Tasks are forgotten. -/
theorem dropTasks (h : Custody genuine config limits s) (hdesk : s'.desk = s.desk)
    (htasks : ∀ key attempt, s'.tasks.get? key = some attempt → s.tasks.get? key = some attempt) :
    Custody genuine config limits s' :=
  h.of_desk hdesk (fun key attempt hget ↦ h.owner key attempt (htasks key attempt hget))
    fun key attempt outcome hget ↦ h.outcome key attempt outcome (htasks key attempt hget)

/-! ### Attempts -/

section Attempts

variable {key : TaskKey} {attempt : Attempt}

theorem endTcp (h : Custody genuine config limits s) (hget : s.tasks.get? key = some attempt)
    (route : Route) {result : FetchResult} (loopTime : ℚ) {now : ℚ}
    (hbrings : ∀ metadata, fetched digest s.summaries attempt.infoHash attempt.peer now result =
      .ok metadata → genuine attempt.infoHash metadata) :
    Custody genuine config limits
      (EngineState.endTcp digest config s key attempt route result loopTime now) := by
  obtain ⟨hdesk, htasks, hpassed⟩ := verified_spec digest s attempt route result loopTime now
  have hauthentic := fun metadata hmetadata ↦ hbrings metadata (hpassed metadata hmetadata)
  unfold EngineState.endTcp
  dsimp only
  split
  · refine h.setTask hdesk hget (congrArg (OrderedMap.insert · key _) htasks) rfl rfl ?_
    exact fun outcome hended ↦ Option.some.inj hended ▸ hauthentic
  · refine h.setTask hdesk hget (congrArg (OrderedMap.insert · key _) htasks) rfl rfl ?_
    exact fun outcome hended ↦ Option.some.inj hended ▸ hauthentic

theorem endUtp (h : Custody genuine config limits s) (hget : s.tasks.get? key = some attempt)
    {overTcp : AttemptOutcome} (hstage : attempt.stage = .utp overTcp) {result : FetchResult}
    (loopTime : ℚ) {now : ℚ}
    (hbrings : ∀ metadata, fetched digest s.summaries attempt.infoHash attempt.peer now result =
      .ok metadata → genuine attempt.infoHash metadata) : Custody genuine config limits
      (EngineState.endUtp digest s key attempt overTcp result loopTime now) := by
  obtain ⟨hdesk, htasks, hpassed⟩ := verified_spec digest s attempt .utp result loopTime now
  have hauthentic := fun metadata hmetadata ↦ hbrings metadata (hpassed metadata hmetadata)
  have hbefore := h.outcome key attempt overTcp hget (congrArg AttemptStage.outcome hstage)
  unfold EngineState.endUtp
  dsimp only
  have hkept (chosen : AttemptOutcome) (hchosen : ∀ metadata, chosen.1 = some metadata →
      genuine attempt.infoHash metadata) (mid : EngineState) (hmid : mid.desk = s.desk)
      (hmidTasks : mid.tasks = s.tasks) :
      Custody genuine config limits (mid.setTask key { attempt with stage := .ended chosen }) := by
    refine h.setTask hmid hget (congrArg (OrderedMap.insert · key _) hmidTasks) rfl rfl ?_
    exact fun outcome hended ↦ Option.some.inj hended ▸ hchosen
  have hchosen : ∀ metadata, (if (verified digest s attempt .utp result loopTime now).2.1 ≠ none ∨
      (verified digest s attempt .utp result loopTime now).2.2 ≠ "utp_connect_timeout" then
        (verified digest s attempt .utp result loopTime now).2 else overTcp).1 = some metadata →
      genuine attempt.infoHash metadata := by
    split
    · exact hauthentic
    · exact hbefore
  split
  · exact hkept _ hchosen _ hdesk htasks
  · exact hkept _ hchosen _ hdesk htasks

theorem fetchEnds (h : Custody genuine config limits s) (hget : s.tasks.get? key = some attempt)
    {result : FetchResult} {loopTime now : ℚ}
    (hbrings : ∀ metadata, fetched digest s.summaries attempt.infoHash attempt.peer now result =
      .ok metadata → genuine attempt.infoHash metadata)
    (hstep : EngineState.fetchEnds digest config s key attempt result loopTime now = some s') :
    Custody genuine config limits s' := by
  unfold EngineState.fetchEnds at hstep
  split at hstep
  · split at hstep
    · obtain rfl := Option.some.inj hstep
      exact h.setTask rfl hget rfl rfl rfl fun outcome hnone ↦ by cases hnone
    · obtain rfl := Option.some.inj hstep
      exact h.endTcp hget .tcp loopTime hbrings
  · obtain rfl := Option.some.inj hstep
    exact h.endTcp hget .tcp loopTime hbrings
  · obtain rfl := Option.some.inj hstep
    exact h.endTcp hget .encrypted loopTime hbrings
  next overTcp hstage =>
    obtain rfl := Option.some.inj hstep
    exact h.endUtp hget hstage loopTime hbrings
  · cases hstep

theorem unwind (h : Custody genuine config limits s) (key : TaskKey) (attempt : Attempt) :
    Custody genuine config limits (s.unwind key attempt) := by
  have herased : ∀ other found, (s.tasks.erase key).get? other = some found →
      s.tasks.get? other = some found := fun other found hfound ↦ OrderedMap.get?_of_erase hfound
  unfold EngineState.unwind
  dsimp only
  split
  all_goals exact h.dropTasks rfl herased

end Attempts

/-! ### The catalog -/

theorem others (h : Custody genuine config limits s) (op : CatalogOp) :
    Custody genuine config limits { s with session := s.session.execForeign op } := by
  unfold Session.execForeign
  split
  next hallowed =>
    obtain ⟨hforeign, hop⟩ := hallowed
    obtain ⟨ops, hled, hsub⟩ := h.led
    have hclaims : s.session.nextFetchClaims op = s.session.fetchClaims := by
      cases op <;> first | rfl | cases hforeign
    refine ⟨⟨ops ++ [op], hled.concat hop rfl, hsub.trans (List.sublist_append_left _ _)⟩, h.nodup,
      fun k ↦ ?_, h.fresh, h.live, h.owner, h.outcome, h.idle, h.stored⟩
    change k ∈ s.claimsHeld ↔ k ∈ s.session.nextFetchClaims op
    rw [hclaims]
    exact h.held k
  next => exact h

/-- A permitted call of the engine extends the run of the catalog. -/
theorem extend (h : Custody genuine config limits s) (op : CatalogOp) (hop : Permitted s.session op) :
    ∃ ops, catalogMachine.Leads Permitted (.new limits) ops (s.session.exec op) ∧
      (s.calls ++ [op]).Sublist ops := by
  obtain ⟨ops, hled, hsub⟩ := h.led
  exact ⟨ops ++ [op], hled.concat hop rfl, hsub.append (List.Sublist.refl _)⟩

/-! ### Claiming -/

/-- New jobs take new numbers and one claim each. -/
theorem createJobs (claimed : List (Bytes × List Address)) : ∀ {s : EngineState},
    (∀ number, (s.jobs.get? number).isSome → number < s.nextJob) →
      ∃ jobs nextJob, claimed.foldl createJob s = { s with jobs := jobs, nextJob := nextJob } ∧
        (∀ number, (jobs.get? number).isSome → number < nextJob) ∧
        (jobs.values.map JobTask.infoHash).Perm
          (s.jobs.values.map JobTask.infoHash ++ claimed.map Prod.fst) ∧
        (∀ number task, s.jobs.get? number = some task → jobs.get? number = some task) ∧
        ∀ number task, jobs.get? number = some task → s.jobs.get? number = some task ∨
          s.nextJob ≤ number ∧ ∃ candidate ∈ claimed, task = .created candidate.1 candidate.2 := by
  induction claimed with
  | nil =>
    intro s hfresh
    exact ⟨s.jobs, s.nextJob, rfl, hfresh, by rw [List.map_nil, List.append_nil],
      fun _ _ hget ↦ hget, fun _ _ hget ↦ .inl hget⟩
  | cons first rest ih =>
    intro s hfresh
    have hnone : s.jobs.get? s.nextJob = none := by
      by_contra hsome
      exact lt_irrefl _ (hfresh s.nextJob (Option.isSome_iff_ne_none.mpr hsome))
    have hnext : ∀ number, ((s.createJob first).jobs.get? number).isSome →
        number < (s.createJob first).nextJob := by
      intro number hnumber
      change number < s.nextJob + 1
      rw [show (s.createJob first).jobs = s.jobs.insert s.nextJob (.created first.1 first.2) from rfl,
        OrderedMap.get?_insert] at hnumber
      split at hnumber
      next heq => exact heq ▸ Nat.lt_succ_self _
      next => exact Nat.lt_succ_of_lt (hfresh number hnumber)
    obtain ⟨jobs, nextJob, hfold, hjobs, hperm, hkeeps, hadds⟩ := ih hnext
    refine ⟨jobs, nextJob, hfold, hjobs, ?_, fun number task hget ↦ hkeeps number task ?_,
      fun number task hget ↦ ?_⟩
    · have hinsert := (s.jobs.values_insert_perm s.nextJob (.created first.1 first.2)).map
        JobTask.infoHash
      rw [OrderedMap.erase_eq_self hnone, List.map_cons] at hinsert
      refine hperm.trans ((hinsert.append_right _).trans ?_)
      rw [List.map_cons]
      exact List.perm_middle.symm
    · rw [show (s.createJob first).jobs = s.jobs.insert s.nextJob (.created first.1 first.2) from rfl,
        OrderedMap.get?_insert, if_neg]
      · exact hget
      · exact fun heq ↦ by rw [heq, hnone] at hget; cases hget
    · rcases hadds number task hget with hold | ⟨hnumber, candidate, hcandidate, heq⟩
      · rw [show (s.createJob first).jobs = s.jobs.insert s.nextJob (.created first.1 first.2) from
          rfl, OrderedMap.get?_insert] at hold
        split at hold
        next heq => exact .inr ⟨heq.ge, first, List.mem_cons_self, (Option.some.inj hold).symm⟩
        next => exact .inl hold
      · exact .inr ⟨Nat.le_of_succ_le hnumber, candidate, List.mem_cons_of_mem _ hcandidate, heq⟩

theorem schedule (h : Custody genuine config limits s) (loopTime : ℚ) :
    Custody genuine config limits (s.schedule config loopTime) := by
  unfold EngineState.schedule
  dsimp only
  split
  next =>
    generalize ((config.maxConnections : ℤ) - s.active - s.waiting).toNat = free
    obtain ⟨ops, hled, hsub⟩ := h.extend (.nextFetchCandidates free) trivial
    obtain ⟨hnodup, hspec⟩ := h.sound.settle.nextFetchCandidates_spec free
    have hlengths : ∀ candidate ∈ (s.session.catalog.settle.nextFetchCandidates free).2,
        candidate.1.length = nodeIdLength := fun candidate hcandidate ↦ by
      obtain ⟨before, hbefore, -⟩ := h.led
      exact Session.hashLengths_of_leads hbefore candidate.1 (hspec candidate hcandidate).2.2
    revert hnodup hspec hlengths
    generalize hclaimed : (s.session.catalog.settle.nextFetchCandidates free).2 = claimed
    intro hnodup hspec hlengths
    have hclaims : (s.session.exec (.nextFetchCandidates free)).fetchClaims =
        s.session.fetchClaims ∪ (claimed.map Prod.fst).toFinset := hclaimed ▸ rfl
    have hstored : ∀ metadata now, CatalogOp.storeMetadata metadata now ∈
        s.calls ++ [.nextFetchCandidates free] → genuine metadata.infoHash metadata := by
      intro metadata now hmem
      rcases List.mem_append.mp hmem with hold | hnew
      · exact h.stored metadata now hold
      · cases List.mem_singleton.mp hnew
    -- the claims that were handed out are new and distinct
    have hall : (s.claimsHeld ++ claimed.map Prod.fst).Nodup := by
      refine List.nodup_append'.mpr ⟨h.nodup, hnodup, fun k hk hnew ↦ ?_⟩
      obtain ⟨candidate, hcandidate, rfl⟩ := List.mem_map.mp hnew
      exact (hspec candidate hcandidate).1 ((h.held candidate.1).mp hk)
    have hmem (k : Bytes) : k ∈ s.claimsHeld ++ claimed.map Prod.fst ↔
        k ∈ (s.session.exec (.nextFetchCandidates free)).fetchClaims := by
      rw [hclaims, Finset.mem_union, List.mem_toFinset, List.mem_append, h.held k]
    split
    next =>
      have hheld : (s.jobs.values.map JobTask.infoHash ++ (s.leaked ++ claimed.map Prod.fst)).Perm
          (s.claimsHeld ++ claimed.map Prod.fst) := .of_eq (List.append_assoc _ _ _).symm
      exact ⟨⟨ops, hled, hsub⟩, hheld.nodup_iff.mpr hall, fun k ↦ hheld.mem_iff.trans (hmem k),
        h.fresh, h.live, h.owner, h.outcome, (fun hrunning ↦ by cases hrunning), hstored⟩
    next =>
      have hfresh : ∀ number, ((s.callCatalog (.nextFetchCandidates free)).jobs.get? number).isSome →
          number < (s.callCatalog (.nextFetchCandidates free)).nextJob := h.fresh
      obtain ⟨jobs, nextJob, hfold, hjobs, hperm, hkeeps, hadds⟩ := createJobs claimed hfresh
      rw [hfold]
      have hheld : (jobs.values.map JobTask.infoHash ++ s.leaked).Perm
          (s.claimsHeld ++ claimed.map Prod.fst) := by
        refine (hperm.append_right s.leaked).trans ?_
        rw [List.append_assoc]
        refine (List.perm_append_comm.append_left _).trans ?_
        rw [← List.append_assoc]
        rfl
      refine ⟨⟨ops, hled, hsub⟩, hheld.nodup_iff.mpr hall, fun k ↦ hheld.mem_iff.trans (hmem k), hjobs,
        fun number task hget ↦ ?_, fun key attempt hget hlive ↦ ?_, h.outcome, h.idle, hstored⟩
      · rcases hadds number task hget with hold | ⟨-, candidate, hcandidate, rfl⟩
        · exact h.live number task hold
        · exact ⟨hlengths candidate hcandidate, (hspec candidate hcandidate).2.1⟩
      · obtain ⟨job, hjob, hhash⟩ := h.owner key attempt hget hlive
        exact ⟨job, hkeeps key.1 _ hjob, hhash⟩
  next => exact h

/-! ### Jobs -/

section Jobs

variable {number : ℕ} {task : JobTask} {next : FetchJob} {mid : EngineState}

/-- The job goes into a wait; it may have started tasks. -/
theorem putJob (h : Custody genuine config limits s) (hget : s.jobs.get? number = some task)
    (hhash : next.infoHash = task.infoHash) (hdesk : mid.desk = s.desk)
    (htasks : ∀ key attempt, mid.tasks.get? key = some attempt → s.tasks.get? key = some attempt ∨
      key.1 = number ∧ attempt.infoHash = next.infoHash ∧ attempt.stage = .created)
    (hlive : Live config (.started next)) :
    Custody genuine config limits { mid with jobs := mid.jobs.insert number (.started next) } := by
  obtain ⟨session, jobs, nextJob⟩ := mid
  simp only [desk, Prod.mk.injEq] at hdesk
  obtain ⟨rfl, rfl, rfl, rfl, rfl, rfl⟩ := hdesk
  have hheld : ((s.jobs.insert number (.started next)).values.map JobTask.infoHash ++ s.leaked).Perm
      s.claimsHeld := by
    have hinsert := (s.jobs.values_insert_perm number (.started next)).map JobTask.infoHash
    refine (hinsert.append_right s.leaked).trans ?_
    rw [List.map_cons, show JobTask.infoHash (.started next) = task.infoHash from hhash]
    exact (claimsHeld_perm hget).symm
  refine ⟨h.led, hheld.nodup_iff.mpr h.nodup, fun k ↦ hheld.mem_iff.trans (h.held k),
    fun other hother ↦ ?_, fun other found hfound ↦ ?_, fun key attempt hfound hlive ↦ ?_,
    fun key attempt outcome hfound hended ↦ ?_, h.idle, h.stored⟩
  · dsimp only at hother
    rw [OrderedMap.get?_insert] at hother
    split at hother
    next heq => exact heq ▸ h.fresh number (Option.isSome_iff_exists.mpr ⟨task, hget⟩)
    next => exact h.fresh other hother
  · dsimp only at hfound
    rw [OrderedMap.get?_insert] at hfound
    split at hfound
    next => exact Option.some.inj hfound ▸ hlive
    next => exact h.live other found hfound
  · dsimp only
    rw [OrderedMap.get?_insert]
    rcases htasks key attempt hfound with hold | ⟨hnumber, hnew, -⟩
    · obtain ⟨job, hjob, howner⟩ := h.owner key attempt hold hlive
      split
      next heq =>
        rw [heq, hget] at hjob
        have hsame := congrArg JobTask.infoHash (Option.some.inj hjob)
        exact ⟨next, rfl, howner.trans (hsame.symm.trans hhash.symm)⟩
      next => exact ⟨job, hjob, howner⟩
    · exact ⟨next, if_pos hnumber, hnew⟩
  · rcases htasks key attempt hfound with hold | ⟨-, -, hstage⟩
    · exact h.outcome key attempt outcome hold hended
    · rw [hstage] at hended
      cases hended

/-- The job reports and is over, and its tasks are cancelled. -/
theorem closeJob (h : Custody genuine config limits s) (hget : s.jobs.get? number = some task)
    (hlength : task.infoHash.length = nodeIdLength) (hdesk : mid.desk = s.desk)
    (htasks : ∀ key attempt, mid.tasks.get? key = some attempt → s.tasks.get? key = some attempt ∨
      key.1 = number ∧ attempt.infoHash = task.infoHash ∧ attempt.stage = .created)
    {op : CatalogOp} (hresolves : Resolves (genuine task.infoHash) task.infoHash op) :
    Custody genuine config limits ((mid.report op).closeJob number) := by
  obtain ⟨hreport, hreportTasks⟩ := mid.report_spec op
  revert hreport hreportTasks
  generalize mid.report op = told
  intro hreport hreportTasks
  obtain ⟨session, jobs, nextJob⟩ := told
  obtain ⟨session', jobs', nextJob'⟩ := mid
  simp only [desk, Prod.mk.injEq] at hdesk hreport
  obtain ⟨rfl, rfl, rfl, rfl, rfl, rfl⟩ := hdesk
  obtain ⟨rfl, rfl, rfl, rfl, rfl, rfl⟩ := hreport
  dsimp only at hreportTasks
  have hbefore := claimsHeld_perm hget
  have hclaimed : task.infoHash ∈ s.session.fetchClaims :=
    (h.held task.infoHash).mp (hbefore.mem_iff.mpr List.mem_cons_self)
  obtain ⟨hnotin, hnodup⟩ := List.nodup_cons.mp (hbefore.nodup_iff.mp h.nodup)
  refine ⟨h.extend op (hresolves.permitted hclaimed), hnodup, fun k ↦ ?_, fun other hother ↦ ?_,
    fun other found hfound ↦ ?_, fun key attempt hfound hlive ↦ ?_,
    fun key attempt outcome hfound hended ↦ ?_, h.idle, fun metadata now hmem ↦ ?_⟩
  · have hclaims : (s.session.exec op).fetchClaims = s.session.fetchClaims.erase task.infoHash :=
      hresolves.nextFetchClaims hlength s.session
    change k ∈ s.claimsBeside number ↔ k ∈ (s.session.exec op).fetchClaims
    rw [hclaims, Finset.mem_erase, ← h.held k, hbefore.mem_iff, List.mem_cons]
    constructor
    · exact fun hk ↦ ⟨fun heq ↦ hnotin (heq ▸ hk), .inr hk⟩
    · exact fun ⟨hne, hk⟩ ↦ hk.resolve_left hne
  · obtain ⟨found, hfound⟩ := Option.isSome_iff_exists.mp hother
    exact h.fresh other (Option.isSome_iff_exists.mpr ⟨found, OrderedMap.get?_of_erase hfound⟩)
  · exact h.live other found (OrderedMap.get?_of_erase hfound)
  · obtain ⟨hother, hold⟩ := cancelTasks_alive hfound hlive
    rw [hreportTasks] at hold
    obtain ⟨job, hjob, howner⟩ := h.owner key attempt
      ((htasks key attempt hold).resolve_right fun hnew ↦ hother hnew.1) hlive
    refine ⟨job, ?_, howner⟩
    change (s.jobs.erase number).get? key.1 = some (.started job)
    rw [OrderedMap.get?_erase, if_neg hother]
    exact hjob
  · obtain ⟨before, hold, hsame, hstage⟩ := cancelTasks_cases hfound
    rw [hreportTasks] at hold
    rw [hsame]
    rw [hstage] at hended
    rcases htasks key before hold with hold | ⟨-, -, hcreated⟩
    · exact h.outcome key before outcome hold hended
    · rw [hcreated] at hended
      cases hended
  · rcases List.mem_append.mp hmem with hold | hnew
    · exact h.stored metadata now hold
    · have heq := List.mem_singleton.mp hnew
      cases hresolves with
      | stored hgenuine hhash hnow =>
        cases heq
        exact hhash.symm ▸ hgenuine
      | failed => cases heq
      | released => cases heq

/-- A job goes on to its next wait, or reports and is over. -/
theorem advanceJob (h : Custody genuine config limits s) (hget : s.jobs.get? number = some task)
    (hhash : next.infoHash = task.infoHash) (hlength : task.infoHash.length = nodeIdLength)
    (hproceeds : next.Proceeds (genuine task.infoHash)) {peers : List Address}
    (hreached : FetchJob.Reached config.toFetchEngine task.infoHash peers next)
    (skipped created : ℕ) :
    Custody genuine config limits (s.advanceJob number skipped created 0 next) := by
  obtain ⟨hdesk, htasks⟩ := countSkipped (next.skipped.length - skipped) s
  unfold EngineState.advanceJob
  dsimp only
  revert hdesk htasks
  generalize (fun s ↦ countReason s "skipped_unreachable")^[next.skipped.length - skipped] s = counted
  intro hdesk htasks
  let mid := counted.startTasks number next.infoHash
    (next.running.items.filter fun item ↦ created ≤ item.1)
  have hmid : mid.desk = s.desk := hdesk
  have hcases {key : TaskKey} {attempt : Attempt} (hfound : mid.tasks.get? key = some attempt) :
      s.tasks.get? key = some attempt ∨
        key.1 = number ∧ attempt.infoHash = next.infoHash ∧ attempt.stage = .created :=
    htasks ▸ startTasks_cases _ hfound
  rcases hproceeds with ⟨timer, hphase, hcalls⟩ | ⟨hover, op, hcalls, hresolves⟩
  · rw [hphase, hcalls]
    refine h.putJob hget hhash hmid (fun key attempt hfound ↦ hcases hfound) ⟨hhash ▸ hlength, ?_⟩
    exact ⟨peers, timer, hhash ▸ hreached, hphase⟩
  · rw [hcalls]
    split
    next timer hphase => exact absurd hphase (hover timer)
    next =>
      change Custody genuine config limits ((mid.report op).closeJob number)
      refine h.closeJob hget hlength hmid (fun key attempt hfound ↦ ?_) (hhash ▸ hresolves)
      exact hhash ▸ hcases hfound

theorem startJob (h : Custody genuine config limits s) {clock : Address → ℚ≥0} {now : ℚ≥0}
    (hstep : EngineState.startJob config s number clock now = some s') :
    Custody genuine config limits s' := by
  unfold EngineState.startJob at hstep
  split at hstep
  next infoHash peers hget =>
    obtain rfl := Option.some.inj hstep
    obtain ⟨hlength, hpeers⟩ := h.live number _ hget
    let known := fun peer ↦ s.isKnownUnreachable peer (clock peer)
    obtain ⟨hreached, -⟩ := FetchJob.reached_runJob config.toFetchEngine hlength hpeers known now
      s.pauseUntil
    obtain ⟨hhash, hproceeds⟩ := FetchJob.proceeds_runJob (genuine infoHash)
      config.toFetchEngine infoHash peers known now.coe_nonneg s.pauseUntil
    exact h.advanceJob hget hhash hlength hproceeds hreached 0 0
  next => cases hstep

/-- The outcomes that a job collects are those of its own tasks. -/
theorem genuine_of_outcomes (h : Custody genuine config limits s) {job : FetchJob}
    (hget : s.jobs.get? number = some (.started job)) {done : List ℕ}
    {outcomes : List (ℕ × AttemptOutcome)} (houtcomes : s.outcomes number done = some outcomes) :
    ∀ item ∈ outcomes, ∀ metadata, item.2.1 = some metadata →
      genuine job.infoHash metadata := by
  intro item hitem metadata hmetadata
  obtain ⟨task, -, htask⟩ := exists_of_forall₂ (forall₂_of_mapM houtcomes).flip hitem
  obtain ⟨-, attempt, hattempt, hstage, hlive⟩ := outcome_eq_some.mp htask
  obtain ⟨owner, howner, hhash⟩ := h.owner _ _ hattempt hlive
  rw [hget] at howner
  obtain rfl := JobTask.started.inj (Option.some.inj howner)
  exact hhash ▸ h.outcome _ _ item.2 hattempt (by rw [hstage]; rfl) metadata hmetadata

theorem wakeJob (h : Custody genuine config limits s)
    (hhashes : ∀ infoHash metadata, genuine infoHash metadata → metadata.infoHash = infoHash)
    {done : List ℕ} {clock : Address → ℚ≥0} {loopTime now : ℚ≥0}
    (hstep : EngineState.wakeJob config s number done clock loopTime now = some s') :
    Custody genuine config limits s' := by
  unfold EngineState.wakeJob at hstep
  split at hstep
  next job hget =>
    obtain ⟨outcomes, houtcomes, hstep⟩ := Option.bind_eq_some_iff.mp hstep
    obtain ⟨next, hnext, hstep⟩ := Option.bind_eq_some_iff.mp hstep
    obtain rfl := Option.some.inj hstep
    obtain ⟨hlength, peers, timer, hreached, hphase⟩ := h.live number _ hget
    have hgenuine := h.genuine_of_outcomes hget houtcomes
    obtain ⟨hhash, hproceeds⟩ := FetchJob.proceeds_wake (genuine job.infoHash)
      hreached now.coe_nonneg (fun item hitem metadata hmetadata ↦
        ⟨hgenuine item hitem metadata hmetadata,
          hhashes _ metadata (hgenuine item hitem metadata hmetadata)⟩) hnext
    have hcalls : job.calls = [] := hreached.calls_of_waiting hphase
    obtain ⟨hreached', -⟩ := FetchJob.reached_step hlength hreached hnext
    have hdropped : Custody genuine config limits ({ s with
        pauseUntil := pausedBy config s outcomes loopTime }.dropTasks number done) :=
      h.dropTasks rfl fun key attempt hfound ↦ by
        simp only [EngineState.dropTasks, OrderedMap.get?_filterKeys] at hfound
        split at hfound
        · exact hfound
        · cases hfound
    have hdone := hdropped.advanceJob hget hhash hlength hproceeds hreached' job.skipped.length
      job.created
    rwa [hcalls]
  next => cases hstep

/-- A job that is cancelled before it runs keeps its claim for ever. -/
theorem leakJob (h : Custody genuine config limits s) {infoHash : Bytes} {peers : List Address}
    (hget : s.jobs.get? number = some (.created infoHash peers)) (hstopping : s.stopping) :
    Custody genuine config limits
      { s with jobs := s.jobs.erase number, leaked := s.leaked ++ [infoHash] } := by
  have hheld : ((s.jobs.erase number).values.map JobTask.infoHash ++ (s.leaked ++ [infoHash])).Perm
      s.claimsHeld := by
    rw [← List.append_assoc]
    exact (List.perm_append_singleton infoHash _).trans (claimsHeld_perm hget).symm
  refine ⟨h.led, hheld.nodup_iff.mpr h.nodup, fun k ↦ hheld.mem_iff.trans (h.held k),
    fun other hother ↦ ?_, fun other found hfound ↦ ?_, fun key attempt hfound hlive ↦ ?_, h.outcome,
    fun hrunning ↦ ?_, h.stored⟩
  · obtain ⟨found, hfound⟩ := Option.isSome_iff_exists.mp hother
    exact h.fresh other (Option.isSome_iff_exists.mpr ⟨found, OrderedMap.get?_of_erase hfound⟩)
  · exact h.live other found (OrderedMap.get?_of_erase hfound)
  · obtain ⟨job, hjob, howner⟩ := h.owner key attempt hfound hlive
    refine ⟨job, ?_, howner⟩
    change (s.jobs.erase number).get? key.1 = some (.started job)
    rw [OrderedMap.get?_erase, if_neg]
    · exact hjob
    · intro heq
      rw [heq, hget] at hjob
      cases hjob
  · cases hstopping.symm.trans hrunning

theorem cancelJob (h : Custody genuine config limits s)
    (hstep : EngineState.cancelJob config s number = some s') : Custody genuine config limits s' := by
  unfold EngineState.cancelJob at hstep
  split at hstep
  next hstopping =>
    split at hstep
    next infoHash peers hget =>
      obtain rfl := Option.some.inj hstep
      exact h.leakJob hget hstopping
    next job hget =>
      obtain ⟨next, hnext, rfl⟩ := Option.map_eq_some_iff.mp hstep
      obtain ⟨hlength, peers, timer, hreached, hphase⟩ := h.live number _ hget
      obtain ⟨hhash, hproceeds⟩ := FetchJob.proceeds_cancel
        (genuine job.infoHash) hreached hnext
      obtain ⟨hreached', -⟩ := FetchJob.reached_step hlength hreached hnext
      rw [hreached.calls_of_waiting hphase]
      exact h.advanceJob hget hhash hlength hproceeds hreached' job.skipped.length job.created
    next => cases hstep
  next => cases hstep

end Jobs

/-- Every step of the machine, when the metadata that it makes of what a fetch brings is genuine. -/
theorem step (h : Custody genuine config limits s)
    (hhashes : ∀ infoHash metadata, genuine infoHash metadata → metadata.infoHash = infoHash)
    {label : EngineStep}
    (hbrings : ∀ key result loopTime now attempt metadata,
      label = .fetchEnds key result loopTime now → s.tasks.get? key = some attempt →
      fetched digest s.summaries attempt.infoHash attempt.peer now result = .ok metadata →
        genuine attempt.infoHash metadata)
    (hstep : (engineMachine digest config).step s label = some s') :
    Custody genuine config limits s' := by
  cases label with
  | schedule loopTime =>
    simp only [engineMachine, EngineState.step] at hstep
    split at hstep
    · cases hstep
    · exact Option.some.inj hstep ▸ h.schedule loopTime
  | startJob number clock now => exact h.startJob hstep
  | wakeJob number done clock loopTime now => exact h.wakeJob hhashes hstep
  | cancelJob number => exact h.cancelJob hstep
  | startAttempt key =>
    obtain ⟨attempt, hget, -, hpiece⟩ := onAttempt_eq_some.mp hstep
    split at hpiece
    · obtain rfl := Option.some.inj hpiece
      exact h.setTask rfl hget rfl rfl rfl fun outcome hnone ↦ by cases hnone
    · cases hpiece
  | acquireSlot key =>
    obtain ⟨attempt, hget, -, hpiece⟩ := onAttempt_eq_some.mp hstep
    split at hpiece
    · split at hpiece
      · obtain rfl := Option.some.inj hpiece
        exact h.setTask rfl hget rfl rfl rfl fun outcome hnone ↦ by cases hnone
      · cases hpiece
    · cases hpiece
  | fetchEnds key result loopTime now =>
    obtain ⟨attempt, hget, -, hpiece⟩ := onAttempt_eq_some.mp hstep
    exact h.fetchEnds hget
      (fun metadata ↦ hbrings key result loopTime now attempt metadata rfl hget) hpiece
  | unwind key =>
    simp only [engineMachine, EngineState.step] at hstep
    split at hstep
    next attempt hget =>
      split at hstep
      · exact Option.some.inj hstep ▸ h.unwind key attempt
      · cases hstep
    next => cases hstep
  | others op => exact Option.some.inj hstep ▸ h.others op
  | stop =>
    obtain rfl := Option.some.inj hstep
    exact ⟨h.led, h.nodup, h.held, h.fresh, h.live, h.owner, h.outcome,
      (fun hrunning ↦ by cases hrunning), h.stored⟩

theorem step_authentic (h : Custody (Authentic digest) config limits s) {label : EngineStep}
    (hstep : (engineMachine digest config).step s label = some s') :
    Custody (Authentic digest) config limits s' :=
  h.step (fun _ _ hauthentic ↦ hauthentic.infoHash)
    (fun _ _ _ _ _ _ _ _ hfetched ↦ authentic_of_fetched hfetched) hstep

/-- More is genuine. -/
theorem imp {genuine' : Bytes → TorrentMetadata → Prop} (h : Custody genuine config limits s)
    (himp : ∀ infoHash metadata, genuine infoHash metadata → genuine' infoHash metadata) :
    Custody genuine' config limits s where
  led := h.led
  nodup := h.nodup
  held := h.held
  fresh := h.fresh
  live := h.live
  owner := h.owner
  outcome key attempt outcome hget hended metadata hmetadata :=
    himp _ _ (h.outcome key attempt outcome hget hended metadata hmetadata)
  idle := h.idle
  stored metadata now hmem := himp _ _ (h.stored metadata now hmem)

end Custody

/-- An engine on a catalog without fetch claims. -/
theorem custody_new {ops : List CatalogOp} {session : Session}
    (hsession : catalogMachine.Leads Permitted (.new limits) ops session)
    (hidle : session.fetchClaims = ∅) : Custody genuine config limits (new config session) where
  led := ⟨ops, hsession, List.nil_sublist _⟩
  nodup := List.nodup_nil
  held := fun h ↦ by
    have hnone : (new config session).session.fetchClaims = ∅ := hidle
    rw [hnone]
    exact iff_of_false List.not_mem_nil (Finset.notMem_empty h)
  fresh := fun number hsome ↦ by cases hsome
  live := fun number task hget ↦ by cases hget
  owner := fun key attempt hget ↦ by cases hget
  outcome := fun key attempt outcome hget ↦ by cases hget
  idle := fun _ ↦ rfl
  stored := fun metadata now hmem ↦ by cases hmem

/-- The metadata is the summary of bytes with the hash, which a fetch of the run brought for it. -/
def Brought (digest : Bytes → Bytes) (config : EngineConfig) (start : EngineState)
    (steps : List EngineStep) (infoHash : Bytes) (metadata : TorrentMetadata) : Prop :=
  ∃ before after key attempt raw loopTime now info,
    (engineMachine digest config).Takes start steps before
      (.fetchEnds key (.raw raw false) loopTime now) after ∧
    before.tasks.get? key = some attempt ∧ attempt.infoHash = infoHash ∧
    metadata.sourcePeer = some attempt.peer ∧ metadata.fetchedAt = now ∧ digest raw = infoHash ∧
    decodeBencode raw = .ok info ∧
    summarizeInfoDict metadata.ident infoHash info now (some attempt.peer) = .ok metadata

theorem Brought.authentic {start : EngineState} {steps : List EngineStep} {infoHash : Bytes}
    {metadata : TorrentMetadata} (h : Brought digest config start steps infoHash metadata) :
    Authentic digest infoHash metadata := by
  obtain ⟨-, -, -, attempt, raw, -, now, info, -, -, -, hpeer, hnow, hdigest, hinfo, hsummary⟩ := h
  exact ⟨raw, info, hdigest, hinfo, hpeer ▸ hnow ▸ hsummary⟩

theorem run_custody {ops : List CatalogOp} {session : Session} {steps : List EngineStep}
    (hsession : catalogMachine.Leads Permitted (.new limits) ops session)
    (hidle : session.fetchClaims = ∅)
    (hrun : (engineMachine digest config).run (new config session) steps = some s) :
    Custody (Brought digest config (new config session) steps) config limits s := by
  have hend := (engineMachine digest config).run_history_invariant (G := fun _ _ ↦ True)
    (I := fun past s ↦ (engineMachine digest config).run (new config session) past = some s ∧
      Custody (Brought digest config (new config session) past) config limits s)
    (fun past s label s' hbefore _ hstep ↦ ?_) [] ⟨rfl, custody_new hsession hidle⟩
    ((engineMachine digest config).along_true _ steps) hrun
  · exact hend.2
  · obtain ⟨hpast, hcustody⟩ := hbefore
    have hnext : (engineMachine digest config).run (new config session) (past ++ [label]) =
        some s' := by
      rw [Machine.run_append, hpast]
      exact (Machine.run_cons_eq_some _).mpr ⟨s', hstep, rfl⟩
    have hlonger : Custody (Brought digest config (new config session) (past ++ [label])) config
        limits s := by
      refine hcustody.imp fun infoHash metadata hbrought ↦ ?_
      obtain ⟨before, after, key, attempt, raw, loopTime, now, info, htakes, hrest⟩ := hbrought
      exact ⟨before, after, key, attempt, raw, loopTime, now, info,
        (Machine.takes_concat _ hpast hstep).mpr (.inl htakes), hrest⟩
    refine ⟨hnext, hlonger.step (fun _ _ hbrought ↦ hbrought.authentic.infoHash) ?_ hstep⟩
    -- what the last step brings
    rintro key result loopTime now attempt metadata rfl hget hfetched
    obtain ⟨raw, info, rfl, hdigest, hinfo, hsummary⟩ := fetched_eq_ok hfetched
    have hmade := summarizes_of_ok hsummary
    refine ⟨s, s', key, attempt, raw, loopTime, now, info,
      (Machine.takes_concat _ hpast hstep).mpr (.inr ⟨rfl, rfl, rfl⟩), hget, rfl, hmade.sourcePeer,
      hmade.fetchedAt, hdigest, hinfo, ?_⟩
    rw [hmade.ident]
    exact hsummary

/-- Every claim that the engine was given belongs to exactly one of its jobs until the job reports.
The engine gives back only what it holds, so the catalog went through a permitted run that has the
calls of the engine in it; and the entries that are being fetched are those of the jobs and of the
jobs that were cancelled before they ran, which only happens at the end. -/
theorem fetch_claims_kept {ops : List CatalogOp} {session : Session} {steps : List EngineStep}
    (hsession : catalogMachine.Leads Permitted (.new limits) ops session)
    (hidle : session.fetchClaims = ∅)
    (hrun : (engineMachine digest config).run (new config session) steps = some s) :
    (∃ all, catalogMachine.Leads Permitted (.new limits) all s.session ∧ s.calls.Sublist all) ∧
      (s.jobs.values.map JobTask.infoHash ++ s.leaked).Nodup ∧
      (∀ h, h ∈ s.jobs.values.map JobTask.infoHash ++ s.leaked ↔
        ∃ r, s.session.catalog.entries.get? h = some r ∧
          (s.session.catalog.heap r).fetchState = .inProgress) ∧
      (s.stopping = false → s.leaked = []) := by
  have h := run_custody hsession hidle hrun
  refine ⟨h.led, h.nodup, fun k ↦ (h.held k).trans ?_, h.idle⟩
  constructor
  · exact fun hk ↦ h.sound.live_of_fetching hk
  · exact fun ⟨r, hr, hfetching⟩ ↦ (h.sound.mem_fetching hr).mpr hfetching

end EngineState

/-! ## A run -/

/-- The dictionary of a torrent with one file. -/
def sampleInfo : Bytes := ascii "d6:lengthi1e4:name1:a12:piece lengthi1ee".toList

/-- A hash that a peer announced. -/
def announcedOps : List CatalogOp :=
  [.recordHash (sampleHash 1) .announcePeer (some samplePeer) 0]

def announcedSession : Session := announcedOps.foldl Session.exec (.new oneLookup)

theorem announced_leads :
    catalogMachine.Leads Permitted (.new oneLookup) announcedOps announcedSession :=
  ⟨⟨trivial, fun _ _ ↦ trivial⟩, rfl⟩

/-- The peer refuses the connection over TCP and sends the dictionary over uTP. -/
def sampleSteps : List EngineStep :=
  [.schedule 0, .startJob 0 (fun _ ↦ 0) 0, .startAttempt (0, 0), .acquireSlot (0, 0),
    .fetchEnds (0, 0) (.failed .connect) 0 0, .fetchEnds (0, 0) (.raw sampleInfo false) 0 0,
    .wakeJob 0 [0] (fun _ ↦ 0) 0 0]

namespace EngineState

/-- While the attempt runs the claim belongs to its job. -/
theorem fetch_claims_kept_sample :
    ∃ s, (engineMachine (fun _ ↦ sampleHash 1) {}).run (new {} announcedSession)
        (sampleSteps.take 5) = some s ∧ s.jobs.values.map JobTask.infoHash = [sampleHash 1] ∧
      ∃ r, s.session.catalog.entries.get? (sampleHash 1) = some r ∧
        (s.session.catalog.heap r).fetchState = .inProgress := by
  have heval : ((engineMachine (fun _ ↦ sampleHash 1) {}).run (new {} announcedSession)
      (sampleSteps.take 5)).any fun s ↦ s.jobs.values.map JobTask.infoHash = [sampleHash 1] := by
    decide +kernel
  rw [Option.any_eq_true] at heval
  obtain ⟨s, hrun, hjobs⟩ := heval
  obtain ⟨-, -, hfetching, -⟩ := fetch_claims_kept announced_leads rfl hrun
  have hheld : s.jobs.values.map JobTask.infoHash = [sampleHash 1] := of_decide_eq_true hjobs
  refine ⟨s, hrun, hheld, (hfetching (sampleHash 1)).mp ?_⟩
  rw [hheld]
  exact List.mem_append_left _ List.mem_cons_self

/-- Whatever the peers send, over whichever route, the engine stores metadata for a hash only when a
fetch of the run brought bytes with this hash for it, which were decoded and summarized. -/
theorem stored_metadata_authentic {ops : List CatalogOp} {session : Session} {steps : List EngineStep}
    (hsession : catalogMachine.Leads Permitted (.new limits) ops session)
    (hidle : session.fetchClaims = ∅)
    (hrun : (engineMachine digest config).run (new config session) steps = some s) :
    ∀ metadata now, .storeMetadata metadata now ∈ s.calls →
      Brought digest config (new config session) steps metadata.infoHash metadata :=
  (run_custody hsession hidle hrun).stored

def stores : CatalogOp → Bool
  | .storeMetadata .. => true
  | _ => false

/-- The bytes that the peer sends over uTP are the ones that are stored. -/
theorem stored_metadata_authentic_sample :
    ∃ s metadata now, (engineMachine (fun _ ↦ sampleHash 1) {}).run (new {} announcedSession)
        sampleSteps = some s ∧ .storeMetadata metadata now ∈ s.calls ∧
      Brought (fun _ ↦ sampleHash 1) {} (new {} announcedSession) sampleSteps metadata.infoHash
        metadata := by
  have heval : ((engineMachine (fun _ ↦ sampleHash 1) {}).run (new {} announcedSession)
      sampleSteps).any fun s ↦ s.calls.any stores := by
    decide +kernel
  rw [Option.any_eq_true] at heval
  obtain ⟨s, hrun, hcalls⟩ := heval
  obtain ⟨op, hmem, hop⟩ := List.any_eq_true.mp hcalls
  cases op with
  | storeMetadata metadata now =>
    exact ⟨s, metadata, now, hrun, hmem,
      stored_metadata_authentic announced_leads rfl hrun metadata now hmem⟩
  | _ => cases hop

end EngineState

end DhtScraper
