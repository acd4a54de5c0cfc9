import DhtScraper.Catalog.Protocol

/-!
# The fetch job of one claim

`run_job` attempts the peers of a claimed hash, newest first, until one attempt brings the metadata
or nothing is left, and then tells the catalog.  The job only lets other tasks run while it waits in
`asyncio.wait`; there the attempts complete in any order, the stagger timer fires, or the job is
cancelled.  A step of the job goes from one such wait to the next.  The outcome of an attempt and
the peers known to be unreachable are given with the step.

Four fields are there for the statements only: `attempted`, `skipped` and `collected` record what
happened to the peers, and `calls` records the calls of the catalog.
-/

namespace DhtScraper

open Library

/-- `AttemptOutcome`: verified metadata, or a reason. -/
abbrev AttemptOutcome := Option TorrentMetadata × String

/-- `UNBLAMED_REASONS`. -/
def unblamedReasons : List String := ["local_error", "stopped"]

/-- The fields of `FetchEngine` that a job reads, with the assertion of its constructor. -/
structure FetchEngine where
  peerParallelism : ℕ := 3
  localErrorPause : ℚ := 1
  peerParallelism_pos : 1 ≤ peerParallelism := by decide

inductive JobPhase where
  /-- In `asyncio.wait`, with or without a timeout. -/
  | waiting (timer : Bool)
  | finished
  | cancelled
  deriving DecidableEq

/-- The local variables of `run_job`; an attempt's task is known by its number. -/
structure FetchJob where
  infoHash : Bytes
  waiting : List Address
  running : OrderedMap ℕ Address
  created : ℕ
  blamed : List Address
  reason : String
  metadata : Option TorrentMetadata
  pauseUntil : ℚ
  phase : JobPhase
  attempted : List Address
  skipped : List Address
  collected : List (Address × AttemptOutcome)
  calls : List CatalogOp
  raised : Bool

namespace FetchJob

def check (job : FetchJob) (p : Prop) [Decidable p] : FetchJob :=
  { job with raised := job.raised || !decide p }

def call (job : FetchJob) (op : CatalogOp) : FetchJob := { job with calls := job.calls ++ [op] }

/-- `finish_job`, at the clock reading `now` of the catalog. -/
def finishJob (job : FetchJob) (now : ℚ) : FetchJob :=
  let job := job.check (job.infoHash.length = nodeIdLength)
  match job.metadata with
  | some metadata => job.call (.storeMetadata metadata now)
  | none =>
    if job.blamed ≠ [] then job.call (.markFetchFailed job.infoHash job.blamed job.reason now)
    else job.call (.releaseFetchClaim job.infoHash)

/-- The end of `run_job`. -/
def finish (job : FetchJob) (now : ℚ) : FetchJob :=
  { (job.finishJob now).check (job.running.size = 0 ∨ job.metadata ≠ none) with phase := .finished }

/-- `running[loop.create_task(self.attempt(...))] = peer`. -/
def attempt (job : FetchJob) (peer : Address) : FetchJob :=
  { job with
    running := job.running.insert job.created peer
    created := job.created + 1
    attempted := job.attempted ++ [peer] }

/-- A peer known to be unreachable is blamed at once. -/
def skip (job : FetchJob) (peer : Address) : FetchJob :=
  { job with
    blamed := job.blamed ++ [peer]
    reason := "skipped_unreachable"
    skipped := job.skipped ++ [peer] }

/-- The loop of `run_job` from its head to the next wait, or to the end; the list is `waiting`. -/
def loop (engine : FetchEngine) (known : Address → Bool) (now : ℚ) :
    List Address → FetchJob → FetchJob
  | [], job =>
    if job.metadata = none ∧ job.running.size ≠ 0 then
      { job with waiting := [], phase := .waiting false }
    else { job with waiting := [] }.finish now
  | peer :: rest, job =>
    if job.metadata ≠ none then { job with waiting := peer :: rest }.finish now
    else if job.running.size < engine.peerParallelism then
      if known peer then loop engine known now rest (job.skip peer)
      else
        let job := { job with waiting := rest }.attempt peer
        { job with phase := .waiting (rest ≠ [] ∧ job.running.size < engine.peerParallelism) }
    else { job with waiting := peer :: rest, phase := .waiting false }

/-- One iteration of the loop over `done`. -/
def collect (engine : FetchEngine) (now : ℚ) (job : FetchJob) (finished : ℕ × AttemptOutcome) :
    FetchJob :=
  match job.running.get? finished.1 with
  | none => { job with raised := true }
  | some peer =>
    let job := { job with
      running := job.running.erase finished.1
      collected := job.collected ++ [(peer, finished.2)] }
    match finished.2.1 with
    | some outcome => { job with metadata := some (job.metadata.getD outcome) }
    | none => { job with
        reason := finished.2.2
        blamed := if finished.2.2 ∈ unblamedReasons then job.blamed else job.blamed ++ [peer]
        pauseUntil := if finished.2.2 = "local_error" then now + engine.localErrorPause
          else job.pauseUntil }

/-- The `except asyncio.CancelledError` of `run_job`. -/
def cancel (job : FetchJob) : FetchJob :=
  { job.call (.releaseFetchClaim job.infoHash) with phase := .cancelled }

end FetchJob

/-- What ends a wait. -/
inductive JobStep where
  /-- `asyncio.wait` returns `done`, in the order in which the set is gone through. -/
  | wake (done : List (ℕ × AttemptOutcome)) (known : Address → Bool) (now : ℚ)
  | cancel

/-- The outcomes that are given with a step. -/
def JobStep.outcomes : JobStep → List (ℕ × AttemptOutcome)
  | wake done _ _ => done
  | cancel => []

namespace FetchJob

/-- `asyncio.wait` can return `done`: completed tasks it was given, and at least one of them unless
the timeout is over. -/
def canReturn (job : FetchJob) (timer : Bool) (done : List (ℕ × AttemptOutcome)) : Prop :=
  (done.map Prod.fst).Nodup ∧ (∀ task ∈ done.map Prod.fst, task ∈ job.running.keys) ∧
    (timer = true ∨ done ≠ [])

instance (job : FetchJob) (timer : Bool) (done : List (ℕ × AttemptOutcome)) :
    Decidable (job.canReturn timer done) := by
  unfold canReturn
  infer_instance

/-- The variables of `run_job` before its loop. -/
def atStart (infoHash : Bytes) (peers : List Address) (pauseUntil : ℚ) : FetchJob :=
  let job : FetchJob :=
    { infoHash := infoHash
      waiting := peers.reverse
      running := .empty
      created := 0
      blamed := []
      reason := "stopped"
      metadata := none
      pauseUntil := pauseUntil
      phase := .waiting false
      attempted := []
      skipped := []
      collected := []
      calls := []
      raised := false }
  job.check (infoHash.length = nodeIdLength ∧ peers ≠ [])

/-- `run_job` up to its first wait. -/
def runJob (engine : FetchEngine) (infoHash : Bytes) (peers : List Address)
    (known : Address → Bool) (now pauseUntil : ℚ) : FetchJob :=
  loop engine known now peers.reverse (atStart infoHash peers pauseUntil)

end FetchJob

/-- The machine of all orders in which a job's waits can end. -/
def jobMachine (engine : FetchEngine) : Machine FetchJob JobStep where
  step job label :=
    match job.phase, label with
    | .waiting timer, .wake done known now =>
      if job.canReturn timer done then
        some (FetchJob.loop engine known now job.waiting
          (done.foldl (FetchJob.collect engine now) job))
      else none
    | .waiting _, .cancel => some job.cancel
    | _, _ => none

namespace FetchJob

variable {engine : FetchEngine} {infoHash : Bytes} {peers ws : List Address} {job job' : FetchJob}

/-! ## What happened to the peers -/

/-- The attempt is blamed. -/
def blames (ended : Address × AttemptOutcome) : Bool :=
  ended.2.1 = none ∧ ended.2.2 ∉ unblamedReasons

/-- The peers whose attempt is blamed. -/
def blamedOf (collected : List (Address × AttemptOutcome)) : List Address :=
  (collected.filter blames).map Prod.fst

theorem blamedOf_append (collected : List (Address × AttemptOutcome))
    (ended : Address × AttemptOutcome) :
    blamedOf (collected ++ [ended]) = blamedOf collected ++ if blames ended then [ended.1] else [] := by
  rw [blamedOf, List.filter_append, List.map_append]
  by_cases h : blames ended <;> simp [h, blamedOf]

/-- The first metadata that was collected. -/
def firstMetadata (collected : List (Address × AttemptOutcome)) : Option TorrentMetadata :=
  collected.findSome? (·.2.1)

theorem firstMetadata_append (collected : List (Address × AttemptOutcome))
    (ended : Address × AttemptOutcome) :
    firstMetadata (collected ++ [ended]) = (firstMetadata collected).or ended.2.1 := by
  rw [firstMetadata, List.findSome?_append]
  congr 1
  rw [List.findSome?_singleton]

/-- Where the peers are, when `ws` is still waiting. -/
structure Tracked (engine : FetchEngine) (infoHash : Bytes) (peers ws : List Address)
    (job : FetchJob) : Prop where
  order : ∃ taken, peers.reverse = taken ++ ws ∧ job.attempted.Sublist taken ∧
    (job.attempted ++ job.skipped).Perm taken
  attempts : (job.running.values ++ job.collected.map Prod.fst).Perm job.attempted
  fresh : ∀ task ∈ job.running.keys, task < job.created
  blamed : job.blamed.Perm (job.skipped ++ blamedOf job.collected)
  metadata : job.metadata = firstMetadata job.collected
  parallel : job.running.size ≤ engine.peerParallelism
  infoHash : job.infoHash = infoHash
  returns : job.raised = false

/-- The job has not called the catalog. -/
structure Open (engine : FetchEngine) (infoHash : Bytes) (peers ws : List Address)
    (job : FetchJob) : Prop extends Tracked engine infoHash peers ws job where
  calls : job.calls = []

theorem Open.skip {peer : Address} (h : Open engine infoHash peers (peer :: ws) job) :
    Open engine infoHash peers ws (job.skip peer) := by
  obtain ⟨taken, htaken, hsub, hperm⟩ := h.order
  constructor
  case toTracked =>
    constructor
    case order =>
      refine ⟨taken ++ [peer], by rw [htaken]; simp, hsub.trans (List.sublist_append_left _ _), ?_⟩
      have happend := hperm.append_right [peer]
      rw [List.append_assoc] at happend
      exact happend
    case attempts => exact h.attempts
    case fresh => exact h.fresh
    case blamed =>
      have happend := h.blamed.append_right [peer]
      rw [List.append_assoc] at happend
      refine happend.trans ?_
      rw [show (job.skip peer).skipped = job.skipped ++ [peer] from rfl, List.append_assoc]
      exact List.perm_append_comm.append_left _
    case metadata => exact h.metadata
    case parallel => exact h.parallel
    case infoHash => exact h.infoHash
    case returns => exact h.returns
  case calls => exact h.calls

/-- A peer that is attempted; the job goes into its next wait. -/
theorem Open.attempt {peer : Address} (h : Open engine infoHash peers (peer :: ws) job)
    (hroom : job.running.size < engine.peerParallelism) :
    Open engine infoHash peers ws (job.attempt peer) := by
  obtain ⟨taken, htaken, hsub, hperm⟩ := h.order
  have habsent : job.running.get? job.created = none := by
    rw [OrderedMap.get?_eq_none_iff]
    exact fun hmem ↦ lt_irrefl _ (h.fresh _ hmem)
  have hvalues : (job.attempt peer).running.values.Perm (peer :: job.running.values) := by
    have hperm := (job.running.perm_insert job.created peer).map Prod.snd
    rw [List.map_cons, OrderedMap.erase_eq_self habsent] at hperm
    exact hperm
  constructor
  case toTracked =>
    constructor
    case order =>
      refine ⟨taken ++ [peer], by rw [htaken]; simp, hsub.append (List.Sublist.refl _), ?_⟩
      have happend := hperm.append_right [peer]
      rw [List.append_assoc] at happend
      refine List.Perm.trans ?_ happend
      rw [show (job.attempt peer).attempted = job.attempted ++ [peer] from rfl, List.append_assoc]
      exact List.perm_append_comm.append_left _
    case attempts =>
      have hnext := hvalues.append_right (job.collected.map Prod.fst)
      refine hnext.trans ((h.attempts.cons peer).trans ?_)
      exact (List.perm_append_singleton peer job.attempted).symm
    case fresh =>
      intro task htask
      have hsome := OrderedMap.get?_isSome_iff.mpr htask
      rw [show (job.attempt peer).running = job.running.insert job.created peer from rfl,
        OrderedMap.get?_insert] at hsome
      split at hsome
      next heq => exact heq ▸ Nat.lt_succ_self _
      next => exact Nat.lt_succ_of_lt (h.fresh task (OrderedMap.get?_isSome_iff.mp hsome))
    case blamed => exact h.blamed
    case metadata => exact h.metadata
    case parallel => exact (OrderedMap.size_insert_of_absent peer habsent).trans_le hroom
    case infoHash => exact h.infoHash
    case returns => exact h.returns
  case calls => exact h.calls

/-- An attempt that has ended is collected. -/
theorem Open.collect (h : Open engine infoHash peers ws job) (now : ℚ)
    {finished : ℕ × AttemptOutcome} (hmem : finished.1 ∈ job.running.keys) :
    Open engine infoHash peers ws (job.collect engine now finished) ∧
      (job.collect engine now finished).running = job.running.erase finished.1 ∧
      (job.collect engine now finished).waiting = job.waiting := by
  obtain ⟨peer, hget⟩ := Option.isSome_iff_exists.mp (OrderedMap.get?_isSome_iff.mpr hmem)
  have hattempts : ((job.running.erase finished.1).values ++
      (job.collected ++ [(peer, finished.2)]).map Prod.fst).Perm job.attempted := by
    have hperm := (job.running.perm_insert finished.1 peer).map Prod.snd
    rw [OrderedMap.insert_self hget, List.map_cons] at hperm
    refine List.Perm.trans ?_ h.attempts
    have hnext := hperm.symm.append_right (job.collected.map Prod.fst)
    refine List.Perm.trans ?_ hnext
    rw [List.map_append, ← List.append_assoc]
    exact List.perm_append_singleton peer _
  have hfresh : ∀ task ∈ (job.running.erase finished.1).keys, task < job.created := fun task htask ↦
    h.fresh task ((List.filter_sublist.map Prod.fst).subset htask)
  have hsize : (job.running.erase finished.1).size ≤ engine.peerParallelism :=
    (job.running.size_erase_le finished.1).trans h.parallel
  obtain ⟨taken, htaken, hsub, hperm⟩ := h.order
  rcases hout : finished.2 with ⟨outcome, reason⟩
  cases outcome with
  | some metadata =>
    have hcollect : job.collect engine now finished = { job with
        running := job.running.erase finished.1
        collected := job.collected ++ [(peer, finished.2)]
        metadata := some (job.metadata.getD metadata) } := by
      simp only [FetchJob.collect, hget, hout]
    rw [hcollect]
    refine ⟨⟨⟨⟨taken, htaken, hsub, hperm⟩, hattempts, hfresh, ?_, ?_, hsize, h.infoHash, h.returns⟩,
      h.calls⟩, rfl, rfl⟩
    · have hnot : ¬ blames (peer, finished.2) := by simp [blames, hout]
      rw [blamedOf_append, if_neg hnot, List.append_nil]
      exact h.blamed
    · rw [firstMetadata_append, ← h.metadata, hout]
      cases job.metadata <;> rfl
  | none =>
    have hcollect : job.collect engine now finished = { job with
        running := job.running.erase finished.1
        collected := job.collected ++ [(peer, finished.2)]
        reason := reason
        blamed := if reason ∈ unblamedReasons then job.blamed else job.blamed ++ [peer]
        pauseUntil := if reason = "local_error" then now + engine.localErrorPause
          else job.pauseUntil } := by
      simp only [FetchJob.collect, hget, hout]
    rw [hcollect]
    refine ⟨⟨⟨⟨taken, htaken, hsub, hperm⟩, hattempts, hfresh, ?_, ?_, hsize, h.infoHash, h.returns⟩,
      h.calls⟩, rfl, rfl⟩
    · rw [blamedOf_append]
      by_cases hblame : reason ∈ unblamedReasons
      · have hnot : ¬ blames (peer, finished.2) := by simp [blames, hout, hblame]
        rw [if_neg hnot, List.append_nil, if_pos hblame]
        exact h.blamed
      · have hyes : blames (peer, finished.2) := by simp [blames, hout, hblame]
        rw [if_pos hyes, if_neg hblame, ← List.append_assoc]
        exact h.blamed.append_right _
    · rw [firstMetadata_append, ← h.metadata, hout]
      exact (Option.or_none).symm

/-! ## The job between two waits -/

/-- The calls of a job that has finished. -/
structure Reported (job : FetchJob) : Prop where
  stored : ∀ metadata, job.metadata = some metadata →
    ∃ time, job.calls = [.storeMetadata metadata time]
  failed : job.metadata = none → job.blamed ≠ [] →
    ∃ time, job.calls = [.markFetchFailed job.infoHash job.blamed job.reason time]
  released : job.metadata = none → job.blamed = [] →
    job.calls = [.releaseFetchClaim job.infoHash]

/-- Where a job can be: in a wait, at its end, or cancelled. -/
inductive Reached (engine : FetchEngine) (infoHash : Bytes) (peers : List Address)
    (job : FetchJob) : Prop where
  | waiting (timer : Bool) (hphase : job.phase = .waiting timer)
      (hopen : Open engine infoHash peers job.waiting job) (hnone : job.metadata = none)
      (hrunning : job.running.size ≠ 0)
      (htimer : timer = true → job.waiting ≠ [] ∧ job.running.size < engine.peerParallelism)
  | finished (hphase : job.phase = .finished)
      (htracked : Tracked engine infoHash peers job.waiting job) (hreported : job.Reported)
      (hover : job.metadata = none → job.waiting = [] ∧ job.running.size = 0)
  | cancelled (hphase : job.phase = .cancelled)
      (htracked : Tracked engine infoHash peers job.waiting job)
      (hcalls : job.calls = [.releaseFetchClaim infoHash])

/-- The waits that are left are at most this many. -/
def remaining (job : FetchJob) : ℕ := 2 * job.waiting.length + job.running.size

/-- The variable `waiting` is brought up to date. -/
theorem Open.park (h : Open engine infoHash peers ws job) (phase : JobPhase) :
    Open engine infoHash peers ws { job with waiting := ws, phase := phase } :=
  ⟨⟨h.order, h.attempts, h.fresh, h.blamed, h.metadata, h.parallel, h.infoHash, h.returns⟩, h.calls⟩

theorem reached_finish (hlength : infoHash.length = nodeIdLength)
    (h : Open engine infoHash peers job.waiting job) (now : ℚ)
    (hover : job.metadata = none → job.waiting = [] ∧ job.running.size = 0) :
    Reached engine infoHash peers (job.finish now) := by
  have hvalid : job.infoHash.length = nodeIdLength := h.infoHash ▸ hlength
  have hend (ops : List CatalogOp)
      (hreport : { job with phase := .finished, calls := ops }.Reported) :
      Reached engine infoHash peers { job with phase := .finished, calls := ops } :=
    .finished rfl ⟨h.order, h.attempts, h.fresh, h.blamed, h.metadata, h.parallel, h.infoHash,
      h.returns⟩ hreport hover
  cases hmeta : job.metadata with
  | some metadata =>
    have heq : job.finish now =
        { job with phase := .finished, calls := [.storeMetadata metadata now] } := by
      simp [finish, finishJob, check, call, hmeta, hvalid, h.calls]
    rw [heq]
    refine hend _ ⟨fun other hother ↦ ⟨now, ?_⟩, fun hnone ↦ ?_, fun hnone ↦ ?_⟩
    · rw [← Option.some.inj (hmeta.symm.trans hother)]
    · exact absurd (hmeta.symm.trans hnone) (Option.some_ne_none _)
    · exact absurd (hmeta.symm.trans hnone) (Option.some_ne_none _)
  | none =>
    have hsize : job.running.size = 0 := (hover hmeta).2
    by_cases hblamed : job.blamed = []
    · have heq : job.finish now =
          { job with phase := .finished, calls := [.releaseFetchClaim job.infoHash] } := by
        simp [finish, finishJob, check, call, hmeta, hvalid, h.calls, hblamed, hsize]
      rw [heq]
      refine hend _ ⟨fun other hother ↦ ?_, fun _ hne ↦ absurd hblamed hne, fun _ _ ↦ rfl⟩
      exact absurd (hother.symm.trans hmeta) (Option.some_ne_none _)
    · have heq : job.finish now = { job with
          phase := .finished
          calls := [.markFetchFailed job.infoHash job.blamed job.reason now] } := by
        simp [finish, finishJob, check, call, hmeta, hvalid, h.calls, hblamed, hsize]
      rw [heq]
      refine hend _ ⟨fun other hother ↦ ?_, fun _ _ ↦ ⟨now, rfl⟩, fun _ hnil ↦ absurd hnil hblamed⟩
      exact absurd (hother.symm.trans hmeta) (Option.some_ne_none _)

/-- The loop reaches a wait or the end, and comes nearer to it when it can start an attempt. -/
theorem loop_reached (engine : FetchEngine) (hlength : infoHash.length = nodeIdLength)
    (known : Address → Bool) (now : ℚ) :
    ∀ (ws : List Address) (job : FetchJob), Open engine infoHash peers ws job →
      Reached engine infoHash peers (loop engine known now ws job) ∧
        ∀ timer, (loop engine known now ws job).phase = .waiting timer →
          (loop engine known now ws job).remaining ≤ 2 * ws.length + job.running.size ∧
            (ws ≠ [] → job.running.size < engine.peerParallelism →
              (loop engine known now ws job).remaining < 2 * ws.length + job.running.size) := by
  intro ws
  induction ws with
  | nil =>
    intro job h
    unfold loop
    split
    next hcontinue =>
      refine ⟨.waiting false rfl (h.park _) hcontinue.1 hcontinue.2 fun htimer ↦ ?_,
        fun timer _ ↦ ⟨le_rfl, fun hne ↦ absurd rfl hne⟩⟩
      cases htimer
    next hend =>
      refine ⟨reached_finish hlength (h.park job.phase) now fun hnone ↦ ⟨rfl, ?_⟩,
        fun timer hphase ↦ ?_⟩
      · exact not_not.mp fun hsize ↦ hend ⟨hnone, hsize⟩
      · cases hphase
  | cons peer rest ih =>
    intro job h
    unfold loop
    split
    next hsome =>
      refine ⟨reached_finish hlength (h.park job.phase) now fun hnone ↦ absurd hnone hsome,
        fun timer hphase ↦ ?_⟩
      cases hphase
    next hnone =>
      split
      next hroom =>
        split
        next =>
          -- a skipped peer leaves the running attempts alone
          obtain ⟨hreached, hnear⟩ := ih (job.skip peer) h.skip
          refine ⟨hreached, fun timer hphase ↦ ?_⟩
          have hle := (hnear timer hphase).1
          have hsame : (job.skip peer).running.size = job.running.size := rfl
          rw [List.length_cons]
          exact ⟨by omega, fun _ _ ↦ by omega⟩
        next =>
          have hattempt := (h.attempt hroom).park (.waiting (decide (rest ≠ [] ∧
            (job.attempt peer).running.size < engine.peerParallelism)))
          have hsize : (job.attempt peer).running.size = job.running.size + 1 := by
            refine OrderedMap.size_insert_of_absent peer (OrderedMap.get?_eq_none_iff.mpr ?_)
            exact fun hmem ↦ lt_irrefl _ (h.fresh _ hmem)
          refine ⟨.waiting _ rfl hattempt (not_not.mp hnone) ?_ fun htimer ↦ ?_, fun timer _ ↦ ?_⟩
          · exact fun hzero ↦ absurd (hsize.symm.trans hzero) (Nat.succ_ne_zero _)
          · exact of_decide_eq_true htimer
          · have hleft : 2 * rest.length + (job.attempt peer).running.size <
                2 * (peer :: rest).length + job.running.size := by
              rw [List.length_cons]
              omega
            exact ⟨hleft.le, fun _ _ ↦ hleft⟩
      next hfull =>
        have hpos := engine.peerParallelism_pos
        refine ⟨.waiting false rfl (h.park _) (not_not.mp hnone) ?_ fun htimer ↦ ?_,
          fun timer _ ↦ ⟨le_rfl, fun _ hroom ↦ absurd hroom hfull⟩⟩
        · intro hzero
          have hempty : job.running.size = 0 := hzero
          omega
        · cases htimer

/-! ## The peers that are taken and the outcomes that are collected -/

/-- A piece of the job that finds the peers `ws` in `waiting` takes the first of them; it skips those
that are known to be unreachable and attempts the others. -/
def Divides (known : Address → Bool) (ws : List Address) (job job' : FetchJob) : Prop :=
  ∃ taken, ws = taken ++ job'.waiting ∧ job'.skipped = job.skipped ++ taken.filter known ∧
    job'.attempted = job.attempted ++ taken.filter (!known ·)

/-- The outcomes `given` for the tasks of the attempted peers are those collected. -/
def Collects (attempted : List Address) (given : List (ℕ × AttemptOutcome))
    (collected : List (Address × AttemptOutcome)) : Prop :=
  List.Forall₂ (fun item ended ↦ attempted[item.1]? = some ended.1 ∧ item.2 = ended.2) given
    collected

/-- A task's number is the position of its peer among the attempted ones. -/
structure Numbered (given : List (ℕ × AttemptOutcome)) (job : FetchJob) : Prop where
  created : job.created = job.attempted.length
  running : ∀ task peer, job.running.get? task = some peer → job.attempted[task]? = some peer
  collected : Collects job.attempted given job.collected

theorem finish_eq (job : FetchJob) (now : ℚ) : ∃ calls raised, job.finish now =
    { job with phase := .finished, calls := calls, raised := raised } := by
  have hreport : ∃ calls raised, job.finishJob now =
      { job with calls := calls, raised := raised } := by
    unfold finishJob
    dsimp only
    split
    · exact ⟨_, _, rfl⟩
    · split <;> exact ⟨_, _, rfl⟩
  obtain ⟨calls, raised, hreport⟩ := hreport
  rw [finish, hreport]
  exact ⟨_, _, rfl⟩

theorem Divides.skip {known : Address → Bool} {peer : Address} (hknown : known peer = true)
    (h : Divides known ws (job.skip peer) job') : Divides known (peer :: ws) job job' := by
  obtain ⟨taken, hws, hskipped, hattempted⟩ := h
  refine ⟨peer :: taken, by rw [hws, List.cons_append], ?_, ?_⟩
  · rw [hskipped, List.filter_cons_of_pos hknown, FetchJob.skip, List.append_assoc,
      List.singleton_append]
  · rw [hattempted, List.filter_cons_of_neg (by simp [hknown])]
    rfl

/-- The loop divides the peers it takes. -/
theorem loop_divides (engine : FetchEngine) (known : Address → Bool) (now : ℚ) :
    ∀ (ws : List Address) (job : FetchJob),
      Divides known ws job (loop engine known now ws job) := by
  intro ws
  induction ws with
  | nil =>
    intro job
    unfold loop
    split
    · exact ⟨[], rfl, (List.append_nil _).symm, (List.append_nil _).symm⟩
    · obtain ⟨calls, raised, hfinish⟩ := finish_eq { job with waiting := [] } now
      rw [hfinish]
      exact ⟨[], rfl, (List.append_nil _).symm, (List.append_nil _).symm⟩
  | cons peer rest ih =>
    intro job
    unfold loop
    split
    · obtain ⟨calls, raised, hfinish⟩ := finish_eq { job with waiting := peer :: rest } now
      rw [hfinish]
      exact ⟨[], rfl, (List.append_nil _).symm, (List.append_nil _).symm⟩
    · split
      · split
        next hknown => exact (ih (job.skip peer)).skip hknown
        next hknown =>
          refine ⟨[peer], rfl, ?_, ?_⟩
          · rw [List.filter_cons_of_neg hknown]
            exact (List.append_nil _).symm
          · rw [List.filter_cons_of_pos (by simp [hknown])]
            rfl
      · exact ⟨[], rfl, (List.append_nil _).symm, (List.append_nil _).symm⟩

theorem Numbered.finish {given : List (ℕ × AttemptOutcome)} (h : Numbered given job) (now : ℚ) :
    Numbered given (job.finish now) := by
  obtain ⟨calls, raised, hfinish⟩ := finish_eq job now
  rw [hfinish]
  exact ⟨h.created, h.running, h.collected⟩

theorem Numbered.attempt {given : List (ℕ × AttemptOutcome)} (h : Numbered given job)
    (peer : Address) : Numbered given (job.attempt peer) := by
  have hold (task : ℕ) (other : Address) (hget : job.attempted[task]? = some other) :
      (job.attempted ++ [peer])[task]? = some other := by
    rw [List.getElem?_append_left (List.getElem?_eq_some_iff.mp hget).1]
    exact hget
  constructor
  case created =>
    rw [FetchJob.attempt, List.length_append, List.length_singleton, h.created]
  case running =>
    intro task other hget
    rw [FetchJob.attempt, OrderedMap.get?_insert] at hget
    split at hget
    next heq =>
      obtain rfl := Option.some.inj hget
      rw [heq, h.created]
      exact List.getElem?_concat_length
    next => exact hold task other (h.running task other hget)
  case collected =>
    exact h.collected.imp fun item ended hended ↦ ⟨hold _ _ hended.1, hended.2⟩

theorem Numbered.loop {given : List (ℕ × AttemptOutcome)} (engine : FetchEngine)
    (known : Address → Bool) (now : ℚ) : ∀ (ws : List Address) (job : FetchJob),
      Numbered given job → Numbered given (FetchJob.loop engine known now ws job) := by
  intro ws
  induction ws with
  | nil =>
    intro job h
    unfold FetchJob.loop
    split
    · exact ⟨h.created, h.running, h.collected⟩
    · have hparked : Numbered given { job with waiting := [] } :=
        ⟨h.created, h.running, h.collected⟩
      exact hparked.finish now
  | cons peer rest ih =>
    intro job h
    unfold FetchJob.loop
    split
    · have hparked : Numbered given { job with waiting := peer :: rest } :=
        ⟨h.created, h.running, h.collected⟩
      exact hparked.finish now
    · split
      · split
        · exact ih _ ⟨h.created, h.running, h.collected⟩
        · have hnext := h.attempt peer
          exact ⟨hnext.created, hnext.running, hnext.collected⟩
      · exact ⟨h.created, h.running, h.collected⟩

/-- Collecting leaves the other peers alone. -/
theorem collectEach_peers (engine : FetchEngine) (now : ℚ) (done : List (ℕ × AttemptOutcome))
    (job : FetchJob) :
    (done.foldl (FetchJob.collect engine now) job).waiting = job.waiting ∧
      (done.foldl (FetchJob.collect engine now) job).skipped = job.skipped ∧
      (done.foldl (FetchJob.collect engine now) job).attempted = job.attempted := by
  have hkeeps := foldl_keeps (fun job : FetchJob ↦ (job.waiting, job.skipped, job.attempted))
    (FetchJob.collect engine now) (fun job finished ↦ ?_) done job
  · obtain ⟨hwaiting, hothers⟩ := Prod.mk.inj hkeeps
    exact ⟨hwaiting, Prod.mk.inj hothers⟩
  · unfold FetchJob.collect
    split
    · rfl
    · dsimp only
      split <;> rfl

/-- A wait that ends is followed by a piece that divides the peers it takes. -/
theorem wake_divides {done : List (ℕ × AttemptOutcome)} {known : Address → Bool} {now : ℚ}
    (hstep : (jobMachine engine).step job (.wake done known now) = some job') :
    Divides known job.waiting job job' := by
  simp only [jobMachine] at hstep
  split at hstep
  next hlabel =>
    cases hlabel
    split at hstep
    next =>
      rw [← Option.some.inj hstep]
      obtain ⟨-, hskipped, hattempted⟩ := collectEach_peers engine now done job
      have hdivides := loop_divides engine known now job.waiting
        (done.foldl (FetchJob.collect engine now) job)
      rw [Divides, hskipped, hattempted] at hdivides
      exact hdivides
    next => cases hstep
  next => contradiction
  next => cases hstep

theorem collect_eq (engine : FetchEngine) {finished : ℕ × AttemptOutcome} {peer : Address}
    (hget : job.running.get? finished.1 = some peer) (now : ℚ) :
    job.collect engine now finished = { job with
      running := job.running.erase finished.1
      collected := job.collected ++ [(peer, finished.2)]
      metadata := (job.collect engine now finished).metadata
      reason := (job.collect engine now finished).reason
      blamed := (job.collect engine now finished).blamed
      pauseUntil := (job.collect engine now finished).pauseUntil } := by
  obtain ⟨task, outcome, reason⟩ := finished
  unfold FetchJob.collect
  rw [hget]
  cases outcome <;> rfl

theorem Numbered.collect {given : List (ℕ × AttemptOutcome)} (h : Numbered given job) (now : ℚ)
    {finished : ℕ × AttemptOutcome} (hmem : finished.1 ∈ job.running.keys) :
    Numbered (given ++ [finished]) (job.collect engine now finished) := by
  obtain ⟨peer, hget⟩ := Option.isSome_iff_exists.mp (OrderedMap.get?_isSome_iff.mpr hmem)
  rw [collect_eq engine hget]
  constructor
  case created => exact h.created
  case running =>
    intro task other hother
    rw [OrderedMap.get?_erase] at hother
    split at hother
    · cases hother
    · exact h.running task other hother
  case collected =>
    exact List.rel_append h.collected (.cons ⟨h.running _ _ hget, rfl⟩ .nil)

theorem Numbered.collectEach (engine : FetchEngine) (now : ℚ)
    (done : List (ℕ × AttemptOutcome)) :
    ∀ {given : List (ℕ × AttemptOutcome)} {job : FetchJob}, Numbered given job →
      (done.map Prod.fst).Nodup → (∀ task ∈ done.map Prod.fst, task ∈ job.running.keys) →
        Numbered (given ++ done) (done.foldl (FetchJob.collect engine now) job) := by
  induction done with
  | nil =>
    intro given job h _ _
    rw [List.append_nil]
    exact h
  | cons first rest ih =>
    intro given job h hnodup hmem
    rw [List.map_cons, List.nodup_cons] at hnodup
    have hfirst := hmem first.1 List.mem_cons_self
    obtain ⟨peer, hget⟩ := Option.isSome_iff_exists.mp (OrderedMap.get?_isSome_iff.mpr hfirst)
    have hothers : ∀ task ∈ rest.map Prod.fst,
        task ∈ (job.collect engine now first).running.keys := by
      intro task htask
      have hne : task ≠ first.1 := fun heq ↦ hnodup.1 (heq ▸ htask)
      have hsome := OrderedMap.get?_isSome_iff.mpr (hmem task (List.mem_cons_of_mem _ htask))
      rw [← OrderedMap.get?_isSome_iff, collect_eq engine hget now, OrderedMap.get?_erase,
        if_neg hne]
      exact hsome
    have hend := ih (h.collect now hfirst) hnodup.2 hothers
    rw [List.append_assoc, List.singleton_append] at hend
    exact hend

/-- A step collects the outcomes given with it. -/
theorem numbered_step {given : List (ℕ × AttemptOutcome)} (h : Numbered given job) {step : JobStep}
    (hstep : (jobMachine engine).step job step = some job') :
    Numbered (given ++ step.outcomes) job' := by
  simp only [jobMachine] at hstep
  split at hstep
  next timer done known now _ =>
    split at hstep
    next hreturn =>
      rw [← Option.some.inj hstep]
      exact (h.collectEach engine now done hreturn.1 hreturn.2.1).loop engine known now _ _
    next => cases hstep
  next =>
    rw [← Option.some.inj hstep, JobStep.outcomes, List.append_nil]
    exact ⟨h.created, h.running, h.collected⟩
  next => cases hstep

/-- A job that is cancelled takes no more peers. -/
theorem cancel_peers (hstep : (jobMachine engine).step job .cancel = some job') :
    job'.waiting = job.waiting ∧ job'.skipped = job.skipped ∧ job'.attempted = job.attempted := by
  simp only [jobMachine] at hstep
  split at hstep
  next => contradiction
  next =>
    rw [← Option.some.inj hstep]
    exact ⟨rfl, rfl, rfl⟩
  next => cases hstep

/-! ## Runs -/

/-- The loop over `done` collects every task of it. -/
theorem Open.collectEach (now : ℚ) (done : List (ℕ × AttemptOutcome)) : ∀ {job : FetchJob},
    Open engine infoHash peers ws job → (done.map Prod.fst).Nodup →
      (∀ task ∈ done.map Prod.fst, task ∈ job.running.keys) →
        Open engine infoHash peers ws (done.foldl (FetchJob.collect engine now) job) ∧
          (done.foldl (FetchJob.collect engine now) job).running.size + done.length ≤
            job.running.size := by
  induction done with
  | nil => exact fun h _ _ ↦ ⟨h, le_rfl⟩
  | cons first rest ih =>
    intro job h hnodup hmem
    rw [List.map_cons, List.nodup_cons] at hnodup
    have hfirst := hmem first.1 List.mem_cons_self
    obtain ⟨hcollected, hrunning, -⟩ := h.collect now hfirst
    obtain ⟨peer, hget⟩ := Option.isSome_iff_exists.mp (OrderedMap.get?_isSome_iff.mpr hfirst)
    have hsmaller := OrderedMap.size_erase_lt hget
    rw [← hrunning] at hsmaller
    have hothers : ∀ task ∈ rest.map Prod.fst,
        task ∈ (job.collect engine now first).running.keys := by
      intro task htask
      have hne : task ≠ first.1 := fun heq ↦ hnodup.1 (heq ▸ htask)
      have hsome := OrderedMap.get?_isSome_iff.mpr (hmem task (List.mem_cons_of_mem _ htask))
      rw [← OrderedMap.get?_isSome_iff, hrunning, OrderedMap.get?_erase, if_neg hne]
      exact hsome
    obtain ⟨hend, hsize⟩ := ih hcollected hnodup.2 hothers
    rw [List.foldl_cons, List.length_cons]
    exact ⟨hend, by omega⟩

/-- A step leads to the next wait or to the end, and there are fewer waits left. -/
theorem reached_step (hlength : infoHash.length = nodeIdLength)
    (h : Reached engine infoHash peers job) {step : JobStep}
    (hstep : (jobMachine engine).step job step = some job') :
    Reached engine infoHash peers job' ∧
      (∃ timer, job.phase = .waiting timer ∧ 0 < job.remaining) ∧
      ∀ timer, job'.phase = .waiting timer → job'.remaining < job.remaining := by
  cases h with
  | finished hphase => simp [jobMachine, hphase] at hstep
  | cancelled hphase => simp [jobMachine, hphase] at hstep
  | waiting timer hphase hopen hnone hrunning htimer =>
    have hpositive : 0 < job.remaining := by
      rw [remaining]
      omega
    cases step with
    | cancel =>
      simp only [jobMachine, hphase, Option.some.injEq] at hstep
      rw [← hstep]
      refine ⟨.cancelled rfl ⟨hopen.order, hopen.attempts, hopen.fresh, hopen.blamed,
        hopen.metadata, hopen.parallel, hopen.infoHash, hopen.returns⟩ ?_,
        ⟨timer, hphase, hpositive⟩, fun other hother ↦ ?_⟩
      · simp [FetchJob.cancel, call, hopen.calls, hopen.infoHash]
      · cases hother
    | wake done known now =>
      simp only [jobMachine, hphase] at hstep
      split at hstep
      next hreturn =>
        obtain ⟨hnodup, hmem, hsome⟩ := hreturn
        rw [← Option.some.inj hstep]
        obtain ⟨hcollected, hsize⟩ := hopen.collectEach now done hnodup hmem
        obtain ⟨hreached, hnear⟩ := loop_reached engine hlength known now job.waiting _ hcollected
        refine ⟨hreached, ⟨timer, hphase, hpositive⟩, fun other hother ↦ ?_⟩
        obtain ⟨hle, hlt⟩ := hnear other hother
        rw [remaining] at hpositive ⊢
        by_cases hdone : done = []
        · -- the stagger timer fired: there is a peer and room for it
          obtain ⟨hwaiting, hroom⟩ := htimer (hsome.resolve_right (not_not.mpr hdone))
          rw [hdone] at hlt hsize ⊢
          exact hlt hwaiting hroom
        · have hcount := List.length_pos_iff.mpr hdone
          exact lt_of_le_of_lt hle (by rw [remaining]; omega)
      next => cases hstep

/-- The state after `run_job` has reached its first wait, or its end. -/
theorem reached_runJob (engine : FetchEngine) (hlength : infoHash.length = nodeIdLength)
    (hpeers : peers ≠ [])
    (known : Address → Bool) (now pauseUntil : ℚ) :
    Reached engine infoHash peers (runJob engine infoHash peers known now pauseUntil) ∧
      ∀ timer, (runJob engine infoHash peers known now pauseUntil).phase = .waiting timer →
        (runJob engine infoHash peers known now pauseUntil).remaining ≤ 2 * peers.length := by
  have hvalid : decide (infoHash.length = nodeIdLength ∧ peers ≠ []) = true :=
    decide_eq_true ⟨hlength, hpeers⟩
  obtain ⟨hreached, hnear⟩ := loop_reached engine hlength known now peers.reverse
    (atStart infoHash peers pauseUntil)
    { order := ⟨[], rfl, List.Sublist.refl _, List.Perm.refl _⟩
      attempts := List.Perm.refl _
      fresh := fun _ hmem ↦ absurd hmem List.not_mem_nil
      blamed := List.Perm.refl _
      metadata := rfl
      parallel := Nat.zero_le _
      infoHash := rfl
      returns := by simp [atStart, check, hvalid]
      calls := rfl }
  refine ⟨hreached, fun timer hphase ↦ ?_⟩
  have hle := (hnear timer hphase).1
  rw [List.length_reverse] at hle
  exact hle

/-- After any steps the job is in a wait, or over, and it waits at most twice for each peer. -/
theorem reached_run (hlength : infoHash.length = nodeIdLength) (hpeers : peers ≠ [])
    {known : Address → Bool} {now pauseUntil : ℚ} {steps : List JobStep}
    (hrun : (jobMachine engine).run (runJob engine infoHash peers known now pauseUntil) steps =
      some job) :
    Reached engine infoHash peers job ∧ steps.length ≤ 2 * peers.length := by
  obtain ⟨hstart, hfew⟩ := reached_runJob engine hlength hpeers known now pauseUntil
  have hend := (jobMachine engine).run_history_invariant (G := fun _ _ ↦ True)
    (I := fun past job ↦ Reached engine infoHash peers job ∧ past.length ≤ 2 * peers.length ∧
      ∀ timer, job.phase = .waiting timer → past.length + job.remaining ≤ 2 * peers.length)
    (fun past job step job' hbefore _ hstep ↦ ?_) [] ⟨hstart, Nat.zero_le _, fun timer hphase ↦ ?_⟩
    ((jobMachine engine).along_true _ steps) hrun
  · exact ⟨hend.1, hend.2.1⟩
  · obtain ⟨hreached, -, hbudget⟩ := hbefore
    obtain ⟨hnext, ⟨timer, hphase, hpositive⟩, hless⟩ := reached_step hlength hreached hstep
    have hleft := hbudget timer hphase
    rw [List.length_append, List.length_singleton]
    refine ⟨hnext, by omega, fun other hother ↦ ?_⟩
    have hstrict := hless other hother
    omega
  · rw [List.length_nil, Nat.zero_add]
    exact hfew timer hphase

/-- The job's own account of what happened to the peers. -/
theorem Reached.tracked (h : Reached engine infoHash peers job) :
    Tracked engine infoHash peers job.waiting job := by
  cases h with
  | waiting _ _ hopen => exact hopen.toTracked
  | finished _ htracked => exact htracked
  | cancelled _ htracked => exact htracked

/-- No peer is attempted or skipped twice. -/
theorem Tracked.nodup (h : Tracked engine infoHash peers ws job) (hpeers : peers.Nodup) :
    (job.attempted ++ job.skipped).Nodup := by
  obtain ⟨taken, htaken, -, hperm⟩ := h.order
  refine hperm.nodup_iff.mpr ?_
  exact (List.nodup_reverse.mpr hpeers).sublist (htaken ▸ List.sublist_append_left taken ws)

/-- A blamed peer was skipped or failed, each once. -/
theorem Tracked.blamed_spec (h : Tracked engine infoHash peers ws job) (hpeers : peers.Nodup) :
    job.blamed.Nodup ∧ ∀ peer, peer ∈ job.blamed ↔
      peer ∈ job.skipped ∨ ∃ reason, (peer, none, reason) ∈ job.collected ∧
        reason ∉ unblamedReasons := by
  have hnodup := h.nodup hpeers
  have hfailed : (blamedOf job.collected).Sublist (job.collected.map Prod.fst) :=
    List.filter_sublist.map Prod.fst
  have hcollected : (job.collected.map Prod.fst).Nodup :=
    ((h.attempts.nodup_iff).mpr (List.nodup_append.mp hnodup).1).sublist
      (List.sublist_append_right _ _)
  constructor
  · refine h.blamed.nodup_iff.mpr (List.nodup_append.mpr ⟨(List.nodup_append.mp hnodup).2.1,
      hcollected.sublist hfailed, fun peer hskipped other hother heq ↦ ?_⟩)
    have hattempted := h.attempts.mem_iff.mp (List.mem_append_right _ (hfailed.subset hother))
    exact (List.nodup_append.mp hnodup).2.2 other hattempted peer hskipped heq.symm
  · intro peer
    rw [h.blamed.mem_iff, List.mem_append]
    refine or_congr_right ⟨fun hmem ↦ ?_, ?_⟩
    · obtain ⟨⟨other, outcome, reason⟩, hended, rfl⟩ := List.mem_map.mp hmem
      obtain ⟨hcollected, hblames⟩ := List.mem_filter.mp hended
      obtain ⟨hnone, hreason⟩ := of_decide_eq_true hblames
      exact ⟨reason, hnone ▸ hcollected, hreason⟩
    · rintro ⟨reason, hcollected, hreason⟩
      exact List.mem_map_of_mem (List.mem_filter.mpr
        ⟨hcollected, decide_eq_true ⟨rfl, hreason⟩⟩)

/-- In the run of a job along `steps`, `peer` is taken from `waiting` when the peers of `unreachable`
are known to be unreachable: in the first piece or in one after a wait. -/
def TakenWith (engine : FetchEngine) (infoHash : Bytes) (peers : List Address)
    (known : Address → Bool) (now pauseUntil : ℚ) (steps : List JobStep) (peer : Address)
    (unreachable : Address → Bool) : Prop :=
  let start := runJob engine infoHash peers known now pauseUntil
  (unreachable = known ∧ peer ∈ peers ∧ peer ∉ start.waiting) ∨
    ∃ before done time after,
      (jobMachine engine).Takes start steps before (.wake done unreachable time) after ∧
        peer ∈ before.waiting ∧ peer ∉ after.waiting

/-- The peers that are skipped are those that were known to be unreachable when they were taken. -/
def Screened (engine : FetchEngine) (infoHash : Bytes) (peers : List Address)
    (known : Address → Bool) (now pauseUntil : ℚ) (steps : List JobStep) (job : FetchJob) : Prop :=
  ∀ peer,
    (peer ∈ job.skipped ↔ ∃ unreachable, unreachable peer = true ∧
      TakenWith engine infoHash peers known now pauseUntil steps peer unreachable) ∧
    (peer ∈ job.attempted ↔ ∃ unreachable, unreachable peer = false ∧
      TakenWith engine infoHash peers known now pauseUntil steps peer unreachable)

section Screened

variable {known : Address → Bool} {now pauseUntil : ℚ} {steps : List JobStep}

/-- The peers of a piece, when no peer waits twice. -/
theorem Divides.mem (h : Divides known ws job job') (hnodup : ws.Nodup) (peer : Address) :
    (peer ∈ job'.skipped ↔ peer ∈ job.skipped ∨
      known peer = true ∧ peer ∈ ws ∧ peer ∉ job'.waiting) ∧
    (peer ∈ job'.attempted ↔ peer ∈ job.attempted ∨
      known peer = false ∧ peer ∈ ws ∧ peer ∉ job'.waiting) := by
  obtain ⟨taken, hws, hskipped, hattempted⟩ := h
  have htaken : peer ∈ taken ↔ peer ∈ ws ∧ peer ∉ job'.waiting := by
    rw [hws] at hnodup ⊢
    have hapart := (List.nodup_append.mp hnodup).2.2
    constructor
    · exact fun hmem ↦ ⟨List.mem_append_left _ hmem, fun hwaits ↦ hapart peer hmem peer hwaits rfl⟩
    · exact fun ⟨hmem, hnot⟩ ↦ (List.mem_append.mp hmem).resolve_right hnot
  rw [hskipped, hattempted, List.mem_append, List.mem_append, List.mem_filter, List.mem_filter,
    htaken, Bool.not_eq_true']
  exact ⟨or_congr_right and_comm, or_congr_right and_comm⟩

theorem screened_runJob (engine : FetchEngine) (infoHash : Bytes) (hpeers : peers.Nodup)
    (known : Address → Bool) (now pauseUntil : ℚ) :
    Screened engine infoHash peers known now pauseUntil []
      (runJob engine infoHash peers known now pauseUntil) := by
  intro peer
  have hdivides := loop_divides engine known now peers.reverse (atStart infoHash peers pauseUntil)
  have hmem := hdivides.mem (List.nodup_reverse.mpr hpeers) peer
  have hfirst (unreachable : Address → Bool) :
      TakenWith engine infoHash peers known now pauseUntil [] peer unreachable ↔
        unreachable = known ∧ peer ∈ peers ∧
          peer ∉ (runJob engine infoHash peers known now pauseUntil).waiting := by
    refine or_iff_left ?_
    rintro ⟨before, done, time, after, htakes, -⟩
    exact Machine.not_takes_nil _ htakes
  rw [List.mem_reverse] at hmem
  constructor
  · refine hmem.1.trans ((or_iff_right List.not_mem_nil).trans ⟨fun hskip ↦ ?_, ?_⟩)
    · exact ⟨known, hskip.1, (hfirst known).mpr ⟨rfl, hskip.2⟩⟩
    · rintro ⟨unreachable, hyes, htaken⟩
      obtain ⟨rfl, hplace⟩ := (hfirst unreachable).mp htaken
      exact ⟨hyes, hplace⟩
  · refine hmem.2.trans ((or_iff_right List.not_mem_nil).trans ⟨fun hattempt ↦ ?_, ?_⟩)
    · exact ⟨known, hattempt.1, (hfirst known).mpr ⟨rfl, hattempt.2⟩⟩
    · rintro ⟨unreachable, hno, htaken⟩
      obtain ⟨rfl, hplace⟩ := (hfirst unreachable).mp htaken
      exact ⟨hno, hplace⟩

/-- A peer is taken along a longer run when it is taken before or by the last step. -/
theorem takenWith_concat
    (hrun : (jobMachine engine).run (runJob engine infoHash peers known now pauseUntil) steps =
      some job) {step : JobStep} (hstep : (jobMachine engine).step job step = some job')
    (peer : Address) (unreachable : Address → Bool) :
    TakenWith engine infoHash peers known now pauseUntil (steps ++ [step]) peer unreachable ↔
      TakenWith engine infoHash peers known now pauseUntil steps peer unreachable ∨
        (∃ done time, step = .wake done unreachable time) ∧ peer ∈ job.waiting ∧
          peer ∉ job'.waiting := by
  unfold TakenWith
  dsimp only
  rw [or_assoc]
  refine or_congr_right ⟨?_, ?_⟩
  · rintro ⟨before, done, time, after, htakes, hplace⟩
    rcases (Machine.takes_concat _ hrun hstep).mp htakes with htakes | ⟨rfl, rfl, rfl⟩
    · exact .inl ⟨before, done, time, after, htakes, hplace⟩
    · exact .inr ⟨⟨done, time, rfl⟩, hplace⟩
  · rintro (⟨before, done, time, after, htakes, hplace⟩ | ⟨⟨done, time, rfl⟩, hplace⟩)
    · exact ⟨before, done, time, after, (Machine.takes_concat _ hrun hstep).mpr (.inl htakes), hplace⟩
    · exact ⟨job, done, time, job', (Machine.takes_concat _ hrun hstep).mpr (.inr ⟨rfl, rfl, rfl⟩),
        hplace⟩

theorem Screened.wake (h : Screened engine infoHash peers known now pauseUntil steps job)
    (hrun : (jobMachine engine).run (runJob engine infoHash peers known now pauseUntil) steps =
      some job) (hnodup : job.waiting.Nodup) {done : List (ℕ × AttemptOutcome)}
    {unreachable : Address → Bool} {time : ℚ}
    (hstep : (jobMachine engine).step job (.wake done unreachable time) = some job')
    (hdivides : Divides unreachable job.waiting job job') :
    Screened engine infoHash peers known now pauseUntil (steps ++ [.wake done unreachable time])
      job' := by
  intro peer
  obtain ⟨hskipped, hattempted⟩ := hdivides.mem hnodup peer
  have hmore (value : Bool) :
      (∃ other, other peer = value ∧ TakenWith engine infoHash peers known now pauseUntil
        (steps ++ [.wake done unreachable time]) peer other) ↔
      (∃ other, other peer = value ∧
        TakenWith engine infoHash peers known now pauseUntil steps peer other) ∨
        unreachable peer = value ∧ peer ∈ job.waiting ∧ peer ∉ job'.waiting := by
    constructor
    · rintro ⟨other, hvalue, htaken⟩
      rcases (takenWith_concat hrun hstep peer other).mp htaken with hbefore | ⟨⟨_, _, heq⟩, hplace⟩
      · exact .inl ⟨other, hvalue, hbefore⟩
      · obtain ⟨-, rfl, -⟩ := JobStep.wake.inj heq
        exact .inr ⟨hvalue, hplace⟩
    · rintro (⟨other, hvalue, htaken⟩ | ⟨hvalue, hplace⟩)
      · exact ⟨other, hvalue, (takenWith_concat hrun hstep peer other).mpr (.inl htaken)⟩
      · exact ⟨unreachable, hvalue,
          (takenWith_concat hrun hstep peer unreachable).mpr (.inr ⟨⟨done, time, rfl⟩, hplace⟩)⟩
  exact ⟨hskipped.trans ((or_congr_left (h peer).1).trans (hmore true).symm),
    hattempted.trans ((or_congr_left (h peer).2).trans (hmore false).symm)⟩

theorem Screened.cancel (h : Screened engine infoHash peers known now pauseUntil steps job)
    (hrun : (jobMachine engine).run (runJob engine infoHash peers known now pauseUntil) steps =
      some job) (hstep : (jobMachine engine).step job .cancel = some job')
    (hskipped : job'.skipped = job.skipped) (hattempted : job'.attempted = job.attempted) :
    Screened engine infoHash peers known now pauseUntil (steps ++ [.cancel]) job' := by
  intro peer
  have hsame (other : Address → Bool) :
      TakenWith engine infoHash peers known now pauseUntil (steps ++ [.cancel]) peer other ↔
        TakenWith engine infoHash peers known now pauseUntil steps peer other := by
    refine (takenWith_concat hrun hstep peer other).trans (or_iff_left ?_)
    rintro ⟨⟨done, time, heq⟩, -⟩
    cases heq
  rw [hskipped, hattempted]
  simp only [hsame]
  exact h peer

/-- After any steps the job has collected what was given, and skipped whom it had to skip. -/
theorem screened_run (hlength : infoHash.length = nodeIdLength) (hpeers : peers ≠ [])
    (hdistinct : peers.Nodup)
    (hrun : (jobMachine engine).run (runJob engine infoHash peers known now pauseUntil) steps =
      some job) :
    Numbered (steps.flatMap JobStep.outcomes) job ∧
      Screened engine infoHash peers known now pauseUntil steps job := by
  have hend := (jobMachine engine).run_history_invariant (G := fun _ _ ↦ True)
    (I := fun past job ↦
      (jobMachine engine).run (runJob engine infoHash peers known now pauseUntil) past = some job ∧
        Reached engine infoHash peers job ∧ Numbered (past.flatMap JobStep.outcomes) job ∧
          Screened engine infoHash peers known now pauseUntil past job)
    (fun past job step job' hbefore _ hstep ↦ ?_) []
    ⟨rfl, (reached_runJob engine hlength hpeers known now pauseUntil).1, ?_,
      screened_runJob engine infoHash hdistinct known now pauseUntil⟩
    ((jobMachine engine).along_true _ steps) hrun
  · exact hend.2.2
  · obtain ⟨hpast, hreached, hnumbered, hscreened⟩ := hbefore
    have hnext : (jobMachine engine).run (runJob engine infoHash peers known now pauseUntil)
        (past ++ [step]) = some job' := by
      rw [Machine.run_append, hpast]
      exact (Machine.run_cons_eq_some _).mpr ⟨job', hstep, rfl⟩
    have hcollects := numbered_step hnumbered hstep
    rw [← List.flatMap_singleton (f := JobStep.outcomes), ← List.flatMap_append] at hcollects
    refine ⟨hnext, (reached_step hlength hreached hstep).1, hcollects, ?_⟩
    cases step with
    | cancel =>
      obtain ⟨-, hskipped, hattempted⟩ := cancel_peers hstep
      exact hscreened.cancel hpast hstep hskipped hattempted
    | wake done unreachable time =>
      obtain ⟨taken, htaken, -⟩ := hreached.tracked.order
      have hnodup : job.waiting.Nodup := by
        refine (List.nodup_reverse.mpr hdistinct).sublist ?_
        rw [htaken]
        exact List.sublist_append_right _ _
      exact hscreened.wake hpast hnodup hstep (wake_divides hstep)
  · refine Numbered.loop engine known now _ _ ⟨rfl, fun task peer hget ↦ ?_, .nil⟩
    cases hget

end Screened

/-- Whatever the outcomes, the order of completions and timeouts and the unreachable peers are, and
whether or not it is cancelled, a job calls the catalog once, when it is over; skips the peers that
are known to be unreachable when it takes them and attempts the others, newest first and not too many
at once; collects the outcomes as they are given; blames the peers it skipped or that failed; never
waits for nothing; and is over after few waits. -/
theorem fetch_job_resolves_claim (engine : FetchEngine) (infoHash : Bytes)
    (hlength : infoHash.length = nodeIdLength) (peers : List Address) (hpeers : peers ≠ [])
    (hdistinct : peers.Nodup) (known : Address → Bool) (now pauseUntil : ℚ) (steps : List JobStep)
    (job : FetchJob)
    (hrun : (jobMachine engine).run (runJob engine infoHash peers known now pauseUntil) steps =
      some job) :
    (job.phase = .cancelled → job.calls = [.releaseFetchClaim infoHash]) ∧
      (job.phase = .finished →
        (∀ metadata, firstMetadata job.collected = some metadata →
          ∃ time, job.calls = [.storeMetadata metadata time]) ∧
        (firstMetadata job.collected = none → ∃ blamed : List Address, blamed.Nodup ∧
          (∀ peer, peer ∈ blamed ↔ peer ∈ job.skipped ∨ ∃ reason,
            (peer, none, reason) ∈ job.collected ∧ reason ∉ unblamedReasons) ∧
          (blamed ≠ [] → ∃ time, job.calls = [.markFetchFailed infoHash blamed job.reason time]) ∧
          (blamed = [] → job.calls = [.releaseFetchClaim infoHash]) ∧
          job.running.size = 0 ∧ (job.attempted ++ job.skipped).Perm peers)) ∧
      (∀ timer, job.phase = .waiting timer → job.calls = [] ∧ job.running.size ≠ 0 ∧
        (∃ cancelled, (jobMachine engine).step job .cancel = some cancelled) ∧
        ∀ task ∈ job.running.keys, ∀ outcome known now, ∃ next,
          (jobMachine engine).step job (.wake [(task, outcome)] known now) = some next) ∧
      Collects job.attempted (steps.flatMap JobStep.outcomes) job.collected ∧
      Screened engine infoHash peers known now pauseUntil steps job ∧
      (job.attempted ++ job.skipped).Nodup ∧ job.attempted.Sublist peers.reverse ∧
      (job.running.values ++ job.collected.map Prod.fst).Perm job.attempted ∧
      job.running.size ≤ engine.peerParallelism ∧ job.raised = false ∧
      steps.length ≤ 2 * peers.length := by
  obtain ⟨hreached, hfew⟩ := reached_run hlength hpeers hrun
  obtain ⟨hnumbered, hscreened⟩ := screened_run hlength hpeers hdistinct hrun
  have htracked := hreached.tracked
  obtain ⟨hnodup, hblamed⟩ := htracked.blamed_spec hdistinct
  obtain ⟨taken, htaken, hattempted, hperm⟩ := htracked.order
  refine ⟨fun hphase ↦ ?_, fun hphase ↦ ?_, fun timer hphase ↦ ?_, hnumbered.collected, hscreened,
    htracked.nodup hdistinct, ?_, htracked.attempts, htracked.parallel, htracked.returns, hfew⟩
  · cases hreached with
    | cancelled _ _ hcalls => exact hcalls
    | waiting timer hother => rw [hphase] at hother; cases hother
    | finished hother => rw [hphase] at hother; cases hother
  · cases hreached with
    | cancelled hother => rw [hphase] at hother; cases hother
    | waiting timer hother => rw [hphase] at hother; cases hother
    | finished _ _ hreported hover =>
      rw [← htracked.metadata]
      refine ⟨hreported.stored, fun hnone ↦ ⟨job.blamed, hnodup, hblamed, fun hne ↦ ?_,
        fun hnil ↦ ?_, (hover hnone).2, ?_⟩⟩
      · rw [← htracked.infoHash]
        exact hreported.failed hnone hne
      · rw [← htracked.infoHash]
        exact hreported.released hnone hnil
      · have hall : taken = peers.reverse := by
          rw [htaken, (hover hnone).1, List.append_nil]
        exact (hall ▸ hperm).trans (List.reverse_perm peers)
  · cases hreached with
    | cancelled hother => rw [hphase] at hother; cases hother
    | finished hother => rw [hphase] at hother; cases hother
    | waiting other hother hopen _ hrunning =>
      refine ⟨hopen.calls, hrunning, ⟨job.cancel, by simp [jobMachine, hphase]⟩, ?_⟩
      intro task htask outcome known now
      have hreturn : job.canReturn timer [(task, outcome)] :=
        ⟨List.nodup_singleton _, fun other hmem ↦ List.mem_singleton.mp hmem ▸ htask,
          Or.inr (List.cons_ne_nil _ _)⟩
      simp only [jobMachine, hphase, if_pos hreturn, Option.some.injEq]
      exact ⟨_, rfl⟩
  · exact hattempted.trans (htaken ▸ List.sublist_append_left taken job.waiting)

/-- The newest of three peers is skipped, the next one closes the connection, and a local error ends
the attempt of the oldest one: the job blames the first two. -/
theorem fetch_job_resolves_claim_failed :
    let infoHash := List.replicate nodeIdLength 7
    let peers : List Address :=
      [("8.8.8.8".toList, 1), ("8.8.4.4".toList, 2), ("9.9.9.9".toList, 3)]
    let known (peer : Address) : Bool := peer.2 = 3
    let steps : List JobStep := [.wake [] known 1, .wake [(0, none, "closed")] known 2,
      .wake [(1, none, "local_error")] known 3]
    ∃ job, (jobMachine {}).run (runJob {} infoHash peers known 0 0) steps = some job ∧
      Screened {} infoHash peers known 0 0 steps job ∧
      ∃ blamed time, job.calls = [.markFetchFailed infoHash blamed job.reason time] ∧
        blamed.Perm [("9.9.9.9".toList, 3), ("8.8.4.4".toList, 2)] := by
  intro infoHash peers known steps
  have heval : ((jobMachine {}).run (runJob {} infoHash peers known 0 0) steps).any fun job ↦
      job.phase = .finished ∧ job.skipped = [("9.9.9.9".toList, 3)] ∧
        job.attempted = [("8.8.4.4".toList, 2), ("8.8.8.8".toList, 1)] := by decide +kernel
  rw [Option.any_eq_true] at heval
  obtain ⟨job, hrun, hjob⟩ := heval
  obtain ⟨hphase, hskipped, hattempted⟩ := of_decide_eq_true hjob
  obtain ⟨-, hfinished, -, hcollects, hscreened, -⟩ := fetch_job_resolves_claim {} infoHash
    (by decide) peers (by decide) (by decide) known 0 0 steps job hrun
  have hcollected : job.collected = [(("8.8.4.4".toList, 2), none, "closed"),
      (("8.8.8.8".toList, 1), none, "local_error")] := by
    rw [hattempted] at hcollects
    generalize job.collected = collected at hcollects ⊢
    cases hcollects with
    | cons hfirst hrest =>
      cases hrest with
      | cons hsecond hnil =>
        cases hnil
        refine congrArg₂ _ (Prod.ext ?_ hfirst.2.symm) (congrArg₂ _ (Prod.ext ?_ hsecond.2.symm) rfl)
        · exact (Option.some.inj hfirst.1).symm
        · exact (Option.some.inj hsecond.1).symm
  obtain ⟨blamed, hnodup, hblamed, hfailed, -⟩ := (hfinished hphase).2 (by rw [hcollected]; rfl)
  have hperm : blamed.Perm [("9.9.9.9".toList, 3), ("8.8.4.4".toList, 2)] := by
    refine (List.perm_ext_iff_of_nodup hnodup (by decide)).mpr fun peer ↦ (hblamed peer).trans ?_
    rw [hskipped, hcollected]
    simp only [List.mem_cons, List.not_mem_nil, or_false, Prod.mk.injEq, true_and]
    refine or_congr_right ⟨?_, fun hpeer ↦ ⟨"closed", .inl ⟨hpeer, rfl⟩, by decide⟩⟩
    rintro ⟨reason, ⟨hpeer, -⟩ | ⟨-, rfl⟩, hblame⟩
    · exact hpeer
    · exact absurd (by decide) hblame
  have hne : blamed ≠ [] := fun hnil ↦ by simp [hnil] at hperm
  obtain ⟨time, hcalls⟩ := hfailed hne
  exact ⟨job, hrun, hscreened, blamed, time, hcalls, hperm⟩

end FetchJob

end DhtScraper
