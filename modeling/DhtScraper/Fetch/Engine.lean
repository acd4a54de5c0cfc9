import DhtScraper.Catalog.Custody
import DhtScraper.Fetch.Job
import DhtScraper.Fetch.Summary
import DhtScraper.Fetch.ByteStream
import DhtScraper.Library.RecentLog
import DhtScraper.Library.Tally
import Mathlib.Data.NNRat.Defs

/-!
# The fetch engine

The event loop of the fetch thread: `main` claims candidates while connection slots are free, a
`run_job` task attempts the peers of one claim, and an `attempt` task takes a slot, fetches over TCP,
tries once more with encryption or over uTP, and verifies what it got.  A task runs alone from one
`await` to the next, so a step of the machine is one such piece of one task; the tasks take their
steps in any order.  What the fetch functions answer and the readings of the clocks come with the
step, and the other threads work on the catalog between any two steps.

`calls`, `reachability` and `leaked` are there for the statements only.
-/

namespace DhtScraper

open Library

def maxConnectionsLimit : ℕ := 1024
def utpMaxConnections : ℕ := 48
def unreachableSeconds : ℚ := 600
def unreachableEntries : ℕ := 65536

/-- What the constructor of `FetchEngine` is given.  `overUtp` tells that there is a uTP function and
that its socket could be opened. -/
structure EngineConfig extends FetchEngine where
  maxConnections : ℕ := 256
  retries : Bool := true
  overUtp : Bool := true
  utpAfterReasons : List String := ["connect"]
  maxConnections_bounds : 1 ≤ maxConnections ∧ maxConnections ≤ maxConnectionsLimit := by decide

/-- A key of `unreachable`: a host, or one port of it. -/
inductive UnreachableKey where
  | host (ip : Text)
  | peer (peer : Address)
  deriving DecidableEq

/-- How a fetch function ends. -/
inductive FetchResult where
  /-- It returns bytes; `exhausted` when decoding them would exceed a limit of the interpreter, the
  depth of its stack or the digits of an integer. -/
  | raw (bytes : Bytes) (exhausted : Bool)
  | failed (reason : FetchReason)
  | valueError
  | unexpected

/-- The way on which metadata came. -/
inductive Route where
  | tcp
  | encrypted
  | utp
  deriving DecidableEq

/-- The `await` an attempt is at. -/
inductive AttemptStage where
  /-- The task was created and has not run. -/
  | created
  /-- In `slots.acquire()`. -/
  | queued
  /-- In the fetch function, with a slot. -/
  | tcp
  /-- In the retry function, with the same slot. -/
  | encrypted
  /-- In the uTP function, after the outcome over TCP. -/
  | utp (result : AttemptOutcome)
  | ended (outcome : AttemptOutcome)

structure Attempt where
  infoHash : Bytes
  peer : Address
  stage : AttemptStage
  cancelled : Bool

/-- A task of `run_job`. -/
inductive JobTask where
  | created (infoHash : Bytes) (peers : List Address)
  | started (job : FetchJob)

def JobTask.infoHash : JobTask → Bytes
  | created infoHash _ => infoHash
  | started job => job.infoHash

/-- An attempt's task: the number of its job, and its own number in the job. -/
abbrev TaskKey := ℕ × ℕ

structure EngineState where
  session : Session
  jobs : OrderedMap ℕ JobTask
  nextJob : ℕ
  tasks : OrderedMap TaskKey Attempt
  /-- The value of the semaphore of `main`. -/
  slots : ℕ
  /-- The value of `utp_slots`. -/
  utpSlots : ℕ
  attempts : ℕ
  successes : ℕ
  failures : ℕ
  encryptedAttempts : ℕ
  encryptedSuccesses : ℕ
  utpAttempts : ℕ
  utpSuccesses : ℕ
  reasons : OrderedMap String ℕ
  active : ℕ
  waiting : ℕ
  maxActive : ℕ
  pauseUntil : ℚ
  unreachable : OrderedMap UnreachableKey ℚ
  /-- The number of the next `TorrentMetadata` object. -/
  summaries : ℕ
  /-- The loop of `main` is over. -/
  stopping : Bool
  calls : List CatalogOp
  reachability : List (RecentEdit UnreachableKey ℚ)
  /-- The claims of jobs that were cancelled before their task ran. -/
  leaked : List Bytes

/-- The operations that only the fetch engine calls. -/
def CatalogOp.handlesFetches : CatalogOp → Bool
  | .nextFetchCandidates .. | .storeMetadata .. | .markFetchFailed .. | .releaseFetchClaim .. => true
  | _ => false

/-- An operation of another thread, when it is one that the thread may call. -/
def Session.execForeign (s : Session) (op : CatalogOp) : Session :=
  if op.handlesFetches = false ∧ Permitted s op then s.exec op else s

namespace EngineState

def new (config : EngineConfig) (session : Session) : EngineState where
  session := session
  jobs := .empty
  nextJob := 0
  tasks := .empty
  slots := config.maxConnections
  utpSlots := utpMaxConnections
  attempts := 0
  successes := 0
  failures := 0
  encryptedAttempts := 0
  encryptedSuccesses := 0
  utpAttempts := 0
  utpSuccesses := 0
  reasons := .empty
  active := 0
  waiting := 0
  maxActive := 0
  pauseUntil := 0
  unreachable := .empty
  summaries := 0
  stopping := false
  calls := []
  reachability := []
  leaked := []

/-! ## Reachability and reasons -/

def isKnownUnreachable (s : EngineState) (peer : Address) (now : ℚ) : Bool :=
  now < (s.unreachable.get? (.host peer.1)).getD 0 || now < (s.unreachable.get? (.peer peer)).getD 0

/-- `remember(self.unreachable, key, expiry, UNREACHABLE_ENTRIES)`. -/
def rememberKey (s : EngineState) (key : UnreachableKey) (expiry : ℚ) : EngineState :=
  { s with
    unreachable := (remember s.unreachable key expiry unreachableEntries).1
    reachability := s.reachability ++ [.renew key expiry] }

def rememberUnreachable (s : EngineState) (peer : Address) (reason : FetchReason) (now : ℚ) :
    EngineState :=
  match reason with
  | .connectTimeout => s.rememberKey (.host peer.1) (now + unreachableSeconds)
  | .connect => s.rememberKey (.peer peer) (now + unreachableSeconds)
  | _ => s

/-- `self.unreachable.pop(peer, None)`. -/
def forgetUnreachable (s : EngineState) (peer : Address) : EngineState :=
  { s with
    unreachable := s.unreachable.erase (.peer peer)
    reachability := s.reachability ++ [.drop (.peer peer)] }

def countReason (s : EngineState) (reason : String) : EngineState :=
  { s with reasons := s.reasons.insert reason ((s.reasons.get? reason).getD 0 + 1) }

/-! ## Attempts -/

def setTask (s : EngineState) (key : TaskKey) (attempt : Attempt) : EngineState :=
  { s with tasks := s.tasks.insert key attempt }

section Verified

variable (digest : Bytes → Bytes)

/-- What `verified` makes of the bytes: their hash is checked, and they are summarized. -/
def readMetadata (ident : ℕ) (infoHash : Bytes) (peer : Address) (now : ℚ) (raw : Bytes)
    (exhausted : Bool) : Except FetchError TorrentMetadata :=
  if digest raw ≠ infoHash then .error (.fetch .sha1Mismatch)
  else if exhausted then .error (.failure badInfoDict)
  else
    match decodeBencode raw >>= fun info ↦ summarizeInfoDict ident infoHash info now (some peer) with
    | .ok metadata => .ok metadata
    | .error failure => .error (.failure failure)

/-- The end of the awaited fetch function, as an exception or metadata. -/
def fetched (ident : ℕ) (infoHash : Bytes) (peer : Address) (now : ℚ) :
    FetchResult → Except FetchError TorrentMetadata
  | .raw bytes exhausted => readMetadata digest ident infoHash peer now bytes exhausted
  | .failed reason => .error (.fetch reason)
  | .valueError => .error (.failure badInfoDict)
  | .unexpected => .error (.failure .assertionError)

/-- `verified`, when the fetch function has ended. -/
def verified (s : EngineState) (attempt : Attempt) (route : Route) (result : FetchResult)
    (loopTime now : ℚ) : EngineState × AttemptOutcome :=
  match fetched digest s.summaries attempt.infoHash attempt.peer now result with
  | .ok metadata =>
    ({ s with
      summaries := s.summaries + 1
      encryptedSuccesses := s.encryptedSuccesses + if route = .encrypted then 1 else 0
      utpSuccesses := s.utpSuccesses + if route = .utp then 1 else 0 }, some metadata, "ok")
  | .error (.fetch reason) =>
    if route = .utp then (s.countReason ("utp_" ++ reason.text), none, "utp_" ++ reason.text)
    else ((s.rememberUnreachable attempt.peer reason loopTime).countReason reason.text, none,
      reason.text)
  | .error (.failure (.valueError _)) => (s.countReason "bad_info_dict", none, "bad_info_dict")
  | .error (.failure _) => (s.countReason "unexpected", none, "unexpected")

/-- The end of the fetch over TCP: the slot is released, and uTP is tried where it can help. -/
def endTcp (config : EngineConfig) (s : EngineState) (key : TaskKey) (attempt : Attempt)
    (route : Route) (result : FetchResult) (loopTime now : ℚ) : EngineState :=
  let (s, outcome) := verified digest s attempt route result loopTime now
  let s := { s with active := s.active - 1, slots := s.slots + 1 }
  if outcome.1 = none ∧ outcome.2 ∈ config.utpAfterReasons ∧ config.overUtp ∧ 0 < s.utpSlots ∧
      ':' ∉ attempt.peer.1 then
    { s with utpSlots := s.utpSlots - 1, utpAttempts := s.utpAttempts + 1 }.setTask key
      { attempt with stage := .utp outcome }
  else s.setTask key { attempt with stage := .ended outcome }

/-- The end of the fetch over uTP. -/
def endUtp (s : EngineState) (key : TaskKey) (attempt : Attempt) (overTcp : AttemptOutcome)
    (result : FetchResult) (loopTime now : ℚ) : EngineState :=
  let (s, outcome) := verified digest s attempt .utp result loopTime now
  let s := { s with utpSlots := s.utpSlots + 1 }
  let s := if outcome.1 ≠ none then s.forgetUnreachable attempt.peer else s
  s.setTask key { attempt with
    stage := .ended (if outcome.1 ≠ none ∨ outcome.2 ≠ "utp_connect_timeout" then outcome
      else overTcp) }

/-- A fetch function ends. -/
def fetchEnds (config : EngineConfig) (s : EngineState) (key : TaskKey) (attempt : Attempt)
    (result : FetchResult) (loopTime now : ℚ) : Option EngineState :=
  match attempt.stage, result with
  | .tcp, .failed .closedOnHandshake =>
    if config.retries then
      some ({ s with encryptedAttempts := s.encryptedAttempts + 1 }.setTask key
        { attempt with stage := .encrypted })
    else some (endTcp digest config s key attempt .tcp result loopTime now)
  | .tcp, _ => some (endTcp digest config s key attempt .tcp result loopTime now)
  | .encrypted, _ => some (endTcp digest config s key attempt .encrypted result loopTime now)
  | .utp overTcp, _ => some (endUtp digest s key attempt overTcp result loopTime now)
  | _, _ => none

end Verified

/-- The cancellation of a task reaches it: the `finally` blocks and `async with` give back what the
attempt holds. -/
def unwind (s : EngineState) (key : TaskKey) (attempt : Attempt) : EngineState :=
  let s := { s with tasks := s.tasks.erase key }
  match attempt.stage with
  | .queued => { s with waiting := s.waiting - 1 }
  | .tcp | .encrypted => { s with active := s.active - 1, slots := s.slots + 1 }
  | .utp _ => { s with utpSlots := s.utpSlots + 1 }
  | .created | .ended _ => s

/-- `attempt` up to `slots.acquire()`. -/
def startAttempt (s : EngineState) (key : TaskKey) (attempt : Attempt) : EngineState :=
  { s with waiting := s.waiting + 1 }.setTask key { attempt with stage := .queued }

/-- The slot is acquired and the fetch function is called. -/
def acquireSlot (s : EngineState) (key : TaskKey) (attempt : Attempt) : EngineState :=
  { s with
    waiting := s.waiting - 1
    slots := s.slots - 1
    active := s.active + 1
    attempts := s.attempts + 1
    maxActive := max s.maxActive (s.active + 1) }.setTask key { attempt with stage := .tcp }

/-! ## Jobs -/

def callCatalog (s : EngineState) (op : CatalogOp) : EngineState :=
  { s with session := s.session.exec op, calls := s.calls ++ [op] }

/-- A call of `finish_job`, and its counters unless the call raises. -/
def report (s : EngineState) (op : CatalogOp) : EngineState :=
  let s := s.callCatalog op
  if s.session.catalog.raised then s
  else
    match op with
    | .storeMetadata .. => { s with successes := s.successes + 1 }
    | .markFetchFailed .. => { s with failures := s.failures + 1 }
    | _ => s

/-- The tasks that a job created for the peers it attempts. -/
def startTasks (s : EngineState) (number : ℕ) (infoHash : Bytes) (started : List (ℕ × Address)) :
    EngineState :=
  { s with tasks := started.foldl (fun tasks item ↦ tasks.insert (number, item.1)
      { infoHash := infoHash, peer := item.2, stage := .created, cancelled := false }) s.tasks }

/-- `task.cancel()` for the tasks of a job. -/
def cancelTasks (s : EngineState) (number : ℕ) : EngineState :=
  { s with tasks := s.tasks.mapValues fun key attempt ↦
      if key.1 = number then { attempt with cancelled := true } else attempt }

/-- The job is over, and its tasks are cancelled. -/
def closeJob (s : EngineState) (number : ℕ) : EngineState :=
  { s with jobs := s.jobs.erase number }.cancelTasks number

/-- What a piece of `run_job` did: peers were skipped, attempts created and the catalog called.  The
numbers are those of the job before. -/
def advanceJob (s : EngineState) (number skipped created called : ℕ) (job : FetchJob) : EngineState :=
  let s := (fun s ↦ countReason s "skipped_unreachable")^[job.skipped.length - skipped] s
  let s := s.startTasks number job.infoHash (job.running.items.filter fun item ↦ created ≤ item.1)
  let s := (job.calls.drop called).foldl report s
  match job.phase with
  | .waiting _ => { s with jobs := s.jobs.insert number (.started job) }
  | _ => s.closeJob number

/-- The outcomes of tasks that have ended. -/
def outcome (s : EngineState) (number task : ℕ) : Option (ℕ × AttemptOutcome) :=
  match s.tasks.get? (number, task) with
  | some { stage := .ended outcome, cancelled := false, .. } => some (task, outcome)
  | _ => none

def outcomes (s : EngineState) (number : ℕ) (done : List ℕ) : Option (List (ℕ × AttemptOutcome)) :=
  done.mapM (s.outcome number)

theorem outcome_eq_some {s : EngineState} {number task : ℕ} {item : ℕ × AttemptOutcome} :
    s.outcome number task = some item ↔ item.1 = task ∧ ∃ attempt,
      s.tasks.get? (number, task) = some attempt ∧ attempt.stage = .ended item.2 ∧
        attempt.cancelled = false := by
  unfold outcome
  split
  next infoHash peer outcome hget =>
    constructor
    · intro hsome
      obtain rfl := Option.some.inj hsome
      exact ⟨rfl, _, hget, rfl, rfl⟩
    · obtain ⟨number', outcome'⟩ := item
      rintro ⟨rfl, attempt, hattempt, hstage, -⟩
      obtain rfl := Option.some.inj (hget.symm.trans hattempt)
      rw [AttemptStage.ended.inj hstage]
  next hnot =>
    refine iff_of_false (fun hnone ↦ by cases hnone) ?_
    rintro ⟨-, ⟨infoHash, peer, stage, cancelled⟩, hget, rfl, rfl⟩
    exact hnot infoHash peer item.2 hget

/-- The tasks that a job collected are gone. -/
def dropTasks (s : EngineState) (number : ℕ) (done : List ℕ) : EngineState :=
  { s with tasks := s.tasks.filterKeys fun key ↦ key.1 ≠ number ∨ key.2 ∉ done }

/-- `pause_until` after the outcomes of a wait. -/
def pausedBy (config : EngineConfig) (s : EngineState) (done : List (ℕ × AttemptOutcome))
    (loopTime : ℚ) : ℚ :=
  if ∃ item ∈ done, item.2.1 = none ∧ item.2.2 = "local_error" then loopTime + config.localErrorPause
  else s.pauseUntil

/-- `loop.create_task(self.run_job(info_hash, peers, slots))`. -/
def createJob (s : EngineState) (candidate : Bytes × List Address) : EngineState :=
  { s with
    jobs := s.jobs.insert s.nextJob (.created candidate.1 candidate.2)
    nextJob := s.nextJob + 1 }

/-- A round of the loop of `main`. -/
def schedule (config : EngineConfig) (s : EngineState) (loopTime : ℚ) : EngineState :=
  let free : ℤ := config.maxConnections - s.active - s.waiting
  if 0 < free ∧ s.pauseUntil ≤ loopTime then
    let op := CatalogOp.nextFetchCandidates free.toNat
    let claimed := (s.session.catalog.settle.nextFetchCandidates free.toNat).2
    let s := s.callCatalog op
    if s.session.catalog.raised then
      { s with stopping := true, leaked := s.leaked ++ claimed.map Prod.fst }
    else claimed.foldl createJob s
  else s

end EngineState

/-- A step of one task of the engine, or the other threads' turn. -/
inductive EngineStep where
  | schedule (loopTime : ℚ≥0)
  | startJob (number : ℕ) (clock : Address → ℚ≥0) (now : ℚ≥0)
  | wakeJob (number : ℕ) (done : List ℕ) (clock : Address → ℚ≥0) (loopTime now : ℚ≥0)
  | cancelJob (number : ℕ)
  | startAttempt (key : TaskKey)
  | acquireSlot (key : TaskKey)
  | fetchEnds (key : TaskKey) (result : FetchResult) (loopTime now : ℚ≥0)
  | unwind (key : TaskKey)
  | others (op : CatalogOp)
  | stop

namespace EngineState

variable (digest : Bytes → Bytes) (config : EngineConfig)

/-- The first piece of `run_job`. -/
def startJob (s : EngineState) (number : ℕ) (clock : Address → ℚ≥0) (now : ℚ≥0) :
    Option EngineState :=
  match s.jobs.get? number with
  | some (.created infoHash peers) =>
    let job := FetchJob.runJob config.toFetchEngine infoHash peers
      (fun peer ↦ s.isKnownUnreachable peer (clock peer)) now s.pauseUntil
    some (s.advanceJob number 0 0 0 job)
  | _ => none

/-- `asyncio.wait` returns, and the job runs on to its next wait or to its end. -/
def wakeJob (s : EngineState) (number : ℕ) (done : List ℕ) (clock : Address → ℚ≥0)
    (loopTime now : ℚ≥0) : Option EngineState :=
  match s.jobs.get? number with
  | some (.started job) => do
    let outcomes ← s.outcomes number done
    let next ← (jobMachine config.toFetchEngine).step job
      (.wake outcomes (fun peer ↦ s.isKnownUnreachable peer (clock peer)) now)
    let s := { s with pauseUntil := pausedBy config s outcomes loopTime }
    some ((s.dropTasks number done).advanceJob number job.skipped.length job.created
      job.calls.length next)
  | _ => none

/-- `main` cancels a job at its end. -/
def cancelJob (s : EngineState) (number : ℕ) : Option EngineState :=
  if s.stopping then
    match s.jobs.get? number with
    | some (.created infoHash _) =>
      some { s with jobs := s.jobs.erase number, leaked := s.leaked ++ [infoHash] }
    | some (.started job) =>
      (jobMachine config.toFetchEngine).step job .cancel |>.map fun next ↦
        s.advanceJob number job.skipped.length job.created job.calls.length next
    | none => none
  else none

/-- A piece of an attempt that has not been cancelled. -/
def onAttempt (s : EngineState) (key : TaskKey) (step : Attempt → Option EngineState) :
    Option EngineState :=
  match s.tasks.get? key with
  | some attempt => if attempt.cancelled then none else step attempt
  | none => none

def step (s : EngineState) : EngineStep → Option EngineState
  | .schedule loopTime => if s.stopping then none else some (s.schedule config loopTime)
  | .startJob number clock now => s.startJob config number clock now
  | .wakeJob number done clock loopTime now => s.wakeJob config number done clock loopTime now
  | .cancelJob number => s.cancelJob config number
  | .startAttempt key => s.onAttempt key fun attempt ↦
      match attempt.stage with
      | .created => some (s.startAttempt key attempt)
      | _ => none
  | .acquireSlot key => s.onAttempt key fun attempt ↦
      match attempt.stage with
      | .queued => if 0 < s.slots then some (s.acquireSlot key attempt) else none
      | _ => none
  | .fetchEnds key result loopTime now => s.onAttempt key fun attempt ↦
      fetchEnds digest config s key attempt result loopTime now
  | .unwind key =>
    match s.tasks.get? key with
    | some attempt => if attempt.cancelled then some (s.unwind key attempt) else none
    | none => none
  | .others op => some { s with session := s.session.execForeign op }
  | .stop => some { s with stopping := true }

end EngineState

/-- The machine of all orders in which the tasks of the engine and the other threads run. -/
def engineMachine (digest : Bytes → Bytes) (config : EngineConfig) : Machine EngineState EngineStep :=
  ⟨EngineState.step digest config⟩

end DhtScraper
