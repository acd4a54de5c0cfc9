import DhtScraper.Fetch.Custody

/-!
# The scheduling of the fetch engine

The slots are counted exactly and never exceeded, a job only waits for tasks that exist, and the
tasks come to an end: in any order in which they run, they take a bounded number of steps, and they
only stop when no job and no task is left.
-/

namespace DhtScraper

open Library

/-! ## The tasks of a job -/

namespace FetchJob

variable {engine : FetchEngine} {job : FetchJob}

/-- A piece of the loop starts at most one task, with the next number. -/
theorem loop_running (engine : FetchEngine) (known : Address → Bool) (now : ℚ) (ws : List Address) :
    ∀ job : FetchJob, (loop engine known now ws job).running = job.running ∧
        (loop engine known now ws job).created = job.created ∨
      ∃ peer, (loop engine known now ws job).running = job.running.insert job.created peer ∧
        (loop engine known now ws job).created = job.created + 1 := by
  have hfinish (job : FetchJob) : (job.finish now).running = job.running ∧
      (job.finish now).created = job.created := by
    unfold finish finishJob
    dsimp only
    split
    · exact ⟨rfl, rfl⟩
    · split <;> exact ⟨rfl, rfl⟩
  induction ws with
  | nil =>
    intro job
    unfold loop
    split
    · exact .inl ⟨rfl, rfl⟩
    · exact .inl (hfinish { job with waiting := [] })
  | cons peer rest ih =>
    intro job
    unfold loop
    split
    · exact .inl (hfinish { job with waiting := peer :: rest })
    · split
      · split
        · exact ih (job.skip peer)
        · exact .inr ⟨peer, rfl, rfl⟩
      · exact .inl ⟨rfl, rfl⟩

theorem collect_running (engine : FetchEngine) (now : ℚ) (finished : ℕ × AttemptOutcome)
    (job : FetchJob) :
    (job.collect engine now finished).running = job.running.erase finished.1 ∧
      (job.collect engine now finished).created = job.created := by
  unfold collect
  split
  next hnone => exact ⟨(OrderedMap.erase_eq_self hnone).symm, rfl⟩
  next =>
    dsimp only
    split <;> exact ⟨rfl, rfl⟩

/-- Collecting outcomes takes their tasks out. -/
theorem collectEach_running (engine : FetchEngine) (now : ℚ) (done : List (ℕ × AttemptOutcome)) :
    ∀ job : FetchJob, (∀ task, (done.foldl (collect engine now) job).running.get? task =
        if task ∈ done.map Prod.fst then none else job.running.get? task) ∧
      (done.foldl (collect engine now) job).created = job.created := by
  induction done with
  | nil => exact fun job ↦ ⟨fun task ↦ rfl, rfl⟩
  | cons first rest ih =>
    intro job
    obtain ⟨hrunning, hcreated⟩ := job.collect_running engine now first
    obtain ⟨hrest, hrestCreated⟩ := ih (job.collect engine now first)
    refine ⟨fun task ↦ ?_, hrestCreated.trans hcreated⟩
    rw [List.foldl_cons, hrest, hrunning, OrderedMap.get?_erase, List.map_cons]
    by_cases hfirst : task = first.1
    · simp only [hfirst, List.mem_cons, true_or, if_true, ite_self]
    · simp only [hfirst, List.mem_cons, false_or, if_false]

/-- After a piece of the loop only the newest task can be new. -/
theorem loop_starts (engine : FetchEngine) (known : Address → Bool) (now : ℚ) (ws : List Address)
    (hfresh : ∀ task ∈ job.running.keys, task < job.created) :
    (∀ task < job.created, (loop engine known now ws job).running.get? task = job.running.get? task) ∧
      ∀ task, job.created ≤ task → ((loop engine known now ws job).running.get? task).isSome →
        task = job.created := by
  have hnone : ∀ task, job.created ≤ task → ¬(job.running.get? task).isSome := fun task hle hsome ↦
    absurd (hfresh task (OrderedMap.get?_isSome_iff.mp hsome)) (Nat.not_lt.mpr hle)
  rcases loop_running engine known now ws job with ⟨hrunning, -⟩ | ⟨peer, hrunning, -⟩
  · rw [hrunning]
    exact ⟨fun task _ ↦ rfl, fun task hle hsome ↦ absurd hsome (hnone task hle)⟩
  · refine ⟨fun task hlt ↦ ?_, fun task hle hsome ↦ ?_⟩
    · rw [hrunning, OrderedMap.get?_insert, if_neg hlt.ne]
    · rw [hrunning, OrderedMap.get?_insert] at hsome
      split at hsome
      next heq => exact heq
      next => exact absurd hsome (hnone task hle)

end FetchJob

/-! ## What attempts hold -/

namespace AttemptStage

/-- A place in the queue for a slot. -/
def queue : AttemptStage → ℕ
  | queued => 1
  | _ => 0

/-- A connection slot. -/
def slot : AttemptStage → ℕ
  | tcp | encrypted => 1
  | _ => 0

def utpSlot : AttemptStage → ℕ
  | utp _ => 1
  | _ => 0

/-- The steps that the task can still make are at most this many. -/
def left : AttemptStage → ℕ
  | created => 6
  | queued => 5
  | tcp => 4
  | encrypted => 3
  | utp _ => 2
  | ended _ => 1

theorem left_pos (stage : AttemptStage) : 0 < stage.left := by
  cases stage <;> exact Nat.succ_pos _

end AttemptStage

namespace EngineState

variable {digest : Bytes → Bytes} {config : EngineConfig} {limits : CatalogLimits}
  {s s' : EngineState} {key : TaskKey} {attempt : Attempt} {number : ℕ}

/-- What all attempts together hold. -/
def held (s : EngineState) (f : AttemptStage → ℕ) : ℕ :=
  (s.tasks.values.map fun attempt ↦ f attempt.stage).sum

theorem held_insert (hget : s.tasks.get? key = some attempt) {attempt' : Attempt}
    (htasks : s'.tasks = s.tasks.insert key attempt') (f : AttemptStage → ℕ) :
    s'.held f + f attempt.stage = s.held f + f attempt'.stage := by
  have hbefore := s.tasks.sum_values_erase (fun attempt ↦ f attempt.stage) hget
  have hafter := s.tasks.sum_values_insert (fun attempt ↦ f attempt.stage) key attempt'
  rw [held, held, htasks, hbefore, hafter]
  omega

theorem held_erase (hget : s.tasks.get? key = some attempt) (htasks : s'.tasks = s.tasks.erase key)
    (f : AttemptStage → ℕ) : s'.held f + f attempt.stage = s.held f := by
  have hbefore := s.tasks.sum_values_erase (fun attempt ↦ f attempt.stage) hget
  rw [held, held, htasks, hbefore]
  exact Nat.add_comm _ _

theorem le_held (hget : s.tasks.get? key = some attempt) (f : AttemptStage → ℕ) :
    f attempt.stage ≤ s.held f := by
  rw [held, s.tasks.sum_values_erase (fun attempt ↦ f attempt.stage) hget]
  exact Nat.le_add_right _ _

theorem held_cancelTasks (s : EngineState) (number : ℕ) (f : AttemptStage → ℕ) :
    (s.cancelTasks number).held f = s.held f :=
  s.tasks.sum_values_mapValues fun key attempt ↦ by split <;> rfl

/-- Some attempt holds what is held. -/
theorem exists_of_held {f : AttemptStage → ℕ} (h : s.held f ≠ 0) :
    ∃ key attempt, s.tasks.get? key = some attempt ∧ f attempt.stage ≠ 0 := by
  by_contra hnone
  push Not at hnone
  refine h (List.sum_eq_zero fun amount hmem ↦ ?_)
  obtain ⟨attempt, hattempt, rfl⟩ := List.mem_map.mp hmem
  obtain ⟨key, hget⟩ := OrderedMap.mem_values_iff.mp hattempt
  exact hnone key attempt hget

/-- The semaphores and their counters. -/
def pool (s : EngineState) : ℕ × ℕ × ℕ × ℕ × ℕ :=
  (s.slots, s.active, s.waiting, s.utpSlots, s.maxActive)

/-- The semaphores and the counters agree with the stages of the attempts. -/
structure Pooled (config : EngineConfig) (s : EngineState) : Prop where
  slots : s.slots + s.active = config.maxConnections
  active : s.active = s.held AttemptStage.slot
  waiting : s.waiting = s.held AttemptStage.queue
  utpSlots : s.utpSlots + s.held AttemptStage.utpSlot = utpMaxConnections
  peak : s.active ≤ s.maxActive ∧ s.maxActive ≤ config.maxConnections

theorem Pooled.of_pool (h : Pooled config s) (hpool : s'.pool = s.pool)
    (hheld : ∀ f, f .created = 0 → (∀ outcome, f (.ended outcome) = 0) → s'.held f = s.held f) :
    Pooled config s' := by
  simp only [pool, Prod.mk.injEq] at hpool
  obtain ⟨hslots, hactive, hwaiting, hutp, hpeak⟩ := hpool
  constructor
  case slots => rw [hslots, hactive, h.slots]
  case active => rw [hactive, hheld AttemptStage.slot rfl fun _ ↦ rfl, h.active]
  case waiting => rw [hwaiting, hheld AttemptStage.queue rfl fun _ ↦ rfl, h.waiting]
  case utpSlots => rw [hutp, hheld AttemptStage.utpSlot rfl fun _ ↦ rfl, h.utpSlots]
  case peak => rw [hactive, hpeak]; exact h.peak

/-! ### Attempts -/

/-- The task of an attempt goes on to a later stage and takes and gives back what it must. -/
structure Moves (s s' : EngineState) (key : TaskKey) (attempt : Attempt) (stage : AttemptStage) :
    Prop where
  desk : s'.desk = s.desk
  tasks : s'.tasks = s.tasks.insert key { attempt with stage := stage }
  left : stage.left < attempt.stage.left
  slots : s'.slots + stage.slot = s.slots + attempt.stage.slot
  active : s'.active + attempt.stage.slot = s.active + stage.slot
  waiting : s'.waiting + attempt.stage.queue = s.waiting + stage.queue
  utpSlots : s'.utpSlots + stage.utpSlot = s.utpSlots + attempt.stage.utpSlot
  peak : s'.maxActive = max s.maxActive s'.active

theorem Pooled.moves (h : Pooled config s) {stage : AttemptStage}
    (hget : s.tasks.get? key = some attempt) (hmoves : Moves s s' key attempt stage) :
    Pooled config s' := by
  have hslot := held_insert hget hmoves.tasks AttemptStage.slot
  have hqueue := held_insert hget hmoves.tasks AttemptStage.queue
  have hutp := held_insert hget hmoves.tasks AttemptStage.utpSlot
  obtain ⟨-, -, -, hslots, hactive, hwaiting, hutpSlots, hpeak⟩ := hmoves
  obtain ⟨hs, ha, hw, hu, hp⟩ := h
  dsimp only at hslot hqueue hutp
  constructor <;> omega

theorem pool_rememberUnreachable (s : EngineState) (peer : Address) (reason : FetchReason) (now : ℚ) :
    (s.rememberUnreachable peer reason now).pool = s.pool := by
  have hkey (key : UnreachableKey) (expiry : ℚ) : (s.rememberKey key expiry).pool = s.pool := by
    cases s
    dsimp only [pool, rememberKey]
  unfold rememberUnreachable
  split
  · exact hkey _ _
  · exact hkey _ _
  · rfl

theorem verified_pool (digest : Bytes → Bytes) (s : EngineState) (attempt : Attempt) (route : Route)
    (result : FetchResult) (loopTime now : ℚ) :
    (verified digest s attempt route result loopTime now).1.pool = s.pool := by
  unfold verified
  split
  next => rfl
  next reason _ =>
    split
    · rfl
    · exact s.pool_rememberUnreachable attempt.peer reason loopTime
  next => rfl
  next => rfl

theorem moves_startAttempt (h : Pooled config s) (hstage : attempt.stage = .created) :
    Moves s (s.startAttempt key attempt) key attempt .queued := by
  constructor
  case desk => rfl
  case tasks => rfl
  case left => rw [hstage]; decide
  case peak => exact (max_eq_left h.peak.1).symm
  all_goals rw [hstage]; rfl

theorem moves_acquireSlot (h : Pooled config s) (hget : s.tasks.get? key = some attempt)
    (hstage : attempt.stage = .queued) (hfree : 0 < s.slots) :
    Moves s (s.acquireSlot key attempt) key attempt .tcp := by
  have hqueued : 1 ≤ s.waiting := by
    have hle := le_held hget AttemptStage.queue
    rwa [hstage, ← h.waiting] at hle
  constructor
  case desk => rfl
  case tasks => rfl
  case left => rw [hstage]; decide
  case slots => rw [hstage]; exact Nat.sub_add_cancel hfree
  case active => rw [hstage]; rfl
  case waiting => rw [hstage]; exact Nat.sub_add_cancel hqueued
  case utpSlots => rw [hstage]; rfl
  case peak => rfl

theorem moves_endTcp (h : Pooled config s) (hget : s.tasks.get? key = some attempt)
    (hslot : attempt.stage.slot = 1) (hleft : 2 < attempt.stage.left) (route : Route)
    (result : FetchResult) (loopTime now : ℚ) : ∃ stage, Moves s
      (EngineState.endTcp digest config s key attempt route result loopTime now) key attempt stage := by
  obtain ⟨hqueue, hutpSlot⟩ : attempt.stage.queue = 0 ∧ attempt.stage.utpSlot = 0 := by
    cases hstage : attempt.stage <;> rw [hstage] at hslot <;> first | exact ⟨rfl, rfl⟩ | cases hslot
  have hactive : 1 ≤ s.active := by
    have hle := le_held hget AttemptStage.slot
    rwa [hslot, ← h.active] at hle
  obtain ⟨hdesk, htasks, -⟩ := verified_spec digest s attempt route result loopTime now
  have hpool := verified_pool digest s attempt route result loopTime now
  unfold EngineState.endTcp
  revert hdesk htasks hpool
  generalize verified digest s attempt route result loopTime now = told
  obtain ⟨after, outcome⟩ := told
  intro hdesk htasks hpool
  simp only [pool, Prod.mk.injEq] at hpool
  obtain ⟨hslots, hsame, hwaiting, hutp, hpeak⟩ := hpool
  dsimp only at hdesk htasks hslots hsame hwaiting hutp hpeak ⊢
  have hbelow := h.peak.1
  split
  next htry =>
    obtain ⟨hs, hq, hu⟩ : (AttemptStage.utp outcome).slot = 0 ∧ (AttemptStage.utp outcome).queue = 0 ∧
      (AttemptStage.utp outcome).utpSlot = 1 := ⟨rfl, rfl, rfl⟩
    refine ⟨.utp outcome, hdesk, congrArg (OrderedMap.insert · key _) htasks, hleft, ?_, ?_, ?_, ?_, ?_⟩
    all_goals dsimp only [setTask]; omega
  next =>
    obtain ⟨hs, hq, hu⟩ : (AttemptStage.ended outcome).slot = 0 ∧
      (AttemptStage.ended outcome).queue = 0 ∧ (AttemptStage.ended outcome).utpSlot = 0 :=
        ⟨rfl, rfl, rfl⟩
    refine ⟨.ended outcome, hdesk, congrArg (OrderedMap.insert · key _) htasks,
      lt_trans Nat.one_lt_two hleft, ?_, ?_, ?_, ?_, ?_⟩
    all_goals dsimp only [setTask]; omega

theorem moves_endUtp (h : Pooled config s) {overTcp : AttemptOutcome}
    (hstage : attempt.stage = .utp overTcp) (result : FetchResult) (loopTime now : ℚ) :
    ∃ stage, Moves s (EngineState.endUtp digest s key attempt overTcp result loopTime now) key attempt
      stage := by
  obtain ⟨hdesk, htasks, -⟩ := verified_spec digest s attempt .utp result loopTime now
  have hpool := verified_pool digest s attempt .utp result loopTime now
  unfold EngineState.endUtp
  revert hdesk htasks hpool
  generalize verified digest s attempt .utp result loopTime now = told
  obtain ⟨after, outcome⟩ := told
  intro hdesk htasks hpool
  simp only [pool, Prod.mk.injEq] at hpool
  obtain ⟨hslots, hsame, hwaiting, hutp, hpeak⟩ := hpool
  dsimp only at hdesk htasks hslots hsame hwaiting hutp hpeak ⊢
  have hbelow := h.peak.1
  have hends (mid : EngineState) (chosen : AttemptOutcome) (hmidDesk : mid.desk = s.desk)
      (hmidTasks : mid.tasks = s.tasks) (hmidPool : mid.pool = (s.slots, s.active, s.waiting,
        s.utpSlots + 1, s.maxActive)) :
      Moves s (mid.setTask key { attempt with stage := .ended chosen }) key attempt
        (.ended chosen) := by
    simp only [pool, Prod.mk.injEq] at hmidPool
    obtain ⟨hs, ha, hw, hu, hm⟩ := hmidPool
    refine ⟨hmidDesk, congrArg (OrderedMap.insert · key _) hmidTasks,
      by rw [hstage]; exact Nat.one_lt_two, ?_, ?_, ?_, ?_, ?_⟩
    all_goals
      simp only [hstage, setTask, AttemptStage.slot, AttemptStage.queue, AttemptStage.utpSlot]
      omega
  have hmidPool : { after with utpSlots := after.utpSlots + 1 }.pool = (s.slots, s.active, s.waiting,
      s.utpSlots + 1, s.maxActive) := by
    simp only [pool, hslots, hsame, hwaiting, hutp, hpeak]
  split
  · exact ⟨_, hends _ _ hdesk htasks hmidPool⟩
  · exact ⟨_, hends _ _ hdesk htasks hmidPool⟩

theorem moves_fetchEnds (h : Pooled config s) (hget : s.tasks.get? key = some attempt)
    {result : FetchResult} {loopTime now : ℚ}
    (hstep : EngineState.fetchEnds digest config s key attempt result loopTime now = some s') :
    ∃ stage, Moves s s' key attempt stage := by
  unfold EngineState.fetchEnds at hstep
  split at hstep
  next hstage =>
    split at hstep
    · obtain rfl := Option.some.inj hstep
      refine ⟨.encrypted, rfl, rfl, by rw [hstage]; decide, ?_, ?_, ?_, ?_, (max_eq_left h.peak.1).symm⟩
      all_goals rw [hstage]; rfl
    · obtain rfl := Option.some.inj hstep
      exact moves_endTcp h hget (by rw [hstage]; rfl) (by rw [hstage]; decide) .tcp _ loopTime now
  next hstage _ =>
    obtain rfl := Option.some.inj hstep
    exact moves_endTcp h hget (by rw [hstage]; rfl) (by rw [hstage]; decide) .tcp _ loopTime now
  next hstage =>
    obtain rfl := Option.some.inj hstep
    exact moves_endTcp h hget (by rw [hstage]; rfl) (by rw [hstage]; decide) .encrypted _ loopTime now
  next overTcp hstage =>
    obtain rfl := Option.some.inj hstep
    exact moves_endUtp h hstage _ loopTime now
  · cases hstep

/-- A cancelled task gives back what it holds. -/
theorem Pooled.unwind (h : Pooled config s) (hget : s.tasks.get? key = some attempt) :
    Pooled config (s.unwind key attempt) := by
  have htasks : (s.unwind key attempt).tasks = s.tasks.erase key := by
    unfold EngineState.unwind
    dsimp only
    split <;> rfl
  have hslot := held_erase hget htasks AttemptStage.slot
  have hqueue := held_erase hget htasks AttemptStage.queue
  have hutp := held_erase hget htasks AttemptStage.utpSlot
  obtain ⟨hs, ha, hw, hu, hp⟩ := h
  unfold EngineState.unwind at hslot hqueue hutp ⊢
  dsimp only at hslot hqueue hutp ⊢
  split at hslot
  all_goals
    rename_i hstage
    simp only [hstage, AttemptStage.slot, AttemptStage.queue, AttemptStage.utpSlot]
      at hslot hqueue hutp ⊢
    constructor <;> dsimp only <;> omega

/-! ### Jobs -/

/-- The peer of a task, and whether the task was cancelled. -/
def link (s : EngineState) (key : TaskKey) : Option (Address × Bool) :=
  (s.tasks.get? key).map fun attempt ↦ (attempt.peer, attempt.cancelled)

/-- The tasks that a job starts are new ones. -/
theorem startTasks_spec (number : ℕ) (infoHash : Bytes) (started : List (ℕ × Address)) :
    ∀ {s : EngineState}, (started.map Prod.fst).Nodup →
      (∀ task ∈ started.map Prod.fst, s.tasks.get? (number, task) = none) →
        (∀ key, key.1 ≠ number →
          (s.startTasks number infoHash started).tasks.get? key = s.tasks.get? key) ∧
        (∀ task, (s.startTasks number infoHash started).link (number, task) =
          ((started.lookup task).map (·, false)).or (s.link (number, task))) ∧
        ∀ f, (s.startTasks number infoHash started).held f =
          s.held f + started.length * f .created := by
  induction started with
  | nil =>
    intro s hnodup hnone
    exact ⟨fun key _ ↦ rfl, fun task ↦ rfl, fun f ↦ by rw [List.length_nil, Nat.zero_mul]; rfl⟩
  | cons first rest ih =>
    intro s hnodup hnone
    obtain ⟨hfirst, hrest⟩ := List.nodup_cons.mp hnodup
    let begun : Attempt :=
      { infoHash := infoHash, peer := first.2, stage := .created, cancelled := false }
    have hget (key : TaskKey) : (s.setTask (number, first.1) begun).tasks.get? key =
        if key = (number, first.1) then some begun else s.tasks.get? key :=
      OrderedMap.get?_insert _ _ _ _
    obtain ⟨hothers, hlink, hheld⟩ := ih (s := s.setTask (number, first.1) begun) hrest
      fun task htask ↦ by
        have hne : (number, task) ≠ (number, first.1) := fun heq ↦ by
          rw [(Prod.mk.inj heq).2] at htask
          exact hfirst htask
        rw [hget, if_neg hne]
        exact hnone task (List.mem_cons_of_mem _ htask)
    refine ⟨fun key hkey ↦ ?_, fun task ↦ ?_, fun f ↦ ?_⟩
    · refine (hothers key hkey).trans ?_
      rw [hget, if_neg fun heq ↦ hkey (congrArg Prod.fst heq)]
    · refine (hlink task).trans ?_
      rw [link, hget]
      by_cases htask : task = first.1
      · have hlookup : rest.lookup task = none := by
          rw [List.lookup_eq_none_iff]
          rw [htask]
          intro item hitem
          exact bne_iff_ne.mpr fun heq ↦ hfirst (heq ▸ List.mem_map_of_mem hitem)
        rw [hlookup, htask, if_pos rfl, List.lookup_cons_self]
        rfl
      · have hne : (number, task) ≠ (number, first.1) := fun heq ↦ htask (Prod.mk.inj heq).2
        rw [if_neg hne, List.lookup_cons, beq_false_of_ne htask]
        rfl
    · refine (hheld f).trans ?_
      have habsent := hnone first.1 List.mem_cons_self
      have hinsert := s.tasks.sum_values_insert (fun attempt ↦ f attempt.stage) (number, first.1) begun
      rw [OrderedMap.erase_eq_self habsent] at hinsert
      rw [held, setTask_tasks, hinsert, List.length_cons, Nat.succ_mul]
      change f .created + s.held f + rest.length * f .created = _
      omega

/-- What the pieces of a job leave alone. -/
def frame (s : EngineState) :
    (ℕ × ℕ × ℕ × ℕ × ℕ) × OrderedMap ℕ JobTask × ℕ × OrderedMap TaskKey Attempt :=
  (s.pool, s.jobs, s.nextJob, s.tasks)

theorem report_frame (s : EngineState) (op : CatalogOp) : (s.report op).frame = s.frame := by
  unfold EngineState.report
  dsimp only
  split
  · rfl
  · cases op <;> rfl

theorem countSkipped_frame (n : ℕ) : ∀ s : EngineState,
    ((fun s ↦ countReason s "skipped_unreachable")^[n] s).frame = s.frame := by
  induction n with
  | zero => exact fun _ ↦ rfl
  | succ n ih => exact fun s ↦ ih (s.countReason "skipped_unreachable")

/-- The new tasks of a job that goes on. -/
def newTasks (created : ℕ) (next : FetchJob) : List (ℕ × Address) :=
  next.running.items.filter fun item ↦ created ≤ item.1

/-- The job goes into its next wait, or it is gone and its tasks are cancelled. -/
theorem advanceJob_spec (s : EngineState) (number skipped created called : ℕ) (next : FetchJob) :
    let started := s.startTasks number next.infoHash (newTasks created next)
    let after := s.advanceJob number skipped created called next
    after.pool = s.pool ∧ after.nextJob = s.nextJob ∧
      ((∃ timer, next.phase = .waiting timer ∧ after.tasks = started.tasks ∧
          after.jobs = s.jobs.insert number (.started next)) ∨
        (∀ timer, next.phase ≠ .waiting timer) ∧ after.tasks = (started.cancelTasks number).tasks ∧
          after.jobs = s.jobs.erase number) := by
  intro started after
  have hcounted := countSkipped_frame (next.skipped.length - skipped) s
  have hreported (mid : EngineState) :
      ((next.calls.drop called).foldl EngineState.report mid).frame = mid.frame :=
    foldl_keeps frame EngineState.report report_frame _ mid
  simp only [frame, Prod.mk.injEq] at hcounted
  obtain ⟨hpool, hjobs, hnext, htasks⟩ := hcounted
  let counted := (fun s ↦ countReason s "skipped_unreachable")^[next.skipped.length - skipped] s
  have hstarted : (counted.startTasks number next.infoHash (newTasks created next)).tasks =
      started.tasks := by
    change List.foldl _ counted.tasks _ = List.foldl _ s.tasks _
    rw [htasks]
  have hmid := hreported (counted.startTasks number next.infoHash (newTasks created next))
  simp only [frame, Prod.mk.injEq] at hmid
  obtain ⟨hmidPool, hmidJobs, hmidNext, hmidTasks⟩ := hmid
  change _ = counted.jobs at hmidJobs
  refine ⟨?_, ?_, ?_⟩ <;> dsimp only [after] <;> unfold EngineState.advanceJob <;> dsimp only
  · split <;> exact hmidPool.trans hpool
  · split <;> exact hmidNext.trans hnext
  · split
    next timer hphase =>
      refine .inl ⟨timer, hphase, hmidTasks.trans hstarted, ?_⟩
      exact congrArg (OrderedMap.insert · number _) (hmidJobs.trans hjobs)
    next hover =>
      refine .inr ⟨hover, ?_, congrArg (OrderedMap.erase · number) (hmidJobs.trans hjobs)⟩
      exact congrArg (fun tasks ↦ OrderedMap.mapValues tasks fun (key : TaskKey) attempt ↦
        if key.1 = number then { attempt with cancelled := true } else attempt)
        (hmidTasks.trans hstarted)

end EngineState

/-- The tasks that a job waits for. -/
def JobTask.running : JobTask → OrderedMap ℕ Address
  | created .. => .empty
  | started job => job.running

/-- What is left to do for a job and the attempts it will still create is at most this. -/
def JobTask.left : JobTask → ℕ
  | created _ peers => 14 * peers.length + 7
  | started job => 7 * job.remaining

namespace EngineState

variable {digest : Bytes → Bytes} {config : EngineConfig} {limits : CatalogLimits}
  {s s' mid : EngineState} {key : TaskKey} {attempt : Attempt} {number : ℕ} {task : JobTask}
  {created : ℕ} {next : FetchJob}

/-- The tasks of a job are those it waits for, and none of them is cancelled. -/
structure Linked (s : EngineState) : Prop where
  old : ∀ key attempt, s.tasks.get? key = some attempt → key.1 < s.nextJob
  linked : ∀ number job, s.jobs.get? number = some job → ∀ task,
    s.link (number, task) = (job.running.get? task).map (·, false)

/-- The steps that the jobs and the attempts can still make are at most this many. -/
def work (s : EngineState) : ℕ := (s.jobs.values.map JobTask.left).sum + s.held AttemptStage.left

/-- A piece of a job: in `mid` the tasks it collected are gone. -/
structure Advances (s mid : EngineState) (number : ℕ) (task : JobTask) (created : ℕ)
    (next : FetchJob) : Prop where
  get : s.jobs.get? number = some task
  pool : mid.pool = s.pool
  jobs : mid.jobs = s.jobs
  nextJob : mid.nextJob = s.nextJob
  tasks : ∀ key attempt, mid.tasks.get? key = some attempt → s.tasks.get? key = some attempt
  others : ∀ key, key.1 ≠ number → mid.tasks.get? key = s.tasks.get? key
  held : ∀ f : AttemptStage → ℕ, (∀ outcome, f (.ended outcome) = 0) → mid.held f = s.held f
  left : mid.held AttemptStage.left ≤ s.held AttemptStage.left
  fresh : ∀ t, created ≤ t → mid.tasks.get? (number, t) = none
  kept : ∀ t < created, mid.link (number, t) = (next.running.get? t).map (·, false)
  few : ∀ t, created ≤ t → (next.running.get? t).isSome → t = created
  work : 7 ≤ task.left ∧ ∀ timer, next.phase = .waiting timer → 7 * next.remaining + 7 ≤ task.left

theorem cancelTasks_others (s : EngineState) (hkey : key.1 ≠ number) :
    (s.cancelTasks number).tasks.get? key = s.tasks.get? key := by
  refine (OrderedMap.get?_mapValues _ _ _).trans ?_
  simp only [if_neg hkey, Option.map_id']

namespace Advances

theorem length_newTasks (h : Advances s mid number task created next) :
    (newTasks created next).length ≤ 1 := by
  let new := next.running.filterKeys fun t ↦ created ≤ t
  have hsame : new.keys = List.replicate new.keys.length created := by
    refine List.eq_replicate_iff.mpr ⟨rfl, fun t ht ↦ ?_⟩
    have hsome := OrderedMap.get?_isSome_iff.mpr ht
    rw [OrderedMap.get?_filterKeys] at hsome
    split at hsome
    next hle => exact h.few t (of_decide_eq_true hle) hsome
    next => cases hsome
  have hnodup : new.keys.Nodup := new.nodup
  rw [hsame, List.nodup_replicate] at hnodup
  rwa [OrderedMap.keys, List.length_map] at hnodup

/-- After the new tasks were created the job has just the tasks it waits for. -/
theorem started (h : Advances s mid number task created next) :
    let started := mid.startTasks number next.infoHash (newTasks created next)
    (∀ key, key.1 ≠ number → started.tasks.get? key = s.tasks.get? key) ∧
      (∀ t, started.link (number, t) = (next.running.get? t).map (·, false)) ∧
      ∀ f, started.held f = mid.held f + (newTasks created next).length * f .created := by
  let new := next.running.filterKeys fun t ↦ created ≤ t
  have hnew (t : ℕ) : (newTasks created next).lookup t =
      if created ≤ t then next.running.get? t else none := by
    change new.get? t = _
    rw [OrderedMap.get?_filterKeys]
    simp only [decide_eq_true_eq]
  obtain ⟨hothers, hlink, hheld⟩ := startTasks_spec number next.infoHash (newTasks created next)
    (s := mid) new.nodup fun t ht ↦ by
      have hsome := OrderedMap.get?_isSome_iff.mpr (show t ∈ new.keys from ht)
      rw [OrderedMap.get?_filterKeys] at hsome
      split at hsome
      next hle => exact h.fresh t (of_decide_eq_true hle)
      next => cases hsome
  refine ⟨fun key hkey ↦ (hothers key hkey).trans (h.others key hkey), fun t ↦ ?_, hheld⟩
  rw [hlink, hnew]
  by_cases hle : created ≤ t
  · have hnone : mid.link (number, t) = none := by
      rw [link, h.fresh t hle]
      rfl
    rw [if_pos hle, hnone, Option.or_none]
  · rw [if_neg hle]
    exact h.kept t (Nat.not_le.mp hle)

theorem linked (h : Advances s mid number task created next) (hlinked : Linked s)
    (hnumber : number < s.nextJob) (skipped called : ℕ) :
    Linked (mid.advanceJob number skipped created called next) := by
  obtain ⟨hothers, hlink, -⟩ := h.started
  obtain ⟨-, hnext, hcases⟩ := mid.advanceJob_spec number skipped created called next
  revert hnext hcases
  generalize mid.advanceJob number skipped created called next = after
  intro hnext hcases
  have hbeside : ∀ key, key.1 ≠ number → after.tasks.get? key = s.tasks.get? key := by
    intro key hkey
    rcases hcases with ⟨timer, -, htasks, -⟩ | ⟨-, htasks, -⟩
    · rw [htasks, hothers key hkey]
    · rw [htasks, cancelTasks_others _ hkey, hothers key hkey]
  have hjobs : ∀ other, other ≠ number → after.jobs.get? other = s.jobs.get? other := by
    intro other hother
    rcases hcases with ⟨timer, -, -, hjobs⟩ | ⟨-, -, hjobs⟩
    · rw [hjobs, h.jobs, OrderedMap.get?_insert, if_neg hother]
    · rw [hjobs, h.jobs, OrderedMap.get?_erase, if_neg hother]
  constructor
  case old =>
    intro key attempt hget
    rw [hnext, h.nextJob]
    by_cases hkey : key.1 = number
    · exact hkey ▸ hnumber
    · exact hlinked.old key attempt ((hbeside key hkey).symm.trans hget)
  case linked =>
    intro other job hget t
    by_cases hother : other = number
    · rcases hcases with ⟨timer, -, htasks, hjobs⟩ | ⟨-, -, hjobs⟩
      · rw [hjobs, hother, OrderedMap.get?_insert, if_pos rfl] at hget
        obtain rfl := Option.some.inj hget
        rw [hother, link, htasks]
        exact hlink t
      · rw [hjobs, hother, OrderedMap.get?_erase, if_pos rfl] at hget
        cases hget
    · rw [link, hbeside (other, t) hother]
      exact hlinked.linked other job ((hjobs other hother).symm.trans hget) t

theorem pooled (h : Advances s mid number task created next) (hpooled : Pooled config s)
    (skipped called : ℕ) : Pooled config (mid.advanceJob number skipped created called next) := by
  obtain ⟨-, -, hheld⟩ := h.started
  obtain ⟨hpool, -, hcases⟩ := mid.advanceJob_spec number skipped created called next
  refine hpooled.of_pool (hpool.trans h.pool) fun f hcreated hended ↦ ?_
  have hsame := hheld f
  rw [hcreated, Nat.mul_zero, Nat.add_zero, h.held f hended] at hsame
  rcases hcases with ⟨timer, -, htasks, -⟩ | ⟨-, htasks, -⟩
  · rw [EngineState.held, htasks]
    exact hsame
  · rw [EngineState.held, htasks]
    exact (held_cancelTasks _ number f).trans hsame

/-- A piece of a job brings the end nearer. -/
theorem work_lt (h : Advances s mid number task created next) (skipped called : ℕ) :
    (mid.advanceJob number skipped created called next).work < s.work := by
  obtain ⟨-, -, hheld⟩ := h.started
  obtain ⟨-, -, hcases⟩ := mid.advanceJob_spec number skipped created called next
  have hfew := h.length_newTasks
  have hnew : (mid.startTasks number next.infoHash (newTasks created next)).held AttemptStage.left =
      mid.held AttemptStage.left + (newTasks created next).length * 6 := hheld AttemptStage.left
  have hleft := h.left
  obtain ⟨hmin, hwork⟩ := h.work
  have hsum := s.jobs.sum_values_erase JobTask.left h.get
  rw [EngineState.work, EngineState.work, hsum]
  rcases hcases with ⟨timer, hphase, htasks, hjobs⟩ | ⟨-, htasks, hjobs⟩
  · have hbound := hwork timer hphase
    have hafter : (mid.advanceJob number skipped created called next).held AttemptStage.left =
        mid.held AttemptStage.left + (newTasks created next).length * 6 := by
      rw [EngineState.held, htasks]
      exact hnew
    rw [hafter, hjobs, h.jobs, OrderedMap.sum_values_insert]
    change 7 * next.remaining + _ + _ < _
    omega
  · have hafter : (mid.advanceJob number skipped created called next).held AttemptStage.left =
        mid.held AttemptStage.left + (newTasks created next).length * 6 := by
      rw [EngineState.held, htasks]
      exact (held_cancelTasks _ number _).trans hnew
    rw [hafter, hjobs, h.jobs]
    omega

end Advances

/-! ### The steps of a job -/

section Jobs

variable {infoHash : Bytes} {peers : List Address} {job : FetchJob} {done : List ℕ}

theorem Linked.absent (h : Linked s) (hget : s.jobs.get? number = some task) {t : ℕ}
    (hnone : task.running.get? t = none) : s.tasks.get? (number, t) = none := by
  have hlink := h.linked number task hget t
  rw [hnone] at hlink
  exact Option.map_eq_none_iff.mp hlink

/-- The tasks that a job waits for have numbers it gave out. -/
theorem Linked.fresh (h : Linked s) (hget : s.jobs.get? number = some (.started job))
    {engine : FetchEngine} (hreached : FetchJob.Reached engine infoHash peers job) {t : ℕ}
    (hle : job.created ≤ t) : s.tasks.get? (number, t) = none := by
  refine h.absent hget (OrderedMap.get?_eq_none_iff.mpr fun hmem ↦ ?_)
  exact absurd (hreached.tracked.fresh t hmem) (Nat.not_lt.mpr hle)

theorem advances_startJob (hcustody : Custody (Authentic digest) config limits s) (hlinked : Linked s)
    (hget : s.jobs.get? number = some (.created infoHash peers)) (known : Address → Bool)
    (now pauseUntil : ℚ) :
    Advances s s number (.created infoHash peers) 0
      (FetchJob.runJob config.toFetchEngine infoHash peers known now pauseUntil) := by
  obtain ⟨hlength, hpeers⟩ := hcustody.live number _ hget
  obtain ⟨-, hfew⟩ := FetchJob.reached_runJob config.toFetchEngine hlength hpeers known now pauseUntil
  constructor
  case get => exact hget
  case fresh => exact fun t _ ↦ hlinked.absent hget rfl
  case kept => exact fun t hlt ↦ absurd hlt (Nat.not_lt_zero t)
  case few =>
    intro t hle hsome
    unfold FetchJob.runJob at hsome
    generalize hjob : FetchJob.atStart infoHash peers pauseUntil = job at hsome
    have hbelow : ∀ t ∈ job.running.keys, t < job.created := fun t hmem ↦ by
      rw [← hjob] at hmem
      exact absurd hmem List.not_mem_nil
    have hcreated : job.created = 0 := hjob ▸ rfl
    have hnew := (FetchJob.loop_starts config.toFetchEngine known now peers.reverse hbelow).2 t
    rw [hcreated] at hnew
    exact hnew hle hsome
  case work =>
    refine ⟨Nat.le_add_left 7 _, fun timer hphase ↦ ?_⟩
    have hle := hfew timer hphase
    change 7 * _ + 7 ≤ 14 * peers.length + 7
    omega
  case tasks => exact fun _ _ hfound ↦ hfound
  case left => exact le_rfl
  case pool => rfl
  case jobs => rfl
  case nextJob => rfl
  all_goals exact fun _ _ ↦ rfl

/-- The tasks that a wait returns have ended. -/
theorem outcomes_spec {outcomes : List (ℕ × AttemptOutcome)}
    (h : s.outcomes number done = some outcomes) :
    outcomes.map Prod.fst = done ∧ ∀ t ∈ done, ∃ attempt outcome,
      s.tasks.get? (number, t) = some attempt ∧ attempt.stage = .ended outcome := by
  have hall := forall₂_of_mapM h
  constructor
  · refine Eq.symm (List.forall₂_eq_eq_eq ▸ List.forall₂_map_right_iff.mpr (hall.imp ?_))
    exact fun t item hitem ↦ (outcome_eq_some.mp hitem).1.symm
  · intro t ht
    obtain ⟨item, -, hitem⟩ := exists_of_forall₂ hall ht
    obtain ⟨-, attempt, hget, hstage, -⟩ := outcome_eq_some.mp hitem
    exact ⟨attempt, item.2, hget, hstage⟩

theorem advances_wakeJob (hcustody : Custody (Authentic digest) config limits s) (hlinked : Linked s)
    (hget : s.jobs.get? number = some (.started job)) {outcomes : List (ℕ × AttemptOutcome)}
    (houtcomes : s.outcomes number done = some outcomes) {known : Address → Bool} {now : ℚ}
    (hnext : (jobMachine config.toFetchEngine).step job (.wake outcomes known now) = some next)
    (pauseUntil : ℚ) :
    Advances s ({ s with pauseUntil := pauseUntil }.dropTasks number done) number (.started job)
      job.created next := by
  obtain ⟨hlength, peers, timer, hreached, hphase⟩ := hcustody.live number _ hget
  obtain ⟨-, ⟨-, -, hpositive⟩, hless⟩ := FetchJob.reached_step hlength hreached hnext
  obtain ⟨hdone, hended⟩ := outcomes_spec houtcomes
  obtain ⟨-, hcollected⟩ : job.canReturn timer outcomes ∧
      next = FetchJob.loop config.toFetchEngine known now job.waiting
        (outcomes.foldl (FetchJob.collect config.toFetchEngine now) job) := by
    simp only [jobMachine, hphase] at hnext
    split at hnext
    next hreturn => exact ⟨hreturn, (Option.some.inj hnext).symm⟩
    next => cases hnext
  obtain ⟨hrunning, hcreated⟩ :=
    FetchJob.collectEach_running config.toFetchEngine now outcomes job
  rw [hdone] at hrunning
  have hbelow : ∀ t ∈ (outcomes.foldl (FetchJob.collect config.toFetchEngine now) job).running.keys,
      t < (outcomes.foldl (FetchJob.collect config.toFetchEngine now) job).created := by
    intro t ht
    have hsome := OrderedMap.get?_isSome_iff.mpr ht
    rw [hrunning] at hsome
    split at hsome
    · cases hsome
    · exact hcreated ▸ hreached.tracked.fresh t (OrderedMap.get?_isSome_iff.mp hsome)
  obtain ⟨hold, hnew⟩ := FetchJob.loop_starts config.toFetchEngine known now job.waiting hbelow
  rw [← hcollected, hcreated] at hold hnew
  have hdrop (key : TaskKey) : ({ s with pauseUntil := pauseUntil }.dropTasks number done).tasks.get?
      key = if key.1 ≠ number ∨ key.2 ∉ done then s.tasks.get? key else none := by
    refine (OrderedMap.get?_filterKeys _ _ _).trans ?_
    simp only [decide_eq_true_eq]
  have hsub (key : TaskKey) (attempt : Attempt)
      (hfound : ({ s with pauseUntil := pauseUntil }.dropTasks number done).tasks.get? key =
        some attempt) : s.tasks.get? key = some attempt := by
    rw [hdrop] at hfound
    split at hfound
    · exact hfound
    · cases hfound
  constructor
  case get => exact hget
  case pool => rfl
  case jobs => rfl
  case nextJob => rfl
  case tasks => exact hsub
  case others => exact fun key hkey ↦ (hdrop key).trans (if_pos (.inl hkey))
  case held =>
    refine fun f hzero ↦ OrderedMap.sum_values_filterKeys s.tasks fun key attempt hfound hout ↦ ?_
    have hin := of_decide_eq_false hout
    push Not at hin
    obtain ⟨found, outcome, hkey, hstage⟩ := hended key.2 hin.2
    rw [← hin.1, hfound] at hkey
    rw [Option.some.inj hkey, hstage]
    exact hzero outcome
  case left => exact OrderedMap.sum_values_filterKeys_le s.tasks _ _
  case fresh =>
    intro t hle
    refine Option.eq_none_iff_forall_ne_some.mpr fun attempt hfound ↦ ?_
    have hnone := hlinked.fresh hget hreached hle
    rw [hsub (number, t) attempt hfound] at hnone
    cases hnone
  case kept =>
    intro t hlt
    rw [hold t hlt, hrunning, link, hdrop]
    have hlink := hlinked.linked number _ hget t
    by_cases hmem : t ∈ done
    · rw [if_pos hmem, if_neg fun hout ↦ hout.elim (· rfl) (· hmem)]
      rfl
    · rw [if_neg hmem, if_pos (.inr hmem)]
      exact hlink
  case few => exact hnew
  case work =>
    change 7 ≤ 7 * job.remaining ∧ ∀ timer, next.phase = .waiting timer →
      7 * next.remaining + 7 ≤ 7 * job.remaining
    refine ⟨by omega, fun other hother ↦ ?_⟩
    have hlt := hless other hother
    omega

theorem advances_cancelJob (hcustody : Custody (Authentic digest) config limits s) (hlinked : Linked s)
    (hget : s.jobs.get? number = some (.started job))
    (hnext : (jobMachine config.toFetchEngine).step job .cancel = some next) :
    Advances s s number (.started job) job.created next := by
  obtain ⟨hlength, peers, timer, hreached, hphase⟩ := hcustody.live number _ hget
  obtain ⟨-, ⟨-, -, hpositive⟩, hless⟩ := FetchJob.reached_step hlength hreached hnext
  have hcancel : next = job.cancel := by
    simp only [jobMachine, hphase, Option.some.injEq] at hnext
    exact hnext.symm
  have hrunning : next.running = job.running := hcancel ▸ rfl
  constructor
  case get => exact hget
  case fresh => exact fun t hle ↦ hlinked.fresh hget hreached hle
  case kept =>
    intro t _
    rw [hrunning]
    exact hlinked.linked number _ hget t
  case few =>
    intro t hle hsome
    rw [hrunning] at hsome
    have hlt := hreached.tracked.fresh t (OrderedMap.get?_isSome_iff.mp hsome)
    exact absurd hlt (Nat.not_lt.mpr hle)
  case work =>
    change 7 ≤ 7 * job.remaining ∧ ∀ timer, next.phase = .waiting timer →
      7 * next.remaining + 7 ≤ 7 * job.remaining
    refine ⟨by omega, fun other hother ↦ ?_⟩
    have hlt := hless other hother
    omega
  case tasks => exact fun _ _ hfound ↦ hfound
  case left => exact le_rfl
  case pool => rfl
  case jobs => rfl
  case nextJob => rfl
  all_goals exact fun _ _ ↦ rfl

end Jobs

end EngineState

/-! ## Every step -/

/-- A step of a job or of an attempt. -/
def EngineStep.ofTask : EngineStep → Bool
  | schedule .. | others .. | stop => false
  | _ => true

/-- A step that claims candidates. -/
def EngineStep.claims : EngineStep → Bool
  | schedule .. => true
  | _ => false

namespace EngineState

variable {digest : Bytes → Bytes} {config : EngineConfig} {limits : CatalogLimits}
  {s s' : EngineState} {key : TaskKey} {attempt : Attempt} {number : ℕ} {stage : AttemptStage}

theorem Linked.moves (h : Linked s) (hget : s.tasks.get? key = some attempt)
    (hmoves : Moves s s' key attempt stage) : Linked s' ∧ s'.work < s.work := by
  have hheld := held_insert hget hmoves.tasks AttemptStage.left
  have hleft := hmoves.left
  obtain ⟨hdesk, htasks⟩ := hmoves
  simp only [desk, Prod.mk.injEq] at hdesk
  obtain ⟨-, hjobs, hnext, -⟩ := hdesk
  have hlink (other : TaskKey) : s'.link other = s.link other := by
    rw [link, link, htasks, OrderedMap.get?_insert]
    split
    next heq => rw [heq, hget]; rfl
    next => rfl
  refine ⟨⟨fun other found hfound ↦ ?_, fun number job hjob t ↦ ?_⟩, ?_⟩
  · rw [hnext]
    rw [htasks, OrderedMap.get?_insert] at hfound
    split at hfound
    next heq => exact heq ▸ h.old key attempt hget
    next => exact h.old other found hfound
  · rw [hlink]
    exact h.linked number job (hjobs ▸ hjob) t
  · dsimp only at hheld
    rw [work, work, hjobs]
    omega

/-- A task that was cancelled belongs to no job any more. -/
theorem Linked.unwind (h : Linked s) (hget : s.tasks.get? key = some attempt)
    (hcancelled : attempt.cancelled = true) :
    Linked (s.unwind key attempt) ∧ (s.unwind key attempt).work < s.work := by
  obtain ⟨hjobs, hnext, htasks⟩ : (s.unwind key attempt).jobs = s.jobs ∧
      (s.unwind key attempt).nextJob = s.nextJob ∧
      (s.unwind key attempt).tasks = s.tasks.erase key := by
    unfold EngineState.unwind
    dsimp only
    split <;> exact ⟨rfl, rfl, rfl⟩
  have hheld := held_erase hget htasks AttemptStage.left
  have hpos := attempt.stage.left_pos
  refine ⟨⟨fun other found hfound ↦ ?_, fun number job hjob t ↦ ?_⟩, ?_⟩
  · rw [htasks] at hfound
    rw [hnext]
    exact h.old other found (OrderedMap.get?_of_erase hfound)
  · rw [hjobs] at hjob
    have hlink := h.linked number job hjob t
    rw [link, htasks, OrderedMap.get?_erase, if_neg]
    · exact hlink
    · intro heq
      rw [link, heq, hget] at hlink
      obtain ⟨peer, -, hpeer⟩ := Option.map_eq_some_iff.mp hlink.symm
      cases hcancelled.symm.trans (congrArg Prod.snd hpeer).symm
  · rw [work, work, hjobs]
    omega

theorem createJobs_nextJob (claimed : List (Bytes × List Address)) : ∀ s : EngineState,
    s.nextJob ≤ (claimed.foldl createJob s).nextJob := by
  induction claimed with
  | nil => exact fun s ↦ le_rfl
  | cons first rest ih => exact fun s ↦ (Nat.le_succ _).trans (ih (s.createJob first))

theorem schedule_linked (hcustody : Custody (Authentic digest) config limits s) (hlinked : Linked s)
    (hpooled : Pooled config s) (loopTime : ℚ) :
    Linked (s.schedule config loopTime) ∧ Pooled config (s.schedule config loopTime) := by
  unfold EngineState.schedule
  dsimp only
  split
  next =>
    generalize ((config.maxConnections : ℤ) - s.active - s.waiting).toNat = free
    generalize (s.session.catalog.settle.nextFetchCandidates free).2 = claimed
    split
    next =>
      exact ⟨⟨hlinked.old, hlinked.linked⟩, hpooled.of_pool rfl fun f _ _ ↦ rfl⟩
    next =>
      have hfresh : ∀ number, ((s.callCatalog (.nextFetchCandidates free)).jobs.get? number).isSome →
          number < (s.callCatalog (.nextFetchCandidates free)).nextJob := hcustody.fresh
      have hgrows := createJobs_nextJob claimed (s.callCatalog (.nextFetchCandidates free))
      obtain ⟨jobs, nextJob, hfold, -, -, -, hadds⟩ := Custody.createJobs claimed hfresh
      rw [hfold] at hgrows ⊢
      refine ⟨⟨fun key attempt hget ↦ ?_, fun number job hjob t ↦ ?_⟩,
        hpooled.of_pool rfl fun f _ _ ↦ rfl⟩
      · exact lt_of_lt_of_le (hlinked.old key attempt hget) hgrows
      · rcases hadds number job hjob with hold | ⟨hnumber, candidate, -, rfl⟩
        · exact hlinked.linked number job hold t
        · -- the number is new, so it has no tasks
          refine Option.map_eq_none_iff.mpr (Option.eq_none_iff_forall_ne_some.mpr ?_)
          exact fun attempt hget ↦ absurd (hlinked.old _ attempt hget) (Nat.not_lt.mpr hnumber)
  next => exact ⟨hlinked, hpooled⟩

theorem cancelJob_linked (hcustody : Custody (Authentic digest) config limits s) (hlinked : Linked s)
    (hpooled : Pooled config s) (hstep : EngineState.cancelJob config s number = some s') :
    (Linked s' ∧ Pooled config s') ∧ s'.work < s.work := by
  unfold EngineState.cancelJob at hstep
  split at hstep
  next =>
    split at hstep
    next infoHash peers hget =>
      obtain rfl := Option.some.inj hstep
      refine ⟨⟨⟨hlinked.old, fun other job hjob ↦ ?_⟩, hpooled.of_pool rfl fun f _ _ ↦ rfl⟩, ?_⟩
      · exact hlinked.linked other job (OrderedMap.get?_of_erase hjob)
      · have hsum := s.jobs.sum_values_erase JobTask.left hget
        have hleft : (JobTask.created infoHash peers).left = 14 * peers.length + 7 := rfl
        rw [work, work, hsum, hleft]
        change ((s.jobs.erase number).values.map JobTask.left).sum + s.held AttemptStage.left < _
        omega
    next job hget =>
      obtain ⟨next, hnext, rfl⟩ := Option.map_eq_some_iff.mp hstep
      have hadvances := advances_cancelJob hcustody hlinked hget hnext
      have hnumber := hcustody.fresh number (Option.isSome_iff_exists.mpr ⟨_, hget⟩)
      exact ⟨⟨hadvances.linked hlinked hnumber _ _, hadvances.pooled hpooled _ _⟩,
        hadvances.work_lt _ _⟩
    next => cases hstep
  next => cases hstep

/-- Every step keeps the links and the pools, and the tasks come nearer to their end. -/
theorem step_linked (hcustody : Custody (Authentic digest) config limits s) (hlinked : Linked s)
    (hpooled : Pooled config s) {label : EngineStep}
    (hstep : (engineMachine digest config).step s label = some s') :
    (Linked s' ∧ Pooled config s') ∧
      (label.claims = false → s'.work + (if label.ofTask then 1 else 0) ≤ s.work) := by
  have hmoves {key : TaskKey} {attempt : Attempt} {stage : AttemptStage}
      (hget : s.tasks.get? key = some attempt) (hmoves : Moves s s' key attempt stage) :
      (Linked s' ∧ Pooled config s') ∧ s'.work < s.work := by
    obtain ⟨hnext, hless⟩ := hlinked.moves hget hmoves
    exact ⟨⟨hnext, hpooled.moves hget hmoves⟩, hless⟩
  cases label with
  | schedule loopTime =>
    simp only [engineMachine, EngineState.step] at hstep
    split at hstep
    · cases hstep
    · refine ⟨Option.some.inj hstep ▸ schedule_linked hcustody hlinked hpooled loopTime, ?_⟩
      simp [EngineStep.claims]
  | startJob number clock now =>
    simp only [engineMachine, EngineState.step, EngineState.startJob] at hstep
    split at hstep
    next infoHash peers hget =>
      obtain rfl := Option.some.inj hstep
      have hadvances := advances_startJob hcustody hlinked hget
        (fun peer ↦ s.isKnownUnreachable peer (clock peer)) now s.pauseUntil
      have hnumber := hcustody.fresh number (Option.isSome_iff_exists.mpr ⟨_, hget⟩)
      exact ⟨⟨hadvances.linked hlinked hnumber _ _, hadvances.pooled hpooled _ _⟩,
        fun _ ↦ hadvances.work_lt _ _⟩
    next => cases hstep
  | wakeJob number done clock loopTime now =>
    simp only [engineMachine, EngineState.step, EngineState.wakeJob] at hstep
    split at hstep
    next job hget =>
      obtain ⟨outcomes, houtcomes, hstep⟩ := Option.bind_eq_some_iff.mp hstep
      obtain ⟨next, hnext, hstep⟩ := Option.bind_eq_some_iff.mp hstep
      obtain rfl := Option.some.inj hstep
      have hadvances := advances_wakeJob hcustody hlinked hget houtcomes hnext
        (pausedBy config s outcomes loopTime)
      have hnumber := hcustody.fresh number (Option.isSome_iff_exists.mpr ⟨_, hget⟩)
      exact ⟨⟨hadvances.linked hlinked hnumber _ _, hadvances.pooled hpooled _ _⟩,
        fun _ ↦ hadvances.work_lt _ _⟩
    next => cases hstep
  | cancelJob number =>
    obtain ⟨hkept, hless⟩ := cancelJob_linked hcustody hlinked hpooled hstep
    exact ⟨hkept, fun _ ↦ hless⟩
  | startAttempt key =>
    obtain ⟨attempt, hget, -, hpiece⟩ := onAttempt_eq_some.mp hstep
    split at hpiece
    next hstage =>
      obtain rfl := Option.some.inj hpiece
      obtain ⟨hkept, hless⟩ := hmoves hget (moves_startAttempt hpooled hstage)
      exact ⟨hkept, fun _ ↦ hless⟩
    next => cases hpiece
  | acquireSlot key =>
    obtain ⟨attempt, hget, -, hpiece⟩ := onAttempt_eq_some.mp hstep
    split at hpiece
    next hstage =>
      split at hpiece
      next hfree =>
        obtain rfl := Option.some.inj hpiece
        obtain ⟨hkept, hless⟩ := hmoves hget (moves_acquireSlot hpooled hget hstage hfree)
        exact ⟨hkept, fun _ ↦ hless⟩
      next => cases hpiece
    next => cases hpiece
  | fetchEnds key result loopTime now =>
    obtain ⟨attempt, hget, -, hpiece⟩ := onAttempt_eq_some.mp hstep
    obtain ⟨stage, hstage⟩ := moves_fetchEnds hpooled hget hpiece
    obtain ⟨hkept, hless⟩ := hmoves hget hstage
    exact ⟨hkept, fun _ ↦ hless⟩
  | unwind key =>
    simp only [engineMachine, EngineState.step] at hstep
    split at hstep
    next attempt hget =>
      split at hstep
      next hcancelled =>
        obtain rfl := Option.some.inj hstep
        obtain ⟨hkept, hless⟩ := hlinked.unwind hget hcancelled
        exact ⟨⟨hkept, hpooled.unwind hget⟩, fun _ ↦ hless⟩
      next => cases hstep
    next => cases hstep
  | others op =>
    obtain rfl := Option.some.inj hstep
    exact ⟨⟨⟨hlinked.old, hlinked.linked⟩, hpooled.of_pool rfl fun f _ _ ↦ rfl⟩, fun _ ↦ le_rfl⟩
  | stop =>
    obtain rfl := Option.some.inj hstep
    exact ⟨⟨⟨hlinked.old, hlinked.linked⟩, hpooled.of_pool rfl fun f _ _ ↦ rfl⟩, fun _ ↦ le_rfl⟩

/-- The claims, the links and the pools of an engine that runs. -/
structure Scheduled (digest : Bytes → Bytes) (config : EngineConfig) (limits : CatalogLimits)
    (s : EngineState) : Prop where
  custody : Custody (Authentic digest) config limits s
  linked : Linked s
  pooled : Pooled config s

theorem Scheduled.step (h : Scheduled digest config limits s) {label : EngineStep}
    (hstep : (engineMachine digest config).step s label = some s') :
    Scheduled digest config limits s' := by
  obtain ⟨⟨hlinked, hpooled⟩, -⟩ := step_linked h.custody h.linked h.pooled hstep
  exact ⟨h.custody.step_authentic hstep, hlinked, hpooled⟩

theorem run_scheduled {ops : List CatalogOp} {session : Session} {steps : List EngineStep}
    (hsession : catalogMachine.Leads Permitted (.new limits) ops session)
    (hidle : session.fetchClaims = ∅)
    (hrun : (engineMachine digest config).run (new config session) steps = some s) :
    Scheduled digest config limits s := by
  refine (engineMachine digest config).run_invariant (fun _ _ _ h hstep ↦ h.step hstep) ?_ hrun
  refine ⟨custody_new hsession hidle, ⟨fun key attempt hget ↦ ?_, fun number job hget ↦ ?_⟩, ?_⟩
  · cases hget
  · cases hget
  · exact ⟨rfl, rfl, rfl, rfl, ⟨le_rfl, Nat.zero_le _⟩⟩

/-- The connection slots and the uTP slots are given back on every way an attempt can end, also by an
error or a cancellation: the semaphores and the counters agree with the attempts that hold slots, so
there are never too many connections; and a job has as many attempts at once as it may have, which
are the attempts it waits for. -/
theorem slots_conserved {ops : List CatalogOp} {session : Session} {steps : List EngineStep}
    (hsession : catalogMachine.Leads Permitted (.new limits) ops session)
    (hidle : session.fetchClaims = ∅)
    (hrun : (engineMachine digest config).run (new config session) steps = some s) :
    (s.slots + s.active = config.maxConnections ∧ s.active = s.held AttemptStage.slot ∧
        s.waiting = s.held AttemptStage.queue ∧
        s.utpSlots + s.held AttemptStage.utpSlot = utpMaxConnections ∧
        s.active ≤ s.maxActive ∧ s.maxActive ≤ config.maxConnections) ∧
      (∀ number job, s.jobs.get? number = some (.started job) →
        job.running.size ≤ config.peerParallelism ∧
        ∀ task, s.link (number, task) = (job.running.get? task).map (·, false)) ∧
      ∀ key attempt, s.tasks.get? key = some attempt → attempt.cancelled = false →
        ∃ job, s.jobs.get? key.1 = some (.started job) ∧
          job.running.get? key.2 = some attempt.peer := by
  obtain ⟨hcustody, hlinked, hpooled⟩ := run_scheduled hsession hidle hrun
  refine ⟨⟨hpooled.slots, hpooled.active, hpooled.waiting, hpooled.utpSlots, hpooled.peak⟩,
    fun number job hget ↦ ?_, fun key attempt hget hlive ↦ ?_⟩
  · obtain ⟨-, peers, timer, hreached, -⟩ := hcustody.live number _ hget
    exact ⟨hreached.tracked.parallel, hlinked.linked number _ hget⟩
  · obtain ⟨job, hjob, -⟩ := hcustody.owner key attempt hget hlive
    refine ⟨job, hjob, ?_⟩
    have hlink := hlinked.linked key.1 _ hjob key.2
    rw [link, hget] at hlink
    obtain ⟨peer, hpeer, heq⟩ := Option.map_eq_some_iff.mp hlink.symm
    exact hpeer.trans (congrArg some (Prod.mk.inj heq).1)

/-- The attempt holds one of the slots while it fetches. -/
theorem slots_conserved_sample :
    ∃ s, (engineMachine (fun _ ↦ sampleHash 1) {}).run (new {} announcedSession)
        (sampleSteps.take 4) = some s ∧ s.held AttemptStage.slot = 1 ∧ s.slots + 1 = 256 := by
  have heval : ((engineMachine (fun _ ↦ sampleHash 1) {}).run (new {} announcedSession)
      (sampleSteps.take 4)).any fun s ↦ s.active = 1 := by
    decide +kernel
  rw [Option.any_eq_true] at heval
  obtain ⟨s, hrun, hone⟩ := heval
  have hactive : s.active = 1 := of_decide_eq_true hone
  obtain ⟨⟨hslots, hheld, -⟩, -⟩ := slots_conserved announced_leads rfl hrun
  exact ⟨s, hrun, hheld.symm.trans hactive, hactive ▸ hslots⟩

/-! ## The end -/

/-- Some step of a task is possible. -/
def Busy (digest : Bytes → Bytes) (config : EngineConfig) (s : EngineState) : Prop :=
  ∃ label : EngineStep, label.ofTask ∧ ((engineMachine digest config).step s label).isSome

/-- A task that was cancelled unwinds. -/
theorem busy_of_cancelled (hget : s.tasks.get? key = some attempt)
    (hcancelled : attempt.cancelled = true) : Busy digest config s :=
  ⟨.unwind key, rfl, by simp [engineMachine, EngineState.step, hget, hcancelled]⟩

/-- A fetch function ends. -/
theorem busy_of_fetching (hget : s.tasks.get? key = some attempt)
    (hstage : attempt.stage.slot ≠ 0 ∨ attempt.stage.utpSlot ≠ 0) : Busy digest config s := by
  cases hcancelled : attempt.cancelled with
  | true => exact busy_of_cancelled hget hcancelled
  | false =>
    refine ⟨.fetchEnds key .unexpected 0 0, rfl, ?_⟩
    simp only [engineMachine, EngineState.step, EngineState.onAttempt, hget, hcancelled]
    cases hat : attempt.stage <;> rw [hat] at hstage <;>
      simp [EngineState.fetchEnds, hat, AttemptStage.slot, AttemptStage.utpSlot] at hstage ⊢

/-- The job of an attempt that has ended collects it. -/
theorem busy_of_ended (h : Scheduled digest config limits s) (hget : s.tasks.get? key = some attempt)
    (hlive : attempt.cancelled = false) {outcome : AttemptOutcome}
    (hstage : attempt.stage = .ended outcome) : Busy digest config s := by
  obtain ⟨job, hjob, -⟩ := h.custody.owner key attempt hget hlive
  obtain ⟨-, peers, timer, -, hphase⟩ := h.custody.live key.1 _ hjob
  have hmem : key.2 ∈ job.running.keys := by
    have hlink := h.linked.linked key.1 _ hjob key.2
    rw [link, hget] at hlink
    obtain ⟨peer, hpeer, -⟩ := Option.map_eq_some_iff.mp hlink.symm
    exact OrderedMap.get?_isSome_iff.mp (Option.isSome_iff_exists.mpr ⟨peer, hpeer⟩)
  have hreturn : job.canReturn timer [(key.2, outcome)] :=
    ⟨List.nodup_singleton _, fun t ht ↦ List.mem_singleton.mp ht ▸ hmem, .inr (List.cons_ne_nil _ _)⟩
  have houtcomes : s.outcomes key.1 [key.2] = some [(key.2, outcome)] := by
    have hone : s.outcome key.1 key.2 = some (key.2, outcome) :=
      outcome_eq_some.mpr ⟨rfl, attempt, hget, hstage, hlive⟩
    rw [outcomes, List.mapM_cons, List.mapM_nil, hone]
    rfl
  refine ⟨.wakeJob key.1 [key.2] (fun _ ↦ 0) 0 0, rfl, ?_⟩
  simp [engineMachine, EngineState.step, EngineState.wakeJob, hjob, houtcomes, jobMachine, hphase,
    hreturn]

/-- While there is a task some step of a task is possible. -/
theorem busy_of_task (h : Scheduled digest config limits s) (hget : s.tasks.get? key = some attempt) :
    Busy digest config s := by
  cases hcancelled : attempt.cancelled with
  | true => exact busy_of_cancelled hget hcancelled
  | false =>
    cases hstage : attempt.stage with
    | created =>
      refine ⟨.startAttempt key, rfl, ?_⟩
      simp [engineMachine, EngineState.step, EngineState.onAttempt, hget, hcancelled, hstage]
    | queued =>
      by_cases hfree : 0 < s.slots
      · refine ⟨.acquireSlot key, rfl, ?_⟩
        simp [engineMachine, EngineState.step, EngineState.onAttempt, hget, hcancelled, hstage, hfree]
      · -- every slot belongs to an attempt that will give it back
        have hpos := config.maxConnections_bounds.1
        have hslots := h.pooled.slots
        have hheld : s.held AttemptStage.slot ≠ 0 := by
          rw [← h.pooled.active]
          omega
        obtain ⟨other, holder, hother, hslot⟩ := exists_of_held hheld
        exact busy_of_fetching hother (.inl hslot)
    | tcp => exact busy_of_fetching hget (.inl (hstage ▸ Nat.one_ne_zero))
    | encrypted => exact busy_of_fetching hget (.inl (hstage ▸ Nat.one_ne_zero))
    | utp overTcp => exact busy_of_fetching hget (.inr (hstage ▸ Nat.one_ne_zero))
    | ended outcome => exact busy_of_ended h hget hcancelled hstage

/-- While there is a job some step of a task is possible. -/
theorem busy_of_job (h : Scheduled digest config limits s) {task : JobTask}
    (hget : s.jobs.get? number = some task) : Busy digest config s := by
  cases task with
  | created infoHash peers =>
    exact ⟨.startJob number (fun _ ↦ 0) 0, rfl,
      by simp [engineMachine, EngineState.step, EngineState.startJob, hget]⟩
  | started job =>
    obtain ⟨-, peers, timer, hreached, hphase⟩ := h.custody.live number _ hget
    have hsize : job.running.size ≠ 0 := by
      cases hreached with
      | waiting _ _ _ _ hrunning => exact hrunning
      | finished hother => cases hphase.symm.trans hother
      | cancelled hother => cases hphase.symm.trans hother
    -- the job waits for a task, and the task exists
    rw [Ne, OrderedMap.size_eq_zero_iff] at hsize
    push Not at hsize
    obtain ⟨t, ht⟩ := hsize
    obtain ⟨peer, hpeer⟩ := Option.ne_none_iff_exists'.mp ht
    have hlink := h.linked.linked number _ hget t
    rw [show (JobTask.started job).running.get? t = some peer from hpeer] at hlink
    obtain ⟨attempt, hattempt, -⟩ := Option.map_eq_some_iff.mp hlink
    exact busy_of_task h hattempt

/-- Whatever the peers do, the jobs come to their end: each claim is worked off in a bounded number of
steps of its tasks, in whatever order the tasks and the other threads run; and the tasks are only
stuck when there is no job and no task left, all slots are free, and no entry of the catalog is being
fetched but those whose jobs were cancelled before they ran. -/
theorem jobs_drain {ops : List CatalogOp} {session : Session} {steps : List EngineStep}
    (hsession : catalogMachine.Leads Permitted (.new limits) ops session)
    (hidle : session.fetchClaims = ∅)
    (hrun : (engineMachine digest config).run (new config session) steps = some s) :
    (∀ more s', (∀ label ∈ more, EngineStep.claims label = false) →
      (engineMachine digest config).run s more = some s' →
        s'.work + more.countP EngineStep.ofTask ≤ s.work) ∧
      ((∀ label : EngineStep, label.ofTask → (engineMachine digest config).step s label = none) →
        s.jobs.size = 0 ∧ s.tasks.size = 0 ∧
        s.slots = config.maxConnections ∧ s.active = 0 ∧ s.waiting = 0 ∧
        s.utpSlots = utpMaxConnections ∧
        ∀ h r, s.session.catalog.entries.get? h = some r →
          (s.session.catalog.heap r).fetchState = .inProgress → h ∈ s.leaked) := by
  have hscheduled := run_scheduled hsession hidle hrun
  refine ⟨fun more s' hmore hmoreRun ↦ ?_, fun hstuck ↦ ?_⟩
  · refine (engineMachine digest config).run_budget (I := Scheduled digest config limits)
      (fun s label s' h hclaims hstep ↦ ⟨h.step hstep, ?_⟩) hscheduled hmore hmoreRun
    exact (step_linked h.custody h.linked h.pooled hstep).2 hclaims
  · have hquiet : ¬Busy digest config s := fun ⟨label, hlabel, hsome⟩ ↦ by
      rw [hstuck label hlabel] at hsome
      cases hsome
    obtain ⟨hcustody, hlinked, hpooled⟩ := hscheduled
    have hjobs : s.jobs.size = 0 := OrderedMap.size_eq_zero_iff.mpr fun number ↦
      Option.eq_none_iff_forall_ne_some.mpr fun task hget ↦
        hquiet (busy_of_job ⟨hcustody, hlinked, hpooled⟩ hget)
    have htasks : s.tasks.size = 0 := OrderedMap.size_eq_zero_iff.mpr fun key ↦
      Option.eq_none_iff_forall_ne_some.mpr fun attempt hget ↦
        hquiet (busy_of_task ⟨hcustody, hlinked, hpooled⟩ hget)
    have hheld (f : AttemptStage → ℕ) : s.held f = 0 := by
      rw [held, OrderedMap.values, List.length_eq_zero_iff.mp htasks]
      rfl
    obtain ⟨hslots, hactive, hwaiting, hutp, -⟩ := hpooled
    rw [hheld] at hactive hwaiting hutp
    rw [hactive] at hslots
    refine ⟨hjobs, htasks, hslots, hactive, hwaiting, hutp, fun h r hr hfetching ↦ ?_⟩
    have hheldClaim := (hcustody.held h).mpr ((hcustody.sound.mem_fetching hr).mpr hfetching)
    rw [claimsHeld, OrderedMap.values, List.length_eq_zero_iff.mp hjobs] at hheldClaim
    exact hheldClaim

/-- After the claim was handed out the steps of its tasks stay within the bound. -/
theorem jobs_drain_sample :
    ∃ s s', (engineMachine (fun _ ↦ sampleHash 1) {}).run (new {} announcedSession)
        (sampleSteps.take 1) = some s ∧
      (engineMachine (fun _ ↦ sampleHash 1) {}).run s (sampleSteps.drop 1) = some s' ∧
      s'.work + 6 ≤ s.work := by
  have heval : ((engineMachine (fun _ ↦ sampleHash 1) {}).run (new {} announcedSession)
      (sampleSteps.take 1)).any fun s ↦
        ((engineMachine (fun _ ↦ sampleHash 1) {}).run s (sampleSteps.drop 1)).isSome := by
    decide +kernel
  rw [Option.any_eq_true] at heval
  obtain ⟨s, hrun, hmore⟩ := heval
  obtain ⟨s', hs'⟩ := Option.isSome_iff_exists.mp hmore
  exact ⟨s, s', hrun, hs', (jobs_drain announced_leads rfl hrun).1 _ s' (by decide) hs'⟩

end EngineState

end DhtScraper
