import DhtScraper.Lookup.Budget
import DhtScraper.Lookup.Choices

/-!
# The pace of the queries

A lookup that is not over is younger than its deadline, and the bucket lets few queries through in that
time.  So between a query and its answer the counter of the transactions does not come round: `Paced`
bounds, for every pending query, how many queries can have been sent since.
-/

namespace DhtScraper

open Library

/-- The limits under which a running lookup does not live to see a transaction id again. -/
structure LookupLimits.Unhurried (limits : LookupLimits) : Prop where
  queryTimeout_pos : 0 < limits.queryTimeout
  slow : limits.queriesPerSecond * (1 + limits.deadline) ≤ 2 ^ 24

theorem defaultLookupLimits_unhurried : defaultLookupLimits.Unhurried where
  queryTimeout_pos := by decide +kernel
  slow := by decide +kernel

/-- The call works with no later time. -/
def LookupCall.Until (time : ℚ) : LookupCall → Prop
  | .startLookup _ _ now _ => now ≤ time
  | .handleResponse _ _ _ now => now ≤ time
  | .handleError _ now => now ≤ time
  | .tick now => now ≤ time
  | .abortAll => True
  | .refill now => now ≤ time

namespace LookupManager

variable {net : Inet} {limits : LookupLimits} {level : ℚ} {m m' : LookupManager}
  {lookup lookup' : PeerLookup}

/-! ## The time of the bucket -/

section Time

variable {time now : ℚ}

theorem tokensTime_releaseEach (ids : List Bytes) : ∀ (m : LookupManager) (lookup : PeerLookup),
    (m.releaseEach lookup ids).1.tokensTime = m.tokensTime := by
  induction ids with
  | nil => exact fun _ _ ↦ rfl
  | cons transactionId rest ih =>
    intro m lookup
    refine (ih _ _).trans ?_
    unfold releaseTransaction
    cases lookup.pending.get? transactionId <;> rfl

theorem tokensTime_finish (m : LookupManager) (lookup : PeerLookup) :
    (m.finish lookup).tokensTime = m.tokensTime := by
  rw [finish_eq_close]
  exact tokensTime_releaseEach _ _ _

theorem tokensTime_sendEach (now : ℚ) (nodes : List Node) :
    ∀ (m : LookupManager) (lookup : PeerLookup),
      (m.sendEach lookup now nodes).1.tokensTime = m.tokensTime := by
  induction nodes with
  | nil => exact fun _ _ ↦ rfl
  | cons node rest ih =>
    intro m lookup
    unfold sendEach
    split
    · rfl
    · exact ih _ _

theorem tokensTime_topUp (lookup : PeerLookup) (h : m.tokensTime ≤ time) (hnow : now ≤ time) :
    (m.topUp lookup now).1.tokensTime ≤ time := by
  have hmax : max m.tokensTime now ≤ time := max_le h hnow
  unfold topUp
  dsimp only
  split
  · exact h
  · split
    · exact hmax
    · exact (tokensTime_sendEach _ _ _ _).trans_le hmax

theorem tokensTime_advance (lookup : PeerLookup) (h : m.tokensTime ≤ time) (hnow : now ≤ time) :
    (m.advance lookup now).tokensTime ≤ time := by
  have htopped := tokensTime_topUp lookup h hnow
  unfold advance
  split
  · exact h
  split
  · exact (tokensTime_finish m lookup).trans_le h
  split
  · dsimp only
    split
    · exact (tokensTime_finish _ _).trans_le htopped
    · exact htopped
  · exact h

theorem tokensTime_takeNodes (m : LookupManager) (lookup : PeerLookup)
    (decoder : Bytes → Except Failure (List Node)) (compactNodes : Option BencodeValue) :
    (m.takeNodes lookup decoder compactNodes).1.tokensTime = m.tokensTime := by
  unfold takeNodes
  split
  · split
    next nodes _ =>
      obtain ⟨⟨b, hmanager⟩, -⟩ := ManagerRules.addToShortlist_kept m lookup nodes
      rw [hmanager]
    next => rfl
  · rfl

theorem tokensTime_answered (net : Inet) (m : LookupManager) (lookup : PeerLookup)
    (transactionId : Bytes) (response : Option BencodeValue) :
    (m.answered net lookup transactionId response).1.tokensTime = m.tokensTime := by
  have hreleased := tokensTime_releaseEach [transactionId] m lookup
  unfold answered takeResponse
  dsimp only
  split
  · split
    · refine (tokensTime_takeNodes _ _ _ _).trans ((tokensTime_takeNodes _ _ _ _).trans ?_)
      unfold takeValues
      dsimp only
      split <;> exact hreleased
    · exact hreleased
  · exact hreleased

theorem tokensTime_launch (lookup : PeerLookup) (hint : Option Node) (h : m.tokensTime ≤ time)
    (hnow : now ≤ time) : (m.launch lookup hint now).tokensTime ≤ time := by
  unfold launch
  cases hint with
  | some node => exact h
  | none => exact tokensTime_topUp (m := { m with
      startedTotal := m.startedTotal + 1
      log := m.log ++ [.started lookup.number lookup.infoHash now] }) lookup h hnow

theorem tokensTime_startLookup (infoHash : Bytes) (seedNodes : List Node) (hint : Option Node)
    (h : m.tokensTime ≤ time) (hnow : now ≤ time) :
    (m.startLookup infoHash seedNodes now hint).1.tokensTime ≤ time := by
  have hmax : max m.tokensTime now ≤ time := max_le h hnow
  unfold startLookup
  split
  · exact h
  split
  · exact h
  dsimp only
  split
  · exact h
  split
  · exact hmax
  unfold openLookup
  dsimp only
  split
  · exact hmax
  · obtain ⟨⟨b, hmanager⟩, -⟩ := ManagerRules.addToShortlist_kept
      ((m.check (m.active.size ≤ m.limits.maxActive)).refill now)
      (.new m.startedTotal infoHash (now + m.limits.deadline)) seedNodes
    have hfilled : ((((m.check (m.active.size ≤ m.limits.maxActive)).refill now).addToShortlist
        (.new m.startedTotal infoHash (now + m.limits.deadline)) seedNodes).1).tokensTime ≤ time := by
      rw [hmanager]
      exact hmax
    split
    · exact hfilled
    · exact tokensTime_launch _ _ hfilled hnow

theorem tokensTime_foldl (f : LookupManager → Bytes → LookupManager)
    (hf : ∀ m infoHash, m.tokensTime ≤ time → (f m infoHash).tokensTime ≤ time)
    (hashes : List Bytes) : ∀ {m : LookupManager}, m.tokensTime ≤ time →
      (hashes.foldl f m).tokensTime ≤ time := by
  induction hashes with
  | nil => exact fun h ↦ h
  | cons infoHash rest ih => exact fun h ↦ ih (hf _ infoHash h)

/-- The bucket is at most as late as the times of the calls. -/
theorem tokensTime_apply (net : Inet) {call : LookupCall} (h : m.tokensTime ≤ time)
    (hcall : call.Until time) : (m.apply net call).tokensTime ≤ time := by
  cases call with
  | startLookup infoHash seedNodes now hint => exact tokensTime_startLookup _ _ _ h hcall
  | handleResponse transactionId response address now =>
    rw [apply, handleResponse]
    split
    · exact h
    · dsimp only
      split
      · exact h
      next lookup _ =>
        have hanswered := tokensTime_answered net m lookup transactionId response
        exact tokensTime_advance _ (hanswered.trans_le h) hcall
  | handleError transactionId now =>
    rw [apply, handleError]
    split
    · exact h
    · dsimp only
      split
      next lookup _ =>
        have hreleased := tokensTime_releaseEach [transactionId] m lookup
        exact tokensTime_advance _ (hreleased.trans_le h) hcall
      · exact h
  | tick now =>
    refine tokensTime_foldl (m := (m.check (0 ≤ now)).refill now) _ (fun m infoHash h ↦ ?_) _
      (max_le h hcall)
    unfold tickLookup
    split
    · exact h
    next lookup _ =>
      have hexpired := tokensTime_releaseEach (expired lookup now) m lookup
      exact tokensTime_advance _ (hexpired.trans_le h) hcall
  | abortAll =>
    refine tokensTime_foldl (m := m) _ (fun m infoHash h ↦ ?_) _ h
    unfold finishLookup
    split
    · exact h
    · exact (tokensTime_finish _ _).trans_le h
  | refill now => exact max_le h hcall

end Time

/-! ## The pace -/

/-- What a lookup's deadline and the bucket say about the queries it waits for. -/
structure PacedLookup (limits : LookupLimits) (m : LookupManager) (lookup : PeerLookup) : Prop where
  seen : lookup.deadline ≤ m.tokensTime + limits.deadline
  pending : ∀ transactionId query, lookup.pending.get? transactionId = some query →
    transactionId = lookupTransactionId query.number ∧ query.number < m.sequence ∧
      m.Budget limits (query.number +
        limits.queriesPerSecond * (1 + limits.deadline - lookup.deadline))

structure Paced (limits : LookupLimits) (m : LookupManager) : Prop where
  bucket : ∃ level, m.Budget limits level
  counted : m.queries = m.sequence
  lookups : ∀ h lookup, m.active.get? h = some lookup → PacedLookup limits m lookup

/-- The bucket after some steps. -/
structure Later (limits : LookupLimits) (m m' : LookupManager) : Prop where
  budget : ∀ level, m.Budget limits level → m'.Budget limits level
  sequence : m.sequence ≤ m'.sequence
  tokensTime : m.tokensTime ≤ m'.tokensTime

theorem Budget.of_eq (h : m.Budget limits level) (hlimits : m'.limits = m.limits)
    (htokens : m'.tokens = m.tokens) (htime : m'.tokensTime = m.tokensTime)
    (hqueries : m'.queries = m.queries) : m'.Budget limits level := by
  refine ⟨hlimits.trans h.limits, htokens ▸ h.nonneg, ?_, ?_⟩
  · rw [htokens, hlimits]
    exact h.full
  · rw [htokens, hlimits, htime, hqueries]
    exact h.spent

/-- The steps that leave the bucket alone. -/
theorem Later.of_eq (hlimits : m'.limits = m.limits) (htokens : m'.tokens = m.tokens)
    (htime : m'.tokensTime = m.tokensTime) (hqueries : m'.queries = m.queries)
    (hsequence : m'.sequence = m.sequence) : Later limits m m' where
  budget := fun _ h ↦ h.of_eq hlimits htokens htime hqueries
  sequence := hsequence.ge
  tokensTime := htime.ge

theorem PacedLookup.later (h : PacedLookup limits m lookup) (hlater : Later limits m m') :
    PacedLookup limits m' lookup where
  seen := h.seen.trans (add_le_add_left hlater.tokensTime _)
  pending := fun transactionId query hget ↦ by
    obtain ⟨hid, hlt, hbudget⟩ := h.pending transactionId query hget
    exact ⟨hid, hlt.trans_le hlater.sequence, hlater.budget _ hbudget⟩

/-- Fewer pending queries. -/
theorem PacedLookup.fewer (h : PacedLookup limits m lookup)
    (hdeadline : lookup'.deadline = lookup.deadline)
    (hpending : ∀ transactionId query, lookup'.pending.get? transactionId = some query →
      lookup.pending.get? transactionId = some query) : PacedLookup limits m lookup' where
  seen := hdeadline ▸ h.seen
  pending := fun transactionId query hget ↦
    hdeadline ▸ h.pending transactionId query (hpending transactionId query hget)

theorem Paced.self (h : (m.save lookup).Paced limits) : PacedLookup limits m lookup :=
  (h.lookups lookup.infoHash lookup ((get?_save _ _ _).trans (if_pos rfl))).later
    (.of_eq rfl rfl rfl rfl rfl)

/-- A step of one lookup. -/
theorem Paced.stepped (h : (m.save lookup).Paced limits) (hlater : Later limits m m')
    (hactive : m'.active = m.active) (hkey : lookup'.infoHash = lookup.infoHash)
    (hcounted : m'.queries = m'.sequence) (hself : PacedLookup limits m' lookup') :
    (m'.save lookup').Paced limits where
  bucket := by
    obtain ⟨level, hbudget⟩ := h.bucket
    exact ⟨level, (hlater.budget level (hbudget.of_eq rfl rfl rfl rfl)).of_eq rfl rfl rfl rfl⟩
  counted := hcounted
  lookups := by
    intro k other hother
    rw [get?_save, hkey, hactive] at hother
    split at hother
    · rw [← Option.some.inj hother]
      exact hself.later (.of_eq rfl rfl rfl rfl rfl)
    next hk =>
      have hold := h.lookups k other ((get?_save _ _ _).trans ((if_neg hk).trans hother))
      have hbefore : PacedLookup limits m other := hold.later (.of_eq rfl rfl rfl rfl rfl)
      exact (hbefore.later hlater).later (.of_eq rfl rfl rfl rfl rfl)

/-- Steps that leave the lookups alone. -/
theorem Paced.later (h : m.Paced limits) (hlater : Later limits m m')
    (hactive : m'.active = m.active) (hcounted : m'.queries = m'.sequence) : m'.Paced limits where
  bucket := by
    obtain ⟨level, hbudget⟩ := h.bucket
    exact ⟨level, hlater.budget level hbudget⟩
  counted := hcounted
  lookups := fun k other hother ↦ (h.lookups k other (hactive ▸ hother)).later hlater

theorem later_refill (limits : LookupLimits) (m : LookupManager) (now : ℚ) :
    Later limits m (m.refill now) where
  budget := fun _ h ↦ h.refill now
  sequence := le_rfl
  tokensTime := le_max_left _ _

theorem later_sendTo (limits : LookupLimits) (htoken : 1 ≤ m.tokens) (lookup : PeerLookup)
    (node : Node) (now timeout : ℚ) :
    Later limits m (m.sendTo lookup node now timeout).1 where
  budget := fun _ h ↦ h.sendTo htoken lookup node now timeout
  sequence := Nat.le_succ _
  tokensTime := le_rfl

theorem queries_sendTo (h : m.queries = m.sequence) (lookup : PeerLookup) (node : Node)
    (now timeout : ℚ) : (m.sendTo lookup node now timeout).1.queries =
      (m.sendTo lookup node now timeout).1.sequence := by
  change (m.log ++ [_]).countP LookupEvent.isQuery = m.sequence + 1
  rw [List.countP_append, ← h]
  rfl

theorem queries_append (log events : List LookupEvent)
    (hevents : ∀ event ∈ events, event.isQuery = false) :
    (log ++ events).countP LookupEvent.isQuery = log.countP LookupEvent.isQuery := by
  have hnone : events.countP LookupEvent.isQuery = 0 :=
    List.countP_eq_zero.mpr fun event hevent ↦ by simp [hevents event hevent]
  rw [List.countP_append, hnone, Nat.add_zero]

theorem later_released (limits : LookupLimits) (m : LookupManager) (lookup : PeerLookup)
    (transactionId : Bytes) :
    Later limits m (m.releaseTransaction lookup transactionId).1 ∧
      ((m.releaseTransaction lookup transactionId).1.queries = m.queries ∧
        (m.releaseTransaction lookup transactionId).1.sequence = m.sequence) := by
  unfold releaseTransaction
  split
  · exact ⟨.of_eq rfl rfl rfl rfl rfl, rfl, rfl⟩
  next query _ =>
    have hqueries : (m.log ++ [LookupEvent.released query.number]).countP LookupEvent.isQuery =
        m.log.countP LookupEvent.isQuery :=
      queries_append _ _ fun event hevent ↦ by rw [List.mem_singleton.mp hevent]; rfl
    exact ⟨.of_eq rfl rfl rfl hqueries rfl, hqueries, rfl⟩

/-- A query that is sent is the youngest; the bucket was full at most when its lookup was started. -/
theorem PacedLookup.sent (h : PacedLookup limits m lookup) (hbucket : ∃ level, m.Budget limits level)
    (hcounted : m.queries = m.sequence) (htoken : 1 ≤ m.tokens) (node : Node) (now timeout : ℚ) :
    PacedLookup limits (m.sendTo lookup node now timeout).1
      (m.sendTo lookup node now timeout).2.1 := by
  have hlater := later_sendTo limits htoken lookup node now timeout
  refine ⟨(h.later hlater).seen, fun transactionId query hget ↦ ?_⟩
  have hinserted : (lookup.pending.insert (lookupTransactionId m.sequence)
      ⟨node.address, now + timeout, m.sequence⟩).get? transactionId = some query := hget
  rw [OrderedMap.get?_insert] at hinserted
  split at hinserted
  next hnew =>
    rw [← Option.some.inj hinserted]
    refine ⟨hnew, Nat.lt_succ_self _, hlater.budget _ ?_⟩
    obtain ⟨level, hbudget⟩ := hbucket
    refine ⟨hbudget.limits, hbudget.nonneg, hbudget.full, ?_⟩
    have hrate := m.limits.queriesPerSecond_pos
    have hfull := hbudget.full
    have hinflow : m.limits.queriesPerSecond * (lookup.deadline - limits.deadline) ≤
        m.limits.queriesPerSecond * m.tokensTime :=
      mul_le_mul_of_nonneg_left (sub_le_iff_le_add.mpr h.seen) hrate.le
    have hdeadline : (m.sendTo lookup node now timeout).2.1.deadline = lookup.deadline := rfl
    rw [← hbudget.limits] at hinflow ⊢
    rw [hcounted, hdeadline]
    linarith
  next => exact (h.later hlater).pending transactionId query hinserted

theorem paced_rules (net : Inet) (limits : LookupLimits) :
    ManagerRules net anyOffer (Paced limits) where
  step :=
    { checked := fun m lookup b h ↦ h.stepped (.of_eq rfl rfl rfl rfl rfl) rfl rfl h.counted
        (h.self.later (.of_eq rfl rfl rfl rfl rfl))
      counted := fun m lookup queries answers h ↦ h.stepped (.of_eq rfl rfl rfl rfl rfl) rfl rfl
        h.counted (h.self.later (.of_eq rfl rfl rfl rfl rfl))
      refilled := fun m lookup now h ↦ h.stepped (later_refill limits m now) rfl rfl h.counted
        (h.self.later (later_refill limits m now))
      shortlisted := by
        intro m lookup nodes _ h
        obtain ⟨-, shortlist, hlookup⟩ := ManagerRules.addToShortlist_kept m lookup nodes
        rw [hlookup]
        exact h.stepped (.of_eq rfl rfl rfl rfl rfl) rfl rfl h.counted
          (h.self.fewer rfl fun _ _ hget ↦ hget)
      sent := by
        intro m lookup node now timeout hsend h
        have hbucket : ∃ level, m.Budget limits level := by
          obtain ⟨level, hbudget⟩ := h.bucket
          exact ⟨level, hbudget.of_eq rfl rfl rfl rfl⟩
        have hcounted : m.queries = m.sequence := h.counted
        exact h.stepped (later_sendTo limits hsend.token lookup node now timeout) rfl rfl
          (queries_sendTo hcounted lookup node now timeout)
          (h.self.sent hbucket hcounted hsend.token node now timeout)
      hinted := fun m lookup transactionId _ h ↦ h.stepped (.of_eq rfl rfl rfl rfl rfl) rfl rfl
        h.counted (h.self.fewer rfl fun _ _ hget ↦ hget)
      released := by
        intro m lookup transactionId query hget h
        obtain ⟨hlater, hqueries, hsequence⟩ := later_released limits m lookup transactionId
        have hcounted : m.queries = m.sequence := h.counted
        have hkept := kept_releaseTransaction m lookup transactionId
        refine h.stepped hlater hkept.active hkept.infoHash
          (hqueries.trans (hcounted.trans hsequence.symm)) ?_
        refine (h.self.later hlater).fewer hkept.deadline fun other query' hother ↦ ?_
        rw [pending_releaseTransaction, OrderedMap.get?_erase] at hother
        split at hother
        · cases hother
        · exact hother
      found := by
        intro m lookup fromHint values h
        obtain ⟨hintValues, events, found, responses, hmanager, hlookup, hevents⟩ :=
          ManagerRules.takeValues_kept net m lookup fromHint values
        have hqueries : (m.log ++ events).countP LookupEvent.isQuery =
            m.log.countP LookupEvent.isQuery := by
          refine queries_append _ _ fun event hevent ↦ ?_
          obtain ⟨peers, rfl⟩ := hevents event hevent
          rfl
        rw [hmanager, hlookup]
        have hlater : Later limits m { m with hintValues := hintValues, log := m.log ++ events } :=
          .of_eq rfl rfl rfl hqueries rfl
        exact h.stepped hlater rfl rfl (hqueries.trans h.counted)
          ((h.self.later hlater).fewer rfl fun _ _ hget ↦ hget) }
  checked := fun m b h ↦ h.later (.of_eq rfl rfl rfl rfl rfl) rfl h.counted
  refilled := fun m now h ↦ h.later (later_refill limits m now) rfl h.counted
  forgot := fun m transactionId infoHash _ _ h ↦ h.later (.of_eq rfl rfl rfl rfl rfl) rfl h.counted
  started := by
    intro m infoHash now _ _ _ hseen h
    have hqueries : (m.log ++ [LookupEvent.started m.startedTotal infoHash now]).countP
        LookupEvent.isQuery = m.log.countP LookupEvent.isQuery :=
      queries_append _ _ fun event hevent ↦ by rw [List.mem_singleton.mp hevent]; rfl
    have hlater : Later limits m (m.withNewLookup infoHash now) := .of_eq rfl rfl rfl hqueries rfl
    obtain ⟨level, hbudget⟩ := h.bucket
    refine ⟨⟨level, hlater.budget level hbudget⟩, hqueries.trans h.counted, fun k other hother ↦ ?_⟩
    rw [withNewLookup, get?_save] at hother
    split at hother
    · rw [← Option.some.inj hother]
      refine ⟨?_, fun transactionId query hget ↦ by cases hget⟩
      change now + m.limits.deadline ≤ m.tokensTime + limits.deadline
      rw [hbudget.limits]
      exact add_le_add_left hseen _
    · exact (h.lookups k other hother).later hlater
  closed := by
    intro m lookup _ h
    have hqueries : (m.log ++ [LookupEvent.finished lookup.number lookup.infoHash
        (sortedAddresses lookup.foundPeers.keys)]).countP LookupEvent.isQuery =
          m.log.countP LookupEvent.isQuery :=
      queries_append _ _ fun event hevent ↦ by rw [List.mem_singleton.mp hevent]; rfl
    have hlater : Later limits (m.save lookup) (m.close lookup) := .of_eq rfl rfl rfl hqueries rfl
    obtain ⟨level, hbudget⟩ := h.bucket
    refine ⟨⟨level, hlater.budget level hbudget⟩, hqueries.trans h.counted, fun k other hother ↦ ?_⟩
    have hget : (m.active.erase lookup.infoHash).get? k = some other := hother
    rw [OrderedMap.get?_erase] at hget
    split at hget
    · cases hget
    next hk =>
      exact (h.lookups k other ((get?_save _ _ _).trans ((if_neg hk).trans hget))).later hlater

theorem paced_new (limits : LookupLimits) (nodeFilter : Node → Bool) (start : ℚ) :
    (new limits nodeFilter start).Paced limits where
  bucket := by
    refine ⟨limits.queriesPerSecond - limits.queriesPerSecond * start, rfl,
      limits.queriesPerSecond_pos.le, le_rfl, ?_⟩
    simp [new, queries]
  counted := rfl
  lookups := fun _ _ hget ↦ by cases hget

end LookupManager

end DhtScraper
