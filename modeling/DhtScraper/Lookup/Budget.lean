import DhtScraper.Lookup.Rules

/-!
# The query budget

A query costs a token, and the bucket refills with the time that the manager has seen.  The number
of queries plus the tokens left, less what `tokens_time` has let in, never grows.
-/

namespace DhtScraper

open Library

def LookupEvent.isQuery : LookupEvent → Bool
  | .sent .. => true
  | _ => false

namespace LookupManager

variable {m m' : LookupManager}

/-- The number of queries sent. -/
def queries (m : LookupManager) : ℕ := m.log.countP LookupEvent.isQuery

/-- The bucket is within its bounds, and `level` bounds what was spent and is left of it, less the
inflow of the time seen. -/
structure Budget (limits : LookupLimits) (level : ℚ) (m : LookupManager) : Prop where
  limits : m.limits = limits
  nonneg : 0 ≤ m.tokens
  full : m.tokens ≤ m.limits.queriesPerSecond
  spent : m.queries + m.tokens - m.limits.queriesPerSecond * m.tokensTime ≤ level

variable {limits : LookupLimits} {level : ℚ}

theorem Budget.refill (h : m.Budget limits level) (now : ℚ) :
    (m.refill now).Budget limits level := by
  have hrate := m.limits.queriesPerSecond_pos
  have helapsed : 0 ≤ max 0 (now - m.tokensTime) := le_max_left _ _
  have htime : max m.tokensTime now = m.tokensTime + max 0 (now - m.tokensTime) := by
    rcases le_total m.tokensTime now with hle | hle
    · rw [max_eq_right hle, max_eq_right (sub_nonneg.mpr hle)]
      ring
    · rw [max_eq_left hle, max_eq_left (sub_nonpos.mpr hle), add_zero]
  refine ⟨h.limits, ?_, ?_, ?_⟩
  · exact le_min hrate.le (add_nonneg h.nonneg (mul_nonneg helapsed hrate.le))
  · exact min_le_left _ _
  · calc (m.queries : ℚ) + min m.limits.queriesPerSecond
          (m.tokens + max 0 (now - m.tokensTime) * m.limits.queriesPerSecond)
          - m.limits.queriesPerSecond * max m.tokensTime now
        ≤ m.queries + (m.tokens + max 0 (now - m.tokensTime) * m.limits.queriesPerSecond)
          - m.limits.queriesPerSecond * max m.tokensTime now := by
          have hmin := min_le_right m.limits.queriesPerSecond
            (m.tokens + max 0 (now - m.tokensTime) * m.limits.queriesPerSecond)
          linarith
      _ = m.queries + m.tokens - m.limits.queriesPerSecond * m.tokensTime := by
          rw [htime]
          ring
      _ ≤ level := h.spent

theorem Budget.emit (h : m.Budget limits level) (event : LookupEvent) (he : ¬ event.isQuery) :
    (m.emit event).Budget limits level := by
  refine ⟨h.limits, h.nonneg, h.full, ?_⟩
  have hcount : (m.emit event).queries = m.queries := by
    simp [queries, LookupManager.emit, he]
  rw [hcount]
  exact h.spent

/-- A query takes one token out of the bucket. -/
theorem Budget.sendTo (h : m.Budget limits level) (htoken : 1 ≤ m.tokens)
    (lookup : PeerLookup) (node : Node) (now timeout : ℚ) :
    (m.sendTo lookup node now timeout).1.Budget limits level := by
  have htokens : (m.sendTo lookup node now timeout).1.tokens = m.tokens - 1 := rfl
  have hcount : (m.sendTo lookup node now timeout).1.queries = m.queries + 1 := by
    simp [queries, LookupManager.sendTo, LookupManager.emit, LookupManager.check,
      LookupEvent.isQuery]
  have hspent := h.spent
  have hfull := h.full
  refine ⟨h.limits, ?_, ?_, ?_⟩
  · rw [htokens]
    linarith
  · rw [htokens]
    exact le_trans (by linarith) hfull
  · rw [htokens, hcount]
    have hsame : (m.sendTo lookup node now timeout).1.limits.queriesPerSecond *
        (m.sendTo lookup node now timeout).1.tokensTime =
          m.limits.queriesPerSecond * m.tokensTime := rfl
    rw [hsame]
    push_cast
    linarith

theorem budget_rules (net : Inet) (limits : LookupLimits) (level : ℚ) :
    ManagerRules net anyOffer (Budget limits level) where
  step :=
    { checked := fun _ _ _ h ↦ ⟨h.limits, h.nonneg, h.full, h.spent⟩
      counted := fun _ _ _ _ h ↦ ⟨h.limits, h.nonneg, h.full, h.spent⟩
      refilled := fun m lookup now h ↦ Budget.refill (m := m.save lookup) h now
      shortlisted := fun _ _ _ _ h ↦ ⟨h.limits, h.nonneg, h.full, h.spent⟩
      sent := by
        intro m lookup node now timeout hsend h
        have hm : m.Budget limits level := ⟨h.limits, h.nonneg, h.full, h.spent⟩
        have hnext := hm.sendTo hsend.token lookup node now timeout
        exact ⟨hnext.limits, hnext.nonneg, hnext.full, hnext.spent⟩
      hinted := fun _ _ _ _ h ↦ ⟨h.limits, h.nonneg, h.full, h.spent⟩
      released := by
        intro m lookup transactionId query hget h
        simp only [releaseTransaction, hget]
        have hm : m.Budget limits level := ⟨h.limits, h.nonneg, h.full, h.spent⟩
        have hnext := hm.emit (.released query.number) (by simp [LookupEvent.isQuery])
        exact ⟨hnext.limits, hnext.nonneg, hnext.full, hnext.spent⟩
      found := by
        intro m lookup fromHint values h
        have hm : m.Budget limits level := ⟨h.limits, h.nonneg, h.full, h.spent⟩
        simp only [takeValues]
        split
        · exact ⟨h.limits, h.nonneg, h.full, h.spent⟩
        · have hnext := hm.emit (.foundPeers lookup.number lookup.infoHash
            (addFoundPeers net m.limits.maxPeers lookup.foundPeers values).2)
            (by simp [LookupEvent.isQuery])
          exact ⟨hnext.limits, hnext.nonneg, hnext.full, hnext.spent⟩ }
  checked := fun _ _ h ↦ ⟨h.limits, h.nonneg, h.full, h.spent⟩
  refilled := fun _ now h ↦ h.refill now
  forgot := fun _ _ _ _ _ h ↦ ⟨h.limits, h.nonneg, h.full, h.spent⟩
  started := by
    intro m infoHash now _ _ _ _ h
    have hnext := h.emit (.started m.startedTotal infoHash now) (by simp [LookupEvent.isQuery])
    exact ⟨hnext.limits, hnext.nonneg, hnext.full, hnext.spent⟩
  closed := by
    intro m lookup _ h
    have hm : m.Budget limits level := ⟨h.limits, h.nonneg, h.full, h.spent⟩
    have hnext := hm.emit (.finished lookup.number lookup.infoHash
      (sortedAddresses lookup.foundPeers.keys)) (by simp [LookupEvent.isQuery])
    exact ⟨hnext.limits, hnext.nonneg, hnext.full, hnext.spent⟩

/-- In every stretch of every run, whatever the times handed to the manager are, the bucket stays
within its bounds and the queries sent are at most a full bucket and the inflow of the time that
`tokens_time` moved on. -/
theorem query_budget (net : Inet) (limits : LookupLimits) (nodeFilter : Node → Bool) (start : ℚ)
    (before stretch : List LookupCall) (m m' : LookupManager)
    (hbefore : (lookupMachine net).run (.new limits nodeFilter start) before = some m)
    (hstretch : (lookupMachine net).run m stretch = some m') :
    0 ≤ m'.tokens ∧ m'.tokens ≤ limits.queriesPerSecond ∧
      (m'.queries : ℚ) - m.queries ≤ limits.queriesPerSecond +
        limits.queriesPerSecond * (m'.tokensTime - m.tokensTime) := by
  have hstart : (new limits nodeFilter start).Budget limits
      (limits.queriesPerSecond - limits.queriesPerSecond * start) := by
    refine ⟨rfl, limits.queriesPerSecond_pos.le, le_rfl, ?_⟩
    simp [new, queries]
  obtain ⟨hkeyed, hmid⟩ := (budget_rules net limits _).run_any (keyed_new limits nodeFilter start)
    hstart hbefore
  have hfrom : m.Budget limits
      (m.queries + m.tokens - limits.queriesPerSecond * m.tokensTime) := by
    refine ⟨hmid.limits, hmid.nonneg, hmid.full, ?_⟩
    rw [hmid.limits]
  obtain ⟨-, hend⟩ := (budget_rules net limits _).run_any hkeyed hfrom hstretch
  have hspent := hend.spent
  have hfull := hmid.full
  rw [hend.limits] at hspent
  rw [hmid.limits] at hfull
  refine ⟨hend.nonneg, hend.limits ▸ hend.full, ?_⟩
  have hnonneg := hend.nonneg
  linarith

/-- A lookup asks its seed and is aborted. -/
theorem query_budget_abort :
    let manager := sampleManager
    let started := manager.apply sampleInet sampleStart
    let aborted := started.apply sampleInet .abortAll
    0 ≤ aborted.tokens ∧ aborted.tokens ≤ defaultLookupLimits.queriesPerSecond ∧
      (aborted.queries : ℚ) - manager.queries ≤ defaultLookupLimits.queriesPerSecond +
        defaultLookupLimits.queriesPerSecond * (aborted.tokensTime - manager.tokensTime) :=
  query_budget sampleInet defaultLookupLimits (fun _ ↦ true) 0 [] [sampleStart, .abortAll] _ _ rfl
    (run_of_returns (by decide +kernel))

end LookupManager

end DhtScraper
