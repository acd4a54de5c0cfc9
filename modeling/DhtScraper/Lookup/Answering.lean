import DhtScraper.Lookup.Filtering
import DhtScraper.Lookup.Memory
import DhtScraper.Lookup.Pacing

/-!
# Replies and errors are handled to the end

No assertion fails when the manager handles a message about one of its transactions.  Most of the
assertions follow from what the manager keeps; the last ones say that the transaction of the message is
not given out again by the queries that the answer causes, which is a matter of pace.
-/

namespace DhtScraper

open Library

namespace LookupManager

variable {net : Inet} {limits : LookupLimits} {nodeFilter : Node → Bool} {level now : ℚ}
  {m m' : LookupManager} {lookup lookup' : PeerLookup}

/-! ## The assertions of the small methods -/

theorem raised_refill (h : m.Budget limits level) (hnow : 0 ≤ now) :
    (m.refill now).raised = m.raised := by
  have hnext := h.refill now
  unfold refill
  dsimp only
  rw [check_of ⟨hnow, hnext.nonneg, hnext.full⟩]

theorem raised_sendEach (now : ℚ) (nodes : List Node) : ∀ (m : LookupManager) (lookup : PeerLookup),
    lookup.finished = false → 0 < m.limits.queryTimeout →
      (m.sendEach lookup now nodes).1.raised = m.raised ∧
        (m.sendEach lookup now nodes).2.2 ≤ nodes.length := by
  induction nodes with
  | nil => exact fun _ _ _ _ ↦ ⟨rfl, le_rfl⟩
  | cons node rest ih =>
    intro m lookup hfinished htimeout
    unfold sendEach
    split
    · exact ⟨rfl, Nat.zero_le _⟩
    · obtain ⟨hraised, hcount⟩ := ih (m.sendTo lookup node now m.limits.queryTimeout).1
        (m.sendTo lookup node now m.limits.queryTimeout).2.1 hfinished htimeout
      have hsent : (m.sendTo lookup node now m.limits.queryTimeout).1.raised = m.raised := by
        simp [sendTo, emit, LookupManager.check, hfinished, htimeout]
      exact ⟨hraised.trans hsent, Nat.succ_le_succ hcount⟩

/-- The ids of the shortlist and of the nodes that can join it are valid. -/
theorem FilteredLookup.asserts (h : FilteredLookup net nodeFilter lookup) {nodes : List Node}
    (hnodes : ∀ node ∈ nodes, node ∈ lookup.shortlist.values ∨ node.nodeId.length = nodeIdLength) :
    selectClosestAsserts nodes lookup.infoHash :=
  ⟨h.length, fun node hnode ↦ (hnodes node hnode).elim (fun hold ↦ (h.shortlist node hold).1) id⟩

theorem raised_addToShortlist (h : (m.save lookup).Filtered net limits nodeFilter)
    (nodes : List Node) : (m.addToShortlist lookup nodes).1.raised = m.raised := by
  unfold addToShortlist
  dsimp only
  split
  next =>
    have hasserts : selectClosestAsserts ((nodes.filter (m.isNewNode lookup)).foldl
        (fun shortlist node ↦ shortlist.insert node.nodeId node) lookup.shortlist).values
          lookup.infoHash := by
      refine h.self.asserts fun node hnode ↦ ?_
      refine (List.mem_append.mp (mem_values_foldl_insert _ hnode)).imp_right fun hnew ↦ ?_
      have husable := (List.mem_filter.mp hnew).2
      rw [isNewNode, Bool.and_eq_true] at husable
      exact (h.usable (m := m.save lookup) husable.1).1
    have hsize (chosen : List Node) (hchosen : chosen.length ≤ m.limits.shortlistSize) :
        (nodesById chosen).size ≤ m.limits.shortlistSize :=
      ((size_foldl_insert_le chosen .empty).trans_eq (Nat.zero_add _)).trans hchosen
    rw [check_of hasserts, check_of (hsize _ (length_selectClosestNodes_le _ _ _))]
  next => rfl

theorem raised_topUp (hlimits : limits.Unhurried) (hbudget : m.Budget limits level)
    (hlookup : FilteredLookup net nodeFilter lookup) (hfinished : lookup.finished = false)
    (hnow : 0 ≤ now) : (m.topUp lookup now).1.raised = m.raised := by
  have hrefilled := raised_refill hbudget hnow
  unfold topUp
  dsimp only
  rw [check_of hfinished]
  split
  next => rfl
  next hfree =>
    split
    next => exact hrefilled
    next =>
      have hasserts : selectClosestAsserts (lookup.shortlist.values.filter
          ((m.refill now).isCandidate lookup)) lookup.infoHash :=
        hlookup.asserts fun node hnode ↦ Or.inl (List.mem_of_mem_filter hnode)
      rw [check_of hasserts]
      have htimeout : 0 < (m.refill now).limits.queryTimeout := by
        have hsame : (m.refill now).limits = limits := hbudget.limits
        rw [hsame]
        exact hlimits.queryTimeout_pos
      have hlength := length_selectClosestNodes_le (lookup.shortlist.values.filter
        ((m.refill now).isCandidate lookup)) lookup.infoHash (m.freeQueries lookup).toNat
      have hroom : m.freeQueries lookup ≤ (m.limits.alpha : ℤ) - lookup.pending.size :=
        min_le_left _ _
      obtain ⟨hraised, hcount⟩ := raised_sendEach now (selectClosestNodes
        (lookup.shortlist.values.filter ((m.refill now).isCandidate lookup)) lookup.infoHash
          (m.freeQueries lookup).toNat) (m.refill now) lookup hfinished htimeout
      have hsent : ((m.refill now).sendEach lookup now (selectClosestNodes
          (lookup.shortlist.values.filter ((m.refill now).isCandidate lookup)) lookup.infoHash
            (m.freeQueries lookup).toNat)).2.2 ≤ m.limits.alpha := by
        omega
      have hkept := kept_sendEach now (selectClosestNodes (lookup.shortlist.values.filter
        ((m.refill now).isCandidate lookup)) lookup.infoHash (m.freeQueries lookup).toNat)
          (m.refill now) lookup
      rw [check_of (hkept.limits ▸ hsent)]
      exact hraised.trans hrefilled

theorem raised_advance (hlimits : limits.Unhurried) (hbudget : m.Budget limits level)
    (hlookup : FilteredLookup net nodeFilter lookup) (hfinished : lookup.finished = false)
    (hactive : m.active.contains lookup.infoHash) (hnow : 0 ≤ now) :
    (m.advance lookup now).raised = m.raised := by
  have htopped := raised_topUp hlimits hbudget hlookup hfinished hnow
  unfold advance
  split
  next => rfl
  split
  next => exact raised_finish m hfinished
  split
  next =>
    dsimp only
    split
    next =>
      have hkept := kept_topUp m lookup now
      exact (raised_finish _ (hkept.finished.trans hfinished)).trans htopped
    next =>
      rw [check_of hactive]
      exact htopped
  next =>
    rw [check_of hactive]
    rfl

theorem raised_takeNodes (h : (m.save lookup).Filtered net limits nodeFilter)
    {decoder : Bytes → Except Failure (List Node)}
    (hdecoder : ∀ data, ∃ nodes, decoder data = .ok nodes) (compactNodes : Option BencodeValue) :
    (m.takeNodes lookup decoder compactNodes).1.raised = m.raised := by
  unfold takeNodes
  split
  next data =>
    obtain ⟨nodes, hnodes⟩ := hdecoder data
    rw [hnodes]
    exact raised_addToShortlist h nodes
  next => rfl

theorem raised_takeResponse (h : (m.save lookup).Filtered net limits nodeFilter) (fromHint : Bool)
    (response : Option BencodeValue) :
    (m.takeResponse net lookup fromHint response).1.raised = m.raised := by
  have hsteps := (filtered_rules net limits nodeFilter).step
  unfold takeResponse
  split
  next items =>
    rw [decodeCompactPeers_eq]
    dsimp only
    have htaken := hsteps.found m lookup fromHint
      ((compactPeerItems (items.lookup (ascii "values".toList))).map (compactAddress net)) h
    refine (raised_takeNodes (hsteps.takeNodes htaken fun _ _ _ _ ↦ trivial)
      (fun data ↦ ⟨_, decodeCompactNodes6_eq net⟩) _).trans ?_
    refine (raised_takeNodes htaken (fun data ↦ ⟨_, decodeCompactNodes_eq net (Or.inl rfl)⟩) _).trans
      ?_
    unfold takeValues
    dsimp only
    split <;> rfl
  next => rfl

/-! ## The transaction of the message -/

theorem get?_transactions_releaseTransaction (m : LookupManager) (lookup : PeerLookup)
    (k : Bytes) {transactionId : Bytes} {query : PendingQuery}
    (hget : lookup.pending.get? transactionId = some query) :
    (m.releaseTransaction lookup transactionId).1.transactions.get? k =
      if k = transactionId then none else m.transactions.get? k := by
  simp only [releaseTransaction, hget]
  exact OrderedMap.get?_erase _ _ _

/-- The transaction of the query `number` is neither pending nor known, as long as the bucket has not
reached the deadline of the lookup. -/
structure Unmet (limits : LookupLimits) (number : ℕ) (m : LookupManager) (lookup : PeerLookup) :
    Prop where
  budget : m.Budget limits (number +
    limits.queriesPerSecond * (1 + limits.deadline - lookup.deadline))
  counted : m.queries = m.sequence
  older : number < m.sequence
  absent : m.tokensTime < lookup.deadline →
    lookup.pending.get? (lookupTransactionId number) = none ∧
      m.transactions.get? (lookupTransactionId number) = none

namespace Unmet

variable {number : ℕ}

/-- Before the deadline the transactions do not come round to the query. -/
theorem ne_next (hlimits : limits.Unhurried) (h : Unmet limits number m lookup)
    (htoken : 1 ≤ m.tokens) (htime : m.tokensTime < lookup.deadline) :
    lookupTransactionId number ≠ lookupTransactionId m.sequence := by
  have hspent := h.budget.spent
  have hrate := m.limits.queriesPerSecond_pos
  rw [h.counted] at hspent
  rw [h.budget.limits] at hspent hrate
  have hinflow : limits.queriesPerSecond * m.tokensTime ≤ limits.queriesPerSecond * lookup.deadline :=
    mul_le_mul_of_nonneg_left htime.le hrate.le
  have hslow := hlimits.slow
  have hclose : (m.sequence : ℚ) < number + 2 ^ 24 := by linarith
  have hlt : m.sequence < number + 2 ^ 24 := by exact_mod_cast hclose
  have holder := h.older
  rw [ne_eq, lookupTransactionId_inj]
  omega

theorem moved (h : Unmet limits number m lookup) (hlater : Later limits m m')
    (hcounted : m'.queries = m'.sequence) (hdeadline : lookup'.deadline = lookup.deadline)
    (habsent : m'.tokensTime < lookup.deadline →
      lookup'.pending.get? (lookupTransactionId number) = none ∧
        m'.transactions.get? (lookupTransactionId number) = none) :
    Unmet limits number m' lookup' where
  budget := hdeadline ▸ hlater.budget _ h.budget
  counted := hcounted
  older := h.older.trans_le hlater.sequence
  absent := fun htime ↦ habsent (hdeadline ▸ htime)

end Unmet

theorem unmet_rules (net : Inet) (hlimits : limits.Unhurried) (number : ℕ) :
    StepRules net anyOffer (Unmet limits number) where
  checked := fun m lookup b h ↦ h.moved (.of_eq rfl rfl rfl rfl rfl) h.counted rfl h.absent
  counted := fun m lookup queries answers h ↦
    h.moved (.of_eq rfl rfl rfl rfl rfl) h.counted rfl h.absent
  refilled := fun m lookup now h ↦ h.moved (later_refill limits m now) h.counted rfl
    fun htime ↦ h.absent ((le_max_left _ _).trans_lt htime)
  shortlisted := by
    intro m lookup nodes _ h
    obtain ⟨-, shortlist, hlookup⟩ := ManagerRules.addToShortlist_kept m lookup nodes
    rw [hlookup]
    exact h.moved (.of_eq rfl rfl rfl rfl rfl) h.counted rfl h.absent
  sent := by
    intro m lookup node now timeout hsend h
    refine h.moved (later_sendTo limits hsend.token lookup node now timeout)
      (queries_sendTo h.counted lookup node now timeout) rfl fun htime ↦ ?_
    have hne := h.ne_next hlimits hsend.token htime
    obtain ⟨hpending, htransactions⟩ := h.absent htime
    constructor
    · exact (OrderedMap.get?_insert _ _ _ _).trans ((if_neg hne).trans hpending)
    · exact (OrderedMap.get?_insert _ _ _ _).trans ((if_neg hne).trans htransactions)
  hinted := fun m lookup transactionId _ h ↦
    h.moved (.of_eq rfl rfl rfl rfl rfl) h.counted rfl h.absent
  released := by
    intro m lookup transactionId query hget h
    obtain ⟨hlater, hqueries, hsequence⟩ := later_released limits m lookup transactionId
    have hkept := kept_releaseTransaction m lookup transactionId
    refine h.moved hlater (hqueries.trans (h.counted.trans hsequence.symm)) hkept.deadline
      fun htime ↦ ?_
    rw [pending_releaseTransaction, OrderedMap.get?_erase,
      get?_transactions_releaseTransaction _ _ _ hget]
    obtain ⟨hpending, htransactions⟩ := h.absent (hlater.tokensTime.trans_lt htime)
    constructor
    · split
      · rfl
      · exact hpending
    · split
      · rfl
      · exact htransactions
  found := by
    intro m lookup fromHint values h
    obtain ⟨hintValues, events, found, responses, hmanager, hlookup, hevents⟩ :=
      ManagerRules.takeValues_kept net m lookup fromHint values
    have hqueries := queries_append m.log events fun event hevent ↦ by
      obtain ⟨peers, rfl⟩ := hevents event hevent
      rfl
    rw [hmanager, hlookup]
    exact h.moved (.of_eq rfl rfl rfl hqueries rfl) (hqueries.trans h.counted) rfl h.absent

theorem get?_transactions_finish (m : LookupManager) (lookup : PeerLookup) {transactionId : Bytes}
    (h : m.transactions.get? transactionId = none) :
    (m.finish lookup).transactions.get? transactionId = none := by
  have heach (ids : List Bytes) : ∀ (m : LookupManager) (lookup : PeerLookup),
      m.transactions.get? transactionId = none →
        (m.releaseEach lookup ids).1.transactions.get? transactionId = none := by
    induction ids with
    | nil => exact fun _ _ h ↦ h
    | cons first rest ih =>
      intro m lookup h
      refine ih _ _ ?_
      cases hget : lookup.pending.get? first with
      | none =>
        simp only [releaseTransaction, hget]
        exact h
      | some query =>
        rw [get?_transactions_releaseTransaction _ _ _ hget]
        split
        · rfl
        · exact h
  rw [finish_eq_close]
  exact heach _ _ _ h

/-- The lookup goes on without its query: it is over, or its new queries have other transactions. -/
theorem Unmet.advance (net : Inet) (hlimits : limits.Unhurried) {number : ℕ}
    (h : Unmet limits number m lookup) (hfinished : lookup.finished = false)
    (hseen : m.tokensTime ≤ now) :
    (∀ other, (m.advance lookup now).active.get? lookup.infoHash = some other →
      other.pending.get? (lookupTransactionId number) = none) ∧
        (m.transactions.get? (lookupTransactionId number) = none →
          (m.advance lookup now).transactions.get? (lookupTransactionId number) = none) := by
  have hover (m : LookupManager) (other : PeerLookup) (hkey : other.infoHash = lookup.infoHash) :
      (m.finish other).active.get? lookup.infoHash = none := by
    rw [(finish_eq m other).1, hkey, OrderedMap.get?_erase, if_pos rfl]
  have hsaved (m : LookupManager) (other found : PeerLookup) (hkey : other.infoHash = lookup.infoHash)
      (hget : (m.save other).active.get? lookup.infoHash = some found) : found = other := by
    rw [get?_save, hkey, if_pos rfl] at hget
    exact (Option.some.inj hget).symm
  unfold LookupManager.advance
  rw [if_neg (by simp [hfinished])]
  split
  next =>
    refine ⟨fun other hother ↦ ?_, get?_transactions_finish m lookup⟩
    rw [hover m lookup rfl] at hother
    cases hother
  next hgoing =>
    have hyoung : now < lookup.deadline := not_le.mp fun hdue ↦ hgoing (Or.inl hdue)
    split
    next =>
      have hkept := kept_topUp m lookup now
      have htopped := (unmet_rules net hlimits number).topUp h now
      have htime : (m.topUp lookup now).1.tokensTime < (m.topUp lookup now).2.deadline :=
        (tokensTime_topUp lookup hseen le_rfl).trans_lt (hkept.deadline ▸ hyoung)
      obtain ⟨hpending, htransactions⟩ := htopped.absent htime
      dsimp only
      split
      next =>
        refine ⟨fun other hother ↦ ?_, fun _ ↦ get?_transactions_finish _ _ htransactions⟩
        rw [hover _ _ hkept.infoHash] at hother
        cases hother
      next =>
        refine ⟨fun other hother ↦ ?_, fun _ ↦ htransactions⟩
        rw [hsaved _ _ _ hkept.infoHash hother]
        exact hpending
    next =>
      obtain ⟨hpending, htransactions⟩ := h.absent (hseen.trans_lt hyoung)
      refine ⟨fun other hother ↦ ?_, fun _ ↦ htransactions⟩
      rw [hsaved _ _ _ rfl hother]
      exact hpending

/-- What the manager keeps about a pending query, once it is released. -/
theorem Paced.released (h : m.Paced limits) {infoHash transactionId : Bytes} {query : PendingQuery}
    (hactive : m.active.get? infoHash = some lookup)
    (hquery : lookup.pending.get? transactionId = some query) :
    transactionId = lookupTransactionId query.number ∧
      Unmet limits query.number (m.releaseTransaction lookup transactionId).1
        (m.releaseTransaction lookup transactionId).2 ∧
      (m.releaseTransaction lookup transactionId).1.transactions.get?
        (lookupTransactionId query.number) = none := by
  obtain ⟨hid, holder, hbudget⟩ := (h.lookups infoHash lookup hactive).pending transactionId query
    hquery
  obtain ⟨hlater, hqueries, hsequence⟩ := later_released limits m lookup transactionId
  have hkept := kept_releaseTransaction m lookup transactionId
  have htransactions : (m.releaseTransaction lookup transactionId).1.transactions.get?
      (lookupTransactionId query.number) = none := by
    rw [get?_transactions_releaseTransaction _ _ _ hquery, if_pos hid.symm]
  refine ⟨hid, ⟨?_, ?_, ?_, fun _ ↦ ⟨?_, htransactions⟩⟩, htransactions⟩
  · rw [hkept.deadline]
    exact hlater.budget _ hbudget
  · exact hqueries.trans (h.counted.trans hsequence.symm)
  · exact hsequence.symm ▸ holder
  · rw [pending_releaseTransaction, OrderedMap.get?_erase, if_pos hid.symm]

/-! ## The two calls -/

theorem responseOffer_any (net : Inet) (m : LookupManager) (lookup : PeerLookup) (fromHint : Bool)
    (response : Option BencodeValue) : m.responseOffer anyOffer net lookup fromHint response :=
  fun _ _ _ _ ↦ ⟨fun _ _ _ _ ↦ trivial, fun _ _ _ _ ↦ trivial⟩

/-- The manager can handle a message at the time. -/
structure Answerable (net : Inet) (limits : LookupLimits) (nodeFilter : Node → Bool) (now : ℚ)
    (m : LookupManager) : Prop where
  keyed : m.Keyed
  filtered : m.Filtered net limits nodeFilter
  paced : m.Paced limits
  nonneg : 0 ≤ now
  seen : m.tokensTime ≤ now

namespace Answerable

variable {transactionId : Bytes}

/-- The lookup goes on, after whatever was taken in. -/
theorem raised_advance (h : m.Answerable net limits nodeFilter now) (hlimits : limits.Unhurried)
    {infoHash : Bytes} (hactive : m.active.get? infoHash = some lookup) {number : ℕ}
    (hunmet : Unmet limits number m' lookup')
    (hfiltered : (m'.save lookup').Filtered net limits nodeFilter)
    (hsame : m'.active = m.active) (hkey : lookup'.infoHash = lookup.infoHash)
    (hopen : lookup'.finished = lookup.finished) :
    (m'.advance lookup' now).raised = m'.raised := by
  obtain ⟨hfiled, hfinished, -⟩ := h.keyed infoHash lookup hactive
  refine LookupManager.raised_advance hlimits hunmet.budget hfiltered.self (hopen.trans hfinished) ?_
    h.nonneg
  rw [OrderedMap.contains, hsame, hkey, hfiled, hactive]
  rfl

/-- No assertion fails when a reply is handled. -/
theorem raised_handleResponse (h : m.Answerable net limits nodeFilter now)
    (hlimits : limits.Unhurried) (howned : m.ownsTransaction transactionId)
    (response : Option BencodeValue) (address : Address) :
    (m.handleResponse net transactionId response address now).raised = m.raised := by
  obtain ⟨infoHash, htransaction⟩ := Option.isSome_iff_exists.mp howned
  unfold handleResponse
  rw [htransaction]
  dsimp only
  split
  next => rfl
  next lookup hawaited =>
    obtain ⟨hactive, haddress⟩ := Option.filter_eq_some_iff.mp hawaited
    obtain ⟨query, hquery, -⟩ := Option.map_eq_some_iff.mp (of_decide_eq_true haddress)
    obtain ⟨hfiled, hfinished, -⟩ := h.keyed infoHash lookup hactive
    obtain ⟨hid, hunmet, -⟩ := h.paced.released hactive hquery
    have hsteps := (filtered_rules net limits nodeFilter).step
    have hreleased := hsteps.releaseTransaction
      (((save_eq_self h.keyed hactive).symm ▸ h.filtered : (m.save lookup).Filtered _ _ _))
      transactionId
    -- what is taken in leaves the transaction alone
    have hkept := kept_answered net m lookup transactionId response
    have htaken : Unmet limits query.number (m.answered net lookup transactionId response).1
        (m.answered net lookup transactionId response).2 :=
      (unmet_rules net hlimits query.number).takeResponse
        ((unmet_rules net hlimits query.number).counted _ _ _ _ hunmet)
        (responseOffer_any net _ _ _ response)
    have hfiltered : ((m.answered net lookup transactionId response).1.save
        (m.answered net lookup transactionId response).2).Filtered net limits nodeFilter :=
      hsteps.takeResponse (hsteps.counted _ _ _ _ hreleased) (responseOffer_any net _ _ _ response)
    have hadvanced := h.raised_advance hlimits hactive htaken hfiltered hkept.active
      hkept.infoHash hkept.finished
    have hforgotten : ((m.answered net lookup transactionId response).1.advance
        (m.answered net lookup transactionId response).2 now).forgotten transactionId infoHash := by
      intro other hother hcontains
      have hseen := (tokensTime_answered net m lookup transactionId response).trans_le h.seen
      have hnone := (htaken.advance net hlimits (hkept.finished.trans hfinished) hseen).1 other
        (by rw [hkept.infoHash, hfiled]; exact hother)
      rw [OrderedMap.contains, hid, hnone] at hcontains
      cases hcontains
    have hraised : (m.answered net lookup transactionId response).1.raised = m.raised := by
      refine (raised_takeResponse (hsteps.counted _ _ _ _ hreleased) _ response).trans ?_
      simp only [releaseTransaction, hquery]
      rfl
    exact (congrArg raised (check_of hforgotten)).trans (hadvanced.trans hraised)

/-- No assertion fails when an error is handled. -/
theorem raised_handleError (h : m.Answerable net limits nodeFilter now)
    (hlimits : limits.Unhurried) (howned : m.ownsTransaction transactionId) :
    (m.handleError transactionId now).raised = m.raised := by
  obtain ⟨infoHash, htransaction⟩ := Option.isSome_iff_exists.mp howned
  unfold handleError
  rw [htransaction]
  dsimp only
  have hdisowned {m' : LookupManager} (hnone : m'.transactions.get? transactionId = none) :
      ¬ m'.ownsTransaction transactionId := by
    rw [ownsTransaction, OrderedMap.contains, hnone]
    exact Bool.false_ne_true
  split
  next lookup hpending =>
    obtain ⟨hactive, hcontains⟩ := Option.filter_eq_some_iff.mp hpending
    obtain ⟨query, hquery⟩ := Option.isSome_iff_exists.mp hcontains
    obtain ⟨hfiled, hfinished, -⟩ := h.keyed infoHash lookup hactive
    obtain ⟨hid, hunmet, hfree⟩ := h.paced.released hactive hquery
    have hreleased := (filtered_rules net limits nodeFilter).step.releaseTransaction
      (((save_eq_self h.keyed hactive).symm ▸ h.filtered : (m.save lookup).Filtered _ _ _))
      transactionId
    have hkept := kept_releaseTransaction m lookup transactionId
    have hadvanced := h.raised_advance hlimits hactive hunmet hreleased hkept.active
      hkept.infoHash hkept.finished
    have hseen := (tokensTime_releaseEach [transactionId] m lookup).trans_le h.seen
    have hnone := (hunmet.advance net hlimits (hkept.finished.trans hfinished) hseen).2 hfree
    have hraised : (m.releaseTransaction lookup transactionId).1.raised = m.raised := by
      simp only [releaseTransaction, hquery]
      rfl
    exact (congrArg raised (check_of (hdisowned (hid ▸ hnone)))).trans (hadvanced.trans hraised)
  next =>
    have hnone : (m.transactions.erase transactionId).get? transactionId = none := by
      rw [OrderedMap.get?_erase, if_pos rfl]
    rw [check_of (hdisowned hnone)]

end Answerable

end LookupManager

end DhtScraper
