import DhtScraper.Lookup.Rules

/-!
# The three tables

`transactions` is the union of the pending queries of the active lookups, and `in_flight` counts
them by address, as long as no transaction id is used again while a query that has it is pending.
-/

namespace DhtScraper

open Library

/-- The queries to an address that a lookup waits for. -/
def PeerLookup.pendingTo (lookup : PeerLookup) (address : Address) : ℕ :=
  lookup.pending.values.countP fun query ↦ query.address = address

/-- No query stayed in flight across 2^24 later sends. -/
def NoReuse (log : List LookupEvent) : Prop :=
  ∀ before query lookup transactionId node infoHash after,
    log = before ++ .sent query lookup transactionId node infoHash :: after →
      ∀ earlier, earlier + 2 ^ 24 ≤ query → .released earlier ∈ before

theorem NoReuse.of_append {log events : List LookupEvent} (h : NoReuse (log ++ events)) :
    NoReuse log := by
  intro before query lookup transactionId node infoHash after heq
  refine h before query lookup transactionId node infoHash (after ++ events) ?_
  rw [heq, List.append_assoc, List.cons_append]

/-- Events that are no queries do not reuse an id. -/
theorem NoReuse.append {log events : List LookupEvent} (h : NoReuse log)
    (hquiet : ∀ query lookup transactionId node infoHash,
      .sent query lookup transactionId node infoHash ∉ events) : NoReuse (log ++ events) := by
  intro before query lookup transactionId node infoHash after heq earlier hearlier
  rcases List.append_eq_append_iff.mp heq with ⟨rest, hbefore, hafter⟩ | ⟨rest, hlog, hrest⟩
  · have hmem : .sent query lookup transactionId node infoHash ∈ events := by
      rw [hafter]
      exact List.mem_append_right _ List.mem_cons_self
    exact absurd hmem (hquiet _ _ _ _ _)
  · cases rest with
    | nil =>
      have hmem : .sent query lookup transactionId node infoHash ∈ events := by
        rw [List.nil_append] at hrest
        rw [← hrest]
        exact List.mem_cons_self
      exact absurd hmem (hquiet _ _ _ _ _)
    | cons event others =>
      rw [List.cons_append, List.cons.injEq] at hrest
      exact h before query lookup transactionId node infoHash others
        (by rw [hlog, ← hrest.1]) earlier hearlier

/-- The number of a sent query. -/
def LookupEvent.queryNumber : LookupEvent → ℕ
  | .sent query .. => query
  | _ => 0

/-- The first 2^24 queries cannot reuse an id. -/
theorem noReuse_of_few {log : List LookupEvent} (h : ∀ event ∈ log, event.queryNumber < 2 ^ 24) :
    NoReuse log := by
  intro before query lookup transactionId node infoHash after heq earlier hearlier
  have hmem : .sent query lookup transactionId node infoHash ∈ log := by
    rw [heq]
    exact List.mem_append_right _ List.mem_cons_self
  have hlt : query < 2 ^ 24 := h _ hmem
  omega

namespace LookupManager

variable {m m' : LookupManager} {lookup lookup' : PeerLookup}

/-- The queries to an address that the active lookups wait for. -/
def pendingTo (m : LookupManager) (address : Address) : ℕ :=
  (m.active.values.map fun lookup ↦ lookup.pendingTo address).sum

structure Consistent (m : LookupManager) : Prop where
  size : m.active.size ≤ m.limits.maxActive
  hint : ∀ h lookup transactionId, m.active.get? h = some lookup →
    lookup.hintTransaction = some transactionId → lookup.pending.contains transactionId
  transactions : ∀ transactionId h, m.transactions.get? transactionId = some h ↔
    ∃ lookup, m.active.get? h = some lookup ∧ lookup.pending.contains transactionId
  inFlight : ∀ address, m.inFlight.get? address =
    if m.pendingTo address = 0 then none else some (m.pendingTo address : ℤ)
  query : ∀ h lookup transactionId query, m.active.get? h = some lookup →
    lookup.pending.get? transactionId = some query →
      transactionId = lookupTransactionId query.number ∧ query.number < m.sequence ∧
        .released query.number ∉ m.log
  numbers : ∀ n, LookupEvent.released n ∈ m.log → n < m.sequence

theorem pendingTo_save (m : LookupManager) (lookup : PeerLookup) (address : Address) :
    (m.save lookup).pendingTo address = lookup.pendingTo address +
      ((m.active.erase lookup.infoHash).values.map fun other ↦ other.pendingTo address).sum :=
  OrderedMap.sum_values_insert _ _ _ _

/-- The table after a change of the lookup, in terms of the table before. -/
theorem pendingTo_changed (hactive : m'.active = m.active)
    (hkey : lookup'.infoHash = lookup.infoHash) (address : Address) :
    (m'.save lookup').pendingTo address + lookup.pendingTo address =
      (m.save lookup).pendingTo address + lookup'.pendingTo address := by
  rw [pendingTo_save, pendingTo_save, hactive, hkey]
  omega

theorem inFlightTo_eq (hc : m.Consistent) (address : Address) :
    m.inFlightTo address = m.pendingTo address := by
  rw [inFlightTo, hc.inFlight]
  split
  · rename_i hzero
    rw [hzero]
    rfl
  · rfl

theorem size_save (hactive : m'.active = m.active) (hkey : lookup'.infoHash = lookup.infoHash) :
    (m'.save lookup').active.size = (m.save lookup).active.size := by
  have hperm := (m.active.perm_insert lookup.infoHash lookup).length_eq
  have hperm' := (m.active.perm_insert lookup.infoHash lookup').length_eq
  have hsaved : (m'.save lookup').active = m.active.insert lookup.infoHash lookup' := by
    rw [save, hactive, hkey]
  rw [hsaved, OrderedMap.size, hperm', OrderedMap.size]
  exact hperm.symm

/-- Steps that leave the tables and the pending queries alone. -/
theorem Consistent.transfer (h : (m.save lookup).Consistent) (hactive : m'.active = m.active)
    (hkey : lookup'.infoHash = lookup.infoHash) (hpending : lookup'.pending = lookup.pending)
    (hhint : ∀ transactionId, lookup'.hintTransaction = some transactionId →
      lookup'.pending.contains transactionId)
    (hlimits : m'.limits = m.limits) (htransactions : m'.transactions = m.transactions)
    (hinFlight : m'.inFlight = m.inFlight) (hsequence : m'.sequence = m.sequence)
    (hlog : ∀ n, LookupEvent.released n ∈ m'.log → LookupEvent.released n ∈ m.log) :
    (m'.save lookup').Consistent := by
  have hget (k : Bytes) (other : PeerLookup) (hother : (m'.save lookup').active.get? k = some other) :
      ∃ before, (m.save lookup).active.get? k = some before ∧ other.pending = before.pending := by
    rw [get?_save, hkey, hactive] at hother
    rw [get?_save]
    by_cases hk : k = lookup.infoHash
    · rw [if_pos hk] at hother ⊢
      exact ⟨lookup, rfl, by rw [← Option.some.inj hother, hpending]⟩
    · rw [if_neg hk] at hother ⊢
      exact ⟨other, hother, rfl⟩
  have hback (k : Bytes) (before : PeerLookup)
      (hbefore : (m.save lookup).active.get? k = some before) :
      ∃ other, (m'.save lookup').active.get? k = some other ∧ other.pending = before.pending := by
    rw [get?_save] at hbefore
    rw [get?_save, hkey, hactive]
    by_cases hk : k = lookup.infoHash
    · rw [if_pos hk] at hbefore ⊢
      exact ⟨lookup', rfl, by rw [← Option.some.inj hbefore, hpending]⟩
    · rw [if_neg hk] at hbefore ⊢
      exact ⟨before, hbefore, rfl⟩
  have hcount (address : Address) :
      (m'.save lookup').pendingTo address = (m.save lookup).pendingTo address := by
    have hchanged := pendingTo_changed hactive hkey address
    have hsame : lookup'.pendingTo address = lookup.pendingTo address := by
      rw [PeerLookup.pendingTo, PeerLookup.pendingTo, hpending]
    omega
  constructor
  case size =>
    rw [size_save hactive hkey]
    exact hlimits ▸ h.size
  case hint =>
    intro k other transactionId hother hhinted
    by_cases hk : k = lookup'.infoHash
    · rw [get?_save, if_pos hk, Option.some.injEq] at hother
      rw [← hother] at hhinted ⊢
      exact hhint transactionId hhinted
    · rw [get?_save, if_neg hk, hactive] at hother
      refine h.hint k other transactionId ?_ hhinted
      rw [get?_save, ← hkey, if_neg hk]
      exact hother
  case transactions =>
    intro transactionId k
    have hbefore := h.transactions transactionId k
    rw [show (m'.save lookup').transactions = m.transactions from htransactions]
    refine hbefore.trans ⟨?_, ?_⟩
    · rintro ⟨before, hget', hcontains⟩
      obtain ⟨other, hother, hsame⟩ := hback k before hget'
      exact ⟨other, hother, hsame ▸ hcontains⟩
    · rintro ⟨other, hother, hcontains⟩
      obtain ⟨before, hget', hsame⟩ := hget k other hother
      exact ⟨before, hget', hsame ▸ hcontains⟩
  case inFlight =>
    intro address
    rw [hcount, show (m'.save lookup').inFlight = m.inFlight from hinFlight]
    exact h.inFlight address
  case query =>
    intro k other transactionId query hother hquery
    obtain ⟨before, hbefore, hsame⟩ := hget k other hother
    rw [hsame] at hquery
    obtain ⟨hid, hlt, hreleased⟩ := h.query k before transactionId query hbefore hquery
    refine ⟨hid, ?_, fun hmem ↦ hreleased (hlog _ hmem)⟩
    rw [show (m'.save lookup').sequence = m.sequence from hsequence]
    exact hlt
  case numbers =>
    intro n hmem
    rw [show (m'.save lookup').sequence = m.sequence from hsequence]
    exact h.numbers n (hlog n hmem)

/-- Two pending queries with one number are the same. -/
theorem Consistent.query_unique (h : m.Consistent) {k k' t t' : Bytes}
    {other other' : PeerLookup} {query query' : PendingQuery} (hother : m.active.get? k = some other)
    (hother' : m.active.get? k' = some other') (hquery : other.pending.get? t = some query)
    (hquery' : other'.pending.get? t' = some query') (hnumber : query.number = query'.number) :
    t = t' ∧ k = k' := by
  have hid := (h.query k other t query hother hquery).1
  have hid' := (h.query k' other' t' query' hother' hquery').1
  have heq : t = t' := by rw [hid, hid', hnumber]
  have hcontains : other.pending.contains t := by simp [OrderedMap.contains, hquery]
  have hcontains' : other'.pending.contains t' := by simp [OrderedMap.contains, hquery']
  have hfirst := (h.transactions t k).mpr ⟨other, hother, hcontains⟩
  have hsecond := (h.transactions t' k').mpr ⟨other', hother', hcontains'⟩
  rw [← heq, hfirst, Option.some.injEq] at hsecond
  exact ⟨heq, hsecond⟩

/-- A released query leaves all three tables. -/
theorem Consistent.released (h : (m.save lookup).Consistent) {transactionId : Bytes}
    {query : PendingQuery} (hget : lookup.pending.get? transactionId = some query) :
    ((m.releaseTransaction lookup transactionId).1.save
      (m.releaseTransaction lookup transactionId).2).Consistent := by
  have hself : (m.save lookup).active.get? lookup.infoHash = some lookup := by
    rw [get?_save, if_pos rfl]
  have hcontains : lookup.pending.contains transactionId := by simp [OrderedMap.contains, hget]
  have howned : m.transactions.get? transactionId = some lookup.infoHash :=
    (h.transactions transactionId lookup.infoHash).mpr ⟨lookup, hself, hcontains⟩
  have hactive : (m.releaseTransaction lookup transactionId).1.active = m.active := by
    simp only [releaseTransaction, hget]
    rfl
  have hkey : (m.releaseTransaction lookup transactionId).2.infoHash = lookup.infoHash := by
    simp only [releaseTransaction, hget]
  have hpending := pending_releaseTransaction m lookup transactionId
  have hcount (address : Address) :
      ((m.releaseTransaction lookup transactionId).1.save
        (m.releaseTransaction lookup transactionId).2).pendingTo address +
          (if query.address = address then 1 else 0) = (m.save lookup).pendingTo address := by
    have hchanged := pendingTo_changed hactive hkey address
    have herase := lookup.pending.countP_values_erase (fun query ↦ query.address = address) hget
    simp only [PeerLookup.pendingTo, hpending] at hchanged
    simp only [decide_eq_true_eq] at herase
    omega
  have hget_after (k : Bytes) : ((m.releaseTransaction lookup transactionId).1.save
      (m.releaseTransaction lookup transactionId).2).active.get? k =
        if k = lookup.infoHash then some (m.releaseTransaction lookup transactionId).2
        else (m.save lookup).active.get? k := by
    rw [get?_save, hactive, hkey, get?_save]
    by_cases hk : k = lookup.infoHash <;> simp [hk]
  have hlog : ((m.releaseTransaction lookup transactionId).1.save
      (m.releaseTransaction lookup transactionId).2).log = m.log ++ [.released query.number] ∧
        ((m.releaseTransaction lookup transactionId).1.save
          (m.releaseTransaction lookup transactionId).2).sequence = m.sequence := by
    simp only [releaseTransaction, hget]
    exact ⟨rfl, rfl⟩
  constructor
  case size =>
    rw [size_save hactive hkey]
    have hsize := h.size
    simp only [releaseTransaction, hget]
    exact hsize
  case hint =>
    intro k other t hother hhinted
    rw [hget_after] at hother
    split at hother
    · rw [← Option.some.inj hother] at hhinted ⊢
      rw [hpending]
      simp only [releaseTransaction, hget] at hhinted
      split at hhinted
      · cases hhinted
      · rename_i hne
        have hcontained := h.hint _ _ t hself hhinted
        have ht : t ≠ transactionId := fun heq ↦ hne (heq ▸ hhinted)
        simpa [OrderedMap.contains, ht] using hcontained
    · exact h.hint k other t hother hhinted
  case transactions =>
    intro t k
    have htransactions : ((m.releaseTransaction lookup transactionId).1.save
        (m.releaseTransaction lookup transactionId).2).transactions =
          m.transactions.erase transactionId := by
      simp only [releaseTransaction, hget]
      rfl
    rw [htransactions, OrderedMap.get?_erase]
    by_cases ht : t = transactionId
    · rw [if_pos ht]
      refine ⟨fun hnone ↦ (by cases hnone), ?_⟩
      rintro ⟨other, hother, hcontained⟩
      rw [hget_after] at hother
      split at hother
      · rw [← Option.some.inj hother, hpending] at hcontained
        simp [OrderedMap.contains, ht] at hcontained
      · rename_i hk
        have hsecond := (h.transactions t k).mpr ⟨other, hother, hcontained⟩
        rw [ht] at hsecond
        exact absurd (Option.some.inj (hsecond.symm.trans howned)) hk
    · rw [if_neg ht]
      refine (h.transactions t k).trans ⟨?_, ?_⟩
      · rintro ⟨other, hother, hcontained⟩
        by_cases hk : k = lookup.infoHash
        · rw [hk, hself, Option.some.injEq] at hother
          refine ⟨_, (hget_after k).trans (if_pos hk), ?_⟩
          rw [hpending, OrderedMap.contains, OrderedMap.get?_erase, if_neg ht, hother]
          exact hcontained
        · exact ⟨other, (hget_after k).trans ((if_neg hk).trans hother), hcontained⟩
      · rintro ⟨other, hother, hcontained⟩
        rw [hget_after] at hother
        split at hother
        · rename_i hk
          rw [← Option.some.inj hother, hpending, OrderedMap.contains, OrderedMap.get?_erase,
            if_neg ht] at hcontained
          exact ⟨lookup, hk ▸ hself, hcontained⟩
        · exact ⟨other, hother, hcontained⟩
  case inFlight =>
    intro address
    have hbefore := hcount address
    have hone := hcount query.address
    have htable := h.inFlight address
    have hlevel := inFlightTo_eq h query.address
    rw [if_pos rfl] at hone
    have hmap : ((m.releaseTransaction lookup transactionId).1.save
        (m.releaseTransaction lookup transactionId).2).inFlight =
          if 0 < m.inFlightTo query.address - 1 then
            m.inFlight.insert query.address (m.inFlightTo query.address - 1)
          else m.inFlight.erase query.address := by
      simp only [releaseTransaction, hget]
      rfl
    replace hlevel : m.inFlightTo query.address = _ := hlevel
    rw [hmap, hlevel]
    by_cases ha : address = query.address
    · rw [ha] at hbefore ⊢
      rw [if_pos rfl] at hbefore
      split
      · rename_i hpos
        rw [OrderedMap.get?_insert, if_pos rfl, if_neg (by omega), Option.some.injEq]
        omega
      · rename_i hpos
        rw [OrderedMap.get?_erase, if_pos rfl, if_pos (by omega)]
    · have hne : query.address ≠ address := fun heq ↦ ha heq.symm
      rw [if_neg hne, add_zero] at hbefore
      rw [hbefore, ← htable]
      split
      · rw [OrderedMap.get?_insert, if_neg ha]
        rfl
      · rw [OrderedMap.get?_erase, if_neg ha]
        rfl
  case query =>
    intro k other t other_query hother hquery
    have hstill {before : PeerLookup} (hbefore : (m.save lookup).active.get? k = some before)
        (hquery : before.pending.get? t = some other_query)
        (hne : k = lookup.infoHash → t ≠ transactionId) :
        t = lookupTransactionId other_query.number ∧ other_query.number < m.sequence ∧
          .released other_query.number ∉ m.log ++ [.released query.number] := by
      obtain ⟨hid, hlt, hreleased⟩ := h.query k before t other_query hbefore hquery
      refine ⟨hid, hlt, fun hmem ↦ ?_⟩
      rcases List.mem_append.mp hmem with hmem | hmem
      · exact hreleased hmem
      · rw [List.mem_singleton, LookupEvent.released.injEq] at hmem
        obtain ⟨ht, hk⟩ := h.query_unique hbefore hself hquery hget hmem
        exact hne hk ht
    rw [hlog.1, hlog.2]
    rw [hget_after] at hother
    split at hother
    · rename_i hk
      rw [← Option.some.inj hother, hpending, OrderedMap.get?_erase] at hquery
      split at hquery
      · cases hquery
      · rename_i ht
        exact hstill (hk ▸ hself) hquery fun _ ↦ ht
    · rename_i hk
      exact hstill hother hquery fun heq ↦ absurd heq hk
  case numbers =>
    intro n hmem
    rw [hlog.1] at hmem
    rw [hlog.2]
    rcases List.mem_append.mp hmem with hmem | hmem
    · exact h.numbers n hmem
    · rw [List.mem_singleton, LookupEvent.released.injEq] at hmem
      rw [hmem]
      exact (h.query _ lookup transactionId query hself hget).2.1

/-- As long as ids are not reused, the id of the next query is free. -/
theorem Consistent.fresh (h : m.Consistent) {query number : ℕ} {transactionId : Bytes} {node : Node}
    {infoHash : Bytes} (hreuse : NoReuse (m.log ++
      [.sent query number transactionId node infoHash])) (hquery : query = m.sequence)
    (k : Bytes) : m.transactions.get? (lookupTransactionId query) ≠ some k := by
  intro howned
  obtain ⟨other, hother, hcontains⟩ := (h.transactions _ k).mp howned
  obtain ⟨pending, hpending⟩ := Option.isSome_iff_exists.mp hcontains
  obtain ⟨hid, hlt, hreleased⟩ := h.query k other _ pending hother hpending
  have hmod := lookupTransactionId_inj.mp hid
  have hearlier : pending.number + 2 ^ 24 ≤ query := by omega
  exact hreleased (hreuse m.log query number transactionId node infoHash [] rfl _ hearlier)

/-- A query with a free id enters all three tables. -/
theorem Consistent.sent (h : (m.save lookup).Consistent)
    (hfresh : ∀ k, m.transactions.get? (lookupTransactionId m.sequence) ≠ some k) (node : Node)
    (now timeout : ℚ) : ((m.sendTo lookup node now timeout).1.save
      (m.sendTo lookup node now timeout).2.1).Consistent := by
  let transactionId := lookupTransactionId m.sequence
  let query : PendingQuery := ⟨node.address, now + timeout, m.sequence⟩
  let changed := (m.sendTo lookup node now timeout).2.1
  let next := (m.sendTo lookup node now timeout).1
  have hpending : changed.pending = lookup.pending.insert transactionId query := rfl
  have hunused (k : Bytes) (other : PeerLookup) (hother : (m.save lookup).active.get? k = some other) :
      other.pending.get? transactionId = none := by
    by_contra hsome
    have hcontains : other.pending.contains transactionId := Option.isSome_iff_ne_none.mpr hsome
    exact hfresh k ((h.transactions transactionId k).mpr ⟨other, hother, hcontains⟩)
  have hself : (m.save lookup).active.get? lookup.infoHash = some lookup := by
    rw [get?_save, if_pos rfl]
  have hget_after (k : Bytes) : (next.save changed).active.get? k =
      if k = lookup.infoHash then some changed else (m.save lookup).active.get? k := by
    rw [get?_save, get?_save]
    by_cases hk : k = lookup.infoHash
    · rw [if_pos hk]
      exact if_pos hk
    · rw [if_neg hk, if_neg hk]
      exact if_neg hk
  have hlog : (next.save changed).log = m.log ++ [.sent m.sequence lookup.number transactionId node
      lookup.infoHash] := rfl
  have hsequence : (next.save changed).sequence = m.sequence + 1 := rfl
  have hcount (address : Address) : (next.save changed).pendingTo address =
      (m.save lookup).pendingTo address + if node.address = address then 1 else 0 := by
    have hactive : next.active = m.active := rfl
    have hkey : changed.infoHash = lookup.infoHash := rfl
    have hchanged := pendingTo_changed hactive hkey address
    have hinsert := lookup.pending.countP_values_insert (fun query ↦ query.address = address) query
      (hunused _ lookup hself)
    simp only [PeerLookup.pendingTo, hpending] at hchanged
    simp only [decide_eq_true_eq] at hinsert
    rw [hinsert] at hchanged
    have hquery : query.address = node.address := rfl
    rw [hquery] at hchanged
    omega
  constructor
  case size =>
    rw [show (m.sendTo lookup node now timeout).1.save (m.sendTo lookup node now timeout).2.1 =
      next.save changed from rfl]
    have hsize : (next.save changed).active.size = (m.save lookup).active.size := size_save rfl rfl
    rw [hsize]
    exact h.size
  case hint =>
    intro k other t hother hhinted
    replace hother := (hget_after k).symm.trans hother
    by_cases hk : k = lookup.infoHash
    · rw [if_pos hk, Option.some.injEq] at hother
      rw [← hother] at hhinted ⊢
      have hcontained := h.hint _ _ t hself hhinted
      rw [hpending, OrderedMap.contains, OrderedMap.get?_insert]
      split
      · rfl
      · exact hcontained
    · rw [if_neg hk] at hother
      exact h.hint k other t hother hhinted
  case transactions =>
    intro t k
    have htransactions : (next.save changed).transactions =
        m.transactions.insert transactionId lookup.infoHash := rfl
    rw [show (m.sendTo lookup node now timeout).1.save (m.sendTo lookup node now timeout).2.1 =
      next.save changed from rfl, htransactions, OrderedMap.get?_insert]
    by_cases ht : t = transactionId
    · rw [if_pos ht, Option.some.injEq]
      constructor
      · intro hk
        refine ⟨changed, (hget_after k).trans (if_pos hk.symm), ?_⟩
        rw [hpending, ht]
        exact OrderedMap.contains_insert_self _ _ _
      · rintro ⟨other, hother, hcontained⟩
        rw [hget_after] at hother
        by_contra hk
        rw [if_neg fun heq ↦ hk heq.symm] at hother
        rw [ht, OrderedMap.contains, hunused k other hother] at hcontained
        cases hcontained
    · rw [if_neg ht]
      have hkept : changed.pending.contains t = lookup.pending.contains t := by
        rw [hpending, OrderedMap.contains, OrderedMap.contains, OrderedMap.get?_insert, if_neg ht]
      refine (h.transactions t k).trans ⟨?_, ?_⟩
      · rintro ⟨other, hother, hcontained⟩
        by_cases hk : k = lookup.infoHash
        · rw [hk, hself, Option.some.injEq] at hother
          exact ⟨changed, (hget_after k).trans (if_pos hk), hkept ▸ hother ▸ hcontained⟩
        · exact ⟨other, (hget_after k).trans ((if_neg hk).trans hother), hcontained⟩
      · rintro ⟨other, hother, hcontained⟩
        rw [hget_after] at hother
        by_cases hk : k = lookup.infoHash
        · rw [if_pos hk, Option.some.injEq] at hother
          exact ⟨lookup, hk ▸ hself, by rw [← hkept, hother]; exact hcontained⟩
        · rw [if_neg hk] at hother
          exact ⟨other, hother, hcontained⟩
  case inFlight =>
    intro address
    have hafter := hcount address
    have htable := h.inFlight address
    have hlevel : m.inFlightTo node.address = (m.save lookup).pendingTo node.address :=
      inFlightTo_eq h node.address
    have hmap : (next.save changed).inFlight =
        m.inFlight.insert node.address (m.inFlightTo node.address + 1) := rfl
    rw [show (m.sendTo lookup node now timeout).1.save (m.sendTo lookup node now timeout).2.1 =
      next.save changed from rfl, hmap, OrderedMap.get?_insert, hlevel, hafter]
    by_cases ha : address = node.address
    · rw [ha, if_pos rfl, if_pos rfl, if_neg (by omega), Option.some.injEq]
      push_cast
      rfl
    · have hne : node.address ≠ address := fun heq ↦ ha heq.symm
      rw [if_neg ha, if_neg hne, add_zero, ← htable]
      rfl
  case query =>
    intro k other t pending hother hquery
    have hstill {before : PeerLookup} (hbefore : (m.save lookup).active.get? k = some before)
        (hquery : before.pending.get? t = some pending) :
        t = lookupTransactionId pending.number ∧ pending.number < m.sequence + 1 ∧
          .released pending.number ∉ m.log ++ [.sent m.sequence lookup.number transactionId node
            lookup.infoHash] := by
      obtain ⟨hid, hlt, hreleased⟩ := h.query k before t pending hbefore hquery
      refine ⟨hid, Nat.lt_succ_of_lt hlt, fun hmem ↦ ?_⟩
      rcases List.mem_append.mp hmem with hmem | hmem
      · exact hreleased hmem
      · cases List.mem_singleton.mp hmem
    rw [show (m.sendTo lookup node now timeout).1.save (m.sendTo lookup node now timeout).2.1 =
      next.save changed from rfl, hlog, hsequence]
    replace hother := (hget_after k).symm.trans hother
    by_cases hk : k = lookup.infoHash
    · rw [if_pos hk, Option.some.injEq] at hother
      rw [← hother, hpending, OrderedMap.get?_insert] at hquery
      split at hquery
      · rename_i ht
        rw [← Option.some.inj hquery]
        refine ⟨ht, Nat.lt_succ_self _, fun hmem ↦ ?_⟩
        rcases List.mem_append.mp hmem with hmem | hmem
        · exact absurd (h.numbers _ hmem) (lt_irrefl m.sequence)
        · cases List.mem_singleton.mp hmem
      · exact hstill (hk ▸ hself) hquery
    · rw [if_neg hk] at hother
      exact hstill hother hquery
  case numbers =>
    intro n hmem
    rcases List.mem_append.mp (hlog ▸ hmem) with hmem | hmem
    · exact Nat.lt_succ_of_lt (h.numbers n hmem)
    · cases List.mem_singleton.mp hmem

/-- A new lookup waits for nothing. -/
theorem Consistent.started (h : m.Consistent) {infoHash : Bytes}
    (hnone : m.active.get? infoHash = none) (hslot : m.active.size < m.limits.maxActive) (now : ℚ) :
    (m.withNewLookup infoHash now).Consistent := by
  let opened := PeerLookup.new m.startedTotal infoHash (now + m.limits.deadline)
  have hget (k : Bytes) : (m.withNewLookup infoHash now).active.get? k =
      if k = infoHash then some opened else m.active.get? k := get?_save _ _ _
  have hempty (t : Bytes) : opened.pending.get? t = none := rfl
  have hold {k : Bytes} {other : PeerLookup} {t : Bytes}
      (hother : (m.withNewLookup infoHash now).active.get? k = some other)
      (hpending : other.pending.get? t ≠ none) : m.active.get? k = some other := by
    rw [hget] at hother
    split at hother
    · rw [← Option.some.inj hother] at hpending
      exact absurd (hempty t) hpending
    · exact hother
  have hcount (address : Address) :
      (m.withNewLookup infoHash now).pendingTo address = m.pendingTo address := by
    have hsave : (m.withNewLookup infoHash now).pendingTo address = opened.pendingTo address +
        ((m.active.erase infoHash).values.map fun other ↦ other.pendingTo address).sum :=
      pendingTo_save _ _ _
    rw [hsave, OrderedMap.erase_eq_self hnone]
    exact Nat.zero_add _
  have hnew (n : ℕ) (hmem : LookupEvent.released n ∈ (m.withNewLookup infoHash now).log) :
      LookupEvent.released n ∈ m.log := by
    rcases List.mem_append.mp hmem with hmem | hmem
    · exact hmem
    · cases List.mem_singleton.mp hmem
  constructor
  case size => exact (OrderedMap.size_insert_of_absent opened hnone).trans_le hslot
  case hint =>
    intro k other t hother hhinted
    rw [hget] at hother
    split at hother
    · rw [← Option.some.inj hother] at hhinted
      cases hhinted
    · exact h.hint k other t hother hhinted
  case transactions =>
    intro t k
    refine (h.transactions t k).trans ⟨?_, ?_⟩
    · rintro ⟨other, hother, hcontains⟩
      have hk : k ≠ infoHash := fun heq ↦ by rw [heq, hnone] at hother; cases hother
      exact ⟨other, (hget k).trans ((if_neg hk).trans hother), hcontains⟩
    · rintro ⟨other, hother, hcontains⟩
      exact ⟨other, hold hother (Option.isSome_iff_ne_none.mp hcontains), hcontains⟩
  case inFlight =>
    intro address
    rw [hcount]
    exact h.inFlight address
  case query =>
    intro k other t query hother hquery
    obtain ⟨hid, hlt, hreleased⟩ := h.query k other t query
      (hold hother (by rw [hquery]; exact Option.some_ne_none _)) hquery
    exact ⟨hid, hlt, fun hmem ↦ hreleased (hnew _ hmem)⟩
  case numbers => exact fun n hmem ↦ h.numbers n (hnew n hmem)

/-- A lookup without pending queries can leave the table. -/
theorem Consistent.closed (h : (m.save lookup).Consistent) (hempty : lookup.pending.size = 0) :
    (m.close lookup).Consistent := by
  have hnothing := OrderedMap.size_eq_zero_iff.mp hempty
  have hget (k : Bytes) : (m.close lookup).active.get? k =
      if k = lookup.infoHash then none else m.active.get? k := OrderedMap.get?_erase _ _ _
  have hsaved {k : Bytes} {other : PeerLookup}
      (hother : (m.close lookup).active.get? k = some other) :
      (m.save lookup).active.get? k = some other := by
    rw [hget] at hother
    split at hother
    · cases hother
    · rename_i hk
      rw [get?_save, if_neg hk, hother]
  have hcount (address : Address) :
      (m.close lookup).pendingTo address = (m.save lookup).pendingTo address := by
    have hnone : lookup.pendingTo address = 0 := by
      rw [PeerLookup.pendingTo, List.countP_eq_zero]
      intro query hquery
      obtain ⟨t, ht⟩ := OrderedMap.mem_values_iff.mp hquery
      rw [hnothing t] at ht
      cases ht
    rw [pendingTo_save, hnone, Nat.zero_add]
    rfl
  have hnew (n : ℕ) (hmem : LookupEvent.released n ∈ (m.close lookup).log) :
      LookupEvent.released n ∈ m.log := by
    rcases List.mem_append.mp hmem with hmem | hmem
    · exact hmem
    · cases List.mem_singleton.mp hmem
  constructor
  case size =>
    have herase : (m.close lookup).active = (m.save lookup).active.erase lookup.infoHash :=
      (OrderedMap.erase_insert _ _ _).symm
    rw [herase]
    exact (OrderedMap.size_erase_le _ _).trans h.size
  case hint => exact fun k other t hother ↦ h.hint k other t (hsaved hother)
  case transactions =>
    intro t k
    refine (h.transactions t k).trans ⟨?_, ?_⟩
    · rintro ⟨other, hother, hcontains⟩
      rw [get?_save] at hother
      split at hother
      · rw [← Option.some.inj hother, OrderedMap.contains, hnothing t] at hcontains
        cases hcontains
      · rename_i hk
        exact ⟨other, (hget k).trans ((if_neg hk).trans hother), hcontains⟩
    · rintro ⟨other, hother, hcontains⟩
      exact ⟨other, hsaved hother, hcontains⟩
  case inFlight =>
    intro address
    rw [hcount]
    exact h.inFlight address
  case query =>
    intro k other t query hother hquery
    obtain ⟨hid, hlt, hreleased⟩ := h.query k other t query (hsaved hother) hquery
    exact ⟨hid, hlt, fun hmem ↦ hreleased (hnew _ hmem)⟩
  case numbers => exact fun n hmem ↦ h.numbers n (hnew n hmem)

/-- Without reuse of ids the tables are consistent. -/
def ConsistentUnlessReused (m : LookupManager) : Prop := NoReuse m.log → m.Consistent

theorem hint_of_saved (h : (m.save lookup).Consistent) (transactionId : Bytes)
    (hhint : lookup.hintTransaction = some transactionId) :
    lookup.pending.contains transactionId :=
  h.hint lookup.infoHash lookup transactionId ((get?_save _ _ _).trans (if_pos rfl)) hhint

theorem consistent_rules (net : Inet) : ManagerRules net anyOffer ConsistentUnlessReused where
  step :=
    { checked := fun _ _ _ h hreuse ↦
        (h hreuse).transfer rfl rfl rfl (hint_of_saved (h hreuse)) rfl rfl rfl rfl fun _ ↦ id
      counted := fun _ _ _ _ h hreuse ↦
        (h hreuse).transfer rfl rfl rfl (hint_of_saved (h hreuse)) rfl rfl rfl rfl fun _ ↦ id
      refilled := fun _ _ _ h hreuse ↦
        (h hreuse).transfer rfl rfl rfl (hint_of_saved (h hreuse)) rfl rfl rfl rfl fun _ ↦ id
      shortlisted := by
        intro m lookup nodes _ h hreuse
        obtain ⟨-, shortlist, hlookup⟩ := ManagerRules.addToShortlist_kept m lookup nodes
        rw [hlookup]
        exact (h hreuse).transfer rfl rfl rfl (fun t ht ↦ hint_of_saved (h hreuse) t ht) rfl rfl rfl
          rfl fun _ ↦ id
      sent := by
        intro m lookup node now timeout _ h hreuse
        have hconsistent := h hreuse.of_append
        exact hconsistent.sent (fun k ↦ hconsistent.fresh hreuse rfl k) node now timeout
      hinted := by
        intro m lookup transactionId hpending h hreuse
        refine (h hreuse).transfer rfl rfl rfl (fun t ht ↦ ?_) rfl rfl rfl rfl fun _ ↦ id
        rw [← Option.some.inj ht]
        exact hpending
      released := by
        intro m lookup transactionId query hget h hreuse
        refine Consistent.released (h ?_) hget
        simp only [releaseTransaction, hget] at hreuse
        exact NoReuse.of_append hreuse
      found := by
        intro m lookup fromHint values h hreuse
        obtain ⟨hintValues, events, found, responses, hmanager, hlookup, hevents⟩ :=
          ManagerRules.takeValues_kept net m lookup fromHint values
        rw [hmanager, hlookup] at hreuse ⊢
        have hconsistent := h (NoReuse.of_append hreuse)
        refine hconsistent.transfer rfl rfl rfl (fun t ht ↦ hint_of_saved hconsistent t ht) rfl rfl
          rfl rfl fun n hmem ↦ ?_
        rcases List.mem_append.mp hmem with hmem | hmem
        · exact hmem
        · obtain ⟨peers, heq⟩ := hevents _ hmem
          cases heq }
  checked := fun _ _ h hreuse ↦
    ⟨(h hreuse).size, (h hreuse).hint, (h hreuse).transactions, (h hreuse).inFlight,
      (h hreuse).query, (h hreuse).numbers⟩
  refilled := fun _ _ h hreuse ↦
    ⟨(h hreuse).size, (h hreuse).hint, (h hreuse).transactions, (h hreuse).inFlight,
      (h hreuse).query, (h hreuse).numbers⟩
  forgot := by
    intro m transactionId infoHash hget hnone h hreuse
    obtain ⟨lookup, hactive, hcontains⟩ := ((h hreuse).transactions transactionId infoHash).mp hget
    rw [OrderedMap.contains, hnone lookup hactive] at hcontains
    cases hcontains
  started := fun m infoHash now _ hnone hslot _ h hreuse ↦
    (h (NoReuse.of_append hreuse)).started hnone hslot now
  closed := fun m lookup hempty h hreuse ↦ (h (NoReuse.of_append hreuse)).closed hempty

/-- The lookups that `abort_all` ends release their queries. -/
theorem noReuse_abortAll (h : NoReuse m.log) : NoReuse m.abortAll.log := by
  have hfinish {m : LookupManager} (infoHash : Bytes) (h : NoReuse m.log) :
      NoReuse (m.finishLookup infoHash).log := by
    unfold finishLookup
    split
    · exact h
    · rename_i lookup hget
      obtain ⟨-, -, -, events, hlog, hevents⟩ := finish_eq m lookup
      rw [hlog]
      refine (h.append ?_).append ?_
      · intro query number transactionId node infoHash hmem
        obtain ⟨n, heq⟩ := hevents _ hmem
        cases heq
      · intro query number transactionId node infoHash hmem
        cases List.mem_singleton.mp hmem
  have hfold (hashes : List Bytes) : ∀ {m : LookupManager}, NoReuse m.log →
      NoReuse (hashes.foldl finishLookup m).log := by
    induction hashes with
    | nil => exact fun h ↦ h
    | cons infoHash rest ih => exact fun h ↦ ih (hfinish infoHash h)
  exact hfold m.active.keys h

/-- In every run that does not reuse the id of a pending query, the pending ids of different active
lookups are disjoint, `transactions` is their union and names the lookup of each, `in_flight` holds
the addresses with a pending query and their numbers, the hint transaction of a lookup is one of its
pending ids, at most `max_active` lookups are active and none of them is finished, so that they can be
finished without a failing assertion; and `abort_all` empties the three tables. -/
theorem tables_consistent (net : Inet) (limits : LookupLimits) (nodeFilter : Node → Bool) (start : ℚ)
    (calls : List LookupCall) (m : LookupManager)
    (hrun : (lookupMachine net).run (.new limits nodeFilter start) calls = some m)
    (hreuse : NoReuse m.log) :
    (∀ h h' lookup lookup', m.active.get? h = some lookup → m.active.get? h' = some lookup' →
        h ≠ h' → ∀ transactionId, lookup.pending.contains transactionId →
          ¬ lookup'.pending.contains transactionId) ∧
      (∀ transactionId h, m.transactions.get? transactionId = some h ↔
        ∃ lookup, m.active.get? h = some lookup ∧ lookup.infoHash = h ∧
          lookup.pending.contains transactionId) ∧
      (∀ address, m.inFlight.get? address =
        if m.pendingTo address = 0 then none else some (m.pendingTo address : ℤ)) ∧
      (∀ h lookup transactionId, m.active.get? h = some lookup →
        lookup.hintTransaction = some transactionId → lookup.pending.contains transactionId) ∧
      m.active.size ≤ m.limits.maxActive ∧
      (∀ h lookup, m.active.get? h = some lookup → lookup.finished = false) ∧
      (∀ h lookup, m.active.get? h = some lookup → (m.finish lookup).raised = m.raised) ∧
      m.abortAll.active.size = 0 ∧ m.abortAll.transactions.size = 0 ∧
        m.abortAll.inFlight.size = 0 := by
  have hstart : ConsistentUnlessReused (new limits nodeFilter start) := by
    intro _
    refine ⟨Nat.zero_le _, ?_, ?_, ?_, ?_, ?_⟩
    · exact fun _ _ _ hget ↦ by cases hget
    · exact fun _ _ ↦ ⟨fun hget ↦ (by cases hget), fun ⟨_, hget, _⟩ ↦ (by cases hget)⟩
    · exact fun _ ↦ rfl
    · exact fun _ _ _ _ hget ↦ by cases hget
    · exact fun _ hmem ↦ absurd hmem List.not_mem_nil
  obtain ⟨hkeyed, hend⟩ := (consistent_rules net).run_any (keyed_new limits nodeFilter start) hstart
    hrun
  have hconsistent := hend hreuse
  have haborted := ((consistent_rules net).apply hkeyed hend .abortAll
    (callOffer_any net m .abortAll)).2 (noReuse_abortAll hreuse)
  have hempty := get?_abortAll hkeyed
  refine ⟨?_, ?_, hconsistent.inFlight, hconsistent.hint, hconsistent.size,
    fun h lookup hget ↦ (hkeyed h lookup hget).2.1,
    fun h lookup hget ↦ raised_finish m (hkeyed h lookup hget).2.1, ?_, ?_, ?_⟩
  · intro h h' lookup lookup' hget hget' hne transactionId hcontains hcontains'
    have hfirst := (hconsistent.transactions transactionId h).mpr ⟨lookup, hget, hcontains⟩
    have hsecond := (hconsistent.transactions transactionId h').mpr ⟨lookup', hget', hcontains'⟩
    exact hne (Option.some.inj (hfirst.symm.trans hsecond))
  · intro transactionId h
    refine (hconsistent.transactions transactionId h).trans ⟨?_, ?_⟩
    · rintro ⟨lookup, hget, hcontains⟩
      exact ⟨lookup, hget, (hkeyed h lookup hget).1, hcontains⟩
    · rintro ⟨lookup, hget, -, hcontains⟩
      exact ⟨lookup, hget, hcontains⟩
  · exact OrderedMap.size_eq_zero_iff.mpr hempty
  · rw [OrderedMap.size_eq_zero_iff]
    intro transactionId
    rw [Option.eq_none_iff_forall_ne_some]
    intro h howned
    obtain ⟨lookup, hget, -⟩ := (haborted.transactions transactionId h).mp howned
    have hnone : m.abortAll.active.get? h = some lookup := hget
    rw [hempty] at hnone
    cases hnone
  · rw [OrderedMap.size_eq_zero_iff]
    intro address
    have hnone : (m.abortAll).pendingTo address = 0 := by
      have hvalues : m.abortAll.active.values = [] := by
        rw [OrderedMap.values, List.length_eq_zero_iff.mp (OrderedMap.size_eq_zero_iff.mpr hempty)]
        rfl
      rw [pendingTo, hvalues]
      rfl
    exact (haborted.inFlight address).trans (if_pos hnone)

/-- One lookup has one query pending. -/
theorem tables_consistent_start :
    let m := sampleManager.apply sampleInet sampleStart
    (∀ transactionId h, m.transactions.get? transactionId = some h ↔
        ∃ lookup, m.active.get? h = some lookup ∧ lookup.infoHash = h ∧
          lookup.pending.contains transactionId) ∧
      m.abortAll.active.size = 0 ∧ m.abortAll.transactions.size = 0 ∧
        m.abortAll.inFlight.size = 0 := by
  have hreuse : NoReuse (sampleManager.apply sampleInet sampleStart).log :=
    noReuse_of_few (by decide +kernel)
  obtain ⟨-, htransactions, -, -, -, -, -, haborted⟩ := tables_consistent sampleInet defaultLookupLimits
    (fun _ ↦ true) 0 [sampleStart] _ (run_of_returns (by decide +kernel)) hreuse
  exact ⟨htransactions, haborted⟩

end LookupManager

end DhtScraper
