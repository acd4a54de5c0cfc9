import DhtScraper.Lookup.Rules

/-!
# Every lookup ends once, with the peers it streamed

A lookup is followed through the log by its number.  While it is active it has streamed exactly the
peers it found and has no result; when it leaves the table it gets its one result, the sorted list
of these peers.
-/

namespace DhtScraper

open Library

namespace LookupEvent

/-- The peers given to `on_peers` for a lookup. -/
def batchOf (number : ℕ) : LookupEvent → Option (List Address)
  | .foundPeers lookup _ peers => if lookup = number then some peers else none
  | _ => none

/-- The peers given to `on_finished` for a lookup. -/
def resultOf (number : ℕ) : LookupEvent → Option (List Address)
  | .finished lookup _ peers => if lookup = number then some peers else none
  | _ => none

/-- Queries and their release. -/
def isTraffic : LookupEvent → Bool
  | .sent .. => true
  | .released .. => true
  | _ => false

end LookupEvent

def batches (log : List LookupEvent) (number : ℕ) : List (List Address) :=
  log.filterMap (LookupEvent.batchOf number)

def results (log : List LookupEvent) (number : ℕ) : List (List Address) :=
  log.filterMap (LookupEvent.resultOf number)

theorem batches_append (log events : List LookupEvent) (number : ℕ) :
    batches (log ++ events) number = batches log number ++ batches events number :=
  List.filterMap_append

theorem results_append (log events : List LookupEvent) (number : ℕ) :
    results (log ++ events) number = results log number ++ results events number :=
  List.filterMap_append

/-- Traffic is neither a batch nor a result. -/
theorem no_batch_of_traffic {events : List LookupEvent} (h : ∀ event ∈ events, event.isTraffic)
    (number : ℕ) : batches events number = [] ∧ results events number = [] := by
  constructor
  · refine List.filterMap_eq_nil_iff.mpr fun event hevent ↦ ?_
    have htraffic := h event hevent
    cases event <;> first | rfl | cases htraffic
  · refine List.filterMap_eq_nil_iff.mpr fun event hevent ↦ ?_
    have htraffic := h event hevent
    cases event <;> first | rfl | cases htraffic

/-! ## The peers of one reply -/

/-- The peers of a reply that are new: routable, distinct, not found before, and as many as fit. -/
structure NewPeers (net : Inet) (maxPeers : ℕ) (found found' : OrderedMap Address Unit)
    (added : List Address) : Prop where
  keys : found'.keys = found.keys ++ added
  routable : ∀ peer ∈ added, isRoutableAddress net peer
  size : found.size ≤ maxPeers → found'.size ≤ maxPeers

theorem keys_insert_of_absent {found : OrderedMap Address Unit} {peer : Address}
    (h : ¬ found.contains peer) : (found.insert peer ()).keys = found.keys ++ [peer] := by
  have hnone : found.get? peer = none := by simpa [OrderedMap.contains] using h
  rw [OrderedMap.insert, if_neg h, OrderedMap.keys, OrderedMap.insertLast]
  simp [OrderedMap.erase_eq_self hnone, OrderedMap.keys]

theorem addFoundPeers_spec (net : Inet) (maxPeers : ℕ) (values : List Address) :
    ∀ found : OrderedMap Address Unit, NewPeers net maxPeers found
      (LookupManager.addFoundPeers net maxPeers found values).1
      (LookupManager.addFoundPeers net maxPeers found values).2 := by
  induction values with
  | nil =>
    exact fun found ↦ ⟨(List.append_nil _).symm, fun _ hp ↦ absurd hp List.not_mem_nil, id⟩
  | cons peer rest ih =>
    intro found
    unfold LookupManager.addFoundPeers
    split
    next hnew =>
      obtain ⟨hroutable, habsent, hroom⟩ := hnew
      have hrest := ih (found.insert peer ())
      have hkeys := keys_insert_of_absent habsent
      constructor
      case keys =>
        rw [hrest.keys, hkeys, List.append_assoc]
        rfl
      case routable =>
        intro other hother
        rcases List.mem_cons.mp hother with rfl | hother
        · exact hroutable
        · exact hrest.routable other hother
      case size =>
        exact fun _ ↦ hrest.size (le_trans (found.size_insert_le peer ()) hroom)
    next => exact ih found

namespace LookupManager

variable {net : Inet} {m m' : LookupManager} {lookup lookup' : PeerLookup}

/-! ## Streams and results -/

/-- Where the lookups stand, by their numbers. -/
structure Streams (net : Inet) (m : LookupManager) : Prop where
  numbered : ∀ h lookup, m.active.get? h = some lookup → lookup.number < m.startedTotal
  distinct : ∀ h h' lookup lookup', m.active.get? h = some lookup →
    m.active.get? h' = some lookup' → lookup.number = lookup'.number → h = h'
  found : ∀ h lookup, m.active.get? h = some lookup →
    (batches m.log lookup.number).flatten = lookup.foundPeers.keys ∧
      lookup.foundPeers.size ≤ m.limits.maxPeers
  routable : ∀ n, ∀ peer ∈ (batches m.log n).flatten, isRoutableAddress net peer
  bounded : ∀ n, (batches m.log n).flatten.length ≤ m.limits.maxPeers
  nodup : ∀ n, (batches m.log n).flatten.Nodup
  running : ∀ h lookup, m.active.get? h = some lookup → results m.log lookup.number = []
  ended : ∀ n < m.startedTotal, (∀ h lookup, m.active.get? h = some lookup → lookup.number ≠ n) →
    results m.log n = [sortedAddresses (batches m.log n).flatten]
  unstarted : ∀ n, m.startedTotal ≤ n → batches m.log n = [] ∧ results m.log n = []
  started : ∀ n h now, LookupEvent.started n h now ∈ m.log → n < m.startedTotal ∧
    ∀ k lookup, m.active.get? k = some lookup → lookup.number = n →
      lookup.deadline = now + m.limits.deadline

/-- Steps that only add traffic to the log. -/
theorem Streams.transfer (hs : (m.save lookup).Streams net) (hactive : m'.active = m.active)
    (hkey : lookup'.infoHash = lookup.infoHash) (hnumber : lookup'.number = lookup.number)
    (hfound : lookup'.foundPeers = lookup.foundPeers) (hdeadline : lookup'.deadline = lookup.deadline)
    (hlimits : m'.limits = m.limits) (hstarted : m'.startedTotal = m.startedTotal)
    {events : List LookupEvent} (hlog : m'.log = m.log ++ events)
    (htraffic : ∀ event ∈ events, event.isTraffic) : (m'.save lookup').Streams net := by
  have hbatches (n : ℕ) : batches (m'.save lookup').log n = batches (m.save lookup).log n := by
    rw [show (m'.save lookup').log = m.log ++ events from hlog, batches_append,
      (no_batch_of_traffic htraffic n).1, List.append_nil]
    rfl
  have hresults (n : ℕ) : results (m'.save lookup').log n = results (m.save lookup).log n := by
    rw [show (m'.save lookup').log = m.log ++ events from hlog, results_append,
      (no_batch_of_traffic htraffic n).2, List.append_nil]
    rfl
  have hlimit : (m'.save lookup').limits = (m.save lookup).limits := hlimits
  have htotal : (m'.save lookup').startedTotal = (m.save lookup).startedTotal := hstarted
  -- an active lookup and its state before the step agree on what is followed here
  have hback {k : Bytes} {other : PeerLookup}
      (hother : (m'.save lookup').active.get? k = some other) :
      ∃ before, (m.save lookup).active.get? k = some before ∧ other.number = before.number ∧
        other.foundPeers = before.foundPeers ∧ other.deadline = before.deadline := by
    rw [get?_save, hkey, hactive] at hother
    rw [get?_save]
    by_cases hk : k = lookup.infoHash
    · rw [if_pos hk, Option.some.injEq] at hother
      rw [if_pos hk, ← hother]
      exact ⟨lookup, rfl, hnumber, hfound, hdeadline⟩
    · rw [if_neg hk] at hother ⊢
      exact ⟨other, hother, rfl, rfl, rfl⟩
  have hforth {k : Bytes} {before : PeerLookup}
      (hbefore : (m.save lookup).active.get? k = some before) :
      ∃ other, (m'.save lookup').active.get? k = some other ∧ other.number = before.number := by
    rw [get?_save] at hbefore
    rw [get?_save, hkey, hactive]
    by_cases hk : k = lookup.infoHash
    · rw [if_pos hk, Option.some.injEq] at hbefore
      rw [if_pos hk, ← hbefore]
      exact ⟨lookup', rfl, hnumber⟩
    · rw [if_neg hk] at hbefore ⊢
      exact ⟨before, hbefore, rfl⟩
  constructor
  case numbered =>
    intro h other hother
    obtain ⟨before, hbefore, hsame, -, -⟩ := hback hother
    rw [hsame, htotal]
    exact hs.numbered h before hbefore
  case distinct =>
    intro h h' other other' hother hother' heq
    obtain ⟨before, hbefore, hsame, -, -⟩ := hback hother
    obtain ⟨before', hbefore', hsame', -, -⟩ := hback hother'
    exact hs.distinct h h' before before' hbefore hbefore' (by rw [← hsame, ← hsame', heq])
  case found =>
    intro h other hother
    obtain ⟨before, hbefore, hsame, hpeers, -⟩ := hback hother
    rw [hbatches, hsame, hpeers, hlimit]
    exact hs.found h before hbefore
  case routable =>
    intro n
    rw [hbatches]
    exact hs.routable n
  case bounded =>
    intro n
    rw [hbatches, hlimit]
    exact hs.bounded n
  case nodup =>
    intro n
    rw [hbatches]
    exact hs.nodup n
  case running =>
    intro h other hother
    obtain ⟨before, hbefore, hsame, -, -⟩ := hback hother
    rw [hresults, hsame]
    exact hs.running h before hbefore
  case ended =>
    intro n hn hnone
    rw [hresults, hbatches]
    refine hs.ended n (htotal ▸ hn) fun h before hbefore heq ↦ ?_
    obtain ⟨other, hother, hsame⟩ := hforth hbefore
    exact hnone h other hother (hsame.trans heq)
  case unstarted =>
    intro n hn
    rw [hbatches, hresults]
    exact hs.unstarted n (htotal ▸ hn)
  case started =>
    intro n h now hmem
    have hold : LookupEvent.started n h now ∈ (m.save lookup).log := by
      rw [show (m'.save lookup').log = m.log ++ events from hlog] at hmem
      rcases List.mem_append.mp hmem with hmem | hmem
      · exact hmem
      · cases htraffic _ hmem
    obtain ⟨hn, hdeadlines⟩ := hs.started n h now hold
    refine ⟨htotal ▸ hn, fun k other hother hnum ↦ ?_⟩
    obtain ⟨before, hbefore, hsame, -, hdead⟩ := hback hother
    rw [hdead, hlimit]
    exact hdeadlines k before hbefore (hsame ▸ hnum)

/-- Found peers are streamed at once. -/
theorem Streams.foundPeers (hs : (m.save lookup).Streams net) (fromHint : Bool)
    (values : List Address) : ((m.takeValues net lookup fromHint values).1.save
      (m.takeValues net lookup fromHint values).2).Streams net := by
  let found := addFoundPeers net m.limits.maxPeers lookup.foundPeers values
  have hnew : NewPeers net m.limits.maxPeers lookup.foundPeers found.1 found.2 :=
    addFoundPeers_spec net m.limits.maxPeers values lookup.foundPeers
  let next := m.takeValues net lookup fromHint values
  have hactive : next.1.active = m.active ∧ next.1.limits = m.limits ∧
      next.1.startedTotal = m.startedTotal := by
    simp only [next, takeValues]
    split <;> exact ⟨rfl, rfl, rfl⟩
  have hself : (m.save lookup).active.get? lookup.infoHash = some lookup := by
    rw [get?_save, if_pos rfl]
  have hbatches (n : ℕ) : (batches (next.1.save next.2).log n).flatten =
      (batches (m.save lookup).log n).flatten ++ if n = lookup.number then found.2 else [] := by
    have hlog : (next.1.save next.2).log = m.log ++
        if found.2 = [] then [] else [.foundPeers lookup.number lookup.infoHash found.2] := by
      simp only [next, takeValues, save]
      by_cases hempty : found.2 = []
      · rw [if_pos hempty, show (addFoundPeers net m.limits.maxPeers lookup.foundPeers
          values).2 = [] from hempty]
        simp
      · rw [if_neg hempty, if_neg (show ¬ (addFoundPeers net m.limits.maxPeers lookup.foundPeers
          values).2 = [] from hempty)]
        rfl
    rw [hlog, batches_append, List.flatten_append]
    congr 1
    by_cases hempty : found.2 = []
    · simp [hempty, batches]
    · by_cases hn : n = lookup.number
      · simp [hempty, hn, batches, LookupEvent.batchOf]
      · simp [hempty, hn, Ne.symm hn, batches, LookupEvent.batchOf]
  have hresults (n : ℕ) : results (next.1.save next.2).log n = results (m.save lookup).log n := by
    simp only [next, takeValues, save]
    split
    · rfl
    · exact (results_append _ _ n).trans (List.append_nil _)
  have hget (k : Bytes) : (next.1.save next.2).active.get? k =
      if k = lookup.infoHash then some next.2 else m.active.get? k := by
    rw [get?_save, hactive.1]
    rfl
  have hback {k : Bytes} {other : PeerLookup}
      (hother : (next.1.save next.2).active.get? k = some other) :
      ∃ before, (m.save lookup).active.get? k = some before ∧ other.number = before.number ∧
        other.deadline = before.deadline := by
    rw [hget] at hother
    rw [get?_save]
    by_cases hk : k = lookup.infoHash
    · rw [if_pos hk, Option.some.injEq] at hother
      rw [if_pos hk, ← hother]
      exact ⟨lookup, rfl, rfl, rfl⟩
    · rw [if_neg hk] at hother ⊢
      exact ⟨other, hother, rfl, rfl⟩
  obtain ⟨hstreamed, hfits⟩ := hs.found _ _ hself
  have hkeys : (batches (next.1.save next.2).log lookup.number).flatten = found.1.keys := by
    rw [hbatches, if_pos rfl, hstreamed, hnew.keys]
  have hsize := hnew.size hfits
  constructor
  case numbered =>
    intro h other hother
    obtain ⟨before, hbefore, hsame, -⟩ := hback hother
    rw [hsame, show (next.1.save next.2).startedTotal = m.startedTotal from hactive.2.2]
    exact hs.numbered h before hbefore
  case distinct =>
    intro h h' other other' hother hother' heq
    obtain ⟨before, hbefore, hsame, -⟩ := hback hother
    obtain ⟨before', hbefore', hsame', -⟩ := hback hother'
    exact hs.distinct h h' before before' hbefore hbefore' (by rw [← hsame, ← hsame', heq])
  case found =>
    intro h other hother
    rw [show (next.1.save next.2).limits = m.limits from hactive.2.1]
    by_cases hk : h = lookup.infoHash
    · rw [hget, if_pos hk, Option.some.injEq] at hother
      rw [← hother]
      exact ⟨hkeys, hsize⟩
    · rw [hget, if_neg hk] at hother
      have hbefore : (m.save lookup).active.get? h = some other := by
        rw [get?_save, if_neg hk, hother]
      have hne : other.number ≠ lookup.number := fun heq ↦
        hk (hs.distinct _ _ _ _ hbefore hself heq)
      rw [hbatches, if_neg hne, List.append_nil]
      exact hs.found h other hbefore
  case routable =>
    intro n peer hpeer
    rw [hbatches] at hpeer
    rcases List.mem_append.mp hpeer with hold | hfresh
    · exact hs.routable n peer hold
    · split at hfresh
      · exact hnew.routable peer hfresh
      · cases hfresh
  case bounded =>
    intro n
    rw [show (next.1.save next.2).limits = m.limits from hactive.2.1]
    by_cases hn : n = lookup.number
    · rw [hn, hkeys, OrderedMap.keys, List.length_map]
      exact hsize
    · rw [hbatches, if_neg hn, List.append_nil]
      exact hs.bounded n
  case nodup =>
    intro n
    by_cases hn : n = lookup.number
    · rw [hn, hkeys]
      exact found.1.nodup
    · rw [hbatches, if_neg hn, List.append_nil]
      exact hs.nodup n
  case running =>
    intro h other hother
    obtain ⟨before, hbefore, hsame, -⟩ := hback hother
    rw [hresults, hsame]
    exact hs.running h before hbefore
  case ended =>
    intro n hn hnone
    have hne : n ≠ lookup.number := fun heq ↦
      hnone lookup.infoHash next.2 ((hget _).trans (if_pos rfl)) heq.symm
    rw [hresults, hbatches, if_neg hne, List.append_nil]
    refine hs.ended n (hactive.2.2 ▸ hn) fun h before hbefore heq ↦ ?_
    rw [get?_save] at hbefore
    by_cases hk : h = lookup.infoHash
    · rw [if_pos hk, Option.some.injEq] at hbefore
      exact hne (by rw [hbefore, heq])
    · rw [if_neg hk] at hbefore
      exact hnone h before ((hget h).trans ((if_neg hk).trans hbefore)) heq
  case unstarted =>
    intro n hn
    rw [show (next.1.save next.2).startedTotal = m.startedTotal from hactive.2.2] at hn
    have hne : n ≠ lookup.number := fun heq ↦
      absurd (hs.numbered _ _ hself) (not_lt.mpr (heq ▸ hn))
    obtain ⟨hnone, hnoresult⟩ := hs.unstarted n hn
    refine ⟨?_, by rw [hresults]; exact hnoresult⟩
    simp only [takeValues, save]
    split
    · exact hnone
    · refine (batches_append m.log _ n).trans ?_
      rw [show batches m.log n = [] from hnone]
      simp [batches, LookupEvent.batchOf, Ne.symm hne]
  case started =>
    intro n h now hmem
    have hold : LookupEvent.started n h now ∈ (m.save lookup).log := by
      simp only [takeValues, save] at hmem
      split at hmem
      · exact hmem
      · rcases List.mem_append.mp hmem with hmem | hmem
        · exact hmem
        · cases List.mem_singleton.mp hmem
    obtain ⟨hn, hdeadlines⟩ := hs.started n h now hold
    rw [show (next.1.save next.2).startedTotal = m.startedTotal from hactive.2.2,
      show (next.1.save next.2).limits = m.limits from hactive.2.1]
    refine ⟨hn, fun k other hother hnum ↦ ?_⟩
    obtain ⟨before, hbefore, hsame, hdead⟩ := hback hother
    rw [hdead]
    exact hdeadlines k before hbefore (hsame ▸ hnum)

/-- A started lookup has streamed nothing. -/
theorem Streams.started' (hs : m.Streams net) {infoHash : Bytes}
    (hnone : m.active.get? infoHash = none) (now : ℚ) :
    (m.withNewLookup infoHash now).Streams net := by
  let opened := PeerLookup.new m.startedTotal infoHash (now + m.limits.deadline)
  have hget (k : Bytes) : (m.withNewLookup infoHash now).active.get? k =
      if k = infoHash then some opened else m.active.get? k := get?_save _ _ _
  have hlog : (m.withNewLookup infoHash now).log =
      m.log ++ [.started m.startedTotal infoHash now] := rfl
  have htotal : (m.withNewLookup infoHash now).startedTotal = m.startedTotal + 1 := rfl
  have hbatches (n : ℕ) : batches (m.withNewLookup infoHash now).log n = batches m.log n := by
    rw [hlog, batches_append]
    exact List.append_nil _
  have hresults (n : ℕ) : results (m.withNewLookup infoHash now).log n = results m.log n := by
    rw [hlog, results_append]
    exact List.append_nil _
  obtain ⟨hnobatch, hnoresult⟩ := hs.unstarted m.startedTotal (Nat.le_refl _)
  have hcases {k : Bytes} {other : PeerLookup}
      (hother : (m.withNewLookup infoHash now).active.get? k = some other) :
      k = infoHash ∧ other = opened ∨ k ≠ infoHash ∧ m.active.get? k = some other := by
    rw [hget] at hother
    by_cases hk : k = infoHash
    · rw [if_pos hk, Option.some.injEq] at hother
      exact Or.inl ⟨hk, hother.symm⟩
    · rw [if_neg hk] at hother
      exact Or.inr ⟨hk, hother⟩
  constructor
  case numbered =>
    intro h other hother
    rw [htotal]
    rcases hcases hother with ⟨-, rfl⟩ | ⟨-, hold⟩
    · exact Nat.lt_succ_self _
    · exact Nat.lt_succ_of_lt (hs.numbered h other hold)
  case distinct =>
    intro h h' other other' hother hother' heq
    rcases hcases hother with ⟨hk, rfl⟩ | ⟨-, hold⟩ <;>
      rcases hcases hother' with ⟨hk', rfl⟩ | ⟨-, hold'⟩
    · rw [hk, hk']
    · exact absurd (hs.numbered h' other' hold') (by rw [← heq]; exact lt_irrefl m.startedTotal)
    · exact absurd (hs.numbered h other hold) (by rw [heq]; exact lt_irrefl m.startedTotal)
    · exact hs.distinct h h' other other' hold hold' heq
  case found =>
    intro h other hother
    rw [hbatches]
    rcases hcases hother with ⟨-, rfl⟩ | ⟨-, hold⟩
    · rw [show opened.number = m.startedTotal from rfl, hnobatch]
      exact ⟨rfl, Nat.zero_le _⟩
    · exact hs.found h other hold
  case routable =>
    intro n
    rw [hbatches]
    exact hs.routable n
  case bounded =>
    intro n
    rw [hbatches]
    exact hs.bounded n
  case nodup =>
    intro n
    rw [hbatches]
    exact hs.nodup n
  case running =>
    intro h other hother
    rw [hresults]
    rcases hcases hother with ⟨-, rfl⟩ | ⟨-, hold⟩
    · exact hnoresult
    · exact hs.running h other hold
  case ended =>
    intro n hn hnone'
    rw [hresults, hbatches]
    have hne : n ≠ m.startedTotal := fun heq ↦
      hnone' infoHash opened ((hget _).trans (if_pos rfl)) heq.symm
    refine hs.ended n (by omega) fun h other hother heq ↦ ?_
    have hk : h ≠ infoHash := fun hk ↦ by
      rw [hk, hnone] at hother
      cases hother
    exact hnone' h other ((hget h).trans ((if_neg hk).trans hother)) heq
  case unstarted =>
    intro n hn
    rw [hbatches, hresults]
    exact hs.unstarted n (le_trans (Nat.le_succ _) hn)
  case started =>
    intro n h now' hmem
    rw [hlog] at hmem
    rcases List.mem_append.mp hmem with hmem | hmem
    · obtain ⟨hn, hdeadlines⟩ := hs.started n h now' hmem
      refine ⟨Nat.lt_succ_of_lt hn, fun k other hother hnum ↦ ?_⟩
      rcases hcases hother with ⟨-, rfl⟩ | ⟨-, hold⟩
      · have hopened : m.startedTotal = n := hnum
        omega
      · exact hdeadlines k other hold hnum
    · have heq := List.mem_singleton.mp hmem
      simp only [LookupEvent.started.injEq] at heq
      obtain ⟨rfl, rfl, rfl⟩ := heq
      refine ⟨Nat.lt_succ_self _, fun k other hother hnum ↦ ?_⟩
      rcases hcases hother with ⟨-, rfl⟩ | ⟨-, hold⟩
      · rfl
      · exact absurd (hs.numbered k other hold) (by rw [hnum]; exact lt_irrefl _)

/-- A lookup that leaves the table gets its result. -/
theorem Streams.closed (hs : (m.save lookup).Streams net) : (m.close lookup).Streams net := by
  have hself : (m.save lookup).active.get? lookup.infoHash = some lookup := by
    rw [get?_save, if_pos rfl]
  have hget (k : Bytes) : (m.close lookup).active.get? k =
      if k = lookup.infoHash then none else m.active.get? k := OrderedMap.get?_erase _ _ _
  have hback {k : Bytes} {other : PeerLookup}
      (hother : (m.close lookup).active.get? k = some other) :
      (m.save lookup).active.get? k = some other ∧ other.number ≠ lookup.number := by
    rw [hget] at hother
    split at hother
    · cases hother
    next hk =>
      have hbefore : (m.save lookup).active.get? k = some other := by
        rw [get?_save, if_neg hk, hother]
      exact ⟨hbefore, fun heq ↦ hk (hs.distinct _ _ _ _ hbefore hself heq)⟩
  have hlog : (m.close lookup).log = m.log ++
      [.finished lookup.number lookup.infoHash (sortedAddresses lookup.foundPeers.keys)] := rfl
  have hbatches (n : ℕ) : batches (m.close lookup).log n = batches (m.save lookup).log n := by
    rw [hlog, batches_append]
    exact List.append_nil _
  have hresults (n : ℕ) : results (m.close lookup).log n = results (m.save lookup).log n ++
      if n = lookup.number then [sortedAddresses lookup.foundPeers.keys] else [] := by
    rw [hlog, results_append]
    congr 1
    by_cases hn : n = lookup.number
    · simp [hn, results, LookupEvent.resultOf]
    · simp [hn, Ne.symm hn, results, LookupEvent.resultOf]
  constructor
  case numbered => exact fun h other hother ↦ hs.numbered h other (hback hother).1
  case distinct =>
    exact fun h h' other other' hother hother' heq ↦
      hs.distinct h h' other other' (hback hother).1 (hback hother').1 heq
  case found =>
    intro h other hother
    rw [hbatches]
    exact hs.found h other (hback hother).1
  case routable =>
    intro n
    rw [hbatches]
    exact hs.routable n
  case bounded =>
    intro n
    rw [hbatches]
    exact hs.bounded n
  case nodup =>
    intro n
    rw [hbatches]
    exact hs.nodup n
  case running =>
    intro h other hother
    obtain ⟨hbefore, hne⟩ := hback hother
    rw [hresults, if_neg hne, List.append_nil]
    exact hs.running h other hbefore
  case ended =>
    intro n hn hnone
    rw [hresults, hbatches]
    by_cases heq : n = lookup.number
    · rw [if_pos heq, heq, hs.running _ _ hself, (hs.found _ _ hself).1, List.nil_append]
    · rw [if_neg heq, List.append_nil]
      refine hs.ended n hn fun h before hbefore hnum ↦ ?_
      rw [get?_save] at hbefore
      by_cases hk : h = lookup.infoHash
      · rw [if_pos hk, Option.some.injEq] at hbefore
        exact heq (by rw [hbefore, hnum])
      · rw [if_neg hk] at hbefore
        exact hnone h before ((hget h).trans ((if_neg hk).trans hbefore)) hnum
  case unstarted =>
    intro n hn
    obtain ⟨hnobatch, hnoresult⟩ := hs.unstarted n hn
    have hne : n ≠ lookup.number := fun heq ↦
      absurd (hs.numbered _ _ hself) (not_lt.mpr (heq ▸ hn))
    rw [hbatches, hresults, if_neg hne, List.append_nil]
    exact ⟨hnobatch, hnoresult⟩
  case started =>
    intro n h now hmem
    have hold : LookupEvent.started n h now ∈ (m.save lookup).log := by
      rw [hlog] at hmem
      rcases List.mem_append.mp hmem with hmem | hmem
      · exact hmem
      · cases List.mem_singleton.mp hmem
    obtain ⟨hn, hdeadlines⟩ := hs.started n h now hold
    exact ⟨hn, fun k other hother hnum ↦ hdeadlines k other (hback hother).1 hnum⟩

theorem Streams.of_eq (hs : m.Streams net) (hactive : m'.active = m.active)
    (hlimits : m'.limits = m.limits) (hstarted : m'.startedTotal = m.startedTotal)
    (hlog : m'.log = m.log) : m'.Streams net where
  numbered := by rw [hactive, hstarted]; exact hs.numbered
  distinct := by rw [hactive]; exact hs.distinct
  found := by rw [hactive, hlog, hlimits]; exact hs.found
  routable := by rw [hlog]; exact hs.routable
  bounded := by rw [hlog, hlimits]; exact hs.bounded
  nodup := by rw [hlog]; exact hs.nodup
  running := by rw [hactive, hlog]; exact hs.running
  ended := by rw [hactive, hlog, hstarted]; exact hs.ended
  unstarted := by rw [hlog, hstarted]; exact hs.unstarted
  started := by rw [hactive, hlog, hstarted, hlimits]; exact hs.started

theorem streams_rules (net : Inet) : ManagerRules net anyOffer (Streams net) where
  step :=
    { checked := fun _ _ _ h ↦ h.of_eq rfl rfl rfl rfl
      counted := fun _ _ _ _ h ↦ h.of_eq rfl rfl rfl rfl
      refilled := fun _ _ _ h ↦ h.of_eq rfl rfl rfl rfl
      shortlisted := by
        intro m lookup nodes _ h
        obtain ⟨-, shortlist, hlookup⟩ := ManagerRules.addToShortlist_kept m lookup nodes
        rw [hlookup]
        exact h.transfer rfl rfl rfl rfl rfl rfl rfl (List.append_nil _).symm
          fun _ hevent ↦ absurd hevent List.not_mem_nil
      sent := fun m lookup node now timeout _ h ↦
        h.transfer rfl rfl rfl rfl rfl rfl rfl rfl fun event hevent ↦ by
          rw [List.mem_singleton.mp hevent]
          rfl
      hinted := fun m lookup transactionId _ h ↦
        h.transfer rfl rfl rfl rfl rfl rfl rfl (List.append_nil _).symm
          fun _ hevent ↦ absurd hevent List.not_mem_nil
      released := by
        intro m lookup transactionId query hget h
        simp only [releaseTransaction, hget]
        exact h.transfer rfl rfl rfl rfl rfl rfl rfl rfl fun event hevent ↦ by
          rw [List.mem_singleton.mp hevent]
          rfl
      found := fun m lookup fromHint values h ↦ h.foundPeers fromHint values }
  checked := fun _ _ h ↦ h.of_eq rfl rfl rfl rfl
  refilled := fun _ _ h ↦ h.of_eq rfl rfl rfl rfl
  forgot := fun _ _ _ _ _ h ↦ h.of_eq rfl rfl rfl rfl
  started := fun m infoHash now _ hnone _ _ h ↦ h.started' hnone now
  closed := fun m lookup _ h ↦ h.closed

theorem streams_new (net : Inet) (limits : LookupLimits) (nodeFilter : Node → Bool) (start : ℚ) :
    (new limits nodeFilter start).Streams net where
  numbered := fun _ _ hget ↦ by cases hget
  distinct := fun _ _ _ _ hget ↦ by cases hget
  found := fun _ _ hget ↦ by cases hget
  routable := fun _ _ hmem ↦ absurd hmem List.not_mem_nil
  bounded := fun _ ↦ Nat.zero_le _
  nodup := fun _ ↦ List.nodup_nil
  running := fun _ _ hget ↦ by cases hget
  ended := fun n hn ↦ absurd hn (Nat.not_lt_zero n)
  unstarted := fun _ _ ↦ ⟨rfl, rfl⟩
  started := fun _ _ _ hmem ↦ absurd hmem List.not_mem_nil

/-! ## The log -/

/-- The log has grown, and what it says of a lookup carries the hash the lookup was started for. -/
structure Recorded (m₀ m : LookupManager) : Prop where
  limits : m.limits = m₀.limits
  grown : m₀.log <+: m.log
  active : ∀ h lookup, m.active.get? h = some lookup →
    ∃ now, LookupEvent.started lookup.number h now ∈ m.log
  found : ∀ n h peers, LookupEvent.foundPeers n h peers ∈ m.log →
    ∃ now, LookupEvent.started n h now ∈ m.log
  finished : ∀ n h peers, LookupEvent.finished n h peers ∈ m.log →
    ∃ now, LookupEvent.started n h now ∈ m.log
  numbered : ∀ n h now, LookupEvent.started n h now ∈ m.log → n < m.startedTotal
  unique : ∀ n h h' now now', LookupEvent.started n h now ∈ m.log →
    LookupEvent.started n h' now' ∈ m.log → h = h'

theorem Recorded.of_eq {m₀ : LookupManager} (h : Recorded m₀ m) (hactive : m'.active = m.active)
    (hlimits : m'.limits = m.limits) (hstarted : m'.startedTotal = m.startedTotal)
    (hlog : m'.log = m.log) : Recorded m₀ m' where
  limits := hlimits.trans h.limits
  grown := by rw [hlog]; exact h.grown
  active := by rw [hactive, hlog]; exact h.active
  found := by rw [hlog]; exact h.found
  finished := by rw [hlog]; exact h.finished
  numbered := by rw [hlog, hstarted]; exact h.numbered
  unique := by rw [hlog]; exact h.unique

/-- The events of a step of an active lookup are traffic, or name this lookup and its hash. -/
theorem Recorded.append {m₀ : LookupManager} (h : Recorded m₀ (m.save lookup))
    (hactive : ∀ k other, m'.active.get? k = some other →
      ∃ before, (m.save lookup).active.get? k = some before ∧ other.number = before.number)
    (hlimits : m'.limits = m.limits) (hstarted : m'.startedTotal = m.startedTotal)
    {events : List LookupEvent} (hlog : m'.log = m.log ++ events)
    (hevents : ∀ event ∈ events, event.isTraffic ∨
      (∃ peers, event = .foundPeers lookup.number lookup.infoHash peers) ∨
        ∃ peers, event = .finished lookup.number lookup.infoHash peers) : Recorded m₀ m' := by
  have hself : ∃ now, LookupEvent.started lookup.number lookup.infoHash now ∈ m.log :=
    h.active lookup.infoHash lookup ((get?_save _ _ _).trans (if_pos rfl))
  have hnew {n : ℕ} {k : Bytes} (hold : ∃ now, LookupEvent.started n k now ∈ m.log) :
      ∃ now, LookupEvent.started n k now ∈ m'.log := by
    obtain ⟨now, hmem⟩ := hold
    exact ⟨now, by rw [hlog]; exact List.mem_append_left _ hmem⟩
  have hback {n : ℕ} {k : Bytes} {now : ℚ} (hmem : LookupEvent.started n k now ∈ m'.log) :
      LookupEvent.started n k now ∈ m.log := by
    rw [hlog] at hmem
    rcases List.mem_append.mp hmem with hmem | hmem
    · exact hmem
    · rcases hevents _ hmem with htraffic | ⟨peers, heq⟩ | ⟨peers, heq⟩
      · cases htraffic
      · cases heq
      · cases heq
  constructor
  case limits => exact hlimits.trans h.limits
  case grown =>
    rw [hlog]
    exact h.grown.trans (List.prefix_append _ _)
  case active =>
    intro k other hother
    obtain ⟨before, hbefore, hnumber⟩ := hactive k other hother
    rw [hnumber]
    exact hnew (h.active k before hbefore)
  case found =>
    intro n k peers hmem
    rw [hlog] at hmem
    rcases List.mem_append.mp hmem with hmem | hmem
    · exact hnew (h.found n k peers hmem)
    · rcases hevents _ hmem with htraffic | ⟨found, heq⟩ | ⟨found, heq⟩
      · cases htraffic
      · cases heq
        exact hnew hself
      · cases heq
  case finished =>
    intro n k peers hmem
    rw [hlog] at hmem
    rcases List.mem_append.mp hmem with hmem | hmem
    · exact hnew (h.finished n k peers hmem)
    · rcases hevents _ hmem with htraffic | ⟨found, heq⟩ | ⟨found, heq⟩
      · cases htraffic
      · cases heq
      · cases heq
        exact hnew hself
  case numbered =>
    intro n k now hmem
    rw [hstarted]
    exact h.numbered n k now (hback hmem)
  case unique => exact fun n k k' now now' hk hk' ↦ h.unique n k k' now now' (hback hk) (hback hk')

/-- A step that keeps the table, the hash and the number of the lookup. -/
theorem Recorded.save {m₀ : LookupManager} (h : Recorded m₀ (m.save lookup))
    (hactive : m'.active = m.active) (hkey : lookup'.infoHash = lookup.infoHash)
    (hnumber : lookup'.number = lookup.number) (hlimits : m'.limits = m.limits)
    (hstarted : m'.startedTotal = m.startedTotal) {events : List LookupEvent}
    (hlog : m'.log = m.log ++ events) (hevents : ∀ event ∈ events, event.isTraffic ∨
      ∃ peers, event = .foundPeers lookup.number lookup.infoHash peers) :
    Recorded m₀ (m'.save lookup') := by
  refine h.append (fun k other hother ↦ ?_) hlimits hstarted hlog
    fun event hevent ↦ (hevents event hevent).imp_right Or.inl
  rw [get?_save, hkey, hactive] at hother
  rw [get?_save]
  by_cases hk : k = lookup.infoHash
  · rw [if_pos hk, Option.some.injEq] at hother
    rw [if_pos hk, ← hother]
    exact ⟨lookup, rfl, hnumber⟩
  · rw [if_neg hk] at hother ⊢
    exact ⟨other, hother, rfl⟩

theorem Recorded.opened {m₀ : LookupManager} (h : Recorded m₀ m) (infoHash : Bytes) (now : ℚ) :
    Recorded m₀ (m.withNewLookup infoHash now) := by
  have hlog : (m.withNewLookup infoHash now).log =
      m.log ++ [.started m.startedTotal infoHash now] := rfl
  have hget (k : Bytes) : (m.withNewLookup infoHash now).active.get? k = if k = infoHash then
      some (.new m.startedTotal infoHash (now + m.limits.deadline)) else m.active.get? k :=
    get?_save _ _ _
  have hnew {n : ℕ} {k : Bytes} (hold : ∃ now, LookupEvent.started n k now ∈ m.log) :
      ∃ time, LookupEvent.started n k time ∈ (m.withNewLookup infoHash now).log := by
    obtain ⟨time, hmem⟩ := hold
    exact ⟨time, by rw [hlog]; exact List.mem_append_left _ hmem⟩
  have hcases {n : ℕ} {k : Bytes} {time : ℚ}
      (hmem : LookupEvent.started n k time ∈ (m.withNewLookup infoHash now).log) :
      LookupEvent.started n k time ∈ m.log ∨ n = m.startedTotal ∧ k = infoHash := by
    rw [hlog] at hmem
    rcases List.mem_append.mp hmem with hmem | hmem
    · exact Or.inl hmem
    · cases List.mem_singleton.mp hmem
      exact Or.inr ⟨rfl, rfl⟩
  constructor
  case limits => exact h.limits
  case grown =>
    rw [hlog]
    exact h.grown.trans (List.prefix_append _ _)
  case active =>
    intro k lookup hlookup
    rw [hget] at hlookup
    split at hlookup
    next hk =>
      rw [← Option.some.inj hlookup, hk, hlog]
      exact ⟨now, List.mem_append_right _ (List.mem_singleton.mpr rfl)⟩
    next => exact hnew (h.active k lookup hlookup)
  case found =>
    intro n k peers hmem
    rw [hlog] at hmem
    rcases List.mem_append.mp hmem with hmem | hmem
    · exact hnew (h.found n k peers hmem)
    · cases List.mem_singleton.mp hmem
  case finished =>
    intro n k peers hmem
    rw [hlog] at hmem
    rcases List.mem_append.mp hmem with hmem | hmem
    · exact hnew (h.finished n k peers hmem)
    · cases List.mem_singleton.mp hmem
  case numbered =>
    intro n k time hmem
    rcases hcases hmem with hold | ⟨rfl, -⟩
    · exact Nat.lt_succ_of_lt (h.numbered n k time hold)
    · exact Nat.lt_succ_self _
  case unique =>
    intro n k k' time time' hmem hmem'
    rcases hcases hmem with hold | ⟨hn, hk⟩ <;> rcases hcases hmem' with hold' | ⟨hn', hk'⟩
    · exact h.unique n k k' time time' hold hold'
    · exact absurd (h.numbered n k time hold) (by rw [hn']; exact lt_irrefl _)
    · exact absurd (h.numbered n k' time' hold') (by rw [hn]; exact lt_irrefl _)
    · rw [hk, hk']

theorem recorded_rules (net : Inet) (m₀ : LookupManager) :
    ManagerRules net anyOffer (Recorded m₀) where
  step :=
    { checked := fun _ _ _ h ↦ h.of_eq rfl rfl rfl rfl
      counted := fun _ _ _ _ h ↦ h.of_eq rfl rfl rfl rfl
      refilled := fun _ _ _ h ↦ h.of_eq rfl rfl rfl rfl
      shortlisted := by
        intro m lookup nodes _ h
        obtain ⟨-, shortlist, hlookup⟩ := ManagerRules.addToShortlist_kept m lookup nodes
        rw [hlookup]
        exact h.save rfl rfl rfl rfl rfl (List.append_nil _).symm
          fun _ hevent ↦ absurd hevent List.not_mem_nil
      sent := fun m lookup node now timeout _ h ↦
        h.save rfl rfl rfl rfl rfl rfl fun event hevent ↦ Or.inl (by
          rw [List.mem_singleton.mp hevent]
          rfl)
      hinted := fun m lookup transactionId _ h ↦
        h.save rfl rfl rfl rfl rfl (List.append_nil _).symm
          fun _ hevent ↦ absurd hevent List.not_mem_nil
      released := by
        intro m lookup transactionId query hget h
        simp only [releaseTransaction, hget]
        exact h.save rfl rfl rfl rfl rfl rfl fun event hevent ↦ Or.inl (by
          rw [List.mem_singleton.mp hevent]
          rfl)
      found := by
        intro m lookup fromHint values h
        obtain ⟨hintValues, events, found, responses, hmanager, hlookup, hevents⟩ :=
          ManagerRules.takeValues_kept net m lookup fromHint values
        rw [hmanager, hlookup]
        exact h.save rfl rfl rfl rfl rfl rfl fun event hevent ↦ Or.inr (hevents event hevent) }
  checked := fun _ _ h ↦ h.of_eq rfl rfl rfl rfl
  refilled := fun _ _ h ↦ h.of_eq rfl rfl rfl rfl
  forgot := fun _ _ _ _ _ h ↦ h.of_eq rfl rfl rfl rfl
  started := fun m infoHash now _ _ _ _ h ↦ h.opened infoHash now
  closed := by
    intro m lookup _ h
    refine h.append (fun k other hother ↦ ⟨other, ?_, rfl⟩) rfl rfl rfl fun event hevent ↦
      Or.inr (Or.inr ⟨_, List.mem_singleton.mp hevent⟩)
    have hother' : (m.active.erase lookup.infoHash).get? k = some other := hother
    rw [OrderedMap.get?_erase] at hother'
    split at hother'
    · cases hother'
    next hk =>
      rw [get?_save, if_neg hk]
      exact hother'

end LookupManager

end DhtScraper
