import DhtScraper.Lookup.Caps

/-!
# What the lookup manager lets in

Only nodes that pass the filter are kept in a shortlist or asked, and only routable peers are kept
or reported.
-/

namespace DhtScraper

open Library

/-- What a callback of the manager is called with. -/
def LookupEvent.WellFormed (net : Inet) (nodeFilter : Node → Bool) : LookupEvent → Prop
  | .sent _ _ transactionId node infoHash =>
    transactionId.length = lookupTransactionIdLength ∧ infoHash.length = nodeIdLength ∧
      node.nodeId.length = nodeIdLength ∧ nodeFilter node
  | .foundPeers _ infoHash peers =>
    infoHash.length = nodeIdLength ∧ ∀ peer ∈ peers, isRoutableAddress net peer
  | .finished _ infoHash peers =>
    infoHash.length = nodeIdLength ∧ ∀ peer ∈ peers, isRoutableAddress net peer
  | _ => True

namespace LookupManager

variable {net : Inet} {limits : LookupLimits} {nodeFilter : Node → Bool} {m m' : LookupManager}
  {lookup lookup' : PeerLookup}

/-- The nodes and the peers of a lookup. -/
structure FilteredLookup (net : Inet) (nodeFilter : Node → Bool) (lookup : PeerLookup) : Prop where
  length : lookup.infoHash.length = nodeIdLength
  shortlist : ∀ node ∈ lookup.shortlist.values,
    node.nodeId.length = nodeIdLength ∧ nodeFilter node
  foundPeers : ∀ peer ∈ lookup.foundPeers.keys, isRoutableAddress net peer

structure Filtered (net : Inet) (limits : LookupLimits) (nodeFilter : Node → Bool)
    (m : LookupManager) : Prop where
  limits_eq : m.limits = limits
  filter_eq : m.nodeFilter = nodeFilter
  lookups : ∀ h lookup, m.active.get? h = some lookup → FilteredLookup net nodeFilter lookup
  log : ∀ event ∈ m.log, event.WellFormed net nodeFilter

theorem Filtered.self (h : (m.save lookup).Filtered net limits nodeFilter) :
    FilteredLookup net nodeFilter lookup :=
  h.lookups lookup.infoHash lookup ((get?_save _ _ _).trans (if_pos rfl))

theorem Filtered.usable (h : m.Filtered net limits nodeFilter) {node : Node}
    (husable : m.isUsableNode node) : node.nodeId.length = nodeIdLength ∧ nodeFilter node := by
  rw [isUsableNode, Bool.and_eq_true, h.filter_eq] at husable
  exact ⟨by simpa [isValidNodeId] using husable.1, husable.2⟩

/-- Small steps change the lookup they work on and add events. -/
theorem Filtered.kept (h : (m.save lookup).Filtered net limits nodeFilter)
    (hlimits : m'.limits = m.limits) (hfilter : m'.nodeFilter = m.nodeFilter)
    (hactive : m'.active = m.active) (hkey : lookup'.infoHash = lookup.infoHash)
    (hlookup : FilteredLookup net nodeFilter lookup')
    (hlog : ∀ event ∈ m'.log, event ∈ m.log ∨ event.WellFormed net nodeFilter) :
    (m'.save lookup').Filtered net limits nodeFilter where
  limits_eq := hlimits.trans h.limits_eq
  filter_eq := hfilter.trans h.filter_eq
  lookups := by
    intro k other hother
    rw [get?_save, hkey, hactive] at hother
    split at hother
    · rw [← Option.some.inj hother]
      exact hlookup
    next hk => exact h.lookups k other ((get?_save _ _ _).trans ((if_neg hk).trans hother))
  log := fun event hevent ↦ (hlog event hevent).elim (h.log event) id

/-- The steps that add no event. -/
theorem Filtered.quiet (h : (m.save lookup).Filtered net limits nodeFilter)
    (hlimits : m'.limits = m.limits) (hfilter : m'.nodeFilter = m.nodeFilter)
    (hactive : m'.active = m.active) (hkey : lookup'.infoHash = lookup.infoHash)
    (hlookup : FilteredLookup net nodeFilter lookup') (hlog : m'.log = m.log) :
    (m'.save lookup').Filtered net limits nodeFilter :=
  h.kept hlimits hfilter hactive hkey hlookup fun _ hevent ↦ Or.inl (hlog ▸ hevent)

theorem Filtered.of_eq (h : m.Filtered net limits nodeFilter) (hlimits : m'.limits = m.limits)
    (hfilter : m'.nodeFilter = m.nodeFilter) (hactive : m'.active = m.active)
    (hlog : m'.log = m.log) : m'.Filtered net limits nodeFilter :=
  ⟨hlimits.trans h.limits_eq, hfilter.trans h.filter_eq, hactive ▸ h.lookups, hlog ▸ h.log⟩

theorem Filtered.shortlisted (h : (m.save lookup).Filtered net limits nodeFilter)
    (nodes : List Node) :
    FilteredLookup net nodeFilter (m.addToShortlist lookup nodes).2 := by
  have hmem {node : Node} (hnode : node ∈ (m.addToShortlist lookup nodes).2.shortlist.values) :
      node ∈ lookup.shortlist.values ++ nodes.filter (m.isNewNode lookup) :=
    mem_values_addToShortlist hnode
  obtain ⟨-, shortlist, heq⟩ := ManagerRules.addToShortlist_kept m lookup nodes
  rw [heq] at hmem ⊢
  refine ⟨h.self.length, fun node hnode ↦ ?_, h.self.foundPeers⟩
  rcases List.mem_append.mp (hmem hnode) with hold | hnew
  · exact h.self.shortlist node hold
  · have hnew := (List.mem_filter.mp hnew).2
    rw [isNewNode, Bool.and_eq_true] at hnew
    exact h.usable (m := m.save lookup) hnew.1

/-- The peers of a reply that are taken in are routable. -/
theorem Filtered.took (h : (m.save lookup).Filtered net limits nodeFilter) (fromHint : Bool)
    (values : List Address) :
    ((m.takeValues net lookup fromHint values).1.save
      (m.takeValues net lookup fromHint values).2).Filtered net limits nodeFilter := by
  have hspec := addFoundPeers_spec net m.limits.maxPeers values lookup.foundPeers
  have hlookup : FilteredLookup net nodeFilter (m.takeValues net lookup fromHint values).2 := by
    refine ⟨h.self.length, h.self.shortlist, fun peer hpeer ↦ ?_⟩
    have hkeys : (m.takeValues net lookup fromHint values).2.foundPeers.keys = _ := hspec.keys
    rw [hkeys] at hpeer
    exact (List.mem_append.mp hpeer).elim (h.self.foundPeers peer) (hspec.routable peer)
  unfold takeValues at hlookup ⊢
  dsimp only at hlookup ⊢
  split
  · exact h.quiet rfl rfl rfl rfl hlookup rfl
  · refine h.kept rfl rfl rfl rfl hlookup fun event hevent ↦ ?_
    rcases List.mem_append.mp hevent with hold | hnew
    · exact Or.inl hold
    · rw [List.mem_singleton.mp hnew]
      exact Or.inr ⟨h.self.length, hspec.routable⟩

theorem filtered_rules (net : Inet) (limits : LookupLimits) (nodeFilter : Node → Bool) :
    ManagerRules net anyOffer (Filtered net limits nodeFilter) where
  step :=
    { checked := fun m lookup b h ↦ h.quiet rfl rfl rfl rfl h.self rfl
      counted := fun m lookup queries answers h ↦ h.quiet rfl rfl rfl rfl h.self rfl
      refilled := fun m lookup now h ↦ h.quiet rfl rfl rfl rfl h.self rfl
      shortlisted := by
        intro m lookup nodes _ h
        have hlookup := h.shortlisted nodes
        obtain ⟨-, shortlist, heq⟩ := ManagerRules.addToShortlist_kept m lookup nodes
        rw [heq] at hlookup ⊢
        exact h.quiet rfl rfl rfl rfl hlookup rfl
      sent := by
        intro m lookup node now timeout hsend h
        refine h.kept rfl rfl rfl rfl
          ⟨h.self.length, h.self.shortlist, h.self.foundPeers⟩ fun event hevent ↦ ?_
        rcases List.mem_append.mp hevent with hold | hnew
        · exact Or.inl hold
        · rw [List.mem_singleton.mp hnew]
          have hnode : node.nodeId.length = nodeIdLength ∧ nodeFilter node :=
            hsend.known.elim (h.self.shortlist node) h.usable
          exact Or.inr ⟨length_lookupTransactionId _, h.self.length, hnode⟩
      hinted := fun m lookup transactionId _ h ↦ h.quiet rfl rfl rfl rfl
        ⟨h.self.length, h.self.shortlist, h.self.foundPeers⟩ rfl
      released := by
        intro m lookup transactionId query hget h
        simp only [LookupManager.releaseTransaction, hget]
        refine h.kept rfl rfl rfl rfl
          ⟨h.self.length, h.self.shortlist, h.self.foundPeers⟩ fun event hevent ↦ ?_
        rcases List.mem_append.mp hevent with hold | hnew
        · exact Or.inl hold
        · rw [List.mem_singleton.mp hnew]
          exact Or.inr trivial
      found := fun m lookup fromHint values h ↦ h.took fromHint values }
  checked := fun m b h ↦ h.of_eq rfl rfl rfl rfl
  refilled := fun m now h ↦ h.of_eq rfl rfl rfl rfl
  forgot := fun m transactionId infoHash _ _ h ↦ h.of_eq rfl rfl rfl rfl
  started := by
    intro m infoHash now hlength _ _ _ h
    refine ⟨h.limits_eq, h.filter_eq, fun k other hother ↦ ?_, fun event hevent ↦ ?_⟩
    · rw [withNewLookup, get?_save] at hother
      split at hother
      · rw [← Option.some.inj hother]
        exact ⟨hlength, fun _ hnode ↦ absurd hnode List.not_mem_nil,
          fun _ hpeer ↦ absurd hpeer List.not_mem_nil⟩
      · exact h.lookups k other hother
    · rcases List.mem_append.mp hevent with hold | hnew
      · exact h.log event hold
      · rw [List.mem_singleton.mp hnew]
        trivial
  closed := by
    intro m lookup _ h
    refine ⟨h.limits_eq, h.filter_eq, fun k other hother ↦ ?_, fun event hevent ↦ ?_⟩
    · have hget : (m.active.erase lookup.infoHash).get? k = some other := hother
      rw [OrderedMap.get?_erase] at hget
      split at hget
      · cases hget
      next hk => exact h.lookups k other ((get?_save _ _ _).trans ((if_neg hk).trans hget))
    · rcases List.mem_append.mp hevent with hold | hnew
      · exact h.log event hold
      · rw [List.mem_singleton.mp hnew]
        refine ⟨h.self.length, fun peer hpeer ↦ h.self.foundPeers peer ?_⟩
        exact (List.perm_insertionSort _ _).mem_iff.mp hpeer

theorem filtered_new (net : Inet) (limits : LookupLimits) (nodeFilter : Node → Bool) (start : ℚ) :
    (new limits nodeFilter start).Filtered net limits nodeFilter :=
  ⟨rfl, rfl, (fun _ _ hget ↦ by cases hget), fun _ hevent ↦ absurd hevent List.not_mem_nil⟩

end LookupManager

end DhtScraper
