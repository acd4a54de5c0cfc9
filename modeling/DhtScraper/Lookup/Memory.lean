import DhtScraper.Lookup.Trimming

/-!
# The memory of the lookup manager

What a lookup and the tables of the manager hold at most, between any two calls, whatever the
replies say.
-/

namespace DhtScraper

open Library

/-- What a lookup holds. -/
structure PeerLookup.Held (limits : LookupLimits) (lookup : PeerLookup) : Prop where
  shortlist : lookup.shortlist.size ≤ limits.shortlistSize
  queried : lookup.queried.card ≤ lookup.queriesSent
  sent : lookup.queriesSent ≤ max 1 limits.maxQueries
  pending : lookup.pending.size ≤ limits.alpha
  found : lookup.foundPeers.size ≤ limits.maxPeers

namespace LookupManager

variable {m m' : LookupManager} {lookup lookup' : PeerLookup} {limits : LookupLimits}

/-- What the manager holds: every transaction is that of a pending query of an active lookup. -/
structure Held (limits : LookupLimits) (m : LookupManager) : Prop where
  same : m.limits = limits
  active : m.active.size ≤ limits.maxActive
  lookups : ∀ h lookup, m.active.get? h = some lookup → lookup.Held limits
  owned : ∀ t ∈ m.transactions.keys, ∃ h lookup, m.active.get? h = some lookup ∧
    lookup.pending.contains t

/-! ## Small steps -/

theorem size_addToShortlist (m : LookupManager) (lookup : PeerLookup) (nodes : List Node) :
    (m.addToShortlist lookup nodes).2.shortlist.size ≤ m.limits.shortlistSize := by
  unfold addToShortlist
  dsimp only
  split
  next =>
    refine (size_foldl_insert_le _ .empty).trans ?_
    rw [show (OrderedMap.empty : OrderedMap Bytes Node).size = 0 from rfl, Nat.zero_add]
    exact length_selectClosestNodes_le _ _ _
  next hfits => exact not_lt.mp hfits

theorem size_addFoundPeers (net : Inet) (maxPeers : ℕ) (peers : List Address) :
    ∀ found : OrderedMap Address Unit, found.size ≤ maxPeers →
      (addFoundPeers net maxPeers found peers).1.size ≤ maxPeers := by
  induction peers with
  | nil => exact fun _ h ↦ h
  | cons peer rest ih =>
    intro found h
    unfold addFoundPeers
    split
    next hnew =>
      apply ih
      exact (OrderedMap.size_insert_le _ _ _).trans (Nat.succ_le_of_lt hnew.2.2)
    next => exact ih found h

/-! ## Steps of the manager -/

theorem Held.self (h : (m.save lookup).Held limits) : lookup.Held limits :=
  h.lookups lookup.infoHash lookup ((get?_save _ _ _).trans (if_pos rfl))

/-- A step changes one lookup; a new transaction is pending in it, and so is a kept one that was. -/
theorem Held.changed (h : (m.save lookup).Held limits) (hactive : m'.active = m.active)
    (hkey : lookup'.infoHash = lookup.infoHash) (hlimits : m'.limits = m.limits)
    (hheld : lookup'.Held limits)
    (howned : ∀ t ∈ m'.transactions.keys, lookup'.pending.contains t ∨
      t ∈ m.transactions.keys ∧ ¬lookup.pending.contains t) : (m'.save lookup').Held limits where
  same := hlimits.trans h.same
  active := (size_save hactive hkey).trans_le h.active
  lookups := by
    intro k other hother
    rw [get?_save, hkey, hactive] at hother
    split at hother
    · exact Option.some.inj hother ▸ hheld
    next hk => exact h.lookups k other ((get?_save _ _ _).trans ((if_neg hk).trans hother))
  owned := by
    intro t ht
    have hself : (m'.save lookup').active.get? lookup.infoHash = some lookup' := by
      rw [get?_save, if_pos hkey.symm]
    rcases howned t ht with hpending | ⟨hold, hnot⟩
    · exact ⟨lookup.infoHash, lookup', hself, hpending⟩
    · obtain ⟨k, other, hother, hcontains⟩ := h.owned t hold
      rw [get?_save] at hother
      split at hother
      · rw [← Option.some.inj hother] at hcontains
        exact absurd hcontains hnot
      next hk =>
        refine ⟨k, other, ?_, hcontains⟩
        rw [get?_save, hkey, if_neg hk, hactive]
        exact hother

/-- A step that leaves the transactions and the pending queries alone. -/
theorem Held.kept (h : (m.save lookup).Held limits) (hactive : m'.active = m.active)
    (hkey : lookup'.infoHash = lookup.infoHash) (hlimits : m'.limits = m.limits)
    (htransactions : m'.transactions = m.transactions) (hpending : lookup'.pending = lookup.pending)
    (hheld : lookup'.Held limits) : (m'.save lookup').Held limits := by
  refine h.changed hactive hkey hlimits hheld fun t ht ↦ ?_
  rw [hpending]
  rw [htransactions] at ht
  exact (em _).imp_right fun hnot ↦ ⟨ht, hnot⟩

theorem Held.of_eq (h : m.Held limits) (hlimits : m'.limits = m.limits)
    (hactive : m'.active = m.active) (htransactions : m'.transactions.keys ⊆ m.transactions.keys) :
    m'.Held limits where
  same := hlimits.trans h.same
  active := hactive ▸ h.active
  lookups := hactive ▸ h.lookups
  owned := fun t ht ↦ hactive ▸ h.owned t (htransactions ht)

theorem Held.sent (h : (m.save lookup).Held limits) {node : Node} (hsend : m.MaySend lookup node)
    (now timeout : ℚ) :
    ((m.sendTo lookup node now timeout).1.save (m.sendTo lookup node now timeout).2.1).Held limits := by
  have hself := h.self
  have hsame : m.limits = limits := h.same
  refine h.changed rfl rfl rfl ?_ fun t ht ↦ ?_
  · constructor
    case shortlist => exact hself.shortlist
    case queried => exact (Finset.card_insert_le _ _).trans (Nat.succ_le_succ hself.queried)
    case sent =>
      change lookup.queriesSent + 1 ≤ _
      rcases hsend.budget with hbudget | hzero
      · exact (Nat.succ_le_of_lt (hsame ▸ hbudget)).trans (le_max_right _ _)
      · rw [hzero]
        exact le_max_left _ _
    case pending =>
      exact (OrderedMap.size_insert_le _ _ _).trans (Nat.succ_le_of_lt (hsame ▸ hsend.room))
    case found => exact hself.found
  · change t ∈ (m.transactions.insert (lookupTransactionId m.sequence) lookup.infoHash).keys at ht
    change (lookup.pending.insert (lookupTransactionId m.sequence) _).contains t ∨ _
    rw [← OrderedMap.get?_isSome_iff, OrderedMap.get?_insert] at ht
    rw [OrderedMap.contains, OrderedMap.get?_insert]
    by_cases hnew : t = lookupTransactionId m.sequence
    · rw [if_pos hnew]
      exact .inl rfl
    · rw [if_neg hnew, OrderedMap.get?_isSome_iff] at ht
      rw [if_neg hnew]
      exact (em _).imp_right fun hnot ↦ ⟨ht, hnot⟩

theorem Held.released (h : (m.save lookup).Held limits) {transactionId : Bytes} {query : PendingQuery}
    (hget : lookup.pending.get? transactionId = some query) :
    ((m.releaseTransaction lookup transactionId).1.save
      (m.releaseTransaction lookup transactionId).2).Held limits := by
  have hself := h.self
  rw [releaseTransaction, hget]
  refine h.changed rfl rfl rfl ?_ fun t ht ↦ ?_
  · exact ⟨hself.shortlist, hself.queried, hself.sent,
      (OrderedMap.size_erase_le _ _).trans hself.pending, hself.found⟩
  · change t ∈ (m.transactions.erase transactionId).keys at ht
    change (lookup.pending.erase transactionId).contains t ∨ _
    rw [← OrderedMap.get?_isSome_iff, OrderedMap.get?_erase] at ht
    rw [OrderedMap.contains, OrderedMap.get?_erase]
    by_cases hgone : t = transactionId
    · rw [if_pos hgone] at ht
      cases ht
    · rw [if_neg hgone, OrderedMap.get?_isSome_iff] at ht
      rw [if_neg hgone]
      exact (em _).imp_right fun hnot ↦ ⟨ht, hnot⟩

theorem Held.started (h : m.Held limits) {infoHash : Bytes} (hnone : m.active.get? infoHash = none)
    (hslot : m.active.size < m.limits.maxActive) (now : ℚ) :
    (m.withNewLookup infoHash now).Held limits where
  same := h.same
  active := by
    change (m.active.insert infoHash _).size ≤ _
    rw [OrderedMap.size_insert_of_absent _ hnone]
    exact h.same ▸ Nat.succ_le_of_lt hslot
  lookups := by
    intro k other hother
    change (m.active.insert infoHash _).get? k = some other at hother
    rw [OrderedMap.get?_insert] at hother
    split at hother
    · rw [← Option.some.inj hother]
      exact ⟨Nat.zero_le _, le_rfl, Nat.zero_le _, Nat.zero_le _, Nat.zero_le _⟩
    · exact h.lookups k other hother
  owned := by
    intro t ht
    obtain ⟨k, other, hother, hcontains⟩ := h.owned t ht
    refine ⟨k, other, ?_, hcontains⟩
    change (m.active.insert infoHash _).get? k = some other
    rw [OrderedMap.get?_insert, if_neg]
    · exact hother
    · rintro rfl
      rw [hnone] at hother
      cases hother

theorem Held.closed (h : (m.save lookup).Held limits) (hempty : lookup.pending.size = 0) :
    (m.close lookup).Held limits := by
  have herase : (m.close lookup).active = (m.save lookup).active.erase lookup.infoHash :=
    (OrderedMap.erase_insert _ _ _).symm
  constructor
  case same => exact h.same
  case active =>
    rw [herase]
    exact (OrderedMap.size_erase_le _ _).trans h.active
  case lookups =>
    intro k other hother
    rw [herase] at hother
    exact h.lookups k other (OrderedMap.get?_of_erase hother)
  case owned =>
    intro t ht
    obtain ⟨k, other, hother, hcontains⟩ := h.owned t ht
    refine ⟨k, other, ?_, hcontains⟩
    rw [herase, OrderedMap.get?_erase, if_neg]
    · exact hother
    · rintro rfl
      rw [get?_save, if_pos rfl, Option.some.injEq] at hother
      rw [OrderedMap.contains, ← hother, OrderedMap.size_eq_zero_iff.mp hempty] at hcontains
      cases hcontains

theorem held_rules (net : Inet) (limits : LookupLimits) :
    ManagerRules net anyOffer (Held limits) where
  step :=
    { checked := fun m lookup b h ↦ h.of_eq rfl rfl (List.Subset.refl _)
      counted := fun m lookup queries answers h ↦ h.of_eq rfl rfl (List.Subset.refl _)
      refilled := fun m lookup now h ↦ h.of_eq rfl rfl (List.Subset.refl _)
      shortlisted := by
        intro m lookup nodes _ h
        have hsize := size_addToShortlist m lookup nodes
        obtain ⟨-, shortlist, hlookup⟩ := ManagerRules.addToShortlist_kept m lookup nodes
        rw [hlookup] at hsize ⊢
        have hself := h.self
        have hsame : m.limits = limits := h.same
        exact h.kept rfl rfl rfl rfl rfl
          ⟨hsame ▸ hsize, hself.queried, hself.sent, hself.pending, hself.found⟩
      sent := fun m lookup node now timeout hsend h ↦ h.sent hsend now timeout
      hinted := fun m lookup transactionId hpending h ↦ h.kept rfl rfl rfl rfl rfl
        ⟨h.self.shortlist, h.self.queried, h.self.sent, h.self.pending, h.self.found⟩
      released := fun m lookup transactionId query hget h ↦ h.released hget
      found := by
        intro m lookup fromHint values h
        have hsame : m.limits = limits := h.same
        have hfound := size_addFoundPeers net m.limits.maxPeers values lookup.foundPeers
          (hsame ▸ h.self.found)
        have hheld : (m.takeValues net lookup fromHint values).2.Held limits :=
          ⟨h.self.shortlist, h.self.queried, h.self.sent, h.self.pending, hsame ▸ hfound⟩
        obtain ⟨hintValues, events, found, responses, hmanager, hlookup, -⟩ :=
          ManagerRules.takeValues_kept net m lookup fromHint values
        rw [hlookup] at hheld
        rw [hmanager, hlookup]
        exact h.kept rfl rfl rfl rfl rfl hheld }
  checked := fun m b h ↦ h.of_eq rfl rfl (List.Subset.refl _)
  refilled := fun m now h ↦ h.of_eq rfl rfl (List.Subset.refl _)
  forgot := by
    intro m transactionId infoHash _ _ h
    refine h.of_eq rfl rfl fun t ht ↦ ?_
    rw [← OrderedMap.get?_isSome_iff] at ht ⊢
    obtain ⟨value, hvalue⟩ := Option.isSome_iff_exists.mp ht
    exact Option.isSome_iff_exists.mpr ⟨value, OrderedMap.get?_of_erase hvalue⟩
  started := fun m infoHash now _ hnone hslot _ h ↦ h.started hnone hslot now
  closed := fun m lookup hempty h ↦ h.closed hempty

theorem held_new (limits : LookupLimits) (nodeFilter : Node → Bool) (start : ℚ) :
    (new limits nodeFilter start).Held limits where
  same := rfl
  active := Nat.zero_le _
  lookups := fun _ _ hget ↦ by cases hget
  owned := fun _ ht ↦ absurd ht List.not_mem_nil

theorem consistentUnlessReused_new (limits : LookupLimits) (nodeFilter : Node → Bool) (start : ℚ) :
    (new limits nodeFilter start).ConsistentUnlessReused := by
  intro _
  constructor
  case size => exact Nat.zero_le _
  case hint => exact fun _ _ _ hget ↦ by cases hget
  case transactions =>
    refine fun _ _ ↦ iff_of_false (fun hget ↦ by cases hget) ?_
    rintro ⟨_, hget, _⟩
    cases hget
  case inFlight => exact fun _ ↦ rfl
  case query => exact fun _ _ _ _ hget ↦ by cases hget
  case numbers => exact fun _ hmem ↦ absurd hmem List.not_mem_nil

/-! ## Sizes -/

/-- A table with a key for some pending queries only. -/
theorem Held.size_le (h : m.Held limits) {α β : Type*} {table : OrderedMap α β}
    (f : Bytes × PendingQuery → α) (htable : ∀ k ∈ table.keys, ∃ infoHash lookup,
      m.active.get? infoHash = some lookup ∧ ∃ item ∈ lookup.pending.items, f item = k) :
    table.size ≤ limits.maxActive * limits.alpha := by
  have hsubset : table.keys ⊆ m.active.values.flatMap fun lookup ↦ lookup.pending.items.map f := by
    intro k hk
    obtain ⟨infoHash, lookup, hget, item, hitem, rfl⟩ := htable k hk
    refine List.mem_flatMap.mpr ⟨lookup, OrderedMap.mem_values_iff.mpr ⟨infoHash, hget⟩, ?_⟩
    exact List.mem_map_of_mem hitem
  have hlength : ∀ n ∈ m.active.values.map fun lookup ↦ (lookup.pending.items.map f).length,
      n ≤ limits.alpha := by
    intro n hn
    obtain ⟨lookup, hlookup, rfl⟩ := List.mem_map.mp hn
    obtain ⟨infoHash, hget⟩ := OrderedMap.mem_values_iff.mp hlookup
    rw [List.length_map]
    exact (h.lookups infoHash lookup hget).pending
  have hkeys : table.keys.length = table.size := List.length_map _
  have hvalues : m.active.values.length = m.active.size := List.length_map _
  calc table.size
      = table.keys.length := hkeys.symm
    _ ≤ (m.active.values.flatMap fun lookup ↦ lookup.pending.items.map f).length :=
      (table.nodup.subperm hsubset).length_le
    _ = (m.active.values.map fun lookup ↦ (lookup.pending.items.map f).length).sum :=
      List.length_flatMap
    _ ≤ m.active.values.length * limits.alpha := by
      have hsum := List.sum_le_card_nsmul _ _ hlength
      rwa [List.length_map, smul_eq_mul] at hsum
    _ ≤ limits.maxActive * limits.alpha :=
      Nat.mul_le_mul_right _ (hvalues.trans_le h.active)

theorem Held.size_transactions (h : m.Held limits) :
    m.transactions.size ≤ limits.maxActive * limits.alpha := by
  refine h.size_le Prod.fst fun t ht ↦ ?_
  obtain ⟨infoHash, lookup, hget, hcontains⟩ := h.owned t ht
  obtain ⟨query, hquery⟩ := Option.isSome_iff_exists.mp hcontains
  exact ⟨infoHash, lookup, hget, (t, query), OrderedMap.get?_eq_some_iff.mp hquery, rfl⟩

theorem Held.size_inFlight (h : m.Held limits) (hc : m.Consistent) :
    m.inFlight.size ≤ limits.maxActive * limits.alpha := by
  refine h.size_le (fun item ↦ item.2.address) fun address haddress ↦ ?_
  rw [← OrderedMap.get?_isSome_iff, hc.inFlight] at haddress
  split at haddress
  · cases haddress
  next hpending =>
    have hsome : ∃ lookup ∈ m.active.values, lookup.pendingTo address ≠ 0 := by
      by_contra hnone
      push Not at hnone
      refine hpending (List.sum_eq_zero fun n hn ↦ ?_)
      obtain ⟨lookup, hlookup, rfl⟩ := List.mem_map.mp hn
      exact hnone lookup hlookup
    obtain ⟨lookup, hlookup, hcount⟩ := hsome
    obtain ⟨infoHash, hget⟩ := OrderedMap.mem_values_iff.mp hlookup
    obtain ⟨query, hquery, haddressed⟩ := List.countP_pos_iff.mp (Nat.pos_of_ne_zero hcount)
    obtain ⟨item, hitem, rfl⟩ := List.mem_map.mp hquery
    exact ⟨infoHash, lookup, hget, item, hitem, of_decide_eq_true haddressed⟩

end LookupManager

end DhtScraper
