import DhtScraper.Lookup.Choices

/-!
# Trimming the shortlist

Two managers that differ in `shortlist_size` only are run with the same calls.  They go in lockstep,
and so trimming changes nothing, as long as a lookup that chooses nodes to ask has cut off nobody that
it could still ask, or has kept enough others.  The second manager is written as the first one with
other shortlists, so that most methods keep this form by definition.
-/

namespace DhtScraper

open Library

def PeerLookup.withShortlist (lookup : PeerLookup) (shortlist : OrderedMap Bytes Node) : PeerLookup :=
  { lookup with shortlist := shortlist }

/-- What is kept of the nodes of `wide`, for a lookup. -/
structure Compared (limits : LookupLimits) (lookup : PeerLookup) (wide : OrderedMap Bytes Node) :
    Prop where
  trimmed : Trimmed limits.shortlistSize lookup.infoHash lookup.shortlist wide
  asked : lookup.queried.card ≤ lookup.queriesSent
  length : lookup.infoHash.length = nodeIdLength
  unfinished : lookup.finished = false

namespace LookupManager

variable {net : Inet} {size : ℕ} {m w : LookupManager} {lookup lookup' : PeerLookup}

/-- The manager with another `shortlist_size` and other shortlists. -/
def widen (m : LookupManager) (size : ℕ) (wide : Bytes → OrderedMap Bytes Node) : LookupManager :=
  { m with
    limits := { m.limits with shortlistSize := size }
    active := m.active.mapValues fun h lookup ↦ lookup.withShortlist (wide h) }

/-- Two managers in lockstep. -/
def Twins (size : ℕ) (m w : LookupManager) : Prop :=
  m.limits.shortlistSize ≤ size ∧ m.limits.maxQueries < m.limits.shortlistSize ∧
    ∃ wide, w = m.widen size wide ∧ ∀ h lookup, m.active.get? h = some lookup →
      lookup.infoHash = h ∧ Compared m.limits lookup (wide h)

/-- Two managers in lockstep that work on a lookup. -/
def TwinsOn (size : ℕ) (m : LookupManager) (lookup : PeerLookup) (w : LookupManager)
    (lookup' : PeerLookup) : Prop :=
  m.limits.shortlistSize ≤ size ∧ m.limits.maxQueries < m.limits.shortlistSize ∧
    ∃ wide shortlist, w = m.widen size wide ∧ lookup' = lookup.withShortlist shortlist ∧
      Compared m.limits lookup shortlist ∧ ∀ h, h ≠ lookup.infoHash →
        ∀ other, m.active.get? h = some other →
          other.infoHash = h ∧ Compared m.limits other (wide h)

/-! ## Methods that do not look at the shortlist -/

theorem TwinsOn.releaseTransaction (h : TwinsOn size m lookup w lookup') (transactionId : Bytes) :
    TwinsOn size (m.releaseTransaction lookup transactionId).1
      (m.releaseTransaction lookup transactionId).2 (w.releaseTransaction lookup' transactionId).1
        (w.releaseTransaction lookup' transactionId).2 := by
  obtain ⟨hsize, hbudget, wide, shortlist, rfl, rfl, hself, hothers⟩ := h
  cases hget : lookup.pending.get? transactionId with
  | none =>
    have hget' : (lookup.withShortlist shortlist).pending.get? transactionId = none := hget
    simp only [LookupManager.releaseTransaction, hget, hget']
    exact ⟨hsize, hbudget, wide, shortlist, rfl, rfl, hself, hothers⟩
  | some query =>
    have hget' : (lookup.withShortlist shortlist).pending.get? transactionId = some query := hget
    simp only [LookupManager.releaseTransaction, hget, hget']
    exact ⟨hsize, hbudget, wide, shortlist, rfl, rfl,
      ⟨hself.trimmed, hself.asked, hself.length, hself.unfinished⟩, hothers⟩

theorem TwinsOn.releaseEach (ids : List Bytes) : ∀ {m w : LookupManager} {lookup lookup' : PeerLookup},
    TwinsOn size m lookup w lookup' →
      TwinsOn size (m.releaseEach lookup ids).1 (m.releaseEach lookup ids).2
        (w.releaseEach lookup' ids).1 (w.releaseEach lookup' ids).2 := by
  induction ids with
  | nil => exact fun h ↦ h
  | cons transactionId rest ih => exact fun h ↦ ih (h.releaseTransaction transactionId)

theorem TwinsOn.check {p q : Prop} [Decidable p] [Decidable q]
    (h : TwinsOn size m lookup w lookup') (hpq : p ↔ q) :
    TwinsOn size (m.check p) lookup (w.check q) lookup' := by
  have hsame : w.check q = w.check p := by
    rw [LookupManager.check, LookupManager.check, decide_eq_decide.mpr hpq]
  obtain ⟨hsize, hbudget, wide, shortlist, rfl, rfl, hself, hothers⟩ := h
  exact hsame ▸ ⟨hsize, hbudget, wide, shortlist, rfl, rfl, hself, hothers⟩

theorem TwinsOn.refill (h : TwinsOn size m lookup w lookup') (now : ℚ) :
    TwinsOn size (m.refill now) lookup (w.refill now) lookup' := by
  obtain ⟨hsize, hbudget, wide, shortlist, rfl, rfl, hself, hothers⟩ := h
  exact ⟨hsize, hbudget, wide, shortlist, rfl, rfl, hself, hothers⟩

theorem TwinsOn.expirePending (h : TwinsOn size m lookup w lookup') (now : ℚ) :
    TwinsOn size (m.expirePending lookup now).1 (m.expirePending lookup now).2
      (w.expirePending lookup' now).1 (w.expirePending lookup' now).2 := by
  have hids : expired lookup' now = expired lookup now := by
    obtain ⟨-, -, wide, shortlist, -, rfl, -, -⟩ := h
    rfl
  have hreleased := h.releaseEach (expired lookup now)
  have hpending : (w.releaseEach lookup' (expired lookup now)).2.pending =
      (m.releaseEach lookup (expired lookup now)).2.pending := by
    obtain ⟨-, -, wide, shortlist, -, heq, -, -⟩ := hreleased
    rw [heq]
    rfl
  unfold LookupManager.expirePending
  rw [hids]
  dsimp only
  rw [hpending]
  exact hreleased.check Iff.rfl

theorem TwinsOn.sendTo (h : TwinsOn size m lookup w lookup') (node : Node) (now timeout : ℚ) :
    TwinsOn size (m.sendTo lookup node now timeout).1 (m.sendTo lookup node now timeout).2.1
      (w.sendTo lookup' node now timeout).1 (w.sendTo lookup' node now timeout).2.1 := by
  obtain ⟨hsize, hbudget, wide, shortlist, rfl, rfl, hself, hothers⟩ := h
  refine ⟨hsize, hbudget, wide, shortlist, rfl, rfl,
    ⟨hself.trimmed, ?_, hself.length, hself.unfinished⟩, hothers⟩
  exact (Finset.card_insert_le _ _).trans (Nat.succ_le_succ hself.asked)

theorem TwinsOn.sendEach (now : ℚ) (nodes : List Node) :
    ∀ {m w : LookupManager} {lookup lookup' : PeerLookup}, TwinsOn size m lookup w lookup' →
      TwinsOn size (m.sendEach lookup now nodes).1 (m.sendEach lookup now nodes).2.1
          (w.sendEach lookup' now nodes).1 (w.sendEach lookup' now nodes).2.1 ∧
        (w.sendEach lookup' now nodes).2.2 = (m.sendEach lookup now nodes).2.2 := by
  induction nodes with
  | nil => exact fun h ↦ ⟨h, rfl⟩
  | cons node rest ih =>
    intro m w lookup lookup' h
    have htokens : w.tokens = m.tokens ∧ w.limits.queryTimeout = m.limits.queryTimeout := by
      obtain ⟨-, -, wide, shortlist, rfl, -, -, -⟩ := h
      exact ⟨rfl, rfl⟩
    unfold LookupManager.sendEach
    rw [htokens.1, htokens.2]
    split
    · exact ⟨h, rfl⟩
    · obtain ⟨hrest, hcount⟩ := ih (h.sendTo node now m.limits.queryTimeout)
      exact ⟨hrest, congrArg (· + 1) hcount⟩

theorem TwinsOn.takeValues (h : TwinsOn size m lookup w lookup') (net : Inet) (fromHint : Bool)
    (values : List Address) :
    TwinsOn size (m.takeValues net lookup fromHint values).1
      (m.takeValues net lookup fromHint values).2 (w.takeValues net lookup' fromHint values).1
        (w.takeValues net lookup' fromHint values).2 := by
  obtain ⟨hsize, hbudget, wide, shortlist, rfl, rfl, hself, hothers⟩ := h
  have hfound : addFoundPeers net (m.widen size wide).limits.maxPeers
      (lookup.withShortlist shortlist).foundPeers values =
        addFoundPeers net m.limits.maxPeers lookup.foundPeers values := rfl
  unfold LookupManager.takeValues
  rw [hfound]
  dsimp only
  split
  · exact ⟨hsize, hbudget, wide, shortlist, rfl, rfl,
      ⟨hself.trimmed, hself.asked, hself.length, hself.unfinished⟩, hothers⟩
  · exact ⟨hsize, hbudget, wide, shortlist, rfl, rfl,
      ⟨hself.trimmed, hself.asked, hself.length, hself.unfinished⟩, hothers⟩

/-! ## Putting the lookup back -/

theorem TwinsOn.save (h : TwinsOn size m lookup w lookup') :
    Twins size (m.save lookup) (w.save lookup') := by
  obtain ⟨hsize, hbudget, wide, shortlist, rfl, rfl, hself, hothers⟩ := h
  refine ⟨hsize, hbudget, Function.update wide lookup.infoHash shortlist, ?_, ?_⟩
  · have hactive : (m.widen size wide).active.insert lookup.infoHash
        (lookup.withShortlist shortlist) = (m.active.insert lookup.infoHash lookup).mapValues
          fun h lookup' ↦ lookup'.withShortlist (Function.update wide lookup.infoHash shortlist h) := by
      refine OrderedMap.insert_mapValues _ (fun k hk ↦ ?_) ?_
      · rw [Function.update_of_ne hk]
      · rw [Function.update_self]
    rw [LookupManager.save, show (lookup.withShortlist shortlist).infoHash = lookup.infoHash from rfl,
      hactive]
    rfl
  · intro k other hother
    rw [get?_save] at hother
    by_cases hk : k = lookup.infoHash
    · rw [if_pos hk, Option.some.injEq] at hother
      rw [hk, Function.update_self, ← hother]
      exact ⟨rfl, hself⟩
    · rw [if_neg hk] at hother
      rw [Function.update_of_ne hk]
      exact hothers k hk other hother

theorem TwinsOn.close (h : TwinsOn size m lookup w lookup') :
    Twins size (m.close lookup) (w.close lookup') := by
  obtain ⟨hsize, hbudget, wide, shortlist, rfl, rfl, hself, hothers⟩ := h
  refine ⟨hsize, hbudget, wide, ?_, ?_⟩
  · have hactive : (m.widen size wide).active.erase lookup.infoHash =
        (m.active.erase lookup.infoHash).mapValues fun h lookup' ↦
          lookup'.withShortlist (wide h) := OrderedMap.erase_mapValues _ _ _
    rw [LookupManager.close,
      show (lookup.withShortlist shortlist).infoHash = lookup.infoHash from rfl, hactive]
    rfl
  · intro k other hother
    have hget : (m.active.erase lookup.infoHash).get? k = some other := hother
    rw [OrderedMap.get?_erase] at hget
    split at hget
    · cases hget
    next hk => exact hothers k hk other hget

theorem TwinsOn.finish (h : TwinsOn size m lookup w lookup') :
    Twins size (m.finish lookup) (w.finish lookup') := by
  have hsame : lookup'.pending = lookup.pending ∧ lookup'.finished = lookup.finished := by
    obtain ⟨-, -, wide, shortlist, -, rfl, -, -⟩ := h
    exact ⟨rfl, rfl⟩
  rw [finish_eq_close, finish_eq_close, hsame.1, hsame.2]
  exact ((h.check Iff.rfl).releaseEach _).close

/-! ## Choosing nodes -/

/-- The kept nodes that are not asked because their address is at its cap. -/
def capped (m : LookupManager) (lookup : PeerLookup) : ℕ :=
  lookup.shortlist.values.countP fun node ↦
    node.address ∉ lookup.queried && !decide (m.inFlightTo node.address < m.limits.maxPerNode)

/-- The kept nodes at their cap leave enough of the others. -/
def Roomy (m : LookupManager) (lookup : PeerLookup) : Prop :=
  m.limits.maxQueries + m.capped lookup ≤ m.limits.shortlistSize

instance (m : LookupManager) (lookup : PeerLookup) : Decidable (m.Roomy lookup) :=
  inferInstanceAs (Decidable (m.limits.maxQueries + m.capped lookup ≤ m.limits.shortlistSize))

/-- Of the nodes of `wide`, those whose address was not queried are kept, or the kept nodes suffice
for the queries that `top_up` may send. -/
def Spare (m : LookupManager) (lookup : PeerLookup) (wide : OrderedMap Bytes Node) : Prop :=
  (∀ node ∈ wide.values, node.address ∉ lookup.queried → node ∈ lookup.shortlist.values) ∨
    (m.freeQueries lookup).toNat ≤ (lookup.shortlist.values.filter (m.isCandidate lookup)).length

instance (m : LookupManager) (lookup : PeerLookup) (wide : OrderedMap Bytes Node) :
    Decidable (m.Spare lookup wide) := inferInstanceAs (Decidable
  ((∀ node ∈ wide.values, node.address ∉ lookup.queried → node ∈ lookup.shortlist.values) ∨
    (m.freeQueries lookup).toNat ≤ (lookup.shortlist.values.filter (m.isCandidate lookup)).length))

theorem countP_eq_add {α : Type*} (p q : α → Bool) (l : List α) :
    l.countP p = l.countP (fun x ↦ p x && !q x) + l.countP fun x ↦ p x && q x := by
  induction l with
  | nil => rfl
  | cons x l ih =>
    rw [List.countP_cons, List.countP_cons, List.countP_cons, ih]
    cases p x <;> cases q x <;> simp <;> omega

/-- Each query has used up at most one kept node. -/
theorem Compared.countP_queried {limits : LookupLimits} {wide : OrderedMap Bytes Node}
    (h : Compared limits lookup wide) (hapart : Apart lookup.shortlist.values) :
    (lookup.shortlist.values.countP fun node ↦ node.address ∈ lookup.queried) ≤
      lookup.queriesSent := by
  have hdistinct := lookup.distinctAddresses_of_apart h.trimmed.keptValid.filed hapart
  let used := lookup.shortlist.values.filter fun node ↦ node.address ∈ lookup.queried
  have hused : (used.map Node.address).Nodup := hdistinct.sublist (List.filter_sublist.map _)
  have hcard : (used.map Node.address).toFinset ⊆ lookup.queried := by
    intro address haddress
    obtain ⟨node, hnode, rfl⟩ := List.mem_map.mp (List.mem_toFinset.mp haddress)
    exact of_decide_eq_true (List.mem_filter.mp hnode).2
  rw [List.countP_eq_length_filter]
  calc used.length = (used.map Node.address).toFinset.card := by
        rw [List.toFinset_card_of_nodup hused, List.length_map]
    _ ≤ lookup.queried.card := Finset.card_le_card hcard
    _ ≤ lookup.queriesSent := h.asked

/-- With distinct addresses and room beside the nodes at their cap, the kept nodes suffice. -/
theorem Compared.spare {wide : OrderedMap Bytes Node} (h : Compared m.limits lookup wide)
    (hapart : Apart lookup.shortlist.values) (hroomy : m.Roomy lookup) : m.Spare lookup wide := by
  rcases lt_or_ge lookup.shortlist.size m.limits.shortlistSize with hshort | hfull
  · exact .inl fun node hnode _ ↦ h.trimmed.mem_of_short hshort hnode
  · refine .inr ?_
    have hcount := Compared.countP_queried h hapart
    have hsplit := List.length_eq_countP_add_countP
      (fun node : Node ↦ node.address ∈ lookup.queried) (l := lookup.shortlist.values)
    have hrest := countP_eq_add (fun node : Node ↦ node.address ∉ lookup.queried)
      (fun node ↦ m.inFlightTo node.address < m.limits.maxPerNode) lookup.shortlist.values
    have hcandidates : (lookup.shortlist.values.filter (m.isCandidate lookup)).length =
        lookup.shortlist.values.countP fun node ↦ node.address ∉ lookup.queried &&
          decide (m.inFlightTo node.address < m.limits.maxPerNode) := by
      rw [← List.countP_eq_length_filter]
      rfl
    have hlength : lookup.shortlist.values.length = lookup.shortlist.size := List.length_map _
    have hfree : m.freeQueries lookup ≤ (m.limits.maxQueries : ℤ) - lookup.queriesSent :=
      min_le_right _ _
    rw [Roomy, capped] at hroomy
    simp only [decide_eq_true_eq] at hsplit
    omega

/-- The nodes of a valid shortlist pass the assertions of `select_closest_nodes`. -/
theorem asserts_of_valid {shortlist : OrderedMap Bytes Node} (h : ValidShortlist shortlist)
    {target : Bytes} (hlength : target.length = nodeIdLength) {nodes : List Node}
    (hsub : ∀ node ∈ nodes, node ∈ shortlist.values) : selectClosestAsserts nodes target := by
  refine ⟨hlength, fun node hnode ↦ ?_⟩
  have hget := h.filed.mem_values.mp (hsub node hnode)
  exact h.valid _ (OrderedMap.get?_isSome_iff.mp (Option.isSome_of_eq_some hget))

/-- `top_up` when it sends: the assertion on the candidates holds. -/
theorem topUp_of_asserts {now : ℚ} (hfree : ¬ m.freeQueries lookup ≤ 0)
    (htokens : ¬ ((m.check (lookup.finished = false)).refill now).tokens < 1)
    (hasserts : selectClosestAsserts (lookup.shortlist.values.filter (m.isCandidate lookup))
      lookup.infoHash) :
    let sent := ((m.check (lookup.finished = false)).refill now).sendEach lookup now
      (selectClosestNodes (lookup.shortlist.values.filter (m.isCandidate lookup)) lookup.infoHash
        (m.freeQueries lookup).toNat)
    m.topUp lookup now = (sent.1.check (sent.2.2 ≤ m.limits.alpha), sent.2.1) := by
  intro sent
  have hready : ((m.check (lookup.finished = false)).refill now).check (selectClosestAsserts
      (lookup.shortlist.values.filter (((m.check (lookup.finished = false)).refill
        now).isCandidate lookup)) lookup.infoHash) = (m.check (lookup.finished = false)).refill now :=
    check_of hasserts
  unfold LookupManager.topUp
  rw [if_neg hfree]
  dsimp only
  rw [if_neg htokens, hready]
  rfl

theorem topUp_of_short {now : ℚ} (hfree : ¬ m.freeQueries lookup ≤ 0)
    (htokens : ((m.check (lookup.finished = false)).refill now).tokens < 1) :
    m.topUp lookup now = ((m.check (lookup.finished = false)).refill now, lookup) := by
  unfold LookupManager.topUp
  rw [if_neg hfree]
  exact if_pos htokens

theorem topUp_of_full {now : ℚ} (hfree : m.freeQueries lookup ≤ 0) :
    m.topUp lookup now = (m.check (lookup.finished = false), lookup) := by
  unfold LookupManager.topUp
  exact if_pos hfree

theorem fresh_of_isCandidate {node : Node} (h : m.isCandidate lookup node) :
    node.address ∉ lookup.queried := of_decide_eq_true (Bool.and_eq_true_iff.mp h).1

theorem TwinsOn.topUp (h : TwinsOn size m lookup w lookup') (now : ℚ)
    (hspare : m.Spare lookup lookup'.shortlist) :
    TwinsOn size (m.topUp lookup now).1 (m.topUp lookup now).2 (w.topUp lookup' now).1
      (w.topUp lookup' now).2 := by
  have hchecked := h.check (Iff.refl (lookup.finished = false))
  have hrefilled := hchecked.refill now
  obtain ⟨-, -, wide, shortlist, rfl, rfl, hself, -⟩ := h
  have hfree : (m.widen size wide).freeQueries (lookup.withShortlist shortlist) =
      m.freeQueries lookup := rfl
  have htokens : (((m.widen size wide).check ((lookup.withShortlist shortlist).finished =
      false)).refill now).tokens = ((m.check (lookup.finished = false)).refill now).tokens := rfl
  by_cases hfull : m.freeQueries lookup ≤ 0
  · rw [topUp_of_full hfull, topUp_of_full (hfree ▸ hfull)]
    exact hchecked
  · by_cases hshort : ((m.check (lookup.finished = false)).refill now).tokens < 1
    · rw [topUp_of_short hfull hshort, topUp_of_short (hfree ▸ hfull) (htokens ▸ hshort)]
      exact hrefilled
    · have hkept : selectClosestAsserts (lookup.shortlist.values.filter (m.isCandidate lookup))
          lookup.infoHash := asserts_of_valid hself.trimmed.keptValid hself.length
            fun node hnode ↦ List.mem_of_mem_filter hnode
      have hwide : selectClosestAsserts (shortlist.values.filter (m.isCandidate lookup))
          lookup.infoHash := asserts_of_valid hself.trimmed.wideValid hself.length
            fun node hnode ↦ List.mem_of_mem_filter hnode
      rw [topUp_of_asserts hfull hshort hkept, topUp_of_asserts (hfree ▸ hfull) (htokens ▸ hshort)
        hwide]
      have hnodes := hself.trimmed.chosen (m.isCandidate lookup) (hspare.imp_left
        fun hkept node hnode hcandidate ↦ hkept node hnode (fresh_of_isCandidate hcandidate))
      obtain ⟨hsent, hcount⟩ := TwinsOn.sendEach now (selectClosestNodes
        (lookup.shortlist.values.filter (m.isCandidate lookup)) lookup.infoHash
          (m.freeQueries lookup).toNat) hrefilled
      have hchosen : selectClosestNodes ((lookup.withShortlist shortlist).shortlist.values.filter
          ((m.widen size wide).isCandidate (lookup.withShortlist shortlist)))
          (lookup.withShortlist shortlist).infoHash ((m.widen size wide).freeQueries
            (lookup.withShortlist shortlist)).toNat = selectClosestNodes
              (lookup.shortlist.values.filter (m.isCandidate lookup)) lookup.infoHash
                (m.freeQueries lookup).toNat := hnodes.symm
      rw [hchosen]
      exact hsent.check (Eq.to_iff (congrArg (· ≤ m.limits.alpha) hcount.symm))

/-- Before an idle lookup is finished, both look for somebody to ask with the same answer. -/
theorem TwinsOn.canQueryMore_eq (h : TwinsOn size m lookup w lookup')
    (hspare : m.Spare lookup lookup'.shortlist) (hidle : lookup.pending.size = 0) :
    w.canQueryMore lookup' = m.canQueryMore lookup := by
  obtain ⟨-, -, wide, shortlist, rfl, rfl, hself, -⟩ := h
  change (decide (lookup.queriesSent < m.limits.maxQueries) &&
    shortlist.values.any fun node ↦ node.address ∉ lookup.queried) = m.canQueryMore lookup
  unfold LookupManager.canQueryMore
  by_cases hleft : lookup.queriesSent < m.limits.maxQueries
  · have henough : (∀ node ∈ shortlist.values, decide (node.address ∉ lookup.queried) →
        node ∈ lookup.shortlist.values) ∨
          lookup.shortlist.values.any fun node ↦ node.address ∉ lookup.queried := by
      rcases hspare with hkept | hcount
      · exact .inl fun node hnode hfresh ↦ hkept node hnode (of_decide_eq_true hfresh)
      · refine .inr ?_
        have halpha := m.limits.alpha_pos
        have hfree : 0 < (m.freeQueries lookup).toNat := by
          rw [freeQueries, hidle]
          omega
        obtain ⟨node, hnode⟩ := List.exists_mem_of_length_pos (hfree.trans_le hcount)
        obtain ⟨hmem, hcandidate⟩ := List.mem_filter.mp hnode
        exact List.any_eq_true.mpr ⟨node, hmem, decide_eq_true (fresh_of_isCandidate hcandidate)⟩
    rw [hself.trimmed.any_eq _ henough]
  · simp [hleft]

/-! ## New nodes -/

theorem length_of_isNewNode {node : Node} (h : m.isNewNode lookup node) :
    node.nodeId.length = nodeIdLength := by
  rw [LookupManager.isNewNode, isUsableNode, Bool.and_eq_true, Bool.and_eq_true] at h
  exact of_decide_eq_true h.1.1

/-- `add_to_shortlist` on a valid shortlist: its assertions hold. -/
theorem addToShortlist_of_valid (hvalid : ValidShortlist lookup.shortlist)
    (hlength : lookup.infoHash.length = nodeIdLength) (nodes : List Node) :
    m.addToShortlist lookup nodes = (m, lookup.withShortlist (trim m.limits.shortlistSize
      lookup.infoHash (fill (nodes.filter (m.isNewNode lookup)) lookup.shortlist))) := by
  have hfilled : ValidShortlist (fill (nodes.filter (m.isNewNode lookup)) lookup.shortlist) :=
    hvalid.filled fun node hnode ↦ length_of_isNewNode (List.mem_filter.mp hnode).2
  obtain ⟨-, hperm⟩ := hfilled.trimmed m.limits.shortlistSize lookup.infoHash
  have hsize : (trim m.limits.shortlistSize lookup.infoHash
      (fill (nodes.filter (m.isNewNode lookup)) lookup.shortlist)).size ≤ m.limits.shortlistSize := by
    have hcount := hperm.length_eq
    rw [selectClosestNodes_eq, length_takeFirst, OrderedMap.values, List.length_map] at hcount
    exact hcount.trans_le (min_le_left _ _)
  unfold LookupManager.addToShortlist
  rw [trim] at hsize ⊢
  dsimp only
  by_cases hfull : m.limits.shortlistSize <
      (fill (nodes.filter (m.isNewNode lookup)) lookup.shortlist).size
  · rw [if_pos hfull] at hsize ⊢
    have hasserts : selectClosestAsserts (fill (nodes.filter (m.isNewNode lookup))
        lookup.shortlist).values lookup.infoHash :=
      asserts_of_valid hfilled hlength fun _ hnode ↦ hnode
    refine (if_pos hfull).trans ?_
    rw [Prod.mk.injEq]
    refine ⟨?_, rfl⟩
    exact (check_of (m := m.check _) hsize).trans (check_of hasserts)
  · rw [if_neg hfull]
    exact if_neg hfull

theorem TwinsOn.addToShortlist (h : TwinsOn size m lookup w lookup') (nodes : List Node) :
    TwinsOn size (m.addToShortlist lookup nodes).1 (m.addToShortlist lookup nodes).2
      (w.addToShortlist lookup' nodes).1 (w.addToShortlist lookup' nodes).2 := by
  obtain ⟨hsize, hbudget, wide, shortlist, rfl, rfl, hself, hothers⟩ := h
  have hlengths : ∀ node ∈ nodes.filter (m.isNewNode lookup), node.nodeId.length = nodeIdLength :=
    fun node hnode ↦ length_of_isNewNode (List.mem_filter.mp hnode).2
  have hadded := hself.trimmed.added hsize hlengths
  have hwide : ValidShortlist (lookup.withShortlist shortlist).shortlist := hself.trimmed.wideValid
  rw [addToShortlist_of_valid hself.trimmed.keptValid hself.length,
    addToShortlist_of_valid hwide hself.length]
  exact ⟨hsize, hbudget, wide, _, rfl, rfl,
    ⟨hadded, hself.asked, hself.length, hself.unfinished⟩, hothers⟩

theorem TwinsOn.raise (h : TwinsOn size m lookup w lookup') :
    TwinsOn size { m with raised := true } lookup { w with raised := true } lookup' := by
  obtain ⟨hsize, hbudget, wide, shortlist, rfl, rfl, hself, hothers⟩ := h
  exact ⟨hsize, hbudget, wide, shortlist, rfl, rfl, hself, hothers⟩

theorem TwinsOn.takeNodes (h : TwinsOn size m lookup w lookup')
    (decoder : Bytes → Except Failure (List Node)) (compactNodes : Option BencodeValue) :
    TwinsOn size (m.takeNodes lookup decoder compactNodes).1
      (m.takeNodes lookup decoder compactNodes).2 (w.takeNodes lookup' decoder compactNodes).1
        (w.takeNodes lookup' decoder compactNodes).2 := by
  unfold LookupManager.takeNodes
  split
  next data =>
    cases decoder data with
    | error failure => exact h.raise
    | ok nodes => exact h.addToShortlist nodes
  next => exact h

theorem TwinsOn.takeResponse (h : TwinsOn size m lookup w lookup') (net : Inet) (fromHint : Bool)
    (response : Option BencodeValue) :
    TwinsOn size (m.takeResponse net lookup fromHint response).1
      (m.takeResponse net lookup fromHint response).2
        (w.takeResponse net lookup' fromHint response).1
          (w.takeResponse net lookup' fromHint response).2 := by
  unfold LookupManager.takeResponse
  split
  next items =>
    cases decodeCompactPeers net (items.lookup (ascii "values".toList)) with
    | error failure => exact h.raise
    | ok values => exact ((h.takeValues net fromHint values).takeNodes _ _).takeNodes _ _
  next => exact h

/-! ## Choosing at the right time -/

/-- What the lookup of `turn` has cut off of the shortlist of `wide` does not matter for its choice. -/
def Settled (turn wide : LookupTurn) : Prop :=
  turn.manager.Spare turn.lookup wide.lookup.shortlist ∨
    Apart turn.lookup.shortlist.values ∧ turn.manager.Roomy turn.lookup

instance (turn wide : LookupTurn) : Decidable (Settled turn wide) := inferInstanceAs (Decidable
  (turn.manager.Spare turn.lookup wide.lookup.shortlist ∨
    Apart turn.lookup.shortlist.values ∧ turn.manager.Roomy turn.lookup))

/-- The turns that choose nodes, side by side. -/
def paired (turns turns' : List LookupTurn) : List (LookupTurn × LookupTurn) :=
  (turns.filter LookupTurn.chooses).zip (turns'.filter LookupTurn.chooses)

theorem TwinsOn.spare (h : TwinsOn size m lookup w lookup') (now : ℚ)
    (hsettled : Settled ⟨m, lookup, now⟩ ⟨w, lookup', now⟩) : m.Spare lookup lookup'.shortlist := by
  rcases hsettled with hspare | ⟨hapart, hroomy⟩
  · exact hspare
  · obtain ⟨-, -, wide, shortlist, rfl, rfl, hself, -⟩ := h
    exact Compared.spare hself hapart hroomy

theorem TwinsOn.chooses_iff (h : TwinsOn size m lookup w lookup') (now : ℚ) :
    LookupTurn.chooses ⟨w, lookup', now⟩ ↔ LookupTurn.chooses ⟨m, lookup, now⟩ := by
  obtain ⟨-, -, wide, shortlist, rfl, rfl, -, -⟩ := h
  exact Iff.rfl

/-- Both finish an idle lookup, or none does. -/
theorem TwinsOn.idle_iff (h : TwinsOn size m lookup w lookup') (now : ℚ)
    (hspare : m.Spare lookup lookup'.shortlist) :
    ((w.topUp lookup' now).2.pending.size = 0 ∧
        ¬ (w.topUp lookup' now).1.canQueryMore (w.topUp lookup' now).2) ↔
      (m.topUp lookup now).2.pending.size = 0 ∧
        ¬ (m.topUp lookup now).1.canQueryMore (m.topUp lookup now).2 := by
  have hpending : (w.topUp lookup' now).2.pending = (m.topUp lookup now).2.pending := by
    obtain ⟨-, -, wide, shortlist, -, heq, -, -⟩ := h.topUp now hspare
    rw [heq]
    rfl
  rw [hpending]
  refine and_congr_right fun hidle ↦ not_congr ?_
  have hsame := LookupTurn.topUp_of_idle hidle
  have hsame' := LookupTurn.topUp_of_idle (hpending ▸ hidle)
  rw [hsame] at hidle
  have hquery := h.canQueryMore_eq hspare hidle
  rw [hsame, hsame', canQueryMore, canQueryMore, (kept_topUp m lookup now).limits,
    (kept_topUp w lookup' now).limits]
  exact Eq.to_iff (congrArg (· = true) hquery)

theorem TwinsOn.advance (h : TwinsOn size m lookup w lookup') {now : ℚ}
    (hsettled : ∀ p ∈ paired [⟨m, lookup, now⟩] [⟨w, lookup', now⟩], Settled p.1 p.2) :
    Twins size (m.advance lookup now) (w.advance lookup' now) := by
  have hunfinished : lookup.finished = false := by
    obtain ⟨-, -, wide, shortlist, -, -, hself, -⟩ := h
    exact hself.unfinished
  have hsame : lookup'.finished = lookup.finished ∧
      lookup'.hintTransaction = lookup.hintTransaction ∧
        (w.isDone lookup' now ↔ m.isDone lookup now) ∧
          (w.active.contains lookup'.infoHash ↔ m.active.contains lookup.infoHash) := by
    obtain ⟨-, -, wide, shortlist, rfl, rfl, -, -⟩ := h
    refine ⟨rfl, rfl, Iff.rfl, ?_⟩
    change (m.active.mapValues _).contains lookup.infoHash = true ↔ _
    rw [OrderedMap.contains_mapValues]
  obtain ⟨hfinished, hhint, hdone, hcontains⟩ := hsame
  unfold LookupManager.advance
  rw [hfinished, hunfinished, if_neg Bool.false_ne_true, if_neg Bool.false_ne_true, hhint]
  by_cases hended : m.isDone lookup now
  · rw [if_pos hended, if_pos (hdone.mpr hended)]
    exact h.finish
  · rw [if_neg hended, if_neg (mt hdone.mp hended)]
    by_cases hnone : lookup.hintTransaction = none
    · rw [if_pos hnone, if_pos hnone]
      have hchooses : LookupTurn.chooses ⟨m, lookup, now⟩ := ⟨hunfinished, hended, hnone⟩
      have hspare := h.spare now (hsettled (⟨m, lookup, now⟩, ⟨w, lookup', now⟩) (by
        simp [paired, hchooses, (h.chooses_iff now).mpr hchooses]))
      have htopped := h.topUp now hspare
      have hidle := h.idle_iff now hspare
      dsimp only
      by_cases hnobody : (m.topUp lookup now).2.pending.size = 0 ∧
          ¬ (m.topUp lookup now).1.canQueryMore (m.topUp lookup now).2
      · rw [if_pos hnobody, if_pos (hidle.mpr hnobody)]
        exact htopped.finish
      · rw [if_neg hnobody, if_neg (mt hidle.mp hnobody)]
        exact (htopped.check hcontains.symm).save
    · rw [if_neg hnone, if_neg hnone]
      exact (h.check hcontains.symm).save

/-! ## The calls -/

theorem Twins.check {p q : Prop} [Decidable p] [Decidable q] (h : Twins size m w) (hpq : p ↔ q) :
    Twins size (m.check p) (w.check q) := by
  have hsame : w.check q = w.check p := by
    rw [LookupManager.check, LookupManager.check, decide_eq_decide.mpr hpq]
  obtain ⟨hsize, hbudget, wide, rfl, hall⟩ := h
  exact hsame ▸ ⟨hsize, hbudget, wide, rfl, hall⟩

theorem Twins.refill (h : Twins size m w) (now : ℚ) :
    Twins size (m.refill now) (w.refill now) := by
  obtain ⟨hsize, hbudget, wide, rfl, hall⟩ := h
  exact ⟨hsize, hbudget, wide, rfl, hall⟩

/-- The lookups of the table are in lockstep. -/
theorem Twins.on (h : Twins size m w) {infoHash : Bytes} (hget : m.active.get? infoHash = some lookup) :
    ∃ shortlist, w.active.get? infoHash = some (lookup.withShortlist shortlist) ∧
      TwinsOn size m lookup w (lookup.withShortlist shortlist) := by
  obtain ⟨hsize, hbudget, wide, rfl, hall⟩ := h
  obtain ⟨hkey, hself⟩ := hall infoHash lookup hget
  refine ⟨wide infoHash, ?_, hsize, hbudget, wide, wide infoHash, rfl, rfl, hself, ?_⟩
  · exact (OrderedMap.get?_mapValues _ _ _).trans (congrArg _ hget)
  · exact fun k _ other hother ↦ hall k other hother

theorem Twins.absent (h : Twins size m w) {infoHash : Bytes} (hget : m.active.get? infoHash = none) :
    w.active.get? infoHash = none := by
  obtain ⟨-, -, wide, rfl, -⟩ := h
  exact (OrderedMap.get?_mapValues _ _ _).trans (congrArg _ hget)

theorem Twins.finishLookup (h : Twins size m w) (infoHash : Bytes) :
    Twins size (m.finishLookup infoHash) (w.finishLookup infoHash) := by
  unfold LookupManager.finishLookup
  cases hget : m.active.get? infoHash with
  | none =>
    rw [h.absent hget]
    exact h
  | some lookup =>
    obtain ⟨shortlist, hget', hon⟩ := h.on hget
    rw [hget']
    exact hon.finish

theorem Twins.keys_eq (h : Twins size m w) : w.active.keys = m.active.keys := by
  obtain ⟨-, -, wide, rfl, -⟩ := h
  exact OrderedMap.keys_mapValues _ _

theorem Twins.abortAll (h : Twins size m w) : Twins size m.abortAll w.abortAll := by
  have hfolded : ∀ (hashes : List Bytes) {m w : LookupManager}, Twins size m w →
      Twins size (hashes.foldl LookupManager.finishLookup m)
        (hashes.foldl LookupManager.finishLookup w) := by
    intro hashes
    induction hashes with
    | nil => exact fun h ↦ h
    | cons infoHash rest ih => exact fun h ↦ ih (h.finishLookup infoHash)
  have hend := hfolded m.active.keys h
  have hsizes : (m.active.keys.foldl LookupManager.finishLookup w).active.size =
      (m.active.keys.foldl LookupManager.finishLookup m).active.size ∧
        (m.active.keys.foldl LookupManager.finishLookup w).transactions =
          (m.active.keys.foldl LookupManager.finishLookup m).transactions := by
    obtain ⟨-, -, wide, heq, -⟩ := hend
    rw [heq]
    exact ⟨OrderedMap.size_mapValues _ _, rfl⟩
  unfold LookupManager.abortAll
  rw [h.keys_eq]
  refine hend.check ?_
  rw [hsizes.1, hsizes.2]

theorem Twins.tickLookup (h : Twins size m w) {now : ℚ} {infoHash : Bytes}
    (hsettled : ∀ p ∈ paired (m.tickTurn now infoHash) (w.tickTurn now infoHash),
      Settled p.1 p.2) :
    Twins size (m.tickLookup now infoHash) (w.tickLookup now infoHash) := by
  unfold LookupManager.tickLookup
  unfold tickTurn at hsettled
  cases hget : m.active.get? infoHash with
  | none =>
    rw [h.absent hget]
    exact h
  | some lookup =>
    obtain ⟨shortlist, hget', hon⟩ := h.on hget
    rw [hget, hget'] at hsettled
    rw [hget']
    exact (hon.expirePending now).advance hsettled

/-- Both have as many lookups that choose in a turn of `tick`. -/
theorem Twins.length_tickTurn (h : Twins size m w) (now : ℚ) (infoHash : Bytes) :
    ((m.tickTurn now infoHash).filter LookupTurn.chooses).length =
      ((w.tickTurn now infoHash).filter LookupTurn.chooses).length := by
  unfold tickTurn
  cases hget : m.active.get? infoHash with
  | none =>
    rw [h.absent hget]
    rfl
  | some lookup =>
    obtain ⟨shortlist, hget', hon⟩ := h.on hget
    have hchooses := (hon.expirePending now).chooses_iff now
    rw [hget']
    simp only [Option.toList_some, List.map_cons, List.map_nil, List.filter_cons, List.filter_nil,
      hchooses]
    split <;> rfl

theorem Twins.tickEach {now : ℚ} (hashes : List Bytes) : ∀ {m w : LookupManager}, Twins size m w →
    (∀ p ∈ paired (m.tickTurns now hashes) (w.tickTurns now hashes), Settled p.1 p.2) →
      Twins size (hashes.foldl (LookupManager.tickLookup now) m)
        (hashes.foldl (LookupManager.tickLookup now) w) := by
  induction hashes with
  | nil => exact fun h _ ↦ h
  | cons infoHash rest ih =>
    intro m w h hsettled
    rw [tickTurns, tickTurns, paired, List.filter_append, List.filter_append,
      List.zip_append (h.length_tickTurn now infoHash)] at hsettled
    have hnext := h.tickLookup fun p hp ↦ hsettled p (List.mem_append_left _ hp)
    exact ih hnext fun p hp ↦ hsettled p (List.mem_append_right _ hp)

theorem Twins.unfinished_iff (h : Twins size m w) :
    (∀ lookup ∈ m.active.values, lookup.finished = false) ↔
      ∀ lookup ∈ w.active.values, lookup.finished = false := by
  obtain ⟨-, -, wide, rfl, -⟩ := h
  have hvalues : ((m.active.mapValues fun h lookup ↦ lookup.withShortlist (wide h)).values.map
      PeerLookup.finished) = m.active.values.map PeerLookup.finished := by
    simp only [OrderedMap.values, OrderedMap.mapValues, List.map_map]
    rfl
  have hmap (lookups : List PeerLookup) : (∀ lookup ∈ lookups, lookup.finished = false) ↔
      ∀ finished ∈ lookups.map PeerLookup.finished, finished = false := by
    rw [List.forall_mem_map]
  rw [hmap, hmap]
  exact hvalues ▸ Iff.rfl

theorem Twins.tick (h : Twins size m w) {now : ℚ}
    (hsettled : ∀ p ∈ paired (m.turns net (.tick now)) (w.turns net (.tick now)),
      Settled p.1 p.2) :
    Twins size (m.tick now) (w.tick now) := by
  have hready := (h.check (Iff.refl (0 ≤ now))).refill now
  have hkeys : ((w.check (0 ≤ now)).refill now).active.keys = m.active.keys := h.keys_eq
  rw [turns, turns, h.keys_eq] at hsettled
  have hend := hready.tickEach m.active.keys hsettled
  unfold LookupManager.tick
  dsimp only
  rw [hkeys]
  exact hend.check hend.unfinished_iff

theorem Twins.forgotten_iff (h : Twins size m w) (transactionId infoHash : Bytes) :
    m.forgotten transactionId infoHash ↔ w.forgotten transactionId infoHash := by
  unfold LookupManager.forgotten
  cases hget : m.active.get? infoHash with
  | none => rw [h.absent hget]
  | some lookup =>
    obtain ⟨shortlist, hget', -⟩ := h.on hget
    rw [hget']
    simp only [Option.mem_def, Option.some.injEq, forall_eq']
    exact Iff.rfl

theorem Twins.get?_transactions (h : Twins size m w) (transactionId : Bytes) :
    w.transactions.get? transactionId = m.transactions.get? transactionId := by
  obtain ⟨-, -, wide, rfl, -⟩ := h
  rfl

theorem Twins.raise (h : Twins size m w) :
    Twins size { m with raised := true } { w with raised := true } := by
  obtain ⟨hsize, hbudget, wide, rfl, hall⟩ := h
  exact ⟨hsize, hbudget, wide, rfl, hall⟩

theorem Twins.handleError (h : Twins size m w) {transactionId : Bytes} {now : ℚ}
    (hsettled : ∀ p ∈ paired (m.turns net (.handleError transactionId now))
      (w.turns net (.handleError transactionId now)), Settled p.1 p.2) :
    Twins size (m.handleError transactionId now) (w.handleError transactionId now) := by
  have hforgot : Twins size { m with transactions := m.transactions.erase transactionId }
      { w with transactions := w.transactions.erase transactionId } := by
    obtain ⟨hsize, hbudget, wide, rfl, hall⟩ := h
    exact ⟨hsize, hbudget, wide, rfl, hall⟩
  have hend {m' w' : LookupManager} (h : Twins size m' w') :
      Twins size (m'.check (¬ m'.ownsTransaction transactionId))
        (w'.check (¬ w'.ownsTransaction transactionId)) := by
    refine h.check ?_
    rw [ownsTransaction, ownsTransaction, OrderedMap.contains, OrderedMap.contains,
      h.get?_transactions]
  unfold LookupManager.handleError
  cases htransaction : m.transactions.get? transactionId with
  | none =>
    rw [h.get?_transactions, htransaction]
    exact h.raise
  | some infoHash =>
    rw [h.get?_transactions, htransaction]
    dsimp only
    refine hend ?_
    cases hget : m.active.get? infoHash with
    | none =>
      rw [h.absent hget]
      exact hforgot
    | some lookup =>
      obtain ⟨shortlist, hget', hon⟩ := h.on hget
      rw [hget']
      by_cases hpending : lookup.pending.contains transactionId
      · have hpending' : (lookup.withShortlist shortlist).pending.contains transactionId := hpending
        rw [turns, turns, h.get?_transactions, htransaction, Option.bind_some,
          Option.bind_some, hget, hget', Option.filter_some, if_pos hpending, Option.filter_some,
          if_pos hpending'] at hsettled
        rw [Option.filter_some, if_pos hpending, Option.filter_some, if_pos hpending']
        exact (hon.releaseTransaction transactionId).advance hsettled
      · have hpending' : ¬ (lookup.withShortlist shortlist).pending.contains transactionId := hpending
        rw [Option.filter_some, if_neg hpending, Option.filter_some, if_neg hpending']
        exact hforgot

theorem TwinsOn.answered (h : TwinsOn size m lookup w lookup') (net : Inet) (transactionId : Bytes)
    (response : Option BencodeValue) :
    TwinsOn size (m.answered net lookup transactionId response).1
      (m.answered net lookup transactionId response).2
        (w.answered net lookup' transactionId response).1
          (w.answered net lookup' transactionId response).2 := by
  have hhint : lookup'.hintTransaction = lookup.hintTransaction := by
    obtain ⟨-, -, wide, shortlist, -, rfl, -, -⟩ := h
    rfl
  unfold LookupManager.answered
  rw [hhint]
  refine TwinsOn.takeResponse ?_ net _ response
  obtain ⟨hsize, hbudget, wide, shortlist, heq, heq', hself, hothers⟩ :=
    h.releaseTransaction transactionId
  rw [heq, heq']
  exact ⟨hsize, hbudget, wide, shortlist, rfl, rfl, hself, hothers⟩

theorem Twins.handleResponse (h : Twins size m w) {transactionId : Bytes}
    {response : Option BencodeValue} {address : Address} {now : ℚ}
    (hsettled : ∀ p ∈ paired (m.turns net (.handleResponse transactionId response address now))
      (w.turns net (.handleResponse transactionId response address now)), Settled p.1 p.2) :
    Twins size (m.handleResponse net transactionId response address now)
      (w.handleResponse net transactionId response address now) := by
  unfold LookupManager.handleResponse
  cases htransaction : m.transactions.get? transactionId with
  | none =>
    rw [h.get?_transactions, htransaction]
    exact h.raise
  | some infoHash =>
    rw [h.get?_transactions, htransaction]
    dsimp only
    cases hget : m.active.get? infoHash with
    | none =>
      rw [LookupManager.awaitedFrom, LookupManager.awaitedFrom, hget, h.absent hget]
      exact h
    | some lookup =>
      obtain ⟨shortlist, hget', hon⟩ := h.on hget
      by_cases hpending : (lookup.pending.get? transactionId).map PendingQuery.address = some address
      · have hpending' : ((lookup.withShortlist shortlist).pending.get? transactionId).map
          PendingQuery.address = some address := hpending
        have hawaited : m.awaitedFrom transactionId infoHash address = some lookup := by
          rw [LookupManager.awaitedFrom, hget, Option.filter_some, if_pos (decide_eq_true hpending)]
        have hawaited' : w.awaitedFrom transactionId infoHash address =
            some (lookup.withShortlist shortlist) := by
          rw [LookupManager.awaitedFrom, hget', Option.filter_some,
            if_pos (decide_eq_true hpending')]
        rw [turns, turns, h.get?_transactions, htransaction, Option.bind_some,
          Option.bind_some, hawaited, hawaited'] at hsettled
        rw [hawaited, hawaited']
        have hadvanced := (hon.answered net transactionId response).advance hsettled
        exact hadvanced.check (hadvanced.forgotten_iff _ _)
      · have hpending' : ¬ ((lookup.withShortlist shortlist).pending.get? transactionId).map
          PendingQuery.address = some address := hpending
        have hawaited : m.awaitedFrom transactionId infoHash address = none := by
          rw [LookupManager.awaitedFrom, hget, Option.filter_some, if_neg (by simpa using hpending)]
        have hawaited' : w.awaitedFrom transactionId infoHash address = none := by
          rw [LookupManager.awaitedFrom, hget', Option.filter_some,
            if_neg (by simpa using hpending')]
        rw [hawaited, hawaited']
        exact h

theorem TwinsOn.launch (h : TwinsOn size m lookup w lookup') {hint : Option Node} {now : ℚ}
    (hspare : hint = none → m.Spare lookup lookup'.shortlist) :
    Twins size (m.launch lookup hint now) (w.launch lookup' hint now) := by
  unfold LookupManager.launch
  cases hint with
  | none =>
    have hstarted : TwinsOn size
        ({ m with startedTotal := m.startedTotal + 1 }.emit
          (.started lookup.number lookup.infoHash now)) lookup
        ({ w with startedTotal := w.startedTotal + 1 }.emit
          (.started lookup'.number lookup'.infoHash now)) lookup' := by
      obtain ⟨hsize, hbudget, wide, shortlist, rfl, rfl, hself, hothers⟩ := h
      exact ⟨hsize, hbudget, wide, shortlist, rfl, rfl, hself, hothers⟩
    exact (hstarted.topUp now (hspare rfl)).save
  | some node =>
    obtain ⟨hsize, hbudget, wide, shortlist, rfl, rfl, hself, hothers⟩ := h
    have hasked : (insert node.address lookup.queried).card ≤ lookup.queriesSent + 1 :=
      (Finset.card_insert_le _ _).trans (Nat.succ_le_succ hself.asked)
    refine TwinsOn.save ⟨hsize, hbudget, wide, shortlist, rfl, rfl, ?_, hothers⟩
    exact ⟨hself.trimmed, hasked, hself.length, hself.unfinished⟩

/-- A new lookup is in lockstep with itself. -/
theorem Twins.opened (h : Twins size m w) {infoHash : Bytes} (hlength : infoHash.length = nodeIdLength)
    (number : ℕ) (deadline : ℚ) :
    TwinsOn size m (.new number infoHash deadline) w (.new number infoHash deadline) := by
  obtain ⟨hsize, hbudget, wide, rfl, hall⟩ := h
  have hempty : ValidShortlist (.empty : OrderedMap Bytes Node) :=
    ⟨(fun _ _ hget ↦ by cases hget), fun _ hid ↦ absurd hid List.not_mem_nil⟩
  have htrimmed : Trimmed m.limits.shortlistSize infoHash (.empty : OrderedMap Bytes Node) .empty :=
    ⟨hempty, hempty, by
      rw [selectClosestNodes_eq, takeFirst]
      exact (List.take_nil).symm ▸ List.Perm.nil⟩
  exact ⟨hsize, hbudget, wide, .empty, rfl, rfl,
    ⟨htrimmed, le_rfl, hlength, rfl⟩,
    fun k _ other hother ↦ hall k other hother⟩

/-- `add_to_shortlist` leaves two managers in lockstep as they are. -/
theorem TwinsOn.addToShortlist_fst (h : TwinsOn size m lookup w lookup') (nodes : List Node) :
    (m.addToShortlist lookup nodes).1 = m ∧ (w.addToShortlist lookup' nodes).1 = w := by
  obtain ⟨-, -, wide, shortlist, rfl, rfl, hself, -⟩ := h
  have hwide : ValidShortlist (lookup.withShortlist shortlist).shortlist := hself.trimmed.wideValid
  rw [addToShortlist_of_valid hself.trimmed.keptValid hself.length,
    addToShortlist_of_valid hwide hself.length]
  exact ⟨rfl, rfl⟩

/-- Both refuse a lookup, or both open it in lockstep. -/
theorem Twins.openLookup (h : Twins size m w) {infoHash : Bytes}
    (hlength : infoHash.length = nodeIdLength) (seedNodes : List Node) (now : ℚ)
    (hint : Option Node) :
    (w.openLookup infoHash seedNodes now hint).2 = (m.openLookup infoHash seedNodes now hint).2 ∧
      (((m.openLookup infoHash seedNodes now hint).2 → hint.filter m.isUsableNode = none →
          Settled (m.openingTurn infoHash seedNodes now) (w.openingTurn infoHash seedNodes now)) →
        Twins size (m.openLookup infoHash seedNodes now hint).1
          (w.openLookup infoHash seedNodes now hint).1) := by
  have hopened := h.opened hlength m.startedTotal (now + m.limits.deadline)
  have hfilled := hopened.addToShortlist seedNodes
  obtain ⟨hkept, hkept'⟩ := hopened.addToShortlist_fst seedNodes
  have hsize : (w.addToShortlist (.new m.startedTotal infoHash (now + m.limits.deadline))
      seedNodes).2.shortlist.size = 0 ↔ (m.addToShortlist (.new m.startedTotal infoHash
        (now + m.limits.deadline)) seedNodes).2.shortlist.size = 0 := by
    obtain ⟨-, hbudget, wide, shortlist, -, heq, hself, -⟩ := hfilled
    have hpositive := Nat.zero_lt_of_lt hbudget
    have hmin := hself.trimmed.size_eq
    rw [heq]
    change shortlist.size = 0 ↔ _
    omega
  have hsame : w.startedTotal = m.startedTotal ∧ w.limits.deadline = m.limits.deadline ∧
      w.isUsableNode = m.isUsableNode ∧ w.inFlightTo = m.inFlightTo ∧
        w.limits.maxPerNode = m.limits.maxPerNode := by
    obtain ⟨-, -, wide, rfl, -⟩ := h
    exact ⟨rfl, rfl, rfl, rfl, rfl⟩
  obtain ⟨hstarted, hdeadline, husable, hinFlight, hperNode⟩ := hsame
  unfold LookupManager.openLookup LookupManager.openingTurn
  rw [hstarted, hdeadline, husable, hperNode, hinFlight]
  dsimp only
  split
  · exact ⟨rfl, fun _ ↦ h⟩
  next hfree =>
    by_cases hnothing : hint.filter m.isUsableNode = none ∧ (m.addToShortlist
        (.new m.startedTotal infoHash (now + m.limits.deadline)) seedNodes).2.shortlist.size = 0
    · rw [if_pos hnothing, if_pos ⟨hnothing.1, hsize.mpr hnothing.2⟩]
      dsimp only
      rw [hkept, hkept']
      exact ⟨rfl, fun _ ↦ h⟩
    · rw [if_neg hnothing, if_neg (mt (And.imp_right hsize.mp) hnothing)]
      exact ⟨rfl, fun hsettled ↦ hfilled.launch fun hnone ↦ hfilled.spare now (hsettled rfl hnone)⟩

theorem Twins.startLookup (h : Twins size m w) {infoHash : Bytes} {seedNodes : List Node} {now : ℚ}
    {hint : Option Node}
    (hsettled : ∀ p ∈ (m.startTurns infoHash seedNodes now hint).zip
      (w.startTurns infoHash seedNodes now hint), Settled p.1 p.2) :
    Twins size (m.startLookup infoHash seedNodes now hint).1
      (w.startLookup infoHash seedNodes now hint).1 := by
  have hsizes : w.active.size = m.active.size ∧ w.limits.maxActive = m.limits.maxActive ∧
      (w.active.contains infoHash ↔ m.active.contains infoHash) ∧
        w.isUsableNode = m.isUsableNode := by
    obtain ⟨-, -, wide, rfl, -⟩ := h
    refine ⟨OrderedMap.size_mapValues _ _, rfl, ?_, rfl⟩
    change (m.active.mapValues _).contains infoHash = true ↔ _
    rw [OrderedMap.contains_mapValues]
  obtain ⟨hsize, hmaxActive, hcontains, husable⟩ := hsizes
  have hchecked : Twins size (m.check (m.active.size ≤ m.limits.maxActive))
      (w.check (w.active.size ≤ w.limits.maxActive)) := by
    rw [hsize, hmaxActive]
    exact h.check Iff.rfl
  have hrefilled := hchecked.refill now
  have htokens : ((w.check (w.active.size ≤ w.limits.maxActive)).refill now).tokens =
      ((m.check (m.active.size ≤ m.limits.maxActive)).refill now).tokens := by
    obtain ⟨-, -, wide, heq, -⟩ := hrefilled
    rw [heq]
    rfl
  have hslots : (w.check (w.active.size ≤ w.limits.maxActive)).freeSlots =
      (m.check (m.active.size ≤ m.limits.maxActive)).freeSlots := by
    change w.limits.maxActive - w.active.size = m.limits.maxActive - m.active.size
    rw [hsize, hmaxActive]
  have hopening : (m.startLookup infoHash seedNodes now hint).2 →
      (w.startLookup infoHash seedNodes now hint).2 → hint.filter m.isUsableNode = none → Settled
        (((m.check (m.active.size ≤ m.limits.maxActive)).refill now).openingTurn infoHash seedNodes now)
        (((w.check (w.active.size ≤ w.limits.maxActive)).refill now).openingTurn infoHash seedNodes
          now) := by
    intro hstarted hstarted' hnone
    rw [startTurns, startTurns, if_pos ⟨hstarted, hnone⟩, if_pos ⟨hstarted', husable ▸ hnone⟩]
      at hsettled
    exact hsettled (_, _) List.mem_cons_self
  unfold LookupManager.startLookup at hopening ⊢
  by_cases hlength : infoHash.length = nodeIdLength
  · rw [if_neg (not_not.mpr hlength), if_neg (not_not.mpr hlength)] at hopening ⊢
    by_cases hactive : m.active.contains infoHash
    · rw [if_pos hactive, if_pos (hcontains.mpr hactive)]
      exact h
    · rw [if_neg hactive, if_neg (mt hcontains.mp hactive)] at hopening ⊢
      dsimp only at hopening ⊢
      rw [hslots, htokens] at hopening ⊢
      by_cases hfull : (m.check (m.active.size ≤ m.limits.maxActive)).freeSlots = 0
      · rw [if_pos hfull, if_pos hfull]
        exact hchecked
      · rw [if_neg hfull, if_neg hfull] at hopening ⊢
        by_cases hshort : ((m.check (m.active.size ≤ m.limits.maxActive)).refill now).tokens < 1
        · rw [if_pos hshort, if_pos hshort]
          exact hrefilled
        · rw [if_neg hshort, if_neg hshort] at hopening ⊢
          obtain ⟨haccepted, hopen⟩ :=
            hrefilled.openLookup hlength seedNodes now hint
          exact hopen fun hopened ↦ hopening hopened (haccepted.trans hopened)
  · rw [if_pos hlength, if_pos hlength]
    exact h.raise

/-- Whatever the first manager has cut off does not matter for the choices of the call. -/
def Settles (net : Inet) (m w : LookupManager) (call : LookupCall) : Prop :=
  ∀ p ∈ (m.choices net call).zip (w.choices net call), Settled p.1 p.2

instance (net : Inet) (m w : LookupManager) (call : LookupCall) : Decidable (Settles net m w call) :=
  inferInstanceAs (Decidable (∀ p ∈ (m.choices net call).zip (w.choices net call), Settled p.1 p.2))

/-- The calls go in lockstep. -/
theorem Twins.apply (h : Twins size m w) {call : LookupCall} (hsettles : Settles net m w call) :
    Twins size (m.apply net call) (w.apply net call) := by
  cases call with
  | startLookup infoHash seedNodes now hint => exact h.startLookup hsettles
  | handleResponse transactionId response address now => exact h.handleResponse hsettles
  | handleError transactionId now => exact h.handleError hsettles
  | tick now => exact h.tick hsettles
  | abortAll => exact h.abortAll
  | refill now => exact h.refill now

theorem Twins.same (h : Twins size m w) : w.log = m.log ∧ w.raised = m.raised := by
  obtain ⟨-, -, wide, rfl, -⟩ := h
  exact ⟨rfl, rfl⟩

/-- So do the runs, with the same log at every step. -/
theorem Twins.run (calls : List LookupCall) : ∀ {m w m' : LookupManager}, Twins size m w →
    ((lookupMachine net).both (lookupMachine net)).Along
        (fun s call ↦ Settles net s.1 s.2 call) (m, w) calls →
      (lookupMachine net).run m calls = some m' →
        ((lookupMachine net).both (lookupMachine net)).Along
            (fun s _ ↦ s.2.log = s.1.log) (m, w) calls ∧
          ∃ w', (lookupMachine net).run w calls = some w' ∧ Twins size m' w' := by
  induction calls with
  | nil =>
    intro m w m' h _ hrun
    rw [Machine.run_nil, Option.some.injEq] at hrun
    exact ⟨trivial, w, rfl, hrun ▸ h⟩
  | cons call rest ih =>
    intro m w m' h hguard hrun
    obtain ⟨mid, hmid, hrest⟩ := (lookupMachine net).run_cons_eq_some.mp hrun
    have hnext := h.apply hguard.1
    have hmid' : (lookupMachine net).step w call = some (w.apply net call) := by
      simp only [lookupMachine] at hmid
      split at hmid
      · cases hmid
      next hreturned => exact if_neg (hnext.same.2.symm ▸ hreturned)
    have heq : mid = m.apply net call := by
      simp only [lookupMachine] at hmid
      split at hmid
      · cases hmid
      · exact (Option.some.inj hmid).symm
    have hboth := Machine.both_step hmid hmid'
    obtain ⟨halong, w', hrun', hend⟩ := ih (heq ▸ hnext) (hguard.2 _ hboth) hrest
    exact ⟨.cons hboth h.same.1 halong, w',
      (lookupMachine net).run_cons_eq_some.mpr ⟨w.apply net call, hmid', hrun'⟩, hend⟩

/-! ## Lookups that keep every node -/

/-- The number of nodes that the call offers. -/
def offeredCount (net : Inet) : LookupCall → ℕ
  | .startLookup _ seedNodes _ _ => seedNodes.length
  | .handleResponse _ response _ _ => (offeredNodes net response).length
  | _ => 0

/-- The nodes that the call offers fit into the shortlist: none is cut off. -/
def keepsAll (net : Inet) (m : LookupManager) : LookupCall → Prop
  | .startLookup _ seedNodes _ _ => seedNodes.length ≤ m.limits.shortlistSize
  | .handleResponse transactionId response address _ => ∀ infoHash lookup,
      m.transactions.get? transactionId = some infoHash →
        m.awaitedFrom transactionId infoHash address = some lookup →
          lookup.shortlist.size + (offeredNodes net response).length ≤ m.limits.shortlistSize
  | _ => True

/-- No shortlist holds more than `bound` nodes. -/
structure Bounded (limits : LookupLimits) (bound : ℕ) (m : LookupManager) : Prop where
  limits : m.limits = limits
  sizes : ∀ h lookup, m.active.get? h = some lookup → lookup.shortlist.size ≤ bound

variable {limits : LookupLimits} {bound : ℕ}

theorem Bounded.kept (h : (m.save lookup).Bounded limits bound) {m' : LookupManager}
    (hlimits : m'.limits = m.limits) (hactive : m'.active = m.active)
    (hkey : lookup'.infoHash = lookup.infoHash) (hsize : lookup'.shortlist.size ≤ bound) :
    (m'.save lookup').Bounded limits bound := by
  refine ⟨hlimits.trans h.limits, fun k other hother ↦ ?_⟩
  rw [get?_save, hkey, hactive] at hother
  split at hother
  · rw [← Option.some.inj hother]
    exact hsize
  next hk => exact h.sizes k other ((get?_save _ _ _).trans ((if_neg hk).trans hother))

theorem Bounded.self (h : (m.save lookup).Bounded limits bound) : lookup.shortlist.size ≤ bound :=
  h.sizes lookup.infoHash lookup ((get?_save _ _ _).trans (if_pos rfl))

theorem size_foldl_insert_le (nodes : List Node) : ∀ shortlist : OrderedMap Bytes Node,
    (nodes.foldl (fun shortlist node ↦ shortlist.insert node.nodeId node) shortlist).size ≤
      shortlist.size + nodes.length := by
  induction nodes with
  | nil => exact fun _ ↦ le_rfl
  | cons first rest ih =>
    intro shortlist
    have hrest := ih (shortlist.insert first.nodeId first)
    have hfirst := shortlist.size_insert_le first.nodeId first
    rw [List.length_cons]
    exact hrest.trans (by omega)

theorem size_addToShortlist_le (m : LookupManager) (lookup : PeerLookup) (nodes : List Node) :
    (m.addToShortlist lookup nodes).2.shortlist.size ≤ lookup.shortlist.size + nodes.length := by
  have hfilled := size_foldl_insert_le (nodes.filter (m.isNewNode lookup)) lookup.shortlist
  have hnew := List.length_filter_le (m.isNewNode lookup) nodes
  unfold LookupManager.addToShortlist
  dsimp only
  split
  · refine (size_foldl_insert_le _ .empty).trans ?_
    rw [selectClosestNodes_eq, length_takeFirst, OrderedMap.values, List.length_map]
    have hmin := min_le_right m.limits.shortlistSize ((nodes.filter (m.isNewNode lookup)).foldl
      (fun shortlist node ↦ shortlist.insert node.nodeId node) lookup.shortlist).items.length
    have hempty : (OrderedMap.empty : OrderedMap Bytes Node).size = 0 := rfl
    have hsize : ((nodes.filter (m.isNewNode lookup)).foldl (fun shortlist node ↦
        shortlist.insert node.nodeId node) lookup.shortlist).size = ((nodes.filter
          (m.isNewNode lookup)).foldl (fun shortlist node ↦ shortlist.insert node.nodeId node)
            lookup.shortlist).items.length := rfl
    omega
  · dsimp only
    omega

theorem bounded_rules (net : Inet) (limits : LookupLimits) (bound : ℕ) :
    ManagerRules net (fun _ lookup nodes ↦ lookup.shortlist.size + nodes.length ≤ bound)
      (Bounded limits bound) where
  step :=
    { checked := fun m lookup b h ↦ h.kept rfl rfl rfl h.self
      counted := fun m lookup queries answers h ↦ h.kept rfl rfl rfl h.self
      refilled := fun m lookup now h ↦ h.kept rfl rfl rfl h.self
      shortlisted := by
        intro m lookup nodes ho h
        have hsize := (size_addToShortlist_le m lookup nodes).trans ho
        obtain ⟨-, shortlist, heq⟩ := ManagerRules.addToShortlist_kept m lookup nodes
        rw [heq] at hsize ⊢
        exact h.kept rfl rfl rfl hsize
      sent := fun m lookup node now timeout _ h ↦ h.kept rfl rfl rfl h.self
      hinted := fun m lookup transactionId _ h ↦ h.kept rfl rfl rfl h.self
      released := by
        intro m lookup transactionId query hget h
        simp only [LookupManager.releaseTransaction, hget]
        exact h.kept rfl rfl rfl h.self
      found := by
        intro m lookup fromHint values h
        obtain ⟨hintValues, events, found, responses, hmanager, hlookup, -⟩ :=
          ManagerRules.takeValues_kept net m lookup fromHint values
        rw [hmanager, hlookup]
        exact h.kept rfl rfl rfl h.self }
  checked := fun m b h ↦ ⟨h.limits, h.sizes⟩
  refilled := fun m now h ↦ ⟨h.limits, h.sizes⟩
  forgot := fun m transactionId infoHash _ _ h ↦ ⟨h.limits, h.sizes⟩
  started := by
    intro m infoHash now _ _ _ _ h
    refine ⟨h.limits, fun k other hother ↦ ?_⟩
    have hget : (m.active.insert infoHash (.new m.startedTotal infoHash
        (now + m.limits.deadline))).get? k = some other := hother
    rw [OrderedMap.get?_insert] at hget
    split at hget
    · rw [← Option.some.inj hget]
      exact Nat.zero_le _
    · exact h.sizes k other hget
  closed := by
    intro m lookup _ h
    refine ⟨h.limits, fun k other hother ↦ ?_⟩
    have hget : (m.active.erase lookup.infoHash).get? k = some other := hother
    rw [OrderedMap.get?_erase] at hget
    split at hget
    · cases hget
    next hk => exact h.sizes k other ((get?_save _ _ _).trans ((if_neg hk).trans hget))

theorem length_decodedNodes_of_ok (decoder : Bytes → Except Failure (List Node))
    {compactNodes : Option BencodeValue} {data : Bytes} {nodes : List Node}
    (hcompact : compactNodes = some (.bytes data)) (hnodes : decoder data = .ok nodes) :
    (decodedNodes decoder compactNodes).length = nodes.length := by
  rw [hcompact, decodedNodes, hnodes]
  rfl

theorem size_takeNodes_le (m : LookupManager) (lookup : PeerLookup)
    (decoder : Bytes → Except Failure (List Node)) (compactNodes : Option BencodeValue) :
    (m.takeNodes lookup decoder compactNodes).2.shortlist.size ≤
      lookup.shortlist.size + (decodedNodes decoder compactNodes).length := by
  unfold LookupManager.takeNodes
  split
  next data =>
    cases hnodes : decoder data with
    | error failure => exact Nat.le_add_right _ _
    | ok nodes =>
      rw [length_decodedNodes_of_ok decoder rfl hnodes]
      exact size_addToShortlist_le _ _ _
  next => exact Nat.le_add_right _ _

/-- A call that keeps all its nodes adds no more of them than it offers. -/
theorem Bounded.offer (h : m.Bounded limits bound) (call : LookupCall) :
    m.callOffer (fun _ lookup nodes ↦ lookup.shortlist.size + nodes.length ≤
      bound + offeredCount net call) net call := by
  cases call with
  | startLookup infoHash seedNodes now hint =>
    intro m' _ _
    have hempty : (PeerLookup.new m.startedTotal infoHash
      (now + m.limits.deadline)).shortlist.size = 0 := rfl
    rw [hempty, Nat.zero_add]
    exact Nat.le_add_left _ _
  | handleResponse transactionId response address now =>
    intro infoHash lookup hget hawaited
    obtain ⟨hactive, hpending⟩ := Option.filter_eq_some_iff.mp hawaited
    obtain ⟨query, hquery, -⟩ := Option.map_eq_some_iff.mp (of_decide_eq_true hpending)
    have hreleased : (m.releaseTransaction lookup transactionId).2.shortlist = lookup.shortlist := by
      simp only [releaseTransaction, hquery]
    intro released fromHint counted items values hresponse _ taken
    have htaken : taken.2.shortlist = lookup.shortlist :=
      (takeValues_view net counted released.2 fromHint values).2.trans hreleased
    have hsize := h.sizes infoHash lookup hactive
    have hcount : offeredCount net (.handleResponse transactionId response address now) =
        (decodedNodes (decodeCompactNodes net) (items.lookup nodesKey)).length +
          (decodedNodes (decodeCompactNodes6 net) (items.lookup nodes6Key)).length := by
      rw [offeredCount, hresponse, offeredNodes, List.length_append]
    rw [hcount]
    constructor
    · intro data nodes hcompact hnodes
      have hlength := length_decodedNodes_of_ok (decodeCompactNodes net) hcompact hnodes
      rw [htaken]
      omega
    · intro after data nodes hcompact hnodes
      have hfirst : after.2.shortlist.size ≤ taken.2.shortlist.size +
          (decodedNodes (decodeCompactNodes net) (items.lookup nodesKey)).length :=
        size_takeNodes_le taken.1 taken.2 (decodeCompactNodes net) (items.lookup nodesKey)
      have hlength := length_decodedNodes_of_ok (decodeCompactNodes6 net) hcompact hnodes
      have hshortlist := congrArg OrderedMap.size htaken
      omega
  | _ => exact True.intro

/-- With room for all nodes that are offered, none is cut off. -/
theorem along_keepsAll (calls : List LookupCall) : ∀ {m : LookupManager} {bound : ℕ}, m.Keyed →
    m.Bounded limits bound → bound + (calls.map (offeredCount net)).sum ≤ limits.shortlistSize →
      (lookupMachine net).Along (fun m call ↦ m.keepsAll net call) m calls := by
  induction calls with
  | nil => exact fun _ _ _ ↦ trivial
  | cons call rest ih =>
    intro m bound hm h hroom
    rw [List.map_cons, List.sum_cons] at hroom
    refine ⟨?_, fun m' hstep ↦ ?_⟩
    · cases call with
      | startLookup infoHash seedNodes now hint =>
        have hcount : offeredCount net (.startLookup infoHash seedNodes now hint) =
          seedNodes.length := rfl
        rw [keepsAll, h.limits]
        omega
      | handleResponse transactionId response address now =>
        intro infoHash lookup _ hawaited
        have hsize := h.sizes infoHash lookup (Option.filter_eq_some_iff.mp hawaited).1
        have hcount : offeredCount net (.handleResponse transactionId response address now) =
          (offeredNodes net response).length := rfl
        rw [h.limits]
        omega
      | _ => trivial
    · have hgrown : m.Bounded limits (bound + offeredCount net call) :=
        ⟨h.limits, fun k lookup hget ↦ (h.sizes k lookup hget).trans (Nat.le_add_right _ _)⟩
      simp only [lookupMachine] at hstep
      split at hstep
      · cases hstep
      · rw [← Option.some.inj hstep]
        obtain ⟨hkeyed, hnext⟩ := (bounded_rules net limits _).apply hm hgrown call (h.offer call)
        exact ih hkeyed hnext (by omega)

/-- Lookups that have not cut off anybody who matters for their choices do at every step what lookups
do that keep every node, and these ask the closest nodes that can be asked and give up only when
nobody is left. -/
theorem trimming_changes_nothing (net : Inet) (limits : LookupLimits)
    (hbudget : limits.maxQueries < limits.shortlistSize) (nodeFilter : Node → Bool) (start : ℚ)
    (size : ℕ) (hsize : limits.shortlistSize ≤ size) (calls : List LookupCall)
    (hall : (calls.map (offeredCount net)).sum ≤ size) (m : LookupManager)
    (hsettles : ((lookupMachine net).both (lookupMachine net)).Along
      (fun s call ↦ Settles net s.1 s.2 call) (.new limits nodeFilter start,
        .new { limits with shortlistSize := size } nodeFilter start) calls)
    (hrun : (lookupMachine net).run (.new limits nodeFilter start) calls = some m) :
    let everything : LookupManager := .new { limits with shortlistSize := size } nodeFilter start
    (lookupMachine net).Along (fun w call ↦ w.keepsAll net call) everything calls ∧
      ((lookupMachine net).both (lookupMachine net)).Along (fun s _ ↦ s.2.log = s.1.log)
          (.new limits nodeFilter start, everything) calls ∧
        ∃ w, (lookupMachine net).run everything calls = some w ∧ w.log = m.log ∧
          (∀ h lookup, m.active.get? h = some lookup → ∃ lookup', w.active.get? h = some lookup' ∧
            ∀ id node, lookup.shortlist.get? id = some node →
              lookup'.shortlist.get? id = some node) ∧
          ∀ past event rest, m.log = past ++ event :: rest → ∃ before call after,
            (lookupMachine net).Takes everything calls before call after ∧ before.log <+: past ∧
              past ++ [event] <+: after.log ∧ before.Reason net call past event := by
  intro everything
  have hbounded : everything.Bounded { limits with shortlistSize := size } 0 :=
    ⟨rfl, fun _ _ hget ↦ by cases hget⟩
  have htwins : Twins size (.new limits nodeFilter start) everything :=
    ⟨hsize, hbudget, fun _ ↦ .empty, rfl, fun _ _ hget ↦ by cases hget⟩
  obtain ⟨hlogs, w, hrun', hend⟩ := htwins.run calls hsettles hrun
  refine ⟨along_keepsAll calls (keyed_new _ nodeFilter start) hbounded
    ((Nat.zero_add _).trans_le hall), hlogs, w, hrun', hend.same.1, fun h lookup hget ↦ ?_, ?_⟩
  · obtain ⟨shortlist, hget', -, -, wide, kept, -, heq, hself, -⟩ := hend.on hget
    refine ⟨_, hget', ?_⟩
    rw [heq]
    exact hself.trimmed.subset
  · intro past event rest hlog
    exact (grows_run net calls hrun').reason (hend.same.1.trans hlog)

/-- A lookup of five seeds that keeps four of them asks the three closest ones in turn. -/
theorem trimming_changes_nothing_five :
    let limits : LookupLimits := { maxQueries := 3, shortlistSize := 4 }
    let infoHash : Bytes := List.replicate nodeIdLength 0
    let calls : List LookupCall :=
      [.startLookup infoHash ([5, 4, 3, 2, 1].map sampleNode) 0 none,
        .handleError (lookupTransactionId 0) 1, .handleError (lookupTransactionId 1) 2]
    let everything : LookupManager := .new { limits with shortlistSize := 5 } (fun _ ↦ true) 0
    let m := calls.foldl (LookupManager.apply sampleInet) (.new limits (fun _ ↦ true) 0)
    (m.active.get? infoHash).map (fun lookup ↦ lookup.shortlist.size) = some 4 ∧
      asked m.log 0 = [1, 2, 3].map (fun n ↦ (sampleNode n).address) ∧
        (lookupMachine sampleInet).Along (fun w call ↦ w.keepsAll sampleInet call) everything calls ∧
          ∃ w, (lookupMachine sampleInet).run everything calls = some w ∧ w.log = m.log := by
  obtain ⟨hkeeps, -, w, hrun, hlog, -⟩ := trimming_changes_nothing sampleInet
    { maxQueries := 3, shortlistSize := 4 } (by decide) (fun _ ↦ true) 0 5 (by decide)
    [.startLookup (List.replicate nodeIdLength 0) ([5, 4, 3, 2, 1].map sampleNode) 0 none,
      .handleError (lookupTransactionId 0) 1, .handleError (lookupTransactionId 1) 2] (by decide) _
    (by decide +kernel) (run_of_returns (by decide +kernel))
  exact ⟨by decide +kernel, by decide +kernel, hkeeps, w, hrun, hlog⟩

/-- A reply of four ids at one address makes a lookup give up that had another node to ask, kept nodes
at their cap keep a lookup from asking the node that was cut off, one `top_up` asks one address twice,
and a hint is asked before a closer seed. -/
theorem trimming_drops_usable_node :
    let run (limits : LookupLimits) (size : ℕ) (calls : List LookupCall) : Option (ℕ × List Address) :=
      ((lookupMachine sampleInet).run (.new { limits with shortlistSize := size } (fun _ ↦ true) 0)
        calls).map fun m ↦ (m.active.size, asked m.log (m.startedTotal - 1))
    let host (n : UInt8) : Address := (sampleNode n).address
    let infoHash : Bytes := List.replicate nodeIdLength 0
    let entry (id : UInt8) : Bytes := List.replicate nodeIdLength id ++ [8, 8, 8, 7, 26, 225]
    let shared : Address := (sampleInet.ntoa [8, 8, 8, 7], 6881)
    let few : LookupLimits := { maxQueries := 3 }
    let replied : List LookupCall :=
      [.startLookup infoHash [sampleNode 1, sampleNode 9] 0 none,
        .handleResponse (lookupTransactionId 0) (some (.dict [(nodesKey,
          .bytes (entry 2 ++ entry 3 ++ entry 4 ++ entry 5))])) (host 1) 1,
        .handleError (lookupTransactionId 1) 2]
    let single : LookupLimits := { maxQueries := 1, maxPerNode := 1 }
    let busy : List LookupCall :=
      [.startLookup (List.replicate nodeIdLength 1) [sampleNode 1] 0 none,
        .startLookup (List.replicate nodeIdLength 2) [sampleNode 2] 0 none,
        .startLookup infoHash ([1, 2, 9].map sampleNode) 0 none]
    let double : LookupLimits := { alpha := 2, alpha_pos := by decide }
    let twice : List LookupCall :=
      [.startLookup infoHash
        [sampleNode 1, { sampleNode 1 with nodeId := List.replicate nodeIdLength 2 }] 0 none]
    let hinted : List LookupCall := [.startLookup infoHash [sampleNode 1] 0 (some (sampleNode 9))]
    (run few 4 replied = some (0, [host 1, shared]) ∧
        run few 6 replied = some (1, [host 1, shared, host 9])) ∧
      (run single 2 busy = some (3, []) ∧ run single 5 busy = some (3, [host 9])) ∧
        run double 17 twice = some (1, [host 1, host 1]) ∧
          run defaultLookupLimits 17 hinted = some (1, [host 9]) := by
  refine ⟨⟨by decide +kernel, by decide +kernel⟩, ⟨by decide +kernel, by decide +kernel⟩,
    by decide +kernel, by decide +kernel⟩

end LookupManager

end DhtScraper
