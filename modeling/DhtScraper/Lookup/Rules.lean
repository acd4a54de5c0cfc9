import DhtScraper.Lookup.Manager

/-!
# Induction over the calls of the lookup manager

A call is a sequence of small steps: a bucket is refilled, a shortlist grows, a query is sent or
released, peers are found, a lookup is started or closed.  `StepRules` lists what a property of the
manager and of the lookup it works on has to survive, with what is known at each step;
`ManagerRules` adds the steps that put a lookup into the table and take it out.
-/

namespace DhtScraper

open Library

/-- No two nodes of the shortlist have one address. -/
def PeerLookup.DistinctAddresses (lookup : PeerLookup) : Prop :=
  (lookup.shortlist.values.map Node.address).Nodup

namespace LookupManager

variable {m m' : LookupManager} {lookup lookup' : PeerLookup}

/-- What holds when a query to `node` is sent for a lookup. -/
structure MaySend (m : LookupManager) (lookup : PeerLookup) (node : Node) : Prop where
  token : 1 ≤ m.tokens
  room : lookup.pending.size < m.limits.alpha
  budget : lookup.queriesSent < m.limits.maxQueries ∨ lookup.queriesSent = 0
  known : node ∈ lookup.shortlist.values ∨ m.isUsableNode node
  fresh : m.limits.alpha = 1 ∨ lookup.DistinctAddresses →
    node.address ∉ lookup.queried ∧ m.inFlightTo node.address < m.limits.maxPerNode

/-- What a property of a manager and of the lookup it works on has to survive.  `Offer` restricts
the nodes that shortlists are offered. -/
structure StepRules (net : Inet) (Offer : LookupManager → PeerLookup → List Node → Prop)
    (I : LookupManager → PeerLookup → Prop) : Prop where
  checked : ∀ (m : LookupManager) (lookup : PeerLookup) b, I m lookup → I { m with raised := b } lookup
  counted : ∀ (m : LookupManager) (lookup : PeerLookup) queries answers, I m lookup →
    I { m with hintQueries := queries, hintAnswers := answers } lookup
  refilled : ∀ (m : LookupManager) (lookup : PeerLookup) now, I m lookup → I (m.refill now) lookup
  shortlisted : ∀ (m : LookupManager) (lookup : PeerLookup) nodes, Offer m lookup nodes → I m lookup →
    I m (m.addToShortlist lookup nodes).2
  sent : ∀ (m : LookupManager) (lookup : PeerLookup) node now timeout, m.MaySend lookup node →
    I m lookup →
    I (m.sendTo lookup node now timeout).1 (m.sendTo lookup node now timeout).2.1
  hinted : ∀ (m : LookupManager) (lookup : PeerLookup) transactionId,
    lookup.pending.contains transactionId → I m lookup →
    I m { lookup with hintTransaction := some transactionId }
  released : ∀ (m : LookupManager) (lookup : PeerLookup) transactionId query,
    lookup.pending.get? transactionId = some query →
    I m lookup → I (m.releaseTransaction lookup transactionId).1
      (m.releaseTransaction lookup transactionId).2
  found : ∀ (m : LookupManager) (lookup : PeerLookup) fromHint values, I m lookup →
    I (m.takeValues net lookup fromHint values).1 (m.takeValues net lookup fromHint values).2

/-! ## The offers of a call -/

section Offers

variable (Offer : LookupManager → PeerLookup → List Node → Prop)

/-- The nodes that `nodes` or `nodes6` of a reply offer are allowed. -/
def nodesOffer (m : LookupManager) (lookup : PeerLookup)
    (decoder : Bytes → Except Failure (List Node)) (compactNodes : Option BencodeValue) : Prop :=
  ∀ data nodes, compactNodes = some (.bytes data) → decoder data = .ok nodes → Offer m lookup nodes

/-- The nodes that a reply offers are allowed. -/
def responseOffer (net : Inet) (m : LookupManager) (lookup : PeerLookup) (fromHint : Bool)
    (response : Option BencodeValue) : Prop :=
  ∀ items values, response = some (.dict items) →
    decodeCompactPeers net (items.lookup (ascii "values".toList)) = .ok values →
      let taken := m.takeValues net lookup fromHint values
      taken.1.nodesOffer Offer taken.2 (decodeCompactNodes net) (items.lookup nodesKey) ∧
        let taken := taken.1.takeNodes taken.2 (decodeCompactNodes net) (items.lookup nodesKey)
        taken.1.nodesOffer Offer taken.2 (decodeCompactNodes6 net) (items.lookup nodes6Key)

/-- The nodes that a call offers are allowed. -/
def callOffer (net : Inet) (m : LookupManager) : LookupCall → Prop
  | .startLookup infoHash seedNodes now _ => ∀ m' : LookupManager, m'.limits = m.limits →
      m'.nodeFilter = m.nodeFilter →
        Offer m' (.new m.startedTotal infoHash (now + m.limits.deadline)) seedNodes
  | .handleResponse transactionId response address _ =>
    ∀ infoHash lookup, m.transactions.get? transactionId = some infoHash →
      m.awaitedFrom transactionId infoHash address = some lookup →
        let released := m.releaseTransaction lookup transactionId
        let fromHint : Bool := lookup.hintTransaction = some transactionId
        let m := { released.1 with
          hintAnswers := released.1.hintAnswers + if fromHint then 1 else 0 }
        m.responseOffer Offer net released.2 fromHint response
  | _ => True

end Offers

/-! ## The methods that work on one lookup -/

namespace StepRules

variable {net : Inet} {Offer : LookupManager → PeerLookup → List Node → Prop}
  {I : LookupManager → PeerLookup → Prop}

theorem check (hI : StepRules net Offer I) (h : I m lookup) (p : Prop) [Decidable p] :
    I (m.check p) lookup := hI.checked m lookup _ h

theorem addToShortlist (hI : StepRules net Offer I) {nodes : List Node} (ho : Offer m lookup nodes)
    (h : I m lookup) :
    I (m.addToShortlist lookup nodes).1 (m.addToShortlist lookup nodes).2 := by
  have hadded := hI.shortlisted m lookup nodes ho h
  unfold LookupManager.addToShortlist at hadded ⊢
  dsimp only at hadded ⊢
  split at hadded
  · rename_i hfull
    rw [if_pos hfull]
    exact hI.check (hI.check hadded _) _
  · rename_i hfull
    rw [if_neg hfull]
    exact hadded

theorem releaseTransaction (hI : StepRules net Offer I) (h : I m lookup) (transactionId : Bytes) :
    I (m.releaseTransaction lookup transactionId).1
      (m.releaseTransaction lookup transactionId).2 := by
  cases hget : lookup.pending.get? transactionId with
  | none =>
    simp only [LookupManager.releaseTransaction, hget]
    exact hI.checked m lookup true h
  | some query => exact hI.released m lookup transactionId query hget h

theorem releaseEach (hI : StepRules net Offer I) (ids : List Bytes) :
    ∀ {m : LookupManager} {lookup : PeerLookup}, I m lookup →
      I (m.releaseEach lookup ids).1 (m.releaseEach lookup ids).2 := by
  induction ids with
  | nil => exact fun h ↦ h
  | cons transactionId rest ih => exact fun h ↦ ih (hI.releaseTransaction h transactionId)

/-- The nodes that `top_up` still has to ask. -/
structure Batch (m : LookupManager) (lookup : PeerLookup) (nodes : List Node) : Prop where
  room : lookup.pending.size + nodes.length ≤ m.limits.alpha
  budget : lookup.queriesSent + nodes.length ≤ m.limits.maxQueries
  known : ∀ node ∈ nodes, node ∈ lookup.shortlist.values
  distinct : lookup.DistinctAddresses → (nodes.map Node.address).Nodup
  fresh : m.limits.alpha = 1 ∨ lookup.DistinctAddresses → ∀ node ∈ nodes,
    node.address ∉ lookup.queried ∧ m.inFlightTo node.address < m.limits.maxPerNode

theorem Batch.maySend {node : Node} {rest : List Node} (h : Batch m lookup (node :: rest))
    (htoken : 1 ≤ m.tokens) : m.MaySend lookup node where
  token := htoken
  room := by
    have hroom := h.room
    rw [List.length_cons] at hroom
    omega
  budget := by
    have hbudget := h.budget
    rw [List.length_cons] at hbudget
    omega
  known := Or.inl (h.known node List.mem_cons_self)
  fresh := fun hone ↦ h.fresh hone node List.mem_cons_self

theorem inFlightTo_sendTo (m : LookupManager) (lookup : PeerLookup) (node : Node) (now timeout : ℚ)
    (address : Address) : (m.sendTo lookup node now timeout).1.inFlightTo address =
      m.inFlightTo address + if address = node.address then 1 else 0 := by
  have hmap : (m.sendTo lookup node now timeout).1.inFlight =
      m.inFlight.insert node.address (m.inFlightTo node.address + 1) := rfl
  rw [inFlightTo, hmap, OrderedMap.get?_insert]
  by_cases ha : address = node.address
  · rw [if_pos ha, if_pos ha, Option.getD_some, ha]
  · rw [if_neg ha, if_neg ha, add_zero, inFlightTo]

/-- After a query the rest of the batch can still be asked. -/
theorem Batch.next {node : Node} {rest : List Node} (h : Batch m lookup (node :: rest))
    (now timeout : ℚ) :
    Batch (m.sendTo lookup node now timeout).1 (m.sendTo lookup node now timeout).2.1 rest where
  room := by
    have hroom := h.room
    have hsize := lookup.pending.size_insert_le (lookupTransactionId m.sequence)
      ⟨node.address, now + timeout, m.sequence⟩
    rw [List.length_cons] at hroom
    have hlimit : (m.sendTo lookup node now timeout).1.limits.alpha = m.limits.alpha := rfl
    rw [hlimit]
    exact le_trans (Nat.add_le_add_right hsize _) (by omega)
  budget := by
    have hbudget := h.budget
    have hsent : (m.sendTo lookup node now timeout).2.1.queriesSent = lookup.queriesSent + 1 := rfl
    have hlimit : (m.sendTo lookup node now timeout).1.limits.maxQueries = m.limits.maxQueries := rfl
    rw [List.length_cons] at hbudget
    omega
  known := fun other hother ↦ h.known other (List.mem_cons_of_mem _ hother)
  distinct := fun hdistinct ↦ (List.nodup_cons.mp (h.distinct hdistinct)).2
  fresh := by
    intro hone other hother
    obtain ⟨hqueried, hcap⟩ := h.fresh hone other (List.mem_cons_of_mem _ hother)
    have hne : other.address ≠ node.address := by
      rcases hone with hone | hone
      · have hroom := h.room
        have hrest := List.length_pos_of_mem hother
        rw [show m.limits.alpha = 1 from hone, List.length_cons] at hroom
        omega
      · intro heq
        exact (List.nodup_cons.mp (h.distinct hone)).1 (heq ▸ List.mem_map_of_mem hother)
    constructor
    · intro hmem
      rcases Finset.mem_insert.mp hmem with heq | hmem
      · exact hne heq
      · exact hqueried hmem
    · rw [inFlightTo_sendTo, if_neg hne, add_zero]
      exact hcap

theorem sendEach (hI : StepRules net Offer I) {now : ℚ} (nodes : List Node) :
    ∀ {m : LookupManager} {lookup : PeerLookup}, Batch m lookup nodes → I m lookup →
      I (m.sendEach lookup now nodes).1 (m.sendEach lookup now nodes).2.1 := by
  induction nodes with
  | nil => exact fun _ h ↦ h
  | cons node rest ih =>
    intro m lookup hbatch h
    unfold LookupManager.sendEach
    split
    · exact h
    · rename_i htoken
      exact ih (hbatch.next now m.limits.queryTimeout)
        (hI.sent m lookup node now _ (hbatch.maySend (not_lt.mp htoken)) h)

/-- The nodes chosen by `top_up` form a batch. -/
theorem batch_of_candidates {free : ℤ} (hfree : free = m.freeQueries lookup) (hpos : 0 < free) :
    Batch m lookup (selectClosestNodes (lookup.shortlist.values.filter (m.isCandidate lookup))
      lookup.infoHash free.toNat) := by
  have hlength := length_selectClosestNodes_le
    (lookup.shortlist.values.filter (m.isCandidate lookup)) lookup.infoHash free.toNat
  have hroom : free ≤ (m.limits.alpha : ℤ) - lookup.pending.size := hfree ▸ min_le_left _ _
  have hbudget : free ≤ (m.limits.maxQueries : ℤ) - lookup.queriesSent := hfree ▸ min_le_right _ _
  have hmem {node : Node} (hnode : node ∈ selectClosestNodes
      (lookup.shortlist.values.filter (m.isCandidate lookup)) lookup.infoHash free.toNat) :
      node ∈ lookup.shortlist.values ∧ m.isCandidate lookup node :=
    List.mem_filter.mp (mem_of_mem_selectClosestNodes hnode)
  constructor
  case room => omega
  case budget => omega
  case known => exact fun node hnode ↦ (hmem hnode).1
  case distinct =>
    intro hdistinct
    refine List.Nodup.sublist ((List.take_sublist _ _).map Node.address) ?_
    refine (((List.perm_insertionSort _ _).map Node.address).nodup_iff).mpr ?_
    exact hdistinct.sublist (List.filter_sublist.map Node.address)
  case fresh =>
    intro _ node hnode
    have hcandidate := (hmem hnode).2
    simp only [isCandidate, Bool.and_eq_true, decide_eq_true_eq] at hcandidate
    exact hcandidate

theorem Batch.refill {nodes : List Node} (h : Batch m lookup nodes) (now : ℚ) :
    Batch (m.refill now) lookup nodes := ⟨h.room, h.budget, h.known, h.distinct, h.fresh⟩

theorem Batch.check {nodes : List Node} (h : Batch m lookup nodes) (p : Prop) [Decidable p] :
    Batch (m.check p) lookup nodes := ⟨h.room, h.budget, h.known, h.distinct, h.fresh⟩

theorem topUp (hI : StepRules net Offer I) (h : I m lookup) (now : ℚ) :
    I (m.topUp lookup now).1 (m.topUp lookup now).2 := by
  have hchecked := hI.check h (lookup.finished = false)
  have hrefilled := hI.refilled _ _ now hchecked
  unfold LookupManager.topUp
  dsimp only
  split
  · exact hchecked
  · rename_i hfree
    split
    · exact hrefilled
    · have hbatch := batch_of_candidates (rfl : m.freeQueries lookup = m.freeQueries lookup)
        (not_le.mp hfree)
      refine hI.check (hI.sendEach _ ?_ (hI.check hrefilled _)) _
      exact ((hbatch.check _).refill now).check _

theorem takeNodes (hI : StepRules net Offer I) (h : I m lookup)
    {decoder : Bytes → Except Failure (List Node)} {compactNodes : Option BencodeValue}
    (ho : m.nodesOffer Offer lookup decoder compactNodes) :
    I (m.takeNodes lookup decoder compactNodes).1 (m.takeNodes lookup decoder compactNodes).2 := by
  unfold LookupManager.takeNodes
  split
  · rename_i data
    split
    · rename_i nodes hnodes
      exact hI.addToShortlist (ho data nodes rfl hnodes) h
    · exact hI.checked m lookup true h
  · exact h

theorem takeResponse (hI : StepRules net Offer I) (h : I m lookup) {fromHint : Bool}
    {response : Option BencodeValue} (ho : m.responseOffer Offer net lookup fromHint response) :
    I (m.takeResponse net lookup fromHint response).1
      (m.takeResponse net lookup fromHint response).2 := by
  unfold LookupManager.takeResponse
  split
  · rename_i items
    split
    · rename_i values hvalues
      obtain ⟨hnodes, hnodes6⟩ := ho items values rfl hvalues
      exact hI.takeNodes (hI.takeNodes (hI.found m lookup fromHint values h) hnodes) hnodes6
    · exact hI.checked m lookup true h
  · exact h

theorem expirePending (hI : StepRules net Offer I) (h : I m lookup) (now : ℚ) :
    I (m.expirePending lookup now).1 (m.expirePending lookup now).2 :=
  hI.check (hI.releaseEach _ h) _

end StepRules

/-! ## The calls -/

/-- The lookups of the table are filed under their own hash and not finished. -/
def Keyed (m : LookupManager) : Prop :=
  ∀ h lookup, m.active.get? h = some lookup →
    lookup.infoHash = h ∧ lookup.finished = false ∧ h.length = nodeIdLength

theorem get?_save (m : LookupManager) (lookup : PeerLookup) (h : Bytes) :
    (m.save lookup).active.get? h = if h = lookup.infoHash then some lookup else m.active.get? h :=
  OrderedMap.get?_insert _ _ _ _

theorem Keyed.save (hm : m.Keyed) (hfinished : lookup.finished = false)
    (hlength : lookup.infoHash.length = nodeIdLength) : (m.save lookup).Keyed := by
  intro h other hother
  rw [LookupManager.save, OrderedMap.get?_insert] at hother
  split at hother
  · rename_i heq
    rw [← Option.some.inj hother]
    exact ⟨heq.symm, hfinished, heq ▸ hlength⟩
  · exact hm h other hother

theorem save_eq_self (hm : m.Keyed) {h : Bytes} (hget : m.active.get? h = some lookup) :
    m.save lookup = m := by
  have hkey := (hm h lookup hget).1
  rw [LookupManager.save, OrderedMap.insert_self (hkey.symm ▸ hget)]

/-- The manager with a new lookup in its table. -/
def withNewLookup (m : LookupManager) (infoHash : Bytes) (now : ℚ) : LookupManager :=
  ({ m with startedTotal := m.startedTotal + 1 }.emit (.started m.startedTotal infoHash now)).save
    (.new m.startedTotal infoHash (now + m.limits.deadline))

/-- What a property of a manager has to survive. -/
structure ManagerRules (net : Inet) (Offer : LookupManager → PeerLookup → List Node → Prop)
    (J : LookupManager → Prop) : Prop where
  step : StepRules net Offer fun (m : LookupManager) (lookup : PeerLookup) ↦ J (m.save lookup)
  checked : ∀ (m : LookupManager) b, J m → J { m with raised := b }
  refilled : ∀ (m : LookupManager) now, J m → J (m.refill now)
  forgot : ∀ (m : LookupManager) transactionId infoHash,
    m.transactions.get? transactionId = some infoHash →
    (∀ lookup, m.active.get? infoHash = some lookup → lookup.pending.get? transactionId = none) →
      J m → J { m with transactions := m.transactions.erase transactionId }
  started : ∀ (m : LookupManager) (infoHash : Bytes) now, infoHash.length = nodeIdLength →
    m.active.get? infoHash = none →
    m.active.size < m.limits.maxActive → now ≤ m.tokensTime → J m →
      J (m.withNewLookup infoHash now)
  closed : ∀ (m : LookupManager) (lookup : PeerLookup), lookup.pending.size = 0 →
    J (m.save lookup) → J (m.close lookup)

/-- A property while a method works on an unfinished lookup. -/
structure Working (J : LookupManager → Prop) (m : LookupManager) (lookup : PeerLookup) : Prop where
  keyed : m.Keyed
  finished : lookup.finished = false
  length : lookup.infoHash.length = nodeIdLength
  saved : J (m.save lookup)

namespace ManagerRules

variable {net : Inet} {Offer : LookupManager → PeerLookup → List Node → Prop}
  {J : LookupManager → Prop}

/-- The small steps keep the table, and the hash and the mark of the lookup. -/
theorem working (hJ : ManagerRules net Offer J) : StepRules net Offer (Working J) where
  checked := fun m lookup b h ↦
    ⟨h.keyed, h.finished, h.length, hJ.step.checked m lookup b h.saved⟩
  counted := fun m lookup queries answers h ↦
    ⟨h.keyed, h.finished, h.length, hJ.step.counted m lookup queries answers h.saved⟩
  refilled := fun m lookup now h ↦
    ⟨h.keyed, h.finished, h.length, hJ.step.refilled m lookup now h.saved⟩
  shortlisted := by
    intro m lookup nodes ho h
    have hkept : (m.addToShortlist lookup nodes).2.finished = lookup.finished ∧
        (m.addToShortlist lookup nodes).2.infoHash = lookup.infoHash := by
      unfold addToShortlist
      dsimp only
      split <;> exact ⟨rfl, rfl⟩
    exact ⟨h.keyed, hkept.1.trans h.finished, hkept.2 ▸ h.length,
      hJ.step.shortlisted m lookup nodes ho h.saved⟩
  sent := fun m lookup node now timeout hsend h ↦
    ⟨h.keyed, h.finished, h.length, hJ.step.sent m lookup node now timeout hsend h.saved⟩
  hinted := fun m lookup transactionId hpending h ↦
    ⟨h.keyed, h.finished, h.length, hJ.step.hinted m lookup transactionId hpending h.saved⟩
  released := by
    intro m lookup transactionId query hget h
    have hnext := hJ.step.released m lookup transactionId query hget h.saved
    simp only [releaseTransaction, hget] at hnext ⊢
    exact ⟨h.keyed, h.finished, h.length, hnext⟩
  found := by
    intro m lookup fromHint values h
    have hactive : (m.takeValues net lookup fromHint values).1.active = m.active := by
      unfold takeValues
      dsimp only
      split <;> rfl
    exact ⟨fun k other hother ↦ h.keyed k other (hactive ▸ hother), h.finished, h.length,
      hJ.step.found m lookup fromHint values h.saved⟩

theorem check (hJ : ManagerRules net Offer J) (h : J m) (p : Prop) [Decidable p] :
    J (m.check p) := hJ.checked m _ h

/-- Working on a lookup of the table. -/
theorem work (hm : m.Keyed) (h : J m) {infoHash : Bytes}
    (hget : m.active.get? infoHash = some lookup) : Working J m lookup := by
  obtain ⟨hkey, hfinished, hlength⟩ := hm infoHash lookup hget
  exact ⟨hm, hfinished, hkey.symm ▸ hlength, by rw [save_eq_self hm hget]; exact h⟩

theorem Keyed.erase (hm : m.Keyed) (h : Bytes) : ({ m with active := m.active.erase h }).Keyed := by
  intro k other hother
  rw [OrderedMap.get?_erase] at hother
  split at hother
  · cases hother
  · exact hm k other hother

end ManagerRules

theorem pending_releaseTransaction (m : LookupManager) (lookup : PeerLookup)
    (transactionId : Bytes) : (m.releaseTransaction lookup transactionId).2.pending =
      lookup.pending.erase transactionId := by
  cases hget : lookup.pending.get? transactionId with
  | none =>
    simp only [releaseTransaction, hget]
    exact (OrderedMap.erase_eq_self hget).symm
  | some query => simp only [releaseTransaction, hget]

theorem get?_pending_releaseEach (ids : List Bytes) : ∀ (m : LookupManager) (lookup : PeerLookup)
    (k : Bytes), (m.releaseEach lookup ids).2.pending.get? k =
      if k ∈ ids then none else lookup.pending.get? k := by
  induction ids with
  | nil => exact fun _ _ _ ↦ rfl
  | cons transactionId rest ih =>
    intro m lookup k
    have hrest := ih (m.releaseTransaction lookup transactionId).1
      (m.releaseTransaction lookup transactionId).2 k
    rw [pending_releaseTransaction, OrderedMap.get?_erase] at hrest
    rw [releaseEach, hrest]
    by_cases hk : k = transactionId
    · simp [hk]
    · by_cases hmem : k ∈ rest <;> simp [hk, hmem]

/-- Releasing every pending transaction leaves none. -/
theorem size_pending_releaseEach (m : LookupManager) (lookup : PeerLookup) :
    (m.releaseEach lookup lookup.pending.keys).2.pending.size = 0 := by
  rw [OrderedMap.size_eq_zero_iff]
  intro k
  rw [get?_pending_releaseEach]
  split
  · rfl
  · rename_i hk
    exact OrderedMap.get?_eq_none_iff.mpr hk

theorem check_of {p : Prop} [Decidable p] (h : p) : m.check p = m := by
  simp [LookupManager.check, h]

/-- Releasing the queries leaves the objects of the table alone. -/
theorem releaseTransaction_save (m : LookupManager) (saved lookup : PeerLookup) (finished : Bool)
    (transactionId : Bytes) :
    (m.save saved).releaseTransaction { lookup with finished := finished } transactionId =
      ((m.releaseTransaction lookup transactionId).1.save saved,
        { (m.releaseTransaction lookup transactionId).2 with finished := finished }) := by
  unfold releaseTransaction
  dsimp only
  cases lookup.pending.get? transactionId <;> rfl

theorem releaseEach_save (saved : PeerLookup) (finished : Bool) (ids : List Bytes) :
    ∀ (m : LookupManager) (lookup : PeerLookup),
      (m.save saved).releaseEach { lookup with finished := finished } ids =
        ((m.releaseEach lookup ids).1.save saved,
          { (m.releaseEach lookup ids).2 with finished := finished }) := by
  induction ids with
  | nil => exact fun _ _ ↦ rfl
  | cons transactionId rest ih =>
    intro m lookup
    unfold releaseEach
    rw [releaseTransaction_save]
    exact ih _ _

theorem infoHash_releaseEach (ids : List Bytes) : ∀ (m : LookupManager) (lookup : PeerLookup),
    (m.releaseEach lookup ids).2.infoHash = lookup.infoHash := by
  induction ids with
  | nil => exact fun _ _ ↦ rfl
  | cons transactionId rest ih =>
    intro m lookup
    refine (ih _ _).trans ?_
    unfold releaseTransaction
    cases lookup.pending.get? transactionId <;> rfl

/-- The finished lookup leaves the table, so what is left of `finish` is the released queries and the
counters. -/
theorem finish_eq_close (m : LookupManager) (lookup : PeerLookup) :
    m.finish lookup =
      ((m.check (lookup.finished = false)).releaseEach lookup lookup.pending.keys).1.close
        ((m.check (lookup.finished = false)).releaseEach lookup lookup.pending.keys).2 := by
  have hkey := infoHash_releaseEach lookup.pending.keys (m.check (lookup.finished = false)) lookup
  unfold finish
  dsimp only
  rw [releaseEach_save]
  generalize (m.check (lookup.finished = false)).releaseEach lookup lookup.pending.keys = released
    at hkey ⊢
  obtain ⟨mid, last⟩ := released
  dsimp only at hkey ⊢
  have hclose : (mid.save { lookup with finished := true }).close { last with finished := true } =
      mid.close last := by
    have herase : (mid.active.insert lookup.infoHash { lookup with finished := true }).erase
        last.infoHash = mid.active.erase last.infoHash := by
      rw [hkey]
      exact OrderedMap.erase_insert _ _ _
    unfold close save
    dsimp only
    rw [herase]
  rw [hclose]
  refine check_of ?_
  rw [← hkey]
  have hnone : (mid.active.erase last.infoHash).get? last.infoHash = none := by
    rw [OrderedMap.get?_erase, if_pos rfl]
  change ¬ ((mid.active.erase last.infoHash).get? last.infoHash).isSome
  rw [hnone]
  exact Bool.false_ne_true

theorem raised_releaseEach (ids : List Bytes) : ∀ (m : LookupManager) (lookup : PeerLookup),
    ids.Nodup → (∀ transactionId ∈ ids, lookup.pending.contains transactionId) →
      (m.releaseEach lookup ids).1.raised = m.raised := by
  induction ids with
  | nil => exact fun _ _ _ _ ↦ rfl
  | cons transactionId rest ih =>
    intro m lookup hnodup hpending
    obtain ⟨hnot, hrest⟩ := List.nodup_cons.mp hnodup
    refine (ih _ _ hrest fun other hother ↦ ?_).trans ?_
    · have hne : other ≠ transactionId := fun heq ↦ hnot (heq ▸ hother)
      rw [pending_releaseTransaction, OrderedMap.contains, OrderedMap.get?_erase, if_neg hne]
      exact hpending other (List.mem_cons_of_mem _ hother)
    · obtain ⟨query, hquery⟩ :=
        Option.isSome_iff_exists.mp (hpending transactionId List.mem_cons_self)
      simp only [releaseTransaction, hquery]
      rfl

/-- No assertion of `finish` fails for a lookup that is not finished. -/
theorem raised_finish (m : LookupManager) (hfinished : lookup.finished = false) :
    (m.finish lookup).raised = m.raised := by
  rw [finish_eq_close, check_of hfinished]
  refine raised_releaseEach _ m lookup lookup.pending.nodup fun transactionId hmem ↦ ?_
  exact OrderedMap.get?_isSome_iff.mpr hmem

namespace ManagerRules

variable {net : Inet} {Offer : LookupManager → PeerLookup → List Node → Prop}
  {J : LookupManager → Prop}

theorem finish (hJ : ManagerRules net Offer J) (h : Working J m lookup) :
    (m.finish lookup).Keyed ∧ J (m.finish lookup) := by
  have hreleased := hJ.working.releaseEach lookup.pending.keys
    (hJ.working.check h (lookup.finished = false))
  rw [finish_eq_close]
  refine ⟨Keyed.erase hreleased.keyed _, ?_⟩
  exact hJ.closed _ _ (size_pending_releaseEach _ _) hreleased.saved

theorem advance (hJ : ManagerRules net Offer J) (h : Working J m lookup) (now : ℚ) :
    (m.advance lookup now).Keyed ∧ J (m.advance lookup now) := by
  have hsave {m : LookupManager} {lookup : PeerLookup} (h : Working J m lookup) :
      (m.save lookup).Keyed ∧ J (m.save lookup) := ⟨h.keyed.save h.finished h.length, h.saved⟩
  unfold LookupManager.advance
  rw [if_neg (by simp [h.finished])]
  split
  · exact hJ.finish h
  · split
    · have htopped := hJ.working.topUp h now
      dsimp only
      split
      · exact hJ.finish htopped
      · exact hsave (hJ.working.check htopped _)
    · exact hsave (hJ.working.check h _)

theorem addToShortlist_started (m : LookupManager) (started : ℕ) (log : List LookupEvent)
    (lookup : PeerLookup) (nodes : List Node) :
    ({ m with startedTotal := started, log := log }.addToShortlist lookup nodes) =
      ({ (m.addToShortlist lookup nodes).1 with startedTotal := started, log := log },
        (m.addToShortlist lookup nodes).2) := by
  unfold addToShortlist
  dsimp only
  rw [show ({ m with startedTotal := started, log := log } : LookupManager).isNewNode lookup =
    m.isNewNode lookup from rfl]
  by_cases hfull : m.limits.shortlistSize < ((nodes.filter (m.isNewNode lookup)).foldl
      (fun shortlist node ↦ shortlist.insert node.nodeId node) lookup.shortlist).size
  · rw [if_pos hfull, if_pos hfull]
    rfl
  · rw [if_neg hfull, if_neg hfull]

/-- Filling a shortlist touches neither the tables nor what was asked. -/
theorem addToShortlist_kept (m : LookupManager) (lookup : PeerLookup) (nodes : List Node) :
    (∃ b, (m.addToShortlist lookup nodes).1 = { m with raised := b }) ∧
      ∃ shortlist, (m.addToShortlist lookup nodes).2 = { lookup with shortlist := shortlist } := by
  unfold addToShortlist
  dsimp only
  split
  · exact ⟨⟨_, rfl⟩, _, rfl⟩
  · exact ⟨⟨_, rfl⟩, _, rfl⟩

/-- Taking in peers touches neither the tables nor what was asked. -/
theorem takeValues_kept (net : Inet) (m : LookupManager) (lookup : PeerLookup) (fromHint : Bool)
    (values : List Address) : ∃ hintValues events foundPeers valueResponses,
      (m.takeValues net lookup fromHint values).1 =
          { m with hintValues := hintValues, log := m.log ++ events } ∧
        (m.takeValues net lookup fromHint values).2 =
            { lookup with foundPeers := foundPeers, valueResponses := valueResponses } ∧
          ∀ event ∈ events, ∃ peers, event = .foundPeers lookup.number lookup.infoHash peers := by
  unfold takeValues
  dsimp only
  split
  · refine ⟨m.hintValues + if fromHint = true ∧ values ≠ [] then 1 else 0, [],
      (addFoundPeers net m.limits.maxPeers lookup.foundPeers values).1,
      lookup.valueResponses + if values ≠ [] then 1 else 0, ?_, rfl,
      fun event hevent ↦ absurd hevent List.not_mem_nil⟩
    rw [List.append_nil]
  · exact ⟨_, _, _, _, rfl, rfl, fun event hevent ↦ ⟨_, List.mem_singleton.mp hevent⟩⟩

theorem launch (hJ : ManagerRules net Offer J) {seedNodes : List Node} {infoHash : Bytes}
    {now : ℚ} {hint : Option Node} (hm : m.Keyed) (h : J m) (hlength : infoHash.length = nodeIdLength)
    (hnone : m.active.get? infoHash = none) (hslot : m.active.size < m.limits.maxActive)
    (htoken : 1 ≤ m.tokens) (hseen : now ≤ m.tokensTime)
    (ho : ∀ m' : LookupManager, m'.limits = m.limits → m'.nodeFilter = m.nodeFilter →
      Offer m' (.new m.startedTotal infoHash (now + m.limits.deadline)) seedNodes)
    (hhint : ∀ node, hint = some node → m.isUsableNode node ∧
      m.inFlightTo node.address < m.limits.maxPerNode) :
    let filled := m.addToShortlist (.new m.startedTotal infoHash (now + m.limits.deadline)) seedNodes
    (filled.1.launch filled.2 hint now).Keyed ∧ J (filled.1.launch filled.2 hint now) := by
  intro filled
  let opened := { m with startedTotal := m.startedTotal + 1 }.emit
    (.started m.startedTotal infoHash now)
  have hopened : Working J opened (.new m.startedTotal infoHash (now + m.limits.deadline)) :=
    ⟨hm, rfl, hlength, hJ.started m infoHash now hlength hnone hslot hseen h⟩
  have hfilled := hJ.working.addToShortlist (ho opened rfl rfl) hopened
  have hstarted := addToShortlist_started m (m.startedTotal + 1)
    (m.log ++ [.started m.startedTotal infoHash now])
    (.new m.startedTotal infoHash (now + m.limits.deadline)) seedNodes
  obtain ⟨⟨b, hmanager⟩, shortlist, hlookup⟩ := addToShortlist_kept m
    (.new m.startedTotal infoHash (now + m.limits.deadline)) seedNodes
  replace hstarted : opened.addToShortlist (.new m.startedTotal infoHash (now + m.limits.deadline))
      seedNodes = _ := hstarted
  rw [hstarted] at hfilled
  have hready : filled.1 = { m with raised := b } := hmanager
  have hfresh : filled.2 = { PeerLookup.new m.startedTotal infoHash (now + m.limits.deadline) with
    shortlist := shortlist } := hlookup
  rw [show m.addToShortlist (.new m.startedTotal infoHash (now + m.limits.deadline)) seedNodes =
    filled from rfl, hready, hfresh] at hfilled
  rw [hready, hfresh]
  unfold LookupManager.launch
  cases hint with
  | some node =>
    obtain ⟨husable, hcap⟩ := hhint node rfl
    have hsend : ({ { m with raised := b } with startedTotal := m.startedTotal + 1 }.emit
        (.started m.startedTotal infoHash now)).MaySend
          { PeerLookup.new m.startedTotal infoHash (now + m.limits.deadline) with
            shortlist := shortlist } node :=
      { token := htoken
        room := m.limits.alpha_pos
        budget := Or.inr rfl
        known := Or.inr husable
        fresh := fun _ ↦ ⟨Finset.notMem_empty _, hcap⟩ }
    have hsent := hJ.working.sent _ _ node now m.limits.hintTimeout hsend hfilled
    have hcounted := hJ.working.counted _ _ (m.hintQueries + 1) m.hintAnswers hsent
    have hhinted := hJ.working.hinted _ _ (lookupTransactionId m.sequence)
      (OrderedMap.contains_insert_self _ _ _) hcounted
    exact ⟨hhinted.keyed.save hhinted.finished hhinted.length, hhinted.saved⟩
  | none =>
    have htopped := hJ.working.topUp hfilled now
    exact ⟨htopped.keyed.save htopped.finished htopped.length, htopped.saved⟩

theorem startLookup (hJ : ManagerRules net Offer J) {seedNodes : List Node} {infoHash : Bytes}
    {now : ℚ} {hint : Option Node} (hm : m.Keyed) (h : J m)
    (ho : m.callOffer Offer net (.startLookup infoHash seedNodes now hint)) :
    (m.startLookup infoHash seedNodes now hint).1.Keyed ∧
      J (m.startLookup infoHash seedNodes now hint).1 := by
  unfold LookupManager.startLookup
  split
  · exact ⟨hm, hJ.checked m true h⟩
  rename_i hvalid
  have hlength : infoHash.length = nodeIdLength := not_not.mp hvalid
  dsimp only
  split
  · exact ⟨hm, h⟩
  · rename_i habsent
    have hroom := hJ.check h (m.active.size ≤ m.limits.maxActive)
    split
    · exact ⟨hm, hroom⟩
    · rename_i hslots
      have hrefilled := hJ.refilled _ now hroom
      split
      · exact ⟨hm, hrefilled⟩
      · rename_i htoken
        have hnone : m.active.get? infoHash = none := by
          simpa [OrderedMap.contains] using habsent
        have hslot : m.active.size < m.limits.maxActive := by
          have hpos : m.limits.maxActive - m.active.size ≠ 0 := hslots
          omega
        unfold openLookup
        dsimp only
        split
        · exact ⟨hm, hrefilled⟩
        · rename_i hcap
          split
          · obtain ⟨⟨b, hmanager⟩, -⟩ := addToShortlist_kept
              ((m.check (m.active.size ≤ m.limits.maxActive)).refill now)
              (.new m.startedTotal infoHash (now + m.limits.deadline)) seedNodes
            exact hmanager ▸ ⟨hm, hJ.checked _ b hrefilled⟩
          · refine hJ.launch hm hrefilled hlength hnone hslot (not_lt.mp htoken) (le_max_right _ _) ho
              ?_
            intro node hnode
            obtain ⟨hhint, husable⟩ := Option.filter_eq_some_iff.mp hnode
            refine ⟨husable, lt_of_not_ge fun hge ↦ hcap ?_⟩
            rw [hnode]
            simpa using hge

theorem handleResponse (hJ : ManagerRules net Offer J) {transactionId : Bytes}
    {response : Option BencodeValue} {address : Address} {now : ℚ} (hm : m.Keyed) (h : J m)
    (ho : m.callOffer Offer net (.handleResponse transactionId response address now)) :
    (m.handleResponse net transactionId response address now).Keyed ∧
      J (m.handleResponse net transactionId response address now) := by
  unfold LookupManager.handleResponse
  cases hget : m.transactions.get? transactionId with
  | none => exact ⟨hm, hJ.checked m true h⟩
  | some infoHash =>
    dsimp only
    cases hawaited : m.awaitedFrom transactionId infoHash address with
    | none => exact ⟨hm, h⟩
    | some lookup =>
      have hactive := (Option.filter_eq_some_iff.mp hawaited).1
      have hreleased := hJ.working.releaseTransaction (work hm h hactive) transactionId
      have hcounted := hJ.working.counted _ _ (m.releaseTransaction lookup transactionId).1.hintQueries
        ((m.releaseTransaction lookup transactionId).1.hintAnswers +
          if decide (lookup.hintTransaction = some transactionId) then 1 else 0) hreleased
      have htaken := hJ.working.takeResponse hcounted (ho infoHash lookup hget hawaited)
      have hadvanced := hJ.advance htaken now
      exact ⟨hadvanced.1, hJ.check hadvanced.2 _⟩

theorem handleError (hJ : ManagerRules net Offer J) {transactionId : Bytes} {now : ℚ}
    (hm : m.Keyed) (h : J m) : (m.handleError transactionId now).Keyed ∧
      J (m.handleError transactionId now) := by
  unfold LookupManager.handleError
  cases hget : m.transactions.get? transactionId with
  | none => exact ⟨hm, hJ.checked m true h⟩
  | some infoHash =>
    dsimp only
    cases hpending : (m.active.get? infoHash).filter
        fun lookup ↦ lookup.pending.contains transactionId with
    | none =>
      have hforgot := hJ.forgot m transactionId infoHash hget (fun lookup hlookup ↦ ?_) h
      · exact ⟨hm, hJ.check hforgot _⟩
      · rw [hlookup] at hpending
        by_contra hsome
        have hcontains : lookup.pending.contains transactionId :=
          Option.isSome_iff_ne_none.mpr hsome
        rw [Option.filter, if_pos hcontains] at hpending
        cases hpending
    | some lookup =>
      have hactive := (Option.filter_eq_some_iff.mp hpending).1
      have hreleased := hJ.working.releaseTransaction (work hm h hactive) transactionId
      have hadvanced := hJ.advance hreleased now
      exact ⟨hadvanced.1, hJ.check hadvanced.2 _⟩

theorem tickLookup (hJ : ManagerRules net Offer J) (hm : m.Keyed) (h : J m) (now : ℚ)
    (infoHash : Bytes) : (m.tickLookup now infoHash).Keyed ∧ J (m.tickLookup now infoHash) := by
  unfold LookupManager.tickLookup
  split
  · exact ⟨hm, h⟩
  · rename_i lookup hget
    exact hJ.advance (hJ.working.expirePending (work hm h hget) now) now

theorem finishLookup (hJ : ManagerRules net Offer J) (hm : m.Keyed) (h : J m) (infoHash : Bytes) :
    (m.finishLookup infoHash).Keyed ∧ J (m.finishLookup infoHash) := by
  unfold LookupManager.finishLookup
  split
  · exact ⟨hm, h⟩
  · rename_i lookup hget
    exact hJ.finish (work hm h hget)

theorem foldl (f : LookupManager → Bytes → LookupManager)
    (hf : ∀ m infoHash, m.Keyed → J m → (f m infoHash).Keyed ∧ J (f m infoHash))
    (hashes : List Bytes) : ∀ {m : LookupManager}, m.Keyed → J m →
      (hashes.foldl f m).Keyed ∧ J (hashes.foldl f m) := by
  induction hashes with
  | nil => exact fun hm h ↦ ⟨hm, h⟩
  | cons infoHash rest ih =>
    intro m hm h
    obtain ⟨hkeyed, hnext⟩ := hf m infoHash hm h
    exact ih hkeyed hnext

/-- A property that survives the small steps survives every call. -/
theorem apply (hJ : ManagerRules net Offer J) (hm : m.Keyed) (h : J m) (call : LookupCall)
    (ho : m.callOffer Offer net call) : (m.apply net call).Keyed ∧ J (m.apply net call) := by
  cases call with
  | startLookup infoHash seedNodes now hint => exact hJ.startLookup hm h ho
  | handleResponse transactionId response address now => exact hJ.handleResponse hm h ho
  | handleError transactionId now => exact hJ.handleError hm h
  | tick now =>
    have hrefilled := hJ.refilled _ now (hJ.check h (0 ≤ now))
    have hkeyed : ((m.check (0 ≤ now)).refill now).Keyed := hm
    have hticked := foldl (LookupManager.tickLookup now)
      (fun m infoHash hm h ↦ hJ.tickLookup hm h now infoHash) m.active.keys hkeyed hrefilled
    exact ⟨hticked.1, hJ.check hticked.2 _⟩
  | abortAll =>
    obtain ⟨hkeyed, hnext⟩ := foldl LookupManager.finishLookup
      (fun m infoHash hm h ↦ hJ.finishLookup hm h infoHash) m.active.keys hm h
    exact ⟨hkeyed, hJ.check hnext _⟩
  | refill now => exact ⟨hm, hJ.refilled m now h⟩

/-- A property that survives the small steps survives every run. -/
theorem run (hJ : ManagerRules net Offer J) {calls : List LookupCall} (hm : m.Keyed) (h : J m)
    (hoffers : (lookupMachine net).Along (fun m call ↦ m.callOffer Offer net call) m calls)
    (hrun : (lookupMachine net).run m calls = some m') : m'.Keyed ∧ J m' := by
  refine (lookupMachine net).run_guarded_invariant (I := fun m ↦ m.Keyed ∧ J m) ?_ ⟨hm, h⟩ hoffers
    hrun
  intro m call m' h ho hstep
  simp only [lookupMachine] at hstep
  split at hstep
  · cases hstep
  · rw [← Option.some.inj hstep]
    exact hJ.apply h.1 h.2 call ho

end ManagerRules

theorem keyed_new (limits : LookupLimits) (nodeFilter : Node → Bool) (start : ℚ) :
    (new limits nodeFilter start).Keyed := fun _ _ hget ↦ by cases hget

/-- Every node may be offered. -/
def anyOffer (_ : LookupManager) (_ : PeerLookup) (_ : List Node) : Prop := True

theorem callOffer_any (net : Inet) (m : LookupManager) (call : LookupCall) :
    m.callOffer anyOffer net call := by
  cases call with
  | startLookup => exact fun _ _ _ ↦ trivial
  | handleResponse =>
    intro _ _ _ _ _ _ _ _ _ _ _
    exact ⟨fun _ _ _ _ ↦ trivial, fun _ _ _ _ ↦ trivial⟩
  | _ => trivial

/-- The rule for properties that survive whatever is offered. -/
theorem ManagerRules.run_any {net : Inet} {J : LookupManager → Prop}
    (hJ : ManagerRules net anyOffer J) {calls : List LookupCall} (hm : m.Keyed) (h : J m)
    (hrun : (lookupMachine net).run m calls = some m') : m'.Keyed ∧ J m' :=
  hJ.run hm h ((lookupMachine net).along_true m calls |>.imp fun m call _ ↦ callOffer_any net m call)
    hrun

/-! ## What the small steps keep -/

/-- The small steps keep the table, the limits and the identity of the lookup, and add events. -/
structure Kept (P : LookupEvent → Prop) (m : LookupManager) (lookup : PeerLookup)
    (m' : LookupManager) (lookup' : PeerLookup) : Prop where
  active : m'.active = m.active
  limits : m'.limits = m.limits
  nodeFilter : m'.nodeFilter = m.nodeFilter
  startedTotal : m'.startedTotal = m.startedTotal
  number : lookup'.number = lookup.number
  infoHash : lookup'.infoHash = lookup.infoHash
  deadline : lookup'.deadline = lookup.deadline
  finished : lookup'.finished = lookup.finished
  log : ∃ events, m'.log = m.log ++ events ∧ ∀ event ∈ events, P event

variable {P : LookupEvent → Prop} {m'' : LookupManager} {lookup lookup' lookup'' : PeerLookup}

theorem Kept.refl (m : LookupManager) (lookup : PeerLookup) : Kept P m lookup m lookup :=
  ⟨rfl, rfl, rfl, rfl, rfl, rfl, rfl, rfl, [], (List.append_nil _).symm,
    fun _ hevent ↦ absurd hevent List.not_mem_nil⟩

theorem Kept.trans (h : Kept P m lookup m' lookup') (h' : Kept P m' lookup' m'' lookup'') :
    Kept P m lookup m'' lookup'' where
  active := h'.active.trans h.active
  limits := h'.limits.trans h.limits
  nodeFilter := h'.nodeFilter.trans h.nodeFilter
  startedTotal := h'.startedTotal.trans h.startedTotal
  number := h'.number.trans h.number
  infoHash := h'.infoHash.trans h.infoHash
  deadline := h'.deadline.trans h.deadline
  finished := h'.finished.trans h.finished
  log := by
    obtain ⟨events, hlog, hevents⟩ := h.log
    obtain ⟨more, hlog', hmore⟩ := h'.log
    refine ⟨events ++ more, by rw [hlog', hlog, List.append_assoc], fun event hevent ↦ ?_⟩
    exact (List.mem_append.mp hevent).elim (hevents event) (hmore event)

theorem Kept.mono {Q : LookupEvent → Prop} (h : Kept P m lookup m' lookup')
    (hPQ : ∀ event, P event → Q event) : Kept Q m lookup m' lookup' := by
  obtain ⟨events, hlog, hevents⟩ := h.log
  exact ⟨h.active, h.limits, h.nodeFilter, h.startedTotal, h.number, h.infoHash, h.deadline,
    h.finished, events, hlog, fun event hevent ↦ hPQ event (hevents event hevent)⟩

/-- The events of a released query. -/
def IsRelease (event : LookupEvent) : Prop := ∃ query, event = .released query

theorem kept_releaseTransaction (m : LookupManager) (lookup : PeerLookup) (transactionId : Bytes) :
    Kept IsRelease m lookup (m.releaseTransaction lookup transactionId).1
      (m.releaseTransaction lookup transactionId).2 := by
  cases hget : lookup.pending.get? transactionId with
  | none =>
    simp only [releaseTransaction, hget]
    exact { Kept.refl m lookup with }
  | some query =>
    simp only [releaseTransaction, hget]
    exact ⟨rfl, rfl, rfl, rfl, rfl, rfl, rfl, rfl, [.released query.number], rfl,
      fun event hevent ↦ ⟨_, List.mem_singleton.mp hevent⟩⟩

theorem kept_releaseEach (ids : List Bytes) : ∀ (m : LookupManager) (lookup : PeerLookup),
    Kept IsRelease m lookup (m.releaseEach lookup ids).1 (m.releaseEach lookup ids).2 := by
  induction ids with
  | nil => exact Kept.refl
  | cons transactionId rest ih =>
    exact fun m lookup ↦ (kept_releaseTransaction m lookup transactionId).trans (ih _ _)

/-- The found peers stay when queries are released. -/
theorem foundPeers_releaseEach (ids : List Bytes) : ∀ (m : LookupManager) (lookup : PeerLookup),
    (m.releaseEach lookup ids).2.foundPeers = lookup.foundPeers := by
  induction ids with
  | nil => exact fun _ _ ↦ rfl
  | cons transactionId rest ih =>
    intro m lookup
    refine (ih _ _).trans ?_
    cases hget : lookup.pending.get? transactionId with
    | none => simp only [releaseTransaction, hget]
    | some query => simp only [releaseTransaction, hget]

/-- What ending a lookup does to the table and to the log. -/
theorem finish_eq (m : LookupManager) (lookup : PeerLookup) :
    (m.finish lookup).active = m.active.erase lookup.infoHash ∧
      (m.finish lookup).limits = m.limits ∧
      (m.finish lookup).startedTotal = m.startedTotal ∧
      ∃ events, (m.finish lookup).log = m.log ++ events ++
          [.finished lookup.number lookup.infoHash (sortedAddresses lookup.foundPeers.keys)] ∧
        ∀ event ∈ events, IsRelease event := by
  have hkept := kept_releaseEach lookup.pending.keys (m.check (lookup.finished = false)) lookup
  have hfound := foundPeers_releaseEach lookup.pending.keys (m.check (lookup.finished = false)) lookup
  obtain ⟨events, hlog, hevents⟩ := hkept.log
  rw [finish_eq_close]
  refine ⟨?_, hkept.limits, hkept.startedTotal, events, ?_, hevents⟩
  · simp only [close, emit]
    rw [hkept.active, hkept.infoHash]
    rfl
  · simp only [close, emit]
    rw [hlog, hkept.number, hkept.infoHash, hfound]
    rfl

theorem get?_finishLookup (hm : m.Keyed) (h k : Bytes) :
    (m.finishLookup h).active.get? k = if k = h then none else m.active.get? k := by
  unfold finishLookup
  cases hget : m.active.get? h with
  | none =>
    by_cases hk : k = h
    · rw [if_pos hk, hk]
      exact hget
    · rw [if_neg hk]
  | some lookup =>
    simp only
    rw [(finish_eq m lookup).1, (hm h lookup hget).1, OrderedMap.get?_erase]

theorem keyed_finishLookup (hm : m.Keyed) (h : Bytes) : (m.finishLookup h).Keyed := by
  intro k lookup hget
  rw [get?_finishLookup hm] at hget
  split at hget
  · cases hget
  · exact hm k lookup hget

theorem get?_foldl_finishLookup (hashes : List Bytes) : ∀ {m : LookupManager}, m.Keyed →
    ∀ k, (hashes.foldl finishLookup m).active.get? k =
      if k ∈ hashes then none else m.active.get? k := by
  induction hashes with
  | nil => exact fun _ _ ↦ rfl
  | cons h rest ih =>
    intro m hm k
    rw [List.foldl_cons, ih (keyed_finishLookup hm h), get?_finishLookup hm]
    by_cases hk : k = h
    · simp [hk]
    · by_cases hmem : k ∈ rest <;> simp [hk, hmem]

/-- `abort_all` empties the table of lookups. -/
theorem get?_abortAll (hm : m.Keyed) (k : Bytes) : m.abortAll.active.get? k = none := by
  have hfold := get?_foldl_finishLookup m.active.keys hm k
  refine hfold.trans ?_
  split
  · rfl
  · rename_i hk
    exact OrderedMap.get?_eq_none_iff.mpr hk

/-! ## Sample runs -/

/-- Every call of the run returns. -/
def returns (net : Inet) (m : LookupManager) : List LookupCall → Bool
  | [] => true
  | call :: rest => !(m.apply net call).raised && (m.apply net call).returns net rest

theorem run_of_returns {net : Inet} {calls : List LookupCall} (h : m.returns net calls) :
    (lookupMachine net).run m calls = some (calls.foldl (apply net) m) := by
  induction calls generalizing m with
  | nil => rfl
  | cons call rest ih =>
    simp only [returns, Bool.and_eq_true, Bool.not_eq_true'] at h
    rw [Machine.run_cons_eq_some]
    exact ⟨m.apply net call, if_neg (by simp [h.1]), ih h.2⟩

end LookupManager

/-- Address functions for samples: the text of an address lists its bytes. -/
def sampleInet : Inet where
  ntoa := fun packed ↦ packed.map fun byte ↦ Char.ofNat byte.toNat
  ntop := fun packed ↦ ':' :: packed.map fun byte ↦ Char.ofNat byte.toNat
  aton := fun ip ↦ some (ascii ip)
  pton := fun ip ↦ some (ascii ip.tail)
  ipv6Address := fun _ ↦ none

/-- A node at the host `8.8.8.n`. -/
def sampleNode (n : UInt8) : Node where
  nodeId := List.replicate nodeIdLength n
  ip := "8.8.8.".toList ++ Nat.toDigits 10 n.toNat
  port := 6881

def sampleManager : LookupManager := .new defaultLookupLimits (fun _ ↦ true) 0

/-- A lookup that starts with one seed. -/
def sampleStart : LookupCall := .startLookup (List.replicate nodeIdLength 0) [sampleNode 1] 0 none

end DhtScraper
