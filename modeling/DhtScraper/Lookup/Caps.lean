import DhtScraper.Lookup.Ending
import DhtScraper.Lookup.Tables

/-!
# The caps of a lookup

A lookup sends at most `max_queries` queries, to distinct addresses, and waits for at most `alpha`
answers, and at most `max_per_node` queries to one address are pending.  `top_up` filters its
candidates once and then sends up to `alpha` queries, while the shortlist is keyed by node id: the
caps about addresses hold as long as the nodes offered to a lookup do not name one address by two
ids, or `alpha` is one.
-/

namespace DhtScraper

open Library

/-- The address that a lookup asks. -/
def LookupEvent.askedBy (number : ℕ) : LookupEvent → Option Address
  | .sent _ lookup _ node _ => if lookup = number then some node.address else none
  | _ => none

/-- The addresses that a lookup has asked, in order. -/
def asked (log : List LookupEvent) (number : ℕ) : List Address :=
  log.filterMap (LookupEvent.askedBy number)

theorem asked_append (log events : List LookupEvent) (number : ℕ) :
    asked (log ++ events) number = asked log number ++ asked events number :=
  List.filterMap_append

/-- Nodes of one address have one id. -/
def Apart (nodes : List Node) : Prop :=
  ∀ node ∈ nodes, ∀ other ∈ nodes, node.address = other.address → node.nodeId = other.nodeId

instance (nodes : List Node) : Decidable (Apart nodes) := by
  unfold Apart
  infer_instance

theorem Apart.mono {nodes others : List Node} (h : Apart nodes) (hsub : ∀ node ∈ others, node ∈ nodes) :
    Apart others := fun node hnode other hother ↦ h node (hsub node hnode) other (hsub other hother)

/-! ## Shortlists -/

/-- Nodes are filed under their own ids. -/
def FiledById (shortlist : OrderedMap Bytes Node) : Prop :=
  ∀ id node, shortlist.get? id = some node → node.nodeId = id

theorem FiledById.insert {shortlist : OrderedMap Bytes Node} (h : FiledById shortlist) (node : Node) :
    FiledById (shortlist.insert node.nodeId node) := by
  intro id other hget
  rw [OrderedMap.get?_insert] at hget
  split at hget
  next hid => rw [← Option.some.inj hget, hid]
  next => exact h id other hget

theorem FiledById.foldl (nodes : List Node) : ∀ {shortlist : OrderedMap Bytes Node},
    FiledById shortlist →
      FiledById (nodes.foldl (fun shortlist node ↦ shortlist.insert node.nodeId node) shortlist) := by
  induction nodes with
  | nil => exact fun h ↦ h
  | cons first rest ih => exact fun h ↦ ih (h.insert first)

theorem mem_values_foldl_insert (nodes : List Node) : ∀ {shortlist : OrderedMap Bytes Node}
    {node : Node}, node ∈ (nodes.foldl (fun shortlist node ↦ shortlist.insert node.nodeId node)
      shortlist).values → node ∈ shortlist.values ++ nodes := by
  induction nodes with
  | nil => exact fun hnode ↦ List.mem_append_left _ hnode
  | cons first rest ih =>
    intro shortlist node hnode
    rcases List.mem_append.mp (ih hnode) with hold | hrest
    · obtain ⟨id, hget⟩ := OrderedMap.mem_values_iff.mp hold
      rw [OrderedMap.get?_insert] at hget
      split at hget
      next =>
        rw [← Option.some.inj hget]
        exact List.mem_append_right _ List.mem_cons_self
      next => exact List.mem_append_left _ (OrderedMap.mem_values_iff.mpr ⟨id, hget⟩)
    · exact List.mem_append_right _ (List.mem_cons_of_mem _ hrest)

/-- In a shortlist whose addresses have one id each the addresses are distinct. -/
theorem PeerLookup.distinctAddresses_of_apart {lookup : PeerLookup}
    (hfiled : FiledById lookup.shortlist) (hapart : Apart lookup.shortlist.values) :
    lookup.DistinctAddresses := by
  have hids : (lookup.shortlist.values.map Node.nodeId).Nodup := by
    have hkeys : lookup.shortlist.values.map Node.nodeId = lookup.shortlist.keys := by
      rw [OrderedMap.values, OrderedMap.keys, List.map_map]
      refine List.map_congr_left fun item hitem ↦ ?_
      exact hfiled item.1 item.2 (OrderedMap.get?_eq_some_iff.mpr hitem)
    rw [hkeys]
    exact lookup.shortlist.nodup
  refine List.Nodup.map_on (fun node hnode other hother heq ↦ ?_) hids.of_map
  exact List.inj_on_of_nodup_map hids hnode hother (hapart node hnode other hother heq)

namespace LookupManager

variable {net : Inet} {limits : LookupLimits} {m m' : LookupManager} {lookup lookup' : PeerLookup}

theorem filedById_addToShortlist (m : LookupManager) {lookup : PeerLookup} (nodes : List Node)
    (h : FiledById lookup.shortlist) : FiledById (m.addToShortlist lookup nodes).2.shortlist := by
  unfold addToShortlist
  dsimp only
  split
  · have hempty : FiledById (.empty : OrderedMap Bytes Node) := fun _ _ hget ↦ by cases hget
    exact hempty.foldl _
  · exact h.foldl _

/-- What a shortlist holds comes from the shortlist before and from the new nodes. -/
theorem mem_values_addToShortlist {nodes : List Node} {node : Node}
    (hnode : node ∈ (m.addToShortlist lookup nodes).2.shortlist.values) :
    node ∈ lookup.shortlist.values ++ nodes.filter (m.isNewNode lookup) := by
  unfold addToShortlist at hnode
  dsimp only at hnode
  split at hnode
  · rcases List.mem_append.mp (mem_values_foldl_insert _ hnode) with hnone | hchosen
    · cases hnone
    · exact mem_values_foldl_insert _ (mem_of_mem_selectClosestNodes hchosen)
  · exact mem_values_foldl_insert _ hnode

/-! ## What one lookup keeps -/

/-- The caps of a lookup, and what its log says of it. -/
structure LookupCaps (m : LookupManager) (lookup : PeerLookup) : Prop where
  sent : (asked m.log lookup.number).length = lookup.queriesSent
  once : (asked m.log lookup.number).Nodup
  queried : ∀ address ∈ asked m.log lookup.number, address ∈ lookup.queried
  budget : lookup.queriesSent ≤ m.limits.maxQueries
  room : lookup.pending.size ≤ m.limits.alpha
  filed : FiledById lookup.shortlist
  apart : m.limits.alpha = 1 ∨ Apart lookup.shortlist.values

/-- The caps of all lookups, and of the addresses. -/
structure Capped (limits : LookupLimits) (m : LookupManager) : Prop where
  same : m.limits = limits
  queries : 1 ≤ limits.maxQueries
  lookups : ∀ h lookup, m.active.get? h = some lookup → m.LookupCaps lookup
  pending : ∀ address, (m.pendingTo address : ℤ) ≤ m.inFlightTo address
  perNode : ∀ address, m.inFlightTo address ≤ limits.maxPerNode
  once : ∀ n, (asked m.log n).Nodup
  budget : ∀ n, (asked m.log n).length ≤ limits.maxQueries
  unstarted : ∀ n, m.startedTotal ≤ n → asked m.log n = []

theorem LookupCaps.of_eq (h : m.LookupCaps lookup) (hlimits : m'.limits = m.limits)
    (hasked : asked m'.log lookup.number = asked m.log lookup.number) : m'.LookupCaps lookup where
  sent := hasked ▸ h.sent
  once := hasked ▸ h.once
  queried := hasked ▸ h.queried
  budget := hlimits ▸ h.budget
  room := hlimits ▸ h.room
  filed := h.filed
  apart := hlimits ▸ h.apart

theorem Capped.self (h : (m.save lookup).Capped limits) : (m.save lookup).LookupCaps lookup :=
  h.lookups lookup.infoHash lookup ((get?_save _ _ _).trans (if_pos rfl))

/-- A step that asks nobody: the caps of the lookup it changes are left to show. -/
theorem Capped.quiet (h : (m.save lookup).Capped limits) (hactive : m'.active = m.active)
    (hkey : lookup'.infoHash = lookup.infoHash) (hlimits : m'.limits = m.limits)
    (hstarted : m'.startedTotal = m.startedTotal)
    (hasked : ∀ n, asked m'.log n = asked m.log n)
    (hcaps : m'.LookupCaps lookup')
    (hpending : ∀ address, ((m'.save lookup').pendingTo address : ℤ) ≤ m'.inFlightTo address)
    (hperNode : ∀ address, m'.inFlightTo address ≤ limits.maxPerNode) :
    (m'.save lookup').Capped limits where
  same := hlimits.trans h.same
  queries := h.queries
  lookups := by
    intro k other hother
    rw [get?_save, hkey, hactive] at hother
    split at hother
    · rw [← Option.some.inj hother]
      exact hcaps.of_eq rfl rfl
    next hk =>
      have hbefore := h.lookups k other ((get?_save _ _ _).trans ((if_neg hk).trans hother))
      exact hbefore.of_eq hlimits (hasked _)
  pending := hpending
  perNode := hperNode
  once := fun n ↦ (hasked n).symm ▸ h.once n
  budget := fun n ↦ (hasked n).symm ▸ h.budget n
  unstarted := fun n hn ↦ (hasked n).trans (h.unstarted n (hstarted ▸ hn))

/-- A step that leaves the queries of the lookup and the counts alone. -/
theorem Capped.kept (h : (m.save lookup).Capped limits) (hactive : m'.active = m.active)
    (hkey : lookup'.infoHash = lookup.infoHash) (hnumber : lookup'.number = lookup.number)
    (hsent : lookup'.queriesSent = lookup.queriesSent) (hqueried : lookup'.queried = lookup.queried)
    (hpending : lookup'.pending = lookup.pending) (hlimits : m'.limits = m.limits)
    (hinFlight : m'.inFlight = m.inFlight) (hstarted : m'.startedTotal = m.startedTotal)
    (hasked : ∀ n, asked m'.log n = asked m.log n) (hfiled : FiledById lookup'.shortlist)
    (hapart : m'.limits.alpha = 1 ∨ Apart lookup'.shortlist.values) :
    (m'.save lookup').Capped limits := by
  have hself := h.self
  refine h.quiet hactive hkey hlimits hstarted hasked ?_ (fun address ↦ ?_) fun address ↦ ?_
  · constructor
    case sent =>
      rw [hasked, hnumber, hsent]
      exact hself.sent
    case once =>
      rw [hasked, hnumber]
      exact hself.once
    case queried =>
      rw [hasked, hnumber, hqueried]
      exact hself.queried
    case budget =>
      rw [hsent, hlimits]
      exact hself.budget
    case room =>
      rw [hpending, hlimits]
      exact hself.room
    case filed => exact hfiled
    case apart => exact hapart
  · have hchanged := pendingTo_changed hactive hkey address
    have hcount : lookup'.pendingTo address = lookup.pendingTo address := by
      rw [PeerLookup.pendingTo, hpending]
      rfl
    have hbefore := h.pending address
    rw [inFlightTo, hinFlight]
    change ((m.save lookup).pendingTo address : ℤ) ≤ (m.inFlight.get? address).getD 0 at hbefore
    omega
  · rw [inFlightTo, hinFlight]
    exact h.perNode address

theorem Capped.of_eq (h : m.Capped limits) (hactive : m'.active = m.active)
    (hlimits : m'.limits = m.limits) (hinFlight : m'.inFlight = m.inFlight)
    (hstarted : m'.startedTotal = m.startedTotal) (hlog : m'.log = m.log) : m'.Capped limits where
  same := hlimits.trans h.same
  queries := h.queries
  lookups := fun k lookup hget ↦
    (h.lookups k lookup (hactive ▸ hget)).of_eq hlimits (congrArg (asked · lookup.number) hlog)
  pending := by
    intro address
    rw [pendingTo, hactive, inFlightTo, hinFlight]
    exact h.pending address
  perNode := by
    intro address
    rw [inFlightTo, hinFlight]
    exact h.perNode address
  once := by rw [hlog]; exact h.once
  budget := by rw [hlog]; exact h.budget
  unstarted := by rw [hlog, hstarted]; exact h.unstarted

/-- A query goes to an address the lookup has not asked and that is below its cap. -/
theorem Capped.sentTo (h : (m.save lookup).Capped limits) (hs : (m.save lookup).Streams net)
    {node : Node} (hsend : m.MaySend lookup node) (now timeout : ℚ) :
    ((m.sendTo lookup node now timeout).1.save
      (m.sendTo lookup node now timeout).2.1).Capped limits := by
  let next := (m.sendTo lookup node now timeout).1
  let changed := (m.sendTo lookup node now timeout).2.1
  have hself := h.self
  have hget_self : (m.save lookup).active.get? lookup.infoHash = some lookup := by
    rw [get?_save, if_pos rfl]
  have hlimits : m.limits = limits := h.same
  have hfresh := hsend.fresh (hself.apart.imp_right (lookup.distinctAddresses_of_apart hself.filed))
  have hasked (n : ℕ) : asked (next.save changed).log n =
      asked m.log n ++ if n = lookup.number then [node.address] else [] := by
    have hlog : (next.save changed).log = m.log ++ [.sent m.sequence lookup.number
      (lookupTransactionId m.sequence) node lookup.infoHash] := rfl
    rw [hlog, asked_append]
    congr 1
    by_cases hn : n = lookup.number
    · simp [asked, LookupEvent.askedBy, hn]
    · simp [asked, LookupEvent.askedBy, hn, Ne.symm hn]
  have hlength : (asked m.log lookup.number).length = lookup.queriesSent := hself.sent
  have hbudget : lookup.queriesSent + 1 ≤ limits.maxQueries := by
    have hqueries := h.queries
    rcases hsend.budget with hlt | hzero
    · exact hlimits ▸ hlt
    · omega
  have hnodup : (asked m.log lookup.number ++ [node.address]).Nodup := by
    refine List.nodup_append.mpr ⟨hself.once, List.nodup_singleton _, fun a ha b hb heq ↦ ?_⟩
    rw [List.mem_singleton] at hb
    exact hfresh.1 (hb ▸ heq ▸ hself.queried a ha)
  have hcaps : next.LookupCaps changed := by
    have hown : asked next.log changed.number = asked m.log lookup.number ++ [node.address] :=
      (hasked lookup.number).trans (by rw [if_pos rfl])
    constructor
    case sent =>
      rw [hown, List.length_append, hlength]
      rfl
    case once =>
      rw [hown]
      exact hnodup
    case queried =>
      intro address haddress
      rw [hown] at haddress
      rcases List.mem_append.mp haddress with hold | hnew
      · exact Finset.mem_insert_of_mem (hself.queried address hold)
      · rw [List.mem_singleton.mp hnew]
        exact Finset.mem_insert_self _ _
    case budget => exact (hlimits ▸ hbudget : lookup.queriesSent + 1 ≤ m.limits.maxQueries)
    case room =>
      have hroom := hsend.room
      exact (lookup.pending.size_insert_le _ _).trans hroom
    case filed => exact hself.filed
    case apart => exact hself.apart
  constructor
  case same => exact hlimits
  case queries => exact h.queries
  case lookups =>
    intro k other hother
    have hget : (next.save changed).active.get? k =
        if k = lookup.infoHash then some changed else m.active.get? k := get?_save _ _ _
    replace hother := hget.symm.trans hother
    split at hother
    · rw [← Option.some.inj hother]
      exact hcaps.of_eq rfl rfl
    next hk =>
      have hbefore : (m.save lookup).active.get? k = some other :=
        (get?_save _ _ _).trans ((if_neg hk).trans hother)
      have hne : other.number ≠ lookup.number := fun heq ↦
        hk (hs.distinct _ _ _ _ hbefore hget_self heq)
      refine (h.lookups k other hbefore).of_eq rfl ((hasked _).trans ?_)
      rw [if_neg hne, List.append_nil]
      rfl
  case pending =>
    intro address
    have hchanged : (next.save changed).pendingTo address + lookup.pendingTo address =
        (m.save lookup).pendingTo address + changed.pendingTo address := by
      have hactive : next.active = m.active := rfl
      have hkey : changed.infoHash = lookup.infoHash := rfl
      exact pendingTo_changed hactive hkey address
    have hinsert : changed.pendingTo address ≤
        lookup.pendingTo address + if node.address = address then 1 else 0 := by
      have hcount := lookup.pending.countP_values_insert_le (fun query ↦ query.address = address)
        (lookupTransactionId m.sequence) ⟨node.address, now + timeout, m.sequence⟩
      simp only [decide_eq_true_eq] at hcount
      exact hcount
    have hbefore : ((m.save lookup).pendingTo address : ℤ) ≤ m.inFlightTo address :=
      h.pending address
    have hafter := StepRules.inFlightTo_sendTo m lookup node now timeout address
    change ((next.save changed).pendingTo address : ℤ) ≤ next.inFlightTo address
    rw [hafter]
    by_cases ha : address = node.address
    · rw [if_pos ha.symm] at hinsert
      rw [if_pos ha]
      omega
    · rw [if_neg fun heq ↦ ha heq.symm] at hinsert
      rw [if_neg ha]
      omega
  case perNode =>
    intro address
    have hafter := StepRules.inFlightTo_sendTo m lookup node now timeout address
    change next.inFlightTo address ≤ limits.maxPerNode
    rw [hafter]
    by_cases ha : address = node.address
    · rw [if_pos ha, ha]
      have hcap := hfresh.2
      rw [hlimits] at hcap
      omega
    · rw [if_neg ha, add_zero]
      exact h.perNode address
  case once =>
    intro n
    refine (hasked n).symm ▸ ?_
    by_cases hn : n = lookup.number
    · rw [if_pos hn, hn]
      exact hnodup
    · rw [if_neg hn, List.append_nil]
      exact h.once n
  case budget =>
    intro n
    refine (hasked n).symm ▸ ?_
    by_cases hn : n = lookup.number
    · rw [if_pos hn, hn, List.length_append, hlength]
      exact hbudget
    · rw [if_neg hn, List.append_nil]
      exact h.budget n
  case unstarted =>
    intro n hn
    have hne : n ≠ lookup.number := fun heq ↦
      absurd (hs.numbered _ _ hget_self) (not_lt.mpr (heq ▸ hn))
    refine (hasked n).trans ?_
    rw [if_neg hne, List.append_nil]
    exact h.unstarted n hn

/-- A released query is not pending any more. -/
theorem Capped.released (h : (m.save lookup).Capped limits) {transactionId : Bytes}
    {query : PendingQuery} (hget : lookup.pending.get? transactionId = some query) :
    ((m.releaseTransaction lookup transactionId).1.save
      (m.releaseTransaction lookup transactionId).2).Capped limits := by
  have hself := h.self
  have hkept := kept_releaseTransaction m lookup transactionId
  have hasked (n : ℕ) : asked (m.releaseTransaction lookup transactionId).1.log n =
      asked m.log n := by
    simp only [releaseTransaction, hget]
    exact (asked_append _ _ n).trans (List.append_nil _)
  have hinFlight (address : Address) :
      m.inFlightTo address - (if query.address = address then 1 else 0) ≤
          (m.releaseTransaction lookup transactionId).1.inFlightTo address ∧
        ((m.releaseTransaction lookup transactionId).1.inFlightTo address ≤ m.inFlightTo address ∨
          (m.releaseTransaction lookup transactionId).1.inFlightTo address = 0) := by
    have hmap : (m.releaseTransaction lookup transactionId).1.inFlight =
        if 0 < m.inFlightTo query.address - 1 then
          m.inFlight.insert query.address (m.inFlightTo query.address - 1)
        else m.inFlight.erase query.address := by
      simp only [releaseTransaction, hget]
      rfl
    by_cases ha : address = query.address
    · rw [if_pos ha.symm, ha]
      have hvalue : (m.releaseTransaction lookup transactionId).1.inFlightTo query.address =
          if 0 < m.inFlightTo query.address - 1 then m.inFlightTo query.address - 1 else 0 := by
        rw [inFlightTo, hmap]
        split
        · rw [OrderedMap.get?_insert, if_pos rfl, Option.getD_some]
        · rw [OrderedMap.get?_erase, if_pos rfl, Option.getD_none]
      rw [hvalue]
      split <;> omega
    · have hvalue : (m.releaseTransaction lookup transactionId).1.inFlightTo address =
          m.inFlightTo address := by
        rw [inFlightTo, hmap]
        split
        · rw [OrderedMap.get?_insert, if_neg ha, inFlightTo]
        · rw [OrderedMap.get?_erase, if_neg ha, inFlightTo]
      rw [if_neg fun heq ↦ ha heq.symm, hvalue]
      exact ⟨by omega, Or.inl le_rfl⟩
  have hfields : (m.releaseTransaction lookup transactionId).2.queriesSent = lookup.queriesSent ∧
      (m.releaseTransaction lookup transactionId).2.queried = lookup.queried ∧
      (m.releaseTransaction lookup transactionId).2.shortlist = lookup.shortlist := by
    refine ⟨?_, ?_, ?_⟩ <;> simp only [releaseTransaction, hget]
  obtain ⟨hsent, hqueried, hshortlist⟩ := hfields
  have hpending := pending_releaseTransaction m lookup transactionId
  refine h.quiet hkept.active hkept.infoHash hkept.limits hkept.startedTotal hasked ?_
    (fun address ↦ ?_) fun address ↦ ?_
  · constructor
    case sent =>
      rw [hasked, hkept.number, hsent]
      exact hself.sent
    case once =>
      rw [hasked, hkept.number]
      exact hself.once
    case queried =>
      rw [hasked, hkept.number, hqueried]
      exact hself.queried
    case budget =>
      rw [hsent, hkept.limits]
      exact hself.budget
    case room =>
      rw [hpending, hkept.limits]
      exact (lookup.pending.size_erase_le transactionId).trans hself.room
    case filed =>
      rw [hshortlist]
      exact hself.filed
    case apart =>
      rw [hshortlist, hkept.limits]
      exact hself.apart
  · have hchanged := pendingTo_changed hkept.active hkept.infoHash address
    have herase := lookup.pending.countP_values_erase (fun query ↦ query.address = address) hget
    simp only [PeerLookup.pendingTo, hpending] at hchanged
    simp only [decide_eq_true_eq] at herase
    have hbefore : ((m.save lookup).pendingTo address : ℤ) ≤ m.inFlightTo address :=
      h.pending address
    have hafter := (hinFlight address).1
    by_cases ha : query.address = address
    · rw [if_pos ha] at herase hafter
      omega
    · rw [if_neg ha] at herase hafter
      omega
  · have hbefore : m.inFlightTo address ≤ limits.maxPerNode := h.perNode address
    rcases (hinFlight address).2 with hle | hzero
    · exact hle.trans hbefore
    · rw [hzero]
      exact Int.natCast_nonneg _

/-- A new lookup has asked nobody. -/
theorem Capped.started (h : m.Capped limits) {infoHash : Bytes}
    (hnone : m.active.get? infoHash = none) (now : ℚ) :
    (m.withNewLookup infoHash now).Capped limits := by
  let opened := PeerLookup.new m.startedTotal infoHash (now + m.limits.deadline)
  have hasked (n : ℕ) : asked (m.withNewLookup infoHash now).log n = asked m.log n :=
    (asked_append _ _ n).trans (List.append_nil _)
  have hnobody : asked m.log m.startedTotal = [] := h.unstarted _ le_rfl
  constructor
  case same => exact h.same
  case queries => exact h.queries
  case lookups =>
    intro k other hother
    have hget : (m.withNewLookup infoHash now).active.get? k =
        if k = infoHash then some opened else m.active.get? k := get?_save _ _ _
    replace hother := hget.symm.trans hother
    split at hother
    · rw [← Option.some.inj hother]
      have hown : asked (m.withNewLookup infoHash now).log opened.number = [] :=
        (hasked _).trans hnobody
      constructor
      case sent => rw [hown]; rfl
      case once => rw [hown]; exact List.nodup_nil
      case queried => rw [hown]; exact fun _ hmem ↦ absurd hmem List.not_mem_nil
      case budget => exact Nat.zero_le _
      case room => exact Nat.zero_le _
      case filed => exact fun _ _ hnode ↦ by cases hnode
      case apart => exact Or.inr fun _ hmem ↦ absurd hmem List.not_mem_nil
    · exact (h.lookups k other hother).of_eq rfl (hasked _)
  case pending =>
    intro address
    have hsave : (m.withNewLookup infoHash now).pendingTo address = opened.pendingTo address +
        ((m.active.erase infoHash).values.map fun other ↦ other.pendingTo address).sum :=
      pendingTo_save _ _ _
    rw [hsave, OrderedMap.erase_eq_self hnone,
      show opened.pendingTo address = 0 from rfl, Nat.zero_add]
    exact h.pending address
  case perNode => exact h.perNode
  case once => exact fun n ↦ (hasked n).symm ▸ h.once n
  case budget => exact fun n ↦ (hasked n).symm ▸ h.budget n
  case unstarted => exact fun n hn ↦ (hasked n).trans (h.unstarted n (le_trans (Nat.le_succ _) hn))

theorem Capped.closed (h : (m.save lookup).Capped limits) : (m.close lookup).Capped limits := by
  have hasked (n : ℕ) : asked (m.close lookup).log n = asked m.log n :=
    (asked_append _ _ n).trans (List.append_nil _)
  constructor
  case same => exact h.same
  case queries => exact h.queries
  case lookups =>
    intro k other hother
    have hget : (m.close lookup).active.get? k =
        if k = lookup.infoHash then none else m.active.get? k := OrderedMap.get?_erase _ _ _
    replace hother := hget.symm.trans hother
    split at hother
    · cases hother
    next hk =>
      have hbefore := h.lookups k other ((get?_save _ _ _).trans ((if_neg hk).trans hother))
      exact hbefore.of_eq rfl (hasked _)
  case pending =>
    intro address
    have hsave := pendingTo_save m lookup address
    have hclosed : (m.close lookup).pendingTo address =
        ((m.active.erase lookup.infoHash).values.map fun other ↦ other.pendingTo address).sum := rfl
    have hbefore : ((m.save lookup).pendingTo address : ℤ) ≤ m.inFlightTo address :=
      h.pending address
    change ((m.close lookup).pendingTo address : ℤ) ≤ m.inFlightTo address
    omega
  case perNode => exact h.perNode
  case once => exact fun n ↦ (hasked n).symm ▸ h.once n
  case budget => exact fun n ↦ (hasked n).symm ▸ h.budget n
  case unstarted => exact fun n hn ↦ (hasked n).trans (h.unstarted n hn)

/-! ## Runs -/

/-- The nodes offered to a lookup name no address by two ids, nor one of its shortlist by another
id; or `alpha` is one. -/
def apartOffer (m : LookupManager) (lookup : PeerLookup) (nodes : List Node) : Prop :=
  m.limits.alpha = 1 ∨ Apart (lookup.shortlist.values ++ nodes.filter (m.isNewNode lookup))

/-- Streams and caps are kept together: a lookup is known by its number. -/
theorem capped_rules (net : Inet) (limits : LookupLimits) :
    ManagerRules net apartOffer fun m ↦ m.Streams net ∧ m.Capped limits where
  step :=
    { checked := fun m lookup b h ↦
        ⟨(streams_rules net).step.checked m lookup b h.1, h.2.of_eq rfl rfl rfl rfl rfl⟩
      counted := fun m lookup queries answers h ↦
        ⟨(streams_rules net).step.counted m lookup queries answers h.1,
          h.2.of_eq rfl rfl rfl rfl rfl⟩
      refilled := fun m lookup now h ↦
        ⟨(streams_rules net).step.refilled m lookup now h.1, h.2.of_eq rfl rfl rfl rfl rfl⟩
      shortlisted := by
        intro m lookup nodes ho h
        refine ⟨(streams_rules net).step.shortlisted m lookup nodes trivial h.1, ?_⟩
        have hfiled := filedById_addToShortlist m nodes h.2.self.filed
        have hmem : ∀ node ∈ (m.addToShortlist lookup nodes).2.shortlist.values,
            node ∈ lookup.shortlist.values ++ nodes.filter (m.isNewNode lookup) :=
          fun _ ↦ mem_values_addToShortlist
        obtain ⟨-, shortlist, hlookup⟩ := ManagerRules.addToShortlist_kept m lookup nodes
        rw [hlookup] at hfiled hmem ⊢
        exact h.2.kept rfl rfl rfl rfl rfl rfl rfl rfl rfl (fun _ ↦ rfl) hfiled
          (ho.imp_right fun hapart ↦ hapart.mono hmem)
      sent := fun m lookup node now timeout hsend h ↦
        ⟨(streams_rules net).step.sent m lookup node now timeout hsend h.1,
          h.2.sentTo h.1 hsend now timeout⟩
      hinted := fun m lookup transactionId hpending h ↦
        ⟨(streams_rules net).step.hinted m lookup transactionId hpending h.1,
          h.2.kept rfl rfl rfl rfl rfl rfl rfl rfl rfl (fun _ ↦ rfl) h.2.self.filed
            h.2.self.apart⟩
      released := fun m lookup transactionId query hget h ↦
        ⟨(streams_rules net).step.released m lookup transactionId query hget h.1,
          h.2.released hget⟩
      found := by
        intro m lookup fromHint values h
        refine ⟨(streams_rules net).step.found m lookup fromHint values h.1, ?_⟩
        obtain ⟨hintValues, events, found, responses, hmanager, hlookup, hevents⟩ :=
          ManagerRules.takeValues_kept net m lookup fromHint values
        rw [hmanager, hlookup]
        refine h.2.kept rfl rfl rfl rfl rfl rfl rfl rfl rfl (fun n ↦ ?_) h.2.self.filed
          h.2.self.apart
        refine (asked_append _ _ n).trans ?_
        have hnone : asked events n = [] := List.filterMap_eq_nil_iff.mpr fun event hevent ↦ by
          obtain ⟨peers, rfl⟩ := hevents event hevent
          rfl
        rw [hnone, List.append_nil] }
  checked := fun m b h ↦ ⟨(streams_rules net).checked m b h.1, h.2.of_eq rfl rfl rfl rfl rfl⟩
  refilled := fun m now h ↦ ⟨(streams_rules net).refilled m now h.1, h.2.of_eq rfl rfl rfl rfl rfl⟩
  forgot := fun m transactionId infoHash hget hnone h ↦
    ⟨(streams_rules net).forgot m transactionId infoHash hget hnone h.1,
      h.2.of_eq rfl rfl rfl rfl rfl⟩
  started := fun m infoHash now hlength hnone hslot hseen h ↦
    ⟨(streams_rules net).started m infoHash now hlength hnone hslot hseen h.1,
      h.2.started hnone now⟩
  closed := fun m lookup hempty h ↦ ⟨(streams_rules net).closed m lookup hempty h.1, h.2.closed⟩

/-- The nodes of `nodes` or `nodes6`. -/
def decodedNodes (decoder : Bytes → Except Failure (List Node)) :
    Option BencodeValue → List Node
  | some (.bytes data) => (decoder data).toOption.getD []
  | _ => []

/-- The nodes that a reply offers. -/
def offeredNodes (net : Inet) : Option BencodeValue → List Node
  | some (.dict items) => decodedNodes (decodeCompactNodes net) (items.lookup nodesKey) ++
      decodedNodes (decodeCompactNodes6 net) (items.lookup nodes6Key)
  | _ => []

/-- The new nodes of the call name no address by two ids, nor one of the shortlist they are added to
by another id. -/
def apartCall (net : Inet) (m : LookupManager) : LookupCall → Prop
  | .startLookup _ seedNodes _ _ => Apart (seedNodes.filter m.isUsableNode)
  | .handleResponse transactionId response address _ => ∀ infoHash lookup,
      m.transactions.get? transactionId = some infoHash →
        m.awaitedFrom transactionId infoHash address = some lookup →
          Apart (lookup.shortlist.values ++ (offeredNodes net response).filter (m.isNewNode lookup))
  | _ => True

/-- What decides about new nodes. -/
structure SameView (m : LookupManager) (lookup : PeerLookup) (m' : LookupManager)
    (lookup' : PeerLookup) : Prop where
  limits : m'.limits = m.limits
  nodeFilter : m'.nodeFilter = m.nodeFilter
  queried : lookup'.queried = lookup.queried

theorem SameView.isNewNode (h : SameView m lookup m' lookup') :
    m'.isNewNode lookup' = m.isNewNode lookup := by
  funext node
  rw [LookupManager.isNewNode, LookupManager.isNewNode, isUsableNode, isUsableNode, h.nodeFilter,
    h.queried]

theorem SameView.trans {m'' : LookupManager} {lookup'' : PeerLookup}
    (h : SameView m lookup m' lookup') (h' : SameView m' lookup' m'' lookup'') :
    SameView m lookup m'' lookup'' :=
  ⟨h'.limits.trans h.limits, h'.nodeFilter.trans h.nodeFilter, h'.queried.trans h.queried⟩

theorem sameView_addToShortlist (m : LookupManager) (lookup : PeerLookup) (nodes : List Node) :
    SameView m lookup (m.addToShortlist lookup nodes).1 (m.addToShortlist lookup nodes).2 := by
  obtain ⟨⟨b, hmanager⟩, shortlist, hlookup⟩ := ManagerRules.addToShortlist_kept m lookup nodes
  rw [hmanager, hlookup]
  exact ⟨rfl, rfl, rfl⟩

/-- Nodes taken from `nodes` add to the shortlist no more than the decoded ones. -/
theorem takeNodes_view (m : LookupManager) (lookup : PeerLookup)
    (decoder : Bytes → Except Failure (List Node)) (compactNodes : Option BencodeValue) :
    SameView m lookup (m.takeNodes lookup decoder compactNodes).1
        (m.takeNodes lookup decoder compactNodes).2 ∧
      ∀ node ∈ (m.takeNodes lookup decoder compactNodes).2.shortlist.values,
        node ∈ lookup.shortlist.values ++
          (decodedNodes decoder compactNodes).filter (m.isNewNode lookup) := by
  have hnothing : SameView m lookup m lookup := ⟨rfl, rfl, rfl⟩
  unfold takeNodes
  split
  next data =>
    cases hdecoded : decoder data with
    | error failure => exact ⟨⟨rfl, rfl, rfl⟩, fun node hnode ↦ List.mem_append_left _ hnode⟩
    | ok nodes =>
      refine ⟨sameView_addToShortlist m lookup nodes, fun node hnode ↦ ?_⟩
      have hnodes : decodedNodes decoder (some (.bytes data)) = nodes := by
        rw [decodedNodes, hdecoded]
        rfl
      rw [hnodes]
      exact mem_values_addToShortlist hnode
  next => exact ⟨hnothing, fun node hnode ↦ List.mem_append_left _ hnode⟩

section ApartOffers

/-! What is left open here is which offers are allowed: those of apart nodes, or any others if `P`. -/

variable {Offer : LookupManager → PeerLookup → List Node → Prop} {P : Prop}

/-- The nodes of `nodes` are apart from a shortlist that the whole reply is apart from. -/
theorem nodesOffer_of_apart (hoffer : ∀ m' lookup' nodes, SameView m lookup m' lookup' →
      P ∨ Apart (lookup'.shortlist.values ++ nodes.filter (m'.isNewNode lookup')) →
        Offer m' lookup' nodes)
    (hview : SameView m lookup m' lookup') {offered : List Node}
    (hapart : P ∨ Apart (lookup.shortlist.values ++ offered.filter (m.isNewNode lookup)))
    (hshortlist : ∀ node ∈ lookup'.shortlist.values,
      node ∈ lookup.shortlist.values ++ offered.filter (m.isNewNode lookup))
    {decoder : Bytes → Except Failure (List Node)} {compactNodes : Option BencodeValue}
    (hoffered : ∀ node ∈ decodedNodes decoder compactNodes, node ∈ offered) :
    m'.nodesOffer Offer lookup' decoder compactNodes := by
  intro data nodes hcompact hdecoded
  refine hoffer m' lookup' nodes hview (hapart.imp_right fun h ↦ ?_)
  rw [hview.isNewNode]
  refine h.mono fun node hnode ↦ ?_
  rcases List.mem_append.mp hnode with hold | hnew
  · exact hshortlist node hold
  · obtain ⟨hmem, hfresh⟩ := List.mem_filter.mp hnew
    refine List.mem_append_right _ (List.mem_filter.mpr ⟨hoffered node ?_, hfresh⟩)
    rw [hcompact, decodedNodes, hdecoded]
    exact hmem

theorem takeValues_view (net : Inet) (m : LookupManager) (lookup : PeerLookup) (fromHint : Bool)
    (values : List Address) : SameView m lookup (m.takeValues net lookup fromHint values).1
        (m.takeValues net lookup fromHint values).2 ∧
      (m.takeValues net lookup fromHint values).2.shortlist = lookup.shortlist := by
  obtain ⟨hintValues, events, found, responses, hmanager, hlookup, -⟩ :=
    ManagerRules.takeValues_kept net m lookup fromHint values
  rw [hmanager, hlookup]
  exact ⟨⟨rfl, rfl, rfl⟩, rfl⟩

/-- A reply whose nodes are apart makes two offers that are apart. -/
theorem responseOffer_of_apart (hoffer : ∀ m' lookup' nodes, SameView m lookup m' lookup' →
      P ∨ Apart (lookup'.shortlist.values ++ nodes.filter (m'.isNewNode lookup')) →
        Offer m' lookup' nodes)
    (hview : SameView m lookup m' lookup')
    (hshortlist : lookup'.shortlist = lookup.shortlist) {fromHint : Bool}
    {response : Option BencodeValue} (hapart : P ∨
      Apart (lookup.shortlist.values ++ (offeredNodes net response).filter (m.isNewNode lookup))) :
    m'.responseOffer Offer net lookup' fromHint response := by
  intro items values hresponse _ taken
  obtain ⟨htaken, hsame⟩ := takeValues_view net m' lookup' fromHint values
  have hready := hview.trans htaken
  rw [hresponse] at hapart
  have hbefore (node : Node) (hnode : node ∈ taken.2.shortlist.values) :
      node ∈ lookup.shortlist.values ++
        (offeredNodes net (some (.dict items))).filter (m.isNewNode lookup) := by
    rw [show taken.2.shortlist = lookup'.shortlist from hsame, hshortlist] at hnode
    exact List.mem_append_left _ hnode
  refine ⟨nodesOffer_of_apart hoffer hready hapart hbefore fun node hnode ↦
    List.mem_append_left _ hnode, ?_⟩
  obtain ⟨hnext, hmem⟩ := takeNodes_view taken.1 taken.2 (decodeCompactNodes net)
    (items.lookup nodesKey)
  refine nodesOffer_of_apart hoffer (hready.trans hnext) hapart (fun node hnode ↦ ?_) fun node hnode ↦
    List.mem_append_right _ hnode
  rcases List.mem_append.mp (hmem node hnode) with hold | hnew
  · exact hbefore node hold
  · obtain ⟨hdecoded, hfresh⟩ := List.mem_filter.mp hnew
    rw [hready.isNewNode] at hfresh
    exact List.mem_append_right _
      (List.mem_filter.mpr ⟨List.mem_append_left _ hdecoded, hfresh⟩)

end ApartOffers

/-- Calls whose nodes are apart make offers that are apart. -/
theorem callOffer_of_apart {call : LookupCall} (h : m.limits.alpha = 1 ∨ m.apartCall net call) :
    m.callOffer apartOffer net call := by
  cases call with
  | startLookup infoHash seedNodes now hint =>
    intro m' hlimits hfilter
    rw [apartOffer, hlimits]
    refine h.imp_right fun hapart ↦ hapart.mono fun node hnode ↦ ?_
    rcases List.mem_append.mp hnode with hnone | hseed
    · cases hnone
    · obtain ⟨hmem, hnew⟩ := List.mem_filter.mp hseed
      refine List.mem_filter.mpr ⟨hmem, ?_⟩
      rw [isUsableNode, ← hfilter]
      exact (Bool.and_eq_true_iff.mp hnew).1
  | handleResponse transactionId response address now =>
    intro infoHash lookup hget hawaited
    obtain ⟨query, hquery, -⟩ :=
      Option.map_eq_some_iff.mp (of_decide_eq_true (Option.filter_eq_some_iff.mp hawaited).2)
    have hreleased : SameView m lookup (m.releaseTransaction lookup transactionId).1
        (m.releaseTransaction lookup transactionId).2 ∧
          (m.releaseTransaction lookup transactionId).2.shortlist = lookup.shortlist := by
      simp only [releaseTransaction, hquery]
      exact ⟨⟨rfl, rfl, rfl⟩, trivial⟩
    obtain ⟨hview, hsame⟩ := hreleased
    intro released fromHint counted
    have hcounted : SameView m lookup counted released.2 :=
      ⟨hview.limits, hview.nodeFilter, hview.queried⟩
    refine responseOffer_of_apart (fun m' lookup' nodes hview hapart ↦ ?_) hcounted hsame
      (h.imp_right fun hcall ↦ hcall infoHash lookup hget hawaited)
    rw [apartOffer, hview.limits]
    exact hapart
  | _ => trivial

/-- The caps hold. -/
structure CapsHold (m : LookupManager) : Prop where
  queries : ∀ n, (asked m.log n).length ≤ m.limits.maxQueries
  distinct : ∀ n, (asked m.log n).Nodup
  inFlight : ∀ h lookup, m.active.get? h = some lookup → lookup.pending.size ≤ m.limits.alpha
  perNode : ∀ address, m.pendingTo address ≤ m.limits.maxPerNode

/-- The caps hold in every run with `alpha` one, or whose calls offer nodes that are apart. -/
theorem lookup_caps (net : Inet) (limits : LookupLimits) (hqueries : 1 ≤ limits.maxQueries)
    (nodeFilter : Node → Bool) (start : ℚ) (calls : List LookupCall) (m : LookupManager)
    (hapart : (lookupMachine net).Along (fun m call ↦ m.limits.alpha = 1 ∨ m.apartCall net call)
      (.new limits nodeFilter start) calls)
    (hrun : (lookupMachine net).run (.new limits nodeFilter start) calls = some m) :
    m.CapsHold := by
  have hnew : (new limits nodeFilter start).Capped limits :=
    { same := rfl
      queries := hqueries
      lookups := fun _ _ hget ↦ by cases hget
      pending := fun _ ↦ le_rfl
      perNode := fun _ ↦ Int.natCast_nonneg _
      once := fun _ ↦ List.nodup_nil
      budget := fun _ ↦ Nat.zero_le _
      unstarted := fun _ _ ↦ rfl }
  obtain ⟨-, -, hend⟩ := (capped_rules net limits).run (keyed_new limits nodeFilter start)
    ⟨streams_new net limits nodeFilter start, hnew⟩
    (hapart.imp fun m call h ↦ callOffer_of_apart h) hrun
  constructor
  case queries => exact fun n ↦ hend.same ▸ hend.budget n
  case distinct => exact hend.once
  case inFlight => exact fun h lookup hget ↦ (hend.lookups h lookup hget).room
  case perNode =>
    intro address
    have hcount := (hend.pending address).trans (hend.perNode address)
    rw [hend.same]
    exact_mod_cast hcount

/-- A lookup is started with two nodes of different addresses, which are both asked. -/
theorem lookup_caps_two :
    let limits : LookupLimits := { alpha := 2, maxPerNode := 1 }
    let call : LookupCall := .startLookup (List.replicate nodeIdLength 0)
      [sampleNode 1, sampleNode 2] 0 none
    ((LookupManager.new limits (fun _ ↦ true) 0).apply sampleInet call).CapsHold := by
  refine lookup_caps sampleInet { alpha := 2, maxPerNode := 1 } (by decide) (fun _ ↦ true) 0
    [.startLookup (List.replicate nodeIdLength 0) [sampleNode 1, sampleNode 2] 0 none] _
    ⟨Or.inr ?_, fun _ _ ↦ trivial⟩ (run_of_returns (by decide +kernel))
  have hapart : Apart [sampleNode 1, sampleNode 2] := by decide +kernel
  exact hapart.mono fun node hnode ↦ List.mem_of_mem_filter hnode

/-- A node of one address under two ids is asked twice by one lookup, and over its cap. -/
theorem caps_fail_for_shared_address :
    let limits : LookupLimits := { alpha := 2, maxPerNode := 1 }
    let node := sampleNode 1
    let twin : Node := { node with nodeId := List.replicate nodeIdLength 2 }
    let call : LookupCall := .startLookup (List.replicate nodeIdLength 0) [node, twin] 0 none
    let m := (LookupManager.new limits (fun _ ↦ true) 0).apply sampleInet call
    (lookupMachine sampleInet).run (.new limits (fun _ ↦ true) 0) [call] = some m ∧
      ¬ (asked m.log 0).Nodup ∧ ¬ m.pendingTo node.address ≤ m.limits.maxPerNode := by
  refine ⟨run_of_returns (by decide +kernel), by decide +kernel, by decide +kernel⟩

end LookupManager

end DhtScraper
