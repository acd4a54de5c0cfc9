import DhtScraper.Lookup.Ending

/-!
# Active lookups are alive, and a tick ends the late ones

After every call an active lookup waits for an answer or can still ask somebody, and after a tick
none is past its deadline.  The small steps of a call break the first property in between, so it is
proved call by call: the small steps keep the table and the identity of the lookup, and `advance`
decides at the end.
-/

namespace DhtScraper

open Library

namespace LookupManager

variable {net : Inet} {m m' : LookupManager} {lookup lookup' : PeerLookup}

/-- The lookup waits for an answer or can ask somebody. -/
structure Alive (m : LookupManager) (lookup : PeerLookup) : Prop where
  hint : ∀ transactionId, lookup.hintTransaction = some transactionId →
    lookup.pending.contains transactionId
  busy : lookup.pending.size ≠ 0 ∨ m.canQueryMore lookup

/-- The active lookups are alive, but the one of `skip` need not be. -/
def AliveExcept (m : LookupManager) (skip : Bytes) : Prop :=
  ∀ h, h ≠ skip → ∀ lookup, m.active.get? h = some lookup → m.Alive lookup

def AllAlive (m : LookupManager) : Prop :=
  ∀ h lookup, m.active.get? h = some lookup → m.Alive lookup

theorem Alive.of_limits (h : m.Alive lookup) (hlimits : m'.limits = m.limits) : m'.Alive lookup := by
  refine ⟨h.hint, h.busy.imp_right fun hmore ↦ ?_⟩
  rw [canQueryMore, hlimits]
  exact hmore

theorem AllAlive.of_eq (h : m.AllAlive) (hactive : m'.active = m.active)
    (hlimits : m'.limits = m.limits) : m'.AllAlive := fun k lookup hlookup ↦
  (h k lookup (hactive ▸ hlookup)).of_limits hlimits

theorem AllAlive.except (h : m.AllAlive) (skip : Bytes) : m.AliveExcept skip :=
  fun k _ lookup hlookup ↦ h k lookup hlookup

theorem AliveExcept.of_eq {skip : Bytes} (h : m.AliveExcept skip) (hactive : m'.active = m.active)
    (hlimits : m'.limits = m.limits) : m'.AliveExcept skip := fun k hk lookup hlookup ↦
  (h k hk lookup (hactive ▸ hlookup)).of_limits hlimits

theorem AliveExcept.save (h : m.AliveExcept lookup.infoHash) (hlookup : m.Alive lookup) :
    (m.save lookup).AllAlive := by
  intro k other hother
  rw [get?_save] at hother
  split at hother
  · rw [← Option.some.inj hother]
    exact hlookup.of_limits rfl
  next hk => exact (h k hk other hother).of_limits rfl

/-- What the small steps keep of a lookup and its manager. -/
structure Underway (m₀ : LookupManager) (lookup₀ : PeerLookup) (m : LookupManager)
    (lookup : PeerLookup) : Prop where
  active : m.active = m₀.active
  limits : m.limits = m₀.limits
  infoHash : lookup.infoHash = lookup₀.infoHash
  deadline : lookup.deadline = lookup₀.deadline
  finished : lookup.finished = lookup₀.finished
  log : m₀.log <+: m.log
  hint : ∀ transactionId, lookup.hintTransaction = some transactionId →
    lookup.pending.contains transactionId

theorem underway_rules (net : Inet) (m₀ : LookupManager) (lookup₀ : PeerLookup) :
    StepRules net anyOffer (Underway m₀ lookup₀) where
  checked := fun _ _ _ h ↦
    ⟨h.active, h.limits, h.infoHash, h.deadline, h.finished, h.log, h.hint⟩
  counted := fun _ _ _ _ h ↦
    ⟨h.active, h.limits, h.infoHash, h.deadline, h.finished, h.log, h.hint⟩
  refilled := fun _ _ _ h ↦
    ⟨h.active, h.limits, h.infoHash, h.deadline, h.finished, h.log, h.hint⟩
  shortlisted := by
    intro m lookup nodes _ h
    obtain ⟨-, shortlist, hlookup⟩ := ManagerRules.addToShortlist_kept m lookup nodes
    rw [hlookup]
    exact ⟨h.active, h.limits, h.infoHash, h.deadline, h.finished, h.log, h.hint⟩
  sent := by
    intro m lookup node now timeout _ h
    refine ⟨h.active, h.limits, h.infoHash, h.deadline, h.finished,
      h.log.trans (List.prefix_append _ _), fun transactionId hhint ↦ ?_⟩
    have hold := h.hint transactionId hhint
    simp only [sendTo, OrderedMap.contains, OrderedMap.get?_insert] at hold ⊢
    split
    · rfl
    · exact hold
  hinted := by
    intro m lookup transactionId hpending h
    refine ⟨h.active, h.limits, h.infoHash, h.deadline, h.finished, h.log, fun t ht ↦ ?_⟩
    rw [← Option.some.inj ht]
    exact hpending
  released := by
    intro m lookup transactionId query hget h
    simp only [releaseTransaction, hget]
    refine ⟨h.active, h.limits, h.infoHash, h.deadline, h.finished,
      h.log.trans (List.prefix_append _ _), fun t ht ↦ ?_⟩
    simp only at ht ⊢
    split at ht
    · cases ht
    next hother =>
      have hne : t ≠ transactionId := fun heq ↦ hother (heq ▸ ht)
      have hold := h.hint t ht
      rw [OrderedMap.contains, OrderedMap.get?_erase, if_neg hne]
      exact hold
  found := by
    intro m lookup fromHint values h
    obtain ⟨hintValues, events, found, responses, hmanager, hlookup, -⟩ :=
      ManagerRules.takeValues_kept net m lookup fromHint values
    rw [hmanager, hlookup]
    exact ⟨h.active, h.limits, h.infoHash, h.deadline, h.finished,
      h.log.trans (List.prefix_append _ _), h.hint⟩

theorem Alive.underway (h : m.Alive lookup) : Underway m lookup m lookup :=
  ⟨rfl, rfl, rfl, rfl, rfl, List.prefix_refl _, h.hint⟩

/-! ## `advance` -/

/-- What `advance` leaves of the lookups: the others stay, and the one it works on is gone, or alive
and not past its deadline. -/
structure Advanced (m : LookupManager) (infoHash : Bytes) (deadline now : ℚ) (m' : LookupManager) :
    Prop where
  limits : m'.limits = m.limits
  others : ∀ h, h ≠ infoHash → m'.active.get? h = m.active.get? h
  self : m'.active.get? infoHash = none ∨ ∃ lookup, m'.active.get? infoHash = some lookup ∧
    m'.Alive lookup ∧ lookup.deadline = deadline ∧ now < deadline

theorem advanced_finish (m : LookupManager) (lookup : PeerLookup) (deadline now : ℚ) :
    Advanced m lookup.infoHash deadline now (m.finish lookup) := by
  obtain ⟨hactive, hlimits, -, -⟩ := finish_eq m lookup
  refine ⟨hlimits, fun h hh ↦ ?_, Or.inl ?_⟩
  · rw [hactive, OrderedMap.get?_erase, if_neg hh]
  · rw [hactive, OrderedMap.get?_erase, if_pos rfl]

theorem advanced_save (hlookup : m.Alive lookup) {now : ℚ} (hnow : now < lookup.deadline) :
    Advanced m lookup.infoHash lookup.deadline now (m.save lookup) := by
  refine ⟨rfl, fun h hh ↦ ?_, Or.inr ⟨lookup, ?_, hlookup.of_limits rfl, rfl, hnow⟩⟩
  · rw [get?_save, if_neg hh]
  · rw [get?_save, if_pos rfl]

theorem Advanced.of_underway {m₀ : LookupManager} {lookup₀ : PeerLookup} {now : ℚ}
    (h : Underway m₀ lookup₀ m lookup)
    (ha : Advanced m lookup.infoHash lookup.deadline now m') :
    Advanced m₀ lookup₀.infoHash lookup₀.deadline now m' where
  limits := ha.limits.trans h.limits
  others := fun k hk ↦ (ha.others k (h.infoHash ▸ hk)).trans (by rw [h.active])
  self := h.infoHash ▸ h.deadline ▸ ha.self

theorem advance_advanced (net : Inet) (hfinished : lookup.finished = false)
    (hhint : ∀ transactionId, lookup.hintTransaction = some transactionId →
      lookup.pending.contains transactionId) (now : ℚ) :
    Advanced m lookup.infoHash lookup.deadline now (m.advance lookup now) := by
  have hstart : Underway m lookup m lookup := ⟨rfl, rfl, rfl, rfl, rfl, List.prefix_refl _, hhint⟩
  have hrules := underway_rules net m lookup
  unfold advance
  rw [if_neg (by simp [hfinished])]
  by_cases hdone : m.isDone lookup now
  · rw [if_pos hdone]
    exact advanced_finish m lookup _ now
  rw [if_neg hdone]
  have hnow : now < lookup.deadline := not_le.mp fun hle ↦ hdone (Or.inl hle)
  by_cases hfree : lookup.hintTransaction = none
  · rw [if_pos hfree]
    have htopped := hrules.topUp hstart now
    dsimp only
    split
    · exact (advanced_finish _ _ _ now).of_underway htopped
    next hbusy =>
      have hchecked := hrules.check htopped (m.active.contains lookup.infoHash)
      refine Advanced.of_underway hchecked (advanced_save ⟨htopped.hint, ?_⟩ ?_)
      · by_contra hidle
        refine hbusy ⟨?_, fun hmore ↦ hidle (Or.inr hmore)⟩
        exact not_not.mp fun hsize ↦ hidle (Or.inl hsize)
      · rw [htopped.deadline]
        exact hnow
  · rw [if_neg hfree]
    obtain ⟨transactionId, hsome⟩ := Option.ne_none_iff_exists'.mp hfree
    have hchecked := hrules.check hstart (m.active.contains lookup.infoHash)
    have hpending := OrderedMap.size_ne_zero_of_contains (hhint transactionId hsome)
    exact Advanced.of_underway hchecked (advanced_save ⟨hhint, Or.inl hpending⟩ hnow)

theorem Underway.advance {m₀ : LookupManager} {lookup₀ : PeerLookup} (h : Underway m₀ lookup₀ m lookup)
    (net : Inet) (hfinished : lookup₀.finished = false) (now : ℚ) :
    Advanced m₀ lookup₀.infoHash lookup₀.deadline now (m.advance lookup now) :=
  (advance_advanced net (h.finished.trans hfinished) h.hint now).of_underway h

theorem Advanced.allAlive {infoHash : Bytes} {deadline now : ℚ}
    (ha : Advanced m infoHash deadline now m') (h : m.AliveExcept infoHash) : m'.AllAlive := by
  intro k other hother
  by_cases hk : k = infoHash
  · rw [hk] at hother
    rcases ha.self with hnone | ⟨lookup, hlookup, halive, -⟩
    · rw [hnone] at hother
      cases hother
    · rw [hlookup, Option.some.injEq] at hother
      exact hother ▸ halive
  · rw [ha.others k hk] at hother
    exact (h k hk other hother).of_limits ha.limits

/-! ## The calls -/

/-- The table stays keyed, whatever else a call does. -/
theorem keyed_rules (net : Inet) : ManagerRules net anyOffer fun _ ↦ True where
  step := ⟨fun _ _ _ _ ↦ trivial, fun _ _ _ _ _ ↦ trivial, fun _ _ _ _ ↦ trivial,
    fun _ _ _ _ _ ↦ trivial, fun _ _ _ _ _ _ _ ↦ trivial, fun _ _ _ _ _ ↦ trivial,
    fun _ _ _ _ _ _ ↦ trivial, fun _ _ _ _ _ ↦ trivial⟩
  checked := fun _ _ _ ↦ trivial
  refilled := fun _ _ _ ↦ trivial
  forgot := fun _ _ _ _ _ _ ↦ trivial
  started := fun _ _ _ _ _ _ _ _ ↦ trivial
  closed := fun _ _ _ _ ↦ trivial

theorem tickLookup_advanced (net : Inet) (hm : m.Keyed) (h : m.AllAlive) (now : ℚ) {infoHash : Bytes}
    (hget : m.active.get? infoHash = some lookup) :
    Advanced m infoHash lookup.deadline now (m.tickLookup now infoHash) := by
  obtain ⟨hkey, hfinished, -⟩ := hm infoHash lookup hget
  have hexpired := (underway_rules net m lookup).expirePending (h infoHash lookup hget).underway now
  simp only [tickLookup, hget]
  exact hkey ▸ hexpired.advance net hfinished now

theorem handleError_allAlive (net : Inet) (hm : m.Keyed) (h : m.AllAlive) (transactionId : Bytes)
    (now : ℚ) : (m.handleError transactionId now).AllAlive := by
  unfold handleError
  cases hget : m.transactions.get? transactionId with
  | none => exact h.of_eq rfl rfl
  | some infoHash =>
    dsimp only
    cases hpending : (m.active.get? infoHash).filter
        fun lookup ↦ lookup.pending.contains transactionId with
    | none => exact h.of_eq rfl rfl
    | some lookup =>
      have hactive := (Option.filter_eq_some_iff.mp hpending).1
      obtain ⟨-, hfinished, -⟩ := hm infoHash lookup hactive
      have hreleased := (underway_rules net m lookup).releaseTransaction
        (h infoHash lookup hactive).underway transactionId
      have hnext := (hreleased.advance net hfinished now).allAlive (h.except _)
      exact hnext.of_eq rfl rfl

theorem handleResponse_allAlive (net : Inet) (hm : m.Keyed) (h : m.AllAlive) (transactionId : Bytes)
    (response : Option BencodeValue) (address : Address) (now : ℚ) :
    (m.handleResponse net transactionId response address now).AllAlive := by
  unfold handleResponse
  cases hget : m.transactions.get? transactionId with
  | none => exact h.of_eq rfl rfl
  | some infoHash =>
    dsimp only
    cases hawaited : m.awaitedFrom transactionId infoHash address with
    | none => exact h
    | some lookup =>
      have hactive := (Option.filter_eq_some_iff.mp hawaited).1
      obtain ⟨-, hfinished, -⟩ := hm infoHash lookup hactive
      have hrules := underway_rules net m lookup
      have hreleased := hrules.releaseTransaction (h infoHash lookup hactive).underway transactionId
      have hcounted := hrules.counted _ _ (m.releaseTransaction lookup transactionId).1.hintQueries
        ((m.releaseTransaction lookup transactionId).1.hintAnswers +
          if decide (lookup.hintTransaction = some transactionId) then 1 else 0) hreleased
      have htaken := hrules.takeResponse hcounted
        (callOffer_any net m (.handleResponse transactionId response address now) infoHash lookup
          hget hawaited)
      have hnext := (htaken.advance net hfinished now).allAlive (h.except _)
      exact hnext.of_eq rfl rfl

/-- The loop of `tick` keeps the lookups alive; those it has visited are not past their deadline. -/
theorem foldl_tickLookup (net : Inet) (now : ℚ) (hashes : List Bytes) : ∀ {m : LookupManager},
    m.Keyed → m.AllAlive →
      (hashes.foldl (tickLookup now) m).AllAlive ∧ ∀ h lookup,
        (hashes.foldl (tickLookup now) m).active.get? h = some lookup →
          now < lookup.deadline ∨ h ∉ hashes ∧ m.active.get? h = some lookup := by
  induction hashes with
  | nil => exact fun _ h ↦ ⟨h, fun k lookup hlookup ↦ Or.inr ⟨List.not_mem_nil, hlookup⟩⟩
  | cons infoHash rest ih =>
    intro m hm h
    have hkeyed := ((keyed_rules net).tickLookup hm trivial now infoHash).1
    have hstep : (m.tickLookup now infoHash).AllAlive ∧ ∀ k lookup,
        (m.tickLookup now infoHash).active.get? k = some lookup →
          now < lookup.deadline ∨ k ≠ infoHash ∧ m.active.get? k = some lookup := by
      cases hget : m.active.get? infoHash with
      | none =>
        simp only [tickLookup, hget]
        refine ⟨h, fun k lookup hlookup ↦ Or.inr ⟨fun hk ↦ ?_, hlookup⟩⟩
        rw [hk, hget] at hlookup
        cases hlookup
      | some current =>
        have hadvanced := tickLookup_advanced net hm h now hget
        refine ⟨hadvanced.allAlive (h.except _), fun k lookup hlookup ↦ ?_⟩
        by_cases hk : k = infoHash
        · rw [hk] at hlookup
          rcases hadvanced.self with hnone | ⟨after, hafter, -, hdeadline, hnow⟩
          · rw [hnone] at hlookup
            cases hlookup
          · rw [hafter, Option.some.injEq] at hlookup
            exact Or.inl (by rw [← hlookup, hdeadline]; exact hnow)
        · rw [hadvanced.others k hk] at hlookup
          exact Or.inr ⟨hk, hlookup⟩
    obtain ⟨halive, hlate⟩ := ih hkeyed hstep.1
    refine ⟨halive, fun k lookup hlookup ↦ ?_⟩
    rcases hlate k lookup hlookup with hnow | ⟨hrest, hmid⟩
    · exact Or.inl hnow
    · rcases hstep.2 k lookup hmid with hnow | ⟨hk, hbefore⟩
      · exact Or.inl hnow
      · exact Or.inr ⟨fun hmem ↦ (List.mem_cons.mp hmem).elim hk hrest, hbefore⟩

/-- After a tick no active lookup is past its deadline. -/
theorem deadline_of_tick (net : Inet) (hm : m.Keyed) (h : m.AllAlive) {now : ℚ} {infoHash : Bytes}
    (hget : (m.tick now).active.get? infoHash = some lookup) : now < lookup.deadline := by
  have hkeyed : ((m.check (0 ≤ now)).refill now).Keyed := hm
  have halive : ((m.check (0 ≤ now)).refill now).AllAlive := h.of_eq rfl rfl
  rcases (foldl_tickLookup net now m.active.keys hkeyed halive).2 infoHash lookup hget with
    hnow | ⟨habsent, hbefore⟩
  · exact hnow
  · have hnone : m.active.get? infoHash = none := OrderedMap.get?_eq_none_iff.mpr habsent
    have hsome : m.active.get? infoHash = some lookup := hbefore
    rw [hnone] at hsome
    cases hsome

/-! ## Starting a lookup -/

/-- The queries of a batch stay pending while it is sent. -/
theorem pending_sendEach (now : ℚ) (nodes : List Node) : ∀ (m : LookupManager) (lookup : PeerLookup),
    lookup.pending.size ≠ 0 → (m.sendEach lookup now nodes).2.1.pending.size ≠ 0 := by
  induction nodes with
  | nil => exact fun _ _ h ↦ h
  | cons node rest ih =>
    intro m lookup h
    unfold sendEach
    split
    · exact h
    · exact ih _ _ (OrderedMap.size_ne_zero_of_contains (OrderedMap.contains_insert_self _ _ _))

/-- `top_up` leaves the lookup as it is, or a query pending. -/
theorem topUp_idle_or_pending (m : LookupManager) (lookup : PeerLookup) (now : ℚ) :
    (m.topUp lookup now).2 = lookup ∨ (m.topUp lookup now).2.pending.size ≠ 0 := by
  have hsend (m : LookupManager) (nodes : List Node) :
      (m.sendEach lookup now nodes).2.1 = lookup ∨
        (m.sendEach lookup now nodes).2.1.pending.size ≠ 0 := by
    cases nodes with
    | nil => exact Or.inl rfl
    | cons node rest =>
      unfold sendEach
      split
      · exact Or.inl rfl
      · exact Or.inr (pending_sendEach now rest _ _
          (OrderedMap.size_ne_zero_of_contains (OrderedMap.contains_insert_self _ _ _)))
  unfold topUp
  dsimp only
  split
  · exact Or.inl rfl
  · split
    · exact Or.inl rfl
    · exact hsend _ _

/-- A lookup that has a node and has asked nobody can ask. -/
theorem canQueryMore_of_fresh (hsent : lookup.queriesSent = 0) (hqueried : lookup.queried = ∅)
    (hqueries : 1 ≤ m.limits.maxQueries) (hshortlist : lookup.shortlist.size ≠ 0) :
    m.canQueryMore lookup := by
  obtain ⟨item, hitem⟩ := List.exists_mem_of_ne_nil lookup.shortlist.items
    fun hnil ↦ hshortlist (by rw [OrderedMap.size, hnil]; rfl)
  have hany : lookup.shortlist.values.any fun node ↦ node.address ∉ lookup.queried := by
    rw [List.any_eq_true]
    refine ⟨item.2, List.mem_map_of_mem hitem, ?_⟩
    rw [hqueried]
    exact decide_eq_true (Finset.notMem_empty _)
  rw [canQueryMore, hany, hsent, Bool.and_true, decide_eq_true_eq]
  exact hqueries

theorem launch_allAlive (net : Inet) (h : m.AllAlive) (hsent : lookup.queriesSent = 0)
    (hqueried : lookup.queried = ∅) (hhint : lookup.hintTransaction = none)
    (hqueries : 1 ≤ m.limits.maxQueries) {hint : Option Node}
    (hshortlist : ¬ (hint = none ∧ lookup.shortlist.size = 0)) (now : ℚ) :
    (m.launch lookup hint now).AllAlive := by
  let opened := { m with startedTotal := m.startedTotal + 1 }.emit
    (.started lookup.number lookup.infoHash now)
  have hexcept : opened.AliveExcept lookup.infoHash := (h.except _).of_eq rfl rfl
  unfold launch
  cases hint with
  | some node =>
    refine AliveExcept.save (hexcept.of_eq rfl rfl) ⟨fun transactionId hpending ↦ ?_, Or.inl ?_⟩
    · rw [← Option.some.inj hpending]
      exact OrderedMap.contains_insert_self _ _ _
    · exact OrderedMap.size_ne_zero_of_contains (OrderedMap.contains_insert_self _ _ _)
  | none =>
    have hstart : Underway opened lookup opened lookup := by
      refine ⟨rfl, rfl, rfl, rfl, rfl, List.prefix_refl _, fun transactionId hpending ↦ ?_⟩
      rw [hhint] at hpending
      cases hpending
    have htopped := (underway_rules net opened lookup).topUp hstart now
    have hkey := htopped.infoHash
    refine AliveExcept.save (hkey.symm ▸ hexcept.of_eq htopped.active htopped.limits)
      ⟨htopped.hint, ?_⟩
    rcases topUp_idle_or_pending opened lookup now with hidle | hpending
    · rw [hidle]
      refine Or.inr (canQueryMore_of_fresh hsent hqueried ?_ fun hsize ↦ hshortlist ⟨rfl, hsize⟩)
      rw [htopped.limits]
      exact hqueries
    · exact Or.inl hpending

theorem addToShortlist_same (m : LookupManager) (lookup : PeerLookup) (nodes : List Node) :
    (m.addToShortlist lookup nodes).1.active = m.active ∧
      (m.addToShortlist lookup nodes).1.limits = m.limits := by
  obtain ⟨⟨b, hmanager⟩, -⟩ := ManagerRules.addToShortlist_kept m lookup nodes
  rw [hmanager]
  exact ⟨rfl, rfl⟩

theorem startLookup_allAlive (net : Inet) (h : m.AllAlive) (hqueries : 1 ≤ m.limits.maxQueries)
    (infoHash : Bytes) (seedNodes : List Node) (now : ℚ) (hint : Option Node) :
    (m.startLookup infoHash seedNodes now hint).1.AllAlive := by
  unfold startLookup
  split
  · exact h.of_eq rfl rfl
  dsimp only
  split
  · exact h
  split
  · exact h.of_eq rfl rfl
  split
  · exact h.of_eq rfl rfl
  unfold openLookup
  dsimp only
  split
  · exact h.of_eq rfl rfl
  have hlimits (lookup : PeerLookup) :
      (((m.check (m.active.size ≤ m.limits.maxActive)).refill now).addToShortlist lookup
        seedNodes).1.limits = m.limits := (addToShortlist_same _ _ _).2
  have hfilled (lookup : PeerLookup) :
      (((m.check (m.active.size ≤ m.limits.maxActive)).refill now).addToShortlist lookup
        seedNodes).1.AllAlive := h.of_eq (addToShortlist_same _ _ _).1 (hlimits lookup)
  split
  · exact hfilled _
  next hshortlist =>
    obtain ⟨-, shortlist, hlookup⟩ := ManagerRules.addToShortlist_kept
      ((m.check (m.active.size ≤ m.limits.maxActive)).refill now)
      (.new m.startedTotal infoHash (now + m.limits.deadline)) seedNodes
    refine launch_allAlive net (hfilled _) ?_ ?_ ?_ ?_ hshortlist now
    · exact congrArg PeerLookup.queriesSent hlookup
    · exact congrArg PeerLookup.queried hlookup
    · exact congrArg PeerLookup.hintTransaction hlookup
    · rw [hlimits]
      exact hqueries

theorem apply_allAlive (net : Inet) (hm : m.Keyed) (h : m.AllAlive)
    (hqueries : 1 ≤ m.limits.maxQueries) (call : LookupCall) : (m.apply net call).AllAlive := by
  cases call with
  | startLookup infoHash seedNodes now hint =>
    exact startLookup_allAlive net h hqueries infoHash seedNodes now hint
  | handleResponse transactionId response address now =>
    exact handleResponse_allAlive net hm h transactionId response address now
  | handleError transactionId now => exact handleError_allAlive net hm h transactionId now
  | tick now =>
    have hkeyed : ((m.check (0 ≤ now)).refill now).Keyed := hm
    exact ((foldl_tickLookup net now m.active.keys hkeyed (h.of_eq rfl rfl)).1).of_eq rfl rfl
  | abortAll =>
    intro k lookup hlookup
    rw [show (m.apply net .abortAll).active.get? k = none from get?_abortAll hm k] at hlookup
    cases hlookup
  | refill now => exact h.of_eq rfl rfl

/-! ## The result of a lookup -/

/-- A lookup that is not refused is in the log. -/
theorem started_of_startLookup (net : Inet) {infoHash : Bytes} {seedNodes : List Node} {now : ℚ}
    {hint : Option Node} (h : (m.startLookup infoHash seedNodes now hint).2 = true) :
    LookupEvent.started m.startedTotal infoHash now ∈
      (m.startLookup infoHash seedNodes now hint).1.log := by
  unfold startLookup at h ⊢
  split at h
  · cases h
  next hvalid =>
  rw [if_neg hvalid]
  dsimp only at h ⊢
  split at h
  · cases h
  next habsent =>
  rw [if_neg habsent]
  split at h
  · cases h
  next hslots =>
  rw [if_neg hslots]
  split at h
  · cases h
  next htoken =>
  rw [if_neg htoken]
  let ready := (m.check (m.active.size ≤ m.limits.maxActive)).refill now
  change (ready.openLookup infoHash seedNodes now hint).2 = true at h
  change _ ∈ (ready.openLookup infoHash seedNodes now hint).1.log
  unfold openLookup at h ⊢
  dsimp only at h ⊢
  split at h
  · cases h
  next hcap =>
  rw [if_neg hcap]
  split at h
  · cases h
  next hshortlist =>
  rw [if_neg hshortlist]
  obtain ⟨-, shortlist, hlookup⟩ := ManagerRules.addToShortlist_kept ready
    (.new ready.startedTotal infoHash (now + ready.limits.deadline)) seedNodes
  let filled := ready.addToShortlist (.new ready.startedTotal infoHash (now + ready.limits.deadline))
    seedNodes
  let opened := { filled.1 with startedTotal := filled.1.startedTotal + 1 }.emit
    (.started filled.2.number filled.2.infoHash now)
  have hopened : LookupEvent.started m.startedTotal infoHash now ∈ opened.log := by
    have hnumber : filled.2.number = m.startedTotal := congrArg PeerLookup.number hlookup
    have hkey : filled.2.infoHash = infoHash := congrArg PeerLookup.infoHash hlookup
    refine List.mem_append_right _ (List.mem_singleton.mpr ?_)
    rw [hnumber, hkey]
  cases hnode : hint.filter ready.isUsableNode with
  | some node => exact List.mem_append_left _ hopened
  | none =>
    have hhint : filled.2.hintTransaction = none := congrArg PeerLookup.hintTransaction hlookup
    have hstart : Underway opened filled.2 opened filled.2 := by
      refine ⟨rfl, rfl, rfl, rfl, rfl, List.prefix_refl _, fun transactionId hpending ↦ ?_⟩
      rw [hhint] at hpending
      cases hpending
    exact ((underway_rules net opened filled.2).topUp hstart now).log.subset hopened

end LookupManager

/-- The call ends the lookups with this deadline. -/
def LookupCall.endsBy (deadline : ℚ) : LookupCall → Prop
  | .abortAll => True
  | .tick now => deadline ≤ now
  | _ => False

namespace LookupManager

variable {net : Inet} {m m' : LookupManager}

/-- What runs keep. -/
structure Ongoing (net : Inet) (m : LookupManager) : Prop where
  keyed : m.Keyed
  streams : m.Streams net
  alive : m.AllAlive
  recorded : Recorded m m
  queries : 1 ≤ m.limits.maxQueries

theorem Recorded.here {m₀ : LookupManager} (h : Recorded m₀ m) : Recorded m m :=
  { h with limits := rfl, grown := List.prefix_refl _ }

theorem Ongoing.apply (h : m.Ongoing net) (call : LookupCall) :
    (m.apply net call).Ongoing net ∧ Recorded m (m.apply net call) := by
  obtain ⟨hkeyed, hstreams⟩ :=
    (streams_rules net).apply h.keyed h.streams call (callOffer_any net m call)
  have hrecorded :=
    ((recorded_rules net m).apply h.keyed h.recorded call (callOffer_any net m call)).2
  refine ⟨⟨hkeyed, hstreams, apply_allAlive net h.keyed h.alive h.queries call, hrecorded.here, ?_⟩,
    hrecorded⟩
  rw [hrecorded.limits]
  exact h.queries

theorem Ongoing.run (h : m.Ongoing net) {calls : List LookupCall}
    (hrun : (lookupMachine net).run m calls = some m') : m'.Ongoing net ∧ Recorded m m' := by
  refine (lookupMachine net).run_invariant (I := fun m' ↦ m'.Ongoing net ∧ Recorded m m') ?_
    ⟨h, h.recorded⟩ hrun
  intro mid call next ⟨hmid, hsince⟩ hstep
  simp only [lookupMachine] at hstep
  split at hstep
  · cases hstep
  · rw [← Option.some.inj hstep]
    refine ⟨(hmid.apply call).1, ?_⟩
    exact ((recorded_rules net m).apply hmid.keyed hsince call (callOffer_any net mid call)).2

theorem ongoing_new (net : Inet) {limits : LookupLimits} (hqueries : 1 ≤ limits.maxQueries)
    (nodeFilter : Node → Bool) (start : ℚ) : (new limits nodeFilter start).Ongoing net where
  keyed := keyed_new limits nodeFilter start
  streams := streams_new net limits nodeFilter start
  alive := fun _ _ hget ↦ by cases hget
  recorded :=
    { limits := rfl
      grown := List.prefix_refl _
      active := fun _ _ hget ↦ by cases hget
      found := fun _ _ _ hmem ↦ absurd hmem List.not_mem_nil
      finished := fun _ _ _ hmem ↦ absurd hmem List.not_mem_nil
      numbered := fun _ _ _ hmem ↦ absurd hmem List.not_mem_nil
      unique := fun _ _ _ _ _ hmem ↦ absurd hmem List.not_mem_nil }
  queries := hqueries

/-- A lookup has no result while it is active, and afterwards the sorted list of what it streamed. -/
theorem Streams.result (h : m.Streams net) (n : ℕ) :
    results m.log n = [] ∨ results m.log n = [sortedAddresses (batches m.log n).flatten] := by
  by_cases hstarted : n < m.startedTotal
  · by_cases hactive : ∃ k lookup, m.active.get? k = some lookup ∧ lookup.number = n
    · obtain ⟨k, lookup, hget, rfl⟩ := hactive
      exact Or.inl (h.running k lookup hget)
    · exact Or.inr (h.ended n hstarted fun k lookup hget hn ↦ hactive ⟨k, lookup, hget, hn⟩)
  · exact Or.inl (h.unstarted n (not_lt.mp hstarted)).2

/-- A call at or after the deadline leaves the lookup with its result. -/
theorem Ongoing.ended (h : m.Ongoing net) {n : ℕ} {infoHash : Bytes} {now : ℚ}
    (hstarted : LookupEvent.started n infoHash now ∈ m.log) {call : LookupCall}
    (hcall : call.endsBy (now + m.limits.deadline)) : results (m.apply net call).log n ≠ [] := by
  obtain ⟨hnext, hrecorded⟩ := h.apply call
  obtain ⟨hn, hdeadlines⟩ := hnext.streams.started n infoHash now (hrecorded.grown.subset hstarted)
  have hgone : ∀ k lookup, (m.apply net call).active.get? k = some lookup → lookup.number ≠ n := by
    intro k lookup hget hnumber
    cases call with
    | abortAll =>
      rw [show (m.apply net .abortAll).active.get? k = none from get?_abortAll h.keyed k] at hget
      cases hget
    | tick time =>
      have hlate := deadline_of_tick net h.keyed h.alive hget
      rw [hdeadlines k lookup hget hnumber, hrecorded.limits] at hlate
      exact absurd hcall (not_le.mpr hlate)
    | _ => cases hcall
  rw [hnext.streams.ended n hn hgone]
  exact List.cons_ne_nil _ _

/-- In every run a lookup gets at most one result, and one by the first `abort_all` or the first
tick at or after its deadline; active lookups wait for an answer or can ask somebody; and what a
lookup streams is new, routable, bounded and, sorted, its result. -/
theorem lookups_end_once (net : Inet) (limits : LookupLimits) (hqueries : 1 ≤ limits.maxQueries)
    (nodeFilter : Node → Bool) (start : ℚ) (calls : List LookupCall) (m : LookupManager)
    (hrun : (lookupMachine net).run (.new limits nodeFilter start) calls = some m) :
    (∀ h lookup, m.active.get? h = some lookup →
        lookup.pending.size ≠ 0 ∨ m.canQueryMore lookup) ∧
      (∀ n, (∀ batch ∈ batches m.log n, batch.Nodup) ∧
        (batches m.log n).Pairwise List.Disjoint ∧
        (∀ batch ∈ batches m.log n, ∀ peer ∈ batch, isRoutableAddress net peer) ∧
        (batches m.log n).flatten.length ≤ limits.maxPeers ∧
        ∀ peers ∈ results m.log n, peers = sortedAddresses (batches m.log n).flatten) ∧
      ∀ infoHash seedNodes now hint after m',
        (m.startLookup infoHash seedNodes now hint).2 = true →
          (lookupMachine net).run m (.startLookup infoHash seedNodes now hint :: after) = some m' →
            results m.log m.startedTotal = [] ∧
              (results m'.log m.startedTotal).length ≤ 1 ∧
              ((∃ call ∈ after, call.endsBy (now + limits.deadline)) →
                (results m'.log m.startedTotal).length = 1) ∧
              ∀ h peers, LookupEvent.foundPeers m.startedTotal h peers ∈ m'.log ∨
                LookupEvent.finished m.startedTotal h peers ∈ m'.log → h = infoHash := by
  obtain ⟨hm, hsince⟩ := (ongoing_new net hqueries nodeFilter start).run hrun
  have hlimits : m.limits = limits := hsince.limits
  refine ⟨fun h lookup hget ↦ (hm.alive h lookup hget).busy, fun n ↦ ?_, ?_⟩
  · have hnodup := List.nodup_flatten.mp (hm.streams.nodup n)
    refine ⟨hnodup.1, hnodup.2, fun batch hbatch peer hpeer ↦ hm.streams.routable n peer
      (List.mem_flatten.mpr ⟨batch, hbatch, hpeer⟩), hlimits ▸ hm.streams.bounded n, ?_⟩
    intro peers hpeers
    rcases hm.streams.result n with hnone | hone
    · rw [hnone] at hpeers
      cases hpeers
    · rw [hone] at hpeers
      exact List.mem_singleton.mp hpeers
  · intro infoHash seedNodes now hint after m' hstarted hlater
    obtain ⟨opened, hopened, hafter⟩ := (lookupMachine net).run_cons_eq_some.mp hlater
    have heq : opened = m.apply net (.startLookup infoHash seedNodes now hint) := by
      simp only [lookupMachine] at hopened
      split at hopened
      · cases hopened
      · exact (Option.some.inj hopened).symm
    obtain ⟨hongoing, hrecorded⟩ := hm.apply (.startLookup infoHash seedNodes now hint)
    rw [← heq] at hongoing hrecorded
    obtain ⟨hend, hgrown⟩ := hongoing.run hafter
    have hevent : LookupEvent.started m.startedTotal infoHash now ∈ opened.log := by
      rw [heq]
      exact started_of_startLookup net hstarted
    have hmost : (results m'.log m.startedTotal).length ≤ 1 := by
      rcases hend.streams.result m.startedTotal with hnone | hone
      · rw [hnone]
        exact Nat.zero_le _
      · rw [hone]
        exact le_rfl
    refine ⟨(hm.streams.unstarted _ le_rfl).2, hmost, ?_, ?_⟩
    · rintro ⟨call, hcall, hends⟩
      -- the run is cut at the call that ends the lookup
      obtain ⟨front, rest, rfl⟩ := List.append_of_mem hcall
      rw [Machine.run_append, Option.bind_eq_some_iff] at hafter
      obtain ⟨mid, hfront, hback⟩ := hafter
      obtain ⟨next, hnext, hrest⟩ := (lookupMachine net).run_cons_eq_some.mp hback
      obtain ⟨hmid, hfirst⟩ := hongoing.run hfront
      have hdeadline : mid.limits.deadline = limits.deadline := by
        rw [hfirst.limits, hrecorded.limits, hlimits]
      have hresult := hmid.ended (hfirst.grown.subset hevent) (hdeadline ▸ hends)
      simp only [lookupMachine] at hnext
      split at hnext
      · cases hnext
      rw [← Option.some.inj hnext] at hrest
      have hprefix := (((hmid.apply call).1.run hrest).2.grown).filterMap
        (LookupEvent.resultOf m.startedTotal)
      have hlength := hprefix.length_le
      have hpositive := List.length_pos_iff.mpr hresult
      exact le_antisymm hmost (le_trans hpositive hlength)
    · intro h peers hmem
      obtain ⟨time, hother⟩ := hmem.elim (hend.recorded.found _ h peers)
        (hend.recorded.finished _ h peers)
      exact hend.recorded.unique _ h infoHash time now hother (hgrown.grown.subset hevent)

/-- A lookup is started and ended by a tick at its deadline. -/
theorem lookups_end_once_late :
    let ended := (sampleManager.apply sampleInet sampleStart).apply sampleInet (.tick 6)
    (results ended.log 0).length = 1 := by
  have hstart := (lookups_end_once sampleInet defaultLookupLimits (by decide) (fun _ ↦ true) 0 []
    sampleManager rfl).2.2
  have hlookup := hstart (List.replicate nodeIdLength 0) [sampleNode 1] 0 none [.tick 6] _
    (by decide +kernel) (run_of_returns (by decide +kernel))
  have hlate : (0 : ℚ) + defaultLookupLimits.deadline ≤ 6 := by decide +kernel
  exact hlookup.2.2.1 ⟨.tick 6, List.mem_singleton.mpr rfl, hlate⟩

end LookupManager

end DhtScraper
