import DhtScraper.Lookup.Shortlist

/-!
# Why a lookup asks and why it ends

In a call some lookups get their turn: they are done, or wait for their hint, or choose nodes to ask
with `top_up`.  Every query of a call is the one to a hint or is chosen at such a turn, among the
nodes that can be asked the closest to the hash, and a lookup that a call finishes was done at its
turn or had nobody left to ask.
-/

namespace DhtScraper

open Library

/-- A lookup whose turn it is, and the manager at that moment. -/
structure LookupTurn where
  manager : LookupManager
  lookup : PeerLookup
  now : ℚ

/-- The hint that the call brings. -/
def LookupCall.hint : LookupCall → Option Node
  | .startLookup _ _ _ hint => hint
  | _ => none

namespace LookupEvent

/-- The node that the event asks. -/
def askedNode : LookupEvent → Option Node
  | .sent _ _ _ node _ => some node
  | _ => none

/-- Something is asked or finished. -/
def isAction : LookupEvent → Bool
  | .sent .. => true
  | .finished .. => true
  | _ => false

end LookupEvent

namespace LookupTurn

/-- `advance` goes on to `top_up`. -/
def chooses (turn : LookupTurn) : Prop :=
  turn.lookup.finished = false ∧ ¬ turn.manager.isDone turn.lookup turn.now ∧
    turn.lookup.hintTransaction = none

instance : DecidablePred chooses := fun turn ↦ inferInstanceAs (Decidable
  (turn.lookup.finished = false ∧ ¬ turn.manager.isDone turn.lookup turn.now ∧
    turn.lookup.hintTransaction = none))

/-- The node is known, its address was not queried and is below its cap. -/
structure CanAsk (turn : LookupTurn) (node : Node) : Prop where
  known : node ∈ turn.lookup.shortlist.values
  fresh : node.address ∉ turn.lookup.queried
  below : turn.manager.inFlightTo node.address < turn.manager.limits.maxPerNode

/-- Of the nodes that can be asked, all that are closer are among the `earlier` ones, and these leave
room in the limits. -/
structure Closest (turn : LookupTurn) (earlier : List Node) (node : Node) : Prop where
  canAsk : turn.CanAsk node
  room : turn.lookup.pending.size + earlier.length < turn.manager.limits.alpha
  budget : turn.lookup.queriesSent + earlier.length < turn.manager.limits.maxQueries
  first : ∀ other, turn.CanAsk other → other ∉ earlier →
    fromBigEndian node.nodeId ^^^ fromBigEndian turn.lookup.infoHash ≤
      fromBigEndian other.nodeId ^^^ fromBigEndian turn.lookup.infoHash

/-- After the events `past`, which end with the queries that the turn has sent already, it asks the
node. -/
def Asks (turn : LookupTurn) (past : List LookupEvent) (node : Node) : Prop :=
  ∃ queries earlier, past = turn.manager.log ++ queries ∧
    queries.map LookupEvent.askedNode = earlier.map some ∧ turn.Closest earlier node

/-- The lookup is done, or waits for nobody and has nobody left to ask. -/
def Ends (turn : LookupTurn) : Prop :=
  turn.manager.isDone turn.lookup turn.now ∨ turn.lookup.pending.size = 0 ∧
    (turn.manager.limits.maxQueries ≤ turn.lookup.queriesSent ∨
      ∀ node ∈ turn.lookup.shortlist.values, node.address ∈ turn.lookup.queried)

end LookupTurn

namespace LookupManager

/-- A reply is taken in, up to the point where the lookup goes on. -/
def answered (m : LookupManager) (net : Inet) (lookup : PeerLookup) (transactionId : Bytes)
    (response : Option BencodeValue) : LookupManager × PeerLookup :=
  let fromHint : Bool := lookup.hintTransaction = some transactionId
  let released := m.releaseTransaction lookup transactionId
  let m := { released.1 with
    hintAnswers := released.1.hintAnswers + if fromHint then 1 else 0 }
  m.takeResponse net released.2 fromHint response

/-- The turn of the loop of `tick` for the lookup of `infoHash`, if it is still there. -/
def tickTurn (now : ℚ) (m : LookupManager) (infoHash : Bytes) : List LookupTurn :=
  (m.active.get? infoHash).toList.map fun lookup ↦
    ⟨(m.expirePending lookup now).1, (m.expirePending lookup now).2, now⟩

def tickTurns (now : ℚ) (m : LookupManager) : List Bytes → List LookupTurn
  | [] => []
  | infoHash :: rest => m.tickTurn now infoHash ++ (m.tickLookup now infoHash).tickTurns now rest

/-- The moments of a call at which it calls `advance`. -/
def turns (net : Inet) (m : LookupManager) : LookupCall → List LookupTurn
  | .handleResponse transactionId response address now =>
    ((m.transactions.get? transactionId).bind fun infoHash ↦
        m.awaitedFrom transactionId infoHash address).toList.map fun lookup ↦
      ⟨(m.answered net lookup transactionId response).1,
        (m.answered net lookup transactionId response).2, now⟩
  | .handleError transactionId now =>
    ((m.transactions.get? transactionId).bind fun infoHash ↦ (m.active.get? infoHash).filter
        fun lookup ↦ lookup.pending.contains transactionId).toList.map fun lookup ↦
      ⟨(m.releaseTransaction lookup transactionId).1,
        (m.releaseTransaction lookup transactionId).2, now⟩
  | .tick now => ((m.check (0 ≤ now)).refill now).tickTurns now m.active.keys
  | _ => []

/-- The new lookup of `start_lookup`, about to choose its first nodes. -/
def openingTurn (m : LookupManager) (infoHash : Bytes) (seedNodes : List Node) (now : ℚ) :
    LookupTurn :=
  let filled := m.addToShortlist (.new m.startedTotal infoHash (now + m.limits.deadline)) seedNodes
  ⟨{ filled.1 with startedTotal := filled.1.startedTotal + 1 }.emit
    (.started filled.2.number filled.2.infoHash now), filled.2, now⟩

/-- A lookup that is started without a usable hint chooses at once. -/
def startTurns (m : LookupManager) (infoHash : Bytes) (seedNodes : List Node) (now : ℚ)
    (hint : Option Node) : List LookupTurn :=
  if (m.startLookup infoHash seedNodes now hint).2 ∧ hint.filter m.isUsableNode = none then
    [((m.check (m.active.size ≤ m.limits.maxActive)).refill now).openingTurn infoHash seedNodes now]
  else []

/-- The moments of a call at which it calls `top_up`. -/
def choices (net : Inet) (m : LookupManager) : LookupCall → List LookupTurn
  | .startLookup infoHash seedNodes now hint => m.startTurns infoHash seedNodes now hint
  | call => (m.turns net call).filter LookupTurn.chooses

/-- Why a call asks a node or finishes a lookup, after the events `past`. -/
def Reason (net : Inet) (m : LookupManager) (call : LookupCall) (past : List LookupEvent) :
    LookupEvent → Prop
  | .sent _ number _ node infoHash => call.hint = some node ∨ ∃ turn ∈ m.choices net call,
      turn.lookup.number = number ∧ turn.lookup.infoHash = infoHash ∧ turn.Asks past node
  | .finished number infoHash _ => call = .abortAll ∨ ∃ turn ∈ m.turns net call,
      turn.lookup.number = number ∧ turn.lookup.infoHash = infoHash ∧ turn.Ends
  | _ => True

/-! ## What the quiet methods keep -/

variable {net : Inet} {m m' : LookupManager} {lookup lookup' : PeerLookup}

theorem kept_checked {P : LookupEvent → Prop} (h : Kept P m lookup m' lookup') (b : Bool) :
    Kept P m lookup { m' with raised := b } lookup' := { h with }

theorem kept_addToShortlist (P : LookupEvent → Prop) (m : LookupManager) (lookup : PeerLookup)
    (nodes : List Node) :
    Kept P m lookup (m.addToShortlist lookup nodes).1 (m.addToShortlist lookup nodes).2 := by
  obtain ⟨⟨b, hmanager⟩, shortlist, hlookup⟩ := ManagerRules.addToShortlist_kept m lookup nodes
  rw [hmanager, hlookup]
  exact { Kept.refl m lookup with }

theorem log_addToShortlist (m : LookupManager) (lookup : PeerLookup) (nodes : List Node) :
    (m.addToShortlist lookup nodes).1.log = m.log := by
  obtain ⟨⟨b, hmanager⟩, -⟩ := ManagerRules.addToShortlist_kept m lookup nodes
  rw [hmanager]

theorem kept_takeNodes (P : LookupEvent → Prop) (m : LookupManager) (lookup : PeerLookup)
    (decoder : Bytes → Except Failure (List Node)) (compactNodes : Option BencodeValue) :
    Kept P m lookup (m.takeNodes lookup decoder compactNodes).1
      (m.takeNodes lookup decoder compactNodes).2 := by
  unfold takeNodes
  split
  · split
    · exact kept_addToShortlist P m lookup _
    · exact kept_checked (.refl m lookup) true
  · exact .refl m lookup

theorem kept_takeResponse (net : Inet) (m : LookupManager) (lookup : PeerLookup) (fromHint : Bool)
    (response : Option BencodeValue) : Kept (fun event ↦ event.isAction = false) m lookup
      (m.takeResponse net lookup fromHint response).1
        (m.takeResponse net lookup fromHint response).2 := by
  unfold takeResponse
  split
  · split
    next values _ =>
      have htaken : Kept (fun event ↦ event.isAction = false) m lookup
          (m.takeValues net lookup fromHint values).1
            (m.takeValues net lookup fromHint values).2 := by
        obtain ⟨hintValues, events, found, responses, hmanager, hlookup, hevents⟩ :=
          ManagerRules.takeValues_kept net m lookup fromHint values
        rw [hmanager, hlookup]
        refine ⟨rfl, rfl, rfl, rfl, rfl, rfl, rfl, rfl, events, rfl, fun event hevent ↦ ?_⟩
        obtain ⟨peers, rfl⟩ := hevents event hevent
        rfl
      exact (htaken.trans (kept_takeNodes _ _ _ _ _)).trans (kept_takeNodes _ _ _ _ _)
    · exact kept_checked (.refl m lookup) true
  · exact .refl m lookup

theorem quiet_of_isRelease {event : LookupEvent} (h : IsRelease event) : event.isAction = false := by
  obtain ⟨query, rfl⟩ := h
  rfl

theorem kept_answered (net : Inet) (m : LookupManager) (lookup : PeerLookup) (transactionId : Bytes)
    (response : Option BencodeValue) : Kept (fun event ↦ event.isAction = false) m lookup
      (m.answered net lookup transactionId response).1
        (m.answered net lookup transactionId response).2 := by
  have hreleased := (kept_releaseTransaction m lookup transactionId).mono fun _ ↦ quiet_of_isRelease
  refine Kept.trans ?_ (kept_takeResponse net _ _ _ response)
  exact { hreleased with }

theorem kept_expirePending (m : LookupManager) (lookup : PeerLookup) (now : ℚ) :
    Kept IsRelease m lookup (m.expirePending lookup now).1 (m.expirePending lookup now).2 :=
  kept_checked (kept_releaseEach (expired lookup now) m lookup) _

theorem kept_sendEach (now : ℚ) (nodes : List Node) : ∀ (m : LookupManager) (lookup : PeerLookup),
    Kept (fun _ ↦ True) m lookup (m.sendEach lookup now nodes).1
      (m.sendEach lookup now nodes).2.1 := by
  induction nodes with
  | nil => exact Kept.refl
  | cons node rest ih =>
    intro m lookup
    unfold sendEach
    split
    · exact .refl m lookup
    · refine Kept.trans ?_ (ih _ _)
      exact ⟨rfl, rfl, rfl, rfl, rfl, rfl, rfl, rfl, [_], rfl, fun _ _ ↦ trivial⟩

theorem kept_topUp (m : LookupManager) (lookup : PeerLookup) (now : ℚ) :
    Kept (fun _ ↦ True) m lookup (m.topUp lookup now).1 (m.topUp lookup now).2 := by
  unfold topUp
  dsimp only
  split
  · exact kept_checked (.refl m lookup) _
  · split
    · exact { Kept.refl m lookup with }
    · refine kept_checked (Kept.trans ?_ (kept_sendEach now _ _ _)) _
      exact { Kept.refl m lookup with }

theorem Kept.grows {P : LookupEvent → Prop} {Q : List LookupEvent → LookupEvent → Prop}
    (h : Kept P m lookup m' lookup') (hPQ : ∀ past event, P event → Q past event) :
    Grows Q m.log m'.log := by
  obtain ⟨events, hlog, hevents⟩ := h.log
  rw [hlog]
  exact .append fun event hevent past ↦ hPQ past event (hevents event hevent)

end LookupManager

/-! ## One turn -/

namespace LookupTurn

open LookupManager

variable {turn : LookupTurn}

/-- The event is a query that the turn sends after the events `past`. -/
def Sends (turn : LookupTurn) (past : List LookupEvent) (event : LookupEvent) : Prop :=
  ∃ query transactionId node,
    event = .sent query turn.lookup.number transactionId node turn.lookup.infoHash ∧
      turn.Asks past node

/-- The candidates of the turn, as it chooses them. -/
def chosen (turn : LookupTurn) : List Node :=
  selectClosestNodes (turn.lookup.shortlist.values.filter (turn.manager.isCandidate turn.lookup))
    turn.lookup.infoHash (turn.manager.freeQueries turn.lookup).toNat

theorem canAsk_iff {node : Node} : turn.CanAsk node ↔ node ∈ turn.lookup.shortlist.values.filter
    (turn.manager.isCandidate turn.lookup) := by
  rw [List.mem_filter, isCandidate, Bool.and_eq_true, decide_eq_true_eq, decide_eq_true_eq]
  exact ⟨fun h ↦ ⟨h.known, h.fresh, h.below⟩, fun h ↦ ⟨h.1, h.2.1, h.2.2⟩⟩

/-- The chosen nodes are the closest ones, in order. -/
theorem closest_of_chosen {earlier rest : List Node} {node : Node}
    (h : turn.chosen = earlier ++ node :: rest) : turn.Closest earlier node := by
  have hlength := length_selectClosestNodes_le
    (turn.lookup.shortlist.values.filter (turn.manager.isCandidate turn.lookup))
    turn.lookup.infoHash (turn.manager.freeQueries turn.lookup).toNat
  have hcount : earlier.length < (turn.manager.freeQueries turn.lookup).toNat := by
    have heq : turn.chosen.length = earlier.length + (rest.length + 1) := by
      rw [h, List.length_append, List.length_cons]
    have hle : turn.chosen.length ≤ (turn.manager.freeQueries turn.lookup).toNat := hlength
    omega
  have hroom : turn.manager.freeQueries turn.lookup ≤
      (turn.manager.limits.alpha : ℤ) - turn.lookup.pending.size := min_le_left _ _
  have hbudget : turn.manager.freeQueries turn.lookup ≤
      (turn.manager.limits.maxQueries : ℤ) - turn.lookup.queriesSent := min_le_right _ _
  have hmem : node ∈ turn.chosen := h ▸ List.mem_append_right _ List.mem_cons_self
  constructor
  case canAsk => exact canAsk_iff.mpr (mem_of_mem_selectClosestNodes hmem)
  case room => omega
  case budget => omega
  case first =>
    intro other hother hnot
    exact first_of_takeFirst (closer turn.lookup.infoHash) h (canAsk_iff.mp hother) hnot

/-- The loop of `top_up` asks the chosen nodes in order. -/
theorem grows_sendEach (turn : LookupTurn) (nodes : List Node) : ∀ (m : LookupManager)
    (lookup : PeerLookup) (queries : List LookupEvent) (earlier : List Node),
      turn.chosen = earlier ++ nodes → m.log = turn.manager.log ++ queries →
        queries.map LookupEvent.askedNode = earlier.map some →
          lookup.number = turn.lookup.number → lookup.infoHash = turn.lookup.infoHash →
            Grows turn.Sends m.log (m.sendEach lookup turn.now nodes).1.log := by
  induction nodes with
  | nil => exact fun _ _ _ _ _ _ _ _ _ ↦ .refl
  | cons node rest ih =>
    intro m lookup queries earlier hchosen hlog hasked hnumber hhash
    unfold sendEach
    split
    · exact .refl
    · let query := LookupEvent.sent m.sequence lookup.number (lookupTransactionId m.sequence) node
        lookup.infoHash
      have hsent : (m.sendTo lookup node turn.now m.limits.queryTimeout).1.log = m.log ++ [query] :=
        rfl
      have hfirst : turn.Sends m.log query := by
        refine ⟨m.sequence, lookupTransactionId m.sequence, node, ?_, queries, earlier, hlog, hasked,
          closest_of_chosen hchosen⟩
        rw [← hnumber, ← hhash]
      have hrest := ih (m.sendTo lookup node turn.now m.limits.queryTimeout).1
        (m.sendTo lookup node turn.now m.limits.queryTimeout).2.1 (queries ++ [query])
        (earlier ++ [node])
        (by rw [hchosen, List.append_assoc, List.singleton_append])
        (by rw [hsent, hlog, List.append_assoc])
        (by rw [List.map_append, List.map_append, hasked]; rfl) hnumber hhash
      rw [hsent] at hrest
      exact (Grows.emit .refl hfirst).trans hrest

theorem grows_topUp (turn : LookupTurn) : Grows turn.Sends turn.manager.log
    (turn.manager.topUp turn.lookup turn.now).1.log := by
  let ready := ((turn.manager.check (turn.lookup.finished = false)).refill turn.now).check
    (selectClosestAsserts (turn.lookup.shortlist.values.filter
      (turn.manager.isCandidate turn.lookup)) turn.lookup.infoHash)
  have hsent : Grows turn.Sends turn.manager.log
      (ready.sendEach turn.lookup turn.now turn.chosen).1.log :=
    turn.grows_sendEach turn.chosen ready turn.lookup [] [] rfl (List.append_nil _).symm rfl rfl rfl
  unfold topUp
  dsimp only
  split
  · exact .refl
  · split
    · exact .refl
    · exact hsent

/-- Sent queries stay pending while others are sent. -/
theorem pending_sendEach (now : ℚ) (nodes : List Node) : ∀ (m : LookupManager) (lookup : PeerLookup)
    (transactionId : Bytes), lookup.pending.contains transactionId →
      (m.sendEach lookup now nodes).2.1.pending.contains transactionId := by
  induction nodes with
  | nil => exact fun _ _ _ h ↦ h
  | cons node rest ih =>
    intro m lookup transactionId h
    unfold sendEach
    split
    · exact h
    · refine ih _ _ _ ?_
      have hpending : (m.sendTo lookup node now m.limits.queryTimeout).2.1.pending =
        lookup.pending.insert (lookupTransactionId m.sequence)
          ⟨node.address, now + m.limits.queryTimeout, m.sequence⟩ := rfl
      rw [hpending, OrderedMap.contains, OrderedMap.get?_insert]
      split
      · rfl
      · exact h

/-- When nothing is pending after `top_up`, it has asked nobody. -/
theorem topUp_of_idle {m : LookupManager} {lookup : PeerLookup} {now : ℚ}
    (h : (m.topUp lookup now).2.pending.size = 0) : (m.topUp lookup now).2 = lookup := by
  have hsent (m : LookupManager) (nodes : List Node)
      (hidle : (m.sendEach lookup now nodes).2.1.pending.size = 0) :
      (m.sendEach lookup now nodes).2.1 = lookup := by
    cases nodes with
    | nil => rfl
    | cons node rest =>
      unfold sendEach at hidle ⊢
      split at hidle
      next htoken => rw [if_pos htoken]
      next htoken =>
        have hkept := pending_sendEach now rest
          (m.sendTo lookup node now m.limits.queryTimeout).1
          (m.sendTo lookup node now m.limits.queryTimeout).2.1 (lookupTransactionId m.sequence)
          (OrderedMap.contains_insert_self _ _ _)
        rw [OrderedMap.contains, OrderedMap.size_eq_zero_iff.mp hidle] at hkept
        cases hkept
  unfold topUp at h ⊢
  dsimp only at h ⊢
  split
  · rfl
  next hfree =>
    rw [if_neg hfree] at h
    split
    · rfl
    next htoken =>
      rw [if_neg htoken] at h
      exact hsent _ _ h

/-- What a turn records: quiet events, the queries it chooses, or its end. -/
def Records (turn : LookupTurn) (past : List LookupEvent) (event : LookupEvent) : Prop :=
  event.isAction = false ∨ turn.chooses ∧ turn.Sends past event ∨
    ∃ peers, event = .finished turn.lookup.number turn.lookup.infoHash peers ∧ turn.Ends

theorem grows_finish (m : LookupManager) (lookup : PeerLookup) :
    Grows (fun _ event ↦ event.isAction = false ∨
      ∃ peers, event = .finished lookup.number lookup.infoHash peers) m.log (m.finish lookup).log := by
  obtain ⟨-, -, -, events, hlog, hevents⟩ := finish_eq m lookup
  rw [hlog]
  refine .emit (.append fun event hevent _ ↦ ?_) (.inr ⟨_, rfl⟩)
  exact .inl (quiet_of_isRelease (hevents event hevent))

theorem ends_of_canQueryMore (h : turn.lookup.pending.size = 0)
    (hquery : ¬ turn.manager.canQueryMore turn.lookup) : turn.Ends := by
  refine .inr ⟨h, ?_⟩
  rw [canQueryMore, Bool.and_eq_true, decide_eq_true_eq, not_and_or, not_lt] at hquery
  refine hquery.imp_right fun hnone node hnode ↦ ?_
  by_contra hfresh
  exact hnone (List.any_eq_true.mpr ⟨node, hnode, decide_eq_true hfresh⟩)

/-- `advance` asks chosen nodes, or ends the lookup for a reason. -/
theorem grows_advance (turn : LookupTurn) : Grows turn.Records turn.manager.log
    (turn.manager.advance turn.lookup turn.now).log := by
  have hfinish (h : turn.Ends) : Grows turn.Records turn.manager.log
      (turn.manager.finish turn.lookup).log :=
    (grows_finish turn.manager turn.lookup).mono fun past event hevent ↦
      hevent.imp_right fun ⟨peers, hpeers⟩ ↦ .inr ⟨peers, hpeers, h⟩
  unfold advance
  split
  · exact .refl
  next hfinished =>
    split
    next hdone => exact hfinish (.inl hdone)
    next hdone =>
      split
      next hhint =>
        have hchooses : turn.chooses := ⟨by simpa using hfinished, hdone, hhint⟩
        have htopped : Grows turn.Records turn.manager.log
            (turn.manager.topUp turn.lookup turn.now).1.log :=
          turn.grows_topUp.mono fun past event hsends ↦ .inr (.inl ⟨hchooses, hsends⟩)
        dsimp only
        split
        next hidle =>
          have hsame := topUp_of_idle hidle.1
          have hlimits := (kept_topUp turn.manager turn.lookup turn.now).limits
          have hends : turn.Ends := by
            obtain ⟨hpending, hquery⟩ := hidle
            rw [hsame] at hpending hquery
            refine ends_of_canQueryMore hpending ?_
            rwa [canQueryMore, hlimits] at hquery
          rw [hsame]
          refine htopped.trans ((grows_finish _ turn.lookup).mono fun past event hevent ↦ ?_)
          exact hevent.imp_right fun ⟨peers, hpeers⟩ ↦ .inr ⟨peers, hpeers, hends⟩
        next => exact htopped
      next => exact .refl

end LookupTurn

/-! ## The calls -/

namespace LookupManager

variable {net : Inet} {m m' : LookupManager} {lookup : PeerLookup}

theorem reason_of_quiet {call : LookupCall} {past : List LookupEvent} {event : LookupEvent}
    (h : event.isAction = false) : m.Reason net call past event := by
  cases event with
  | sent => cases h
  | finished => cases h
  | _ => exact trivial

/-- The events of a turn of the call have their reason. -/
theorem reason_of_records {call : LookupCall} {turn : LookupTurn} (hturn : turn ∈ m.turns net call)
    (hchoices : m.choices net call = (m.turns net call).filter LookupTurn.chooses)
    {past : List LookupEvent} {event : LookupEvent} (h : turn.Records past event) :
    m.Reason net call past event := by
  rcases h with hquiet | ⟨hchooses, query, transactionId, node, rfl, hasks⟩ | ⟨peers, rfl, hends⟩
  · exact reason_of_quiet hquiet
  · refine .inr ⟨turn, ?_, rfl, rfl, hasks⟩
    rw [hchoices]
    exact List.mem_filter.mpr ⟨hturn, decide_eq_true hchooses⟩
  · exact .inr ⟨turn, hturn, rfl, rfl, hends⟩

theorem grows_handleResponse (net : Inet) (m : LookupManager) (transactionId : Bytes)
    (response : Option BencodeValue) (address : Address) (now : ℚ) :
    Grows (m.Reason net (.handleResponse transactionId response address now)) m.log
      (m.handleResponse net transactionId response address now).log := by
  unfold handleResponse
  cases htransaction : m.transactions.get? transactionId with
  | none => exact .refl
  | some infoHash =>
    dsimp only
    cases hawaited : m.awaitedFrom transactionId infoHash address with
    | none => exact .refl
    | some lookup =>
      let taken := m.answered net lookup transactionId response
      have hturn : ⟨taken.1, taken.2, now⟩ ∈
          m.turns net (.handleResponse transactionId response address now) := by
        rw [turns, htransaction, Option.bind_some, hawaited]
        exact List.mem_singleton_self _
      have htaken : Grows (m.Reason net (.handleResponse transactionId response address now)) m.log
          taken.1.log :=
        (kept_answered net m lookup transactionId response).grows fun _ _ ↦ reason_of_quiet
      exact htaken.trans ((LookupTurn.grows_advance ⟨taken.1, taken.2, now⟩).mono
        fun _ _ ↦ reason_of_records hturn rfl)

theorem grows_handleError (net : Inet) (m : LookupManager) (transactionId : Bytes) (now : ℚ) :
    Grows (m.Reason net (.handleError transactionId now)) m.log
      (m.handleError transactionId now).log := by
  unfold handleError
  cases htransaction : m.transactions.get? transactionId with
  | none => exact .refl
  | some infoHash =>
    dsimp only
    cases hpending : (m.active.get? infoHash).filter
        fun lookup ↦ lookup.pending.contains transactionId with
    | none => exact .refl
    | some lookup =>
      let released := m.releaseTransaction lookup transactionId
      have hturn : ⟨released.1, released.2, now⟩ ∈ m.turns net (.handleError transactionId now) := by
        rw [turns, htransaction, Option.bind_some, hpending]
        exact List.mem_singleton_self _
      have hreleased : Grows (m.Reason net (.handleError transactionId now)) m.log released.1.log :=
        (kept_releaseTransaction m lookup transactionId).grows
          fun _ _ hrelease ↦ reason_of_quiet (quiet_of_isRelease hrelease)
      exact hreleased.trans ((LookupTurn.grows_advance ⟨released.1, released.2, now⟩).mono
        fun _ _ ↦ reason_of_records hturn rfl)

/-- The loop of `tick`: each lookup that is still there has its turn. -/
theorem grows_tickLookup (now : ℚ) (hashes : List Bytes) : ∀ m : LookupManager,
    Grows (fun past event ↦ event.isAction = false ∨
      ∃ turn ∈ m.tickTurns now hashes, turn.Records past event) m.log
        (hashes.foldl (tickLookup now) m).log := by
  induction hashes with
  | nil => exact fun _ ↦ .refl
  | cons infoHash rest ih =>
    intro m
    have hfirst : Grows (fun past event ↦ event.isAction = false ∨
        ∃ turn ∈ m.tickTurns now (infoHash :: rest), turn.Records past event) m.log
          (m.tickLookup now infoHash).log := by
      unfold tickLookup
      cases hget : m.active.get? infoHash with
      | none => exact .refl
      | some lookup =>
        let turn : LookupTurn := ⟨(m.expirePending lookup now).1, (m.expirePending lookup now).2, now⟩
        have hturn : turn ∈ m.tickTurns now (infoHash :: rest) := by
          rw [tickTurns, tickTurn, hget]
          exact List.mem_append_left _ (List.mem_singleton_self _)
        have hexpired := (kept_expirePending m lookup now).grows
          fun (_ : List LookupEvent) _ hrelease ↦ quiet_of_isRelease hrelease
        refine (hexpired.mono fun _ _ ↦ .inl).trans (turn.grows_advance.mono fun _ _ hrecords ↦ ?_)
        exact .inr ⟨turn, hturn, hrecords⟩
    refine hfirst.trans ((ih (m.tickLookup now infoHash)).mono fun _ _ hevent ↦ ?_)
    refine hevent.imp_right fun ⟨turn, hturn, hrecords⟩ ↦ ⟨turn, ?_, hrecords⟩
    exact List.mem_append_right _ hturn

theorem grows_abortAll (m : LookupManager) : Grows (m.Reason net .abortAll) m.log m.abortAll.log := by
  have hfold (hashes : List Bytes) : ∀ m' : LookupManager,
      Grows (m.Reason net .abortAll) m'.log (hashes.foldl finishLookup m').log := by
    induction hashes with
    | nil => exact fun _ ↦ .refl
    | cons infoHash rest ih =>
      intro m'
      refine Grows.trans ?_ (ih _)
      unfold finishLookup
      split
      · exact .refl
      next lookup _ =>
        refine (LookupTurn.grows_finish m' lookup).mono fun past event hevent ↦ ?_
        rcases hevent with hquiet | ⟨peers, rfl⟩
        · exact reason_of_quiet hquiet
        · exact .inl rfl
  exact hfold m.active.keys m

/-- `start_lookup` is refused without a trace in the log, or launches the lookup. -/
theorem startLookup_cases (m : LookupManager) (infoHash : Bytes) (seedNodes : List Node) (now : ℚ)
    (hint : Option Node) :
    let filled := ((m.check (m.active.size ≤ m.limits.maxActive)).refill now).addToShortlist
      (.new m.startedTotal infoHash (now + m.limits.deadline)) seedNodes
    (m.startLookup infoHash seedNodes now hint).1.log = m.log ∨
      m.startLookup infoHash seedNodes now hint =
        (filled.1.launch filled.2 (hint.filter m.isUsableNode) now, true) := by
  intro filled
  have hfilled : filled.1.log = m.log := log_addToShortlist _ _ _
  unfold startLookup
  dsimp only
  split
  · exact .inl rfl
  · split
    · exact .inl rfl
    · split
      · exact .inl rfl
      · split
        · exact .inl rfl
        · unfold openLookup
          dsimp only
          split
          · exact .inl rfl
          · split
            · exact .inl hfilled
            · exact .inr rfl

theorem grows_startLookup (net : Inet) (m : LookupManager) (infoHash : Bytes)
    (seedNodes : List Node) (now : ℚ) (hint : Option Node) :
    Grows (m.Reason net (.startLookup infoHash seedNodes now hint)) m.log
      (m.startLookup infoHash seedNodes now hint).1.log := by
  rcases m.startLookup_cases infoHash seedNodes now hint with hrefused | hlaunched
  · exact .of_eq hrefused
  · rw [hlaunched]
    let turn := ((m.check (m.active.size ≤ m.limits.maxActive)).refill now).openingTurn infoHash
      seedNodes now
    have hstarted : Grows (m.Reason net (.startLookup infoHash seedNodes now hint)) m.log
        turn.manager.log := by
      refine .emit (.of_eq ?_) trivial
      exact log_addToShortlist _ _ _
    cases husable : hint.filter m.isUsableNode with
    | some node => exact .emit hstarted (.inl (Option.filter_eq_some_iff.mp husable).1)
    | none =>
      have hturn : turn ∈ m.choices net (.startLookup infoHash seedNodes now hint) := by
        rw [choices, startTurns, hlaunched, if_pos ⟨rfl, husable⟩]
        exact List.mem_singleton_self _
      refine hstarted.trans (turn.grows_topUp.mono fun past event hsends ↦ ?_)
      obtain ⟨query, transactionId, node, rfl, hasks⟩ := hsends
      exact .inr ⟨turn, hturn, rfl, rfl, hasks⟩

/-- Each query and each finish of a call has its reason. -/
theorem grows_apply (net : Inet) (m : LookupManager) (call : LookupCall) :
    Grows (m.Reason net call) m.log (m.apply net call).log := by
  cases call with
  | startLookup infoHash seedNodes now hint =>
    exact m.grows_startLookup net infoHash seedNodes now hint
  | handleResponse transactionId response address now =>
    exact m.grows_handleResponse net transactionId response address now
  | handleError transactionId now => exact m.grows_handleError net transactionId now
  | tick now =>
    refine (grows_tickLookup now m.active.keys ((m.check (0 ≤ now)).refill now)).mono
      fun past event hevent ↦ ?_
    rcases hevent with hquiet | ⟨turn, hturn, hrecords⟩
    · exact reason_of_quiet hquiet
    · exact reason_of_records hturn rfl hrecords
  | abortAll => exact m.grows_abortAll
  | refill now => exact .refl

/-- So has each one of a run. -/
theorem grows_run (net : Inet) (calls : List LookupCall) : ∀ {m m' : LookupManager},
    (lookupMachine net).run m calls = some m' → Grows (fun past event ↦ ∃ before call after,
      (lookupMachine net).Takes m calls before call after ∧ before.log <+: past ∧
        past ++ [event] <+: after.log ∧ before.Reason net call past event) m.log m'.log := by
  induction calls with
  | nil =>
    intro m m' hrun
    exact .of_eq (congrArg LookupManager.log (Option.some.inj hrun).symm)
  | cons call rest ih =>
    intro m m' hrun
    obtain ⟨mid, hstep, hrest⟩ := (lookupMachine net).run_cons_eq_some.mp hrun
    have hmid : mid = m.apply net call := by
      simp only [lookupMachine] at hstep
      split at hstep
      · cases hstep
      · exact (Option.some.inj hstep).symm
    have hfirst := (m.grows_apply net call).within
    rw [← hmid] at hfirst
    refine Grows.trans (hfirst.mono fun past event h ↦ ?_) ((ih hrest).mono fun past event h ↦ ?_)
    · exact ⟨m, call, mid, Machine.takes_head _ rest hstep, h⟩
    · obtain ⟨before, label, after, htakes, hreason⟩ := h
      exact ⟨before, label, after, htakes.cons hstep, hreason⟩

end LookupManager

end DhtScraper
