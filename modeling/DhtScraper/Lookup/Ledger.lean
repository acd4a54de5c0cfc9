import DhtScraper.Lookup.Liveness

/-!
# The table of lookups and the log

A hash enters the table of active lookups when a lookup of it starts, and leaves it when the end of
that lookup is reported.
-/

namespace DhtScraper

open Library

namespace LookupEvent

/-- The hash of a lookup that starts. -/
def startedHash : LookupEvent → Option Bytes
  | .started _ infoHash _ => some infoHash
  | _ => none

/-- The hash of a lookup whose end is reported. -/
def finishedHash : LookupEvent → Option Bytes
  | .finished _ infoHash _ => some infoHash
  | _ => none

end LookupEvent

def startedHashes (events : List LookupEvent) : List Bytes :=
  events.filterMap LookupEvent.startedHash

def finishedHashes (events : List LookupEvent) : List Bytes :=
  events.filterMap LookupEvent.finishedHash

theorem startedHashes_append (events more : List LookupEvent) :
    startedHashes (events ++ more) = startedHashes events ++ startedHashes more :=
  List.filterMap_append

theorem finishedHashes_append (events more : List LookupEvent) :
    finishedHashes (events ++ more) = finishedHashes events ++ finishedHashes more :=
  List.filterMap_append

/-- Events that neither start nor end a lookup. -/
def Unrelated (events : List LookupEvent) : Prop :=
  ∀ event ∈ events, event.startedHash = none ∧ event.finishedHash = none

theorem Unrelated.startedHashes {events : List LookupEvent} (h : Unrelated events) :
    startedHashes events = [] :=
  List.filterMap_eq_nil_iff.mpr fun event hevent ↦ (h event hevent).1

theorem Unrelated.finishedHashes {events : List LookupEvent} (h : Unrelated events) :
    finishedHashes events = [] :=
  List.filterMap_eq_nil_iff.mpr fun event hevent ↦ (h event hevent).2

namespace LookupManager

variable {net : Inet} {m₀ m m' : LookupManager} {lookup lookup' : PeerLookup}

/-- What happened since `m₀`: the hashes that were there or came are the ones that left or are still
there, and every start was counted. -/
def Ledger (m₀ m : LookupManager) : Prop :=
  ∃ events, m.log = m₀.log ++ events ∧
    (finishedHashes events ++ m.active.keys).Perm (m₀.active.keys ++ startedHashes events) ∧
      m.startedTotal = m₀.startedTotal + (startedHashes events).length

theorem Ledger.refl (m : LookupManager) : Ledger m m :=
  ⟨[], (List.append_nil _).symm, by simp [startedHashes, finishedHashes], rfl⟩

/-- Steps that add unrelated events. -/
theorem Ledger.quiet (h : Ledger m₀ m) (hkeys : m'.active.keys = m.active.keys)
    (htotal : m'.startedTotal = m.startedTotal) {more : List LookupEvent}
    (hlog : m'.log = m.log ++ more) (hmore : Unrelated more) : Ledger m₀ m' := by
  obtain ⟨events, hevents, hperm, hcount⟩ := h
  refine ⟨events ++ more, by rw [hlog, hevents, List.append_assoc], ?_, ?_⟩
  · rw [finishedHashes_append, startedHashes_append, hmore.finishedHashes, hmore.startedHashes,
      List.append_nil, List.append_nil, hkeys]
    exact hperm
  · rw [startedHashes_append, hmore.startedHashes, List.append_nil, htotal]
    exact hcount

/-- Steps on a lookup keep the keys of the table it is saved in. -/
theorem keys_save (hactive : m'.active = m.active) (hkey : lookup'.infoHash = lookup.infoHash) :
    (m'.save lookup').active.keys = (m.save lookup).active.keys := by
  rw [save, save, hactive, hkey]
  exact OrderedMap.keys_insert_congr _ _ _ _

theorem Ledger.save (h : Ledger m₀ (m.save lookup)) (hactive : m'.active = m.active)
    (hkey : lookup'.infoHash = lookup.infoHash) (htotal : m'.startedTotal = m.startedTotal)
    {more : List LookupEvent} (hlog : m'.log = m.log ++ more) (hmore : Unrelated more) :
    Ledger m₀ (m'.save lookup') :=
  h.quiet (keys_save hactive hkey) htotal hlog hmore

theorem unrelated_nil : Unrelated [] := fun _ hevent ↦ absurd hevent List.not_mem_nil

theorem Ledger.same (h : Ledger m₀ (m.save lookup)) (hactive : m'.active = m.active)
    (hkey : lookup'.infoHash = lookup.infoHash) (htotal : m'.startedTotal = m.startedTotal)
    (hlog : m'.log = m.log) : Ledger m₀ (m'.save lookup') :=
  h.save hactive hkey htotal (hlog.trans (List.append_nil _).symm) unrelated_nil

theorem ledger_rules (net : Inet) (m₀ : LookupManager) : ManagerRules net anyOffer (Ledger m₀) where
  step :=
    { checked := fun m lookup b h ↦ h.same rfl rfl rfl rfl
      counted := fun m lookup queries answers h ↦ h.same rfl rfl rfl rfl
      refilled := fun m lookup now h ↦ h.same rfl rfl rfl rfl
      shortlisted := by
        intro m lookup nodes _ h
        obtain ⟨-, shortlist, heq⟩ := ManagerRules.addToShortlist_kept m lookup nodes
        rw [heq]
        exact h.same rfl rfl rfl rfl
      sent := fun m lookup node now timeout _ h ↦ h.save rfl rfl rfl rfl fun event hevent ↦ by
        rw [List.mem_singleton.mp hevent]
        exact ⟨rfl, rfl⟩
      hinted := fun m lookup transactionId _ h ↦ h.same rfl rfl rfl rfl
      released := by
        intro m lookup transactionId query hget h
        simp only [releaseTransaction, hget]
        refine h.save rfl rfl rfl rfl fun event hevent ↦ ?_
        rw [List.mem_singleton.mp hevent]
        exact ⟨rfl, rfl⟩
      found := by
        intro m lookup fromHint values h
        obtain ⟨hintValues, events, found, responses, hmanager, hlookup, hevents⟩ :=
          ManagerRules.takeValues_kept net m lookup fromHint values
        rw [hmanager, hlookup]
        refine h.save rfl rfl rfl rfl fun event hevent ↦ ?_
        obtain ⟨peers, rfl⟩ := hevents event hevent
        exact ⟨rfl, rfl⟩ }
  checked := fun m b h ↦ h
  refilled := fun m now h ↦ h
  forgot := fun m transactionId infoHash _ _ h ↦ h
  started := by
    rintro m infoHash now - habsent - - ⟨events, hevents, hperm, hcount⟩
    refine ⟨events ++ [.started m.startedTotal infoHash now], ?_, ?_, ?_⟩
    · rw [← List.append_assoc, ← hevents]
      rfl
    · have hkeys : (m.withNewLookup infoHash now).active.keys = m.active.keys ++ [infoHash] :=
        OrderedMap.keys_insert_of_get?_none habsent _
      have hnone : finishedHashes [.started m.startedTotal infoHash now] = [] := rfl
      have hstarted := hperm.append_right [infoHash]
      rw [List.append_assoc, List.append_assoc] at hstarted
      rw [finishedHashes_append, startedHashes_append, hkeys, hnone, List.append_nil]
      exact hstarted
    · have htotal : (m.withNewLookup infoHash now).startedTotal = m.startedTotal + 1 := rfl
      rw [startedHashes_append, List.length_append, htotal, hcount]
      rfl
  closed := by
    rintro m lookup - ⟨events, hevents, hperm, hcount⟩
    let peers := sortedAddresses lookup.foundPeers.keys
    refine ⟨events ++ [.finished lookup.number lookup.infoHash peers], ?_, ?_, ?_⟩
    · rw [← List.append_assoc, ← hevents]
      rfl
    · have hkeys : (m.save lookup).active.keys.Perm (lookup.infoHash :: (m.close lookup).active.keys) :=
        OrderedMap.keys_insert_perm _ _ _
      have hclosed := (hkeys.symm.append_left (finishedHashes events)).trans hperm
      have hnone : startedHashes [.finished lookup.number lookup.infoHash peers] = [] := rfl
      rw [finishedHashes_append, startedHashes_append, hnone, List.append_assoc, List.append_nil]
      exact hclosed
    · rw [startedHashes_append, List.length_append, show (m.close lookup).startedTotal =
        (m.save lookup).startedTotal from rfl, hcount]
      rfl

theorem ledger_apply (net : Inet) (hm : m.Keyed) (call : LookupCall) : Ledger m (m.apply net call) :=
  ((ledger_rules net m).apply hm (.refl m) call (callOffer_any net m call)).2

/-! ## Which calls start a lookup -/

/-- The number of lookups that were started. -/
def Counts (n : ℕ) (m : LookupManager) (_ : PeerLookup) : Prop := m.startedTotal = n

theorem Counts.refl (m : LookupManager) (lookup : PeerLookup) : Counts m.startedTotal m lookup := rfl

/-- The small steps start no lookup. -/
theorem counts_rules (net : Inet) (n : ℕ) : StepRules net anyOffer (Counts n) where
  checked := fun _ _ _ h ↦ h
  counted := fun _ _ _ _ h ↦ h
  refilled := fun _ _ _ h ↦ h
  shortlisted := fun _ _ _ _ h ↦ h
  sent := fun _ _ _ _ _ _ h ↦ h
  hinted := fun _ _ _ _ h ↦ h
  released := by
    intro m lookup transactionId query hget h
    simp only [releaseTransaction, hget]
    exact h
  found := by
    intro m lookup fromHint values h
    obtain ⟨hintValues, events, found, responses, hmanager, -, -⟩ :=
      ManagerRules.takeValues_kept net m lookup fromHint values
    rw [hmanager]
    exact h

theorem startedTotal_advance (net : Inet) (m : LookupManager) (lookup : PeerLookup) (now : ℚ) :
    (m.advance lookup now).startedTotal = m.startedTotal := by
  have htopped := (counts_rules net m.startedTotal).topUp (.refl m lookup) now
  unfold advance
  split
  · rfl
  · split
    · exact (finish_eq m lookup).2.2.1
    · split
      · dsimp only
        split
        · exact (finish_eq _ _).2.2.1.trans htopped
        · exact htopped
      · rfl

theorem startedTotal_foldl {f : LookupManager → Bytes → LookupManager}
    (hf : ∀ m infoHash, (f m infoHash).startedTotal = m.startedTotal) (hashes : List Bytes) :
    ∀ m : LookupManager, (hashes.foldl f m).startedTotal = m.startedTotal := by
  induction hashes with
  | nil => exact fun _ ↦ rfl
  | cons infoHash rest ih => exact fun m ↦ (ih (f m infoHash)).trans (hf m infoHash)

theorem startedTotal_handleError (net : Inet) (m : LookupManager) (transactionId : Bytes) (now : ℚ) :
    (m.handleError transactionId now).startedTotal = m.startedTotal := by
  unfold handleError
  cases m.transactions.get? transactionId with
  | none => rfl
  | some infoHash =>
    dsimp only
    cases (m.active.get? infoHash).filter fun lookup ↦ lookup.pending.contains transactionId with
    | none => rfl
    | some lookup =>
      exact (startedTotal_advance net _ _ now).trans
        ((counts_rules net m.startedTotal).releaseTransaction (.refl m lookup) transactionId)

theorem startedTotal_handleResponse (net : Inet) (m : LookupManager) (transactionId : Bytes)
    (response : Option BencodeValue) (address : Address) (now : ℚ) :
    (m.handleResponse net transactionId response address now).startedTotal = m.startedTotal := by
  have hrules := counts_rules net m.startedTotal
  unfold handleResponse
  cases hget : m.transactions.get? transactionId with
  | none => rfl
  | some infoHash =>
    dsimp only
    cases hawaited : m.awaitedFrom transactionId infoHash address with
    | none => rfl
    | some lookup =>
      have hreleased := hrules.releaseTransaction (.refl m lookup) transactionId
      have hcounted := hrules.counted _ _ (m.releaseTransaction lookup transactionId).1.hintQueries
        ((m.releaseTransaction lookup transactionId).1.hintAnswers +
          if decide (lookup.hintTransaction = some transactionId) then 1 else 0) hreleased
      exact (startedTotal_advance net _ _ now).trans (hrules.takeResponse hcounted
        (callOffer_any net m (.handleResponse transactionId response address now) infoHash lookup
          hget hawaited))

theorem startedTotal_tickLookup (net : Inet) (now : ℚ) (m : LookupManager) (infoHash : Bytes) :
    (m.tickLookup now infoHash).startedTotal = m.startedTotal := by
  unfold tickLookup
  cases m.active.get? infoHash with
  | none => rfl
  | some lookup =>
    exact (startedTotal_advance net _ _ now).trans
      ((counts_rules net m.startedTotal).expirePending (.refl m lookup) now)

theorem startedTotal_finishLookup (m : LookupManager) (infoHash : Bytes) :
    (m.finishLookup infoHash).startedTotal = m.startedTotal := by
  unfold finishLookup
  cases m.active.get? infoHash with
  | none => rfl
  | some lookup => exact (finish_eq m lookup).2.2.1

/-- The calls other than `start_lookup` start no lookup. -/
theorem startedTotal_apply (net : Inet) (m : LookupManager) {call : LookupCall}
    (hcall : ∀ infoHash seedNodes now hint, call ≠ .startLookup infoHash seedNodes now hint) :
    (m.apply net call).startedTotal = m.startedTotal := by
  cases call with
  | startLookup infoHash seedNodes now hint => exact absurd rfl (hcall infoHash seedNodes now hint)
  | handleResponse transactionId response address now =>
    exact startedTotal_handleResponse net m transactionId response address now
  | handleError transactionId now => exact startedTotal_handleError net m transactionId now
  | tick now => exact startedTotal_foldl (startedTotal_tickLookup net now) _ _
  | abortAll => exact startedTotal_foldl startedTotal_finishLookup _ _
  | refill now => rfl

/-- What a lookup that is not refused leaves behind: it counts and is the next event of the log. -/
def StartsOne (m : LookupManager) (infoHash : Bytes) (now : ℚ) (result : LookupManager × Bool) :
    Prop :=
  if result.2 then result.1.startedTotal = m.startedTotal + 1 ∧
    m.log ++ [.started m.startedTotal infoHash now] <+: result.1.log
  else result.1.startedTotal = m.startedTotal

theorem startsOne_refused {infoHash : Bytes} {now : ℚ}
    (htotal : m'.startedTotal = m.startedTotal) : m.StartsOne infoHash now (m', false) := by
  rwa [StartsOne, if_neg Bool.false_ne_true]

theorem openLookup_starts (net : Inet) (m : LookupManager) (infoHash : Bytes)
    (seedNodes : List Node) (now : ℚ) (hint : Option Node) :
    m.StartsOne infoHash now (m.openLookup infoHash seedNodes now hint) := by
  obtain ⟨⟨b, hmanager⟩, shortlist, hlookup⟩ := ManagerRules.addToShortlist_kept m
    (.new m.startedTotal infoHash (now + m.limits.deadline)) seedNodes
  unfold openLookup
  dsimp only
  split
  · exact startsOne_refused rfl
  split
  · rw [hmanager]
    exact startsOne_refused rfl
  rw [hmanager, hlookup, StartsOne, if_pos rfl]
  let opened := { m with raised := b, startedTotal := m.startedTotal + 1 }.emit
    (.started m.startedTotal infoHash now)
  let lookup := { PeerLookup.new m.startedTotal infoHash (now + m.limits.deadline) with
    shortlist := shortlist }
  unfold launch
  cases hint.filter m.isUsableNode with
  | some node => exact ⟨rfl, List.prefix_append _ _⟩
  | none =>
    have hstart : Underway opened lookup opened lookup :=
      ⟨rfl, rfl, rfl, rfl, rfl, List.prefix_refl _, fun _ hpending ↦ by cases hpending⟩
    exact ⟨(counts_rules net opened.startedTotal).topUp (.refl opened lookup) now,
      ((underway_rules net opened lookup).topUp hstart now).log⟩

theorem startLookup_starts (net : Inet) (m : LookupManager) (infoHash : Bytes)
    (seedNodes : List Node) (now : ℚ) (hint : Option Node) :
    m.StartsOne infoHash now (m.startLookup infoHash seedNodes now hint) := by
  unfold startLookup
  split
  · exact startsOne_refused rfl
  dsimp only
  split
  · exact startsOne_refused rfl
  split
  · exact startsOne_refused rfl
  split
  · exact startsOne_refused rfl
  · exact openLookup_starts net ((m.check (m.active.size ≤ m.limits.maxActive)).refill now) infoHash
      seedNodes now hint

/-! ## What a call does to the table -/

/-- The hashes of a call's events: those that left the table and those that are in it are those that
were in it, and the hash of the lookup that the call started. -/
theorem newEvents_perm (net : Inet) (hm : m.Keyed) {call : LookupCall}
    (hcall : ∀ infoHash seedNodes now hint, call ≠ .startLookup infoHash seedNodes now hint) :
    (finishedHashes ((m.apply net call).log.drop m.log.length)
      ++ (m.apply net call).active.keys).Perm m.active.keys := by
  obtain ⟨events, hlog, hperm, hcount⟩ := ledger_apply net hm call
  rw [startedTotal_apply net m hcall] at hcount
  have hnone : startedHashes events = [] := List.eq_nil_of_length_eq_zero (by omega)
  rw [hnone, List.append_nil] at hperm
  rw [hlog, List.drop_left]
  exact hperm

theorem newEvents_perm_start (net : Inet) (hm : m.Keyed) (infoHash : Bytes) (seedNodes : List Node)
    (now : ℚ)
    (hint : Option Node) :
    let result := m.startLookup infoHash seedNodes now hint
    (finishedHashes (result.1.log.drop m.log.length) ++ result.1.active.keys).Perm
      (m.active.keys ++ if result.2 then [infoHash] else []) := by
  dsimp only
  obtain ⟨events, hlog, hperm, hcount⟩ :=
    ledger_apply net hm (.startLookup infoHash seedNodes now hint)
  have hspec := startLookup_starts net m infoHash seedNodes now hint
  dsimp only [apply, StartsOne] at hlog hperm hcount hspec
  rw [hlog, List.drop_left]
  split at hspec
  next hstarted =>
    obtain ⟨htotal, more, hprefix⟩ := hspec
    rw [if_pos hstarted]
    rw [hlog, List.append_assoc] at hprefix
    have hevents := (List.append_cancel_left hprefix).symm
    rw [hevents] at hperm hcount ⊢
    rw [startedHashes_append, List.length_append, htotal] at hcount
    have hone : (startedHashes [.started m.startedTotal infoHash now]).length = 1 := rfl
    have hrest : startedHashes more = [] := List.eq_nil_of_length_eq_zero (by omega)
    rw [startedHashes_append, hrest, List.append_nil] at hperm
    exact hperm
  next hrefused =>
    rw [if_neg hrefused]
    have hnone : startedHashes events = [] := List.eq_nil_of_length_eq_zero (by omega)
    rw [hnone] at hperm
    exact hperm

end LookupManager

end DhtScraper
