import DhtScraper.Lookup.Rules

/-!
# Replies and the addresses that were asked

The pending query that the table of transactions leads to was sent to the address that was last
asked under its id.
-/

namespace DhtScraper

open Library

/-- The address that a query with the transaction id goes to. -/
def LookupEvent.addressAsked (transactionId : Bytes) : LookupEvent → Option Address
  | .sent _ _ id node _ => if id = transactionId then some node.address else none
  | _ => none

/-- The address that the last query with the transaction id was sent to. -/
def askedAddress (log : List LookupEvent) (transactionId : Bytes) : Option Address :=
  (log.filterMap (LookupEvent.addressAsked transactionId)).getLast?

theorem askedAddress_append {events : List LookupEvent} {transactionId : Bytes}
    (h : ∀ event ∈ events, event.addressAsked transactionId = none) (log : List LookupEvent) :
    askedAddress (log ++ events) transactionId = askedAddress log transactionId := by
  rw [askedAddress, askedAddress, List.filterMap_append, List.filterMap_eq_nil_iff.mpr h,
    List.append_nil]

theorem askedAddress_concat {event : LookupEvent} {transactionId : Bytes}
    (h : event.addressAsked transactionId = none) (log : List LookupEvent) :
    askedAddress (log ++ [event]) transactionId = askedAddress log transactionId :=
  askedAddress_append (fun _ hevent ↦ List.mem_singleton.mp hevent ▸ h) log

namespace LookupManager

variable {net : Inet} {m m' : LookupManager} {lookup lookup' : PeerLookup}

/-- The pending query of a transaction went to the address that was asked last. -/
def Addressed (m : LookupManager) : Prop :=
  ∀ transactionId infoHash lookup query, m.transactions.get? transactionId = some infoHash →
    m.active.get? infoHash = some lookup → lookup.pending.get? transactionId = some query →
      askedAddress m.log transactionId = some query.address

/-- Steps that neither send a query nor add a transaction. -/
theorem Addressed.kept (h : (m.save lookup).Addressed) (hactive : m'.active = m.active)
    (hkey : lookup'.infoHash = lookup.infoHash)
    (htransactions : ∀ id infoHash, m'.transactions.get? id = some infoHash →
      m.transactions.get? id = some infoHash)
    (hpending : ∀ id query, lookup'.pending.get? id = some query →
      lookup.pending.get? id = some query)
    (hlog : ∃ events, m'.log = m.log ++ events ∧
      ∀ event ∈ events, ∀ id, event.addressAsked id = none) : (m'.save lookup').Addressed := by
  intro id infoHash other query htransaction hother hquery
  obtain ⟨events, hlog, hsilent⟩ := hlog
  have hold : askedAddress m.log id = some query.address := by
    rw [get?_save, hkey, hactive] at hother
    split at hother
    next heq =>
      rw [← Option.some.inj hother] at hquery
      exact h id infoHash lookup query (htransactions id infoHash htransaction)
        ((get?_save _ _ _).trans (if_pos heq)) (hpending id query hquery)
    next hne =>
      exact h id infoHash other query (htransactions id infoHash htransaction)
        ((get?_save _ _ _).trans ((if_neg hne).trans hother)) hquery
  have happend := askedAddress_append (fun event hevent ↦ hsilent event hevent id) m.log
  exact (hlog ▸ happend).trans hold

theorem Addressed.quiet (h : (m.save lookup).Addressed) (hactive : m'.active = m.active)
    (hkey : lookup'.infoHash = lookup.infoHash) (htransactions : m'.transactions = m.transactions)
    (hpending : lookup'.pending = lookup.pending) (hlog : m'.log = m.log) :
    (m'.save lookup').Addressed :=
  h.kept hactive hkey (fun _ _ hget ↦ htransactions ▸ hget) (fun _ _ hget ↦ hpending ▸ hget)
    ⟨[], hlog.trans (List.append_nil _).symm, fun _ hevent ↦ absurd hevent List.not_mem_nil⟩

/-- The address of a query that is sent is the last one of its id. -/
theorem Addressed.sentTo (h : (m.save lookup).Addressed) (node : Node) (now timeout : ℚ) :
    ((m.sendTo lookup node now timeout).1.save (m.sendTo lookup node now timeout).2.1).Addressed := by
  intro id infoHash other query htransaction hother hquery
  have hlog : askedAddress ((m.sendTo lookup node now timeout).1.save
      (m.sendTo lookup node now timeout).2.1).log id =
        if lookupTransactionId m.sequence = id then some node.address
        else askedAddress m.log id := by
    change askedAddress (m.log ++ [.sent m.sequence lookup.number (lookupTransactionId m.sequence)
      node lookup.infoHash]) id = _
    by_cases hid : lookupTransactionId m.sequence = id
    · rw [if_pos hid, askedAddress, List.filterMap_append, List.getLast?_append]
      simp [LookupEvent.addressAsked, hid]
    · have hsilent : (LookupEvent.sent m.sequence lookup.number (lookupTransactionId m.sequence)
          node lookup.infoHash).addressAsked id = none := if_neg hid
      rw [if_neg hid]
      exact askedAddress_concat hsilent m.log
  rw [hlog]
  replace htransaction : (m.transactions.insert (lookupTransactionId m.sequence)
      lookup.infoHash).get? id = some infoHash := htransaction
  rw [OrderedMap.get?_insert] at htransaction
  have hself : (m.sendTo lookup node now timeout).2.1.infoHash = lookup.infoHash := rfl
  rw [get?_save, hself] at hother
  by_cases hid : lookupTransactionId m.sequence = id
  · rw [if_pos hid.symm] at htransaction
    rw [if_pos (Option.some.inj htransaction).symm] at hother
    rw [← Option.some.inj hother] at hquery
    have hnew : (lookup.pending.insert (lookupTransactionId m.sequence)
        ⟨node.address, now + timeout, m.sequence⟩).get? id = some query := hquery
    rw [OrderedMap.get?_insert, if_pos hid.symm] at hnew
    rw [if_pos hid, ← Option.some.inj hnew]
  · rw [if_neg (Ne.symm hid)] at htransaction
    rw [if_neg hid]
    split at hother
    next heq =>
      rw [← Option.some.inj hother] at hquery
      have hold : (lookup.pending.insert (lookupTransactionId m.sequence)
          ⟨node.address, now + timeout, m.sequence⟩).get? id = some query := hquery
      rw [OrderedMap.get?_insert, if_neg (Ne.symm hid)] at hold
      exact h id infoHash lookup query htransaction ((get?_save _ _ _).trans (if_pos heq)) hold
    next hne =>
      exact h id infoHash other query htransaction
        ((get?_save _ _ _).trans ((if_neg hne).trans hother)) hquery

theorem addressed_rules (net : Inet) : ManagerRules net anyOffer Addressed where
  step :=
    { checked := fun m lookup b h ↦ h.quiet rfl rfl rfl rfl rfl
      counted := fun m lookup queries answers h ↦ h.quiet rfl rfl rfl rfl rfl
      refilled := fun m lookup now h ↦ h.quiet rfl rfl rfl rfl rfl
      shortlisted := by
        intro m lookup nodes _ h
        obtain ⟨-, shortlist, heq⟩ := ManagerRules.addToShortlist_kept m lookup nodes
        rw [heq]
        exact h.quiet rfl rfl rfl rfl rfl
      sent := fun m lookup node now timeout _ h ↦ h.sentTo node now timeout
      hinted := fun m lookup transactionId _ h ↦ h.quiet rfl rfl rfl rfl rfl
      released := by
        intro m lookup transactionId query hget h
        simp only [LookupManager.releaseTransaction, hget]
        refine h.kept rfl rfl (fun _ _ hid ↦ OrderedMap.get?_of_erase hid)
          (fun _ _ hid ↦ OrderedMap.get?_of_erase hid) ⟨_, rfl, fun event hevent id ↦ ?_⟩
        rw [List.mem_singleton.mp hevent]
        rfl
      found := by
        intro m lookup fromHint values h
        obtain ⟨hintValues, events, found, responses, hmanager, hlookup, hevents⟩ :=
          ManagerRules.takeValues_kept net m lookup fromHint values
        rw [hmanager, hlookup]
        refine h.kept rfl rfl (fun _ _ hget ↦ hget) (fun _ _ hget ↦ hget) ⟨events, rfl, ?_⟩
        intro event hevent id
        obtain ⟨peers, rfl⟩ := hevents event hevent
        rfl }
  checked := fun m b h ↦ h
  refilled := fun m now h ↦ h
  forgot := by
    intro m transactionId infoHash _ _ h id other lookup query htransaction
    exact h id other lookup query (OrderedMap.get?_of_erase htransaction)
  started := by
    intro m infoHash now _ _ _ _ h id other lookup query htransaction hother hquery
    rw [withNewLookup, get?_save] at hother
    split at hother
    · rw [← Option.some.inj hother] at hquery
      cases hquery
    · have happend : askedAddress (m.log ++ [.started m.startedTotal infoHash now]) id =
          askedAddress m.log id := askedAddress_concat rfl m.log
      exact happend.trans (h id other lookup query htransaction hother hquery)
  closed := by
    intro m lookup _ h id infoHash other query htransaction hother hquery
    have hget : (m.active.erase lookup.infoHash).get? infoHash = some other := hother
    rw [OrderedMap.get?_erase] at hget
    split at hget
    · cases hget
    next hne =>
      have happend : askedAddress (m.log ++ [.finished lookup.number lookup.infoHash
          (sortedAddresses lookup.foundPeers.keys)]) id = askedAddress m.log id :=
        askedAddress_concat rfl m.log
      exact happend.trans (h id infoHash other query htransaction
        ((get?_save _ _ _).trans ((if_neg hne).trans hget)) hquery)

theorem addressed_new (limits : LookupLimits) (nodeFilter : Node → Bool) (start : ℚ) :
    (new limits nodeFilter start).Addressed := fun _ _ _ _ hget ↦ by cases hget

/-- What a forged message may not touch. -/
structure SameLookups (m m' : LookupManager) : Prop where
  active : m'.active = m.active
  transactions : m'.transactions = m.transactions
  inFlight : m'.inFlight = m.inFlight

/-- A response from another address than the one that was asked is ignored. -/
theorem handleResponse_of_ne (h : m.Addressed) {transactionId : Bytes} {address : Address}
    (hne : askedAddress m.log transactionId ≠ some address)
    (howned : m.ownsTransaction transactionId) (response : Option BencodeValue) (now : ℚ) :
    m.handleResponse net transactionId response address now = m := by
  obtain ⟨infoHash, hget⟩ := Option.isSome_iff_exists.mp howned
  have hawaited : m.awaitedFrom transactionId infoHash address = none := by
    rw [awaitedFrom, Option.filter_eq_none_iff]
    intro lookup hactive hpending
    rw [decide_eq_true_eq, Option.map_eq_some_iff] at hpending
    obtain ⟨query, hquery, haddress⟩ := hpending
    exact hne ((h transactionId infoHash lookup query hget hactive hquery).trans
      (congrArg some haddress))
  rw [handleResponse, hget]
  dsimp only
  rw [hawaited]

/-- An error takes its transaction out of the table. -/
theorem ownsTransaction_handleError {transactionId : Bytes} {now : ℚ}
    (hreturned : (m.handleError transactionId now).raised = false) :
    (m.handleError transactionId now).ownsTransaction transactionId = false := by
  unfold handleError at hreturned ⊢
  cases hget : m.transactions.get? transactionId with
  | none =>
    rw [hget] at hreturned
    cases hreturned
  | some infoHash =>
    rw [hget] at hreturned
    simp only [check, Bool.or_eq_false_iff, Bool.not_eq_false', decide_eq_true_eq,
      Bool.not_eq_true] at hreturned
    exact hreturned.2

end LookupManager

end DhtScraper
