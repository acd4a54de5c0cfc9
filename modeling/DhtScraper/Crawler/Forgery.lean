import DhtScraper.Crawler.Runs
import DhtScraper.Lookup.Replies

/-!
# Forged replies

A response is only taken from the address that was asked.  An error is taken from anyone who names
a transaction.
-/

namespace DhtScraper

open Library

/-- The message does not come from the address that its transaction was sent to. -/
def Forged (m : LookupManager) (message : Message) (address : Address) : Prop :=
  ∀ transactionId, getItem message "t" = some (.bytes transactionId) →
    askedAddress m.log transactionId ≠ some address

/-- The message is a response or an error. -/
def isReplyMessage (message : Message) : Bool :=
  isText (getItem message "y") (ascii ['r']) || isText (getItem message "y") (ascii ['e'])

/-- The message is an error for a transaction of the manager. -/
def IsOwnedError (m : LookupManager) (message : Message) : Prop :=
  isText (getItem message "y") (ascii ['e']) ∧ ∃ transactionId,
    getItem message "t" = some (.bytes transactionId) ∧ m.ownsTransaction transactionId

theorem isText_iff {value : Option BencodeValue} {text : Bytes} :
    isText value text ↔ value = some (.bytes text) := by
  unfold isText
  split
  next data => simp
  next hother =>
    simp only [Bool.false_eq_true, false_iff]
    exact hother text

namespace DhtCrawler

variable {W : World} {config : CrawlerConfig} {past : List CrawlerEvent} {s : DhtCrawler}
  {m : LookupManager} {message : Message} {address : Address} {nodeSocket : NodeSocket}

/-- The transaction is owned or not; what is not a byte string is not. -/
theorem ownedTransaction_eq_none {value : Option BencodeValue}
    (h : ownedTransaction s value = none) {transactionId : Bytes}
    (hvalue : value = some (.bytes transactionId)) :
    s.lookupManager.ownsTransaction transactionId = false := by
  subst hvalue
  simp only [ownedTransaction] at h
  split at h
  · cases h
  next howned => simpa using howned

/-- A forged response leaves the manager as it was. -/
theorem handleResponse_forged (h : Good W config (fun c ↦ c.lookupManager = m) past s)
    (hreceived : .received address nodeSocket ∈ past) (haddressed : m.Addressed)
    (hforged : Forged m message address) :
    Ensures (handleResponse W message address) s (fun _ s' ↦ s'.lookupManager = m)
      fun _ _ ↦ True := by
  refine (h.count _).bind fun _ s₁ h₁ ↦ ?_
  refine Ensures.get ?_
  split
  next transactionId howned =>
    obtain ⟨hvalue, howned⟩ := HandlerRules.owned_of_ownedTransaction howned
    have hmanager : s₁.lookupManager = m := h₁.kept
    rw [hmanager] at howned
    refine ((recordRules_manager W config (· = m)).readClock h₁).bind fun now s₂ h₂ ↦ ?_
    have hmanager : s₂.lookupManager = m := h₂.kept
    refine ((callbackRules_manager W config (· = m)).callManager [] h₂ ⟨fun _ ↦ trivial, ?_⟩).imp
      (fun _ _ h₃ ↦ h₃.kept) fun _ _ hE ↦ hE
    exact fun _ ↦ hmanager ▸ LookupManager.handleResponse_of_ne haddressed
      (hforged transactionId hvalue) howned _ now
  next =>
    split
    next fields _ =>
      exact ((recordRules_manager W config (· = m)).takeResponse h₁ hreceived fields).imp
        (fun _ _ h₂ ↦ h₂.kept) fun _ _ hE ↦ hE
    next => exact Ensures.pure h₁.kept

/-- An error leaves the manager as it was, or takes its transaction. -/
theorem handleError_effect (h : Good W config (fun c ↦ c.lookupManager = m) past s)
    (hreceived : .received address nodeSocket ∈ past)
    (herror : isText (getItem message "y") (ascii ['e'])) :
    Ensures (handleError W message address nodeSocket) s
      (fun _ s' ↦ LookupManager.SameLookups m s'.lookupManager ↔ ¬ IsOwnedError m message)
      fun _ _ ↦ True := by
  refine (h.count _).bind fun _ s₁ h₁ ↦ ?_
  have hmanager : s₁.lookupManager = m := h₁.kept
  refine Ensures.get ?_
  split
  next transactionId howned =>
    obtain ⟨hvalue, howned⟩ := HandlerRules.owned_of_ownedTransaction howned
    rw [hmanager] at howned
    refine ((recordRules_manager W config (· = m)).readClock h₁).bind fun now s₂ h₂ ↦ ?_
    have hmanager : s₂.lookupManager = m := h₂.kept
    let P := fun m' : LookupManager ↦ m'.ownsTransaction transactionId = false
    refine ((callbackRules_manager W config P).callManager [] h₂ ⟨fun _ ↦ trivial, ?_⟩).imp
      (fun _ s₃ h₃ ↦ ?_) fun _ _ hE ↦ hE
    · exact fun hreturned ↦ LookupManager.ownsTransaction_handleError hreturned
    · refine iff_of_false (fun hsame ↦ ?_) fun hnot ↦ hnot ⟨herror, transactionId, hvalue, howned⟩
      have hgone : s₃.lookupManager.ownsTransaction transactionId = false := h₃.kept
      rw [LookupManager.ownsTransaction, hsame.transactions] at hgone
      exact Bool.false_ne_true (hgone.symm.trans howned)
  next hnone =>
    have hsame {s' : DhtCrawler} (h' : s'.lookupManager = m) :
        LookupManager.SameLookups m s'.lookupManager ↔ ¬ IsOwnedError m message := by
      refine iff_of_true (h' ▸ ⟨rfl, rfl, rfl⟩) fun ⟨_, transactionId, hvalue, howned⟩ ↦ ?_
      have hfree := ownedTransaction_eq_none hnone hvalue
      rw [hmanager, howned] at hfree
      cases hfree
    split
    next =>
      have hport : 0 ≤ address.2 ∧ address.2 ≤ 65535 ∨ True := Or.inr trivial
      exact (RecordRules.fallBack (recordRules_manager W config (· = m)).toActionRules h₁ hreceived
        hport).imp (fun _ _ h₂ ↦ hsame h₂.kept) fun _ _ hE ↦ hE
    next => exact Ensures.pure (hsame h₁.kept)

/-- A forged reply leaves the lookups, the transactions and the counts of queries in flight as they
were, unless it is an error for a transaction of the manager. -/
theorem forged_reply_effect {session : Session} {calls : List CrawlerCall} {s' : DhtCrawler}
    {data : Bytes} (hrun : (crawlerMachine W).run (new W config session) calls = some s)
    (hdeep : W.tooDeep data = false) (hdecoded : decodeBencode data = .ok (.dict message))
    (hreply : isReplyMessage message) (hforged : Forged s.lookupManager message address)
    (hstep : (crawlerMachine W).step s (.datagram data address nodeSocket) = some s') :
    LookupManager.SameLookups s.lookupManager s'.lookupManager ↔
      ¬ IsOwnedError s.lookupManager message := by
  obtain ⟨hconfigured, haddressed⟩ := run_manager (LookupManager.addressed_rules W.net)
    (LookupManager.addressed_new _ _ _) hrun
  have h : Good W config (fun c ↦ c.lookupManager = s.lookupManager) [] s :=
    ⟨hconfigured, List.nil_subset _, rfl⟩
  suffices hhandled : Ensures (handleDatagram W data address nodeSocket) s
      (fun _ s' ↦ LookupManager.SameLookups s.lookupManager s'.lookupManager ↔
        ¬ IsOwnedError s.lookupManager message) fun _ _ ↦ True from
    hhandled.ok (perform_of_step hstep)
  generalize hm : s.lookupManager = m at h haddressed hforged ⊢
  refine Ensures.get ?_
  rw [hconfigured.config_eq]
  refine (ensures_require (Or.inr trivial)).bind ?_
  rintro _ s ⟨rfl, hsocket⟩
  refine (h.count _).bind fun _ s₁ h₁ ↦ ?_
  refine (h₁.noteAffinity hsocket fun _ hc ↦ hc).bind fun _ s₂ h₂ ↦ ?_
  rw [hdeep, hdecoded]
  simp only [Bool.false_eq_true, if_false]
  unfold handleMessage
  rw [isReplyMessage, Bool.or_eq_true] at hreply
  rcases hreply with hresponse | herror
  · rw [if_pos hresponse]
    refine (handleResponse_forged h₂ List.mem_cons_self haddressed hforged).imp
      (fun _ s₃ h₃ ↦ iff_of_true (h₃ ▸ ⟨rfl, rfl, rfl⟩) fun ⟨herror, _⟩ ↦ ?_) fun _ _ hE ↦ hE
    rw [isText_iff] at hresponse herror
    rw [hresponse] at herror
    cases herror
  · have hno (text : Bytes) (hne : text ≠ ascii ['e']) :
        ¬ isText (getItem message "y") text = true := by
      rw [isText_iff.mp herror]
      simpa [isText] using hne.symm
    rw [if_neg (hno _ (by decide)), if_neg (hno _ (by decide)), if_pos herror]
    exact handleError_effect h₂ List.mem_cons_self herror

/-- An error for the first transaction. -/
def forgedErrorData : Bytes :=
  ascii "d1:eli201ee1:t4:".toList ++ lookupTransactionId 0 ++ ascii "1:y1:ee".toList

def forgedErrorMessage : Message :=
  [item "e" (.list [.int 201]), item "t" (.bytes (lookupTransactionId 0)),
    item "y" (.bytes (ascii ['e']))]

def forgedError : CrawlerCall :=
  .datagram forgedErrorData ("8.8.8.2".toList, 6881) sampleSocket

theorem decodeBencode_forgedErrorData :
    decodeBencode forgedErrorData = .ok (.dict forgedErrorMessage) := by
  with_unfolding_all rfl

/-- The only query of the sample run went to another address than the error comes from, and the
error ends the lookup. -/
theorem sample_forgedError :
    ∃ s s', (crawlerMachine sampleWorld).run sampleCrawler sampleCalls = some s ∧
      Forged s.lookupManager forgedErrorMessage ("8.8.8.2".toList, 6881) ∧
        (crawlerMachine sampleWorld).step s forgedError = some s' ∧
          s.lookupManager.active.keys ≠ s'.lookupManager.active.keys := by
  have heval : ((crawlerMachine sampleWorld).run sampleCrawler sampleCalls).any (fun s ↦
      askedAddress s.lookupManager.log (lookupTransactionId 0) = some ("8.8.8.1".toList, 6881) &&
        ((crawlerMachine sampleWorld).step s forgedError).any fun s' ↦
          s.lookupManager.active.keys ≠ s'.lookupManager.active.keys) := by
    decide +kernel
  rw [Option.any_eq_true] at heval
  obtain ⟨s, hrun, heval⟩ := heval
  rw [Bool.and_eq_true, decide_eq_true_eq, Option.any_eq_true] at heval
  obtain ⟨hasked, s', hstep, hended⟩ := heval
  refine ⟨s, s', hrun, fun transactionId hid ↦ ?_, hstep, of_decide_eq_true hended⟩
  have hid' : some (BencodeValue.bytes (lookupTransactionId 0)) = some (.bytes transactionId) := hid
  rw [Option.some.injEq, BencodeValue.bytes.injEq] at hid'
  rw [← hid', hasked]
  decide

/-- A host that was never asked ends a lookup with an error. -/
theorem forged_error_ends_lookup :
    ¬ ∀ (W : World) (config : CrawlerConfig) (session : Session) (calls : List CrawlerCall)
      (s s' : DhtCrawler) (data : Bytes) (message : Message) (address : Address)
      (nodeSocket : NodeSocket), (crawlerMachine W).run (new W config session) calls = some s →
        W.tooDeep data = false → decodeBencode data = .ok (.dict message) →
          isReplyMessage message → Forged s.lookupManager message address →
            (crawlerMachine W).step s (.datagram data address nodeSocket) = some s' →
              LookupManager.SameLookups s.lookupManager s'.lookupManager := by
  intro hclaim
  obtain ⟨s, s', hrun, hforged, hstep, hended⟩ := sample_forgedError
  have hsame := hclaim sampleWorld sampleCrawlerConfig (.new oneLookup) sampleCalls s s' forgedErrorData
    forgedErrorMessage _ _ hrun rfl decodeBencode_forgedErrorData (by decide) hforged hstep
  exact hended (congrArg OrderedMap.keys hsame.active).symm

/-- That error names a transaction of the manager. -/
theorem forged_reply_effect_sample :
    ∃ s s', (crawlerMachine sampleWorld).run sampleCrawler sampleCalls = some s ∧
      (crawlerMachine sampleWorld).step s forgedError = some s' ∧
        (LookupManager.SameLookups s.lookupManager s'.lookupManager ↔
          ¬ IsOwnedError s.lookupManager forgedErrorMessage) := by
  obtain ⟨s, s', hrun, hforged, hstep, -⟩ := sample_forgedError
  exact ⟨s, s', hrun, hstep, forged_reply_effect hrun rfl decodeBencode_forgedErrorData (by decide)
    hforged hstep⟩

end DhtCrawler

end DhtScraper
