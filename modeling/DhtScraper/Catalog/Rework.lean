import DhtScraper.Catalog.Effects

/-!
# The operations of the lookup and fetch machinery

Peers, lookup claims, lookup results, fetch claims and failed fetches: each of these operations
reworks one live entry and closes its key.  The lemmas also say what the new entry looks like, as far
as the question whether it can still make progress depends on it.
-/

namespace DhtScraper

open Library

namespace TorrentCatalog

variable {c : TorrentCatalog} {h : Bytes} {r : Ref}

/-- The state after the operation: a reworked entry in a catalog whose indexes are exact. -/
structure Settled (c c' : TorrentCatalog) (h : Bytes) (r : Ref) (entry : TorrentEntry) : Prop where
  reworked : c.Reworked c' h r entry
  represented : c'.Represented ∅

theorem Reworked.settle {c' : TorrentCatalog} {entry : TorrentEntry}
    (hw : c.Reworked c' h r entry) (hc : c.Represented ∅) (hr : c.entries.get? h = some r) :
    c.Settled (c'.indexEntryLocked r) h r entry :=
  ⟨(hw.close hc hr).1, (hw.close hc hr).2⟩

theorem settled_addPeers (hc : c.Represented ∅) (hr : c.entries.get? h = some r)
    (peers : List Address) :
    ∃ known, c.Settled ((c.addPeersLocked r peers).1.indexEntryLocked r) h r
        { c.heap r with peers := known } ∧
      ((c.heap r).hasPeers → TorrentEntry.hasPeers { c.heap r with peers := known }) := by
  obtain ⟨known, hw, hkeep⟩ := reworked_addPeersLocked peers (hc.key h r hr)
  exact ⟨known, hw.settle hc hr, hkeep⟩

/-! ## Lookups -/

theorem settled_claimLookup (hc : c.Represented ∅) (hr : c.entries.get? h = some r)
    (hfree : (c.heap r).lookupInProgress = false) :
    c.Settled (c.claimLookup r) h r { c.heap r with lookupInProgress := true } := by
  have hkey := hc.key h r hr
  have hw : c.Reworked
      { c.modify r fun entry ↦ { entry with lookupInProgress := true } with
        lookupsInProgress := c.lookupsInProgress + 1 } h r
      { c.heap r with lookupInProgress := true } :=
    { edited :=
        { heap := rfl
          infoHash := hkey
          stateCounts := fun s ↦ (sub_add_cancel _ _).symm
          knownDone := (sub_add_cancel _ _).symm
          lookupsInProgress := by simp [indicator, hfree]
          fetched_self := Or.inl ⟨rfl, rfl⟩ }
      record := .of_eq
      queues := .of_eq
      done := Iff.rfl }
  exact hw.settle hc hr

theorem settled_releaseLookup (hc : c.Represented ∅) (hr : c.entries.get? h = some r) :
    c.Settled ((c.endLookupLocked r).indexEntryLocked r) h r
      { c.heap r with lookupInProgress := false } :=
  (reworked_endLookupLocked (hc.key h r hr)).settle hc hr

/-- An entry without peers gives up when its lookups are used and it is still pending. -/
theorem reworked_noPeersFoundLocked (hkey : (c.heap r).infoHash = h) (now : ℚ) :
    ∃ entry, c.Reworked (c.noPeersFoundLocked r now) h r entry ∧
      entry.peers = (c.heap r).peers ∧ entry.lookupInProgress = (c.heap r).lookupInProgress ∧
      entry.lookupsStarted = (c.heap r).lookupsStarted ∧
      entry.fetchState =
        if c.limits.maxLookups ≤ (c.heap r).lookupsStarted ∧ (c.heap r).fetchState = .pending
        then FetchState.failed else (c.heap r).fetchState := by
  have hretry := reworked_modify hkey (fun entry ↦ { entry with
    nextLookupTime := now + c.limits.lookupRetrySeconds * entry.lookupsStarted }) .of_eq rfl rfl
  by_cases hgive : c.limits.maxLookups ≤ (c.heap r).lookupsStarted ∧
      (c.heap r).fetchState = .pending
  · have herror :=
        reworked_modify hretry.key (fun entry ↦ { entry with lastError := "no_peers" }) .of_eq rfl rfl
    have hfail := reworked_setStateLocked herror.key .failed
      (by simp [modify, hgive.2])
    rw [show c.noPeersFoundLocked r now = _ from if_pos hgive]
    refine ⟨_, hretry.trans (herror.trans hfail), ?_⟩
    simp [modify, hgive]
  · rw [show c.noPeersFoundLocked r now = _ from if_neg hgive]
    refine ⟨_, hretry, ?_⟩
    rw [if_neg hgive]
    exact ⟨rfl, rfl, rfl, rfl⟩

/-- The result of a lookup ends its claim and counts it; an entry that is still pending without a
peer has a lookup left. -/
theorem settled_lookupResultLocked (hc : c.Represented ∅) (hr : c.entries.get? h = some r)
    (peers : List Address) (now : ℚ) :
    ∃ entry, c.Settled (c.lookupResultLocked r peers now) h r entry ∧
      entry.lookupInProgress = false ∧
      entry.lookupsStarted = (c.heap r).lookupsStarted + 1 ∧
      ((c.heap r).hasPeers → entry.hasPeers) ∧
      (entry.fetchState = .inProgress ↔ (c.heap r).fetchState = .inProgress) ∧
      (entry.fetchState = .pending → (c.heap r).fetchState = .pending ∧
        (entry.hasPeers ∨ entry.lookupsStarted < c.limits.maxLookups)) := by
  have hkey := hc.key h r hr
  let ended := (c.endLookupLocked r).modify r fun entry ↦
    { entry with lookupsStarted := entry.lookupsStarted + 1 }
  have hend := reworked_endLookupLocked hkey
  have hcount := reworked_modify hend.key
    (fun entry ↦ { entry with lookupsStarted := entry.lookupsStarted + 1 }) .of_eq rfl rfl
  have hended : c.Reworked ended h r { c.heap r with
      lookupInProgress := false, lookupsStarted := (c.heap r).lookupsStarted + 1 } := by
    have htrans := hend.trans hcount
    simpa only [hend.edited.entry_eq] using htrans
  obtain ⟨known, hadd, hkeep⟩ := reworked_addPeersLocked peers hended.key
  rw [hended.edited.entry_eq] at hadd hkeep
  have hadded := hended.trans hadd
  have hentry := hadded.edited.entry_eq
  let added := (ended.addPeersLocked r peers).1
  have hop : c.lookupResultLocked r peers now =
      (if (added.heap r).hasPeers then added else added.noPeersFoundLocked r now).indexEntryLocked
        r := rfl
  by_cases hpeers : (added.heap r).hasPeers
  · refine ⟨_, by rw [hop, if_pos hpeers]; exact hadded.settle hc hr, rfl, rfl, hkeep, Iff.rfl,
      fun hpending ↦ ⟨hpending, Or.inl ?_⟩⟩
    rw [← hentry]
    exact hpeers
  · obtain ⟨entry, hnone, hsame, hlookup, hstarted, hstate⟩ :=
      reworked_noPeersFoundLocked hadded.key now
    have hlimits : added.limits = c.limits := hadded.edited.limits
    rw [hentry] at hsame hlookup hstarted hstate
    rw [show (ended.addPeersLocked r peers).1.limits = c.limits from hlimits] at hstate
    dsimp only at hlookup hstarted hstate
    refine ⟨entry, ?_, hlookup, hstarted, fun hold ↦ ?_, ?_, fun hpending ↦ ?_⟩
    · rw [hop, if_neg hpeers]
      exact (hadded.trans hnone).settle hc hr
    · have hnew : (added.heap r).hasPeers := by
        rw [show added.heap r = _ from hentry]
        exact hkeep hold
      exact absurd hnew hpeers
    · rw [hstate]
      split
      next hgive => simp [hgive.2]
      next => rfl
    · rw [hstate] at hpending
      split at hpending
      next => cases hpending
      next hgive =>
        refine ⟨hpending, Or.inr ?_⟩
        rw [hstarted]
        by_contra hle
        exact hgive ⟨Nat.le_of_not_lt hle, hpending⟩

/-! ## Fetches -/

theorem settled_claimFetch (hc : c.Represented ∅) (hr : c.entries.get? h = some r)
    (hpending : (c.heap r).fetchState = .pending) :
    c.Settled (c.claimFetch r) h r { c.heap r with fetchState := .inProgress } :=
  (reworked_setStateLocked (hc.key h r hr) .inProgress (by simp [hpending])).settle hc hr

theorem settled_releaseFetch (hc : c.Represented ∅) (hr : c.entries.get? h = some r)
    (hclaimed : (c.heap r).fetchState = .inProgress) :
    c.Settled ((c.setStateLocked r .pending).indexEntryLocked r) h r
      { c.heap r with fetchState := .pending } :=
  (reworked_setStateLocked (hc.key h r hr) .pending (by simp [hclaimed])).settle hc hr

/-- `mark_fetch_failed` leaves the entry failed, or pending with a way on. -/
theorem settled_fetchFailedLocked (hc : c.Represented ∅) (hr : c.entries.get? h = some r)
    (hclaimed : (c.heap r).fetchState = .inProgress) (triedPeers : List Address)
    (reason : String) (now : ℚ) :
    ∃ entry, c.Settled (c.fetchFailedLocked r triedPeers reason now) h r entry ∧
      entry.lookupInProgress = (c.heap r).lookupInProgress ∧
      entry.lookupsStarted = (c.heap r).lookupsStarted ∧
      (entry.fetchState = .failed ∨ entry.fetchState = .pending ∧
        (entry.hasPeers ∨ entry.lookupsStarted < c.limits.maxLookups ∨ entry.lookupInProgress)) := by
  have hkey := hc.key h r hr
  obtain ⟨known, failed, hforget⟩ := reworked_forgetPeers triedPeers hkey
  have hattempt := reworked_modify hforget.key
    (fun entry ↦ { entry with fetchAttempts := entry.fetchAttempts + 1, lastError := reason })
    .of_eq rfl rfl
  have hattempted := hforget.trans hattempt
  let tried := (triedPeers.foldl (fun c peer ↦ c.forgetPeerLocked r peer) c).modify r
    fun entry ↦ { entry with fetchAttempts := entry.fetchAttempts + 1, lastError := reason }
  let entry := tried.heap r
  let state := stateAfterFailure tried.limits entry
  have hentry : entry = { c.heap r with
      peers := known, failedPeers := failed,
      fetchAttempts := (c.heap r).fetchAttempts + 1, lastError := reason } := by
    have heq := hattempted.edited.entry_eq
    rw [hforget.edited.entry_eq] at heq
    exact heq
  have hretry := reworked_modify hattempted.key (fun entry ↦ { entry with
    lastError :=
      if tried.limits.maxFetchAttempts ≤ entry.fetchAttempts then entry.lastError
      else if state = .failed then "no_peers" else entry.lastError
    nextLookupTime :=
      if state = .pending ∧ ¬ entry.hasPeers then now else entry.nextLookupTime }) .of_eq rfl rfl
  have hstates : state = .failed ∨ state = .pending := by
    simp only [state, stateAfterFailure]
    split
    · exact Or.inl rfl
    · split
      · exact Or.inl rfl
      · exact Or.inr rfl
  have hset := reworked_setStateLocked hretry.key state (by
    rw [hretry.edited.entry_eq]
    have hold : entry.fetchState = .inProgress := by rw [hentry]; exact hclaimed
    change _ ↔ entry.fetchState = .done
    rw [hold]
    rcases hstates with hs | hs <;> simp [hs])
  refine ⟨_, (hattempted.trans (hretry.trans hset)).settle hc hr, ?_⟩
  rw [hretry.edited.entry_eq]
  change entry.lookupInProgress = _ ∧ entry.lookupsStarted = _ ∧
    (state = .failed ∨ state = .pending ∧ (entry.hasPeers ∨
      entry.lookupsStarted < c.limits.maxLookups ∨ entry.lookupInProgress))
  have hlimits : tried.limits = c.limits := hattempted.edited.limits
  refine ⟨by rw [hentry], by rw [hentry], ?_⟩
  rcases hstates with hs | hs
  · exact Or.inl hs
  · refine Or.inr ⟨hs, ?_⟩
    simp only [state, stateAfterFailure, hlimits] at hs
    by_contra hstuck
    simp only [not_or, Bool.not_eq_true, not_lt] at hstuck
    split at hs
    · cases hs
    · rw [if_pos] at hs
      · cases hs
      · simp [hstuck]

end TorrentCatalog

end DhtScraper
