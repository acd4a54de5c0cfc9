import DhtScraper.Catalog.Cells

/-!
# A failed peer never comes back, and failing ends

From its creation until its metadata is stored or a database check marks it done, an entry keeps
every peer blamed by a failed fetch in its set of failed peers, and that set away from its peers.
Every failed fetch is counted, and the count has a bound after which the entry is given up.
-/

namespace DhtScraper

open Library

/-- The peers blamed by an operation for a failed fetch of the hash; nothing is reported when the
assertions of the call fail. -/
def CatalogOp.blamed (h : Bytes) : CatalogOp → List (List Address)
  | .markFetchFailed infoHash triedPeers _ now =>
    if infoHash = h ∧ infoHash.length = nodeIdLength ∧ 0 ≤ now then [triedPeers] else []
  | _ => []

/-- The peers named by each `mark_fetch_failed` call of a run while `r` was the entry of `h`. -/
def Session.failures (h : Bytes) (r : Ref) : Session → List CatalogOp → List (List Address)
  | _, [] => []
  | s, op :: rest =>
    (if s.catalog.entries.get? h = some r then op.blamed h else []) ++
      Session.failures h r (s.exec op) rest

/-- The operation neither stores metadata in the entry `r` of `h` nor marks it done. -/
def Session.LeavesOpen (h : Bytes) (r : Ref) (s : Session) (op : CatalogOp) : Prop :=
  (s.catalog.entries.get? h = some r → ¬ op.stores h) ∧
    ((s.exec op).catalog.entries.get? h = some r →
      ((s.exec op).catalog.heap r).fetchState ≠ .done)

instance (h : Bytes) (r : Ref) (s : Session) (op : CatalogOp) : Decidable (s.LeavesOpen h r op) := by
  unfold Session.LeavesOpen
  infer_instance

/-! ## Peers -/

namespace TorrentEntry

theorem peerList_eq (e : TorrentEntry) : e.peerList = (e.peers.getD .empty).keys := by
  unfold peerList
  cases e.peers <;> rfl

/-- A peer that failed is in no list of peers, and the list is short. -/
structure PeersApart (limit : ℕ) (e : TorrentEntry) : Prop where
  apart : ∀ peer ∈ e.failedPeers.getD ∅, peer ∉ e.peerList
  short : e.peerList.length ≤ limit

/-- Adding a peer keeps the failed ones out. -/
theorem PeersApart.addPeer {limit : ℕ} {e : TorrentEntry} (hlimit : 1 ≤ limit)
    (hp : PeersApart limit e) (peer : Address) : PeersApart limit (e.addPeer peer limit).1 := by
  by_cases hfailed : peer ∈ e.failedPeers.getD ∅
  · have hsame : (e.addPeer peer limit).1 = e := by simp [TorrentEntry.addPeer, hfailed]
    rw [hsame]
    exact hp
  · have hadded : (e.addPeer peer limit).1 =
        { e with peers := some (remember (e.peers.getD .empty) peer () limit).1 } := by
      simp [TorrentEntry.addPeer, hfailed]
    obtain ⟨older, hitems, hsub⟩ := remember_items (e.peers.getD .empty) peer () hlimit
    rw [hadded]
    constructor
    · intro failed hmem hlisted
      have hkeys : failed ∈ older.map Prod.fst ++ [peer] := by
        have hlist : failed ∈ (remember (e.peers.getD .empty) peer () limit).1.keys := hlisted
        rw [OrderedMap.keys, hitems, List.map_append] at hlist
        exact hlist
      rcases List.mem_append.mp hkeys with hold | hnew
      · refine hp.apart failed hmem ?_
        rw [peerList_eq]
        have hsublist := (hsub.trans List.filter_sublist).map Prod.fst
        exact hsublist.subset hold
      · exact hfailed (List.mem_singleton.mp hnew ▸ hmem)
    · have hsize := size_remember_le (e.peers.getD .empty) peer () limit
      rw [peerList_eq, OrderedMap.keys, List.length_map]
      exact hsize

theorem PeersApart.forgetPeer {limit : ℕ} {e : TorrentEntry} (hp : PeersApart limit e)
    (peer : Address) : PeersApart limit (e.forgetPeer peer) := by
  have hkeys : (e.forgetPeer peer).peerList = e.peerList.filter fun p ↦ p ≠ peer := by
    unfold peerList TorrentEntry.forgetPeer
    cases e.peers with
    | none => rfl
    | some peers =>
      simp only [Option.map_some, OrderedMap.keys, OrderedMap.erase, OrderedMap.filterKeys]
      rw [List.filter_map]
      rfl
  constructor
  · intro failed hmem
    rw [hkeys, List.mem_filter]
    rintro ⟨hlisted, hne⟩
    simp only [TorrentEntry.forgetPeer, Option.getD_some, Finset.mem_insert] at hmem
    rcases hmem with rfl | hold
    · simp at hne
    · exact hp.apart failed hold hlisted
  · rw [hkeys]
    exact (List.length_filter_le _ _).trans hp.short

/-- Forgetting peers blames each of them and forgives none. -/
theorem forgetPeers_blames (triedPeers : List Address) (e : TorrentEntry) :
    e.failedPeers.getD ∅ ⊆ (triedPeers.foldl TorrentEntry.forgetPeer e).failedPeers.getD ∅ ∧
      ∀ peer ∈ triedPeers,
        peer ∈ (triedPeers.foldl TorrentEntry.forgetPeer e).failedPeers.getD ∅ := by
  induction triedPeers generalizing e with
  | nil => exact ⟨fun _ hp ↦ hp, fun _ hp ↦ absurd hp List.not_mem_nil⟩
  | cons first rest ih =>
    obtain ⟨hkept, hblamed⟩ := ih (e.forgetPeer first)
    have hnow : (e.forgetPeer first).failedPeers.getD ∅ = insert first (e.failedPeers.getD ∅) := rfl
    rw [hnow] at hkept
    refine ⟨fun peer hp ↦ hkept (Finset.mem_insert_of_mem hp), fun peer hp ↦ ?_⟩
    rcases List.mem_cons.mp hp with rfl | hp
    · exact hkept (Finset.mem_insert_self _ _)
    · exact hblamed peer hp

theorem PeersApart.forgetPeers {limit : ℕ} (triedPeers : List Address) {e : TorrentEntry}
    (hp : PeersApart limit e) : PeersApart limit (triedPeers.foldl TorrentEntry.forgetPeer e) := by
  induction triedPeers generalizing e with
  | nil => exact hp
  | cons first rest ih => exact ih (hp.forgetPeer first)

end TorrentEntry

/-! ## The entry while it is open -/

/-- An entry of `h` that was never done, after the given failed fetches. -/
structure Tried (limits : CatalogLimits) (h : Bytes) (failures : List (List Address))
    (e : TorrentEntry) : Prop where
  key : e.infoHash = h
  state : e.fetchState ≠ .done
  metadata : e.metadata = none
  inDatabase : e.inDatabase = false
  attempts : e.fetchAttempts = failures.length
  bounded : failures.length ≤ limits.maxFetchAttempts
  left : e.fetchState ≠ .failed → failures.length < limits.maxFetchAttempts
  blamed : ∀ tried ∈ failures, ∀ peer ∈ tried, peer ∈ e.failedPeers.getD ∅
  peers : e.PeersApart limits.maxPeersPerHash

/-- The entry was not done before the operation; at most a database check has just made it so. -/
def TriedOrKnown (limits : CatalogLimits) (h : Bytes) (failures : List (List Address))
    (op : CatalogOp) (e : TorrentEntry) : Prop :=
  Tried limits h failures e ∨ op.checksDatabase ∧ e.fetchState = .done ∧ e.metadata = none

variable {limits : CatalogLimits} {h : Bytes} {r : Ref} {failures : List (List Address)}
  {op : CatalogOp} {e e' : TorrentEntry}

theorem tried_new (now : ℚ) (checked : Bool) : Tried limits h [] (.new h now checked) where
  key := rfl
  state := fun hdone ↦ by cases hdone
  metadata := rfl
  inDatabase := rfl
  attempts := rfl
  bounded := Nat.zero_le _
  left := fun _ ↦ limits.maxFetchAttempts_pos
  blamed := fun tried htried ↦ absurd htried List.not_mem_nil
  peers := ⟨fun _ _ hlisted ↦ absurd hlisted List.not_mem_nil, Nat.zero_le _⟩

/-- Adding a peer changes the peers only. -/
theorem Tried.addPeer (ht : Tried limits h failures e) (peer : Address) :
    Tried limits h failures (e.addPeer peer limits.maxPeersPerHash).1 := by
  have hpeers := ht.peers.addPeer limits.maxPeersPerHash_pos peer
  have hsame : ∃ peers, (e.addPeer peer limits.maxPeersPerHash).1 = { e with peers := peers } := by
    unfold TorrentEntry.addPeer
    split
    · exact ⟨e.peers, rfl⟩
    · exact ⟨_, rfl⟩
  obtain ⟨peers, heq⟩ := hsame
  rw [heq] at hpeers ⊢
  exact
    { key := ht.key
      state := ht.state
      metadata := ht.metadata
      inDatabase := ht.inDatabase
      attempts := ht.attempts
      bounded := ht.bounded
      left := ht.left
      blamed := ht.blamed
      peers := hpeers }

/-- A change of state that leaves a failed entry failed. -/
theorem Tried.of_state (ht : Tried limits h failures e) {state : FetchState}
    (hdone : state ≠ .done) (hleft : state ≠ .failed → e.fetchState ≠ .failed) :
    Tried limits h failures { e with fetchState := state } where
  key := ht.key
  state := hdone
  metadata := ht.metadata
  inDatabase := ht.inDatabase
  attempts := ht.attempts
  bounded := ht.bounded
  left := fun hs ↦ ht.left (hleft hs)
  blamed := ht.blamed
  peers := ⟨ht.peers.apart, ht.peers.short⟩

theorem Tried.sighted (ht : Tried limits h failures e) (source : Source) (peer : Option Address)
    (moment : ℚ) : Tried limits h failures
      (TorrentCatalog.sightedEntry limits source peer moment e) := by
  have hcounted : Tried limits h failures (TorrentCatalog.countSighting source moment e) :=
    { key := ht.key
      state := ht.state
      metadata := ht.metadata
      inDatabase := ht.inDatabase
      attempts := ht.attempts
      bounded := ht.bounded
      left := ht.left
      blamed := ht.blamed
      peers := ⟨ht.peers.apart, ht.peers.short⟩ }
  unfold TorrentCatalog.sightedEntry
  split
  next peer =>
    split
    · exact hcounted.addPeer peer
    · exact hcounted
  next => exact hcounted

/-- The steps of an operation that stores nothing under the hash. -/
theorem TriedOrKnown.cell (hstores : ¬ op.stores h) (hstep : CellStep limits op e e')
    (ht : TriedOrKnown limits h failures op e) : TriedOrKnown limits h failures op e' := by
  rcases ht with ht | ⟨hchecks, hdone, hnone⟩
  · cases hstep with
    | noted =>
      exact Or.inl
        { key := ht.key
          state := ht.state
          metadata := ht.metadata
          inDatabase := ht.inDatabase
          attempts := ht.attempts
          bounded := ht.bounded
          left := ht.left
          blamed := ht.blamed
          peers := ⟨ht.peers.apart, ht.peers.short⟩ }
    | peerAdded peer => exact Or.inl (ht.addPeer peer)
    | gaveUp pending => exact Or.inl (ht.of_state (by decide) fun hs ↦ absurd rfl hs)
    | claimed pending => exact Or.inl (ht.of_state (by decide) fun _ ↦ by simp [pending])
    | released fetching => exact Or.inl (ht.of_state (by decide) fun _ ↦ by simp [fetching])
    | stored metadata stores => exact absurd (ht.key ▸ stores) hstores
    | dropped metadata => simp [ht.metadata] at metadata
    | written metadata => simp [ht.metadata] at metadata
    | known checks pending => exact Or.inr ⟨checks, rfl, ht.metadata⟩
    | reset inDatabase => simp [ht.inDatabase] at inDatabase
    | reopened resets done => exact absurd done ht.state
  · refine Or.inr ⟨hchecks, ?_⟩
    cases hstep with
    | noted => exact ⟨hdone, hnone⟩
    | peerAdded peer =>
      unfold TorrentEntry.addPeer
      split <;> exact ⟨hdone, hnone⟩
    | gaveUp pending => simp [hdone] at pending
    | claimed pending => simp [hdone] at pending
    | released fetching => simp [hdone] at fetching
    | stored metadata stores =>
        exact absurd stores (by cases op <;> simp_all [CatalogOp.stores, CatalogOp.checksDatabase])
    | dropped metadata => simp [hnone] at metadata
    | written metadata => simp [hnone] at metadata
    | known checks pending => simp [hdone] at pending
    | reset inDatabase => exact ⟨hdone, hnone⟩
    | reopened resets done =>
        exact absurd resets (by cases op <;> simp_all [CatalogOp.resetsBase, CatalogOp.checksDatabase])

theorem TriedOrKnown.sighted (ht : TriedOrKnown limits h failures op e) (source : Source)
    (peer : Option Address) (moment : ℚ) : TriedOrKnown limits h failures op
      (TorrentCatalog.sightedEntry limits source peer moment e) := by
  rcases ht with ht | ⟨hchecks, hdone, hnone⟩
  · exact Or.inl (ht.sighted source peer moment)
  · refine Or.inr ⟨hchecks, ?_⟩
    have hcounted : TorrentCatalog.sightedEntry limits source peer moment e =
        TorrentCatalog.countSighting source moment e := by
      unfold TorrentCatalog.sightedEntry
      cases peer with
      | none => rfl
      | some peer => simp [hdone]
    rw [hcounted]
    exact ⟨hdone, hnone⟩

/-- A failed fetch blames its peers, and the last one gives the entry up. -/
theorem Tried.failed (ht : Tried limits h failures e) (hfetching : e.fetchState = .inProgress)
    (triedPeers : List Address) (reason : String) (now : ℚ) :
    Tried limits h (failures ++ [triedPeers])
      (TorrentCatalog.failedEntry limits triedPeers reason now e) := by
  have hleft := ht.left (by simp [hfetching])
  obtain ⟨hkept, hblamed⟩ := TorrentEntry.forgetPeers_blames triedPeers e
  have hpeers := ht.peers.forgetPeers triedPeers
  let tried : TorrentEntry := { triedPeers.foldl TorrentEntry.forgetPeer e with
    fetchAttempts := (triedPeers.foldl TorrentEntry.forgetPeer e).fetchAttempts + 1
    lastError := reason }
  have hattempts : (triedPeers.foldl TorrentEntry.forgetPeer e).fetchAttempts = e.fetchAttempts :=
    foldl_keeps TorrentEntry.fetchAttempts TorrentEntry.forgetPeer (fun _ _ ↦ rfl) triedPeers e
  have hcount : tried.fetchAttempts = failures.length + 1 := by
    rw [← ht.attempts, ← hattempts]
  have hstate : (TorrentCatalog.failedEntry limits triedPeers reason now e).fetchState =
      TorrentCatalog.stateAfterFailure limits tried := rfl
  constructor
  case key =>
    exact (foldl_keeps TorrentEntry.infoHash TorrentEntry.forgetPeer (fun _ _ ↦ rfl) triedPeers
      e).trans ht.key
  case state =>
    rw [hstate, TorrentCatalog.stateAfterFailure]
    split
    · decide
    · split <;> decide
  case metadata =>
    exact (foldl_keeps TorrentEntry.metadata TorrentEntry.forgetPeer (fun _ _ ↦ rfl) triedPeers
      e).trans ht.metadata
  case inDatabase =>
    exact (foldl_keeps TorrentEntry.inDatabase TorrentEntry.forgetPeer (fun _ _ ↦ rfl) triedPeers
      e).trans ht.inDatabase
  case attempts =>
    rw [List.length_append, List.length_singleton]
    exact hcount
  case bounded =>
    rw [List.length_append, List.length_singleton]
    exact hleft
  case left =>
    intro hopen
    rw [hstate, TorrentCatalog.stateAfterFailure] at hopen
    rw [List.length_append, List.length_singleton, ← hcount]
    by_contra hlast
    exact hopen (if_pos (not_lt.mp hlast))
  case blamed =>
    intro earlier hearlier peer hpeer
    rcases List.mem_append.mp hearlier with hold | hnew
    · exact hkept (ht.blamed earlier hold peer hpeer)
    · exact hblamed peer (List.mem_singleton.mp hnew ▸ hpeer)
  case peers => exact ⟨hpeers.apart, hpeers.short⟩

/-! ## Runs -/

variable {s s' : Session}

/-- What the entry `r` of `h` went through so far. -/
structure Session.History (limits : CatalogLimits) (h : Bytes) (r : Ref)
    (failures : List (List Address)) (s : Session) : Prop where
  sound : Sound limits (fun _ ↦ True) s.catalog s.fetchClaims s.lookupClaims
  tried : TorrentCatalog.Upholds (Tried limits h failures) h r s.catalog

/-- One operation that leaves the entry open extends its history by the peers it blames. -/
theorem Session.History.exec (hs : s.History limits h r failures)
    (hop : s.permits claimedStoresOnly op) (hopen : s.LeavesOpen h r op) :
    (s.exec op).History limits h r
      (failures ++ if s.catalog.entries.get? h = some r then op.blamed h else []) := by
  have hinv := anyEntry_invariant limits claimedStoresOnly
  refine ⟨s.exec_sound hinv hs.sound op hop, ?_⟩
  by_cases hfailure : op.reportsFailure
  · cases op with
    | markFetchFailed k triedPeers reason now =>
      obtain ⟨r', hr', hfetching, hnext, hheap⟩ := s.exec_failed hs.sound
        triedPeers reason now hop
      have hentries := s.exec_entries hs.sound hop Bool.false_ne_true
      constructor
      · intro hr
        rw [hentries] at hr
        rw [if_pos hr, hheap]
        by_cases hk : k = h
        · subst hk
          have heq : r' = r := Option.some.inj (hr'.symm.trans hr)
          subst heq
          by_cases hasserts : k.length = nodeIdLength ∧ 0 ≤ now
          · rw [if_pos hasserts, Function.update_self,
              show (CatalogOp.markFetchFailed k triedPeers reason now).blamed k = [triedPeers] from
                if_pos ⟨rfl, hasserts⟩]
            exact (hs.tried.live hr).failed hfetching triedPeers reason now
          · rw [if_neg hasserts,
              show (CatalogOp.markFetchFailed k triedPeers reason now).blamed k = [] from
                if_neg fun hall ↦ hasserts hall.2, List.append_nil]
            exact hs.tried.live hr
        · have hne : r ≠ r' := fun heq ↦
            hk (hs.sound.represented.live_unique hr (hr'.trans (congrArg some heq.symm)))
          rw [show (CatalogOp.markFetchFailed k triedPeers reason now).blamed h = [] from
            if_neg fun hall ↦ hk hall.1, List.append_nil]
          split
          · rw [Function.update_of_ne hne]
            exact hs.tried.live hr
          · exact hs.tried.live hr
      · intro hle now' checked
        rw [hnext] at hle
        rw [if_neg fun hr ↦ absurd (hs.sound.represented.allocated h r hr) (not_lt.mpr hle),
          List.append_nil]
        exact hs.tried.fresh hle now' checked
    | _ => exact absurd hfailure Bool.false_ne_true
  · have hblamed : op.blamed h = [] := by
      cases op with
      | markFetchFailed => exact absurd rfl hfailure
      | _ => rfl
    rw [hblamed, ite_self, List.append_nil]
    have hnext := s.exec_upholds (P := TriedOrKnown limits h failures op) hs.sound hinv hop
      hfailure (fun source peer moment e he ↦ he.sighted source peer moment)
      (fun hr e e' hstep he ↦ he.cell (hopen.1 hr) hstep)
      ⟨fun hr ↦ Or.inl (hs.tried.live hr), fun hle now checked ↦
        Or.inl (hs.tried.fresh hle now checked)⟩
    constructor
    · intro hr
      exact (hnext.live hr).resolve_right fun hknown ↦ hopen.2 hr hknown.2.1
    · intro hle now checked
      exact (hnext.fresh hle now checked).resolve_right fun hknown ↦ by cases hknown.2.1

/-- A whole run that leaves the entry open. -/
theorem Session.History.run (ops : List CatalogOp) : ∀ {s : Session}
    {failures : List (List Address)}, s.History limits h r failures →
    catalogMachine.Along (fun s op ↦ s.permits claimedStoresOnly op ∧ s.LeavesOpen h r op) s ops →
    catalogMachine.run s ops = some s' →
    s'.History limits h r (failures ++ Session.failures h r s ops) := by
  induction ops with
  | nil =>
    intro s failures hs _ hrun
    simp only [Machine.run_nil, Option.some.injEq] at hrun
    rw [← hrun, Session.failures, List.append_nil]
    exact hs
  | cons op rest ih =>
    intro s failures hs hops hrun
    obtain ⟨mid, hmid, hrest⟩ := catalogMachine.run_cons_eq_some.mp hrun
    simp only [catalogMachine, Option.some.injEq] at hmid
    subst hmid
    have hnext := hs.exec hops.1.1 hops.1.2
    have hall := ih hnext (hops.2 _ rfl) hrest
    rw [Session.failures, ← List.append_assoc]
    exact hall

/-- An entry that was given up. -/
structure GivenUp (h : Bytes) (e : TorrentEntry) : Prop where
  key : e.infoHash = h
  state : e.fetchState = .failed
  metadata : e.metadata = none
  inDatabase : e.inDatabase = false

theorem Tried.givenUp (ht : Tried limits h failures e)
    (hlast : failures.length = limits.maxFetchAttempts) : GivenUp h e where
  key := ht.key
  state := by
    by_contra hstate
    exact absurd (ht.left hstate) (by omega)
  metadata := ht.metadata
  inDatabase := ht.inDatabase

theorem GivenUp.sighted (hg : GivenUp h e) (source : Source) (peer : Option Address) (moment : ℚ) :
    GivenUp h (TorrentCatalog.sightedEntry limits source peer moment e) := by
  unfold TorrentCatalog.sightedEntry TorrentEntry.addPeer
  repeat' split
  all_goals exact ⟨hg.key, hg.state, hg.metadata, hg.inDatabase⟩

theorem GivenUp.cell (hstores : ¬ op.stores h) (hstep : CellStep limits op e e')
    (hg : GivenUp h e) : GivenUp h e' := by
  cases hstep with
  | noted => exact ⟨hg.key, hg.state, hg.metadata, hg.inDatabase⟩
  | peerAdded peer =>
    unfold TorrentEntry.addPeer
    split <;> exact ⟨hg.key, hg.state, hg.metadata, hg.inDatabase⟩
  | gaveUp pending => exact ⟨hg.key, rfl, hg.metadata, hg.inDatabase⟩
  | claimed pending => simp [hg.state] at pending
  | released fetching => simp [hg.state] at fetching
  | stored metadata stores => exact absurd (hg.key ▸ stores) hstores
  | dropped metadata => simp [hg.metadata] at metadata
  | written metadata => simp [hg.metadata] at metadata
  | known checks pending => simp [hg.state] at pending
  | reset inDatabase => simp [hg.inDatabase] at inDatabase
  | reopened resets done => simp [hg.state] at done

/-- No permitted operation brings an entry back that was given up. -/
theorem Session.exec_givenUp
    (hs : Sound limits (fun _ ↦ True) s.catalog s.fetchClaims s.lookupClaims)
    (hop : s.permits claimedStoresOnly op)
    (hg : TorrentCatalog.Upholds (GivenUp h) h r s.catalog) :
    TorrentCatalog.Upholds (GivenUp h) h r (s.exec op).catalog := by
  by_cases hfailure : op.reportsFailure
  · cases op with
    | markFetchFailed k triedPeers reason now =>
      obtain ⟨r', hr', hfetching, hnext, hheap⟩ := s.exec_failed hs triedPeers
        reason now hop
      have hentries := s.exec_entries hs hop Bool.false_ne_true
      refine ⟨fun hr ↦ ?_, fun hle ↦ hg.fresh (hnext ▸ hle)⟩
      rw [hentries] at hr
      -- the entry in progress is another one
      have hne : r ≠ r' := fun heq ↦ by
        rw [← heq, (hg.live hr).state] at hfetching
        cases hfetching
      rw [hheap]
      split
      · rw [Function.update_of_ne hne]
        exact hg.live hr
      · exact hg.live hr
    | _ => exact absurd hfailure Bool.false_ne_true
  · refine s.exec_upholds hs (anyEntry_invariant limits claimedStoresOnly) hop hfailure
      (fun source peer moment e he ↦ he.sighted source peer moment) (fun hr e e' hstep he ↦ ?_) hg
    refine he.cell (fun hstores ↦ ?_) hstep
    cases op with
    | storeMetadata metadata now =>
      have hkey : metadata.infoHash = h := of_decide_eq_true hstores
      have hclaimed := (hs.mem_fetching hr).mp (hkey ▸ hop rfl)
      rw [(hg.live hr).state] at hclaimed
      cases hclaimed
    | _ => exact absurd hstores Bool.false_ne_true

theorem Session.run_givenUp
    (hs : Sound limits (fun _ ↦ True) s.catalog s.fetchClaims s.lookupClaims)
    (hg : TorrentCatalog.Upholds (GivenUp h) h r s.catalog) {ops : List CatalogOp}
    (hops : catalogMachine.Along (fun s op ↦ s.permits claimedStoresOnly op) s ops)
    (hrun : catalogMachine.run s ops = some s') :
    TorrentCatalog.Upholds (GivenUp h) h r s'.catalog := by
  refine (catalogMachine.run_guarded_invariant
    (I := fun s ↦ Sound limits (fun _ ↦ True) s.catalog s.fetchClaims s.lookupClaims ∧
      TorrentCatalog.Upholds (GivenUp h) h r s.catalog) ?_ ⟨hs, hg⟩ hops hrun).2
  rintro s op s' ⟨hs, hg⟩ hop hstep
  simp only [catalogMachine, Option.some.injEq] at hstep
  exact hstep ▸ ⟨s.exec_sound (anyEntry_invariant limits claimedStoresOnly) hs op hop,
    s.exec_givenUp hs hop hg⟩

/-- While an entry is open, a fetch of it is offered a short list of distinct peers, none of which was
blamed before; its failed fetches are bounded, and the last one gives it up for good. -/
theorem failed_peers_stay_out (limits : CatalogLimits) (h : Bytes) (r : Ref) (ops : List CatalogOp)
    (s : Session)
    (hops : catalogMachine.Along (fun s op ↦ s.permits claimedStoresOnly op ∧ s.LeavesOpen h r op)
      (.new limits) ops)
    (hrun : catalogMachine.run (.new limits) ops = some s)
    (hlive : s.catalog.entries.get? h = some r) :
    (∀ limit peers, (h, peers) ∈ (s.catalog.settle.nextFetchCandidates limit).2 →
      peers ≠ [] ∧ peers.Nodup ∧ peers.length ≤ limits.maxPeersPerHash ∧
        ∀ tried ∈ Session.failures h r (.new limits) ops, ∀ peer ∈ tried, peer ∉ peers) ∧
    (Session.failures h r (.new limits) ops).length ≤ limits.maxFetchAttempts ∧
    ((Session.failures h r (.new limits) ops).length = limits.maxFetchAttempts →
      (s.catalog.heap r).fetchState = .failed ∧
        ∀ later s', catalogMachine.Along (fun s op ↦ s.permits claimedStoresOnly op) s later →
          catalogMachine.run s later = some s' → s'.catalog.entries.get? h = some r →
          (s'.catalog.heap r).fetchState = .failed) := by
  have hstart : (Session.new limits).History limits h r [] :=
    ⟨Session.new_sound, ⟨fun hr ↦ (by cases hr), fun _ now checked ↦ tried_new now checked⟩⟩
  have hs := hstart.run ops hops hrun
  rw [List.nil_append] at hs
  have htried := hs.tried.live hlive
  refine ⟨fun limit peers hmem ↦ ?_, htried.bounded, fun hlast ↦ ?_⟩
  · obtain ⟨r', hr', hcandidate⟩ := List.mem_map.mp hmem
    obtain ⟨k, hk, hready⟩ :=
      (Sound.fetchCandidates_spec hs.sound.settle.represented limit).2 r' hr'
    obtain ⟨hkey, hpeers⟩ := Prod.mk.inj hcandidate
    have hsame : k = h := (hs.sound.settle.represented.key k r' hk).symm.trans hkey
    have heq : r' = r := Option.some.inj ((hsame ▸ hk).symm.trans hlive)
    subst heq
    have hlist : peers = (s.catalog.heap r').peerList := hpeers.symm
    have hnonempty : (s.catalog.heap r').hasPeers := (of_decide_eq_true hready).2.2
    rw [hlist]
    refine ⟨fun hempty ↦ ?_, ?_, htried.peers.short, fun tried htr peer hp ↦
      htried.peers.apart peer (htried.blamed tried htr peer hp)⟩
    · rw [TorrentEntry.peerList_eq] at hempty
      unfold TorrentEntry.hasPeers at hnonempty
      cases hp : (s.catalog.heap r').peers with
      | none => simp [hp] at hnonempty
      | some known =>
        rw [hp, Option.getD_some, OrderedMap.keys, List.map_eq_nil_iff] at hempty
        simp [hp, OrderedMap.size, hempty] at hnonempty
    · rw [TorrentEntry.peerList_eq]
      exact OrderedMap.nodup _
  · have hgone := htried.givenUp hlast
    refine ⟨hgone.state, fun later s' hlater hrun' hlive' ↦ ?_⟩
    have hold := hs.sound.represented.allocated h r hlive
    exact ((Session.run_givenUp hs.sound
      ⟨fun _ ↦ hgone, fun hle ↦ absurd hold (not_lt.mpr hle)⟩ hlater hrun').live hlive').state

/-- A fetch of a hash with one peer fails. -/
def failedOps : List CatalogOp :=
  [.recordHash (sampleHash 1) .announcePeer (some samplePeer) 0, .nextFetchCandidates 1,
    .markFetchFailed (sampleHash 1) [samplePeer] "closed" 0]

theorem failed_peers_stay_out_failed :
    ∃ s, catalogMachine.run (.new oneAttempt) failedOps = some s ∧
      Session.failures (sampleHash 1) 0 (.new oneAttempt) failedOps = [[samplePeer]] ∧
      ∃ s', catalogMachine.run s [.addPeers (sampleHash 1) [samplePeer]] = some s' ∧
        (s'.catalog.heap 0).fetchState = .failed := by
  refine ⟨_, catalogMachine_run _ _, by decide +kernel, _, catalogMachine_run _ _, ?_⟩
  exact ((failed_peers_stay_out oneAttempt (sampleHash 1) 0 failedOps _ (by decide +kernel)
    (catalogMachine_run _ _) (by decide +kernel)).2.2 (by decide +kernel)).2
    [.addPeers (sampleHash 1) [samplePeer]] _ (by decide +kernel) (catalogMachine_run _ _)
    (by decide +kernel)

end DhtScraper
