import DhtScraper.Catalog.Client

/-!
# What the callers hold

What the catalog hands out to a caller, and which operations the caller may answer with.  The hashes
handed out at once are distinct, none of them is claimed, and every one has the length of a hash.
-/

namespace DhtScraper

open Library

/-- The callers give back only the claims they hold. -/
def Permitted (s : Session) (op : CatalogOp) : Prop :=
  s.permits { claimedStores := false, openResets := false } op

instance (s : Session) (op : CatalogOp) : Decidable (Permitted s op) :=
  inferInstanceAs (Decidable (s.permits _ op))

theorem Session.sound_of_leads {limits : CatalogLimits} {ops : List CatalogOp} {s : Session}
    (h : catalogMachine.Leads Permitted (.new limits) ops s) :
    Sound limits (fun _ ↦ True) s.catalog s.fetchClaims s.lookupClaims :=
  Session.run_sound (anyEntry_invariant limits _) h.along h.run

/-- An operation whose assertions hold does its work. -/
theorem TorrentCatalog.of_guarded {c body : TorrentCatalog} {p : Prop} [Decidable p]
    (h : (c.guarded p body).raised = false) : p := by
  by_contra hp
  rw [TorrentCatalog.guarded, if_neg hp] at h
  cases h

/-- The hashes that are handed out for lookups are distinct, and none is claimed. -/
theorem Sound.hashesNeedingPeers_spec {limits : CatalogLimits} {c : TorrentCatalog}
    {F L : Finset Bytes} (hs : Sound limits (fun _ ↦ True) c F L) (limit : ℕ) (now : ℚ) :
    (c.hashesNeedingPeers limit now).2.Nodup ∧ ∀ h ∈ (c.hashesNeedingPeers limit now).2, h ∉ L := by
  constructor
  · unfold TorrentCatalog.hashesNeedingPeers
    dsimp only
    split
    · have hvalues := TorrentCatalog.nodup_values hs.represented hs.represented.needsLookup_live
      have hchosen : (c.lookupCandidates limit now).Nodup :=
        ((List.nodup_reverse.mpr hvalues).filter _).sublist (List.take_sublist _ _)
      refine hchosen.map_on fun r hr r' hr' hhash ↦ ?_
      have hlive {r : Ref} (hr : r ∈ c.lookupCandidates limit now) :
          c.entries.get? (c.heap r).infoHash = some r := by
        have hmem := (List.mem_filter.mp (List.mem_of_mem_take hr)).1
        obtain ⟨h, hh⟩ := OrderedMap.mem_values_iff.mp (List.mem_reverse.mp hmem)
        have hentry := hs.represented.needsLookup_live h r hh
        rwa [hs.represented.key h r hentry]
      have heq := hlive hr
      rw [hhash, hlive hr'] at heq
      exact (Option.some.inj heq).symm
    · exact List.nodup_nil
  · intro h hh hclaimed
    obtain ⟨r, hr, hfree⟩ := hs.free_of_candidate hh
    rw [hs.mem_lookingUp hr, hfree] at hclaimed
    cases hclaimed

theorem TorrentEntry.peerList_ne_nil (entry : TorrentEntry) (h : entry.hasPeers) :
    entry.peerList ≠ [] := by
  unfold TorrentEntry.hasPeers at h
  unfold TorrentEntry.peerList
  split at h
  next => cases h
  next peers _ =>
    intro hnil
    have hempty : peers.items = [] := List.map_eq_nil_iff.mp hnil
    exact absurd (congrArg List.length hempty) (of_decide_eq_true h)

/-- The hashes that are handed out for fetches are distinct, none is claimed, and each comes with
peers. -/
theorem Sound.nextFetchCandidates_spec {limits : CatalogLimits} {c : TorrentCatalog}
    {F L : Finset Bytes} (hs : Sound limits (fun _ ↦ True) c F L) (limit : ℕ) :
    ((c.nextFetchCandidates limit).2.map Prod.fst).Nodup ∧
      ∀ candidate ∈ (c.nextFetchCandidates limit).2, candidate.1 ∉ F ∧ candidate.2 ≠ [] ∧
        (c.entries.get? candidate.1).isSome := by
  obtain ⟨hnodup, hready⟩ := fetchCandidates_spec hs.represented limit
  have hlive {r : Ref} (hr : r ∈ c.fetchCandidates limit) :
      c.entries.get? (c.heap r).infoHash = some r ∧ (c.heap r).readyToFetch := by
    obtain ⟨h, hentry, hentryReady⟩ := hready r hr
    rw [hs.represented.key h r hentry]
    exact ⟨hentry, hentryReady⟩
  constructor
  · have hresult : (c.nextFetchCandidates limit).2.map Prod.fst =
        (c.fetchCandidates limit).map fun r ↦ (c.heap r).infoHash := by
      simp [TorrentCatalog.nextFetchCandidates, Function.comp_def]
    rw [hresult]
    refine hnodup.map_on fun r hr r' hr' hhash ↦ ?_
    have heq := (hlive hr).1
    rw [hhash, (hlive hr').1] at heq
    exact (Option.some.inj heq).symm
  · intro candidate hcandidate
    obtain ⟨r, hr, rfl⟩ := List.mem_map.mp hcandidate
    obtain ⟨hentry, hentryReady⟩ := hlive hr
    simp only [TorrentEntry.readyToFetch, decide_eq_true_eq] at hentryReady
    obtain ⟨hpending, -, hpeers⟩ := hentryReady
    refine ⟨fun hclaimed ↦ ?_, (c.heap r).peerList_ne_nil hpeers,
      Option.isSome_iff_exists.mpr ⟨r, hentry⟩⟩
    rw [hs.mem_fetching hentry, hpending] at hclaimed
    cases hclaimed

/-! ## The length of a hash -/

namespace TorrentCatalog

/-- Every entry has a hash of the right length. -/
def HashLengths (c : TorrentCatalog) : Prop :=
  ∀ h, (c.entries.get? h).isSome → h.length = nodeIdLength

theorem HashLengths.obtained {c mid : TorrentCatalog} {h : Bytes} {moment : ℚ} {r : Ref}
    (hc : c.HashLengths) (hlength : h.length = nodeIdLength) (hobtained : c.Obtained mid h moment r) :
    mid.HashLengths := by
  intro k hk
  by_cases heq : k = h
  · exact heq ▸ hlength
  · rw [hobtained.other_live heq] at hk
    exact hc k hk

/-- Entries are made for hashes whose length was checked. -/
theorem hashLengths_rules : ClientRules (fun _ _ ↦ True) (fun _ _ ↦ True)
    fun _ c ↦ c.HashLengths where
  quiet := fun _ _ _ _ hc ↦ hc
  reworked := fun _ c c' h r entry _ hc _ hw k hk ↦ hc k (hw.edited.entries ▸ hk)
  sighted := fun _ c mid c' h r source moment entry _ hc hlength ho _ _ hs k hk ↦
    hc.obtained hlength ho k (hs.edited.entries ▸ hk)
  evicted := fun _ c c' h r _ hc _ _ _ he k hk ↦ by
    rw [he.entries, OrderedMap.get?_erase] at hk
    split at hk
    · cases hk
    · exact hc k hk
  stored := fun _ c mid c' r metadata now _ hc _ ho _ _ hs k hk ↦
    hc.obtained metadata.infoHash_length ho k (hs.edited.entries ▸ hk)
  dropped := fun _ c key r rest _ hc _ k hk ↦ by
    rw [entries_dropUnwrittenMetadataLocked] at hk
    exact hc k hk
  stable := fun _ _ _ _ _ _ _ _ ↦ trivial

end TorrentCatalog

/-- After any permitted operations every entry has a hash of the right length. -/
theorem Session.hashLengths_of_leads {limits : CatalogLimits} {ops : List CatalogOp} {s : Session}
    (h : catalogMachine.Leads Permitted (.new limits) ops s) : s.catalog.HashLengths := by
  have hinv := anyEntry_invariant limits { claimedStores := false, openResets := false }
  have hend := catalogMachine.run_guarded_invariant
    (I := fun s ↦ Sound limits (fun _ ↦ True) s.catalog s.fetchClaims s.lookupClaims ∧
      s.catalog.HashLengths) ?_ ⟨new_sound, fun h hh ↦ by cases hh⟩ h.along h.run
  · exact hend.2
  · rintro s op s' ⟨hs, hlengths⟩ hop hstep
    obtain rfl := Option.some.inj hstep
    refine ⟨s.exec_sound hinv hs op hop, ?_⟩
    cases hclient : op.isClient with
    | true =>
      exact @TorrentCatalog.ClientRules.apply _ _ _ [] _ _ _ _ TorrentCatalog.hashLengths_rules hs op
        hclient hop (TorrentCatalog.opAllowed_of_forall (fun _ _ ↦ trivial) (fun _ _ ↦ trivial) _ _)
        hlengths
    | false =>
      have hkeeps : TorrentCatalog.keepsEntries op := by
        cases op <;> first | rfl | cases hclient
      intro k hk
      have hentries : (s.exec op).catalog.entries = s.catalog.entries :=
        TorrentCatalog.entries_apply s.catalog.settle hkeeps
      exact hlengths k (hentries ▸ hk)

end DhtScraper
