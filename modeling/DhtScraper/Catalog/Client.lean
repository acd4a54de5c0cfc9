import DhtScraper.Catalog.Claims

/-!
# Induction over the operations of the crawler and fetch threads

An operation of these two threads is a sequence of small changes: an entry is reworked, sighted,
evicted or stored, and a full document queue drops its oldest document.  `ClientRules` lists what a
property has to survive; it may depend on the sightings recorded so far, and it may rule out some
evictions and some stores.
-/

namespace DhtScraper

open Library

/-- One recorded sighting. -/
abbrev Sighting := Bytes × Source

/-- The sightings an operation records: none when its assertions fail. -/
def CatalogOp.sightings : CatalogOp → List Sighting
  | .recordHash infoHash source _ now =>
    if infoHash.length = nodeIdLength ∧ 0 ≤ now then [(infoHash, source)] else []
  | .recordHashes infoHashes source now =>
    if (∀ infoHash ∈ infoHashes, infoHash.length = nodeIdLength) ∧ 0 ≤ now then
      infoHashes.map fun infoHash ↦ (infoHash, source)
    else []
  | _ => []

/-- The operations of the crawler and fetch threads. -/
def CatalogOp.isClient : CatalogOp → Bool
  | .recordHash .. | .recordHashes .. | .addPeers .. | .hashesNeedingPeers ..
  | .releaseLookupClaim .. | .addLookupResult .. | .nextFetchCandidates .. | .storeMetadata ..
  | .markFetchFailed .. | .releaseFetchClaim .. => true
  | _ => false

namespace TorrentCatalog

/-- Metadata is stored in the live entry `r` of `h` and its document is queued, unless the hash
already has one waiting. -/
structure Stored (mid c' : TorrentCatalog) (h : Bytes) (r : Ref) (metadata : TorrentMetadata) :
    Prop where
  edited : mid.Edited c' h r (storedEntry (mid.heap r) metadata)
  indexTracking : c'.indexTracking = mid.indexTracking
  indexMaxPending : c'.indexMaxPending = mid.indexMaxPending
  checkDatabase : c'.checkDatabase = mid.checkDatabase
  orphanCounters : c'.orphanCounters = mid.orphanCounters
  indexDropped : c'.indexDropped = mid.indexDropped
  indexDocuments : c'.indexDocuments =
    if mid.indexTracking then mid.indexDocuments.setDefault h r else mid.indexDocuments
  indexCounters : c'.indexCounters =
    if mid.indexTracking then mid.indexCounters.erase h else mid.indexCounters

/-! ## Allowed operations -/

section Allowed

variable (E : TorrentCatalog → Ref → Prop) (S : TorrentCatalog → Bytes → Prop)

/-- The evictions caused by one sighting are allowed. -/
def recordAllowed (c : TorrentCatalog) (h : Bytes) (source : Source) (peer : Option Address)
    (moment : ℚ) : Prop :=
  let sighted := (c.sightLocked h source peer moment).1
  sighted.limits.maxEntries < sighted.entries.size → ∀ r ∈ sighted.evictionVictims, E sighted r

def recordEachAllowed (c : TorrentCatalog) (source : Source) (now : ℚ) : List Bytes → Prop
  | [] => True
  | h :: rest => c.recordAllowed E h source none now ∧
      (c.recordLocked h source none now).1.recordEachAllowed source now rest

/-- The evictions and the store of an operation are allowed. -/
def opAllowed (c : TorrentCatalog) : CatalogOp → Prop
  | .recordHash h source peer now => c.recordAllowed E h source peer now
  | .recordHashes hashes source now => c.recordEachAllowed E source now hashes
  | .storeMetadata metadata _ => S c metadata.infoHash
  | _ => True

variable {E S}

/-- Without restrictions on evictions an operation is allowed when its metadata may be stored. -/
theorem opAllowed_of_stored (hE : ∀ c r, E c r) (c : TorrentCatalog) (op : CatalogOp)
    (hS : ∀ metadata now, op = .storeMetadata metadata now → S c metadata.infoHash) :
    c.opAllowed E S op := by
  have heach (source : Source) (now : ℚ) (hashes : List Bytes) :
      ∀ c : TorrentCatalog, c.recordEachAllowed E source now hashes := by
    induction hashes with
    | nil => exact fun _ ↦ trivial
    | cons h rest ih => exact fun c ↦ ⟨fun _ r _ ↦ hE _ r, ih _⟩
  cases op with
  | recordHash h source peer now => exact fun _ r _ ↦ hE _ r
  | recordHashes hashes source now => exact heach source now hashes c
  | storeMetadata metadata now => exact hS metadata now rfl
  | _ => trivial

/-- Without restrictions everything is allowed. -/
theorem opAllowed_of_forall (hE : ∀ c r, E c r) (hS : ∀ c h, S c h) (c : TorrentCatalog)
    (op : CatalogOp) : c.opAllowed E S op :=
  opAllowed_of_stored hE c op fun metadata _ _ ↦ hS c metadata.infoHash

variable (E S)

variable [∀ c r, Decidable (E c r)] [∀ c h, Decidable (S c h)]

instance (c : TorrentCatalog) (h : Bytes) (source : Source) (peer : Option Address) (moment : ℚ) :
    Decidable (c.recordAllowed E h source peer moment) := by
  unfold recordAllowed
  infer_instance

instance decidableRecordEachAllowed (source : Source) (now : ℚ) : ∀ (hashes : List Bytes)
    (c : TorrentCatalog), Decidable (c.recordEachAllowed E source now hashes)
  | [], _ => isTrue trivial
  | h :: rest, c =>
    have := decidableRecordEachAllowed source now rest (c.recordLocked h source none now).1
    inferInstanceAs (Decidable (_ ∧ _))

instance (c : TorrentCatalog) (op : CatalogOp) : Decidable (c.opAllowed E S op) := by
  apply op.casesOn (motive := fun op ↦ Decidable (c.opAllowed E S op)) <;> intros <;>
    unfold opAllowed <;> infer_instance

end Allowed

/-- What a property of the catalog and of the sightings recorded so far has to survive. -/
structure ClientRules (E : TorrentCatalog → Ref → Prop) (S : TorrentCatalog → Bytes → Prop)
    (I : List Sighting → TorrentCatalog → Prop) : Prop where
  quiet : ∀ past c n b, I past c → I past { c with evicted := n, raised := b }
  reworked : ∀ past (c c' : TorrentCatalog) h r entry, c.Represented ∅ → I past c →
    c.entries.get? h = some r → c.Reworked c' h r entry → I past c'
  sighted : ∀ past (c mid c' : TorrentCatalog) h r source moment entry, c.Represented ∅ →
    I past c → h.length = nodeIdLength → c.Obtained mid h moment r → c.QueuesKept mid →
    mid.Represented {h} → mid.Sighted c' h r source moment entry → I (past ++ [(h, source)]) c'
  evicted : ∀ past (c c' : TorrentCatalog) h r, c.Represented ∅ → I past c →
    c.entries.get? h = some r → (c.heap r).isEvictable → E c r → c.Evicted c' h r → I past c'
  stored : ∀ past (c mid c' : TorrentCatalog) r metadata now, c.Represented ∅ → I past c →
    S c metadata.infoHash → c.Obtained mid metadata.infoHash now r → c.QueuesKept mid →
    mid.Represented {metadata.infoHash} → mid.Stored c' metadata.infoHash r metadata → I past c'
  dropped : ∀ past (c : TorrentCatalog) key r rest, c.Represented ∅ → I past c →
    c.indexDocuments.popFirst = some ((key, r), rest) →
    I past ({ c with
      indexDocuments := rest
      indexDropped := c.indexDropped + 1 }.dropUnwrittenMetadataLocked r)
  /-- Evicting one entry does not change whether another one may be evicted. -/
  stable : ∀ (c c' : TorrentCatalog) h r r', c.Evicted c' h r → r' ≠ r → E c r' → E c' r'

namespace ClientRules

variable {E : TorrentCatalog → Ref → Prop} {S : TorrentCatalog → Bytes → Prop}
  {I : List Sighting → TorrentCatalog → Prop} {past : List Sighting} {c c' : TorrentCatalog}
  {h : Bytes} {r : Ref} {entry : TorrentEntry}

theorem check (hI : ClientRules E S I) (hc : I past c) (p : Prop) [Decidable p] :
    I past (c.check p) := hI.quiet past c c.evicted _ hc

theorem assertInvariantsLocked (hI : ClientRules E S I) (hc : I past c) :
    I past c.assertInvariantsLocked := hI.check hc _

theorem settle (hI : ClientRules E S I) (hc : I past c) : I past c.settle :=
  hI.quiet past c c.evicted false hc

theorem raised (hI : ClientRules E S I) (hc : I past c) : I past { c with raised := true } :=
  hI.quiet past c c.evicted true hc

/-- The body of an operation runs only when its assertions hold. -/
theorem guarded (hI : ClientRules E S I) (hc : I past c) {p : Prop} [Decidable p]
    {body : TorrentCatalog} (hbody : p → I past body) : I past (c.guarded p body) := by
  unfold TorrentCatalog.guarded
  split
  next hp => exact hbody hp
  next => exact hI.raised hc

theorem settled (hI : ClientRules E S I) (hrep : c.Represented ∅) (hc : I past c)
    (hr : c.entries.get? h = some r) (hs : c.Settled c' h r entry) : I past c' :=
  hI.reworked past c c' h r entry hrep hc hr hs.reworked

/-! ## Recording -/

theorem evictLocked (hI : ClientRules E S I) (hrep : c.Represented ∅) (hc : I past c)
    (hallowed : ∀ r ∈ c.evictionVictims, E c r) :
    I past c.evictLocked.1 ∧ c.evictLocked.1.Represented ∅ := by
  refine evictLocked_induction_of_allowed (I := I past) hrep hc hallowed hI.stable ?_ (hI.quiet past)
  intro c h r hrep hc hr hfree hE
  exact hI.evicted past c _ h r hrep hc hr hfree hE (evicted_evictOneLocked (hrep.key h r hr))

theorem recordLocked (hI : ClientRules E S I) (hrep : c.Represented ∅) (hc : I past c)
    (hlength : h.length = nodeIdLength) {source : Source} {peer : Option Address} {moment : ℚ}
    (hallowed : c.recordAllowed E h source peer moment) :
    I (past ++ [(h, source)]) (c.recordLocked h source peer moment).1 ∧
      (c.recordLocked h source peer moment).1.Represented ∅ := by
  obtain ⟨hsightedRep, mid, entry, hmid, hobtained, hqueues, -, hsighted⟩ :=
    sightLocked_spec hrep h source peer moment
  have hnext := hI.sighted past c mid _ h _ source moment entry hrep hc hlength hobtained hqueues
    hmid hsighted
  simp only [TorrentCatalog.recordLocked]
  split
  next hfull =>
    obtain ⟨hevicted, hevictedRep⟩ := hI.evictLocked hsightedRep hnext (hallowed hfull)
    exact ⟨hI.check hevicted _, hevictedRep.check _⟩
  next => exact ⟨hI.check hnext _, hsightedRep.check _⟩

theorem recordEachLocked (hI : ClientRules E S I) {source : Source} {now : ℚ}
    (hashes : List Bytes) : ∀ {past : List Sighting} {c : TorrentCatalog}, c.Represented ∅ →
      I past c → (∀ h ∈ hashes, h.length = nodeIdLength) →
      c.recordEachAllowed E source now hashes →
      I (past ++ hashes.map fun h ↦ (h, source)) (c.recordEachLocked source now hashes).1 := by
  induction hashes with
  | nil =>
    intro past c _ hc _ _
    rw [List.map_nil, List.append_nil]
    exact hc
  | cons first rest ih =>
    intro past c hrep hc hlength hallowed
    obtain ⟨hfirst, hfirstRep⟩ :=
      hI.recordLocked hrep hc (hlength first List.mem_cons_self) hallowed.1
    have hrest := ih hfirstRep hfirst (fun h hh ↦ hlength h (List.mem_cons_of_mem _ hh)) hallowed.2
    rw [List.map_cons, ← List.singleton_append, ← List.append_assoc]
    exact hrest

/-! ## Storing -/

theorem dropOldestDocument (hI : ClientRules E S I) (hrep : c.Represented ∅) (hc : I past c) :
    I past c.dropOldestDocument := by
  rcases c.dropOldestDocument_cases with heq | ⟨key, dropped, rest, hpop, heq⟩
  · rw [heq]
    exact hc
  · rw [heq]
    exact hI.dropped past c key dropped rest hrep hc hpop

theorem storeMetadata (hI : ClientRules E S I) (hrep : c.Represented ∅) (hc : I past c)
    {metadata : TorrentMetadata} (hallowed : S c metadata.infoHash) (now : ℚ) :
    I past (c.storeMetadata metadata now).1 := by
  let h := metadata.infoHash
  obtain ⟨hmid, hobtained, hqueues, -⟩ := getOrCreateLocked_spec hrep h now
  let mid := (c.getOrCreateLocked h now).1
  let r := (c.getOrCreateLocked h now).2.1
  obtain ⟨hedited, hstoredRep, hkept⟩ := storeLocked_spec hmid hobtained.entry_live metadata
  let stored := mid.storeLocked r metadata
  have hkey : (stored.heap r).infoHash = h := hedited.key
  refine hI.guarded hc fun _ ↦ hI.assertInvariantsLocked ?_
  by_cases htracking : stored.indexTracking
  · have htracking' : mid.indexTracking := hkept.indexTracking ▸ htracking
    have hqueued : mid.Stored (stored.documentQueued r) h r metadata :=
      { edited :=
          { hedited with
            counters := fun k ↦ by
              rw [show (stored.documentQueued r).indexCounters =
                stored.indexCounters.erase (stored.heap r).infoHash from rfl, hkey,
                OrderedMap.get?_erase]
              by_cases hk : k = h
              · exact Or.inr ⟨hk, Or.inl (if_pos hk)⟩
              · rw [if_neg hk]
                exact hedited.counters k }
        indexTracking := hkept.indexTracking
        indexMaxPending := hkept.indexMaxPending
        checkDatabase := hkept.checkDatabase
        orphanCounters := hkept.orphanCounters
        indexDropped := hkept.indexDropped
        indexDocuments := by
          rw [if_pos htracking', show (stored.documentQueued r).indexDocuments =
            stored.indexDocuments.setDefault (stored.heap r).infoHash r from rfl, hkey,
            hkept.indexDocuments]
        indexCounters := by
          rw [if_pos htracking', show (stored.documentQueued r).indexCounters =
            stored.indexCounters.erase (stored.heap r).infoHash from rfl, hkey,
            hkept.indexCounters] }
    have hnext := hI.stored past c mid _ r metadata now hrep hc hallowed hobtained hqueues hmid hqueued
    rw [if_pos htracking]
    rcases stored.queueDocumentLocked_cases r with heq | heq
    · rw [show ((c.getOrCreateLocked h now).1.storeLocked (c.getOrCreateLocked h now).2.1
        metadata).queueDocumentLocked (c.getOrCreateLocked h now).2.1 = _ from heq]
      exact hnext
    · rw [show ((c.getOrCreateLocked h now).1.storeLocked (c.getOrCreateLocked h now).2.1
        metadata).queueDocumentLocked (c.getOrCreateLocked h now).2.1 = _ from heq]
      exact hI.dropOldestDocument (hstoredRep.documentQueued r) hnext
  · have htracking' : ¬ mid.indexTracking := fun ht ↦ htracking (hkept.indexTracking.trans ht)
    rw [if_neg htracking]
    refine hI.stored past c mid _ r metadata now hrep hc hallowed hobtained hqueues hmid ?_
    exact
      { edited := hedited
        indexTracking := hkept.indexTracking
        indexMaxPending := hkept.indexMaxPending
        checkDatabase := hkept.checkDatabase
        orphanCounters := hkept.orphanCounters
        indexDropped := hkept.indexDropped
        indexDocuments := by rw [if_neg htracking', hkept.indexDocuments]
        indexCounters := by rw [if_neg htracking', hkept.indexCounters] }

/-! ## Claims -/

theorem foldl_claimLookup (hI : ClientRules E S I) (chosen : List Ref) :
    ∀ {c : TorrentCatalog}, chosen.Nodup → c.Represented ∅ → I past c →
      (∀ r ∈ chosen, ∃ h, c.entries.get? h = some r ∧ (c.heap r).lookupInProgress = false) →
      I past (chosen.foldl claimLookup c) := by
  induction chosen with
  | nil => exact fun _ _ hc _ ↦ hc
  | cons r rest ih =>
    intro c hnodup hrep hc hlive
    obtain ⟨hnotin, hrest⟩ := List.nodup_cons.mp hnodup
    obtain ⟨h, hr, hfree⟩ := hlive r List.mem_cons_self
    have hsettled := settled_claimLookup hrep hr hfree
    refine ih hrest hsettled.represented (hI.settled hrep hc hr hsettled) fun r' hr' ↦ ?_
    rw [hsettled.reworked.edited.entries, hsettled.reworked.edited.heap,
      Function.update_of_ne (ne_of_mem_of_not_mem hr' hnotin)]
    exact hlive r' (List.mem_cons_of_mem _ hr')

theorem foldl_claimFetch (hI : ClientRules E S I) (chosen : List Ref) :
    ∀ {c : TorrentCatalog}, chosen.Nodup → c.Represented ∅ → I past c →
      (∀ r ∈ chosen, ∃ h, c.entries.get? h = some r ∧ (c.heap r).readyToFetch) →
      I past (chosen.foldl claimFetch c) := by
  induction chosen with
  | nil => exact fun _ _ hc _ ↦ hc
  | cons r rest ih =>
    intro c hnodup hrep hc hlive
    obtain ⟨hnotin, hrest⟩ := List.nodup_cons.mp hnodup
    obtain ⟨h, hr, hready⟩ := hlive r List.mem_cons_self
    have hpending : (c.heap r).fetchState = .pending := by
      simp only [TorrentEntry.readyToFetch, decide_eq_true_eq] at hready
      exact hready.1
    have hsettled := settled_claimFetch hrep hr hpending
    refine ih hrest hsettled.represented (hI.settled hrep hc hr hsettled) fun r' hr' ↦ ?_
    rw [hsettled.reworked.edited.entries, hsettled.reworked.edited.heap,
      Function.update_of_ne (ne_of_mem_of_not_mem hr' hnotin)]
    exact hlive r' (List.mem_cons_of_mem _ hr')

/-- A property that survives the small changes survives every permitted operation of the crawler
and fetch threads. -/
theorem apply {limits : CatalogLimits} {Q : TorrentEntry → Prop} {d : Discipline} {s : Session}
    (hI : ClientRules E S I)
    (hs : Sound limits Q s.catalog s.fetchClaims s.lookupClaims) {op : CatalogOp}
    (hclient : op.isClient) (hop : s.permits d op)
    (hallowed : s.catalog.settle.opAllowed E S op) (hc : I past s.catalog) :
    I (past ++ op.sightings) (s.exec op).catalog := by
  have hsettle := hs.settle
  have hrep := hsettle.represented
  replace hc := hI.settle hc
  cases op with
  | recordHash h source peer now =>
    by_cases hasserts : h.length = nodeIdLength ∧ 0 ≤ now
    · have hrecorded := (hI.recordLocked hrep hc hasserts.1 hallowed).1
      simp only [Session.exec, TorrentCatalog.apply, TorrentCatalog.recordHash,
        TorrentCatalog.guarded, CatalogOp.sightings, if_pos hasserts]
      exact hI.assertInvariantsLocked hrecorded
    · simp only [Session.exec, TorrentCatalog.apply, TorrentCatalog.recordHash,
        TorrentCatalog.guarded, CatalogOp.sightings, if_neg hasserts, List.append_nil]
      exact hI.raised hc
  | recordHashes hashes source now =>
    by_cases hasserts : (∀ h ∈ hashes, h.length = nodeIdLength) ∧ 0 ≤ now
    · have hrecorded := hI.recordEachLocked hashes hrep hc hasserts.1 hallowed
      simp only [Session.exec, TorrentCatalog.apply, TorrentCatalog.recordHashes,
        TorrentCatalog.guarded, CatalogOp.sightings, if_pos hasserts]
      exact hI.check (hI.assertInvariantsLocked hrecorded) _
    · simp only [Session.exec, TorrentCatalog.apply, TorrentCatalog.recordHashes,
        TorrentCatalog.guarded, CatalogOp.sightings, if_neg hasserts, List.append_nil]
      exact hI.raised hc
  | addPeers h peers =>
    rw [show (CatalogOp.addPeers h peers).sightings = [] from rfl, List.append_nil]
    simp only [Session.exec, TorrentCatalog.apply, TorrentCatalog.addPeers]
    split
    next r hr =>
      obtain ⟨known, hsettled, -⟩ := settled_addPeers hrep hr peers
      exact hI.guarded hc fun _ ↦ hI.check (hI.settled hrep hc hr hsettled) _
    next => exact hI.guarded hc fun _ ↦ hc
  | hashesNeedingPeers limit now =>
    rw [show (CatalogOp.hashesNeedingPeers limit now).sightings = [] from rfl, List.append_nil]
    simp only [Session.exec, TorrentCatalog.apply, TorrentCatalog.hashesNeedingPeers]
    split
    · refine hI.foldl_claimLookup _ ?_ hrep hc fun r hr ↦ ?_
      · have hvalues := nodup_values hrep hrep.needsLookup_live
        exact ((List.nodup_reverse.mpr hvalues).filter _).sublist (List.take_sublist _ _)
      · have hmem := (List.mem_filter.mp (List.mem_of_mem_take hr)).1
        obtain ⟨k, hk⟩ := OrderedMap.mem_values_iff.mp (List.mem_reverse.mp hmem)
        rw [hrep.needsLookup k (Set.notMem_empty k)] at hk
        obtain ⟨hlive, hawaits⟩ := liveWhere_eq_some_iff.mp hk
        simp only [TorrentEntry.awaitsLookup, decide_eq_true_eq, Bool.not_eq_true] at hawaits
        exact ⟨k, hlive, hawaits.2.2.2.1⟩
    · exact hI.raised hc
  | releaseLookupClaim h =>
    rw [show (CatalogOp.releaseLookupClaim h).sightings = [] from rfl, List.append_nil]
    obtain ⟨r, hr, hlookup⟩ := hsettle.live_of_lookingUp hop
    refine hI.guarded hc fun _ ↦ hI.check ?_ _
    simp only [hr, hlookup, if_true]
    exact hI.settled hrep hc hr (settled_releaseLookup hrep hr)
  | addLookupResult h peers now =>
    rw [show (CatalogOp.addLookupResult h peers now).sightings = [] from rfl, List.append_nil]
    obtain ⟨r, hr, -⟩ := hsettle.live_of_lookingUp hop
    obtain ⟨entry, hsettled, -⟩ := settled_lookupResultLocked hrep hr peers now
    refine hI.guarded hc fun _ ↦ hI.assertInvariantsLocked ?_
    simp only [hr]
    exact hI.settled hrep hc hr hsettled
  | nextFetchCandidates limit =>
    rw [show (CatalogOp.nextFetchCandidates limit).sightings = [] from rfl, List.append_nil]
    obtain ⟨hnodup, hlive⟩ := Sound.fetchCandidates_spec hrep limit
    exact hI.check (hI.assertInvariantsLocked (hI.foldl_claimFetch _ hnodup hrep hc hlive)) _
  | storeMetadata metadata now =>
    rw [show (CatalogOp.storeMetadata metadata now).sightings = [] from rfl, List.append_nil]
    exact hI.storeMetadata hrep hc hallowed now
  | markFetchFailed h triedPeers reason now =>
    rw [show (CatalogOp.markFetchFailed h triedPeers reason now).sightings = [] from rfl,
      List.append_nil]
    obtain ⟨r, hr, hfetching⟩ := hsettle.live_of_fetching hop
    obtain ⟨entry, hsettled, -⟩ :=
      settled_fetchFailedLocked hrep hr hfetching triedPeers reason now
    simp only [Session.exec, TorrentCatalog.apply, TorrentCatalog.markFetchFailed, hr]
    exact hI.guarded hc fun _ ↦ hI.assertInvariantsLocked (hI.settled hrep hc hr hsettled)
  | releaseFetchClaim h =>
    rw [show (CatalogOp.releaseFetchClaim h).sightings = [] from rfl, List.append_nil]
    obtain ⟨r, hr, hfetching⟩ := hsettle.live_of_fetching hop
    refine hI.guarded hc fun _ ↦ hI.assertInvariantsLocked ?_
    simp only [hr, hfetching, if_true]
    exact hI.settled hrep hc hr (settled_releaseFetch hrep hr hfetching)
  | _ => cases hclient

/-- The number of dropped documents and orphans only grows. -/
theorem dropCount (n : ℕ) : ClientRules (fun _ _ ↦ True) (fun _ _ ↦ True)
    fun _ c ↦ n ≤ c.indexDropped where
  quiet := fun _ _ _ _ hn ↦ hn
  reworked := fun _ c c' h r entry _ hn _ hw ↦ by rw [hw.queues.indexDropped]; exact hn
  sighted := fun _ c mid c' h r source moment entry _ hn _ _ hq _ hs ↦ by
    rw [hs.indexDropped, hq.indexDropped]
    exact hn
  evicted := fun _ c c' h r _ hn _ _ _ he ↦ by
    rw [he.indexDropped]
    split
    · exact hn.trans (Nat.le_add_right _ _)
    · exact hn
  stored := fun _ c mid c' r metadata now _ hn _ _ hq _ hs ↦ by
    rw [hs.indexDropped, hq.indexDropped]
    exact hn
  dropped := fun _ c key r rest hrep hn _ ↦ by
    rw [(dropUnwrittenMetadataLocked_spec
      (c := { c with indexDocuments := rest, indexDropped := c.indexDropped + 1 })
      hrep.of_eq r).2.1.indexDropped]
    exact hn.trans (Nat.le_succ _)
  stable := fun _ _ _ _ _ _ _ _ ↦ trivial

end ClientRules

end TorrentCatalog

end DhtScraper
