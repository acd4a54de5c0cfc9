import DhtScraper.Index.Retention

/-!
# The index thread keeps sightings reachable

`Retained` through the operations of the index thread: a drained batch covers the entries it was taken
from, a batch that is put back is queued again, and marking moves covered amounts into the flushed
counts.
-/

namespace DhtScraper

open Library

theorem inFlight_append (flight : List IndexSnapshot) (snapshot : IndexSnapshot) (k : Counter)
    (r : Ref) : inFlight (flight ++ [snapshot]) k r =
      inFlight flight k r + if r = snapshot.entry then snapshot.delta k else 0 := by
  induction flight with
  | nil =>
    rw [List.nil_append, inFlight_cons]
    simp [inFlight]
  | cons first rest ih => rw [List.cons_append, inFlight_cons, inFlight_cons, ih, add_assoc]

theorem delta_indexSnapshot (k : Counter) (r : Ref) (entry : TorrentEntry) :
    (indexSnapshot r entry).delta k = entry.count k - entry.flushed k := by
  cases k <;> rfl

namespace TorrentCatalog

/-- The assertions of `index_snapshot` hold for every entry that has something to write. -/
theorem Accounted.asserts {c : TorrentCatalog} {start rows : Rows} {flight : List IndexSnapshot}
    {committed : Bool} {past : List Sighting} {r : Ref}
    (ha : c.Accounted start rows flight committed past) (hr : r < c.nextRef)
    (hheld : (c.heap r).held) : indexSnapshotAsserts (c.heap r) := by
  have hle := (ha.flushed r hr .seen).2
  simp only [TorrentEntry.held, decide_eq_true_eq] at hheld
  simp only [indexSnapshotAsserts, decide_eq_true_eq]
  exact ⟨hheld, hle⟩

namespace Retained

variable {c c' : TorrentCatalog} {start rows : Rows} {stored : Finset Ref}
  {flight : List IndexSnapshot} {committed documents : Bool} {past : List Sighting} {h : Bytes}
  {r : Ref}

/-! ## Documents -/

theorem drainIndexDocuments (hk : c.Retained stored [] documents)
    (ha : c.Accounted start rows [] false past) (hquiet : c.raised = false) (limit : ℕ) :
    (c.drainIndexDocuments limit).1.Retained stored (c.drainIndexDocuments limit).2 true ∧
      (c.drainIndexDocuments limit).1.raised = false := by
  obtain ⟨taken, rest, b, hsplit, hstate, hbatch, hraised⟩ := c.drainDocumentsLocked_spec limit
  have hb : b = false := by
    by_contra hb
    rcases hraised (by simpa using hb) with hraised | ⟨item, hitem, hfail⟩
    · rw [hquiet] at hraised
      cases hraised
    · have hget := OrderedMap.get?_eq_some_iff.mpr hitem
      have hmeta := hk.described item.1 item.2 hget
      have hasserts := ha.asserts (ha.documents _ _ hget).1
        (by simp only [TorrentEntry.held, decide_eq_true_eq]; exact Or.inl hmeta)
      rw [hfail] at hasserts
      cases hasserts
  subst hb
  have hnext := ha.drainIndexDocuments limit
  have hdrained : c.drainIndexDocuments limit = ({ c with indexDocuments := rest, raised := false },
      taken.map fun item ↦ indexSnapshot item.2 (c.heap item.2)) := by
    unfold TorrentCatalog.drainIndexDocuments
    simp only [hstate, hbatch rfl, Bool.false_eq_true, if_false]
  rw [hdrained] at hnext ⊢
  refine ⟨?_, rfl⟩
  have hget {item : Bytes × Ref} (hitem : item ∈ taken) :
      c.indexDocuments.get? item.1 = some item.2 :=
    (OrderedMap.get?_eq_some_iff_of_items hsplit).mpr (Or.inl hitem)
  have hkey {item : Bytes × Ref} (hitem : item ∈ taken) : c.owner item.2 = item.1 :=
    (ha.documents _ _ (hget hitem)).2
  have hentries : (taken.map fun item ↦ indexSnapshot item.2 (c.heap item.2)).map
      IndexSnapshot.entry = taken.map Prod.snd := by
    rw [List.map_map]
    rfl
  have hhashes : (taken.map fun item ↦ indexSnapshot item.2 (c.heap item.2)).map
      IndexSnapshot.infoHash = taken.map Prod.fst := by
    rw [List.map_map]
    exact List.map_congr_left fun item hitem ↦ hkey hitem
  have hcovered {item : Bytes × Ref} (hitem : item ∈ taken) : c.Covered
      (taken.map fun item ↦ indexSnapshot item.2 (c.heap item.2)) item.2 := by
    intro k
    have hcarried : inFlight (taken.map fun item ↦ indexSnapshot item.2 (c.heap item.2)) k item.2 =
        (indexSnapshot item.2 (c.heap item.2)).delta k :=
      sentTo_eq_amount hnext.flight_nodup (List.mem_map_of_mem hitem)
    rw [hcarried, delta_indexSnapshot]
    omega
  exact
    { tracking := hk.tracking
      stored_held := hk.stored_held
      based := hk.based
      held := hk.held
      described := fun k r hr ↦
        hk.described k r ((OrderedMap.get?_eq_some_iff_of_items hsplit).mpr (Or.inr hr))
      orphans := hk.orphans
      queued := fun r hr hheld huncovered ↦ by
        have hnotin : r ∉ taken.map Prod.snd := fun hmem ↦ by
          obtain ⟨item, hitem, rfl⟩ := List.mem_map.mp hmem
          exact huncovered (hcovered hitem)
        have hqueued := hk.queued r hr hheld fun hc ↦ huncovered fun k ↦ by
          have hle := hc k
          rw [inFlight_eq_zero (by simp)] at hle
          rw [inFlight_eq_zero (by rw [hentries]; exact hnotin)]
          exact hle
        refine hqueued.imp_left fun hdocument ↦ ?_
        exact ((OrderedMap.get?_eq_some_iff_of_items hsplit).mp hdocument).resolve_left fun hmem ↦
          hnotin (List.mem_map_of_mem (f := Prod.snd) hmem)
      first := fun k r hr hheld hbase ↦ by
        rcases hk.first k r hr hheld hbase with hdocument | ⟨-, hmem⟩
        · refine ((OrderedMap.get?_eq_some_iff_of_items hsplit).mp hdocument).symm.imp_right
            fun hmem ↦ ⟨rfl, ?_⟩
          rw [hentries]
          exact List.mem_map_of_mem (f := Prod.snd) hmem
        · cases hmem
      flight_hashes := fun _ ↦ by
        rw [hhashes]
        have hnodup := c.indexDocuments.nodup
        rw [hsplit, List.map_append] at hnodup
        exact hnodup.of_append_left
      flight_described := fun _ snapshot hsnapshot ↦ by
        obtain ⟨item, hitem, rfl⟩ := List.mem_map.mp hsnapshot
        have hmeta := hk.described _ _ (hget hitem)
        exact ⟨hmeta, hmeta⟩
      flight_alone := fun _ snapshot hsnapshot _ r hr ↦ by
        obtain ⟨item, hitem, rfl⟩ := List.mem_map.mp hsnapshot
        have hgone := OrderedMap.get?_eq_none_of_items hsplit hitem
        rw [show (indexSnapshot item.2 (c.heap item.2)).infoHash = item.1 from hkey hitem] at hr
        rw [show OrderedMap.get? _ item.1 = none from hgone] at hr
        cases hr
      flight_based := fun hd ↦ by cases hd }

/-- A batch of documents can be put back without loss: every entry finds its place free, is an
orphan, or is flushed. -/
def Requeuable (flight : List IndexSnapshot) (c : TorrentCatalog) : Prop :=
  ∀ snapshot ∈ flight, (∀ r ∈ c.indexDocuments.get? snapshot.infoHash, r = snapshot.entry) ∨
    snapshot.entry ∈ c.orphanCounters ∨ (c.heap snapshot.entry).hasUnflushed = false

instance (flight : List IndexSnapshot) (c : TorrentCatalog) : Decidable (Requeuable flight c) := by
  unfold Requeuable
  infer_instance

theorem covered_nil_of_flushed (hflushed : (c.heap r).hasUnflushed = false) : c.Covered [] r := by
  simp only [TorrentEntry.hasUnflushed, decide_eq_false_iff_not, not_or, not_lt] at hflushed
  intro k
  rw [inFlight_eq_zero (by simp), add_zero]
  cases k
  · exact hflushed.1
  · exact hflushed.2

theorem requeueIndexDocuments (hk : c.Retained stored flight true)
    (ha : c.Accounted start rows flight false past)
    (hkey : ∀ h r, c.entries.get? h = some r → c.owner r = h) (hsafe : Requeuable flight c) :
    (c.requeueIndexDocuments flight).Retained stored [] false := by
  obtain ⟨waiting, b, hstate, hkept, hnew, hall⟩ := c.requeueIndexDocuments_spec flight
  rw [hstate]
  -- the hashes of the batch are distinct, so a freed place can only go to the snapshot itself
  have hplace {snapshot : IndexSnapshot} (hsnapshot : snapshot ∈ flight)
      (hfree : ∀ r, c.indexDocuments.get? snapshot.infoHash = some r → r = snapshot.entry) :
      waiting.get? snapshot.infoHash = some snapshot.entry := by
    obtain ⟨r, hr⟩ := Option.isSome_iff_exists.mp (hall snapshot hsnapshot)
    rcases hnew _ r hr with hold | ⟨-, other, hother, hhash, hentry⟩
    · rw [hr, hfree r hold]
    · have hsame : other = snapshot :=
        List.inj_on_of_nodup_map (hk.flight_hashes rfl) hother hsnapshot hhash
      rw [hr, ← hentry, hsame]
  exact
    { tracking := hk.tracking
      stored_held := hk.stored_held
      based := hk.based
      held := hk.held
      described := fun k r hr ↦ by
        rcases hnew k r hr with hold | ⟨-, snapshot, hsnapshot, -, rfl⟩
        · exact hk.described k r hold
        · exact (hk.flight_described rfl snapshot hsnapshot).2
      orphans := hk.orphans
      queued := fun r hr hheld huncovered ↦ by
        by_cases hmem : r ∈ flight.map IndexSnapshot.entry
        · obtain ⟨snapshot, hsnapshot, rfl⟩ := List.mem_map.mp hmem
          have howner := (ha.carried snapshot hsnapshot).owner
          rcases hsafe snapshot hsnapshot with hfree | horphan | hflushed
          · left
            have hfound := hplace hsnapshot hfree
            rw [← howner] at hfound
            exact hfound
          · exact Or.inr (Or.inr horphan)
          · exact absurd (covered_nil_of_flushed hflushed) huncovered
        · have hqueued := hk.queued r hr hheld fun hc ↦ huncovered fun k ↦ by
            have hle := hc k
            rw [inFlight_eq_zero hmem] at hle
            rw [inFlight_eq_zero (by simp)]
            exact hle
          exact hqueued.imp_left (hkept _ r)
      first := fun k r hr hheld hbase ↦ by
        left
        rcases hk.first k r hr hheld hbase with hdocument | ⟨-, hmem⟩
        · exact hkept k r hdocument
        · obtain ⟨snapshot, hsnapshot, rfl⟩ := List.mem_map.mp hmem
          have hhash : k = snapshot.infoHash :=
            (hkey k _ hr).symm.trans (ha.carried snapshot hsnapshot).owner
          rw [hhash] at hr ⊢
          exact hplace hsnapshot (hk.flight_alone rfl snapshot hsnapshot hr)
      flight_hashes := fun hd ↦ by cases hd
      flight_described := fun hd ↦ by cases hd
      flight_alone := fun hd ↦ by cases hd
      flight_based := fun _ snapshot hsnapshot ↦ by cases hsnapshot }

/-! ## Counters -/

/-- Without snapshots in flight their kind makes no difference. -/
theorem emptied (hk : c.Retained stored [] documents) {documents' : Bool} :
    c.Retained stored [] documents' :=
  { hk with
    first := fun k r hr hheld hbase ↦ by
      rcases hk.first k r hr hheld hbase with hdocument | ⟨-, hmem⟩
      · exact Or.inl hdocument
      · cases hmem
    flight_hashes := fun _ ↦ List.nodup_nil
    flight_described := fun _ _ hsnapshot ↦ by cases hsnapshot
    flight_alone := fun _ _ hsnapshot ↦ by cases hsnapshot
    flight_based := fun _ _ hsnapshot ↦ by cases hsnapshot }

/-- One entry `r` moves between the counter queues and the batch; the others stay where they are. -/
theorem moved {batch batch' : List IndexSnapshot} (hk : c.Retained stored batch false)
    (orphans : ∀ r' ∈ c'.orphanCounters, (c.heap r').indexBase.isSome)
    (queued : ∀ r' ≠ r, c.Queued r' → c'.Queued r')
    (self : (c.heap r).held → ¬ c'.Covered batch' r → c'.Queued r)
    (flight : ∀ r' ≠ r, ∀ k, inFlight batch' k r' = inFlight batch k r')
    (based : ∀ snapshot ∈ batch', snapshot.base.isSome ∧ (c.heap snapshot.entry).indexBase.isSome)
    (heap : c'.heap = c.heap := by rfl) (entries : c'.entries = c.entries := by rfl)
    (nextRef : c'.nextRef = c.nextRef := by rfl)
    (tracking : c'.indexTracking = c.indexTracking := by rfl)
    (documents_eq : c'.indexDocuments = c.indexDocuments := by rfl) :
    c'.Retained stored batch' false where
  tracking := by rw [tracking, hk.tracking]
  stored_held := by rw [nextRef, heap]; exact hk.stored_held
  based := by rw [heap]; exact hk.based
  held := by rw [heap]; exact hk.held
  described := by rw [documents_eq, heap]; exact hk.described
  orphans := by rw [heap]; exact orphans
  queued := fun r' hr' hheld huncovered ↦ by
    rw [nextRef] at hr'
    rw [heap] at hheld
    by_cases heq : r' = r
    · subst heq
      exact self hheld huncovered
    · refine queued r' heq (hk.queued r' hr' hheld fun hcovered ↦ huncovered fun k ↦ ?_)
      rw [heap, flight r' heq]
      exact hcovered k
  first := fun k r' hr' hheld hbase ↦ by
    rw [entries] at hr'
    rw [heap] at hheld hbase
    rw [documents_eq]
    exact Or.inl ((hk.first k r' hr' hheld hbase).resolve_right fun h ↦ by cases h.1)
  flight_hashes := fun hd ↦ by cases hd
  flight_described := fun hd ↦ by cases hd
  flight_alone := fun hd ↦ by cases hd
  flight_based := fun _ ↦ by rw [heap]; exact based

/-- The snapshot that joins the batch covers its entry. -/
theorem taken {batch : List IndexSnapshot} (hk : c.Retained stored batch false)
    (hnew : r ∉ batch.map IndexSnapshot.entry) (hbased : (c.heap r).indexBase.isSome)
    (orphans : ∀ r' ∈ c'.orphanCounters, r' ∈ c.orphanCounters)
    (queued : ∀ r' ≠ r, c.Queued r' → c'.Queued r') (heap : c'.heap = c.heap := by rfl)
    (entries : c'.entries = c.entries := by rfl) (nextRef : c'.nextRef = c.nextRef := by rfl)
    (tracking : c'.indexTracking = c.indexTracking := by rfl)
    (documents_eq : c'.indexDocuments = c.indexDocuments := by rfl) :
    c'.Retained stored (batch ++ [indexSnapshot r (c.heap r)]) false := by
  refine hk.moved (fun r' hr' ↦ hk.orphans r' (orphans r' hr')) queued
    (fun _ huncovered ↦ absurd (fun k ↦ ?_) huncovered) (fun r' hne k ↦ ?_)
    (fun snapshot hsnapshot ↦ ?_) heap entries nextRef tracking documents_eq
  · rw [heap, inFlight_append, inFlight_eq_zero hnew, zero_add,
      show (indexSnapshot r (c.heap r)).entry = r from rfl, if_pos rfl, delta_indexSnapshot]
    omega
  · rw [inFlight_append, show (indexSnapshot r (c.heap r)).entry = r from rfl, if_neg hne, add_zero]
  · rcases List.mem_append.mp hsnapshot with hold | hlast
    · exact hk.flight_based rfl snapshot hold
    · rw [List.mem_singleton.mp hlast]
      exact ⟨hbased, hbased⟩

/-- An entry with nothing to write leaves its queue. -/
theorem skipped {batch : List IndexSnapshot} (hk : c.Retained stored batch false)
    (hsettled : (c.heap r).held → c.Covered batch r)
    (orphans : ∀ r' ∈ c'.orphanCounters, r' ∈ c.orphanCounters)
    (queued : ∀ r' ≠ r, c.Queued r' → c'.Queued r') (heap : c'.heap = c.heap := by rfl)
    (entries : c'.entries = c.entries := by rfl) (nextRef : c'.nextRef = c.nextRef := by rfl)
    (tracking : c'.indexTracking = c.indexTracking := by rfl)
    (documents_eq : c'.indexDocuments = c.indexDocuments := by rfl) :
    c'.Retained stored batch false := by
  refine hk.moved (fun r' hr' ↦ hk.orphans r' (orphans r' hr')) queued
    (fun hheld huncovered ↦ absurd (fun k ↦ ?_) huncovered) (fun _ _ _ ↦ rfl)
    (hk.flight_based rfl) heap entries nextRef tracking documents_eq
  rw [heap]
  exact hsettled hheld k

/-- What the counter drain keeps when nothing was dropped. -/
structure DrainingRetained (start rows : Rows) (past : List Sighting) (stored : Finset Ref)
    (batch : List IndexSnapshot) (c : TorrentCatalog) : Prop where
  draining : Accounted.Draining start rows past batch c
  retained : c.indexDropped = 0 → c.Retained stored batch false
  quiet : c.indexDropped = 0 → c.raised = false

theorem queued_of_orphans {rest : List Ref} (horphans : c.orphanCounters = r :: rest) {r' : Ref}
    (hne : r' ≠ r) (hqueued : c.Queued r') :
    TorrentCatalog.Queued { c with orphanCounters := rest } r' := by
  refine hqueued.imp_right fun hrest ↦ hrest.imp_right fun hmem ↦ ?_
  rw [horphans] at hmem
  exact (List.mem_cons.mp hmem).resolve_left hne

theorem queued_of_counters {k : Bytes} {rest : OrderedMap Bytes Ref}
    (hpop : c.indexCounters.popFirst = some ((k, r), rest)) {r' : Ref} (hne : r' ≠ r)
    (hqueued : c.Queued r') : TorrentCatalog.Queued { c with indexCounters := rest } r' := by
  refine hqueued.imp_right fun hrest ↦ hrest.imp_left fun hcounter ↦ ?_
  obtain ⟨hfirst, hget⟩ := OrderedMap.get?_of_popFirst hpop
  change rest.get? (c.owner r') = some r'
  rw [hget]
  split
  next hk => exact absurd (Option.some.inj (hcounter.symm.trans (hk ▸ hfirst))) hne
  next => exact hcounter

theorem covered_of_flushed (ha : c.Accounted start rows flight committed past)
    (hflushed : (c.heap r).hasUnflushed = false) : c.Covered flight r := by
  simp only [TorrentEntry.hasUnflushed, decide_eq_false_iff_not, not_or, not_lt] at hflushed
  intro k
  have hcarried := ha.inFlight_nonneg k r
  have hle : (c.heap r).count k ≤ (c.heap r).flushed k := by
    cases k
    · exact hflushed.1
    · exact hflushed.2
  omega

/-- The document of a live entry without a base waits already, so queueing it again only removes it
from the counter queue. -/
theorem queueDocumentLocked_waiting {k : Bytes} (hwaits : c.indexDocuments.get? k = some r)
    (hkey : c.owner r = k) (hmeta : (c.heap r).metadata.isSome) :
    c.queueDocumentLocked r = { c with indexCounters := c.indexCounters.erase k } := by
  have hcontains : c.indexDocuments.contains (c.heap r).infoHash := by
    rw [show (c.heap r).infoHash = k from hkey, OrderedMap.contains, hwaits]
    rfl
  rw [show c.queueDocumentLocked r = { c.check (c.heap r).metadata.isSome with
    indexCounters := c.indexCounters.erase (c.heap r).infoHash } from if_pos hcontains]
  simp only [TorrentCatalog.check, hmeta, decide_true, Bool.not_true, Bool.or_false]
  rw [show (c.heap r).infoHash = k from hkey]

theorem drainRules (start rows : Rows) (past : List Sighting) (stored : Finset Ref) :
    CounterDrainRules (DrainingRetained start rows past stored) fun c ↦ c.indexDropped ≠ 0 where
  orphanTaken := fun batch c r rest hd horphans hasserts ↦
    { draining := (Accounted.drainRules start rows past).orphanTaken batch c r rest hd.draining
        horphans hasserts
      retained := fun hdropped ↦ by
        have hk := hd.retained hdropped
        have hmem : r ∈ c.orphanCounters := by
          rw [horphans]
          exact List.mem_cons_self
        refine hk.taken (fun hbatch ↦ ?_) (hk.orphans r hmem)
          (fun r' hr' ↦ by rw [horphans]; exact List.mem_cons_of_mem _ hr')
          (fun _ hne ↦ queued_of_orphans horphans hne)
        obtain ⟨snapshot, hsnapshot, heq⟩ := List.mem_map.mp hbatch
        exact (hd.draining.removed snapshot hsnapshot).1 (heq ▸ hmem)
      quiet := hd.quiet }
  orphanSkipped := fun batch c r rest hd horphans hseen hannounce ↦
    { draining := (Accounted.drainRules start rows past).orphanSkipped batch c r rest hd.draining
        horphans hseen hannounce
      retained := fun hdropped ↦ by
        refine (hd.retained hdropped).skipped (fun _ k ↦ ?_)
          (fun r' hr' ↦ by rw [horphans]; exact List.mem_cons_of_mem _ hr')
          (fun _ hne ↦ queued_of_orphans horphans hne)
        have hcarried := hd.draining.accounted.inFlight_nonneg k r
        have hdelta : (indexSnapshot r (c.heap r)).delta k = 0 := by
          cases k
          · exact hseen
          · exact hannounce
        rw [delta_indexSnapshot] at hdelta
        omega
      quiet := hd.quiet }
  orphanFailed := fun batch c r rest hd horphans hfail hdropped ↦ by
    have hk := hd.retained hdropped
    have hmem : r ∈ c.orphanCounters := by
      rw [horphans]
      exact List.mem_cons_self
    have hasserts := hd.draining.accounted.asserts (hd.draining.accounted.orphans r hmem).1
      (hk.held r (hk.orphans r hmem))
    rw [hfail] at hasserts
    cases hasserts
  documentQueued := fun batch c k r rest hd hpop hbase hmeta ↦ by
    have hdraining := (Accounted.drainRules start rows past).documentQueued batch c k r rest
      hd.draining hpop hbase hmeta
    have hle := indexDropped_le_queueDocumentLocked
      (Accounted.popCounter hd.draining hpop).1.represented r
    have hbefore (hdropped : (queueDocumentLocked { c with indexCounters := rest } r).indexDropped =
        0) : c.indexDropped = 0 := by
      rw [hdropped] at hle
      exact Nat.le_zero.mp hle
    have hheld : (c.heap r).held := by
      simp only [TorrentEntry.held, decide_eq_true_eq]
      exact Or.inl hmeta
    have hlive := (Accounted.popCounter hd.draining hpop).2.1
    have hkey : c.owner r = k := hd.draining.represented.key k r hlive
    have hwaits (hdropped : c.indexDropped = 0) : c.indexDocuments.get? k = some r :=
      ((hd.retained hdropped).first k r hlive hheld hbase).resolve_right fun h ↦ by cases h.1
    have hqueued (hdropped : c.indexDropped = 0) :
        queueDocumentLocked { c with indexCounters := rest } r =
          { c with indexCounters := rest.erase k } :=
      queueDocumentLocked_waiting (c := { c with indexCounters := rest }) (hwaits hdropped) hkey hmeta
    refine ⟨hdraining, fun hdropped ↦ ?_, fun hdropped ↦ ?_⟩
    · have hk := hd.retained (hbefore hdropped)
      rw [hqueued (hbefore hdropped)]
      refine hk.moved (r := r) hk.orphans (fun r' hne hr' ↦ ?_) (fun _ _ ↦ ?_) (fun _ _ _ ↦ rfl)
        (hk.flight_based rfl)
      · refine (queued_of_counters hpop hne hr').imp_right fun hrest ↦ hrest.imp_left fun hcounter ↦ ?_
        change (rest.erase k).get? (c.owner r') = some r'
        have hget : rest.get? (c.owner r') = some r' := hcounter
        rw [OrderedMap.get?_erase]
        split
        next hk' =>
          rw [hk', (OrderedMap.get?_of_popFirst hpop).2, if_pos rfl] at hget
          cases hget
        next => exact hget
      · left
        have hdocument := hwaits (hbefore hdropped)
        rw [← hkey] at hdocument
        exact hdocument
    · rw [hqueued (hbefore hdropped)]
      exact hd.quiet (hbefore hdropped)
  unbasedSkipped := fun batch c k r rest hd hpop hbase hmeta ↦
    { draining := (Accounted.popCounter hd.draining hpop).1
      retained := fun hdropped ↦ by
        have hk := hd.retained hdropped
        refine hk.skipped (fun hheld ↦ ?_) (fun _ hr' ↦ hr') fun _ hne ↦ queued_of_counters hpop hne
        have hsome := hk.isSome_of_held hheld hbase
        rw [hmeta] at hsome
        cases hsome
      quiet := hd.quiet }
  counterTaken := fun batch c k r rest hd hpop hbased hunflushed hasserts ↦
    { draining := (Accounted.drainRules start rows past).counterTaken batch c k r rest hd.draining
        hpop hbased hunflushed hasserts
      retained := fun hdropped ↦ by
        refine (hd.retained hdropped).taken (fun hbatch ↦ ?_) hbased (fun _ hr' ↦ hr')
          fun _ hne ↦ queued_of_counters hpop hne
        obtain ⟨snapshot, hsnapshot, heq⟩ := List.mem_map.mp hbatch
        exact (hd.draining.removed snapshot hsnapshot).2 k
          (heq ▸ (OrderedMap.get?_of_popFirst hpop).1)
      quiet := hd.quiet }
  counterSkipped := fun batch c k r rest hd hpop _ hflushed ↦
    { draining := (Accounted.popCounter hd.draining hpop).1
      retained := fun hdropped ↦ (hd.retained hdropped).skipped
        (fun _ ↦ covered_of_flushed hd.draining.accounted hflushed) (fun _ hr' ↦ hr')
        fun _ hne ↦ queued_of_counters hpop hne
      quiet := hd.quiet }
  counterFailed := fun batch c k r rest hd hpop hbased hfail hdropped ↦ by
    have hlive := (Accounted.popCounter hd.draining hpop).2.1
    have hasserts := hd.draining.accounted.asserts (hd.draining.represented.allocated k r hlive)
      ((hd.retained hdropped).held r hbased)
    rw [hfail] at hasserts
    cases hasserts
  failed := fun batch c hd hraised hdropped ↦ by
    rw [hd.quiet hdropped] at hraised
    cases hraised

/-- Whatever the counter drain takes out of a queue is in the batch or has nothing to write. -/
theorem drainIndexCounters (hk : c.indexDropped = 0 → c.Retained stored [] false)
    (ha : c.Accounted start rows [] false past) (hrep : c.Represented ∅) (hquiet : c.raised = false)
    (limit : ℕ) (hdropped : (c.drainIndexCounters limit).1.indexDropped = 0) :
    (c.drainIndexCounters limit).1.Retained stored (c.drainIndexCounters limit).2 false ∧
      (c.drainIndexCounters limit).1.raised = false := by
  have hstart : DrainingRetained start rows past stored [] c :=
    { draining := ⟨hrep, ha, fun _ hsnapshot ↦ by cases hsnapshot⟩
      retained := hk
      quiet := fun _ ↦ hquiet }
  rcases (drainRules start rows past stored).drainIndexCounters limit hstart with hd | ⟨-, hfailed⟩
  · exact ⟨hd.retained hdropped, hd.quiet hdropped⟩
  · exact absurd hdropped hfailed

/-- A live entry goes back to the counter queue, an evicted one to the orphan queue. -/
theorem requeueIndexCounters (hk : c.Retained stored flight false)
    (ha : c.Accounted start rows flight false past) (hrep : c.Represented ∅)
    (hdropped : (c.requeueIndexCounters flight).indexDropped = 0) :
    (c.requeueIndexCounters flight).Retained stored [] false := by
  have hfold : ∀ (snapshots : List IndexSnapshot) (c : TorrentCatalog), c.Represented ∅ →
      (∀ snapshot ∈ snapshots, c.owner snapshot.entry = snapshot.infoHash) →
      (snapshots.foldl requeueCounterLocked c).indexDropped = 0 →
      c.Retained stored snapshots false →
      (snapshots.foldl requeueCounterLocked c).Retained stored [] false := by
    intro snapshots
    induction snapshots with
    | nil => exact fun _ _ _ _ hk ↦ hk
    | cons first rest ih =>
      intro c hrep howner hdropped hk
      have hnow : (c.requeueCounterLocked first).indexDropped = 0 :=
        Nat.le_zero.mp (hdropped ▸ TorrentCatalog.indexDropped_le_requeueCounterLocked _ rest)
      have hkey := howner first List.mem_cons_self
      have hflight (r : Ref) (hne : r ≠ first.entry) (k : Counter) :
          inFlight rest k r = inFlight (first :: rest) k r := by
        rw [inFlight_cons, if_neg hne, zero_add]
      have hbased : ∀ snapshot ∈ rest,
          snapshot.base.isSome ∧ (c.heap snapshot.entry).indexBase.isSome :=
        fun snapshot hsnapshot ↦ hk.flight_based rfl snapshot (List.mem_cons_of_mem _ hsnapshot)
      rw [List.foldl_cons] at hdropped ⊢
      by_cases hlive : c.entries.get? first.infoHash = some first.entry
      · have heq : c.requeueCounterLocked first = { c with
            indexCounters := c.indexCounters.setDefault first.infoHash first.entry } := if_pos hlive
        have hkept (k : Bytes) := get?_setDefault_live hrep hlive (k := k)
        rw [heq] at hdropped ⊢
        refine ih _ (hrep.of_counters fun k r hr ↦ ?_)
          (fun snapshot hsnapshot ↦ howner snapshot (List.mem_cons_of_mem _ hsnapshot)) hdropped
          (hk.moved (r := first.entry) hk.orphans (fun r _ hqueued ↦ ?_) (fun _ _ ↦ ?_) hflight hbased)
        · rcases hkept k with hsame | ⟨hk', hself⟩
          · exact Or.inl (hsame ▸ hr)
          · rw [hself] at hr
            exact Or.inr (hk' ▸ Option.some.inj hr ▸ hlive)
        · refine hqueued.imp_right fun hrest ↦ hrest.imp_left fun hcounter ↦ ?_
          rcases hkept (c.owner r) with hsame | ⟨hk', hself⟩
          · exact hsame.trans hcounter
          · have hother := hrep.counters_live _ r hcounter
            rw [hk', hlive] at hother
            exact hself.trans hother
        · right
          left
          change (c.indexCounters.setDefault first.infoHash first.entry).get? (c.owner first.entry) = _
          rw [hkey]
          exact get?_setDefault_self hrep hlive
      · have heq : c.requeueCounterLocked first = c.addOrphanLocked first.entry := if_neg hlive
        rw [heq] at hnow hdropped ⊢
        have horphans : (c.addOrphanLocked first.entry).orphanCounters =
            c.orphanCounters ++ [first.entry] := by
          simp only [addOrphanLocked, TorrentCatalog.check] at hnow ⊢
          split at hnow
          · omega
          next hroom => rw [if_neg hroom]
        have hmoved : (c.addOrphanLocked first.entry).Retained stored rest false := by
          refine hk.moved (r := first.entry) (fun r hr ↦ ?_) (fun r _ hqueued ↦ ?_) (fun _ _ ↦ ?_)
            hflight hbased
          · rw [horphans] at hr
            rcases List.mem_append.mp hr with hold | hnew
            · exact hk.orphans r hold
            · rw [List.mem_singleton.mp hnew]
              exact (hk.flight_based rfl first List.mem_cons_self).2
          · refine hqueued.imp_right fun hrest ↦ hrest.imp_right fun hmem ↦ ?_
            rw [horphans]
            exact List.mem_append_left _ hmem
          · right
            right
            rw [horphans]
            exact List.mem_append_right _ List.mem_cons_self
        exact ih _ hrep.of_eq
          (fun snapshot hsnapshot ↦ howner snapshot (List.mem_cons_of_mem _ hsnapshot)) hdropped hmoved
  exact hfold flight c hrep (fun snapshot hsnapshot ↦ (ha.carried snapshot hsnapshot).owner) hdropped hk

/-! ## Marking -/

theorem held_of_flight {snapshot : IndexSnapshot} (hk : c.Retained stored flight documents)
    (hsnapshot : snapshot ∈ flight) : (c.heap snapshot.entry).held := by
  cases documents with
  | true =>
    simp only [TorrentEntry.held, decide_eq_true_eq]
    exact Or.inl (hk.flight_described rfl snapshot hsnapshot).2
  | false => exact hk.held _ (hk.flight_based rfl snapshot hsnapshot).2

/-- The amount of the first snapshot moves into the flushed count of its entry, which may gain a base
and may lose its metadata. -/
theorem marked {snapshot : IndexSnapshot} {entry : TorrentEntry}
    (hk : c.Retained stored (snapshot :: flight) documents) (hr : snapshot.entry = r)
    (hnew : r ∉ flight.map IndexSnapshot.entry)
    (heap : c'.heap = Function.update c.heap r entry)
    (count : ∀ k, entry.count k = (c.heap r).count k)
    (flushed : ∀ k, entry.flushed k = (c.heap r).flushed k + snapshot.delta k)
    (kept : entry.held)
    (based : entry.inDatabase → entry.indexBase.isSome)
    (held : entry.indexBase.isSome → entry.held)
    (stays : (c.heap r).indexBase.isSome → entry.indexBase.isSome)
    (waits : ∀ k r', c'.indexDocuments.get? k = some r' →
      c.indexDocuments.get? k = some r' ∧ (r' = r → entry.metadata.isSome))
    (queued : ∀ r', c.Queued r' → c'.Queued r')
    (live : entry.indexBase = none → ∀ k, c.entries.get? k ≠ some r)
    (first : ∀ k r', r' ≠ r → c.entries.get? k = some r' → c.indexDocuments.get? k = some r' →
      c'.indexDocuments.get? k = some r')
    (entries : c'.entries = c.entries := by rfl) (nextRef : c'.nextRef = c.nextRef := by rfl)
    (tracking : c'.indexTracking = c.indexTracking := by rfl)
    (orphans : c'.orphanCounters = c.orphanCounters := by rfl) :
    c'.Retained stored flight documents := by
  have hself : c'.heap r = entry := by rw [heap, Function.update_self]
  have hother {r' : Ref} (hne : r' ≠ r) : c'.heap r' = c.heap r' := by
    rw [heap, Function.update_of_ne hne]
  have hne {other : IndexSnapshot} (hmem : other ∈ flight) : other.entry ≠ r := fun heq ↦
    hnew (heq ▸ List.mem_map_of_mem hmem)
  have hheld {r' : Ref} (hh : (c.heap r').held) : (c'.heap r').held := by
    by_cases heq : r' = r
    · rw [heq, hself]
      exact kept
    · rw [hother heq]
      exact hh
  have hbased {r' : Ref} (hb : (c.heap r').indexBase.isSome) : (c'.heap r').indexBase.isSome := by
    by_cases heq : r' = r
    · rw [heq, hself]
      exact stays (heq ▸ hb)
    · rw [hother heq]
      exact hb
  constructor
  case tracking => rw [tracking, hk.tracking]
  case stored_held =>
    intro r' hr'
    rw [nextRef]
    exact (hk.stored_held r' hr').imp_right hheld
  case based =>
    intro r' hr'
    by_cases heq : r' = r
    · rw [heq, hself] at hr' ⊢
      exact based hr'
    · rw [hother heq] at hr' ⊢
      exact hk.based r' hr'
  case held =>
    intro r' hr'
    by_cases heq : r' = r
    · rw [heq, hself] at hr' ⊢
      exact held hr'
    · rw [hother heq] at hr' ⊢
      exact hk.held r' hr'
  case described =>
    intro k r' hr'
    obtain ⟨hold, hmeta⟩ := waits k r' hr'
    by_cases heq : r' = r
    · rw [heq, hself]
      exact hmeta heq
    · rw [hother heq]
      exact hk.described k r' hold
  case orphans =>
    rw [orphans]
    exact fun r' hr' ↦ hbased (hk.orphans r' hr')
  case queued =>
    intro r' hr' hheld' huncovered
    rw [nextRef] at hr'
    refine queued r' (hk.queued r' hr' ?_ fun hcovered ↦ huncovered fun k ↦ ?_)
    · by_cases heq : r' = r
      · rw [heq, ← hr]
        exact hk.held_of_flight List.mem_cons_self
      · rw [hother heq] at hheld'
        exact hheld'
    · have hle := hcovered k
      rw [inFlight_cons] at hle
      by_cases heq : r' = r
      · rw [heq, hr, if_pos rfl] at hle
        rw [heq, hself, count, flushed]
        omega
      · rw [hr, if_neg heq, zero_add] at hle
        rw [hother heq]
        exact hle
  case first =>
    intro k r' hr' hheld' hbase
    rw [entries] at hr'
    by_cases heq : r' = r
    · rw [heq, hself] at hbase
      exact absurd (heq ▸ hr') (live hbase k)
    · rw [hother heq] at hheld' hbase
      rcases hk.first k r' hr' hheld' hbase with hdocument | ⟨hd, hmem⟩
      · exact Or.inl (first k r' heq hr' hdocument)
      · refine Or.inr ⟨hd, ?_⟩
        rw [List.map_cons, List.mem_cons] at hmem
        exact hmem.resolve_left fun h ↦ heq (h.trans hr)
  case flight_hashes => exact fun hd ↦ (List.nodup_cons.mp (hk.flight_hashes hd)).2
  case flight_described =>
    intro hd other hmem
    rw [hother (hne hmem)]
    exact hk.flight_described hd other (List.mem_cons_of_mem _ hmem)
  case flight_alone =>
    intro hd other hmem hlive r' hr'
    rw [entries] at hlive
    exact hk.flight_alone hd other (List.mem_cons_of_mem _ hmem) hlive r' (waits _ r' hr').1
  case flight_based =>
    intro hd other hmem
    exact (hk.flight_based hd other (List.mem_cons_of_mem _ hmem)).imp_right hbased

/-- Marking an entry that is evicted, or written before, changes its flushed count alone. -/
theorem flushSnapshot {snapshot : IndexSnapshot}
    (hk : c.Retained stored (snapshot :: flight) documents)
    (hnew : snapshot.entry ∉ flight.map IndexSnapshot.entry)
    (hlive : (c.heap snapshot.entry).indexBase = none → ∀ k, c.entries.get? k ≠ some snapshot.entry) :
    (c.flushSnapshot snapshot).Retained stored flight documents := by
  have howner (r : Ref) : (c.flushSnapshot snapshot).owner r = c.owner r := by
    by_cases heq : r = snapshot.entry
    · subst heq
      simp [TorrentCatalog.owner, TorrentCatalog.flushSnapshot, modify]
    · simp [TorrentCatalog.owner, TorrentCatalog.flushSnapshot, modify, Function.update_of_ne heq]
  refine hk.marked rfl hnew rfl (fun k ↦ by cases k <;> rfl)
    (fun k ↦ by cases k <;> rfl) (hk.held_of_flight List.mem_cons_self) (hk.based _) (hk.held _) id
    (fun k r hr ↦ ⟨hr, fun heq ↦ heq ▸ hk.described k r hr⟩) (fun r hqueued ↦ ?_) hlive
    fun _ _ _ _ hr ↦ hr
  unfold Queued at hqueued ⊢
  rw [howner]
  exact hqueued

theorem markCountersWritten (hk : c.Retained stored flight false)
    (hnodup : (flight.map IndexSnapshot.entry).Nodup) :
    (c.markCountersWritten flight).Retained stored [] false := by
  have hfold : ∀ (snapshots : List IndexSnapshot) (c : TorrentCatalog),
      (snapshots.map IndexSnapshot.entry).Nodup → c.Retained stored snapshots false →
      (snapshots.foldl TorrentCatalog.flushSnapshot c).Retained stored [] false := by
    intro snapshots
    induction snapshots with
    | nil => exact fun _ _ hk ↦ hk
    | cons first rest ih =>
      intro c hnodup hk
      obtain ⟨hnew, hrest⟩ := List.nodup_cons.mp hnodup
      refine ih _ hrest (hk.flushSnapshot hnew fun hbase ↦ ?_)
      have hsome := (hk.flight_based rfl first List.mem_cons_self).2
      rw [hbase] at hsome
      cases hsome
  exact (hfold flight c hnodup hk).of_eq

/-- A document written for the live entry gives it a base; sightings counted since then wait in the
counter queue. -/
theorem markIndexWritten {snapshot : IndexSnapshot} {base : IndexBase}
    (hk : c.Retained stored (snapshot :: flight) true)
    (ha : c.Accounted start rows (snapshot :: flight) true past) (hrep : c.Represented ∅)
    (hmeta : snapshot.metadata.isSome) :
    (c.markIndexWritten snapshot base).Retained stored flight true := by
  have hcarried := ha.carried snapshot List.mem_cons_self
  obtain ⟨hnew, -⟩ := List.nodup_cons.mp ha.flight_nodup
  rw [show c.markIndexWritten snapshot base = _ from if_pos hmeta]
  let flushed := c.flushSnapshot snapshot
  let r := snapshot.entry
  let h := snapshot.infoHash
  have hmarked {c' : TorrentCatalog} (hk' : c'.Retained stored flight true) :
      (c'.assertInvariantsLocked.check (0 ≤ base.1)).Retained stored flight true := hk'.of_eq
  split
  next hlive =>
    have hflushedRep : flushed.Represented ∅ := hrep.flushSnapshot snapshot
    have hlive' : flushed.entries.get? h = some r := hlive
    obtain ⟨-, hwritten⟩ := writtenLocked_spec hflushedRep hlive' hmeta base
    let entry := writtenEntry (flushed.heap r) snapshot base
    have hself : flushed.heap r = { c.heap r with
        flushedSeen := (c.heap r).flushedSeen + snapshot.seenDelta
        flushedAnnounce := (c.heap r).flushedAnnounce + snapshot.announceDelta } :=
      Function.update_self _ _ _
    have hheap : (flushed.writtenLocked r snapshot base).heap = Function.update c.heap r entry := by
      rw [hwritten.edited.heap]
      exact Function.update_idem _ _ _
    have hdescribed : (c.heap r).metadata.isSome :=
      (hk.flight_described rfl snapshot List.mem_cons_self).2
    have hentry : entry.infoHash = (c.heap r).infoHash ∧ entry.indexBase = some base ∧
        (∀ k, entry.count k = (c.heap r).count k) ∧
        (∀ k, entry.flushed k = (c.heap r).flushed k + snapshot.delta k) ∧ entry.held ∧
        (¬ isWritten (flushed.heap r) snapshot → entry.metadata.isSome) := by
      simp only [entry, writtenEntry]
      rw [hself]
      split
      next hw =>
        refine ⟨rfl, rfl, fun k ↦ by cases k <;> rfl, fun k ↦ by cases k <;> rfl, ?_, absurd hw⟩
        simp [TorrentEntry.held]
      next hw =>
        refine ⟨rfl, rfl, fun k ↦ by cases k <;> rfl, fun k ↦ by cases k <;> rfl, ?_,
          fun _ ↦ hdescribed⟩
        simp only [TorrentEntry.held, decide_eq_true_eq]
        exact Or.inl hdescribed
    obtain ⟨hhash, hbase, hcount, hflushed, hheld, hstays⟩ := hentry
    have howner (r' : Ref) : (flushed.writtenLocked r snapshot base).owner r' = c.owner r' := by
      unfold TorrentCatalog.owner
      rw [hheap]
      by_cases heq : r' = r
      · rw [heq, Function.update_self, hhash]
      · rw [Function.update_of_ne heq]
    have hdocuments : flushed.indexDocuments = c.indexDocuments := rfl
    have hcounters : flushed.indexCounters = c.indexCounters := rfl
    have hkept {r' : Ref} (hcounter : c.indexCounters.get? (c.owner r') = some r') :
        (flushed.writtenLocked r snapshot base).indexCounters.get? (c.owner r') = some r' := by
      rw [hwritten.indexCounters, hcounters]
      split
      · rcases get?_setDefault_live hrep hlive (k := c.owner r') with hsame | ⟨hk', hself'⟩
        · exact hsame.trans hcounter
        · have hother := hrep.counters_live _ r' hcounter
          rw [hk', hlive] at hother
          exact hself'.trans hother
      · exact hcounter
    refine hmarked (hk.marked (r := r) rfl hnew hheap hcount hflushed hheld
      (fun _ ↦ by rw [hbase]; rfl) (fun _ ↦ hheld) (fun _ ↦ by rw [hbase]; rfl) (fun k r' hr' ↦ ?_)
      (fun r' hqueued ↦ ?_) (fun hnone ↦ by rw [hbase] at hnone; cases hnone)
      (fun k r' hne hr' hdocument ↦ ?_) hwritten.edited.entries hwritten.edited.nextRef
      hwritten.indexTracking hwritten.orphanCounters)
    · rw [hwritten.indexDocuments, hdocuments] at hr'
      split at hr'
      next hw =>
        rw [OrderedMap.get?_erase] at hr'
        split at hr'
        · cases hr'
        next hne =>
          refine ⟨hr', fun heq ↦ absurd ?_ hne⟩
          rw [← (ha.documents k r' hr').2, heq]
          exact hcarried.owner
      next hw => exact ⟨hr', fun _ ↦ hstays hw⟩
    · unfold Queued at hqueued ⊢
      rw [howner, hwritten.orphanCounters]
      rcases hqueued with hdocument | hcounter | horphan
      · rw [hwritten.indexDocuments, hdocuments]
        split
        next hw =>
          rw [OrderedMap.get?_erase]
          split
          next hh =>
            -- the document that waits behind a live entry is its own
            have heq : r' = r := hk.flight_alone rfl snapshot List.mem_cons_self hlive r'
              (by rw [show snapshot.infoHash = c.owner r' from hh.symm]; exact hdocument)
            right
            left
            have hcontains : c.indexDocuments.contains h := by
              rw [show h = c.owner r' from hh.symm, OrderedMap.contains, hdocument]
              rfl
            rw [hwritten.indexCounters, if_pos ⟨hw, hcontains⟩, hh, heq]
            exact get?_setDefault_self hflushedRep hlive'
          next => exact Or.inl hdocument
        next => exact Or.inl hdocument
      · exact Or.inr (Or.inl (hkept hcounter))
      · exact Or.inr (Or.inr horphan)
    · rw [hwritten.indexDocuments, hdocuments]
      split
      · rw [OrderedMap.get?_erase, if_neg fun hh ↦ hne ?_]
        · exact hdocument
        · exact Option.some.inj ((hh ▸ hr').symm.trans hlive)
      · exact hdocument
  next hdead =>
    refine hmarked (hk.flushSnapshot hnew fun _ k hlive ↦ hdead ?_)
    rw [← hcarried.owner, show c.owner snapshot.entry = k from hrep.key k _ hlive]
    exact hlive

end Retained

end TorrentCatalog

end DhtScraper
