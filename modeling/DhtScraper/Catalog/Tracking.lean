import DhtScraper.Catalog.Protocol

/-!
# Tracking a session

`Sound` relates a catalog to the claims its callers hold: the claimed hashes are exactly the entries
in progress, and exactly the entries with a running lookup.  It also carries a property of single
entries that the steps of an entry preserve.  Every operation under a discipline keeps a session
sound.
-/

namespace DhtScraper

open Library

/-- A claimed fetch. -/
def TorrentEntry.isFetching (entry : TorrentEntry) : Bool := entry.fetchState = .inProgress

/-- A property of entries that holds for new entries and is kept by every step. -/
structure EntryInvariant (limits : CatalogLimits) (d : Discipline) (Q : TorrentEntry → Prop) :
    Prop where
  new : ∀ h now checked, Q (TorrentEntry.new h now checked)
  step : ∀ e e', (e.metadata.isSome → e.fetchState = .done) → Q e → EntryStep limits d e e' → Q e'

/-- The catalog is represented exactly, the claims are the busy entries, and every live entry has
the property. -/
structure Sound (limits : CatalogLimits) (Q : TorrentEntry → Prop) (c : TorrentCatalog)
    (F L : Finset Bytes) : Prop where
  represented : c.Represented ∅
  limits : c.limits = limits
  fetching : ∀ h, h ∈ F ↔ (c.liveWhere TorrentEntry.isFetching h).isSome
  lookingUp : ∀ h, h ∈ L ↔ (c.liveWhere TorrentEntry.lookupInProgress h).isSome
  entry : ∀ h r, c.entries.get? h = some r → Q (c.heap r)

namespace Sound

open TorrentCatalog

variable {limits : CatalogLimits} {d : Discipline} {Q : TorrentEntry → Prop}
  {c c' mid : TorrentCatalog} {F F' L L' : Finset Bytes} {h : Bytes} {r : Ref}
  {entry : TorrentEntry}

theorem mem_fetching (hs : Sound limits Q c F L) (hr : c.entries.get? h = some r) :
    h ∈ F ↔ (c.heap r).fetchState = .inProgress := by
  rw [hs.fetching, liveWhere_of_live hr]
  by_cases hf : (c.heap r).fetchState = .inProgress <;> simp [TorrentEntry.isFetching, hf]

theorem mem_lookingUp (hs : Sound limits Q c F L) (hr : c.entries.get? h = some r) :
    h ∈ L ↔ (c.heap r).lookupInProgress := by
  rw [hs.lookingUp, liveWhere_of_live hr]
  by_cases hl : (c.heap r).lookupInProgress <;> simp [hl]

/-- A claimed hash has a live entry. -/
theorem live_of_fetching (hs : Sound limits Q c F L) (hh : h ∈ F) :
    ∃ r, c.entries.get? h = some r ∧ (c.heap r).fetchState = .inProgress := by
  obtain ⟨r, hr⟩ := Option.isSome_iff_exists.mp ((hs.fetching h).mp hh)
  obtain ⟨hlive, hf⟩ := liveWhere_eq_some_iff.mp hr
  exact ⟨r, hlive, by simpa [TorrentEntry.isFetching] using hf⟩

theorem live_of_lookingUp (hs : Sound limits Q c F L) (hh : h ∈ L) :
    ∃ r, c.entries.get? h = some r ∧ (c.heap r).lookupInProgress := by
  obtain ⟨r, hr⟩ := Option.isSome_iff_exists.mp ((hs.lookingUp h).mp hh)
  exact ⟨r, liveWhere_eq_some_iff.mp hr⟩

/-- Only the entry of `h` is replaced, added or removed. -/
theorem replaced (hs : Sound limits Q c F L) (hrep : c'.Represented ∅)
    (hlimits : c'.limits = c.limits)
    (hother : ∀ k ≠ h, c'.entries.get? k = c.entries.get? k)
    (hheap : ∀ k ≠ h, ∀ r', c.entries.get? k = some r' → c'.heap r' = c.heap r')
    (hself : ∀ r', c'.entries.get? h = some r' → Q (c'.heap r'))
    (hF : ∀ k, k ∈ F' ↔
      if k = h then ((c'.liveWhere TorrentEntry.isFetching h).isSome : Prop) else k ∈ F)
    (hL : ∀ k, k ∈ L' ↔
      if k = h then ((c'.liveWhere TorrentEntry.lookupInProgress h).isSome : Prop) else k ∈ L) :
    Sound limits Q c' F' L' := by
  have hlive (p : TorrentEntry → Bool) {k : Bytes} (hk : k ≠ h) :
      c'.liveWhere p k = c.liveWhere p k := by
    rw [liveWhere, liveWhere, hother k hk]
    cases hget : c.entries.get? k with
    | none => rfl
    | some r' => simp only [Option.filter, hheap k hk r' hget]
  constructor
  case represented => exact hrep
  case limits => exact hlimits.trans hs.limits
  case fetching =>
    intro k
    rw [hF]
    by_cases hk : k = h
    · rw [if_pos hk, hk]
    · rw [if_neg hk, hlive _ hk, hs.fetching]
  case lookingUp =>
    intro k
    rw [hL]
    by_cases hk : k = h
    · rw [if_pos hk, hk]
    · rw [if_neg hk, hlive _ hk, hs.lookingUp]
  case entry =>
    intro k r' hr'
    by_cases hk : k = h
    · subst hk
      exact hself r' hr'
    · rw [hother k hk] at hr'
      rw [hheap k hk r' hr']
      exact hs.entry k r' hr'

/-- Fields that have nothing to do with the live entries may change. -/
theorem of_same (hs : Sound limits Q c F L) (hrep : c'.Represented ∅)
    (hlimits : c'.limits = c.limits) (hentries : c'.entries = c.entries)
    (hheap : ∀ k r', c.entries.get? k = some r' → c'.heap r' = c.heap r') :
    Sound limits Q c' F L := by
  have hlive (p : TorrentEntry → Bool) (k : Bytes) : c'.liveWhere p k = c.liveWhere p k := by
    rw [liveWhere, liveWhere, hentries]
    cases hget : c.entries.get? k with
    | none => rfl
    | some r' => simp only [Option.filter, hheap k r' hget]
  constructor
  case represented => exact hrep
  case limits => exact hlimits.trans hs.limits
  case fetching => intro k; rw [hlive, hs.fetching]
  case lookingUp => intro k; rw [hlive, hs.lookingUp]
  case entry =>
    intro k r' hr'
    rw [hentries] at hr'
    rw [hheap k r' hr']
    exact hs.entry k r' hr'

/-- Only the settings, the live entries and the heap matter. -/
theorem of_heap (hs : Sound limits Q c F L) (hrep : c'.Represented ∅)
    (hlimits : c'.limits = c.limits) (hentries : c'.entries = c.entries)
    (hheap : c'.heap = c.heap) : Sound limits Q c' F L :=
  hs.of_same hrep hlimits hentries fun _ r' _ ↦ congrFun hheap r'

theorem check (hs : Sound limits Q c F L) (p : Prop) [Decidable p] :
    Sound limits Q (c.check p) F L := hs.of_heap (hs.represented.check p) rfl rfl rfl

theorem assertInvariantsLocked (hs : Sound limits Q c F L) :
    Sound limits Q c.assertInvariantsLocked F L := hs.check _

theorem settle (hs : Sound limits Q c F L) : Sound limits Q c.settle F L :=
  hs.of_heap hs.represented.of_eq rfl rfl rfl

/-- An operation whose assertions fail changes neither the entries nor the claims. -/
theorem guarded (hs : Sound limits Q c F L) {p : Prop} [Decidable p] {body : TorrentCatalog}
    (hbody : p → Sound limits Q body F' L') (hF : ¬ p → F' = F) (hL : ¬ p → L' = L) :
    Sound limits Q (c.guarded p body) F' L' := by
  unfold TorrentCatalog.guarded
  by_cases hp : p
  · rw [if_pos hp]
    exact hbody hp
  · rw [if_neg hp, hF hp, hL hp]
    exact hs.of_heap hs.represented.of_eq rfl rfl rfl

/-- One live entry is edited; the claims follow its flags. -/
theorem edited (hs : Sound limits Q c F L) (hr : c.entries.get? h = some r)
    (he : c.Edited c' h r entry) (hrep : c'.Represented ∅) (hQ : Q entry)
    (hF : ∀ k, k ∈ F' ↔ if k = h then entry.fetchState = .inProgress else k ∈ F)
    (hL : ∀ k, k ∈ L' ↔ if k = h then (entry.lookupInProgress : Prop) else k ∈ L) :
    Sound limits Q c' F' L' := by
  have hlive : c'.entries.get? h = some r := by rw [he.entries, hr]
  refine hs.replaced (h := h) hrep he.limits (fun k _ ↦ by rw [he.entries]) ?_ ?_ ?_ ?_
  · intro k hk r' hr'
    rw [he.heap]
    exact Function.update_of_ne
      (fun heq ↦ hk (hs.represented.live_unique hr (hr'.trans (congrArg some heq)))) _ _
  · intro r' hr'
    rw [Option.some.inj (hr'.symm.trans hlive), he.entry_eq]
    exact hQ
  · intro k
    rw [hF, liveWhere_of_live hlive, he.entry_eq]
    by_cases hf : entry.fetchState = .inProgress <;> simp [TorrentEntry.isFetching, hf]
  · intro k
    rw [hL, liveWhere_of_live hlive, he.entry_eq]
    by_cases hl : entry.lookupInProgress <;> simp [hl]

/-- An edit that leaves the flags of both claims alone. -/
theorem edited_same (hs : Sound limits Q c F L) (hr : c.entries.get? h = some r)
    (he : c.Edited c' h r entry) (hrep : c'.Represented ∅) (hQ : Q entry)
    (hfetch : entry.fetchState = .inProgress ↔ (c.heap r).fetchState = .inProgress)
    (hlookup : entry.lookupInProgress = (c.heap r).lookupInProgress) :
    Sound limits Q c' F L := by
  refine hs.edited hr he hrep hQ (fun k ↦ ?_) (fun k ↦ ?_)
  · by_cases hk : k = h
    · rw [if_pos hk, hk, hfetch, hs.mem_fetching hr]
    · rw [if_neg hk]
  · by_cases hk : k = h
    · rw [if_pos hk, hk, hlookup, hs.mem_lookingUp hr]
    · rw [if_neg hk]

/-- The obtained entry has the property, and no claim when it is new. -/
theorem obtained (hs : Sound limits Q c F L) (hinv : EntryInvariant limits d Q) {now : ℚ}
    (ho : c.Obtained mid h now r) : Q (mid.heap r) ∧
      (h ∈ F ↔ (mid.heap r).fetchState = .inProgress) ∧
      (h ∈ L ↔ (mid.heap r).lookupInProgress) := by
  cases ho with
  | live hr entries heap nextRef =>
    rw [heap]
    exact ⟨hs.entry h r hr, hs.mem_fetching hr, hs.mem_lookingUp hr⟩
  | new hnone entries heap nextRef =>
    have hF : h ∉ F := fun hh ↦ by
      obtain ⟨r, hr, -⟩ := hs.live_of_fetching hh
      simp [hnone] at hr
    have hL : h ∉ L := fun hh ↦ by
      obtain ⟨r, hr, -⟩ := hs.live_of_lookingUp hh
      simp [hnone] at hr
    rw [heap, Function.update_self]
    refine ⟨hinv.new _ _ _, ?_, ?_⟩
    · simp [hF, TorrentEntry.new]
    · simp [hL, TorrentEntry.new]

/-- The obtained entry of a hash is edited. -/
theorem obtained_edited (hs : Sound limits Q c F L) {now : ℚ} (ho : c.Obtained mid h now r)
    (hlimits : mid.limits = c.limits) (hmid : mid.Represented {h}) (he : mid.Edited c' h r entry)
    (hrep : c'.Represented ∅) (hQ : Q entry)
    (hF : ∀ k, k ∈ F' ↔ if k = h then entry.fetchState = .inProgress else k ∈ F)
    (hL : ∀ k, k ∈ L' ↔ if k = h then (entry.lookupInProgress : Prop) else k ∈ L) :
    Sound limits Q c' F' L' := by
  have hlive : c'.entries.get? h = some r := by rw [he.entries, ho.entry_live]
  refine hs.replaced (h := h) hrep (he.limits.trans hlimits)
    (fun k hk ↦ by rw [he.entries, ho.other_live hk]) ?_ ?_ ?_ ?_
  · intro k hk r' hr'
    obtain ⟨hmidlive, hsame⟩ := ho.keeps hs.represented.allocated hr'
    have hne : r' ≠ r := fun heq ↦
      hk (hmid.live_unique ho.entry_live (hmidlive.trans (congrArg some heq)))
    rw [he.heap, Function.update_of_ne hne, hsame]
  · intro r' hr'
    rw [Option.some.inj (hr'.symm.trans hlive), he.entry_eq]
    exact hQ
  · intro k
    rw [hF, liveWhere_of_live hlive, he.entry_eq]
    by_cases hf : entry.fetchState = .inProgress <;> simp [TorrentEntry.isFetching, hf]
  · intro k
    rw [hL, liveWhere_of_live hlive, he.entry_eq]
    by_cases hl : entry.lookupInProgress <;> simp [hl]

/-- An entry that nobody claimed may leave. -/
theorem evicted (hs : Sound limits Q c F L) (he : c.Evicted c' h r)
    (hr : c.entries.get? h = some r) (hfree : (c.heap r).isEvictable) :
    Sound limits Q c' F L := by
  simp only [TorrentEntry.isEvictable, decide_eq_true_eq] at hfree
  have hgone (p : TorrentEntry → Bool) : c'.liveWhere p h = none := by
    simp [liveWhere, he.entries]
  refine hs.replaced (h := h) (he.represented hs.represented hr ?_) he.limits ?_ ?_ ?_ ?_ ?_
  · simpa [TorrentEntry.isEvictable] using hfree
  · intro k hk
    simp [he.entries, hk]
  · intro k hk r' hr'
    exact he.heap_other (Evicted.ne_of_live hs.represented hr hk hr')
  · intro r' hr'
    simp [he.entries] at hr'
  · intro k
    rw [hgone]
    by_cases hk : k = h
    · rw [if_pos hk, hk, hs.mem_fetching hr]
      simp [hfree.1]
    · rw [if_neg hk]
  · intro k
    rw [hgone]
    by_cases hk : k = h
    · rw [if_pos hk, hk, hs.mem_lookingUp hr]
      simp [hfree.2]
    · rw [if_neg hk]

end Sound

end DhtScraper
