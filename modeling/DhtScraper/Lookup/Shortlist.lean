import DhtScraper.Lookup.Caps

/-!
# Kept and complete shortlists

The shortlist that a lookup keeps is compared with the shortlist of a lookup that keeps more: it
holds the closest nodes of the larger one, and goes on to do so when both are given the same nodes.
As long as the nodes it keeps suffice, both choose the same nodes to ask.
-/

namespace DhtScraper

open Library

/-- The order of `select_closest_nodes`. -/
def closer (target : Bytes) (node other : Node) : Prop :=
  xorDistance node.nodeId target ≤ xorDistance other.nodeId target

instance (target : Bytes) : DecidableRel (closer target) := fun _ _ ↦ Nat.decLe _ _

instance (target : Bytes) : Std.Total (closer target) := ⟨fun _ _ ↦ Nat.le_total _ _⟩

instance (target : Bytes) : IsTrans Node (closer target) := ⟨fun _ _ _ ↦ Nat.le_trans⟩

theorem selectClosestNodes_eq (nodes : List Node) (target : Bytes) (count : ℕ) :
    selectClosestNodes nodes target count = takeFirst (closer target) count nodes := rfl

/-- `shortlist[node[0]] = node` for each of the nodes. -/
def fill (nodes : List Node) (shortlist : OrderedMap Bytes Node) : OrderedMap Bytes Node :=
  nodes.foldl (fun shortlist node ↦ shortlist.insert node.nodeId node) shortlist

/-- The second half of `add_to_shortlist`. -/
def trim (size : ℕ) (target : Bytes) (shortlist : OrderedMap Bytes Node) : OrderedMap Bytes Node :=
  if size < shortlist.size then
    LookupManager.nodesById (selectClosestNodes shortlist.values target size)
  else shortlist

/-- Nodes are filed under their own ids, which are valid. -/
structure ValidShortlist (shortlist : OrderedMap Bytes Node) : Prop where
  filed : FiledById shortlist
  valid : ∀ id ∈ shortlist.keys, id.length = nodeIdLength

section Filling

variable {shortlist narrow wide : OrderedMap Bytes Node} {nodes : List Node} {target : Bytes}

theorem FiledById.map_nodeId (h : FiledById shortlist) :
    shortlist.values.map Node.nodeId = shortlist.keys := by
  rw [OrderedMap.values, OrderedMap.keys, List.map_map]
  refine List.map_congr_left fun item hitem ↦ ?_
  exact h item.1 item.2 (OrderedMap.get?_eq_some_iff.mpr hitem)

theorem FiledById.mem_values (h : FiledById shortlist) {node : Node} :
    node ∈ shortlist.values ↔ shortlist.get? node.nodeId = some node := by
  rw [OrderedMap.mem_values_iff]
  constructor
  · rintro ⟨id, hget⟩
    rw [h id node hget]
    exact hget
  · exact fun hget ↦ ⟨_, hget⟩

/-- Nodes of a valid shortlist at one distance are equal. -/
theorem ValidShortlist.eq_of_closer (h : ValidShortlist shortlist) {node other : Node}
    (hnode : node ∈ shortlist.values) (hother : other ∈ shortlist.values)
    (hle : closer target node other) (hge : closer target other node) : node = other := by
  have hget := h.filed.mem_values.mp hnode
  have hget' := h.filed.mem_values.mp hother
  have hkey := OrderedMap.get?_isSome_iff.mp (Option.isSome_of_eq_some hget)
  have hkey' := OrderedMap.get?_isSome_iff.mp (Option.isSome_of_eq_some hget')
  have hid : node.nodeId = other.nodeId :=
    xorDistance_inj ((h.valid _ hkey).trans (h.valid _ hkey').symm) (Nat.le_antisymm hle hge)
  rw [hid, hget'] at hget
  exact (Option.some.inj hget).symm

theorem ValidShortlist.nodup_values (h : ValidShortlist shortlist) : shortlist.values.Nodup := by
  have hids : (shortlist.values.map Node.nodeId).Nodup := h.filed.map_nodeId ▸ shortlist.nodup
  exact hids.of_map

/-- What a shortlist holds of the nodes it is filled with. -/
theorem fill_keeps (nodes : List Node) : ∀ {shortlist : OrderedMap Bytes Node} {id : Bytes},
    shortlist.contains id → (fill nodes shortlist).contains id := by
  induction nodes with
  | nil => exact fun h ↦ h
  | cons first rest ih =>
    intro shortlist id h
    refine ih ?_
    rw [OrderedMap.contains, OrderedMap.get?_insert]
    split
    · rfl
    · exact h

theorem fill_mono (nodes : List Node) : ∀ {narrow wide : OrderedMap Bytes Node},
    (∀ id node, narrow.get? id = some node → wide.get? id = some node) →
      ∀ id node, (fill nodes narrow).get? id = some node → (fill nodes wide).get? id = some node := by
  induction nodes with
  | nil => exact fun h ↦ h
  | cons first rest ih =>
    intro narrow wide h
    refine ih fun id node hget ↦ ?_
    rw [OrderedMap.get?_insert] at hget ⊢
    split
    next hid => rwa [if_pos hid] at hget
    next hid => exact h id node (by rwa [if_neg hid] at hget)

/-- What only the larger shortlist holds after both were filled, it held before. -/
theorem fill_old (nodes : List Node) : ∀ {narrow wide : OrderedMap Bytes Node} {id : Bytes}
    {node : Node}, (fill nodes wide).get? id = some node → ¬ (fill nodes narrow).contains id →
      wide.get? id = some node := by
  induction nodes with
  | nil => exact fun h _ ↦ h
  | cons first rest ih =>
    intro narrow wide id node hget hnot
    have hold := ih hget hnot
    rw [OrderedMap.get?_insert] at hold
    split at hold
    next hid =>
      refine absurd (fill_keeps rest ?_) hnot
      rw [hid]
      exact OrderedMap.contains_insert_self _ _ _
    next => exact hold

theorem ValidShortlist.filled (h : ValidShortlist shortlist)
    (hnodes : ∀ node ∈ nodes, node.nodeId.length = nodeIdLength) :
    ValidShortlist (fill nodes shortlist) := by
  have hfiled : FiledById (fill nodes shortlist) := h.filed.foldl nodes
  refine ⟨hfiled, fun id hid ↦ ?_⟩
  obtain ⟨node, hget⟩ := Option.isSome_iff_exists.mp (OrderedMap.get?_isSome_iff.mpr hid)
  have hmem := mem_values_foldl_insert nodes (OrderedMap.mem_values_iff.mpr ⟨id, hget⟩)
  rw [← hfiled id node hget]
  rcases List.mem_append.mp hmem with hold | hnew
  · have hkey := h.filed.mem_values.mp hold
    exact h.valid _ (OrderedMap.get?_isSome_iff.mp (Option.isSome_of_eq_some hkey))
  · exact hnodes node hnew

theorem values_insert_of_absent {node : Node} (h : shortlist.get? node.nodeId = none) :
    (shortlist.insert node.nodeId node).values = shortlist.values ++ [node] := by
  have hc : ¬ shortlist.contains node.nodeId := by simp [OrderedMap.contains, h]
  rw [OrderedMap.insert, if_neg hc, OrderedMap.values, OrderedMap.insertLast]
  simp [OrderedMap.erase_eq_self h, OrderedMap.values]

/-- Filling with nodes of new, distinct ids appends them. -/
theorem values_fill (nodes : List Node) : ∀ {shortlist : OrderedMap Bytes Node},
    (nodes.map Node.nodeId).Nodup → (∀ node ∈ nodes, shortlist.get? node.nodeId = none) →
      (fill nodes shortlist).values = shortlist.values ++ nodes := by
  induction nodes with
  | nil => exact fun _ _ ↦ (List.append_nil _).symm
  | cons first rest ih =>
    intro shortlist hnodup hnew
    rw [List.map_cons, List.nodup_cons] at hnodup
    have hrest : ∀ node ∈ rest, (shortlist.insert first.nodeId first).get? node.nodeId = none := by
      intro node hnode
      have hne : node.nodeId ≠ first.nodeId := fun heq ↦
        hnodup.1 (heq ▸ List.mem_map_of_mem hnode)
      rw [OrderedMap.get?_insert, if_neg hne]
      exact hnew node (List.mem_cons_of_mem _ hnode)
    have htail := ih hnodup.2 hrest
    rw [values_insert_of_absent (hnew first List.mem_cons_self), List.append_assoc] at htail
    exact htail

end Filling

/-! ## Trimming -/

section Trimming

variable {size : ℕ} {target : Bytes} {shortlist narrow wide : OrderedMap Bytes Node}
  {nodes : List Node}

/-- A trimmed shortlist holds the closest nodes. -/
theorem ValidShortlist.trimmed (h : ValidShortlist shortlist) (size : ℕ) (target : Bytes) :
    ValidShortlist (trim size target shortlist) ∧ (trim size target shortlist).values.Perm
      (selectClosestNodes shortlist.values target size) := by
  unfold trim
  split
  next =>
    have hempty : FiledById (.empty : OrderedMap Bytes Node) := fun _ _ hget ↦ by cases hget
    have hfiled : FiledById (LookupManager.nodesById
      (selectClosestNodes shortlist.values target size)) := hempty.foldl _
    have hids : ((selectClosestNodes shortlist.values target size).map Node.nodeId).Nodup := by
      have hall : (shortlist.values.map Node.nodeId).Nodup := by
        rw [h.filed.map_nodeId]
        exact shortlist.nodup
      have hperm := (List.perm_insertionSort (closer target) shortlist.values).map Node.nodeId
      exact (hperm.nodup_iff.mpr hall).sublist ((List.take_sublist _ _).map _)
    have hvalues : (LookupManager.nodesById
        (selectClosestNodes shortlist.values target size)).values =
          selectClosestNodes shortlist.values target size :=
      values_fill _ hids fun _ _ ↦ rfl
    refine ⟨⟨hfiled, fun id hid ↦ ?_⟩, by rw [hvalues]⟩
    rw [← hfiled.map_nodeId, hvalues] at hid
    obtain ⟨node, hnode, rfl⟩ := List.mem_map.mp hid
    have hget := h.filed.mem_values.mp (mem_of_mem_selectClosestNodes hnode)
    exact h.valid _ (OrderedMap.get?_isSome_iff.mp (Option.isSome_of_eq_some hget))
  next hfits =>
    refine ⟨h, ?_⟩
    have hlength : (shortlist.values.insertionSort (closer target)).length ≤ size := by
      rw [List.length_insertionSort, OrderedMap.values, List.length_map]
      exact not_lt.mp hfits
    rw [selectClosestNodes_eq, takeFirst, List.take_of_length_le hlength]
    exact (List.perm_insertionSort _ _).symm

/-- The kept shortlist holds the closest nodes of the larger one. -/
structure Trimmed (size : ℕ) (target : Bytes) (narrow wide : OrderedMap Bytes Node) : Prop where
  keptValid : ValidShortlist narrow
  wideValid : ValidShortlist wide
  closest : narrow.values.Perm (selectClosestNodes wide.values target size)

theorem Trimmed.subset (h : Trimmed size target narrow wide) (id : Bytes) (node : Node)
    (hget : narrow.get? id = some node) : wide.get? id = some node := by
  have hmem := h.closest.mem_iff.mp (OrderedMap.mem_values_iff.mpr ⟨id, hget⟩)
  rw [← h.keptValid.filed id node hget]
  exact h.wideValid.filed.mem_values.mp (mem_of_mem_selectClosestNodes hmem)

/-- The count of the nodes closer than a given one, over the ids. -/
theorem FiledById.countP_closer (h : FiledById shortlist) (target : Bytes) (node : Node) :
    shortlist.values.countP (fun other ↦ !decide (closer target node other)) =
      shortlist.keys.countP fun id ↦
        !decide (xorDistance node.nodeId target ≤ xorDistance id target) := by
  rw [← h.map_nodeId, List.countP_map]
  rfl

/-- Both shortlists, filled with the same nodes, have the same closest ones. -/
theorem Trimmed.filled (h : Trimmed size target narrow wide)
    (hnodes : ∀ node ∈ nodes, node.nodeId.length = nodeIdLength) :
    selectClosestNodes (fill nodes narrow).values target size =
      selectClosestNodes (fill nodes wide).values target size := by
  have hnarrow := h.keptValid.filled hnodes
  have hwide := h.wideValid.filled hnodes
  have hmono := fill_mono nodes h.subset
  let kept : Node → Bool := fun node ↦ (fill nodes narrow).contains node.nodeId
  have hperm : (fill nodes narrow).values.Perm
      ((fill nodes wide).values.filter kept) := by
    rw [List.perm_ext_iff_of_nodup hnarrow.nodup_values (hwide.nodup_values.filter _)]
    intro node
    rw [List.mem_filter, hnarrow.filed.mem_values, hwide.filed.mem_values]
    constructor
    · exact fun hget ↦ ⟨hmono _ _ hget, Option.isSome_of_eq_some hget⟩
    · rintro ⟨hget, hkept⟩
      obtain ⟨other, hother⟩ := Option.isSome_iff_exists.mp hkept
      rw [hother, ← hget, hmono _ _ hother]
  have hfirst : ∀ node ∈ takeFirst (closer target) size (fill nodes wide).values,
      kept node := by
    intro node hnode
    by_contra hnot
    have hkeys : ∀ other ∈ (fill nodes wide).values, closer target node other →
        closer target other node → other = node := fun other hother hle hge ↦
      hwide.eq_of_closer hother (mem_of_mem_takeFirst _ hnode) hge hle
    obtain ⟨hmem, hcount⟩ := (mem_takeFirst_iff _ hkeys).mp hnode
    have hold := fill_old nodes (hwide.filed.mem_values.mp hmem) hnot
    have hbefore := h.wideValid.filed.mem_values.mpr hold
    -- the larger shortlist has the ids it had, so no more nodes were closer before
    have hless : wide.keys.countP (fun id ↦
        !decide (xorDistance node.nodeId target ≤ xorDistance id target)) < size := by
      refine lt_of_le_of_lt (List.Subperm.countP_le _ ?_) (hwide.filed.countP_closer _ _ ▸ hcount)
      refine wide.nodup.subperm fun id hid ↦ ?_
      exact OrderedMap.get?_isSome_iff.mp
        (fill_keeps nodes (OrderedMap.get?_isSome_iff.mpr hid))
    have hchosen : node ∈ takeFirst (closer target) size wide.values := by
      refine (mem_takeFirst_iff _ fun other hother hle hge ↦ ?_).mpr
        ⟨hbefore, h.wideValid.filed.countP_closer _ _ ▸ hless⟩
      exact h.wideValid.eq_of_closer hother hbefore hge hle
    have hkept := h.keptValid.filed.mem_values.mp (h.closest.mem_iff.mpr hchosen)
    exact hnot (fill_keeps nodes (Option.isSome_of_eq_some hkept))
  have hdistinct : ∀ node ∈ (fill nodes narrow).values,
      ∀ other ∈ (fill nodes narrow).values, closer target node other →
        closer target other node → node = other := fun node hnode other hother ↦
    hnarrow.eq_of_closer hnode hother
  rw [selectClosestNodes_eq, takeFirst, insertionSort_congr _ hdistinct hperm]
  exact takeFirst_filter_of_forall (closer target) kept hfirst

/-- What `add_to_shortlist` leaves of both. -/
theorem Trimmed.added (h : Trimmed size target narrow wide) {larger : ℕ} (hsize : size ≤ larger)
    (hnodes : ∀ node ∈ nodes, node.nodeId.length = nodeIdLength) :
    Trimmed size target (trim size target (fill nodes narrow))
      (trim larger target (fill nodes wide)) := by
  obtain ⟨hnarrow, hkept⟩ := (h.keptValid.filled hnodes).trimmed size target
  obtain ⟨hwide, hlarger⟩ := (h.wideValid.filled hnodes).trimmed larger target
  refine ⟨hnarrow, hwide, hkept.trans ?_⟩
  have hdistinct : ∀ node ∈ (trim larger target (fill nodes wide)).values,
      ∀ other ∈ (trim larger target (fill nodes wide)).values,
        closer target node other → closer target other node → node = other :=
    fun node hnode other hother ↦ hwide.eq_of_closer hnode hother
  have hsame : selectClosestNodes (trim larger target (fill nodes wide)).values target
      size = selectClosestNodes (fill nodes wide).values target size := by
    rw [selectClosestNodes_eq, takeFirst, insertionSort_congr _ hdistinct hlarger]
    exact takeFirst_takeFirst (closer target) hsize _
  rw [hsame, h.filled hnodes]

theorem Trimmed.size_eq (h : Trimmed size target narrow wide) :
    narrow.size = min size wide.size := by
  have hlength := h.closest.length_eq
  rw [selectClosestNodes_eq, length_takeFirst, OrderedMap.values, List.length_map,
    OrderedMap.values, List.length_map] at hlength
  exact hlength

/-- A shortlist that is not full has dropped nothing. -/
theorem Trimmed.mem_of_short (h : Trimmed size target narrow wide) (hshort : narrow.size < size)
    {node : Node} (hnode : node ∈ wide.values) : node ∈ narrow.values := by
  rw [h.size_eq] at hshort
  have hlength : (wide.values.insertionSort (closer target)).length ≤ size := by
    rw [List.length_insertionSort, OrderedMap.values, List.length_map]
    exact le_of_lt (lt_of_not_ge fun hle ↦ (min_eq_left hle ▸ hshort).ne rfl)
  refine h.closest.mem_iff.mpr ?_
  rw [selectClosestNodes_eq, takeFirst, List.take_of_length_le hlength]
  exact (List.mem_insertionSort _).mpr hnode

theorem Trimmed.mem_wide (h : Trimmed size target narrow wide) {node : Node}
    (hnode : node ∈ narrow.values) : node ∈ wide.values :=
  mem_of_mem_selectClosestNodes (h.closest.mem_iff.mp hnode)

/-- Choosing among the kept nodes is choosing among all of them, as long as none with the property
was dropped or the kept ones suffice. -/
theorem Trimmed.chosen (h : Trimmed size target narrow wide) (p : Node → Bool) {count : ℕ}
    (henough : (∀ node ∈ wide.values, p node → node ∈ narrow.values) ∨
      count ≤ (narrow.values.filter p).length) :
    selectClosestNodes (narrow.values.filter p) target count =
      selectClosestNodes (wide.values.filter p) target count := by
  have hdistinct : ∀ node ∈ narrow.values.filter p, ∀ other ∈ narrow.values.filter p,
      closer target node other → closer target other node → node = other :=
    fun node hnode other hother ↦ h.keptValid.eq_of_closer (List.mem_of_mem_filter hnode)
      (List.mem_of_mem_filter hother)
  rcases henough with hkept | hcount
  · have hperm : (narrow.values.filter p).Perm (wide.values.filter p) := by
      rw [List.perm_ext_iff_of_nodup (h.keptValid.nodup_values.filter p)
        (h.wideValid.nodup_values.filter p)]
      intro node
      rw [List.mem_filter, List.mem_filter]
      exact ⟨fun hnode ↦ ⟨h.mem_wide hnode.1, hnode.2⟩,
        fun hnode ↦ ⟨hkept node hnode.1 hnode.2, hnode.2⟩⟩
    rw [selectClosestNodes_eq, selectClosestNodes_eq, takeFirst, takeFirst,
      insertionSort_congr _ hdistinct hperm]
  · have hperm := h.closest.filter p
    rw [selectClosestNodes_eq] at hperm
    have hroom : count ≤ ((takeFirst (closer target) size wide.values).filter p).length :=
      hperm.length_eq ▸ hcount
    rw [selectClosestNodes_eq, takeFirst, insertionSort_congr _ hdistinct hperm]
    exact takeFirst_filter_takeFirst (closer target) p (.inl hroom)

theorem Trimmed.any_eq (h : Trimmed size target narrow wide) (p : Node → Bool)
    (henough : (∀ node ∈ wide.values, p node → node ∈ narrow.values) ∨ narrow.values.any p) :
    wide.values.any p = narrow.values.any p := by
  rw [Bool.eq_iff_iff, List.any_eq_true, List.any_eq_true]
  constructor
  · rintro ⟨node, hnode, hp⟩
    rcases henough with hkept | hsome
    · exact ⟨node, hkept node hnode hp, hp⟩
    · exact List.any_eq_true.mp hsome
  · rintro ⟨node, hnode, hp⟩
    exact ⟨node, h.mem_wide hnode, hp⟩

end Trimming

end DhtScraper
