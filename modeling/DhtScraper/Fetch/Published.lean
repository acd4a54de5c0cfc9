import DhtScraper.Codec.RoundTrip
import DhtScraper.Fetch.Custody

/-!
# Published torrents

The summary of an info dictionary depends on what the dictionary holds and not on how it was written
down.  So the record of a torrent is what its publisher described, whichever peer sent the bytes, as
long as nobody finds other bytes with the same hash.
-/

namespace DhtScraper

open Library

/-! ## Dictionaries that are the same have the same summary -/

namespace BencodeValue

variable {left right : Option BencodeValue}

theorem Same.rel_item {items items' : List (Bytes × BencodeValue)}
    (h : (BencodeValue.dict items).Same (.dict items')) (key : String) :
    Option.Rel Same (infoItem items key) (infoItem items' key) := by
  cases h with
  | dict hkeys hvalues =>
    have hsome := hkeys (ascii key.toList)
    unfold infoItem
    cases hl : items.lookup (ascii key.toList) with
    | none =>
      rw [hl, Option.isSome_none] at hsome
      have hnone : items'.lookup (ascii key.toList) = none := by
        rw [← Option.not_isSome_iff_eq_none, ← hsome]
        exact Bool.false_ne_true
      rw [hnone]
      exact .none
    | some l =>
      rw [hl, Option.isSome_some] at hsome
      obtain ⟨r, hr⟩ := Option.isSome_iff_exists.mp hsome.symm
      rw [hr]
      exact .some (hvalues _ l r hl hr)

theorem decodeText_same (h : Option.Rel Same left right) : decodeText left = decodeText right := by
  cases h with
  | none => rfl
  | some h => cases h <;> rfl

theorem readLength_same (h : Option.Rel Same left right) : readLength left = readLength right := by
  cases h with
  | none => rfl
  | some h => cases h <;> rfl

theorem isEmpty_of_lookup {items items' : List (Bytes × BencodeValue)}
    (h : ∀ key, (items.lookup key).isSome = (items'.lookup key).isSome) (hempty : items = []) :
    items' = [] := by
  subst hempty
  cases items' with
  | nil => rfl
  | cons item rest => simpa using h item.1

theorem truthy_same (h : Option.Rel Same left right) : truthy left = truthy right := by
  cases h with
  | none => rfl
  | some h =>
    cases h with
    | int => rfl
    | bytes => rfl
    | @list left right hlength _ =>
      change (!left.isEmpty) = !right.isEmpty
      rw [Bool.eq_iff_iff]
      simp [← List.length_eq_zero_iff, hlength]
    | @dict left right hkeys _ =>
      change (!left.isEmpty) = !right.isEmpty
      have hiff : left = [] ↔ right = [] :=
        ⟨isEmpty_of_lookup hkeys, isEmpty_of_lookup fun key ↦ (hkeys key).symm⟩
      rw [Bool.eq_iff_iff]
      simp [hiff]

theorem Same.forall₂ {items items' : List BencodeValue}
    (h : (BencodeValue.list items).Same (.list items')) :
    List.Forall₂ Same items items' := by
  cases h with
  | list hlength hsame =>
    refine List.forall₂_iff_get.mpr ⟨hlength, fun i hi hi' ↦ ?_⟩
    exact hsame i _ _ (List.getElem?_eq_getElem hi) (List.getElem?_eq_getElem hi')

theorem mapM_eq_of_forall₂ {β ε : Type} {f : BencodeValue → Except ε β}
    {items items' : List BencodeValue} (hf : ∀ l r, Same l r → f l = f r)
    (h : List.Forall₂ Same items items') : items.mapM f = items'.mapM f := by
  induction h with
  | nil => rfl
  | cons hfirst _ ih => rw [List.mapM_cons, List.mapM_cons, hf _ _ hfirst, ih]

theorem map_eq_of_forall₂ {β : Type} {f : BencodeValue → β} {items items' : List BencodeValue}
    (hf : ∀ l r, Same l r → f l = f r) (h : List.Forall₂ Same items items') :
    items.map f = items'.map f := by
  induction h with
  | nil => rfl
  | cons hfirst _ ih => rw [List.map_cons, List.map_cons, hf _ _ hfirst, ih]

theorem readFileEntry_same {item item' : BencodeValue} (h : item.Same item') :
    readFileEntry item = readFileEntry item' := by
  cases hitem : h with
  | int => rfl
  | bytes => rfl
  | list => rfl
  | @dict items items' _ _ =>
    have hpreferred := h.rel_item "path.utf-8"
    have hparts : Option.Rel Same
        (if truthy (infoItem items "path.utf-8") then infoItem items "path.utf-8"
          else infoItem items "path")
        (if truthy (infoItem items' "path.utf-8") then infoItem items' "path.utf-8"
          else infoItem items' "path") := by
      rw [truthy_same hpreferred]
      split
      · exact hpreferred
      · exact h.rel_item "path"
    simp only [readFileEntry]
    rw [readLength_same (h.rel_item "length")]
    revert hparts
    generalize (if truthy (infoItem items "path.utf-8") then
      infoItem items "path.utf-8" else infoItem items "path") = parts
    generalize (if truthy (infoItem items' "path.utf-8") then
      infoItem items' "path.utf-8" else infoItem items' "path") = parts'
    intro hparts
    cases hparts with
    | none => rfl
    | some hpart =>
      cases hparts' : hpart with
      | int => rfl
      | bytes => rfl
      | dict => rfl
      | list =>
        dsimp only
        rw [map_eq_of_forall₂ (fun l r hsame ↦ decodeText_same (.some hsame)) hpart.forall₂]

theorem readFileEntries_same {items items' : List (Bytes × BencodeValue)}
    (h : (BencodeValue.dict items).Same (.dict items')) (name : Text) :
    readFileEntries items name = readFileEntries items' name := by
  have hfiles := h.rel_item "files"
  unfold readFileEntries
  rw [readLength_same (h.rel_item "length")]
  revert hfiles
  generalize infoItem items "files" = files
  generalize infoItem items' "files" = files'
  intro hfiles
  cases hfiles with
  | none => rfl
  | some hsame =>
    cases hlist : hsame with
    | int => rfl
    | bytes => rfl
    | dict => rfl
    | @list left right hlength _ =>
      cases hsame.forall₂ with
      | nil => rfl
      | cons hfirst hrest =>
        exact mapM_eq_of_forall₂ (fun l r ↦ readFileEntry_same) (.cons hfirst hrest)

/-- The summary is that of the value, however its dictionaries are ordered. -/
theorem summarizeInfoDict_same {info info' : BencodeValue} (h : info.Same info') (ident : ℕ)
    (infoHash : Bytes) (fetchedAt : ℚ) (sourcePeer : Option Address) :
    summarizeInfoDict ident infoHash info fetchedAt sourcePeer =
      summarizeInfoDict ident infoHash info' fetchedAt sourcePeer := by
  cases hinfo : h with
  | int => rfl
  | bytes => rfl
  | list => rfl
  | @dict items items' _ _ =>
    have hname : decodeUtf8Name items = decodeUtf8Name items' := by
      unfold decodeUtf8Name
      rw [decodeText_same (h.rel_item "name.utf-8"), decodeText_same (h.rel_item "name")]
    have hpiece := h.rel_item "piece length"
    have hprivate := h.rel_item "private"
    simp only [summarizeInfoDict]
    rw [hname, readFileEntries_same h]
    revert hpiece hprivate
    generalize infoItem items "piece length" = piece
    generalize infoItem items' "piece length" = piece'
    generalize infoItem items "private" = flag
    generalize infoItem items' "private" = flag'
    intro hpiece hprivate
    cases hprivate with
    | none =>
      cases hpiece with
      | none => rfl
      | some hsame => cases hsame <;> rfl
    | some hflag =>
      cases hpiece with
      | none => rfl
      | some hsame => cases hsame <;> cases hflag <;> rfl

end BencodeValue

/-! ## What a publisher describes -/

/-- Key and value of an item. -/
def namedItem (key : String) (value : BencodeValue) : Bytes × BencodeValue := (ascii key.toList, value)

/-- A text under `key`.  A publisher with another encoding puts its own bytes there, and the text in
UTF-8 under a second key. -/
def textItems (key utf8Key : String) (utf8 : BencodeValue) :
    Option BencodeValue → List (Bytes × BencodeValue)
  | none => [namedItem key utf8]
  | some encoded => [namedItem utf8Key utf8, namedItem key encoded]

/-- The keys of a file that a summary reads. -/
def fileKeys : List Bytes := ["path.utf-8", "path", "length"].map fun key ↦ ascii key.toList

/-- The keys of the info dictionary that a summary reads. -/
def torrentKeys : List Bytes :=
  ["name.utf-8", "name", "piece length", "files", "length", "private"].map fun key ↦ ascii key.toList

/-- The rest of a dictionary: whatever a publisher adds under other keys. -/
structure OtherItems (keys : List Bytes) where
  items : List (Bytes × BencodeValue)
  wellFormed : (BencodeValue.dict items).WellFormed
  free : ∀ item ∈ items, item.1 ∉ keys

/-- A file of a torrent with several files. -/
structure PublishedFile where
  path : List Text
  encodedPath : Option (List Bytes) := none
  length : ℕ
  others : OtherItems fileKeys
  path_ne : path ≠ []

/-- What is shared: one file with the name of the torrent, or files below a directory. -/
inductive Content where
  | file (length : ℕ)
  | files (first : PublishedFile) (rest : List PublishedFile)

structure Torrent where
  name : Text
  encodedName : Option Bytes := none
  pieceLength : ℕ
  content : Content
  privateFlag : Option ℤ := none
  /-- The pieces among them. -/
  others : OtherItems torrentKeys
  name_ne : name ≠ []
  pieceLength_pos : 0 < pieceLength

def pathValue (path : List Bytes) : BencodeValue := .list (path.map .bytes)

def PublishedFile.ownItems (file : PublishedFile) : List (Bytes × BencodeValue) :=
  textItems "path" "path.utf-8" (pathValue (file.path.map encodeUtf8))
    (file.encodedPath.map pathValue) ++
    [namedItem "length" (.int file.length)]

def PublishedFile.items (file : PublishedFile) : List (Bytes × BencodeValue) :=
  file.ownItems ++ file.others.items

def PublishedFile.value (file : PublishedFile) : BencodeValue := .dict file.items

def Content.item : Content → Bytes × BencodeValue
  | .file length => namedItem "length" (.int length)
  | .files first rest => namedItem "files" (.list ((first :: rest).map PublishedFile.value))

namespace Torrent

def ownItems (torrent : Torrent) : List (Bytes × BencodeValue) :=
  textItems "name" "name.utf-8" (.bytes (encodeUtf8 torrent.name)) (torrent.encodedName.map .bytes) ++
    namedItem "piece length" (.int torrent.pieceLength) :: torrent.content.item ::
      (torrent.privateFlag.map fun flag ↦ namedItem "private" (.int flag)).toList

def items (torrent : Torrent) : List (Bytes × BencodeValue) := torrent.ownItems ++ torrent.others.items

def infoDict (torrent : Torrent) : BencodeValue := .dict torrent.items

/-- The bytes that go around. -/
def published (torrent : Torrent) : Bytes := encodeBencode torrent.infoDict

/-- The files with their paths. -/
def entries (torrent : Torrent) : List (Text × ℕ) :=
  match torrent.content with
  | .file length => [(torrent.name, length)]
  | .files first rest => (first :: rest).map fun file ↦ (joinPath file.path, file.length)

/-- The record says what the publisher described: all files are counted, the first ones are listed. -/
structure ShownBy (torrent : Torrent) (metadata : TorrentMetadata) : Prop where
  name : metadata.name = torrent.name
  totalSize : metadata.totalSize = (torrent.entries.map Prod.snd).sum
  pieceLength : metadata.pieceLength = torrent.pieceLength
  fileCount : metadata.fileCount = torrent.entries.length
  files : metadata.files = torrent.entries.take maxListedFiles
  isPrivate : metadata.isPrivate = true ↔ torrent.privateFlag = some 1

end Torrent

/-! ## The summary of a published torrent -/

theorem infoItem_cons_self (key : String) (value : BencodeValue) (rest : List (Bytes × BencodeValue)) :
    infoItem (namedItem key value :: rest) key = some value := by
  unfold infoItem namedItem
  rw [BencodeValue.lookup_cons_eq, if_pos rfl]

theorem infoItem_cons_ne {key key' : String} (h : ascii key'.toList ≠ ascii key.toList)
    (value : BencodeValue) (rest : List (Bytes × BencodeValue)) :
    infoItem (namedItem key value :: rest) key' = infoItem rest key' := by
  unfold infoItem namedItem
  rw [BencodeValue.lookup_cons_eq, if_neg h]

theorem infoItem_others {keys : List Bytes} (others : OtherItems keys) {key : String}
    (hkey : ascii key.toList ∈ keys) : infoItem others.items key = none := by
  refine List.lookup_eq_none_iff.mpr fun item hitem ↦ ?_
  rw [bne_iff_ne]
  intro heq
  exact others.free item hitem (heq ▸ hkey)

/-- The items that are read come before the others and have other keys. -/
theorem wellFormed_append {keys : List Bytes} {own : List (Bytes × BencodeValue)}
    (hown : (own.map Prod.fst).Nodup) (hkeys : own.map Prod.fst ⊆ keys)
    (hvalues : ∀ item ∈ own, item.2.WellFormed) (others : OtherItems keys) :
    (BencodeValue.dict (own ++ others.items)).WellFormed := by
  obtain ⟨items, hwellFormed, hfree⟩ := others
  cases hwellFormed with
  | dict hnodup hothers =>
    refine .dict ?_ fun item hitem ↦ ?_
    · rw [List.map_append]
      refine List.nodup_append'.mpr ⟨hown, hnodup, fun key hkey hother ↦ ?_⟩
      obtain ⟨item, hitem, rfl⟩ := List.mem_map.mp hother
      exact hfree item hitem (hkeys hkey)
    · rcases List.mem_append.mp hitem with hitem | hitem
      · exact hvalues item hitem
      · exact hothers item hitem

theorem wellFormed_pathValue (path : List Bytes) : (pathValue path).WellFormed := by
  refine .list fun item hitem ↦ ?_
  obtain ⟨part, -, rfl⟩ := List.mem_map.mp hitem
  exact .bytes part

theorem wellFormed_textItems {key utf8Key : String} {utf8 : BencodeValue}
    {encoded : Option BencodeValue}
    (hutf8 : utf8.WellFormed) (hencoded : ∀ value, encoded = some value → value.WellFormed) :
    ∀ item ∈ textItems key utf8Key utf8 encoded, item.2.WellFormed := by
  intro item hitem
  cases encoded with
  | none =>
    rw [textItems, List.mem_singleton] at hitem
    exact hitem ▸ hutf8
  | some value =>
    rw [textItems, List.mem_cons, List.mem_singleton] at hitem
    rcases hitem with rfl | rfl
    · exact hutf8
    · exact hencoded value rfl

theorem PublishedFile.wellFormed (file : PublishedFile) : file.value.WellFormed := by
  refine wellFormed_append ?_ ?_ (fun item hitem ↦ ?_) file.others
  · unfold ownItems
    cases file.encodedPath <;> exact of_decide_eq_true rfl
  · unfold ownItems
    cases file.encodedPath <;> exact of_decide_eq_true rfl
  · rcases List.mem_append.mp hitem with hpath | hlength
    · refine wellFormed_textItems (wellFormed_pathValue _) (fun value hvalue ↦ ?_) item hpath
      obtain ⟨path, -, rfl⟩ := Option.map_eq_some_iff.mp hvalue
      exact wellFormed_pathValue path
    · rw [List.mem_singleton.mp hlength]
      exact .int _

theorem Content.wellFormed_item (content : Content) : content.item.2.WellFormed := by
  cases content with
  | file length => exact .int _
  | files first rest =>
    refine .list fun value hvalue ↦ ?_
    obtain ⟨file, -, rfl⟩ := List.mem_map.mp hvalue
    exact file.wellFormed

theorem Torrent.wellFormed (torrent : Torrent) : torrent.infoDict.WellFormed := by
  refine wellFormed_append ?_ ?_ (fun item hitem ↦ ?_) torrent.others
  · unfold ownItems
    cases torrent.encodedName <;> cases torrent.content <;> cases torrent.privateFlag <;>
      exact of_decide_eq_true rfl
  · unfold ownItems
    cases torrent.encodedName <;> cases torrent.content <;> cases torrent.privateFlag <;>
      exact of_decide_eq_true rfl
  · rcases List.mem_append.mp hitem with hname | hrest
    · refine wellFormed_textItems (.bytes _) (fun value hvalue ↦ ?_) item hname
      obtain ⟨bytes, -, rfl⟩ := Option.map_eq_some_iff.mp hvalue
      exact .bytes bytes
    · rcases List.mem_cons.mp hrest with rfl | hrest
      · exact .int _
      · rcases List.mem_cons.mp hrest with rfl | hflag
        · exact torrent.content.wellFormed_item
        · obtain ⟨flag, -, rfl⟩ := Option.map_eq_some_iff.mp (Option.mem_toList.mp hflag)
          exact .int flag

theorem readLength_natCast (length : ℕ) : readLength (some (.int length)) = .ok length := by
  unfold readLength
  dsimp only
  rw [if_neg (not_lt.mpr (Int.natCast_nonneg length)), Int.toNat_natCast]

theorem pathValue_reads (path : List Text) :
    ((path.map encodeUtf8).map BencodeValue.bytes).map (fun part ↦ decodeText (some part)) = path := by
  rw [List.map_map, List.map_map]
  calc path.map _ = path.map id := List.map_congr_left fun text _ ↦ decodeUtf8_encodeUtf8 text
    _ = path := List.map_id path

theorem infoItem_textItems_ne {key utf8Key key' : String} (hkey : ascii key'.toList ≠ ascii key.toList)
    (hutf8 : ascii key'.toList ≠ ascii utf8Key.toList) (utf8 : BencodeValue)
    (encoded : Option BencodeValue) (rest : List (Bytes × BencodeValue)) :
    infoItem (textItems key utf8Key utf8 encoded ++ rest) key' = infoItem rest key' := by
  cases encoded with
  | none => exact infoItem_cons_ne hkey utf8 rest
  | some value => exact (infoItem_cons_ne hutf8 utf8 _).trans (infoItem_cons_ne hkey value rest)

/-- What is found under the two keys of a text: the UTF-8 text under one of them, and where it is not
the first of the two, nothing is under the first. -/
theorem infoItem_textItems (key utf8Key : String) (hne : ascii utf8Key.toList ≠ ascii key.toList)
    (utf8 : BencodeValue) (encoded : Option BencodeValue) {rest : List (Bytes × BencodeValue)}
    (hrest : infoItem rest utf8Key = none) :
    infoItem (textItems key utf8Key utf8 encoded ++ rest) utf8Key = some utf8 ∨
      infoItem (textItems key utf8Key utf8 encoded ++ rest) utf8Key = none ∧
        infoItem (textItems key utf8Key utf8 encoded ++ rest) key = some utf8 := by
  cases encoded with
  | none => exact .inr ⟨(infoItem_cons_ne hne utf8 rest).trans hrest, infoItem_cons_self key utf8 rest⟩
  | some value => exact .inl (infoItem_cons_self utf8Key utf8 _)

namespace PublishedFile

variable (file : PublishedFile)

theorem items_eq : file.items =
    textItems "path" "path.utf-8" (pathValue (file.path.map encodeUtf8))
      (file.encodedPath.map pathValue) ++
      namedItem "length" (.int file.length) :: file.others.items := by
  rw [items, ownItems, List.append_assoc]
  rfl

theorem infoItem_length : infoItem file.items "length" = some (.int file.length) := by
  rw [items_eq, infoItem_textItems_ne (of_decide_eq_true rfl) (of_decide_eq_true rfl),
    infoItem_cons_self]

/-- The path in UTF-8, also beside one in another encoding. -/
theorem path_read : (if BencodeValue.truthy (infoItem file.items "path.utf-8") then
    infoItem file.items "path.utf-8" else infoItem file.items "path") =
      some (pathValue (file.path.map encodeUtf8)) := by
  have hrest :
      infoItem (namedItem "length" (.int file.length) :: file.others.items) "path.utf-8" = none := by
    rw [infoItem_cons_ne (of_decide_eq_true rfl), infoItem_others _ (of_decide_eq_true rfl)]
  have htruthy : BencodeValue.truthy (some (pathValue (file.path.map encodeUtf8))) = true := by
    simp [pathValue, BencodeValue.truthy, file.path_ne]
  rw [items_eq]
  rcases infoItem_textItems "path" "path.utf-8" (of_decide_eq_true rfl)
    (pathValue (file.path.map encodeUtf8)) (file.encodedPath.map pathValue) hrest with
      hutf8 | ⟨hnone, hpath⟩
  · rw [hutf8, htruthy]
    rfl
  · rw [hnone, hpath]
    rfl

/-- A file is read as its publisher described it. -/
theorem readFileEntry_value : readFileEntry file.value = .ok (joinPath file.path, file.length) := by
  simp only [value, readFileEntry, file.path_read, file.infoItem_length, readLength_natCast, pathValue,
    pathValue_reads]
  rfl

theorem mapM_readFileEntry (files : List PublishedFile) :
    (files.map PublishedFile.value).mapM readFileEntry =
      .ok (files.map fun file ↦ (joinPath file.path, file.length)) := by
  induction files with
  | nil => rfl
  | cons file rest ih =>
    rw [List.map_cons, List.mapM_cons, file.readFileEntry_value, ih]
    rfl

end PublishedFile

namespace Torrent

variable (torrent : Torrent)

/-- The items after the kind of content. -/
def lastItems : List (Bytes × BencodeValue) :=
  (torrent.privateFlag.map fun flag ↦ namedItem "private" (.int flag)).toList ++ torrent.others.items

/-- The items after the name. -/
def restItems : List (Bytes × BencodeValue) :=
  namedItem "piece length" (.int torrent.pieceLength) :: torrent.content.item :: torrent.lastItems

theorem items_eq : torrent.items =
    textItems "name" "name.utf-8" (.bytes (encodeUtf8 torrent.name)) (torrent.encodedName.map .bytes) ++
      torrent.restItems := by
  rw [items, ownItems, List.append_assoc]
  rfl

section Keys

variable {key : String}

theorem infoItem_lastItems_ne (hprivate : ascii key.toList ≠ ascii "private".toList)
    (hread : ascii key.toList ∈ torrentKeys) : infoItem torrent.lastItems key = none := by
  unfold lastItems
  cases torrent.privateFlag with
  | none => exact infoItem_others torrent.others hread
  | some flag => exact (infoItem_cons_ne hprivate _ _).trans (infoItem_others torrent.others hread)

theorem infoItem_restItems_ne (hpiece : ascii key.toList ≠ ascii "piece length".toList)
    (hlength : ascii key.toList ≠ ascii "length".toList)
    (hfiles : ascii key.toList ≠ ascii "files".toList) :
    infoItem torrent.restItems key = infoItem torrent.lastItems key := by
  rw [restItems, infoItem_cons_ne hpiece]
  cases torrent.content with
  | file length => exact infoItem_cons_ne hlength _ _
  | files first rest => exact infoItem_cons_ne hfiles _ _

end Keys

/-- The name in UTF-8, also beside one in another encoding. -/
theorem decodeUtf8Name_items : decodeUtf8Name torrent.items = torrent.name := by
  have hrest : infoItem torrent.restItems "name.utf-8" = none := by
    rw [torrent.infoItem_restItems_ne (of_decide_eq_true rfl) (of_decide_eq_true rfl)
      (of_decide_eq_true rfl)]
    exact torrent.infoItem_lastItems_ne (of_decide_eq_true rfl) (of_decide_eq_true rfl)
  have htext : decodeText (some (.bytes (encodeUtf8 torrent.name))) = torrent.name :=
    decodeUtf8_encodeUtf8 torrent.name
  rw [decodeUtf8Name, items_eq]
  rcases infoItem_textItems "name" "name.utf-8" (of_decide_eq_true rfl)
    (.bytes (encodeUtf8 torrent.name)) (torrent.encodedName.map .bytes) hrest with
      hutf8 | ⟨hnone, hname⟩
  · rw [hutf8, htext]
    exact if_pos torrent.name_ne
  · rw [hnone, hname, htext]
    rfl

theorem infoItem_pieceLength : infoItem torrent.items "piece length" =
    some (.int torrent.pieceLength) := by
  rw [items_eq, infoItem_textItems_ne (of_decide_eq_true rfl) (of_decide_eq_true rfl), restItems,
    infoItem_cons_self]

theorem infoItem_private : infoItem torrent.items "private" = torrent.privateFlag.map .int := by
  rw [items_eq, infoItem_textItems_ne (of_decide_eq_true rfl) (of_decide_eq_true rfl),
    infoItem_restItems_ne _ (of_decide_eq_true rfl) (of_decide_eq_true rfl) (of_decide_eq_true rfl),
    lastItems]
  cases torrent.privateFlag with
  | none => exact infoItem_others torrent.others (of_decide_eq_true rfl)
  | some flag => exact infoItem_cons_self _ _ _

/-- The files are read as the publisher described them. -/
theorem readFileEntries_items : readFileEntries torrent.items torrent.name = .ok torrent.entries := by
  have hskip {key : String} (hname : ascii key.toList ≠ ascii "name".toList)
      (hutf8 : ascii key.toList ≠ ascii "name.utf-8".toList)
      (hpiece : ascii key.toList ≠ ascii "piece length".toList) :
      infoItem torrent.items key = infoItem (torrent.content.item :: torrent.lastItems) key := by
    rw [items_eq, infoItem_textItems_ne hname hutf8, restItems, infoItem_cons_ne hpiece]
  rw [readFileEntries, hskip (of_decide_eq_true rfl) (of_decide_eq_true rfl) (of_decide_eq_true rfl),
    hskip (of_decide_eq_true rfl) (of_decide_eq_true rfl) (of_decide_eq_true rfl), entries]
  cases torrent.content with
  | file length =>
    rw [Content.item, infoItem_cons_ne (of_decide_eq_true rfl),
      torrent.infoItem_lastItems_ne (of_decide_eq_true rfl) (of_decide_eq_true rfl), infoItem_cons_self,
      readLength_natCast]
    rfl
  | files first rest =>
    rw [Content.item, infoItem_cons_self]
    exact PublishedFile.mapM_readFileEntry (first :: rest)

theorem entries_pos : 1 ≤ torrent.entries.length := by
  unfold entries
  split
  · exact le_rfl
  · rw [List.length_map, List.length_cons]
    exact Nat.le_add_left 1 _

/-- The dictionary of a torrent is summarized, and the summary shows the torrent. -/
theorem summarize_infoDict (ident : ℕ) {infoHash : Bytes} (hlength : infoHash.length = nodeIdLength)
    {fetchedAt : ℚ} (hnow : 0 ≤ fetchedAt) (sourcePeer : Option Address) :
    ∃ metadata, summarizeInfoDict ident infoHash torrent.infoDict fetchedAt sourcePeer = .ok metadata ∧
      torrent.ShownBy metadata := by
  have hpiece : ¬(torrent.name = [] ∨ (torrent.pieceLength : ℤ) ≤ 0) := by
    rintro (hname | hle)
    · exact torrent.name_ne hname
    · have hpos := torrent.pieceLength_pos
      omega
  unfold summarizeInfoDict
  rw [assert_true ⟨hlength, hnow⟩, ok_bind]
  simp only [infoDict, decodeUtf8Name_items, infoItem_pieceLength, infoItem_private,
    readFileEntries_items, if_neg hpiece, ok_bind, Int.toNat_natCast]
  rw [torrentMetadata, dif_pos ⟨hlength, torrent.pieceLength_pos, torrent.entries_pos⟩]
  refine ⟨_, rfl, rfl, rfl, rfl, rfl, rfl, ?_⟩
  cases torrent.privateFlag with
  | none => simp
  | some flag => simp

/-- Decoding the published bytes gives the dictionary back, with its keys in another order. -/
theorem summarize_decoded {info : BencodeValue} (hinfo : decodeBencode torrent.published = .ok info)
    (ident : ℕ) (infoHash : Bytes) (fetchedAt : ℚ) (sourcePeer : Option Address) :
    summarizeInfoDict ident infoHash info fetchedAt sourcePeer =
      summarizeInfoDict ident infoHash torrent.infoDict fetchedAt sourcePeer := by
  obtain ⟨read, hread, hsame⟩ := decodeBencode_encode torrent.wellFormed
  obtain rfl : read = info := Except.ok.inj (hread.symm.trans hinfo)
  exact (BencodeValue.summarizeInfoDict_same hsame ident infoHash fetchedAt sourcePeer).symm

variable {digest : Bytes → Bytes}

/-- Metadata that was made from bytes with the hash of the torrent shows the torrent, unless these are
other bytes. -/
theorem shownBy_of_authentic {metadata : TorrentMetadata}
    (h : Authentic digest (digest torrent.published) metadata) :
    torrent.ShownBy metadata ∨ ∃ raw ≠ torrent.published, digest raw = digest torrent.published := by
  obtain ⟨raw, info, hdigest, hinfo, hsummary⟩ := h
  by_cases hraw : raw = torrent.published
  · subst hraw
    obtain ⟨_, hassert, -⟩ := bind_eq_ok.mp hsummary
    obtain ⟨hlength, hnow⟩ := assert_eq_ok.mp hassert
    obtain ⟨shown, hshown, hshows⟩ :=
      torrent.summarize_infoDict metadata.ident hlength hnow metadata.sourcePeer
    rw [torrent.summarize_decoded hinfo, hshown] at hsummary
    exact .inl (Except.ok.inj hsummary ▸ hshows)
  · exact .inr ⟨raw, hraw, hdigest⟩

/-- A peer that sends the published bytes is believed. -/
theorem readMetadata_published (ident : ℕ) (hlength : (digest torrent.published).length = nodeIdLength)
    (peer : Address) {now : ℚ} (hnow : 0 ≤ now) : ∃ metadata,
      EngineState.readMetadata digest ident (digest torrent.published) peer now torrent.published
        false = .ok metadata ∧ torrent.ShownBy metadata := by
  obtain ⟨info, hinfo, -⟩ := decodeBencode_encode torrent.wellFormed
  obtain ⟨metadata, hmetadata, hshows⟩ :=
    torrent.summarize_infoDict ident hlength hnow (some peer)
  refine ⟨metadata, ?_, hshows⟩
  have hread : decodeBencode torrent.published >>= (fun info ↦
      summarizeInfoDict ident (digest torrent.published) info now (some peer)) = .ok metadata := by
    rw [show decodeBencode torrent.published = .ok info from hinfo, ok_bind,
      torrent.summarize_decoded hinfo, hmetadata]
  rw [EngineState.readMetadata, if_neg (not_not_intro rfl), if_neg Bool.false_ne_true, hread]

end Torrent

/-! ## The engine -/

/-- The attempt is in a fetch function. -/
def AttemptStage.fetching : AttemptStage → Bool
  | .tcp | .encrypted | .utp _ => true
  | .created | .queued | .ended _ => false

namespace EngineState

variable {digest : Bytes → Bytes} {config : EngineConfig} {limits : CatalogLimits} {s : EngineState}

/-- Bytes that are summarized end the attempt, over whichever route they came. -/
theorem fetchEnds_of_metadata (key : TaskKey) {attempt : Attempt} {metadata : TorrentMetadata}
    {raw : Bytes} {exhausted : Bool} (loopTime : ℚ) {now : ℚ} (hstage : attempt.stage.fetching = true)
    (h : readMetadata digest s.summaries attempt.infoHash attempt.peer now raw exhausted =
      .ok metadata) :
    ∃ s', fetchEnds digest config s key attempt (.raw raw exhausted) loopTime now = some s' ∧
      s'.tasks.get? key = some { attempt with stage := .ended (some metadata, "ok") } := by
  have hended (s' : EngineState) : (s'.setTask key { attempt with
      stage := .ended (some metadata, "ok") }).tasks.get? key =
        some { attempt with stage := .ended (some metadata, "ok") } :=
    (OrderedMap.get?_insert _ _ _ _).trans (if_pos rfl)
  have htcp (route : Route) : (endTcp digest config s key attempt route (.raw raw exhausted) loopTime
      now).tasks.get? key = some { attempt with stage := .ended (some metadata, "ok") } := by
    simp only [endTcp, verified, fetched, h, reduceCtorEq, false_and, if_false]
    exact hended _
  unfold fetchEnds
  cases hat : attempt.stage with
  | tcp => exact ⟨_, rfl, htcp .tcp⟩
  | encrypted => exact ⟨_, rfl, htcp .encrypted⟩
  | utp result =>
    refine ⟨_, rfl, ?_⟩
    simp only [endUtp, verified, fetched, h, ne_eq, reduceCtorEq, not_false_eq_true, true_or, if_true]
    exact hended _
  | created | queued | ended =>
    rw [hat] at hstage
    cases hstage

/-- Torrents are shown as they were published.  Whatever the peers send and in whatever order the tasks
run: metadata that the engine stores for the hash of a published torrent says what the publisher
described, unless other bytes with the same hash exist; and an attempt that is brought the published
bytes ends with such metadata, when they are within the interpreter's limits: a value of another key
may be nested too deeply or have too many digits, and then the attempt ends with `bad_info_dict`. -/
theorem torrents_shown {ops : List CatalogOp} {session : Session} {steps : List EngineStep}
    (hsession : catalogMachine.Leads Permitted (.new limits) ops session)
    (hidle : session.fetchClaims = ∅)
    (hrun : (engineMachine digest config).run (new config session) steps = some s) (torrent : Torrent) :
    (∀ metadata now, .storeMetadata metadata now ∈ s.calls →
      metadata.infoHash = digest torrent.published →
        torrent.ShownBy metadata ∨ ∃ raw ≠ torrent.published, digest raw = digest torrent.published) ∧
      ∀ key attempt, s.tasks.get? key = some attempt → attempt.cancelled = false →
        attempt.stage.fetching = true → attempt.infoHash = digest torrent.published →
          ∀ loopTime now, ∃ s' metadata,
            (engineMachine digest config).step s
              (.fetchEnds key (.raw torrent.published false) loopTime now) = some s' ∧
            s'.tasks.get? key = some { attempt with stage := .ended (some metadata, "ok") } ∧
              torrent.ShownBy metadata := by
  have h := run_custody hsession hidle hrun
  refine ⟨fun metadata now hmem hhash ↦ ?_, fun key attempt hget hlive hstage hhash loopTime now ↦ ?_⟩
  · exact torrent.shownBy_of_authentic (hhash ▸ (h.stored metadata now hmem).authentic)
  · obtain ⟨job, hjob, howner⟩ := h.owner key attempt hget hlive
    have hlength : (digest torrent.published).length = nodeIdLength := by
      rw [← hhash, howner]
      exact (h.live key.1 _ hjob).1
    obtain ⟨metadata, hread, hshows⟩ :=
      torrent.readMetadata_published s.summaries hlength attempt.peer now.coe_nonneg
    rw [← hhash] at hread
    obtain ⟨s', hends, hended⟩ := fetchEnds_of_metadata key loopTime hstage hread
    refine ⟨s', metadata, ?_, hended, hshows⟩
    simp only [engineMachine, EngineState.step, onAttempt, hget, hlive]
    exact hends

end EngineState

/-! ## A torrent -/

/-- One file of one byte. -/
def sampleTorrent : Torrent where
  name := ['a']
  pieceLength := 1
  content := .file 1
  others := ⟨[], .dict List.nodup_nil (by simp), by simp⟩
  name_ne := List.cons_ne_nil _ _
  pieceLength_pos := one_pos

/-- A hash that only the published bytes have. -/
def sampleDigest (raw : Bytes) : Bytes := if raw = sampleInfo then sampleHash 1 else []

def storesFor (infoHash : Bytes) : CatalogOp → Bool
  | .storeMetadata metadata _ => metadata.infoHash = infoHash
  | _ => false

theorem published_sampleTorrent : sampleTorrent.published = sampleInfo := by decide +kernel

namespace EngineState

theorem torrents_shown_sample :
    ∃ s metadata now,
      (engineMachine sampleDigest {}).run (new {} announcedSession) sampleSteps = some s ∧
      .storeMetadata metadata now ∈ s.calls ∧ sampleTorrent.ShownBy metadata := by
  have heval : ((engineMachine sampleDigest {}).run (new {} announcedSession) sampleSteps).any fun s ↦
      s.calls.any (storesFor (sampleHash 1)) := by
    decide +kernel
  rw [Option.any_eq_true] at heval
  obtain ⟨s, hrun, hcalls⟩ := heval
  obtain ⟨op, hmem, hop⟩ := List.any_eq_true.mp hcalls
  cases op with
  | storeMetadata metadata now =>
    have hdigest : sampleDigest sampleTorrent.published = sampleHash 1 := by
      rw [published_sampleTorrent]
      exact if_pos rfl
    have hhash : metadata.infoHash = sampleHash 1 := of_decide_eq_true hop
    obtain ⟨hshown, -⟩ := torrents_shown announced_leads rfl hrun sampleTorrent
    rcases hshown metadata now hmem (hhash.trans hdigest.symm) with hshows | ⟨raw, hraw, hcollision⟩
    · exact ⟨s, metadata, now, hrun, hmem, hshows⟩
    · rw [hdigest, sampleDigest, if_neg (published_sampleTorrent ▸ hraw)] at hcollision
      cases hcollision
  | _ => cases hop

end EngineState

end DhtScraper
