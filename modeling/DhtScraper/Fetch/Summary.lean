import DhtScraper.Catalog.Entry
import DhtScraper.Codec.Bencode
import DhtScraper.Library.Loop
import DhtScraper.Library.Utf8

/-!
# The summary of an info dictionary

`summarize_info_dict` turns the decoded info dictionary of a torrent into a `TorrentMetadata`.  Texts
are decoded from UTF-8.
-/

namespace DhtScraper

open Library

/-! ## The dictionary -/

/-- `info.get(key)`. -/
def infoItem (info : List (Bytes × BencodeValue)) (key : String) : Option BencodeValue :=
  info.lookup (ascii key.toList)

def badInfoDict : Failure := .valueError "bad_info_dict"

/-- `decode_text` of what a dictionary may hold. -/
def decodeText : Option BencodeValue → Text
  | some (.bytes value) => decodeUtf8 value
  | _ => []

def decodeUtf8Name (info : List (Bytes × BencodeValue)) : Text :=
  let name := decodeText (infoItem info "name.utf-8")
  if name ≠ [] then name else decodeText (infoItem info "name")

/-- `bool(value)`. -/
def BencodeValue.truthy : Option BencodeValue → Bool
  | none => false
  | some (.int value) => value ≠ 0
  | some (.bytes value) => !value.isEmpty
  | some (.list items) => !items.isEmpty
  | some (.dict items) => !items.isEmpty

/-- A length: a plain integer that is not negative. -/
def readLength : Option BencodeValue → Except Failure ℕ
  | some (.int value) => if value < 0 then .error badInfoDict else .ok value.toNat
  | _ => .error badInfoDict

/-- `"/".join(...)`. -/
def joinPath (parts : List Text) : Text := ['/'].intercalate parts

/-- One item of `files`. -/
def readFileEntry : BencodeValue → Except Failure (Text × ℕ)
  | .dict item => do
    let preferred := infoItem item "path.utf-8"
    let pathParts := if BencodeValue.truthy preferred then preferred else infoItem item "path"
    let length ← readLength (infoItem item "length")
    match pathParts with
    | some (.list parts) => return (joinPath (parts.map fun part ↦ decodeText (some part)), length)
    | _ => .error badInfoDict
  | _ => .error badInfoDict

def readFileEntries (info : List (Bytes × BencodeValue)) (name : Text) :
    Except Failure (List (Text × ℕ)) :=
  match infoItem info "files" with
  | none => do
    let length ← readLength (infoItem info "length")
    return [(name, length)]
  | some (.list (first :: rest)) => (first :: rest).mapM readFileEntry
  | some _ => .error badInfoDict

/-- The record of the entries that were read, with the assertions of the constructor. -/
def torrentMetadata (ident : ℕ) (infoHash : Bytes) (name : Text) (pieceLength : ℕ)
    (entries : List (Text × ℕ)) (isPrivate : Bool) (fetchedAt : ℚ) (sourcePeer : Option Address) :
    Except Failure TorrentMetadata :=
  if h : infoHash.length = nodeIdLength ∧ 0 < pieceLength ∧ 1 ≤ entries.length then
    .ok {
      ident := ident
      infoHash := infoHash
      name := name
      totalSize := (entries.map Prod.snd).sum
      pieceLength := pieceLength
      fileCount := entries.length
      files := entries.take maxListedFiles
      isPrivate := isPrivate
      fetchedAt := fetchedAt
      sourcePeer := sourcePeer
      infoHash_length := h.1
      pieceLength_pos := h.2.1
      fileCount_pos := h.2.2
      files_pos := (le_min (by decide : 1 ≤ maxListedFiles) h.2.2).trans_eq List.length_take.symm
      files_le := (List.length_take.trans (min_comm _ _)).le }
  else .error .assertionError

/-- `summarize_info_dict`; the object that it makes is `ident`. -/
def summarizeInfoDict (ident : ℕ) (infoHash : Bytes) (info : BencodeValue) (fetchedAt : ℚ)
    (sourcePeer : Option Address) : Except Failure TorrentMetadata := do
  assert (infoHash.length = nodeIdLength ∧ 0 ≤ fetchedAt)
  match info with
  | .dict info =>
    let name := decodeUtf8Name info
    match infoItem info "piece length" with
    | some (.int pieceLength) =>
      if name = [] ∨ pieceLength ≤ 0 then .error badInfoDict
      else do
        let entries ← readFileEntries info name
        let isPrivate := match infoItem info "private" with
          | some (.int value) => value = 1
          | _ => false
        torrentMetadata ident infoHash name pieceLength.toNat entries isPrivate fetchedAt sourcePeer
    | _ => .error badInfoDict
  | _ => .error badInfoDict

/-! ## What a summary is made of -/

theorem readLength_ends (value : Option BencodeValue) :
    Ends (readLength value) (fun length ↦ value = some (.int length)) (· = badInfoDict) := by
  unfold readLength
  split
  next value =>
    split
    next => rfl
    next hpos =>
      rw [ends_ok, Int.toNat_of_nonneg (not_lt.mp hpos)]
  next => rfl

theorem readFileEntry_ends (item : BencodeValue) :
    Ends (readFileEntry item) (fun _ ↦ True) (· = badInfoDict) := by
  unfold readFileEntry
  split
  next item =>
    refine (readLength_ends (infoItem item "length")).bind fun length _ ↦ ?_
    split
    · trivial
    · rfl
  next => rfl

/-- Reading every item of a list, where each reading ends in one of two ways. -/
theorem ends_mapM {α β : Type} {ε : Type*} {f : α → Except ε β} {E : ε → Prop}
    (hf : ∀ a, Ends (f a) (fun _ ↦ True) E) (items : List α) :
    Ends (items.mapM f) (fun results ↦ results.length = items.length) E := by
  induction items with
  | nil => rfl
  | cons first rest ih =>
    rw [List.mapM_cons]
    refine (hf first).bind fun result _ ↦ ih.bind fun results hlength ↦ ?_
    exact congrArg (· + 1) hlength

theorem readFileEntries_ends (info : List (Bytes × BencodeValue)) (name : Text) :
    Ends (readFileEntries info name) (fun entries ↦ 1 ≤ entries.length) (· = badInfoDict) := by
  unfold readFileEntries
  split
  next => exact (readLength_ends (infoItem info "length")).bind fun length _ ↦ le_rfl
  next first rest _ =>
    refine (ends_mapM readFileEntry_ends (first :: rest)).mono (fun entries hlength ↦ ?_) fun _ h ↦ h
    rw [hlength, List.length_cons]
    exact Nat.le_add_left 1 _
  next => rfl

/-- A summary of the entries: all of them are counted, the first ones are listed. -/
structure Summarizes (ident : ℕ) (infoHash : Bytes) (fetchedAt : ℚ) (sourcePeer : Option Address)
    (metadata : TorrentMetadata) : Prop where
  ident : metadata.ident = ident
  infoHash : metadata.infoHash = infoHash
  fetchedAt : metadata.fetchedAt = fetchedAt
  sourcePeer : metadata.sourcePeer = sourcePeer
  entries : ∃ entries : List (Text × ℕ), metadata.files = entries.take maxListedFiles ∧
    metadata.fileCount = entries.length ∧ metadata.totalSize = (entries.map Prod.snd).sum

/-- Whatever the peer sent, a summary is made or the dictionary is refused: no assertion fails. -/
theorem summarizeInfoDict_ends (ident : ℕ) {infoHash : Bytes} (hlength : infoHash.length = nodeIdLength)
    (info : BencodeValue) {fetchedAt : ℚ} (hnow : 0 ≤ fetchedAt) (sourcePeer : Option Address) :
    Ends (summarizeInfoDict ident infoHash info fetchedAt sourcePeer)
      (Summarizes ident infoHash fetchedAt sourcePeer) (· = badInfoDict) := by
  unfold summarizeInfoDict
  rw [assert_true ⟨hlength, hnow⟩, ok_bind]
  split
  next info =>
    dsimp only
    split
    next pieceLength _ =>
      split
      next => rfl
      next hvalid =>
        refine (readFileEntries_ends info _).bind fun entries hentries ↦ ?_
        have hpiece : 0 < pieceLength.toNat := by
          have hpos : ¬pieceLength ≤ 0 := fun hle ↦ hvalid (Or.inr hle)
          omega
        unfold torrentMetadata
        rw [dif_pos ⟨hlength, hpiece, hentries⟩]
        exact ⟨rfl, rfl, rfl, rfl, entries, rfl, rfl, rfl⟩
    next => rfl
  next => rfl

theorem summarizes_of_ok {ident : ℕ} {infoHash : Bytes} {info : BencodeValue} {fetchedAt : ℚ}
    {sourcePeer : Option Address} {metadata : TorrentMetadata}
    (h : summarizeInfoDict ident infoHash info fetchedAt sourcePeer = .ok metadata) :
    Summarizes ident infoHash fetchedAt sourcePeer metadata := by
  obtain ⟨_, hassert, -⟩ := bind_eq_ok.mp h
  obtain ⟨hlength, hnow⟩ := assert_eq_ok.mp hassert
  exact (summarizeInfoDict_ends ident hlength info hnow sourcePeer).of_ok h

end DhtScraper
