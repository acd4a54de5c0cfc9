import DhtScraper.Codec.Hex
import Mathlib.Data.List.TakeWhile

/-!
# Magnet links

`build_magnet_link` with its assertions, and the info hash in the path of a request.  A program that
reads a link gets the hash, the name and the trackers back, whatever characters the name has.
-/

namespace DhtScraper

open Library

/-! ## Hashes in a path -/

/-- `parse_info_hash_hex`. -/
def parseInfoHashHex (text : Text) : Option Bytes :=
  if text.length = nodeIdLength * 2 ∧ text.all fun c ↦ (digitValue c).isSome then fromHex text
  else none

theorem parseInfoHashHex_hex {infoHash : Bytes} (h : infoHash.length = nodeIdLength) :
    parseInfoHashHex (hex infoHash) = some infoHash := by
  have hdigits : ∀ c ∈ hex infoHash, (digitValue c).isSome := fun c hc ↦ by
    obtain ⟨n, hn, rfl⟩ := exists_digit_of_mem_hex hc
    rw [digitValue_digitChar hn]
    rfl
  rw [parseInfoHashHex, if_pos ⟨by rw [length_hex, h], List.all_eq_true.mpr hdigits⟩, fromHex_hex]

/-- A text is accepted when it is the hash in hexadecimal, in upper or lower case. -/
theorem parseInfoHashHex_eq_some_iff {text : Text} {infoHash : Bytes} :
    parseInfoHashHex text = some infoHash ↔
      infoHash.length = nodeIdLength ∧ text.map Char.toLower = hex infoHash := by
  constructor
  · intro h
    unfold parseInfoHashHex at h
    split at h
    next hvalid =>
      have hlower := toLower_of_fromHex h
      have hlength := congrArg List.length hlower
      rw [List.length_map, length_hex, hvalid.1] at hlength
      exact ⟨by omega, hlower⟩
    next => cases h
  · rintro ⟨hlength, hlower⟩
    have htext : text.length = nodeIdLength * 2 := by
      rw [← List.length_map (f := Char.toLower), hlower, length_hex, hlength]
    have hdigits : ∀ c ∈ text, (digitValue c).isSome := fun c hc ↦ by
      obtain ⟨n, hn, hdigit⟩ := exists_digit_of_mem_hex (hlower ▸ List.mem_map_of_mem hc)
      rw [← digitValue_toLower, hdigit, digitValue_digitChar hn]
      rfl
    rw [parseInfoHashHex, if_pos ⟨htext, List.all_eq_true.mpr hdigits⟩, ← fromHex_toLower, hlower,
      fromHex_hex]

/-! ## Links -/

def magnetPrefix : Text := "magnet:?xt=urn:btih:".toList

def magnetTrackers : List Text := [
  "udp://93.158.213.92:1337/announce".toList,
  "udp://151.242.104.187:80/announce".toList,
  "udp://91.216.110.53:451/announce".toList,
  "udp://185.121.168.96:1337/announce".toList,
  "udp://43.250.54.126:6969/announce".toList,
  "udp://34.66.57.33:80/announce".toList,
  "udp://34.66.57.33:1337/announce".toList,
  "udp://109.201.134.183:80/announce".toList,
  "udp://45.137.199.107:6969/announce".toList,
  "udp://135.125.198.235:1984/announce".toList,
  "udp://211.75.210.221:80/announce".toList,
  "udp://209.141.59.25:6969/announce".toList,
  "udp://211.75.210.221:6969/announce".toList,
  "http://211.75.210.221:6969/announce".toList,
  "udp://83.102.180.21:80/announce".toList,
  "udp://31.56.179.159:6969/announce".toList,
  "udp://65.109.28.17:6969/announce".toList,
  "udp://95.217.80.20:6969/announce".toList,
  "udp://95.217.80.22:6969/announce".toList,
  "udp://65.109.28.33:6969/announce".toList]

/-- `text.count(pattern)`, for a pattern that does not overlap itself. -/
def occurrences (pattern : Text) : Text → ℕ
  | [] => 0
  | c :: rest => (if pattern <+: c :: rest then 1 else 0) + occurrences pattern rest

/-- The text of a link. -/
def magnetText (infoHash : Bytes) (name : Text) : Text :=
  magnetPrefix ++ hex infoHash ++ (if name ≠ [] then "&dn=".toList ++ quote name else []) ++
    magnetTrackers.flatMap fun tracker ↦ "&tr=".toList ++ quote tracker

def buildMagnetLink (infoHash : Bytes) (name : Text) : Except Failure Text := do
  assert (infoHash.length = nodeIdLength)
  let result := magnetText infoHash name
  assert (magnetPrefix <+: result ∧ magnetPrefix.length + nodeIdLength * 2 ≤ result.length)
  assert (occurrences "&tr=".toList result = magnetTrackers.length)
  return result

/-! ## The trackers of a link are counted -/

section Occurrences

variable {head : Char} {pattern : Text}

theorem occurrences_append {text : Text} (h : head ∉ text) (rest : Text) :
    occurrences (head :: pattern) (text ++ rest) = occurrences (head :: pattern) rest := by
  induction text with
  | nil => rfl
  | cons c text ih =>
    have hne : ¬head :: pattern <+: c :: (text ++ rest) := fun hstarts ↦
      h (List.mem_cons.mpr (.inl (List.cons_prefix_cons.mp hstarts).1))
    rw [List.cons_append, occurrences, if_neg hne, zero_add,
      ih fun hmem ↦ h (List.mem_cons_of_mem c hmem)]

theorem occurrences_pattern (h : head ∉ pattern) (rest : Text) :
    occurrences (head :: pattern) (head :: pattern ++ rest) =
      1 + occurrences (head :: pattern) rest := by
  rw [List.cons_append, occurrences, if_pos (List.cons_prefix_cons.mpr ⟨rfl, List.prefix_append _ _⟩),
    occurrences_append h]

theorem occurrences_fields (h : head ∉ pattern) {values : List Text}
    (hvalues : ∀ value ∈ values, head ∉ value) :
    occurrences (head :: pattern) (values.flatMap fun value ↦ head :: pattern ++ value) =
      values.length := by
  induction values with
  | nil => rfl
  | cons value rest ih =>
    rw [List.flatMap_cons, List.append_assoc, occurrences_pattern h,
      occurrences_append (hvalues value List.mem_cons_self),
      ih fun other hother ↦ hvalues other (List.mem_cons_of_mem value hother), List.length_cons,
        add_comm]

end Occurrences

theorem amp_not_mem_quote (text : Text) : '&' ∉ quote text := not_mem_quote (by decide) (by decide) text

theorem trackerField : "&tr=".toList = '&' :: ['t', 'r', '='] := rfl

/-- Whatever the name is, the trackers are found as often as they were added. -/
theorem occurrences_magnetText (infoHash : Bytes) (name : Text) :
    occurrences "&tr=".toList (magnetText infoHash name) = magnetTrackers.length := by
  have htrackers : occurrences ('&' :: ['t', 'r', '=']) (magnetTrackers.flatMap fun tracker ↦
      '&' :: ['t', 'r', '='] ++ quote tracker) = magnetTrackers.length := by
    have h := @occurrences_fields '&' ['t', 'r', '='] (by decide) (magnetTrackers.map quote)
      fun value hvalue ↦ by
        obtain ⟨tracker, -, rfl⟩ := List.mem_map.mp hvalue
        exact amp_not_mem_quote tracker
    rwa [List.flatMap_map, List.length_map] at h
  have hname (rest : Text) : occurrences ('&' :: ['t', 'r', '='])
      ((if name ≠ [] then "&dn=".toList ++ quote name else []) ++ rest) =
        occurrences ('&' :: ['t', 'r', '=']) rest := by
    split
    · have hfield : "&dn=".toList ++ quote name ++ rest =
          '&' :: ("dn=".toList ++ quote name ++ rest) := rfl
      have hother : ¬ '&' :: ['t', 'r', '='] <+: '&' :: ("dn=".toList ++ quote name ++ rest) := by
        intro hstarts
        have htail := (List.cons_prefix_cons.mp hstarts).2
        have hchar := (List.cons_prefix_cons.mp htail).1
        cases hchar
      rw [hfield, occurrences, if_neg hother, zero_add, occurrences_append]
      intro hmem
      rcases List.mem_append.mp hmem with hkey | hvalue
      · exact absurd hkey (by decide)
      · exact amp_not_mem_quote name hvalue
    · rfl
  have hstart : '&' ∉ magnetPrefix ++ hex infoHash := by
    intro hmem
    rcases List.mem_append.mp hmem with hmem | hmem
    · exact absurd hmem (by decide)
    · exact not_mem_hex (by decide) infoHash hmem
  rw [trackerField, magnetText, List.append_assoc, occurrences_append hstart, hname, ← htrackers]
  rfl

theorem buildMagnetLink_eq {infoHash : Bytes} (h : infoHash.length = nodeIdLength) (name : Text) :
    buildMagnetLink infoHash name = .ok (magnetText infoHash name) := by
  have hstarts : magnetPrefix <+: magnetText infoHash name := by
    rw [magnetText, List.append_assoc, List.append_assoc]
    exact List.prefix_append _ _
  have hlong : magnetPrefix.length + nodeIdLength * 2 ≤ (magnetText infoHash name).length := by
    rw [magnetText, List.append_assoc, List.length_append, List.length_append, length_hex, h]
    exact Nat.le_add_right _ _
  unfold buildMagnetLink
  rw [assert_true h, ok_bind]
  dsimp only
  rw [assert_true ⟨hstarts, hlong⟩, ok_bind, assert_true (occurrences_magnetText infoHash name),
    ok_bind]
  rfl

/-! ## Reading a link -/

/-- The query of a link: from the question mark to the fragment. -/
def linkQuery (link : Text) : Text := ((link.dropWhile (· ≠ '?')).drop 1).takeWhile (· ≠ '#')

/-- The fields of a link, as they stand in it. -/
def magnetFields (infoHash : Bytes) (name : Text) : List Text :=
  ("xt".toList ++ '=' :: ("urn:btih:".toList ++ hex infoHash)) ::
    (if name ≠ [] then ["dn".toList ++ '=' :: quote name] else []) ++
      magnetTrackers.map fun tracker ↦ "tr".toList ++ '=' :: quote tracker

theorem intercalate_amp (first : Text) (rest : List Text) :
    ['&'].intercalate (first :: rest) = first ++ rest.flatMap ('&' :: ·) := by
  induction rest generalizing first with
  | nil => simp
  | cons second rest ih =>
    rw [List.intercalate_cons_cons, ih, List.flatMap_cons, List.append_assoc]
    rfl

theorem magnetText_eq (infoHash : Bytes) (name : Text) :
    magnetText infoHash name = "magnet:?".toList ++ ['&'].intercalate (magnetFields infoHash name) := by
  have hstart : magnetPrefix = "magnet:?".toList ++ ("xt".toList ++ '=' :: "urn:btih:".toList) := rfl
  have hname : (if name ≠ [] then "&dn=".toList ++ quote name else []) =
      (if name ≠ [] then ["dn".toList ++ '=' :: quote name] else []).flatMap ('&' :: ·) := by
    split
    · rw [List.flatMap_singleton]
      rfl
    · rfl
  have htracker (tracker : Text) : '&' :: ("tr".toList ++ '=' :: quote tracker) =
      "&tr=".toList ++ quote tracker := rfl
  rw [magnetFields, List.cons_append, intercalate_amp, List.flatMap_append, ← hname, List.flatMap_map,
    magnetText, hstart]
  simp only [htracker, List.append_assoc, List.cons_append]

theorem mem_magnetFields {infoHash : Bytes} {name text : Text} (h : text ∈ magnetFields infoHash name) :
    text ≠ [] ∧ ∀ c ∈ text, c ≠ '#' ∧ c ≠ '&' := by
  have hvalue (key value : Text) (hkey : ∀ c ∈ key, c ≠ '#' ∧ c ≠ '&') :
      key ++ '=' :: quote value ≠ [] ∧ ∀ c ∈ key ++ '=' :: quote value, c ≠ '#' ∧ c ≠ '&' := by
    refine ⟨by simp, fun c hc ↦ ?_⟩
    rcases List.mem_append.mp hc with hc | hc
    · exact hkey c hc
    · rcases List.mem_cons.mp hc with rfl | hc
      · exact ⟨by decide, by decide⟩
      · exact ⟨fun heq ↦ not_mem_quote (by decide) (by decide) value (heq ▸ hc),
          fun heq ↦ amp_not_mem_quote value (heq ▸ hc)⟩
  rcases List.mem_append.mp h with h | h
  · rcases List.mem_cons.mp h with rfl | h
    · refine ⟨by simp, fun c hc ↦ ?_⟩
      have hplain : ∀ c ∈ "xt".toList ++ '=' :: "urn:btih:".toList, c ≠ '#' ∧ c ≠ '&' := by simp
      rw [← List.cons_append, ← List.append_assoc] at hc
      rcases List.mem_append.mp hc with hc | hc
      · exact hplain c hc
      · exact ⟨fun heq ↦ not_mem_hex (by decide) infoHash (heq ▸ hc),
          fun heq ↦ not_mem_hex (by decide) infoHash (heq ▸ hc)⟩
    · split at h
      · rw [List.mem_singleton] at h
        exact h ▸ hvalue _ name (by simp)
      · cases h
  · obtain ⟨tracker, -, rfl⟩ := List.mem_map.mp h
    exact hvalue _ tracker (by simp)

theorem not_mem_intercalate_amp {c : Char} (hne : c ≠ '&') {texts : List Text}
    (h : ∀ text ∈ texts, c ∉ text) : c ∉ ['&'].intercalate texts := by
  cases texts with
  | nil => exact List.not_mem_nil
  | cons first rest =>
    rw [intercalate_amp, List.mem_append, List.mem_flatMap]
    rintro (hfirst | ⟨text, htext, hmem⟩)
    · exact h first List.mem_cons_self hfirst
    · rcases List.mem_cons.mp hmem with heq | hmem
      · exact hne heq
      · exact h text (List.mem_cons_of_mem first htext) hmem

theorem linkQuery_magnetText (infoHash : Bytes) (name : Text) :
    linkQuery (magnetText infoHash name) = ['&'].intercalate (magnetFields infoHash name) := by
  have hscheme : ∀ c ∈ "magnet:".toList, decide (c ≠ '?') = true := by simp
  have hlink : "magnet:?".toList = "magnet:".toList ++ ['?'] := rfl
  have hfragment : ∀ c ∈ ['&'].intercalate (magnetFields infoHash name), decide (c ≠ '#') = true := by
    intro c hc
    rw [decide_eq_true_eq]
    intro heq
    exact not_mem_intercalate_amp (by decide)
      (fun text htext hmem ↦ ((mem_magnetFields htext).2 _ hmem).1 rfl) (heq ▸ hc)
  rw [linkQuery, magnetText_eq, hlink, List.append_assoc, List.dropWhile_append_of_pos hscheme,
    List.singleton_append]
  simp only [ne_eq, not_true_eq_false, decide_false, Bool.false_eq_true, not_false_eq_true,
    List.dropWhile_cons_of_neg, List.drop_succ_cons, List.drop_zero]
  rw [List.takeWhile_eq_self_iff.mpr hfragment]

/-- The fields of a link, read back. -/
theorem readFields_magnetText (infoHash : Bytes) (name : Text) :
    readFields (linkQuery (magnetText infoHash name)) =
      ("xt".toList, "urn:btih:".toList ++ hex infoHash) ::
        (if name ≠ [] then [("dn".toList, name)] else []) ++
          magnetTrackers.map (fun tracker ↦ ("tr".toList, tracker)) := by
  have hxt : readField ("xt".toList ++ '=' :: ("urn:btih:".toList ++ hex infoHash)) =
      ("xt".toList, "urn:btih:".toList ++ hex infoHash) := by
    rw [readField_equals (by decide), unquotePlus_plain (by simp), unquotePlus_plain]
    intro c hc
    have hplain : ∀ c ∈ "urn:btih:".toList, c ≠ '%' ∧ c ≠ '+' := by simp
    rcases List.mem_append.mp hc with hc | hc
    · exact hplain c hc
    · exact ⟨fun heq ↦ not_mem_hex (by decide) infoHash (heq ▸ hc),
        fun heq ↦ not_mem_hex (by decide) infoHash (heq ▸ hc)⟩
  have hname : readField ("dn".toList ++ '=' :: quote name) = ("dn".toList, name) := by
    rw [readField_equals (by decide), unquotePlus_plain (by simp), unquotePlus_quote]
  have htracker (tracker : Text) : readField ("tr".toList ++ '=' :: quote tracker) =
      ("tr".toList, tracker) := by
    rw [readField_equals (by decide), unquotePlus_plain (by simp), unquotePlus_quote]
  have hnames : (if name ≠ [] then ["dn".toList ++ '=' :: quote name] else []).map readField =
      if name ≠ [] then [("dn".toList, name)] else [] := by
    rw [apply_ite (List.map readField), List.map_singleton, hname, List.map_nil]
  rw [linkQuery_magnetText, readFields_intercalate (fun hempty ↦ (mem_magnetFields hempty).1 rfl)
    fun text htext hamp ↦ ((mem_magnetFields htext).2 _ hamp).2 rfl, magnetFields, List.map_append,
    List.map_cons, hxt, List.map_map, hnames]
  exact congrArg _ (List.map_congr_left fun tracker _ ↦ htracker tracker)

/-- Whoever reads a link finds the torrent again: the hash, the name, which may have any characters,
and the trackers; and the hash is what the detail page accepts. -/
theorem magnet_link_read_back {infoHash : Bytes} (h : infoHash.length = nodeIdLength) (name : Text) :
    ∃ link, buildMagnetLink infoHash name = .ok link ∧
      readFields (linkQuery link) =
        ("xt".toList, "urn:btih:".toList ++ hex infoHash) ::
          (if name ≠ [] then [("dn".toList, name)] else []) ++
            magnetTrackers.map (fun tracker ↦ ("tr".toList, tracker)) ∧
      parseInfoHashHex (hex infoHash) = some infoHash :=
  ⟨_, buildMagnetLink_eq h name, readFields_magnetText infoHash name, parseInfoHashHex_hex h⟩

/-- The link of a torrent whose name has characters with a meaning of their own. -/
theorem magnet_link_read_back_sample : ∃ link,
    buildMagnetLink (List.replicate 20 0xAB) "a b&c=é".toList = .ok link ∧
      readFields (linkQuery link) =
        ("xt".toList, "urn:btih:".toList ++ hex (List.replicate 20 0xAB)) ::
          [("dn".toList, "a b&c=é".toList)] ++
            magnetTrackers.map (fun tracker ↦ ("tr".toList, tracker)) ∧
      parseInfoHashHex (hex (List.replicate 20 0xAB)) = some (List.replicate 20 0xAB) :=
  magnet_link_read_back (by decide) "a b&c=é".toList

end DhtScraper
