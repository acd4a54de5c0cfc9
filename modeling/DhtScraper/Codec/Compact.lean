import DhtScraper.Codec.Krpc
import DhtScraper.Library.Entries

/-!
# Compact formats

The encoders of compact addresses, nodes and peers, and their round trips with the decoders.  A
decoder reads entry by entry, and an entry is the encoding of what was read from it.
-/

namespace DhtScraper

open Library

/-! ## Encoding -/

/-- `inet_pton` or `inet_aton`, by the colon. -/
def packAddress (net : Inet) (ip : Text) : Except Failure Bytes :=
  match if ':' ∈ ip then net.pton ip else net.aton ip with
  | some packed => .ok packed
  | none => .error .osError

def encodeCompactAddress (net : Inet) (ip : Text) (port : ℤ) : Except Failure Bytes := do
  assert (0 ≤ port ∧ port ≤ 65535)
  let packed ← packAddress net ip
  let result := packed ++ toBigEndian 2 port.toNat
  assert (result.length = compactAddressLength ∨ result.length = compactAddress6Length)
  return result

def encodeCompactNode (net : Inet) (node : Node) : Except Failure Bytes := do
  let address ← encodeCompactAddress net node.ip node.port
  return node.nodeId ++ address

def encodeCompactNodes (net : Inet) (nodes : List Node) : Except Failure Bytes := do
  assert (∀ node ∈ nodes, node.nodeId.length = nodeIdLength)
  let parts ← nodes.mapM (encodeCompactNode net)
  let result := parts.flatten
  assert (result.length = compactNodeLength * nodes.length ∨
    result.length = compactNode6Length * nodes.length)
  return result

def encodeCompactPeers (net : Inet) (peers : List Address) : Except Failure (List Bytes) := do
  let result ← peers.mapM fun peer ↦ encodeCompactAddress net peer.1 peer.2
  assert (result.length = peers.length)
  return result

/-! ## Packed addresses -/

/-- The texts of packed addresses are read back, and a colon tells the families apart. -/
structure Inet.Inverse (net : Inet) : Prop where
  aton : ∀ packed, packed.length = 4 →
    ':' ∉ net.ntoa packed ∧ net.aton (net.ntoa packed) = some packed
  pton : ∀ packed, packed.length = 16 →
    ':' ∈ net.ntop packed ∧ net.pton (net.ntop packed) = some packed

/-- An IPv4 address as the functions write it. -/
def PackedIpv4 (net : Inet) (address : Address) : Prop :=
  (∃ packed : Bytes, packed.length = 4 ∧ address.1 = net.ntoa packed) ∧
    0 ≤ address.2 ∧ address.2 ≤ 65535

/-- An IPv6 address as the functions write it. -/
def PackedIpv6 (net : Inet) (address : Address) : Prop :=
  (∃ packed : Bytes, packed.length = 16 ∧ address.1 = net.ntop packed) ∧
    0 ≤ address.2 ∧ address.2 ≤ 65535

section Addresses

variable {net : Inet} {address : Address} {data : Bytes}

theorem encodeCompactAddress_of_packed {ip : Text} {port : ℤ} {packed : Bytes}
    (hport : 0 ≤ port ∧ port ≤ 65535) (hpacked : packAddress net ip = .ok packed)
    (hlength : packed.length = 4 ∨ packed.length = 16) :
    encodeCompactAddress net ip port = .ok (packed ++ toBigEndian 2 port.toNat) := by
  have hresult : (packed ++ toBigEndian 2 port.toNat).length = compactAddressLength ∨
      (packed ++ toBigEndian 2 port.toNat).length = compactAddress6Length := by
    rw [List.length_append, length_toBigEndian]
    exact hlength.imp (congrArg (· + 2)) (congrArg (· + 2))
  rw [encodeCompactAddress, assert_true hport, ok_bind, hpacked, ok_bind]
  simp only
  rw [assert_true hresult, ok_bind]
  rfl

theorem packAddress_ntoa (h : net.Inverse) {packed : Bytes} (hlength : packed.length = 4) :
    packAddress net (net.ntoa packed) = .ok packed := by
  obtain ⟨hcolon, hread⟩ := h.aton packed hlength
  rw [packAddress, if_neg hcolon, hread]

theorem packAddress_ntop (h : net.Inverse) {packed : Bytes} (hlength : packed.length = 16) :
    packAddress net (net.ntop packed) = .ok packed := by
  obtain ⟨hcolon, hread⟩ := h.pton packed hlength
  rw [packAddress, if_pos hcolon, hread]

/-- The bytes of an address before its port. -/
def packedOf (data : Bytes) : Bytes := data.take (data.length - 2)

theorem packedOf_append (h : data.length = compactAddressLength ∨
    data.length = compactAddress6Length) :
    packedOf data ++ toBigEndian 2 (compactAddress net data).2.toNat = data := by
  have htwo : (data.drop (data.length - 2)).length = 2 := by
    have hge : 2 ≤ data.length := by
      rcases h with h | h <;> rw [h] <;> decide
    rw [List.length_drop]
    omega
  have hback := toBigEndian_fromBigEndian (data.drop (data.length - 2))
  rw [htwo] at hback
  have hport : toBigEndian 2 (compactAddress net data).2.toNat = data.drop (data.length - 2) := by
    rw [compactAddress, Int.toNat_natCast]
    exact hback
  rw [hport]
  exact List.take_append_drop _ _

/-- Encoding a decoded address gives the bytes it was decoded from. -/
theorem encode_compactAddress (hnet : net.Inverse) (h : data.length = compactAddressLength ∨
    data.length = compactAddress6Length) :
    encodeCompactAddress net (compactAddress net data).1 (compactAddress net data).2 = .ok data := by
  have hpacked : packAddress net (compactAddress net data).1 = .ok (packedOf data) ∧
      ((packedOf data).length = 4 ∨ (packedOf data).length = 16) := by
    rcases h with h | h
    · have hlength : (data.take 4).length = 4 := by
        rw [List.length_take, h]
        rfl
      have hsix : ¬ data.length = compactAddress6Length := by
        rw [h]
        decide
      rw [compactAddress, if_neg hsix, packedOf, h]
      exact ⟨packAddress_ntoa hnet hlength, Or.inl hlength⟩
    · have hlength : (data.take 16).length = 16 := by
        rw [List.length_take, h]
        rfl
      rw [compactAddress, if_pos h, packedOf, h]
      exact ⟨packAddress_ntop hnet hlength, Or.inr hlength⟩
  rw [encodeCompactAddress_of_packed (port_compactAddress net h) hpacked.1 hpacked.2,
    packedOf_append h]

theorem compactAddress_append {packed : Bytes} {port : ℤ} (hport : 0 ≤ port ∧ port ≤ 65535) :
    compactAddress net (packed ++ toBigEndian 2 port.toNat) =
      (if packed.length = 16 then net.ntop ((packed ++ toBigEndian 2 port.toNat).take 16)
        else net.ntoa ((packed ++ toBigEndian 2 port.toNat).take 4), port) := by
  have hlength : (packed ++ toBigEndian 2 port.toNat).length = packed.length + 2 := by
    rw [List.length_append, length_toBigEndian]
  have hfamily : (packed ++ toBigEndian 2 port.toNat).length = compactAddress6Length ↔
      packed.length = 16 := by
    rw [hlength]
    exact Nat.add_left_inj (n := 2)
  have hdrop : (packed ++ toBigEndian 2 port.toNat).drop (packed.length + 2 - 2) =
      toBigEndian 2 port.toNat := List.drop_left
  have hread : fromBigEndian (toBigEndian 2 port.toNat) = port.toNat :=
    fromBigEndian_toBigEndian (by omega)
  rw [compactAddress, if_congr hfamily rfl rfl, hlength, hdrop, hread,
    Int.toNat_of_nonneg hport.1]

/-- Decoding an encoded IPv4 address gives it back. -/
theorem compactAddress_ipv4 (hnet : net.Inverse) (h : PackedIpv4 net address) :
    ∃ data, encodeCompactAddress net address.1 address.2 = .ok data ∧
      data.length = compactAddressLength ∧ compactAddress net data = address := by
  obtain ⟨⟨packed, hlength, hip⟩, hport⟩ := h
  refine ⟨packed ++ toBigEndian 2 address.2.toNat, ?_, ?_, ?_⟩
  · exact encodeCompactAddress_of_packed hport (hip ▸ packAddress_ntoa hnet hlength)
      (Or.inl hlength)
  · rw [List.length_append, length_toBigEndian, hlength]
    rfl
  · have hfour : ¬ packed.length = 16 := by omega
    rw [compactAddress_append hport, if_neg hfour, List.take_left' hlength, ← hip]

/-- Decoding an encoded IPv6 address gives it back. -/
theorem compactAddress_ipv6 (hnet : net.Inverse) (h : PackedIpv6 net address) :
    ∃ data, encodeCompactAddress net address.1 address.2 = .ok data ∧
      data.length = compactAddress6Length ∧ compactAddress net data = address := by
  obtain ⟨⟨packed, hlength, hip⟩, hport⟩ := h
  refine ⟨packed ++ toBigEndian 2 address.2.toNat, ?_, ?_, ?_⟩
  · exact encodeCompactAddress_of_packed hport (hip ▸ packAddress_ntop hnet hlength)
      (Or.inr hlength)
  · rw [List.length_append, length_toBigEndian, hlength]
    rfl
  · rw [compactAddress_append hport, if_pos hlength, List.take_left' hlength, ← hip]

end Addresses

/-! ## Entries -/

section Nodes

variable {net : Inet} {data entry : Bytes} {entryLength : ℕ}

/-- The node that an entry of 26 or 38 bytes stands for. -/
def entryNode (net : Inet) (entry : Bytes) : Node :=
  let address := compactAddress net (entry.drop nodeIdLength)
  ⟨entry.take nodeIdLength, address.1, address.2⟩

theorem slice_take_drop (start stop : ℕ) :
    slice data start stop = (data.drop start).take (stop - start) := by
  rw [slice, List.drop_take]

/-- The nodes of the entries, as the decoder reads them at their offsets. -/
theorem map_compactNode (hle : nodeIdLength ≤ entryLength) :
    (entryOffsets data.length entryLength).map (compactNode net data entryLength) =
      (entries entryLength data).map (entryNode net) := by
  rw [entryOffsets, entries, List.map_map, List.map_map]
  refine List.map_congr_left fun k _ ↦ ?_
  have hid : slice data (k * entryLength) (k * entryLength + nodeIdLength) =
      ((data.drop (k * entryLength)).take entryLength).take nodeIdLength := by
    rw [slice_take_drop, Nat.add_sub_cancel_left, List.take_take, Nat.min_eq_left hle]
  have haddress : slice data (k * entryLength + nodeIdLength) (k * entryLength + entryLength) =
      ((data.drop (k * entryLength)).take entryLength).drop nodeIdLength := by
    rw [slice_take_drop, List.drop_take, List.drop_drop, Nat.add_sub_add_left]
  simp only [Function.comp_apply, compactNode, entryNode]
  rw [hid, haddress]

theorem length_drop_entry (he : isEntryLength entryLength) (h : entry.length = entryLength) :
    (entry.drop nodeIdLength).length = compactAddressLength ∨
      (entry.drop nodeIdLength).length = compactAddress6Length := by
  rw [List.length_drop, h]
  rcases he with he | he
  · exact Or.inl (by rw [he, compactNodeLength]; omega)
  · exact Or.inr (by rw [he, compactNode6Length]; omega)

theorem encodeCompactNode_entryNode (hnet : net.Inverse) (he : isEntryLength entryLength)
    (h : entry.length = entryLength) : encodeCompactNode net (entryNode net entry) = .ok entry := by
  rw [encodeCompactNode, entryNode]
  dsimp only
  rw [encode_compactAddress hnet (length_drop_entry he h), ok_bind]
  exact congrArg Except.ok (List.take_append_drop _ _)

theorem length_flatten_of_forall {parts : List Bytes} (h : ∀ part ∈ parts, part.length = entryLength) :
    parts.flatten.length = entryLength * parts.length := by
  rw [List.length_flatten, List.map_congr_left h, List.map_const', List.sum_replicate, smul_eq_mul,
    Nat.mul_comm]

/-- The encoder on nodes whose encodings are known. -/
theorem encodeCompactNodes_of_forall (he : isEntryLength entryLength) {parts : List Bytes}
    {decode : Bytes → Node} (hparts : ∀ part ∈ parts, part.length = entryLength ∧
      (decode part).nodeId.length = nodeIdLength ∧ encodeCompactNode net (decode part) = .ok part) :
    encodeCompactNodes net (parts.map decode) = .ok parts.flatten := by
  have hids : ∀ node ∈ parts.map decode, node.nodeId.length = nodeIdLength := by
    intro node hnode
    obtain ⟨part, hpart, rfl⟩ := List.mem_map.mp hnode
    exact (hparts part hpart).2.1
  have hencoded : (parts.map decode).mapM (encodeCompactNode net) = .ok parts := by
    have hmap : ∀ part ∈ parts, encodeCompactNode net (decode part) = .ok (id part) :=
      fun part hpart ↦ (hparts part hpart).2.2
    rw [List.mapM_map]
    exact (mapM_eq_ok hmap).trans (congrArg Except.ok (List.map_id parts))
  have hlength : parts.flatten.length = compactNodeLength * (parts.map decode).length ∨
      parts.flatten.length = compactNode6Length * (parts.map decode).length := by
    rw [length_flatten_of_forall fun part hpart ↦ (hparts part hpart).1, List.length_map]
    exact he.imp (congrArg (· * parts.length)) (congrArg (· * parts.length))
  rw [encodeCompactNodes, assert_true hids, ok_bind, hencoded, ok_bind]
  simp only
  rw [assert_true hlength, ok_bind]
  rfl

/-- Re-encoding what was decoded gives the whole entries. -/
theorem encode_decoded (hnet : net.Inverse) (he : isEntryLength entryLength) (data : Bytes) :
    encodeCompactNodes net ((entries entryLength data).map (entryNode net)) =
      .ok (entries entryLength data).flatten := by
  refine encodeCompactNodes_of_forall he fun entry hentry ↦ ?_
  have hlength := length_of_mem_entries hentry
  refine ⟨hlength, ?_, encodeCompactNode_entryNode hnet he hlength⟩
  have hle : nodeIdLength ≤ entryLength := by
    rcases he with he | he <;> rw [he] <;> decide
  rw [entryNode, List.length_take, hlength]
  exact Nat.min_eq_left hle

/-- Entries can be found for all items of a list when there is one for each of them. -/
theorem exists_parts {α : Type} {decode : Bytes → α} {P : Bytes → Prop} {items : List α}
    (h : ∀ item ∈ items, ∃ part, P part ∧ decode part = item) :
    ∃ parts : List Bytes, (∀ part ∈ parts, P part) ∧ parts.map decode = items := by
  induction items with
  | nil => exact ⟨[], fun part hpart ↦ absurd hpart List.not_mem_nil, rfl⟩
  | cons item rest ih =>
    obtain ⟨part, hpart, hdecoded⟩ := h item List.mem_cons_self
    obtain ⟨parts, hparts, hrest⟩ := ih fun other hother ↦ h other (List.mem_cons_of_mem _ hother)
    refine ⟨part :: parts, ?_, by rw [List.map_cons, hdecoded, hrest]⟩
    exact List.forall_mem_cons.mpr ⟨hpart, hparts⟩

theorem entryNode_append {node : Node} {address : Bytes} (hid : node.nodeId.length = nodeIdLength)
    (haddress : compactAddress net address = node.address) :
    entryNode net (node.nodeId ++ address) = node := by
  rw [entryNode, List.drop_left' hid, List.take_left' hid, haddress]
  rfl

theorem encodeCompactNode_append {node : Node} {address : Bytes}
    (h : encodeCompactAddress net node.address.1 node.address.2 = .ok address) :
    encodeCompactNode net node = .ok (node.nodeId ++ address) := by
  have hencoded : encodeCompactAddress net node.ip node.port = .ok address := h
  rw [encodeCompactNode, hencoded, ok_bind]
  rfl

/-- Nodes whose addresses are encoded to one length are decoded again. -/
theorem decode_encoded (he : isEntryLength entryLength) {nodes : List Node}
    (h : ∀ node ∈ nodes, node.nodeId.length = nodeIdLength ∧
      ∃ address, encodeCompactAddress net node.address.1 node.address.2 = .ok address ∧
        nodeIdLength + address.length = entryLength ∧ compactAddress net address = node.address) :
    ∃ data, encodeCompactNodes net nodes = .ok data ∧
      decodeCompactNodes net data entryLength = .ok nodes := by
  have hparts : ∀ node ∈ nodes, ∃ part, (part.length = entryLength ∧
      (entryNode net part).nodeId.length = nodeIdLength ∧
        encodeCompactNode net (entryNode net part) = .ok part) ∧ entryNode net part = node := by
    intro node hnode
    obtain ⟨hid, address, hencoded, hlength, haddress⟩ := h node hnode
    have hentry := entryNode_append hid haddress
    refine ⟨node.nodeId ++ address, ⟨?_, ?_, ?_⟩, hentry⟩
    · rw [List.length_append, hid, hlength]
    · rw [hentry, hid]
    · rw [hentry]
      exact encodeCompactNode_append hencoded
  obtain ⟨parts, hall, hnodes⟩ := exists_parts hparts
  have hle : nodeIdLength ≤ entryLength := by
    rcases he with he | he <;> rw [he] <;> decide
  have hpos : 0 < entryLength := Nat.lt_of_lt_of_le (by decide) hle
  refine ⟨parts.flatten, hnodes ▸ encodeCompactNodes_of_forall he hall, ?_⟩
  rw [decodeCompactNodes_eq net he, map_compactNode hle,
    entries_flatten hpos fun part hpart ↦ (hall part hpart).1, hnodes]

theorem decodeCompactNodes6_eq_decodeCompactNodes (net : Inet) (data : Bytes) :
    decodeCompactNodes6 net data = decodeCompactNodes net data compactNode6Length := by
  rw [decodeCompactNodes6_eq, decodeCompactNodes_eq net (Or.inr rfl)]

end Nodes

/-! ## Peers -/

/-- The items of `values` that are compact addresses by their length. -/
def isCompactItem : BencodeValue → Bool
  | .bytes value => value.length = 6 ∨ value.length = 18
  | _ => false

theorem map_compactPeerItems (values : List BencodeValue) :
    (compactPeerItems (some (.list values))).map BencodeValue.bytes =
      values.filter isCompactItem := by
  rw [compactPeerItems, List.map_filterMap, ← List.filterMap_eq_filter]
  refine List.filterMap_congr fun value _ ↦ ?_
  cases value with
  | bytes data =>
    have hitem : isCompactItem (.bytes data) = decide (data.length = compactAddressLength ∨
      data.length = compactAddress6Length) := rfl
    by_cases h : data.length = compactAddressLength ∨ data.length = compactAddress6Length
    · rw [decide_eq_true h] at hitem
      simp [h, hitem, Option.guard]
    · rw [decide_eq_false h] at hitem
      simp [h, hitem, Option.guard]
  | _ => rfl

theorem encodeCompactPeers_of_forall {net : Inet} {items : List Bytes} {decode : Bytes → Address}
    (h : ∀ item ∈ items,
      encodeCompactAddress net (decode item).1 (decode item).2 = .ok item) :
    encodeCompactPeers net (items.map decode) = .ok items := by
  have hencoded : (items.map decode).mapM (fun peer ↦ encodeCompactAddress net peer.1 peer.2) =
      .ok items := by
    have hmap : ∀ item ∈ items,
        encodeCompactAddress net (decode item).1 (decode item).2 = .ok (id item) := h
    rw [List.mapM_map]
    exact (mapM_eq_ok hmap).trans (congrArg Except.ok (List.map_id items))
  rw [encodeCompactPeers, hencoded, ok_bind]
  rw [assert_true (List.length_map _).symm, ok_bind]
  rfl

/-- Items of the two lengths are all looked at. -/
theorem compactPeerItems_map {items : List Bytes} (h : ∀ item ∈ items,
    item.length = compactAddressLength ∨ item.length = compactAddress6Length) :
    compactPeerItems (some (.list (items.map .bytes))) = items := by
  rw [compactPeerItems, List.filterMap_map]
  refine (List.filterMap_congr (g := some) fun item hitem ↦ ?_).trans List.filterMap_some
  exact if_pos (h item hitem)

/-! ## Round trips -/

/-- Compact nodes, samples and peers survive both directions. -/
theorem compact_formats_round_trip (net : Inet) (hnet : net.Inverse) :
    (∀ nodes : List Node, (∀ node ∈ nodes, node.nodeId.length = nodeIdLength ∧
        PackedIpv4 net node.address) → ∃ data, encodeCompactNodes net nodes = .ok data ∧
          decodeCompactNodes net data = .ok nodes) ∧
      (∀ nodes : List Node, (∀ node ∈ nodes, node.nodeId.length = nodeIdLength ∧
        PackedIpv6 net node.address) → ∃ data, encodeCompactNodes net nodes = .ok data ∧
          decodeCompactNodes6 net data = .ok nodes) ∧
      (∀ data, ∃ nodes whole, decodeCompactNodes net data = .ok nodes ∧
        encodeCompactNodes net nodes = .ok whole ∧ LongestWhole 26 data whole) ∧
      (∀ data, ∃ nodes whole, decodeCompactNodes6 net data = .ok nodes ∧
        encodeCompactNodes net nodes = .ok whole ∧ LongestWhole 38 data whole) ∧
      (∀ data, ∃ hashes, decodeSamples (some (.bytes data)) = .ok hashes ∧
        (∀ infoHash ∈ hashes, infoHash.length = 20) ∧ LongestWhole 20 data hashes.flatten) ∧
      (∀ peers : List Address, (∀ peer ∈ peers, PackedIpv4 net peer ∨ PackedIpv6 net peer) →
        ∃ items, encodeCompactPeers net peers = .ok items ∧
          decodeCompactPeers net (some (.list (items.map .bytes))) = .ok peers) ∧
      ∀ values, ∃ peers items, decodeCompactPeers net (some (.list values)) = .ok peers ∧
        encodeCompactPeers net peers = .ok items ∧
          items.map BencodeValue.bytes = values.filter isCompactItem := by
  refine ⟨?_, ?_, ?_, ?_, ?_, ?_, ?_⟩
  · intro nodes hnodes
    refine decode_encoded (Or.inl rfl) fun node hnode ↦ ⟨(hnodes node hnode).1, ?_⟩
    obtain ⟨address, hencoded, hlength, haddress⟩ := compactAddress_ipv4 hnet (hnodes node hnode).2
    exact ⟨address, hencoded, by rw [hlength, compactNodeLength], haddress⟩
  · intro nodes hnodes
    simp only [decodeCompactNodes6_eq_decodeCompactNodes]
    refine decode_encoded (Or.inr rfl) fun node hnode ↦ ⟨(hnodes node hnode).1, ?_⟩
    obtain ⟨address, hencoded, hlength, haddress⟩ := compactAddress_ipv6 hnet (hnodes node hnode).2
    exact ⟨address, hencoded, by rw [hlength, compactNode6Length], haddress⟩
  · intro data
    refine ⟨_, _, ?_, encode_decoded hnet (Or.inl rfl) data, longestWhole_flatten (by decide) data⟩
    rw [decodeCompactNodes_eq net (Or.inl rfl), map_compactNode (by decide)]
  · intro data
    refine ⟨_, _, ?_, encode_decoded hnet (Or.inr rfl) data, longestWhole_flatten (by decide) data⟩
    rw [decodeCompactNodes6_eq net, map_compactNode (by decide)]
  · intro data
    have hentries : (entryOffsets data.length nodeIdLength).map (fun offset ↦
        slice data offset (offset + nodeIdLength)) = entries nodeIdLength data := by
      rw [entryOffsets, entries, List.map_map]
      refine List.map_congr_left fun k _ ↦ ?_
      exact (slice_take_drop _ _).trans (by rw [Nat.add_sub_cancel_left])
    refine ⟨entries nodeIdLength data, ?_, fun _ hhash ↦ length_of_mem_entries hhash,
      longestWhole_flatten (by decide) data⟩
    simp only [decodeSamples]
    rw [hentries, assert_true (length_entries _ _), ok_bind]
    rfl
  · intro peers hpeers
    have hitems : ∀ peer ∈ peers, ∃ item, ((item.length = compactAddressLength ∨
        item.length = compactAddress6Length) ∧ encodeCompactAddress net
          (compactAddress net item).1 (compactAddress net item).2 = .ok item) ∧
            compactAddress net item = peer := by
      intro peer hpeer
      rcases hpeers peer hpeer with h | h
      · obtain ⟨item, -, hlength, haddress⟩ := compactAddress_ipv4 hnet h
        exact ⟨item, ⟨Or.inl hlength, encode_compactAddress hnet (Or.inl hlength)⟩, haddress⟩
      · obtain ⟨item, -, hlength, haddress⟩ := compactAddress_ipv6 hnet h
        exact ⟨item, ⟨Or.inr hlength, encode_compactAddress hnet (Or.inr hlength)⟩, haddress⟩
    obtain ⟨items, hall, hmap⟩ := exists_parts hitems
    refine ⟨items, hmap ▸ encodeCompactPeers_of_forall fun item hitem ↦ (hall item hitem).2, ?_⟩
    rw [decodeCompactPeers_eq, compactPeerItems_map fun item hitem ↦ (hall item hitem).1, hmap]
  · intro values
    refine ⟨_, compactPeerItems (some (.list values)), decodeCompactPeers_eq net _, ?_,
      map_compactPeerItems values⟩
    exact encodeCompactPeers_of_forall fun item hitem ↦
      encode_compactAddress hnet (length_of_mem_compactPeerItems hitem)

/-! ## Sample address functions -/

/-- The number that hexadecimal digits stand for. -/
def hexValue (text : Text) : ℕ :=
  text.foldl (fun n c ↦ 16 * n + "0123456789abcdef".toList.idxOf c) 0

/-- The functions on dotted quads, and on IPv6 texts without `::`. -/
def plainInet : Inet where
  ntoa := fun packed ↦ ['.'].intercalate (packed.map fun byte ↦ Nat.toDigits 10 byte.toNat)
  ntop := fun packed ↦
    [':'].intercalate ((entries 2 packed).map fun pair ↦ Nat.toDigits 16 (fromBigEndian pair))
  aton := fun ip ↦ some ((ip.splitOn '.').map fun part ↦ (Nat.ofDigitChars 10 part 0).toUInt8)
  pton := fun ip ↦ some ((ip.splitOn ':').flatMap fun part ↦ toBigEndian 2 (hexValue part))
  ipv6Address := fun _ ↦ none

theorem toDigits_sixteen (value : ℕ) : hexValue (Nat.toDigits 16 value) = value ∧
    ∀ c ∈ Nat.toDigits 16 value, c ≠ ':' := by
  have hdigit : ∀ d < 16, "0123456789abcdef".toList.idxOf (Nat.digitChar d) = d ∧
      Nat.digitChar d ≠ ':' := by decide
  induction value using Nat.strongRecOn with
  | ind value ih =>
    by_cases hlt : value < 16
    · rw [Nat.toDigits_of_lt_base hlt]
      refine ⟨?_, fun c hc ↦ ?_⟩
      · simpa [hexValue] using (hdigit value hlt).1
      · rw [List.mem_singleton.mp hc]
        exact (hdigit value hlt).2
    · obtain ⟨hvalue, hcolon⟩ := ih (value / 16) (by omega)
      have hlow := hdigit (value % 16) (by omega)
      rw [Nat.toDigits_of_base_le (by decide) (by omega)]
      refine ⟨?_, fun c hc ↦ ?_⟩
      · rw [hexValue] at hvalue ⊢
        rw [List.foldl_append, hvalue, List.foldl_cons, List.foldl_nil, hlow.1]
        omega
      · rcases List.mem_append.mp hc with hold | hnew
        · exact hcolon c hold
        · rw [List.mem_singleton.mp hnew]
          exact hlow.2

theorem toDigits_ten {value : ℕ} {c : Char} (h : c ∈ Nat.toDigits 10 value) : c ≠ '.' ∧ c ≠ ':' := by
  have hc := Nat.isDigit_of_mem_toDigits (by decide) (by decide) h
  constructor
  · rintro rfl
    exact absurd hc (by decide)
  · rintro rfl
    exact absurd hc (by decide)

theorem mem_intercalate {separator c : Char} (parts : List Text)
    (h : c ∈ [separator].intercalate parts) : c = separator ∨ ∃ part ∈ parts, c ∈ part := by
  induction parts with
  | nil => cases h
  | cons part rest ih =>
    cases rest with
    | nil =>
      rw [List.intercalate_singleton] at h
      exact Or.inr ⟨part, List.mem_cons_self, h⟩
    | cons other rest =>
      rw [List.intercalate_cons_cons, List.append_assoc, List.mem_append, List.mem_append,
        List.mem_singleton] at h
      rcases h with hpart | hseparator | hrest
      · exact Or.inr ⟨part, List.mem_cons_self, hpart⟩
      · exact Or.inl hseparator
      · exact (ih hrest).imp_right fun ⟨found, hmem, hc⟩ ↦ ⟨found, List.mem_cons_of_mem _ hmem, hc⟩

theorem plainInet_inverse : plainInet.Inverse where
  aton := by
    intro packed hlength
    let parts := packed.map fun byte ↦ Nat.toDigits 10 byte.toNat
    have hdots : ∀ part ∈ parts, '.' ∉ part := by
      intro part hpart hdot
      obtain ⟨byte, -, rfl⟩ := List.mem_map.mp hpart
      exact (toDigits_ten hdot).1 rfl
    have hparts : parts ≠ [] := by
      intro hnil
      rw [List.map_eq_nil_iff.mp hnil] at hlength
      cases hlength
    constructor
    · intro hcolon
      rcases mem_intercalate parts hcolon with hdot | ⟨part, hpart, hmem⟩
      · cases hdot
      · obtain ⟨byte, -, rfl⟩ := List.mem_map.mp hpart
        exact (toDigits_ten hmem).2 rfl
    · change some ((List.splitOn '.' (['.'].intercalate parts)).map _) = _
      rw [List.splitOn_intercalate '.' hdots hparts, List.map_map]
      refine congrArg some ?_
      conv_rhs => rw [← List.map_id packed]
      refine List.map_congr_left fun byte _ ↦ ?_
      simp only [Function.comp_apply]
      rw [Nat.ofDigitChars_ten_toDigits]
      simp
  pton := by
    intro packed hlength
    let parts := (entries 2 packed).map fun pair ↦ Nat.toDigits 16 (fromBigEndian pair)
    have hcount : parts.length = 8 := by
      rw [List.length_map, length_entries, hlength]
    have hcolons : ∀ part ∈ parts, ':' ∉ part := by
      intro part hpart hcolon
      obtain ⟨pair, -, rfl⟩ := List.mem_map.mp hpart
      exact (toDigits_sixteen _).2 ':' hcolon rfl
    have hparts : parts ≠ [] := by
      intro hnil
      rw [hnil] at hcount
      cases hcount
    constructor
    · obtain ⟨first, second, rest, hsplit⟩ : ∃ first second rest, parts = first :: second :: rest := by
        match parts, hcount with
        | first :: second :: rest, _ => exact ⟨first, second, rest, rfl⟩
      change ':' ∈ [':'].intercalate parts
      rw [hsplit, List.intercalate_cons_cons]
      simp
    · change some ((List.splitOn ':' ([':'].intercalate parts)).flatMap _) = _
      rw [List.splitOn_intercalate ':' hcolons hparts, List.flatMap_map]
      refine congrArg some ?_
      have hpairs : ∀ pair ∈ entries 2 packed,
          toBigEndian 2 (hexValue (Nat.toDigits 16 (fromBigEndian pair))) = pair := by
        intro pair hpair
        rw [(toDigits_sixteen _).1, ← length_of_mem_entries hpair]
        exact toBigEndian_fromBigEndian pair
      calc (entries 2 packed).flatMap (fun pair ↦
              toBigEndian 2 (hexValue (Nat.toDigits 16 (fromBigEndian pair))))
          = (entries 2 packed).flatten := by
            rw [← List.flatMap_id]
            exact List.flatMap_congr hpairs
        _ = packed := flatten_entries_of_dvd (by decide) (hlength ▸ by decide)

/-- Two nodes at one host and one at another, with the least and the greatest port. -/
def plainNodes : List Node :=
  [⟨List.replicate nodeIdLength 7, "8.8.8.1".toList, 6881⟩,
    ⟨List.replicate nodeIdLength 9, "8.8.8.1".toList, 0⟩,
    ⟨List.replicate nodeIdLength 8, "192.0.2.255".toList, 65535⟩]

/-- Peers of both families among each other, one of them twice. -/
def mixedPeers : List Address :=
  [("2a01:1111:2222:3333:4444:5555:6666:7777".toList, 6881), ("8.8.8.1".toList, 80),
    ("2a01:1111:2222:3333:4444:5555:6666:7778".toList, 6882), ("8.8.8.1".toList, 80)]

/-- The formats of several nodes and of a mixed list of peers, and bytes that end in an incomplete
node. -/
theorem compact_formats_round_trip_mixed :
    plainInet.Inverse ∧
      (∃ data, encodeCompactNodes plainInet plainNodes = .ok data ∧
        decodeCompactNodes plainInet data = .ok plainNodes) ∧
      (∃ nodes whole, decodeCompactNodes plainInet (List.replicate 60 5) = .ok nodes ∧
        encodeCompactNodes plainInet nodes = .ok whole ∧
          LongestWhole 26 (List.replicate 60 5) whole) ∧
      ∃ items, encodeCompactPeers plainInet mixedPeers = .ok items ∧
        decodeCompactPeers plainInet (some (.list (items.map .bytes))) = .ok mixedPeers := by
  obtain ⟨hnodes, -, hwhole, -, -, hpeers, -⟩ := compact_formats_round_trip plainInet plainInet_inverse
  refine ⟨plainInet_inverse, hnodes _ ?_, hwhole _, hpeers _ ?_⟩
  · intro node hnode
    simp only [plainNodes, List.mem_cons, List.not_mem_nil, or_false] at hnode
    rcases hnode with rfl | rfl | rfl
    · exact ⟨by decide, ⟨[8, 8, 8, 1], rfl, by decide +kernel⟩, by decide, by decide⟩
    · exact ⟨by decide, ⟨[8, 8, 8, 1], rfl, by decide +kernel⟩, by decide, by decide⟩
    · exact ⟨by decide, ⟨[192, 0, 2, 255], rfl, by decide +kernel⟩, by decide, by decide⟩
  · have hfour : PackedIpv4 plainInet ("8.8.8.1".toList, 80) :=
      ⟨⟨[8, 8, 8, 1], rfl, by decide +kernel⟩, by decide, by decide⟩
    intro peer hpeer
    simp only [mixedPeers, List.mem_cons, List.not_mem_nil, or_false] at hpeer
    rcases hpeer with rfl | rfl | rfl | rfl
    · exact Or.inr ⟨⟨[42, 1, 17, 17, 34, 34, 51, 51, 68, 68, 85, 85, 102, 102, 119, 119], rfl,
        by decide +kernel⟩, by decide, by decide⟩
    · exact Or.inl hfour
    · exact Or.inr ⟨⟨[42, 1, 17, 17, 34, 34, 51, 51, 68, 68, 85, 85, 102, 102, 119, 120], rfl,
        by decide +kernel⟩, by decide, by decide⟩
    · exact Or.inl hfour

end DhtScraper
