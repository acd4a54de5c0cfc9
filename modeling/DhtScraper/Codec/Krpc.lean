import DhtScraper.Codec.Bencode
import DhtScraper.Codec.NodeIdentity

/-!
# Compact addresses and nodes

The decoders and the address filter of `krpc_messages`.  The functions of `socket` and `ipaddress`
that convert and classify addresses are a parameter.
-/

namespace DhtScraper

/-- What `ipaddress.IPv6Address` tells about the address it parsed. -/
structure Ipv6Address where
  isGlobal : Bool
  isMulticast : Bool
  /-- `ipv4_mapped is not None`. -/
  ipv4Mapped : Bool
  packed : Bytes

/-- `inet_ntoa`, `inet_ntop`, `inet_aton`, `inet_pton` (the last for IPv6) and `IPv6Address`, with
`none` for the exception. -/
structure Inet where
  ntoa : Bytes → Text
  ntop : Bytes → Text
  aton : Text → Option Bytes
  pton : Text → Option Bytes
  ipv6Address : Text → Option Ipv6Address

def compactAddressLength : ℕ := 6
def compactAddress6Length : ℕ := 18
def compactNodeLength : ℕ := nodeIdLength + compactAddressLength
def compactNode6Length : ℕ := nodeIdLength + compactAddress6Length
def nodesKey : Bytes := ascii "nodes".toList
def nodes6Key : Bytes := ascii "nodes6".toList
def maxSampleInterval : ℤ := 21600

/-! ## Routable addresses -/

/-- `is_global_ipv4` of the first three octets. -/
def isGlobalIpv4 (first second third : ℕ) : Bool :=
  ¬ ((first = 0 ∨ first = 10 ∨ first = 127 ∨ 224 ≤ first)
    ∨ (first = 100 ∧ 64 ≤ second ∧ second ≤ 127)
    ∨ (first = 169 ∧ second = 254)
    ∨ (first = 172 ∧ 16 ≤ second ∧ second ≤ 31)
    ∨ (first = 192 ∧ (second = 168 ∨ (second = 0 ∧ (third = 0 ∨ third = 2))
      ∨ (second = 88 ∧ third = 99)))
    ∨ (first = 198 ∧ (second = 18 ∨ second = 19 ∨ (second = 51 ∧ third = 100)))
    ∨ (first = 203 ∧ second = 0 ∧ third = 113))

def isGlobalIpv6 (net : Inet) (ip : Text) : Bool :=
  match net.ipv6Address ip with
  | none => false
  | some parsed => parsed.isGlobal && !parsed.isMulticast && !parsed.ipv4Mapped
      && (parsed.packed.headD 0 &&& 0xE0) == 0x20

/-- `part.isdigit()` for the ASCII texts that sockets report. -/
def isDigitText (part : Text) : Bool := !part.isEmpty && part.all Char.isDigit

/-- `is_routable_address`. -/
def isRoutableAddress (net : Inet) (address : Address) : Bool :=
  let (ip, port) := address
  if ':' ∈ ip then 0 < port ∧ port ≤ 65535 ∧ isGlobalIpv6 net ip
  else
    let parts := ip.splitOn '.'
    if ¬ (0 < port ∧ port ≤ 65535) ∨ parts.length ≠ 4
        ∨ ¬ parts.all fun part ↦ isDigitText part ∧ part.length ≤ 3 then false
    else
      let octets := parts.map fun part ↦ Nat.ofDigitChars 10 part 0
      octets.all (· ≤ 255) && isGlobalIpv4 (octets.getD 0 0) (octets.getD 1 0) (octets.getD 2 0)

/-! ## Decoding -/

def decodeCompactAddress (net : Inet) (data : Bytes) : Except Failure Address := do
  assert (data.length = compactAddressLength ∨ data.length = compactAddress6Length)
  let ip := if data.length = compactAddress6Length then net.ntop (data.take 16)
    else net.ntoa (data.take 4)
  let port := fromBigEndian (data.drop (data.length - 2))
  assert (port ≤ 65535)
  return (ip, port)

/-- `range(0, length - step + 1, step)`. -/
def entryOffsets (length step : ℕ) : List ℕ := (List.range (length / step)).map (· * step)

def decodeCompactNode (net : Inet) (data : Bytes) (entryLength offset : ℕ) : Except Failure Node :=
  do
    let nodeId := slice data offset (offset + nodeIdLength)
    let (ip, port) ← decodeCompactAddress net
      (slice data (offset + nodeIdLength) (offset + entryLength))
    return ⟨nodeId, ip, port⟩

def decodeCompactNodes (net : Inet) (data : Bytes) (entryLength : ℕ := compactNodeLength) :
    Except Failure (List Node) := do
  let nodes ← (entryOffsets data.length entryLength).mapM (decodeCompactNode net data entryLength)
  assert (nodes.length = data.length / entryLength)
  return nodes

def decodeCompactNodes6 (net : Inet) (data : Bytes) : Except Failure (List Node) := do
  let result ← decodeCompactNodes net data compactNode6Length
  assert (result.length = data.length / compactNode6Length)
  return result

/-- The items of `values` that `decode_compact_peers` looks at. -/
def compactPeerItems : Option BencodeValue → List Bytes
  | some (.list items) => items.filterMap fun item ↦
      match item with
      | .bytes value =>
        if value.length = compactAddressLength ∨ value.length = compactAddress6Length then
          some value
        else none
      | _ => none
  | _ => []

def decodeCompactPeers (net : Inet) (values : Option BencodeValue) : Except Failure (List Address) :=
  do
    let result ← (compactPeerItems values).mapM (decodeCompactAddress net)
    assert (∀ peer ∈ result, 0 ≤ peer.2 ∧ peer.2 ≤ 65535)
    return result

def decodeSamples : Option BencodeValue → Except Failure (List Bytes)
  | some (.bytes data) => do
    let result := (entryOffsets data.length nodeIdLength).map fun offset ↦
      slice data offset (offset + nodeIdLength)
    assert (result.length = data.length / nodeIdLength)
    return result
  | _ => .ok []

/-! ## What the decoders return -/

theorem mapM_eq_ok {ε α β : Type} {f : α → Except ε β} {g : α → β} {l : List α}
    (h : ∀ x ∈ l, f x = .ok (g x)) : l.mapM f = .ok (l.map g) := by
  induction l with
  | nil => rfl
  | cons x rest ih =>
    rw [List.mapM_cons, h x List.mem_cons_self,
      ih fun y hy ↦ h y (List.mem_cons_of_mem _ hy)]
    rfl

variable (net : Inet) (data : Bytes)

/-- The address that 6 or 18 bytes stand for. -/
def compactAddress : Address :=
  (if data.length = compactAddress6Length then net.ntop (data.take 16)
    else net.ntoa (data.take 4), fromBigEndian (data.drop (data.length - 2)))

variable {data}

theorem port_compactAddress (h : data.length = compactAddressLength ∨
    data.length = compactAddress6Length) :
    0 ≤ (compactAddress net data).2 ∧ (compactAddress net data).2 ≤ 65535 := by
  have hlt := fromBigEndian_lt (data.drop (data.length - 2))
  have htwo : (data.drop (data.length - 2)).length = 2 := by
    have hge : 2 ≤ data.length := by
      rcases h with h | h <;> rw [h] <;> decide
    rw [List.length_drop]
    omega
  rw [htwo] at hlt
  constructor
  · exact Int.natCast_nonneg _
  · simp only [compactAddress]
    omega

theorem decodeCompactAddress_eq (h : data.length = compactAddressLength ∨
    data.length = compactAddress6Length) :
    decodeCompactAddress net data = .ok (compactAddress net data) := by
  have hport : fromBigEndian (data.drop (data.length - 2)) ≤ 65535 := by
    have hle := (port_compactAddress net h).2
    simp only [compactAddress] at hle
    omega
  rw [decodeCompactAddress, assert_true h, ok_bind]
  simp only
  rw [assert_true hport, ok_bind]
  rfl

variable (data)

/-- The node at one offset. -/
def compactNode (entryLength offset : ℕ) : Node :=
  let address := compactAddress net (slice data (offset + nodeIdLength) (offset + entryLength))
  ⟨slice data offset (offset + nodeIdLength), address.1, address.2⟩

variable {data}

theorem mem_entryOffsets {length step offset : ℕ} (h : offset ∈ entryOffsets length step) :
    offset + step ≤ length := by
  obtain ⟨k, hk, rfl⟩ := List.mem_map.mp h
  rw [List.mem_range] at hk
  calc k * step + step = (k + 1) * step := by ring
    _ ≤ length / step * step := Nat.mul_le_mul_right step hk
    _ ≤ length := Nat.div_mul_le_self length step

/-- The two lengths of an entry. -/
def isEntryLength (entryLength : ℕ) : Prop :=
  entryLength = compactNodeLength ∨ entryLength = compactNode6Length

theorem slice_entry {entryLength offset : ℕ} (he : isEntryLength entryLength)
    (h : offset ∈ entryOffsets data.length entryLength) :
    (slice data offset (offset + nodeIdLength)).length = nodeIdLength ∧
      ((slice data (offset + nodeIdLength) (offset + entryLength)).length = compactAddressLength ∨
        (slice data (offset + nodeIdLength) (offset + entryLength)).length =
          compactAddress6Length) := by
  have hle := mem_entryOffsets h
  have hid : offset + nodeIdLength ≤ data.length := by
    rcases he with he | he <;> rw [he] at hle <;>
      simp only [compactNodeLength, compactNode6Length] at hle <;> omega
  rw [length_slice hid, length_slice hle]
  constructor
  · omega
  · rcases he with he | he <;> rw [he]
    · exact Or.inl (by simp only [compactNodeLength]; omega)
    · exact Or.inr (by simp only [compactNode6Length]; omega)

theorem decodeCompactNodes_eq {entryLength : ℕ} (he : isEntryLength entryLength) :
    decodeCompactNodes net data entryLength =
      .ok ((entryOffsets data.length entryLength).map (compactNode net data entryLength)) := by
  have hmap : (entryOffsets data.length entryLength).mapM (decodeCompactNode net data entryLength) =
      .ok ((entryOffsets data.length entryLength).map (compactNode net data entryLength)) := by
    apply mapM_eq_ok
    intro offset hoffset
    rw [decodeCompactNode, decodeCompactAddress_eq net (slice_entry he hoffset).2]
    rfl
  have hlength : ((entryOffsets data.length entryLength).map
      (compactNode net data entryLength)).length = data.length / entryLength := by
    simp [entryOffsets]
  rw [decodeCompactNodes, hmap, ok_bind]
  rw [assert_true hlength, ok_bind]
  rfl

theorem decodeCompactNodes6_eq : decodeCompactNodes6 net data =
    .ok ((entryOffsets data.length compactNode6Length).map
      (compactNode net data compactNode6Length)) := by
  have hlength : ((entryOffsets data.length compactNode6Length).map
      (compactNode net data compactNode6Length)).length = data.length / compactNode6Length := by
    simp [entryOffsets]
  rw [decodeCompactNodes6, decodeCompactNodes_eq net (Or.inr rfl), ok_bind]
  rw [assert_true hlength, ok_bind]
  rfl

theorem length_of_mem_compactPeerItems {values : Option BencodeValue} {item : Bytes}
    (h : item ∈ compactPeerItems values) :
    item.length = compactAddressLength ∨ item.length = compactAddress6Length := by
  unfold compactPeerItems at h
  split at h
  · obtain ⟨value, -, hvalue⟩ := List.mem_filterMap.mp h
    split at hvalue
    · split at hvalue
      · rename_i hlength
        rw [Option.some.injEq] at hvalue
        exact hvalue ▸ hlength
      · cases hvalue
    · cases hvalue
  · cases h

theorem decodeCompactPeers_eq (values : Option BencodeValue) : decodeCompactPeers net values =
    .ok ((compactPeerItems values).map (compactAddress net)) := by
  have hmap : (compactPeerItems values).mapM (decodeCompactAddress net) =
      .ok ((compactPeerItems values).map (compactAddress net)) :=
    mapM_eq_ok fun item hitem ↦
      decodeCompactAddress_eq net (length_of_mem_compactPeerItems hitem)
  have hports : ∀ peer ∈ (compactPeerItems values).map (compactAddress net),
      0 ≤ peer.2 ∧ peer.2 ≤ 65535 := by
    intro peer hpeer
    obtain ⟨item, hitem, rfl⟩ := List.mem_map.mp hpeer
    exact port_compactAddress net (length_of_mem_compactPeerItems hitem)
  rw [decodeCompactPeers, hmap, ok_bind]
  rw [assert_true hports, ok_bind]
  rfl

/-- The samples are the whole hashes of the byte string. -/
theorem decodeSamples_eq (samples : Option BencodeValue) : ∃ hashes,
    decodeSamples samples = .ok hashes ∧ ∀ infoHash ∈ hashes, infoHash.length = nodeIdLength := by
  unfold decodeSamples
  split
  · rename_i data
    refine ⟨(entryOffsets data.length nodeIdLength).map fun offset ↦
      slice data offset (offset + nodeIdLength), ?_, ?_⟩
    · simp only
      rw [assert_true (by simp [entryOffsets]), ok_bind]
      rfl
    · intro infoHash hhash
      obtain ⟨offset, hoffset, rfl⟩ := List.mem_map.mp hhash
      rw [length_slice (mem_entryOffsets hoffset)]
      omega
  · exact ⟨[], rfl, fun infoHash hhash ↦ absurd hhash (List.not_mem_nil)⟩

end DhtScraper
