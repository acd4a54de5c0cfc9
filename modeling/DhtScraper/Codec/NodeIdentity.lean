import DhtScraper.Codec.Bytes
import DhtScraper.Library.Selection

/-!
# Node ids and transaction ids

`node_identity` of the source: the identity of a remote node, the neighbour ids shown to it, the XOR
distance and the selection of the closest nodes, and the transaction ids of lookups.
-/

namespace DhtScraper

open Library

/-- A node as `(node_id, ip, port)`. -/
structure Node where
  nodeId : Bytes
  ip : Text
  port : ℤ
  deriving DecidableEq

/-- `(node[1], node[2])`. -/
def Node.address (node : Node) : Address := (node.ip, node.port)

def neighborPrefixLength : ℕ := 15

/-- `is_valid_node_id` for a byte string. -/
def isValidNodeId (value : Bytes) : Bool := value.length = nodeIdLength

/-- `neighbor_node_id`: the prefix of the remote id with the suffix of the own id. -/
def neighborNodeId (remoteId ownId : Bytes) : Except Failure Bytes := do
  assert (remoteId.length = nodeIdLength ∧ ownId.length = nodeIdLength)
  let result := remoteId.take neighborPrefixLength ++ ownId.drop neighborPrefixLength
  assert (result.length = nodeIdLength)
  assert (result.take neighborPrefixLength = remoteId.take neighborPrefixLength)
  return result

theorem neighborNodeId_eq {remoteId ownId : Bytes} (hremote : remoteId.length = nodeIdLength)
    (hown : ownId.length = nodeIdLength) : neighborNodeId remoteId ownId =
      .ok (remoteId.take neighborPrefixLength ++ ownId.drop neighborPrefixLength) := by
  have hprefix : (remoteId.take neighborPrefixLength).length = neighborPrefixLength := by
    rw [List.length_take, hremote]
    rfl
  have hlength : (remoteId.take neighborPrefixLength ++
      ownId.drop neighborPrefixLength).length = nodeIdLength := by
    rw [List.length_append, hprefix, List.length_drop, hown]
    rfl
  have htake : (remoteId.take neighborPrefixLength ++
      ownId.drop neighborPrefixLength).take neighborPrefixLength =
        remoteId.take neighborPrefixLength := List.take_left' hprefix
  rw [neighborNodeId, assert_true ⟨hremote, hown⟩, ok_bind]
  simp only
  rw [assert_true hlength, ok_bind, assert_true htake, ok_bind]
  rfl

theorem length_of_neighborNodeId {remoteId ownId result : Bytes}
    (h : neighborNodeId remoteId ownId = .ok result) : result.length = nodeIdLength := by
  rw [neighborNodeId, bind_eq_ok] at h
  obtain ⟨_, _, hrest⟩ := h
  simp only [bind_eq_ok] at hrest
  obtain ⟨_, hlength, _, _, hpure⟩ := hrest
  rw [← Except.ok.inj hpure]
  exact assert_eq_ok.mp hlength

/-! ## Closest nodes -/

def xorDistance (leftId rightId : Bytes) : ℕ := fromBigEndian leftId ^^^ fromBigEndian rightId

/-- Ids at one distance of the target are equal. -/
theorem xorDistance_inj {leftId rightId target : Bytes} (hlength : leftId.length = rightId.length)
    (h : xorDistance leftId target = xorDistance rightId target) : leftId = rightId := by
  refine fromBigEndian_inj hlength ?_
  have hcancel := congrArg (· ^^^ fromBigEndian target) h
  simpa [xorDistance, Nat.xor_assoc, Nat.xor_self] using hcancel

/-- `select_closest_nodes`, without its assertions. -/
def selectClosestNodes (nodes : List Node) (target : Bytes) (count : ℕ) : List Node :=
  takeFirst (fun node other ↦ xorDistance node.nodeId target ≤ xorDistance other.nodeId target)
    count nodes

/-- The assertions of `select_closest_nodes` and, for each sort key, of `xor_distance`. -/
def selectClosestAsserts (nodes : List Node) (target : Bytes) : Prop :=
  target.length = nodeIdLength ∧ ∀ node ∈ nodes, node.nodeId.length = nodeIdLength

instance (nodes : List Node) (target : Bytes) : Decidable (selectClosestAsserts nodes target) := by
  unfold selectClosestAsserts
  infer_instance

theorem mem_of_mem_selectClosestNodes {nodes : List Node} {target : Bytes} {count : ℕ} {node : Node}
    (h : node ∈ selectClosestNodes nodes target count) : node ∈ nodes := mem_of_mem_takeFirst _ h

theorem length_selectClosestNodes_le (nodes : List Node) (target : Bytes) (count : ℕ) :
    (selectClosestNodes nodes target count).length ≤ count := by
  rw [selectClosestNodes, length_takeFirst]
  exact min_le_left _ _

/-! ## Transaction ids of lookups -/

def lookupTransactionIdLength : ℕ := 4

/-- `lookup_transaction_id`: the letter `L` and three bytes of the counter. -/
def lookupTransactionId (sequence : ℕ) : Bytes :=
  76 :: toBigEndian (lookupTransactionIdLength - 1) (sequence % 2 ^ 24)

theorem length_lookupTransactionId (sequence : ℕ) :
    (lookupTransactionId sequence).length = lookupTransactionIdLength := by
  rw [lookupTransactionId, List.length_cons, length_toBigEndian]
  rfl

/-- Two transaction ids agree exactly when their counters do modulo 2^24. -/
theorem lookupTransactionId_inj {first second : ℕ} :
    lookupTransactionId first = lookupTransactionId second ↔ first % 2 ^ 24 = second % 2 ^ 24 := by
  constructor
  · intro h
    have hbytes := congrArg fromBigEndian (List.cons.inj h).2
    have hlt (n : ℕ) : n % 2 ^ 24 < 256 ^ (lookupTransactionIdLength - 1) := Nat.mod_lt n (by decide)
    rwa [fromBigEndian_toBigEndian (hlt first), fromBigEndian_toBigEndian (hlt second)] at hbytes
  · intro h
    rw [lookupTransactionId, lookupTransactionId, h]

end DhtScraper
