import DhtScraper.Codec.Compact
import DhtScraper.Crawler.Sending
import DhtScraper.Library.Loop

/-!
# KRPC messages

The builders of `krpc_messages`, and the readers of what a message says.  Assertions that only read
back the message that was just built are left out.
-/

namespace DhtScraper

open Library

def errorProtocol : ℤ := 203
def errorMethodUnknown : ℤ := 204
def knownErrorCodes : List ℤ := [201, 202, errorProtocol, errorMethodUnknown]
def querySampleInfohashes : Bytes := ascii "sample_infohashes".toList
def tokenLength : ℕ := 8
def transactionIdLength : ℕ := 2

/-! ## Items -/

/-- `message.get(key)`. -/
def getItem (message : Message) (key : String) : Option BencodeValue :=
  message.lookup (ascii key.toList)

def item (key : String) (value : BencodeValue) : Bytes × BencodeValue := (ascii key.toList, value)

/-- `value == text` for a byte string. -/
def isText (value : Option BencodeValue) (text : Bytes) : Bool :=
  match value with
  | some (.bytes data) => data = text
  | _ => false

/-- The value when `is_valid_node_id` accepts it. -/
def readNodeId (value : Option BencodeValue) : Option Bytes :=
  match value with
  | some (.bytes data) => if isValidNodeId data then some data else none
  | _ => none

theorem length_of_readNodeId {value : Option BencodeValue} {nodeId : Bytes}
    (h : readNodeId value = some nodeId) : nodeId.length = nodeIdLength := by
  unfold readNodeId at h
  split at h
  · split at h
    next hvalid =>
      rw [← Option.some.inj h]
      simpa [isValidNodeId] using hvalid
    next => cases h
  · cases h

/-! ## Builders -/

def buildQuery (transactionId name : Bytes) (arguments : Message) : Message :=
  [item "t" (.bytes transactionId), item "y" (.bytes (ascii ['q'])), item "q" (.bytes name),
    item "a" (.dict arguments)]

def buildResponse (transactionId : Bytes) (fields : Message) : Message :=
  [item "t" (.bytes transactionId), item "y" (.bytes (ascii ['r'])), item "r" (.dict fields)]

/-- The queries that name a second id of twenty bytes. -/
def buildIdQuery (name : Bytes) (key : String) (transactionId nodeId otherId : Bytes) :
    Except Failure Message := do
  assert (nodeId.length = nodeIdLength ∧ otherId.length = nodeIdLength)
  return buildQuery transactionId name [item "id" (.bytes nodeId), item key (.bytes otherId)]

def buildFindNodeQuery (transactionId nodeId targetId : Bytes) : Except Failure Message :=
  buildIdQuery (ascii "find_node".toList) "target" transactionId nodeId targetId

def buildGetPeersQuery (transactionId nodeId infoHash : Bytes) : Except Failure Message :=
  buildIdQuery (ascii "get_peers".toList) "info_hash" transactionId nodeId infoHash

def buildSampleInfohashesQuery (transactionId nodeId targetId : Bytes) : Except Failure Message :=
  buildIdQuery querySampleInfohashes "target" transactionId nodeId targetId

def buildPingResponse (transactionId nodeId : Bytes) : Except Failure Message := do
  assert (nodeId.length = nodeIdLength)
  return buildResponse transactionId [item "id" (.bytes nodeId)]

def buildFindNodeResponse (transactionId nodeId compactNodes key : Bytes) :
    Except Failure Message := do
  assert (nodeId.length = nodeIdLength ∧ (key = nodesKey ∨ key = nodes6Key))
  return buildResponse transactionId [item "id" (.bytes nodeId), (key, .bytes compactNodes)]

def buildGetPeersResponse (transactionId nodeId token compactNodes key : Bytes) :
    Except Failure Message := do
  assert (nodeId.length = nodeIdLength ∧ 0 < token.length ∧ (key = nodesKey ∨ key = nodes6Key))
  return buildResponse transactionId
    [item "id" (.bytes nodeId), item "token" (.bytes token), (key, .bytes compactNodes)]

def buildErrorResponse (transactionId : Bytes) (code : ℤ) (text : Bytes) :
    Except Failure Message := do
  assert (code ∈ knownErrorCodes)
  return [item "t" (.bytes transactionId), item "y" (.bytes (ascii ['e'])),
    item "e" (.list [.int code, .bytes text])]

def buildSampleInfohashesResponse (transactionId nodeId : Bytes) (interval : ℤ)
    (compactNodes : Bytes) (num : ℕ) (samples key : Bytes) : Except Failure Message := do
  assert (nodeId.length = nodeIdLength ∧ (0 ≤ interval ∧ interval ≤ maxSampleInterval)
    ∧ (key = nodesKey ∨ key = nodes6Key))
  assert (samples.length % nodeIdLength = 0)
  return buildResponse transactionId
    [item "id" (.bytes nodeId), item "interval" (.int interval), (key, .bytes compactNodes),
      item "num" (.int num), item "samples" (.bytes samples)]

/-- `message[b"y"] == b"q"`. -/
def isQuery (message : Message) : Bool := isText (getItem message "y") (ascii ['q'])

/-- A query can be built from ids of twenty bytes. -/
theorem buildIdQuery_eq {name transactionId nodeId otherId : Bytes} (key : String)
    (hid : nodeId.length = nodeIdLength) (hother : otherId.length = nodeIdLength) :
    buildIdQuery name key transactionId nodeId otherId =
      .ok (buildQuery transactionId name [item "id" (.bytes nodeId), item key (.bytes otherId)]) := by
  rw [buildIdQuery, assert_true ⟨hid, hother⟩, ok_bind]
  rfl

/-- A reply: it can be built, and it is no query. -/
def BuildsReply (built : Except Failure Message) : Prop :=
  Ends built (fun message ↦ isQuery message = false) fun _ ↦ False

variable {transactionId nodeId : Bytes}

theorem buildsReply_ping (h : nodeId.length = nodeIdLength) :
    BuildsReply (buildPingResponse transactionId nodeId) := by
  rw [BuildsReply, buildPingResponse, assert_true h, ok_bind]
  exact rfl

theorem buildsReply_findNode (h : nodeId.length = nodeIdLength) {key : Bytes}
    (hkey : key = nodesKey ∨ key = nodes6Key) (compactNodes : Bytes) :
    BuildsReply (buildFindNodeResponse transactionId nodeId compactNodes key) := by
  rw [BuildsReply, buildFindNodeResponse, assert_true ⟨h, hkey⟩, ok_bind]
  exact rfl

theorem buildsReply_getPeers (h : nodeId.length = nodeIdLength) {key token : Bytes}
    (hkey : key = nodesKey ∨ key = nodes6Key) (htoken : 0 < token.length) (compactNodes : Bytes) :
    BuildsReply (buildGetPeersResponse transactionId nodeId token compactNodes key) := by
  rw [BuildsReply, buildGetPeersResponse, assert_true ⟨h, htoken, hkey⟩, ok_bind]
  exact rfl

theorem buildsReply_error {code : ℤ} (h : code ∈ knownErrorCodes) (text : Bytes) :
    BuildsReply (buildErrorResponse transactionId code text) := by
  rw [BuildsReply, buildErrorResponse, assert_true h, ok_bind]
  exact rfl

theorem buildsReply_sampleInfohashes (h : nodeId.length = nodeIdLength) {interval : ℤ}
    (hinterval : 0 ≤ interval ∧ interval ≤ maxSampleInterval) {key samples : Bytes}
    (hkey : key = nodesKey ∨ key = nodes6Key) (hsamples : samples.length % nodeIdLength = 0)
    (compactNodes : Bytes) (num : ℕ) :
    BuildsReply (buildSampleInfohashesResponse transactionId nodeId interval compactNodes num
      samples key) := by
  rw [BuildsReply, buildSampleInfohashesResponse, assert_true ⟨h, hinterval, hkey⟩, ok_bind,
    assert_true hsamples, ok_bind]
  exact rfl

/-! ## Readers -/

def readErrorCode (message : Message) : Option ℤ :=
  match getItem message "e" with
  | some (.list (.int code :: _)) => some code
  | _ => none

/-- The port of an announcement, before its range is checked. -/
def announcedPort (args : Message) (sourcePort : ℤ) : Option BencodeValue :=
  match getItem args "implied_port" with
  | some (.int implied) => if implied ≠ 0 then some (.int sourcePort) else getItem args "port"
  | _ => getItem args "port"

def readAnnouncedPort (args : Message) (sourcePort : ℤ) : Except Failure (Option ℤ) := do
  assert (0 ≤ sourcePort ∧ sourcePort ≤ 65535)
  match announcedPort args sourcePort with
  | some (.int port) => return if 0 < port ∧ port ≤ 65535 then some port else none
  | _ => return none

/-- `make_token`, with `hmac.digest(secret, text, "sha1")` as an argument. -/
def makeToken (hmacDigest : Bytes → Text → Bytes) (secret : Bytes) (ip : Text) :
    Except Failure Bytes := do
  assert (0 < secret.length)
  let result := (hmacDigest secret ip).take tokenLength
  assert (result.length = tokenLength)
  return result

theorem readAnnouncedPort_ends (args : Message) {sourcePort : ℤ}
    (h : 0 ≤ sourcePort ∧ sourcePort ≤ 65535) :
    Ends (readAnnouncedPort args sourcePort) (fun _ ↦ True) fun _ ↦ False := by
  rw [readAnnouncedPort, assert_true h, ok_bind]
  cases announcedPort args sourcePort with
  | none => trivial
  | some value => cases value <;> trivial

theorem makeToken_ends {hmacDigest : Bytes → Text → Bytes} {secret : Bytes} {ip : Text}
    (hsecret : 0 < secret.length) (hdigest : tokenLength ≤ (hmacDigest secret ip).length) :
    Ends (makeToken hmacDigest secret ip) (fun token ↦ 0 < token.length) fun _ ↦ False := by
  have hlength : ((hmacDigest secret ip).take tokenLength).length = tokenLength :=
    List.length_take_of_le hdigest
  rw [makeToken, assert_true hsecret, ok_bind]
  simp only
  rw [assert_true hlength, ok_bind]
  rw [show Ends (pure _ : Except Failure Bytes) _ _ ↔ _ from ends_ok, hlength]
  decide

end DhtScraper
