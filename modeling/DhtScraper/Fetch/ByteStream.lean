import DhtScraper.Codec.Bytes
import DhtScraper.Library.Loop

/-!
# Byte streams

What a metadata session needs from a connection.  A stream is the bytes that will arrive before it
ends, and how it ends: the clock only decides how many bytes come before a deadline passes.  The log
lists what was written and read, in order; an exception carries the log of its stream.
-/

namespace DhtScraper

open Library

/-- `FETCH_REASONS`. -/
inductive FetchReason where
  | connect
  | connectTimeout
  | closed
  | closedOnHandshake
  | timeout
  | stopped
  | badHandshake
  | hashMismatch
  | noExtensions
  | noUtMetadata
  | tooLarge
  | reject
  | badPiece
  | sha1Mismatch
  | frameTooLarge
  | badExtendedMessage
  | encryptionFailed
  | localError
  deriving DecidableEq

def FetchReason.text : FetchReason → String
  | connect => "connect"
  | connectTimeout => "connect_timeout"
  | closed => "closed"
  | closedOnHandshake => "closed_on_handshake"
  | timeout => "timeout"
  | stopped => "stopped"
  | badHandshake => "bad_handshake"
  | hashMismatch => "hash_mismatch"
  | noExtensions => "no_extensions"
  | noUtMetadata => "no_ut_metadata"
  | tooLarge => "too_large"
  | reject => "reject"
  | badPiece => "bad_piece"
  | sha1Mismatch => "sha1_mismatch"
  | frameTooLarge => "frame_too_large"
  | badExtendedMessage => "bad_extended_message"
  | encryptionFailed => "encryption_failed"
  | localError => "local_error"

def fetchReasons : List FetchReason :=
  [.connect, .connectTimeout, .closed, .closedOnHandshake, .timeout, .stopped, .badHandshake,
    .hashMismatch, .noExtensions, .noUtMetadata, .tooLarge, .reject, .badPiece, .sha1Mismatch,
    .frameTooLarge, .badExtendedMessage, .encryptionFailed, .localError]

/-- What a fetch step raises: a `MetadataFetchError` with its reason, or anything else. -/
inductive FetchError where
  | fetch (reason : FetchReason)
  | failure (failure : Failure)
  deriving DecidableEq

/-- `MetadataFetchError(text)`: the constructor asserts that the text is a known reason. -/
def metadataFetchError (text : String) : FetchError :=
  match fetchReasons.find? (·.text = text) with
  | some reason => .fetch reason
  | none => .failure .assertionError

/-- How a stream ends: the peer closes it, the connection breaks, or a deadline passes. -/
inductive Ending where
  | closed
  | broken
  | deadline
  deriving DecidableEq

inductive Transfer where
  | wrote (data : Bytes)
  | read (data : Bytes)
  deriving DecidableEq

structure ByteStream where
  incoming : Bytes
  ending : Ending
  log : List Transfer
  deriving DecidableEq

/-- An exception, with what went over the stream before it. -/
structure Interrupted where
  error : FetchError
  log : List Transfer
  deriving DecidableEq

namespace ByteStream

variable {α : Type}

def raise (stream : ByteStream) (error : FetchError) : Except Interrupted α :=
  .error ⟨error, stream.log⟩

/-- Call a function that does not use the stream. -/
def call (stream : ByteStream) (result : Except Failure α) : Except Interrupted α :=
  match result with
  | .ok value => .ok value
  | .error failure => stream.raise (.failure failure)

/-- `read_exactly`. -/
def readExactly (stream : ByteStream) (length : ℕ) (closedReason : FetchReason) :
    Except Interrupted (Bytes × ByteStream) :=
  if length = 0 then stream.raise (.failure .assertionError)
  else if length ≤ stream.incoming.length then
    let data := stream.incoming.take length
    .ok (data, { stream with
      incoming := stream.incoming.drop length
      log := stream.log ++ [.read data] })
  else
    stream.raise (.fetch (match stream.ending with
      | .closed => if stream.incoming = [] then closedReason else .closed
      | .broken => closedReason
      | .deadline => .timeout))

def write (stream : ByteStream) (data : Bytes) : Except Interrupted ByteStream :=
  if data = [] then stream.raise (.failure .assertionError)
  else .ok { stream with log := stream.log ++ [.wrote data] }

variable {stream next : ByteStream}

theorem call_eq_ok {value : α} {result : Except Failure α} (h : result = .ok value) :
    stream.call result = .ok value := by
  rw [h]
  rfl

/-- The stream after some of its bytes were read. -/
structure Advanced (stream : ByteStream) (reads : List Bytes) (next : ByteStream) : Prop where
  incoming : stream.incoming = reads.flatten ++ next.incoming
  ending : next.ending = stream.ending
  log : next.log = stream.log ++ reads.map .read

theorem Advanced.trans {last : ByteStream} {first second : List Bytes}
    (h : stream.Advanced first next) (h' : next.Advanced second last) :
    stream.Advanced (first ++ second) last where
  incoming := by rw [h.incoming, h'.incoming, List.flatten_append, List.append_assoc]
  ending := h'.ending.trans h.ending
  log := by rw [h'.log, h.log, List.map_append, List.append_assoc]

theorem Advanced.refl : stream.Advanced [] stream where
  incoming := rfl
  ending := rfl
  log := (List.append_nil _).symm

/-- Everything that was written, in order. -/
def sent (log : List Transfer) : Bytes :=
  log.flatMap fun
    | .wrote data => data
    | .read _ => []

theorem sent_append (first second : List Transfer) :
    sent (first ++ second) = sent first ++ sent second := List.flatMap_append

theorem sent_reads (reads : List Bytes) : sent (reads.map .read) = [] := by
  rw [sent, List.flatMap_map]
  exact List.flatMap_eq_nil_iff.mpr fun _ _ ↦ rfl

theorem sent_wrote (log : List Transfer) (data : Bytes) :
    sent (log ++ [.wrote data]) = sent log ++ data := by
  rw [sent_append]
  simp [sent]

theorem Advanced.sent {reads : List Bytes} (h : stream.Advanced reads next) :
    ByteStream.sent next.log = ByteStream.sent stream.log := by
  rw [h.log, sent_append, sent_reads, List.append_nil]

theorem write_eq_ok {data : Bytes} (h : data ≠ []) :
    stream.write data = .ok { stream with log := stream.log ++ [.wrote data] } := if_neg h

/-- A read either takes the bytes that come next or raises a fetch error and takes nothing. -/
theorem readExactly_ends {length : ℕ} (closedReason : FetchReason) (h : 0 < length) :
    Ends (stream.readExactly length closedReason)
      (fun (data, next) ↦ data.length = length ∧ stream.Advanced [data] next)
      (fun interrupted ↦ ∃ reason, interrupted = ⟨.fetch reason, stream.log⟩) := by
  rw [readExactly, if_neg (by omega)]
  split
  case isTrue hle =>
    refine ⟨List.length_take_of_le hle, ?_, rfl, rfl⟩
    simp
  case isFalse => exact ⟨_, rfl⟩

/-- A read of bytes that are there. -/
theorem readExactly_append {data rest : Bytes} (closedReason : FetchReason)
    (h : stream.incoming = data ++ rest) (hne : data ≠ []) :
    ∃ next, stream.readExactly data.length closedReason = .ok (data, next) ∧
      stream.Advanced [data] next ∧ next.incoming = rest := by
  have hpos : data.length ≠ 0 := fun hzero ↦ hne (List.length_eq_zero_iff.mp hzero)
  have hle : data.length ≤ stream.incoming.length := by
    rw [h, List.length_append]
    omega
  have htake : stream.incoming.take data.length = data := by rw [h, List.take_left]
  have hdrop : stream.incoming.drop data.length = rest := by rw [h, List.drop_left]
  rw [readExactly, if_neg hpos, if_pos hle]
  simp only [htake, hdrop]
  exact ⟨_, rfl, ⟨by simp [h], rfl, rfl⟩, rfl⟩

/-- A read of more bytes than there are. -/
theorem readExactly_of_short {length : ℕ} (closedReason : FetchReason)
    (h : stream.incoming.length < length) : ∃ reason,
    stream.readExactly length closedReason = .error ⟨.fetch reason, stream.log⟩ := by
  rw [readExactly, if_neg (by omega), if_neg (Nat.not_le.mpr h)]
  exact ⟨_, rfl⟩

/-- A read of so many bytes, which are there. -/
theorem readExactly_of_length {data rest : Bytes} {length : ℕ} (closedReason : FetchReason)
    (h : stream.incoming = data ++ rest) (hlength : data.length = length) (hpos : 0 < length) :
    ∃ next, stream.readExactly length closedReason = .ok (data, next) ∧
      stream.Advanced [data] next ∧ next.incoming = rest := by
  subst hlength
  exact readExactly_append closedReason h (List.ne_nil_of_length_pos hpos)

end ByteStream

end DhtScraper
