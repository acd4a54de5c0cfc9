import DhtScraper.Fetch.Packets
import DhtScraper.Library.Machine

/-!
# A uTP connection delivers in order

The peer numbers its packets modulo 65536.  Whatever is lost, repeated or reordered within half of
the numbers, the connection delivers a prefix of the packets of the peer, each once.
-/

namespace DhtScraper

open Library

/-- What a peer sends: its packets, the last of which may end the stream. -/
structure UtpPeer where
  payload : ℕ → Bytes
  fin : Option ℕ

namespace UtpPeer

variable (peer : UtpPeer)

/-- What a packet adds to the stream. -/
def data (index : ℕ) : Bytes := if peer.fin = some index then [] else peer.payload index

/-- The packet as it arrives, with the other fields of its header. -/
def packet (start index : ℕ) (header : UtpPacket) : UtpPacket :=
  { header with
    packetType := if peer.fin = some index then stFin else stData
    seqNr := (start + index) % (sequenceMask + 1)
    payload := peer.payload index }

end UtpPeer

/-- What happens to a connection: a packet of the peer, an acknowledgement or another packet without
data, a reset, the scheduled callbacks, and the calls of a session. -/
inductive UtpEvent where
  | packet (index : ℕ) (header : UtpPacket)
  | state (packet : UtpPacket)
  | reset (packet : UtpPacket)
  | sendAck
  | checkResend
  | write (data : Bytes)
  | read (length : ℕ) (deadlinePassed : Bool) (closedReason : FetchReason)
  | close (sendReset : Bool)

/-- A connection, and the bytes that reads have taken from it. -/
structure UtpSession where
  connection : UtpConnection
  consumed : Bytes

namespace UtpSession

variable (peer : UtpPeer) (start : ℕ)

def step (s : UtpSession) (now : ℚ) : UtpEvent → Except Failure UtpSession
  | .packet index header => do
    let c ← s.connection.packetReceived now (peer.packet start index header)
    return { s with connection := c }
  | .state packet => do
    let c ← s.connection.packetReceived now packet
    return { s with connection := c }
  | .reset packet => do
    let c ← s.connection.packetReceived now packet
    return { s with connection := c }
  | .sendAck => do
    let c ← s.connection.sendAck now
    return { s with connection := c }
  | .checkResend => do
    let c ← s.connection.checkResend now
    return { s with connection := c }
  | .write data => do
    let c ← s.connection.write now data
    return { s with connection := c }
  | .read length deadlinePassed closedReason => do
    let (outcome, c) ← s.connection.readExactly length deadlinePassed closedReason
    return { connection := c, consumed := s.consumed ++ match outcome with
      | .data bytes => bytes
      | _ => [] }
  | .close sendReset => do
    let c ← s.connection.close now sendReset
    return { s with connection := c }

/-- No step is taken where an assertion fails. -/
def machine : Machine UtpSession (ℚ × UtpEvent) where
  step s label := (s.step peer start label.1 label.2).toOption

/-- What can happen next.  The socket hands packets to open connections only; the first packet that
arrives is the peer's STATE packet, and an arriving packet is less than half of the sequence numbers
away from those delivered. -/
def Allowed (s : UtpSession) (label : ℚ × UtpEvent) : Prop :=
  match label.2 with
  | .packet index header => s.connection.closed = false ∧ s.connection.connectedState ∧
      header.ackNr ≤ sequenceMask ∧ index ≤ s.connection.deliveries + 32766 ∧
      s.connection.deliveries < index + 32768 ∧ ∀ last ∈ peer.fin, index ≤ last
  | .state packet => s.connection.closed = false ∧ packet.ackNr ≤ sequenceMask ∧
      (packet.packetType = stState ∨ packet.packetType = stSyn) ∧
      (s.connection.connectedState = false → packet.seqNr = start)
  | .reset packet => s.connection.closed = false ∧ packet.packetType = stReset
  | .sendAck => s.connection.ackScheduled
  | .checkResend => s.connection.resendTimer
  | .write data => s.connection.connectedState ∧ data ≠ []
  | .read length _ _ => 0 < length
  | .close _ => True

/-- A reset arrives, or a resend gives up. -/
def Fails (s : UtpSession) (label : ℚ × UtpEvent) : Prop :=
  match label.2 with
  | .reset _ => True
  | .checkResend => ∃ item ∈ s.connection.unacked.items,
      UtpConnection.Overdue label.1 item.2 ∧ maxResends ≤ item.2.resends
  | _ => False

end UtpSession

/-! ## Sending -/

namespace UtpConnection

/-- The packets of a connection that are not acknowledgements may be sent again. -/
structure Healthy (c : UtpConnection) : Prop where
  ids : c.recvId ≤ sequenceMask ∧ c.sendId ≤ sequenceMask
  scheduled : c.ackScheduled → c.connectedState
  resent : ∀ item ∈ c.unacked.items, ∀ packet, decodeUtpPacket item.2.packet = some packet →
    packet.packetType ≠ stState

/-- Everything that receiving packets has made of the connection. -/
def received (c : UtpConnection) : ℕ × Bool × Bytes × OrderedMap ℕ Bytes × Option ℕ × ℕ :=
  (c.ackNr, c.connectedState, c.buffer, c.outOfOrder, c.eofSeq, c.deliveries)

/-- What sending does: more packets are sent, and acknowledgements carry the number of the connection;
what was received stays. -/
structure Sends (c c' : UtpConnection) : Prop where
  received : c'.received = c.received
  sent : ∃ packets, c'.sent = c.sent ++ packets ∧ ∀ bytes ∈ packets, ∀ packet,
    decodeUtpPacket bytes = some packet → packet.packetType = stState →
      c.connectedState ∧ packet.ackNr = c.ackNr % (sequenceMask + 1)
  healthy : c.Healthy → c'.Healthy

variable {c c' c'' : UtpConnection}

/-- Nothing is sent. -/
theorem Sends.quiet (hreceived : c'.received = c.received) (hsent : c'.sent = c.sent)
    (hhealthy : c.Healthy → c'.Healthy) : c.Sends c' :=
  ⟨hreceived, ⟨[], by rw [hsent, List.append_nil], by simp⟩, hhealthy⟩

theorem Sends.refl (c : UtpConnection) : c.Sends c := .quiet rfl rfl id

theorem Sends.trans (h : c.Sends c') (h' : c'.Sends c'') : c.Sends c'' := by
  obtain ⟨packets, hsent, hacks⟩ := h.sent
  obtain ⟨packets', hsent', hacks'⟩ := h'.sent
  have hack : c'.ackNr = c.ackNr := congrArg Prod.fst h.received
  have hstate : c'.connectedState = c.connectedState := congrArg (fun r ↦ r.2.1) h.received
  refine ⟨h'.received.trans h.received, ⟨packets ++ packets', ?_, ?_⟩, h'.healthy ∘ h.healthy⟩
  · rw [hsent', hsent, List.append_assoc]
  · intro bytes hmem
    rcases List.mem_append.mp hmem with hmem | hmem
    · exact hacks bytes hmem
    · rw [← hack, ← hstate]
      exact hacks' bytes hmem

theorem sendPacket_spec (now : ℚ) {packetType : ℕ} (seqNr : ℕ) (payload : Bytes) (h : c.Healthy)
    (hopen : c.closed = false ∨ packetType = stReset) (htype : packetType ≤ stSyn)
    (hstate : packetType = stState → c.connectedState) :
    ∃ bytes, c.sendPacket now packetType seqNr payload =
        .ok (bytes, { c with sent := c.sent ++ [bytes] }) ∧
      c.Sends { c with sent := c.sent ++ [bytes] } ∧
      ∀ packet, decodeUtpPacket bytes = some packet → packet.packetType = packetType := by
  have hid : (if packetType = stSyn then c.recvId else c.sendId) ≤ sequenceMask := by
    split
    · exact h.ids.1
    · exact h.ids.2
  have hwindow : receiveWindow - c.buffer.length < 2 ^ 32 :=
    lt_of_le_of_lt (Nat.sub_le _ _) (by decide)
  have hencodes : ∃ bytes, encodeUtpPacket {
      packetType := packetType
      connectionId := if packetType = stSyn then c.recvId else c.sendId
      timestamp := microseconds now
      timestampDifference := c.replyMicro
      window := receiveWindow - c.buffer.length
      seqNr := seqNr
      ackNr := c.ackNr
      payload := payload } = .ok bytes ∧ headerSize ≤ bytes.length :=
    ⟨_, encodeUtpPacket_eq ⟨htype, hid, hwindow⟩, by
      rw [List.length_append, length_headerBytes]
      omega⟩
  obtain ⟨bytes, hencode, hlength⟩ := hencodes
  have hdecode := decodeUtpPacket_encode hencode
  refine ⟨bytes, ?_, ⟨rfl, ⟨[bytes], rfl, ?_⟩, fun h ↦ ⟨h.ids, h.scheduled, h.resent⟩⟩, ?_⟩
  · rw [sendPacket, assert_true hopen, ok_bind, hencode, ok_bind, assert_true hlength, ok_bind]
    rfl
  · intro other hother packet hpacket hkind'
    rw [List.mem_singleton.mp hother, hdecode] at hpacket
    rw [← Option.some.inj hpacket] at hkind' ⊢
    exact ⟨hstate hkind', rfl⟩
  · intro packet hpacket
    rw [hdecode] at hpacket
    rw [← Option.some.inj hpacket]
    rfl

theorem armResend_spec (h : c.unacked.size ≠ 0) :
    ∃ c', c.armResend = .ok c' ∧ c.Sends c' ∧ c'.closed = c.closed ∧ c'.error = c.error ∧
      c'.unacked = c.unacked := by
  rw [armResend, assert_true (.inl h), ok_bind]
  split
  · exact ⟨_, rfl, .quiet rfl rfl fun h ↦ ⟨h.ids, h.scheduled, h.resent⟩, rfl, rfl, rfl⟩
  · exact ⟨_, rfl, .refl c, rfl, rfl, rfl⟩

theorem size_insert_ne_zero {α β : Type*} [DecidableEq α] (m : OrderedMap α β) (k : α) (v : β) :
    (m.insert k v).size ≠ 0 := by
  intro hsize
  have hmem : (k, v) ∈ (m.insert k v).items := OrderedMap.get?_eq_some_iff.mp (by simp)
  rw [List.length_eq_zero_iff.mp hsize] at hmem
  cases hmem

theorem Healthy.insert_unacked {seqNr : ℕ} {entry : Unacked} {unacked : OrderedMap ℕ Unacked}
    (h : ∀ item ∈ unacked.items, ∀ packet, decodeUtpPacket item.2.packet = some packet →
      packet.packetType ≠ stState)
    (hentry : ∀ packet, decodeUtpPacket entry.packet = some packet → packet.packetType ≠ stState) :
    ∀ item ∈ (unacked.insert seqNr entry).items, ∀ packet,
      decodeUtpPacket item.2.packet = some packet → packet.packetType ≠ stState := by
  intro item hitem
  have hget := OrderedMap.get?_eq_some_iff.mpr hitem
  rw [OrderedMap.get?_insert] at hget
  split at hget
  · rw [← Option.some.inj hget]
    exact hentry
  · exact h item (OrderedMap.get?_eq_some_iff.mp hget)

theorem sendUnacked_spec (now : ℚ) {packetType : ℕ} (payload : Bytes) (h : c.Healthy)
    (hopen : c.closed = false) (htype : packetType ≤ stSyn) (hkind : packetType ≠ stState) :
    ∃ c', c.sendUnacked now packetType payload = .ok c' ∧ c.Sends c' ∧ c'.closed = c.closed ∧
      c'.error = c.error ∧ c'.unacked.size ≠ 0 := by
  obtain ⟨bytes, hsend, hsends, hdecode⟩ := sendPacket_spec now c.seqNr payload h (.inl hopen) htype
    fun hstate ↦ absurd hstate hkind
  rw [sendUnacked, hsend, ok_bind]
  refine ⟨_, rfl, ⟨rfl, hsends.sent, fun h ↦ ⟨h.ids, h.scheduled, ?_⟩⟩, rfl, rfl,
    size_insert_ne_zero _ _ _⟩
  apply Healthy.insert_unacked h.resent
  intro packet hpacket
  rw [hdecode packet hpacket]
  exact hkind

theorem sendChunks_spec (now : ℚ) (pieces : List Bytes) (h : c.Healthy) (hopen : c.closed = false) :
    ∃ c', sendChunks now pieces c = .ok c' ∧ c.Sends c' ∧ c'.closed = c.closed ∧ c'.error = c.error ∧
      (pieces ≠ [] → c'.unacked.size ≠ 0) := by
  induction pieces generalizing c with
  | nil => exact ⟨c, rfl, .refl c, rfl, rfl, fun hne ↦ absurd rfl hne⟩
  | cons chunk rest ih =>
    obtain ⟨mid, hmid, hsends, hclosed, herror, hsize⟩ :=
      sendUnacked_spec now chunk h hopen (show stData ≤ stSyn by decide) (by decide)
    obtain ⟨last, hlast, hsends', hclosed', herror', hsize'⟩ :=
      ih (hsends.healthy h) (hclosed.trans hopen)
    refine ⟨last, by rw [sendChunks, hmid, ok_bind, hlast], hsends.trans hsends',
      hclosed'.trans hclosed,
      herror'.trans herror, fun _ ↦ ?_⟩
    by_cases hrest : rest = []
    · subst hrest
      cases hlast
      exact hsize
    · exact hsize' hrest

theorem chunks_ne_nil {data : Bytes} (h : data ≠ []) : chunks data ≠ [] := by
  have hpos := List.length_pos_of_ne_nil h
  have hcount : 0 < (data.length + maxPayload - 1) / maxPayload :=
    Nat.div_pos (by simp only [maxPayload]; omega) (by decide)
  simp only [chunks, ne_eq, List.map_eq_nil_iff, List.range_eq_nil]
  omega

theorem write_spec (now : ℚ) {data : Bytes} (h : c.Healthy) (hdata : data ≠ []) :
    ∃ c', c.write now data = .ok c' ∧ c.Sends c' ∧ c'.error = c.error := by
  rw [write, assert_true hdata, ok_bind]
  split
  case isTrue => exact ⟨c, rfl, .refl c, rfl⟩
  case isFalse hopen =>
    obtain ⟨mid, hmid, hsends, -, herror, hsize⟩ :=
      sendChunks_spec now (chunks data) h (by simpa using hopen)
    obtain ⟨last, hlast, hsends', -, herror', hunacked⟩ := armResend_spec (hsize (chunks_ne_nil hdata))
    have hleft : last.unacked.size ≠ 0 := by
      rw [hunacked]
      exact hsize (chunks_ne_nil hdata)
    rw [hmid, ok_bind, hlast, ok_bind, assert_true hleft, ok_bind]
    exact ⟨last, rfl, hsends.trans hsends', herror'.trans herror⟩

theorem acknowledge_spec {ackNr : ℕ} (h : ackNr ≤ sequenceMask) :
    ∃ c', c.acknowledge ackNr = .ok c' ∧ c.Sends c' ∧ c'.sent = c.sent ∧ c'.error = c.error := by
  have hall : ∀ seqNr ∈ (c.unacked.filterKeys fun seqNr ↦ sequenceAfter seqNr ackNr).keys,
      sequenceAfter seqNr ackNr := by
    intro seqNr hmem
    obtain ⟨item, hitem, rfl⟩ := List.mem_map.mp hmem
    exact (List.mem_filter.mp hitem).2
  rw [acknowledge, assert_true h, ok_bind]
  simp only
  rw [assert_true hall, ok_bind]
  refine ⟨_, rfl, .quiet rfl rfl fun h ↦ ⟨h.ids, h.scheduled, ?_⟩, rfl, rfl⟩
  intro item hitem
  exact h.resent item (List.mem_filter.mp hitem).1

/-- An open connection notes the time of the packet, and handles it by its type. -/
theorem packetReceived_open (now : ℚ) (packet : UtpPacket) (hopen : c.closed = false) :
    ∃ stamped, c.Sends stamped ∧ stamped.sent = c.sent ∧ stamped.error = c.error ∧
      c.packetReceived now packet =
        if packet.packetType = stReset then stamped.fail now .closed
        else if stamped.connectedState = false then
          if packet.packetType ≠ stState then .ok stamped
          else do
            let c ← { stamped with
              ackNr := (packet.seqNr + sequenceMask) % (sequenceMask + 1)
              connectedState := true }.acknowledge packet.ackNr
            return { c with connected := some (c.connected.getD true) }
        else do
          let c ← stamped.acknowledge packet.ackNr
          let received : Except Failure UtpConnection :=
            if packet.packetType = stData then c.dataReceived packet.seqNr packet.payload
            else if packet.packetType = stFin then
              { c with eofSeq := some packet.seqNr }.dataReceived packet.seqNr []
            else .ok c
          let c ← received
          assert c.connectedState
          return c := by
  have hstamp : c.Sends { c with replyMicro := microsecondsSince now packet.timestamp } :=
    .quiet (by simp only [received]) rfl fun h ↦ ⟨h.ids, h.scheduled, h.resent⟩
  refine ⟨{ c with replyMicro := microsecondsSince now packet.timestamp }, hstamp, rfl, rfl, ?_⟩
  rw [packetReceived, if_neg (by simp [hopen])]

theorem close_spec (now : ℚ) (sendReset : Bool) (h : c.Healthy) :
    ∃ c', c.close now sendReset = .ok c' ∧ c.Sends c' ∧ c'.error = c.error ∧ c'.closed = true := by
  rw [close]
  split
  case isTrue hclosed => exact ⟨c, rfl, .refl c, rfl, hclosed⟩
  case isFalse hopen =>
    have hopen' : c.closed = false := by simpa using hopen
    by_cases hreset : sendReset ∧ c.connectedState
    · obtain ⟨first, hfirst, hsends, -⟩ := sendPacket_spec now c.seqNr [] h (.inl hopen')
        (show stState ≤ stSyn by decide) fun _ ↦ hreset.2
      obtain ⟨second, hsecond, hsends', -⟩ := sendPacket_spec now c.seqNr [] (hsends.healthy h)
        (.inr rfl) (show stReset ≤ stSyn by decide) (fun hstate ↦ absurd hstate (by decide))
      simp only [if_pos hreset]
      rw [hfirst, ok_bind]
      simp only
      rw [hsecond, ok_bind]
      exact ⟨_, rfl, (hsends.trans hsends').trans
        (.quiet rfl rfl fun h ↦ ⟨h.ids, h.scheduled, h.resent⟩), rfl, rfl⟩
    · simp only [if_neg hreset]
      exact ⟨_, rfl, .quiet rfl rfl fun h ↦ ⟨h.ids, h.scheduled, h.resent⟩, rfl, rfl⟩

theorem fail_spec (now : ℚ) {reason : FetchReason} (h : c.Healthy)
    (hreason : reason ∈ [FetchReason.closed, .timeout, .connectTimeout]) :
    ∃ c', c.fail now reason = .ok c' ∧ c.Sends c' ∧ c'.closed = true := by
  have hset : c.Sends { c with
      error := some (c.error.getD reason)
      connected := some (c.connected.getD false)
      readable := true } :=
    .quiet rfl rfl fun h ↦ ⟨h.ids, h.scheduled, h.resent⟩
  obtain ⟨last, hlast, hsends, -, hclosed⟩ := close_spec now false (hset.healthy h)
  rw [fail, assert_true hreason, ok_bind, hlast, ok_bind, assert_true hclosed, ok_bind]
  exact ⟨last, rfl, hset.trans hsends, hclosed⟩

theorem sendAck_spec (now : ℚ) (h : c.Healthy) (hstate : c.connectedState) :
    ∃ c', c.sendAck now = .ok c' ∧ c.Sends c' ∧ c'.error = c.error := by
  have hset : c.Sends { c with ackScheduled := false } :=
    .quiet rfl rfl fun h ↦ ⟨h.ids, by simp, h.resent⟩
  rw [sendAck]
  simp only
  split
  case isTrue => exact ⟨_, rfl, hset, rfl⟩
  case isFalse hopen =>
    obtain ⟨bytes, hsend, hsends, -⟩ := sendPacket_spec now c.seqNr [] (hset.healthy h)
      (.inl (by simpa using hopen)) (show stState ≤ stSyn by decide) fun _ ↦ hstate
    rw [hsend, ok_bind]
    exact ⟨_, rfl, hset.trans hsends, rfl⟩

/-- The loop over the entries sends again what is due, or gives up with an overdue entry. -/
theorem resendEntries_spec (now : ℚ) (items : List (ℕ × Unacked)) (h : c.Healthy)
    (hopen : c.closed = false)
    (hitems : ∀ item ∈ items, ∀ packet, decodeUtpPacket item.2.packet = some packet →
      packet.packetType ≠ stState) :
    ∃ c' gaveUp, resendEntries now items c = .ok (c', gaveUp) ∧ c.Sends c' ∧
      (gaveUp = false → c'.closed = false ∧ c'.error = c.error) ∧
      (gaveUp = true → ∃ item ∈ items, Overdue now item.2 ∧ maxResends ≤ item.2.resends) := by
  induction items generalizing c with
  | nil => exact ⟨c, false, rfl, .refl c, fun _ ↦ ⟨hopen, rfl⟩, by simp⟩
  | cons item rest ih =>
    obtain ⟨seqNr, entry⟩ := item
    have hrest : ∀ item ∈ rest, ∀ packet, decodeUtpPacket item.2.packet = some packet →
        packet.packetType ≠ stState := fun item hitem ↦ hitems item (List.mem_cons_of_mem _ hitem)
    have hlater : ∀ gaveUp, (gaveUp = true → ∃ item ∈ rest, Overdue now item.2 ∧
        maxResends ≤ item.2.resends) → gaveUp = true → ∃ item ∈ (seqNr, entry) :: rest,
          Overdue now item.2 ∧ maxResends ≤ item.2.resends := by
      intro gaveUp hgave htrue
      obtain ⟨item, hitem, hdue⟩ := hgave htrue
      exact ⟨item, List.mem_cons_of_mem _ hitem, hdue⟩
    rw [resendEntries]
    split
    case isTrue =>
      obtain ⟨c', gaveUp, hloop, hsends, hgoes, hgave⟩ := ih h hopen hrest
      exact ⟨c', gaveUp, hloop, hsends, hgoes, hlater gaveUp hgave⟩
    case isFalse hdue =>
      split
      case isTrue hmany =>
        have hreason : (if c.connectedState then FetchReason.timeout else .connectTimeout) ∈
            [FetchReason.closed, .timeout, .connectTimeout] := by
          split <;> decide
        obtain ⟨c', hfail, hsends, -⟩ := fail_spec now h hreason
        rw [hfail, ok_bind]
        exact ⟨c', true, rfl, hsends, by simp, fun _ ↦ ⟨_, List.mem_cons_self, not_not.mp hdue, hmany⟩⟩
      case isFalse =>
        have hentry := hitems (seqNr, entry) List.mem_cons_self
        have hset : c.Sends { c with
            unacked := c.unacked.insert seqNr { entry with sentAt := now, resends := entry.resends + 1 }
            sent := c.sent ++ [entry.packet] } := by
          refine ⟨rfl, ⟨[entry.packet], rfl, ?_⟩, fun h ↦ ⟨h.ids, h.scheduled, ?_⟩⟩
          · intro bytes hmem packet hpacket hstate
            rw [List.mem_singleton.mp hmem] at hpacket
            exact absurd hstate (hentry packet hpacket)
          · exact Healthy.insert_unacked h.resent hentry
        obtain ⟨c', gaveUp, hloop, hsends, hgoes, hgave⟩ := ih (hset.healthy h) hopen hrest
        exact ⟨c', gaveUp, hloop, hset.trans hsends, hgoes, hlater gaveUp hgave⟩

theorem checkResend_spec (now : ℚ) (h : c.Healthy) :
    ∃ c', c.checkResend now = .ok c' ∧ c.Sends c' ∧
      (c'.error = c.error ∨ ∃ item ∈ c.unacked.items, Overdue now item.2 ∧
        maxResends ≤ item.2.resends) := by
  have hset : c.Sends { c with resendTimer := false } :=
    .quiet rfl rfl fun h ↦ ⟨h.ids, h.scheduled, h.resent⟩
  rw [checkResend]
  simp only
  split
  case isTrue => exact ⟨_, rfl, hset, .inl rfl⟩
  case isFalse hopen =>
    have hopen' : c.closed = false := by simpa using hopen
    obtain ⟨mid, gaveUp, hloop, hsends, hgoes, hgave⟩ :=
      resendEntries_spec now c.unacked.items (hset.healthy h) hopen' h.resent
    rw [hloop, ok_bind]
    simp only
    cases gaveUp with
    | true => exact ⟨mid, rfl, hset.trans hsends, .inr (hgave rfl)⟩
    | false =>
      obtain ⟨hclosed, herror⟩ := hgoes rfl
      rw [if_neg (by decide)]
      by_cases hsize : mid.unacked.size ≠ 0
      · obtain ⟨last, hlast, hsends', hclosed', herror', -⟩ := armResend_spec hsize
        rw [if_pos hsize, hlast, ok_bind, assert_true (hclosed'.trans hclosed), ok_bind]
        exact ⟨last, rfl, (hset.trans hsends).trans hsends', .inl (herror'.trans herror)⟩
      · rw [if_neg hsize, ok_bind, assert_true hclosed, ok_bind]
        exact ⟨mid, rfl, hset.trans hsends, .inl herror⟩

end UtpConnection

/-! ## Receiving -/

/-- What the connection has received of the peer's stream: `accepted` are the packets that were
delivered or stored, and the first `deliveries` packets are in the stream. -/
structure Received (peer : UtpPeer) (start : ℕ) (accepted : Finset ℕ) (c : UtpConnection)
    (consumed : Bytes) : Prop where
  stream : consumed ++ c.buffer = (List.range c.deliveries).flatMap peer.data
  below : ∀ index < c.deliveries, index ∈ accepted
  ack : c.connectedState → c.ackNr = (start + c.deliveries + sequenceMask) % (sequenceMask + 1)
  early : ∀ seqNr payload, c.outOfOrder.get? seqNr = some payload ↔ ∃ index ∈ accepted,
    c.deliveries ≤ index ∧ seqNr = (start + index) % (sequenceMask + 1) ∧ payload = peer.data index
  near : ∀ index ∈ accepted, index ≤ c.deliveries + 32766
  within : ∀ last ∈ peer.fin, ∀ index ∈ accepted, index ≤ last
  eof : ∀ seqNr, c.eofSeq = some seqNr → ∃ last, peer.fin = some last ∧
    seqNr = (start + last) % (sequenceMask + 1) ∧ last ≤ c.deliveries + 32766
  fresh : c.connectedState = false → c.deliveries = 0 ∧ accepted = ∅ ∧ c.eofSeq = none

namespace Received

variable {peer : UtpPeer} {start : ℕ} {accepted : Finset ℕ} {c c' : UtpConnection} {consumed : Bytes}

/-- Only what was received matters. -/
theorem of_sends (h : Received peer start accepted c consumed) (hsends : c.Sends c') :
    Received peer start accepted c' consumed := by
  have heq := hsends.received
  simp only [UtpConnection.received, Prod.mk.injEq] at heq
  obtain ⟨hack, hstate, hbuffer, hearly, heof, hdeliveries⟩ := heq
  constructor
  · rw [hbuffer, hdeliveries]
    exact h.stream
  · rw [hdeliveries]
    exact h.below
  · rw [hstate, hack, hdeliveries]
    exact h.ack
  · rw [hearly, hdeliveries]
    exact h.early
  · rw [hdeliveries]
    exact h.near
  · exact h.within
  · rw [heof, hdeliveries]
    exact h.eof
  · rw [hstate, hdeliveries, heof]
    exact h.fresh

/-- The number that the connection waits for belongs to the first packet that was not delivered. -/
theorem following (h : Received peer start accepted c consumed) (hstate : c.connectedState) :
    (c.ackNr + 1) % (sequenceMask + 1) = (start + c.deliveries) % (sequenceMask + 1) := by
  rw [h.ack hstate]
  simp only [sequenceMask]
  omega

/-- Packets less than half of the numbers apart have different numbers. -/
theorem index_unique {index index' : ℕ} (hle : index ≤ index' + 32768) (hle' : index' ≤ index + 32768)
    (h : (start + index) % (sequenceMask + 1) = (start + index') % (sequenceMask + 1)) :
    index = index' := by
  simp only [sequenceMask] at h
  omega

/-- Packets that are not before those delivered are after them in the numbers, and no others are. -/
theorem sequenceAfter_iff (h : Received peer start accepted c consumed) (hstate : c.connectedState)
    {index : ℕ} (hnear : index ≤ c.deliveries + 32766) (hlate : c.deliveries < index + 32768) :
    sequenceAfter ((start + index) % (sequenceMask + 1)) c.ackNr ↔ c.deliveries ≤ index := by
  rw [h.ack hstate, sequenceAfter, Bool.and_eq_true, decide_eq_true_iff, decide_eq_true_iff]
  simp only [sequenceMask]
  omega

/-- What receiving leaves alone. -/
structure Takes (c c' : UtpConnection) : Prop where
  sent : c'.sent = c.sent
  error : c'.error = c.error
  connected : c'.connectedState = c.connectedState
  healthy : c.Healthy → c'.Healthy

theorem Takes.trans {c'' : UtpConnection} (h : Takes c c') (h' : Takes c' c'') : Takes c c'' :=
  ⟨h'.sent.trans h.sent, h'.error.trans h.error, h'.connected.trans h.connected,
    h'.healthy ∘ h.healthy⟩

/-- Delivering the packet that comes next, whatever map of early packets is left. -/
theorem deliver (h : Received peer start accepted c consumed) (hstate : c.connectedState)
    (hwithin : ∀ last ∈ peer.fin, c.deliveries ≤ last) (early : OrderedMap ℕ Bytes)
    (hearly : ∀ seqNr payload, early.get? seqNr = some payload ↔ ∃ index ∈ accepted,
      c.deliveries + 1 ≤ index ∧ seqNr = (start + index) % (sequenceMask + 1) ∧
        payload = peer.data index) :
    ∃ c', { c with outOfOrder := early }.deliver ((c.ackNr + 1) % (sequenceMask + 1))
        (peer.data c.deliveries) = .ok c' ∧
      Received peer start (insert c.deliveries accepted) c' consumed ∧ Takes c c' ∧
      c'.outOfOrder = early := by
  have hfollowing := h.following hstate
  rw [UtpConnection.deliver, assert_true rfl, ok_bind]
  refine ⟨_, rfl, ⟨?_, ?_, ?_, ?_, ?_, ?_, ?_, ?_⟩,
    ⟨rfl, rfl, rfl, fun h ↦ ⟨h.ids, h.scheduled, h.resent⟩⟩, rfl⟩
  · simp only
    rw [← List.append_assoc, h.stream, List.range_succ, List.flatMap_append, List.flatMap_singleton]
  · intro index hindex
    rcases Nat.lt_succ_iff_lt_or_eq.mp hindex with hindex | rfl
    · exact Finset.mem_insert_of_mem (h.below index hindex)
    · exact Finset.mem_insert_self _ _
  · intro _
    simp only
    rw [hfollowing]
    simp only [sequenceMask]
    omega
  · intro seqNr payload
    simp only
    rw [hearly]
    constructor
    · rintro ⟨index, hmem, hrest⟩
      exact ⟨index, Finset.mem_insert_of_mem hmem, hrest⟩
    · rintro ⟨index, hmem, hle, hrest⟩
      exact ⟨index, Finset.mem_of_mem_insert_of_ne hmem (by omega), hle, hrest⟩
  · intro index hindex
    simp only
    rcases Finset.mem_insert.mp hindex with rfl | hindex
    · omega
    · exact (h.near index hindex).trans (by omega)
  · intro last hlast index hindex
    rcases Finset.mem_insert.mp hindex with rfl | hindex
    · exact hwithin last hlast
    · exact h.within last hlast index hindex
  · intro seqNr hseq
    obtain ⟨last, hlast, hnumber, hnear⟩ := h.eof seqNr hseq
    exact ⟨last, hlast, hnumber, hnear.trans (by simp only; omega)⟩
  · intro hfalse
    simp [hstate] at hfalse

/-- No early packet is next exactly when none was accepted. -/
theorem get_following (h : Received peer start accepted c consumed) (hstate : c.connectedState) :
    c.outOfOrder.get? ((c.ackNr + 1) % (sequenceMask + 1)) =
      if c.deliveries ∈ accepted then some (peer.data c.deliveries) else none := by
  have hfollowing := h.following hstate
  split
  case isTrue hmem =>
    exact (h.early _ _).mpr ⟨c.deliveries, hmem, le_rfl, hfollowing, rfl⟩
  case isFalse hnext =>
    rw [Option.eq_none_iff_forall_ne_some]
    intro payload hget
    obtain ⟨index, hmem, hle, hnumber, -⟩ := (h.early _ _).mp hget
    have hnear := h.near index hmem
    have hsame : index = c.deliveries :=
      index_unique (by omega) (by omega) (hnumber.symm.trans hfollowing)
    exact hnext (hsame ▸ hmem)

/-- One round of the loop over the packets that arrived early. -/
theorem followingRound (h : Received peer start accepted c consumed) (hstate : c.connectedState) :
    (∃ c', c.followingRound = .ok (.inl c') ∧ Received peer start accepted c' consumed ∧ Takes c c' ∧
      c'.outOfOrder.size < c.outOfOrder.size) ∨
    (c.followingRound = .ok (.inr c) ∧ c.deliveries ∉ accepted) := by
  have hfollowing := h.following hstate
  have hget := h.get_following hstate
  rw [UtpConnection.followingRound]
  by_cases hmem : c.deliveries ∈ accepted
  · left
    rw [if_pos hmem] at hget
    have hearly : ∀ seqNr payload,
        (c.outOfOrder.erase ((c.ackNr + 1) % (sequenceMask + 1))).get? seqNr = some payload ↔
          ∃ index ∈ accepted, c.deliveries + 1 ≤ index ∧
            seqNr = (start + index) % (sequenceMask + 1) ∧ payload = peer.data index := by
      intro seqNr payload
      rw [OrderedMap.get?_erase, hfollowing]
      split
      case isTrue heq =>
        simp only [reduceCtorEq, false_iff]
        rintro ⟨index, hmem', hlt, hnumber', -⟩
        have hnear' := h.near index hmem'
        have hsame : index = c.deliveries :=
          index_unique (by omega) (by omega) (hnumber'.symm.trans heq)
        omega
      case isFalse hne =>
        rw [h.early]
        constructor
        · rintro ⟨index, hmem', hle', hnumber', hpayload⟩
          have hother : index ≠ c.deliveries := by
            rintro rfl
            exact hne hnumber'
          exact ⟨index, hmem', by omega, hnumber', hpayload⟩
        · rintro ⟨index, hmem', hlt, hrest⟩
          exact ⟨index, hmem', by omega, hrest⟩
    obtain ⟨c', hdeliver, hreceived, htakes, hleft⟩ :=
      h.deliver hstate (fun last hlast ↦ h.within last hlast _ hmem) _ hearly
    rw [Finset.insert_eq_of_mem hmem] at hreceived
    refine ⟨c', ?_, hreceived, htakes, ?_⟩
    · simp only [hget]
      rw [hdeliver]
      rfl
    · rw [hleft]
      exact OrderedMap.size_erase_lt hget
  · right
    rw [if_neg hmem] at hget
    exact ⟨by simp only [hget], hmem⟩

/-- After the loop nothing that was accepted is next. -/
theorem followingLoop (h : Received peer start accepted c consumed) (hstate : c.connectedState)
    {fuel : ℕ} (hfuel : c.outOfOrder.size < fuel) :
    ∃ c', loop (fun _ ↦ Failure.outOfFuel) UtpConnection.followingRound fuel c = .ok c' ∧
      Received peer start accepted c' consumed ∧ Takes c c' ∧ c'.deliveries ∉ accepted := by
  induction fuel generalizing c with
  | zero => omega
  | succ fuel ih =>
    rcases h.followingRound hstate with ⟨mid, hround, hmid, htakes, hsize⟩ | ⟨hround, hnext⟩
    · obtain ⟨last, hloop, hlast, htakes', hnext⟩ :=
        ih hmid (by rw [htakes.connected]; exact hstate) (by omega)
      exact ⟨last, by rw [loop_next hround, hloop], hlast, htakes.trans htakes', hnext⟩
    · exact ⟨c, loop_break hround, h, ⟨rfl, rfl, rfl, id⟩, hnext⟩

/-- A packet that arrives early is stored. -/
theorem store (h : Received peer start accepted c consumed) {index : ℕ}
    (hlt : c.deliveries < index) (hnear : index ≤ c.deliveries + 32766)
    (hwithin : ∀ last ∈ peer.fin, index ≤ last) (hstate : c.connectedState) :
    Received peer start (insert index accepted)
      { c with
        outOfOrder := c.outOfOrder.insert ((start + index) % (sequenceMask + 1)) (peer.data index) }
      consumed := by
  refine ⟨h.stream, ?_, h.ack, ?_, ?_, ?_, h.eof, ?_⟩
  · intro index' hindex'
    exact Finset.mem_insert_of_mem (h.below index' hindex')
  · intro seqNr payload
    simp only [OrderedMap.get?_insert]
    split
    case isTrue heq =>
      constructor
      · intro hpayload
        exact ⟨index, Finset.mem_insert_self _ _, hlt.le, heq, (Option.some.inj hpayload).symm⟩
      · rintro ⟨index', hmem, hle', hnumber', rfl⟩
        have hnear' : index' ≤ c.deliveries + 32766 := by
          rcases Finset.mem_insert.mp hmem with rfl | hmem
          · exact hnear
          · exact h.near index' hmem
        have hsame : index = index' :=
          index_unique (by omega) (by omega) (heq.symm.trans hnumber')
        rw [hsame]
    case isFalse hne =>
      rw [h.early]
      constructor
      · rintro ⟨index', hmem, hrest⟩
        exact ⟨index', Finset.mem_insert_of_mem hmem, hrest⟩
      · rintro ⟨index', hmem, hle', hnumber', hpayload⟩
        rcases Finset.mem_insert.mp hmem with rfl | hmem
        · exact absurd hnumber' hne
        · exact ⟨index', hmem, hle', hnumber', hpayload⟩
  · intro index' hmem
    rcases Finset.mem_insert.mp hmem with rfl | hmem
    · exact hnear
    · exact h.near index' hmem
  · intro last hlast index' hmem
    rcases Finset.mem_insert.mp hmem with rfl | hmem
    · exact hwithin last hlast
    · exact h.within last hlast index' hmem
  · intro hfalse
    simp [hstate] at hfalse

/-- What happens to an arriving packet of the peer: it is delivered with those that follow it, or
stored, or it is known already, or there is no room for it. -/
theorem dataReceived (h : Received peer start accepted c consumed) (hstate : c.connectedState)
    (hnext : c.deliveries ∉ accepted) {index : ℕ} (hnear : index ≤ c.deliveries + 32766)
    (hlate : c.deliveries < index + 32768) (hwithin : ∀ last ∈ peer.fin, index ≤ last) :
    ∃ accepted' c', c.dataReceived ((start + index) % (sequenceMask + 1)) (peer.data index) = .ok c' ∧
      Received peer start accepted' c' consumed ∧ Takes c c' ∧ c'.deliveries ∉ accepted' ∧
      accepted ⊆ accepted' ∧ (c.outOfOrder.size < maxOutOfOrder → index ∈ accepted') := by
  have hfollowing := h.following hstate
  have hafter := h.sequenceAfter_iff hstate hnear hlate
  have hstored : ∃ accepted' mid,
      (if (start + index) % (sequenceMask + 1) = (c.ackNr + 1) % (sequenceMask + 1) then do
        let c ← c.deliver ((start + index) % (sequenceMask + 1)) (peer.data index)
        loop (fun _ ↦ .outOfFuel) UtpConnection.followingRound (c.outOfOrder.size + 1) c
      else if sequenceAfter ((start + index) % (sequenceMask + 1)) c.ackNr ∧
          c.outOfOrder.size < maxOutOfOrder then
        .ok { c with outOfOrder :=
          c.outOfOrder.insert ((start + index) % (sequenceMask + 1)) (peer.data index) }
      else .ok c) = Except.ok mid ∧
      Received peer start accepted' mid consumed ∧ Takes c mid ∧ mid.deliveries ∉ accepted' ∧
      accepted ⊆ accepted' ∧ (c.outOfOrder.size < maxOutOfOrder → index ∈ accepted') := by
    split
    case isTrue heq =>
      obtain rfl : index = c.deliveries :=
        index_unique (by omega) (by omega) (heq.trans hfollowing)
      have hearly : ∀ seqNr payload, c.outOfOrder.get? seqNr = some payload ↔ ∃ index ∈ accepted,
          c.deliveries + 1 ≤ index ∧ seqNr = (start + index) % (sequenceMask + 1) ∧
            payload = peer.data index := by
        intro seqNr payload
        rw [h.early]
        constructor
        · rintro ⟨index, hmem, hle, hrest⟩
          have hother : index ≠ c.deliveries := by
            rintro rfl
            exact hnext hmem
          exact ⟨index, hmem, by omega, hrest⟩
        · rintro ⟨index, hmem, hlt, hrest⟩
          exact ⟨index, hmem, by omega, hrest⟩
      obtain ⟨mid, hdeliver, hmid, htakes, hleft⟩ := h.deliver hstate hwithin c.outOfOrder hearly
      obtain ⟨last, hloop, hlast, htakes', hlastNext⟩ := hmid.followingLoop
        (by rw [htakes.connected]; exact hstate) (Nat.lt_succ_self mid.outOfOrder.size)
      rw [heq, hdeliver, ok_bind, hloop]
      exact ⟨_, last, rfl, hlast, htakes.trans htakes', hlastNext, Finset.subset_insert _ _,
        fun _ ↦ Finset.mem_insert_self _ _⟩
    case isFalse hne =>
      have hother : index ≠ c.deliveries := by
        rintro rfl
        exact hne hfollowing.symm
      split
      case isTrue hstore =>
        have hlt : c.deliveries < index := lt_of_le_of_ne (hafter.mp hstore.1) (Ne.symm hother)
        refine ⟨_, _, rfl, h.store hlt hnear hwithin hstate, ⟨rfl, rfl, rfl, ?_⟩, ?_,
          Finset.subset_insert _ _, fun _ ↦ Finset.mem_insert_self _ _⟩
        · exact fun h ↦ ⟨h.ids, h.scheduled, h.resent⟩
        · intro hmem
          exact hnext (Finset.mem_of_mem_insert_of_ne hmem (Ne.symm hother))
      case isFalse hdropped =>
        refine ⟨accepted, c, rfl, h, ⟨rfl, rfl, rfl, id⟩, hnext, Finset.Subset.refl _, fun hroom ↦ ?_⟩
        have hbefore : index < c.deliveries := by
          by_contra hge
          exact hdropped ⟨hafter.mpr (not_lt.mp hge), hroom⟩
        exact h.below index hbefore
  obtain ⟨accepted', mid, hmid, hreceived, htakes, hmidNext, hsubset, hroom⟩ := hstored
  have hmidState : mid.connectedState := by
    rw [htakes.connected]
    exact hstate
  have hnone := hreceived.get_following hmidState
  rw [if_neg hmidNext] at hnone
  have hscheduled : mid.Sends { mid with ackScheduled := true } :=
    .quiet rfl rfl fun h ↦ ⟨h.ids, fun _ ↦ hmidState, h.resent⟩
  rw [UtpConnection.dataReceived, assert_true (Nat.lt_succ_iff.mp (Nat.mod_lt _ (by decide))), ok_bind]
  simp only
  rw [hmid, ok_bind, UtpConnection.scheduleAck, assert_true hmidState, ok_bind]
  refine ⟨accepted', _, ?_, hreceived.of_sends hscheduled,
    htakes.trans ⟨rfl, rfl, rfl, hscheduled.healthy⟩, hmidNext, hsubset, hroom⟩
  rw [pure_bind, assert_true hnone, ok_bind]
  rfl

/-- The end of the stream is known from the packet that ends it, even one that arrives early. -/
theorem finish (h : Received peer start accepted c consumed) (hstate : c.connectedState) {last : ℕ}
    (hlast : peer.fin = some last) (hnear : last ≤ c.deliveries + 32766) :
    Received peer start accepted
      { c with eofSeq := some ((start + last) % (sequenceMask + 1)) } consumed := by
  refine ⟨h.stream, h.below, h.ack, h.early, h.near, h.within, ?_, ?_⟩
  · intro seqNr hseq
    exact ⟨last, hlast, (Option.some.inj hseq).symm, hnear⟩
  · intro hfalse
    simp [hstate] at hfalse

/-- A packet of the peer arrives. -/
theorem packet (h : Received peer start accepted c consumed) (hhealthy : c.Healthy)
    (hstate : c.connectedState) (hopen : c.closed = false) (hnext : c.deliveries ∉ accepted)
    (now : ℚ) {index : ℕ} {header : UtpPacket} (hack : header.ackNr ≤ sequenceMask)
    (hnear : index ≤ c.deliveries + 32766) (hlate : c.deliveries < index + 32768)
    (hwithin : ∀ last ∈ peer.fin, index ≤ last) :
    ∃ accepted' c', c.packetReceived now (peer.packet start index header) = .ok c' ∧
      Received peer start accepted' c' consumed ∧ c'.Healthy ∧ c'.sent = c.sent ∧
      c'.error = c.error ∧ c'.deliveries ∉ accepted' ∧ accepted ⊆ accepted' ∧
      (c.outOfOrder.size < maxOutOfOrder → index ∈ accepted') := by
  have hkind : (peer.packet start index header).packetType ≠ stReset := by
    simp only [UtpPeer.packet]
    split
    · exact show stFin ≠ stReset by decide
    · exact show stData ≠ stReset by decide
  obtain ⟨stamped, hstamp, hstampSent, hstampError, hstep⟩ :=
    UtpConnection.packetReceived_open now (peer.packet start index header) hopen
  obtain ⟨mid, hmid, hsends, hsent, herror⟩ :=
    UtpConnection.acknowledge_spec (c := stamped)
      (show (peer.packet start index header).ackNr ≤ _ from hack)
  have hreceived := h.of_sends (hstamp.trans hsends)
  have hlive := (hstamp.trans hsends).healthy hhealthy
  have hsame := (hstamp.trans hsends).received
  simp only [UtpConnection.received, Prod.mk.injEq] at hsame
  obtain ⟨-, hmidState, -, hmidEarly, -, hmidDeliveries⟩ := hsame
  have hstampState : stamped.connectedState = c.connectedState :=
    congrArg (fun r ↦ r.2.1) hstamp.received
  rw [← hmidDeliveries] at hnear hlate hnext
  rw [← hmidEarly]
  have hmidOn : mid.connectedState := by
    rw [hmidState]
    exact hstate
  have hstate' : ¬(stamped.connectedState = false) := by simp [hstampState, hstate]
  rw [hstep, if_neg hkind, if_neg hstate', hmid, ok_bind]
  by_cases hfin : peer.fin = some index
  · obtain ⟨accepted', c', hreceive, hafter, htakes, hnext', hsubset, hroom⟩ :=
      (hreceived.finish hmidOn hfin hnear).dataReceived hmidOn hnext hnear hlate hwithin
    have hdata : peer.data index = [] := if_pos hfin
    rw [hdata] at hreceive
    have hfinish : mid.Healthy →
        { mid with eofSeq := some ((start + index) % (sequenceMask + 1)) }.Healthy :=
      fun h ↦ ⟨h.ids, h.scheduled, h.resent⟩
    refine ⟨accepted', c', ?_, hafter, htakes.healthy (hfinish hlive),
      htakes.sent.trans (hsent.trans hstampSent), htakes.error.trans (herror.trans hstampError), hnext',
      hsubset, hroom⟩
    have hnotData : ¬((peer.packet start index header).packetType = stData) := by
      simp only [UtpPeer.packet, if_pos hfin]
      decide
    have hisFin : (peer.packet start index header).packetType = stFin := by
      simp only [UtpPeer.packet, if_pos hfin]
    have hafterState : c'.connectedState := by
      rw [htakes.connected]
      exact hmidOn
    simp only
    rw [if_neg hnotData, if_pos hisFin]
    have hnumber : (peer.packet start index header).seqNr = (start + index) % (sequenceMask + 1) := rfl
    rw [hnumber, hreceive, ok_bind, assert_true hafterState, ok_bind]
    rfl
  · obtain ⟨accepted', c', hreceive, hafter, htakes, hnext', hsubset, hroom⟩ :=
      hreceived.dataReceived hmidOn hnext hnear hlate hwithin
    have hdata : peer.data index = peer.payload index := if_neg hfin
    rw [hdata] at hreceive
    refine ⟨accepted', c', ?_, hafter, htakes.healthy hlive, htakes.sent.trans (hsent.trans hstampSent),
      htakes.error.trans (herror.trans hstampError), hnext', hsubset, hroom⟩
    have hisData : (peer.packet start index header).packetType = stData := by
      simp only [UtpPeer.packet, if_neg hfin]
    have hafterState : c'.connectedState := by
      rw [htakes.connected]
      exact hmidOn
    have hnumber : (peer.packet start index header).seqNr = (start + index) % (sequenceMask + 1) := rfl
    have hpayload : (peer.packet start index header).payload = peer.payload index := rfl
    simp only
    rw [if_pos hisData, hnumber, hpayload, hreceive, ok_bind, assert_true hafterState, ok_bind]
    rfl

/-- The packet that connects tells the number of the first packet. -/
theorem connect (h : Received peer start accepted c consumed) (hstate : c.connectedState = false) :
    Received peer start accepted { c with
      ackNr := (start + sequenceMask) % (sequenceMask + 1)
      connectedState := true } consumed := by
  obtain ⟨hzero, -, -⟩ := h.fresh hstate
  refine ⟨h.stream, h.below, ?_, h.early, h.near, h.within, h.eof, by simp⟩
  intro _
  simp only [hzero, add_zero]

/-- A packet without data arrives; the first one connects. -/
theorem state (h : Received peer start accepted c consumed) (hhealthy : c.Healthy)
    (hopen : c.closed = false) (hnext : c.deliveries ∉ accepted) (now : ℚ) {packet : UtpPacket}
    (hack : packet.ackNr ≤ sequenceMask)
    (htype : packet.packetType = stState ∨ packet.packetType = stSyn)
    (hfirst : c.connectedState = false → packet.seqNr = start) :
    ∃ c', c.packetReceived now packet = .ok c' ∧ Received peer start accepted c' consumed ∧
      c'.Healthy ∧ c'.sent = c.sent ∧ c'.error = c.error ∧ c'.deliveries ∉ accepted := by
  have hkind : packet.packetType ≠ stReset := by
    rcases htype with htype | htype <;> rw [htype] <;> decide
  obtain ⟨stamped, hstamp, hstampSent, hstampError, hstep⟩ :=
    UtpConnection.packetReceived_open now packet hopen
  have hreceived := h.of_sends hstamp
  have hlive := hstamp.healthy hhealthy
  have hsame := hstamp.received
  simp only [UtpConnection.received, Prod.mk.injEq] at hsame
  obtain ⟨-, hstampState, -, -, -, hstampDeliveries⟩ := hsame
  rw [← hstampDeliveries] at hnext
  rw [← hstampState] at hfirst
  rw [hstep, if_neg hkind]
  by_cases hstate : stamped.connectedState = false
  · rw [if_pos hstate]
    rcases htype with htype | htype
    · rw [if_neg (not_not.mpr htype), hfirst hstate]
      obtain ⟨mid, hmid, hsends, hsent, herror⟩ := UtpConnection.acknowledge_spec (c := { stamped with
        ackNr := (start + sequenceMask) % (sequenceMask + 1)
        connectedState := true }) hack
      have hlast : mid.Sends { mid with connected := some (mid.connected.getD true) } :=
        .quiet rfl rfl fun h ↦ ⟨h.ids, h.scheduled, h.resent⟩
      have hmidDeliveries : mid.deliveries = stamped.deliveries :=
        congrArg (fun r ↦ r.2.2.2.2.2) hsends.received
      rw [hmid, ok_bind]
      refine ⟨_, rfl, ((hreceived.connect hstate).of_sends hsends).of_sends hlast,
        hlast.healthy (hsends.healthy ⟨hlive.ids, fun _ ↦ rfl, hlive.resent⟩),
        hsent.trans hstampSent, herror.trans hstampError, ?_⟩
      simp only
      rw [hmidDeliveries]
      exact hnext
    · rw [if_pos (by rw [htype]; decide)]
      exact ⟨stamped, rfl, hreceived, hlive, hstampSent, hstampError, hnext⟩
  · obtain ⟨mid, hmid, hsends, hsent, herror⟩ := UtpConnection.acknowledge_spec (c := stamped) hack
    have hmidState : mid.connectedState = stamped.connectedState :=
      congrArg (fun r ↦ r.2.1) hsends.received
    have hmidDeliveries : mid.deliveries = stamped.deliveries :=
      congrArg (fun r ↦ r.2.2.2.2.2) hsends.received
    have hmidOn : mid.connectedState := by
      rw [hmidState]
      simpa using hstate
    have hnotData : packet.packetType ≠ stData := by
      rcases htype with htype | htype <;> rw [htype] <;> decide
    have hnotFin : packet.packetType ≠ stFin := by
      rcases htype with htype | htype <;> rw [htype] <;> decide
    rw [if_neg hstate, hmid, ok_bind]
    simp only
    rw [if_neg hnotData, if_neg hnotFin, ok_bind, assert_true hmidOn, ok_bind]
    refine ⟨mid, rfl, hreceived.of_sends hsends, hsends.healthy hlive, hsent.trans hstampSent,
      herror.trans hstampError, ?_⟩
    rw [hmidDeliveries]
    exact hnext

/-- What a read answers, and that it takes from the front of the buffer. -/
theorem read (h : Received peer start accepted c consumed) (hhealthy : c.Healthy)
    (hnext : c.deliveries ∉ accepted) {length : ℕ} (hlength : 0 < length) (deadlinePassed : Bool)
    (closedReason : FetchReason) :
    ∃ outcome c', c.readExactly length deadlinePassed closedReason = .ok (outcome, c') ∧
      Received peer start accepted c' (consumed ++ match outcome with
        | .data bytes => bytes
        | _ => []) ∧
      c'.Healthy ∧ c'.sent = c.sent ∧ c'.error = c.error ∧ c'.deliveries ∉ accepted ∧
      ∀ reason, outcome = .ended reason → c.error = none → c.buffer.length < length ∧
        ∃ last, peer.fin = some last ∧ c.deliveries = last + 1 := by
  rw [UtpConnection.readExactly, assert_true hlength, ok_bind]
  split
  case isTrue hshort =>
    split
    case isTrue hend =>
      refine ⟨_, c, rfl, by rw [List.append_nil]; exact h, hhealthy, rfl, rfl, hnext, ?_⟩
      intro _ _ herror
      refine ⟨hshort, ?_⟩
      rcases hend with hend | hend
      · simp [herror] at hend
      · obtain ⟨hsome, hequal⟩ := hend
        obtain ⟨seqNr, hseq⟩ := Option.isSome_iff_exists.mp hsome
        obtain ⟨last, hlast, hnumber, hnear⟩ := h.eof seqNr hseq
        refine ⟨last, hlast, ?_⟩
        have hstate : c.connectedState := by
          by_contra hoff
          have hfresh := h.fresh (by simpa using hoff)
          rw [hfresh.2.2] at hseq
          cases hseq
        have hwithin : c.deliveries ≤ last + 1 := by
          by_contra hgt
          have hover := h.within last hlast (last + 1) (h.below (last + 1) (by omega))
          omega
        rw [hseq, h.ack hstate, Option.some.injEq, hnumber] at hequal
        simp only [sequenceMask] at hequal
        omega
    case isFalse =>
      split
      · exact ⟨_, c, rfl, by rw [List.append_nil]; exact h, hhealthy, rfl, rfl, hnext, by simp⟩
      · have hquiet : c.Sends { c with readable := false } :=
          .quiet rfl rfl fun h ↦ ⟨h.ids, h.scheduled, h.resent⟩
        exact ⟨_, _, rfl, by rw [List.append_nil]; exact h.of_sends hquiet, hquiet.healthy hhealthy,
          rfl, rfl, hnext, by simp⟩
  case isFalse hlong =>
    have htake : (c.buffer.take length).length = length := by
      rw [List.length_take]
      omega
    simp only
    rw [assert_true htake, ok_bind]
    refine ⟨_, _, rfl, ⟨?_, h.below, h.ack, h.early, h.near, h.within, h.eof, h.fresh⟩,
      ⟨hhealthy.ids, hhealthy.scheduled, hhealthy.resent⟩, rfl, rfl, hnext, by simp⟩
    simp only
    rw [List.append_assoc, List.take_append_drop]
    exact h.stream

end Received

/-! ## Runs -/

namespace UtpSession

variable {peer : UtpPeer} {start : ℕ} {accepted : Finset ℕ} {s s' : UtpSession}

/-- The connection of a session to a peer is made and its SYN packet sent. -/
def connect (recvId : ℕ) (now : ℚ) : Except Failure UtpSession := do
  let c ← UtpConnection.create recvId
  let c ← c.sendSyn now
  return { connection := c, consumed := [] }

/-- A session between two steps. -/
structure InOrder (peer : UtpPeer) (start : ℕ) (accepted : Finset ℕ) (s : UtpSession) : Prop where
  healthy : s.connection.Healthy
  received : Received peer start accepted s.connection s.consumed
  next : s.connection.deliveries ∉ accepted

/-- The acknowledgements that are sent between two states name the last packet delivered in the
first. -/
def Acknowledges (start : ℕ) (s s' : UtpSession) : Prop :=
  ∃ packets, s'.connection.sent = s.connection.sent ++ packets ∧ ∀ bytes ∈ packets, ∀ packet,
    decodeUtpPacket bytes = some packet → packet.packetType = stState →
      packet.ackNr = (start + s.connection.deliveries + sequenceMask) % (sequenceMask + 1)

/-- Packet `index` has arrived while there was room for early packets. -/
def Arrived (peer : UtpPeer) (start : ℕ) (s₀ : UtpSession) (past : List (ℚ × UtpEvent)) (index : ℕ) :
    Prop :=
  ∃ before now header after mid, past = before ++ (now, .packet index header) :: after ∧
    (machine peer start).run s₀ before = some mid ∧ mid.connection.outOfOrder.size < maxOutOfOrder

theorem connect_spec {recvId : ℕ} (now : ℚ) (hid : recvId ≤ sequenceMask) :
    ∃ s, connect recvId now = .ok s ∧ s.InOrder peer start ∅ ∧ s.connection.error = none := by
  have hcreated : ({ recvId := recvId, sendId := (recvId + 1) % (sequenceMask + 1) } :
      UtpConnection).Healthy :=
    ⟨⟨hid, Nat.lt_succ_iff.mp (Nat.mod_lt _ (by decide))⟩, by simp, by simp [OrderedMap.empty]⟩
  obtain ⟨mid, hmid, hsends, -, herror, hsize⟩ := UtpConnection.sendUnacked_spec now [] hcreated rfl
    (show stSyn ≤ stSyn by decide) (by decide)
  obtain ⟨last, hlast, hsends', -, herror', hunacked⟩ := UtpConnection.armResend_spec hsize
  have hfresh : Received peer start ∅
      { recvId := recvId, sendId := (recvId + 1) % (sequenceMask + 1) } [] := by
    refine ⟨rfl, by simp, by simp, by simp, by simp, by simp, by simp, fun _ ↦ ⟨rfl, rfl, rfl⟩⟩
  have hreceived := hfresh.of_sends (hsends.trans hsends')
  rw [connect, UtpConnection.create, assert_true hid, ok_bind, pure_bind, UtpConnection.sendSyn,
    assert_true rfl, ok_bind, hmid, ok_bind, hlast, ok_bind, assert_true (hunacked ▸ hsize), ok_bind]
  exact ⟨_, rfl, ⟨hsends'.healthy (hsends.healthy hcreated), hreceived, by simp⟩,
    herror'.trans herror⟩

/-- Sending leaves a session in order. -/
theorem InOrder.of_sends (h : s.InOrder peer start accepted) {c : UtpConnection}
    (hsends : s.connection.Sends c) :
    { s with connection := c }.InOrder peer start accepted ∧
      Acknowledges start s { s with connection := c } := by
  have hdeliveries : c.deliveries = s.connection.deliveries :=
    congrArg (fun r ↦ r.2.2.2.2.2) hsends.received
  refine ⟨⟨hsends.healthy h.healthy, h.received.of_sends hsends, ?_⟩, ?_⟩
  · simp only
    rw [hdeliveries]
    exact h.next
  · obtain ⟨packets, hsent, hacks⟩ := hsends.sent
    refine ⟨packets, hsent, fun bytes hmem packet hdecode hstate ↦ ?_⟩
    obtain ⟨hon, hack⟩ := hacks bytes hmem packet hdecode hstate
    rw [hack, h.received.ack hon, Nat.mod_mod]

theorem Acknowledges.of_sent (hsent : s'.connection.sent = s.connection.sent) :
    Acknowledges start s s' :=
  ⟨[], by rw [hsent, List.append_nil], by simp⟩

/-- Every step that can happen is taken and keeps the session in order. -/
theorem step_spec (h : s.InOrder peer start accepted) {label : ℚ × UtpEvent}
    (hallowed : Allowed peer start s label) :
    ∃ accepted' s', s.step peer start label.1 label.2 = .ok s' ∧ s'.InOrder peer start accepted' ∧
      accepted ⊆ accepted' ∧ Acknowledges start s s' ∧
      (∀ index header, label.2 = .packet index header →
        s.connection.outOfOrder.size < maxOutOfOrder → index ∈ accepted') ∧
      (¬Fails s label → s'.connection.error = s.connection.error) := by
  obtain ⟨now, event⟩ := label
  cases event with
  | packet index header =>
    obtain ⟨hopen, hstate, hack, hnear, hlate, hwithin⟩ := hallowed
    obtain ⟨accepted', c', hstep, hreceived, hlive, hsent, herror, hnext, hsubset, hroom⟩ :=
      h.received.packet h.healthy hstate hopen h.next now hack hnear hlate hwithin
    refine ⟨accepted', { s with connection := c' }, by rw [step, hstep, ok_bind]; rfl,
      ⟨hlive, hreceived, hnext⟩, hsubset, .of_sent hsent, ?_, fun _ ↦ herror⟩
    intro index' header' heq
    cases heq
    exact hroom
  | state packet =>
    obtain ⟨hopen, hack, htype, hfirst⟩ := hallowed
    obtain ⟨c', hstep, hreceived, hlive, hsent, herror, hnext⟩ :=
      h.received.state h.healthy hopen h.next now hack htype hfirst
    exact ⟨accepted, { s with connection := c' }, by rw [step, hstep, ok_bind]; rfl,
      ⟨hlive, hreceived, hnext⟩, Finset.Subset.refl _, .of_sent hsent, by simp, fun _ ↦ herror⟩
  | reset packet =>
    obtain ⟨hopen, htype⟩ := hallowed
    obtain ⟨stamped, hstamp, -, -, hstep⟩ := UtpConnection.packetReceived_open now packet hopen
    obtain ⟨c', hfail, hsends, -⟩ :=
      UtpConnection.fail_spec now (hstamp.healthy h.healthy) (show FetchReason.closed ∈ _ by simp)
    rw [if_pos htype, hfail] at hstep
    obtain ⟨hlast, hacks⟩ := h.of_sends (hstamp.trans hsends)
    exact ⟨accepted, { s with connection := c' }, by rw [step, hstep, ok_bind]; rfl, hlast,
      Finset.Subset.refl _, hacks, by simp, fun hfails ↦ absurd trivial hfails⟩
  | sendAck =>
    obtain ⟨c', hstep, hsends, herror⟩ :=
      UtpConnection.sendAck_spec now h.healthy (h.healthy.scheduled hallowed)
    obtain ⟨hlast, hacks⟩ := h.of_sends hsends
    exact ⟨accepted, { s with connection := c' }, by rw [step, hstep, ok_bind]; rfl, hlast,
      Finset.Subset.refl _, hacks, by simp, fun _ ↦ herror⟩
  | checkResend =>
    obtain ⟨c', hstep, hsends, herror⟩ := UtpConnection.checkResend_spec now h.healthy
    obtain ⟨hlast, hacks⟩ := h.of_sends hsends
    exact ⟨accepted, { s with connection := c' }, by rw [step, hstep, ok_bind]; rfl, hlast,
      Finset.Subset.refl _, hacks, by simp, fun hfails ↦ herror.resolve_right hfails⟩
  | write data =>
    obtain ⟨c', hstep, hsends, herror⟩ := UtpConnection.write_spec now h.healthy hallowed.2
    obtain ⟨hlast, hacks⟩ := h.of_sends hsends
    exact ⟨accepted, { s with connection := c' }, by rw [step, hstep, ok_bind]; rfl, hlast,
      Finset.Subset.refl _, hacks, by simp, fun _ ↦ herror⟩
  | read length deadlinePassed closedReason =>
    obtain ⟨outcome, c', hstep, hreceived, hlive, hsent, herror, hnext, -⟩ :=
      h.received.read h.healthy h.next hallowed deadlinePassed closedReason
    exact ⟨accepted, ⟨c', _⟩, by rw [step, hstep, ok_bind]; rfl, ⟨hlive, hreceived, hnext⟩,
      Finset.Subset.refl _, .of_sent hsent, by simp, fun _ ↦ herror⟩
  | close sendReset =>
    obtain ⟨c', hstep, hsends, herror, -⟩ := UtpConnection.close_spec now sendReset h.healthy
    obtain ⟨hlast, hacks⟩ := h.of_sends hsends
    exact ⟨accepted, { s with connection := c' }, by rw [step, hstep, ok_bind]; rfl, hlast,
      Finset.Subset.refl _, hacks, by simp, fun _ ↦ herror⟩

/-- What a run has come to: every packet that arrived in room was accepted. -/
def Reached (peer : UtpPeer) (start : ℕ) (s₀ : UtpSession) (past : List (ℚ × UtpEvent))
    (s : UtpSession) : Prop :=
  (machine peer start).run s₀ past = some s ∧ ∃ accepted, s.InOrder peer start accepted ∧
    ∀ index, Arrived peer start s₀ past index → index ∈ accepted

theorem machine_step {label : ℚ × UtpEvent} :
    (machine peer start).step s label = some s' ↔ s.step peer start label.1 label.2 = .ok s' := by
  simp only [machine]
  cases s.step peer start label.1 label.2 with
  | error e => simp [Except.toOption]
  | ok value => simp [Except.toOption]

theorem Reached.step {s₀ : UtpSession} {past : List (ℚ × UtpEvent)} {label : ℚ × UtpEvent}
    (h : Reached peer start s₀ past s) (hallowed : Allowed peer start s label)
    (hstep : (machine peer start).step s label = some s') :
    Reached peer start s₀ (past ++ [label]) s' := by
  obtain ⟨hrun, accepted, horder, harrived⟩ := h
  obtain ⟨accepted', next, hnext, horder', hsubset, -, hroom, -⟩ := step_spec horder hallowed
  obtain rfl : next = s' := by
    rw [machine_step, hnext] at hstep
    exact Except.ok.inj hstep
  refine ⟨?_, accepted', horder', ?_⟩
  · rw [Machine.run_append, hrun, Option.bind_some]
    exact Machine.run_cons_eq_some _ |>.mpr ⟨next, hstep, rfl⟩
  · rintro index ⟨before, now, header, after, mid, hpast, hbefore, hsize⟩
    rcases List.eq_nil_or_concat after with rfl | ⟨rest, last, rfl⟩
    · obtain ⟨rfl, hlabel⟩ := List.append_inj' hpast rfl
      rw [hrun] at hbefore
      cases hbefore
      cases hlabel
      exact hroom index header rfl hsize
    · apply hsubset
      apply harrived
      rw [List.concat_eq_append, ← List.cons_append, ← List.append_assoc] at hpast
      exact ⟨before, now, header, rest, mid, (List.append_inj' hpast rfl).1, hbefore, hsize⟩

/-- A uTP connection delivers a prefix of the stream of its peer, in order and once, whatever happens
to the packets on the way, and the stream ends for a reader only where the peer ended it. -/
theorem utp_delivers_in_order (peer : UtpPeer) (start recvId : ℕ) (now : ℚ)
    (hid : recvId ≤ sequenceMask) :
    ∃ s₀, connect recvId now = .ok s₀ ∧
      ∀ events, (machine peer start).Along (Allowed peer start) s₀ events →
        ∃ s, (machine peer start).run s₀ events = some s ∧
          s.consumed ++ s.connection.buffer =
            (List.range s.connection.deliveries).flatMap peer.data ∧
          (s.connection.connectedState → s.connection.ackNr =
            (start + s.connection.deliveries + sequenceMask) % (sequenceMask + 1)) ∧
          (∀ label, Allowed peer start s label →
            ∃ s', s.step peer start label.1 label.2 = .ok s' ∧ Acknowledges start s s') ∧
          (∀ m, (∀ index < m, Arrived peer start s₀ events index) → m ≤ s.connection.deliveries) ∧
          ((machine peer start).Along (fun s label ↦ ¬Fails s label) s₀ events →
            ∀ length deadlinePassed closedReason reason c, 0 < length →
              s.connection.readExactly length deadlinePassed closedReason = .ok (.ended reason, c) →
                s.connection.buffer.length < length ∧
                  ∃ last, peer.fin = some last ∧ s.connection.deliveries = last + 1) := by
  obtain ⟨s₀, hconnect, horder₀, herror₀⟩ : ∃ s₀, connect recvId now = .ok s₀ ∧
      s₀.InOrder peer start ∅ ∧ s₀.connection.error = none := connect_spec now hid
  refine ⟨s₀, hconnect, fun events hguard ↦ ?_⟩
  have htotal : ∀ s label, (∃ accepted, s.InOrder peer start accepted) → Allowed peer start s label →
      ∃ s', (machine peer start).step s label = some s' ∧
        ∃ accepted, s'.InOrder peer start accepted := by
    rintro s label ⟨accepted, horder⟩ hallowed
    obtain ⟨accepted', s', hstep, horder', -⟩ := step_spec horder hallowed
    exact ⟨s', machine_step.mpr hstep, accepted', horder'⟩
  obtain ⟨s, hrun⟩ := Machine.run_total _ htotal ⟨∅, horder₀⟩ hguard
  have hreached : Reached peer start s₀ ([] ++ events) s :=
    Machine.run_history_invariant _ (fun past s label s' h hallowed hstep ↦ h.step hallowed hstep) []
      ⟨rfl, ∅, horder₀, by rintro index ⟨before, now, header, after, mid, hpast, -⟩; simp at hpast⟩
      hguard hrun
  obtain ⟨-, accepted, horder, harrived⟩ := hreached
  refine ⟨s, hrun, horder.received.stream, horder.received.ack, ?_, ?_, ?_⟩
  · intro label hallowed
    obtain ⟨-, s', hstep, -, -, hacks, -⟩ := step_spec horder hallowed
    exact ⟨s', hstep, hacks⟩
  · intro m hall
    by_contra hlt
    exact horder.next (harrived _ (hall _ (not_le.mp hlt)))
  · intro hfails length deadlinePassed closedReason reason c hlength hread
    have herror : s.connection.error = none := by
      have hkept := Machine.run_guarded_invariant (machine peer start)
        (G := fun s label ↦ Allowed peer start s label ∧ ¬Fails s label)
        (I := fun s ↦ (∃ accepted, s.InOrder peer start accepted) ∧ s.connection.error = none)
        (fun s label s' h hguard hstep ↦ ?_) ⟨⟨∅, horder₀⟩, herror₀⟩ (hguard.and hfails) hrun
      · exact hkept.2
      · obtain ⟨⟨accepted, horder⟩, herror⟩ := h
        obtain ⟨accepted', next, hnext, horder', -, -, -, hkeeps⟩ := step_spec horder hguard.1
        rw [machine_step, hnext] at hstep
        cases hstep
        exact ⟨⟨accepted', horder'⟩, (hkeeps hguard.2).trans herror⟩
    obtain ⟨outcome, c', hanswer, -, -, -, -, -, hended⟩ :=
      horder.received.read horder.healthy horder.next hlength deadlinePassed closedReason
    rw [hread, Except.ok.injEq, Prod.mk.injEq] at hanswer
    exact hended reason hanswer.1.symm herror

instance decidableAllowed (peer : UtpPeer) (start : ℕ) (s : UtpSession) :
    ∀ label, Decidable (Allowed peer start s label)
  | (_, .packet index header) => inferInstanceAs (Decidable (s.connection.closed = false ∧
      s.connection.connectedState ∧ header.ackNr ≤ sequenceMask ∧
      index ≤ s.connection.deliveries + 32766 ∧ s.connection.deliveries < index + 32768 ∧
      ∀ last ∈ peer.fin, index ≤ last))
  | (_, .state packet) => inferInstanceAs (Decidable (s.connection.closed = false ∧
      packet.ackNr ≤ sequenceMask ∧ (packet.packetType = stState ∨ packet.packetType = stSyn) ∧
      (s.connection.connectedState = false → packet.seqNr = start)))
  | (_, .reset packet) => inferInstanceAs (Decidable (s.connection.closed = false ∧
      packet.packetType = stReset))
  | (_, .sendAck) => inferInstanceAs (Decidable (s.connection.ackScheduled = true))
  | (_, .checkResend) => inferInstanceAs (Decidable (s.connection.resendTimer = true))
  | (_, .write data) => inferInstanceAs (Decidable (s.connection.connectedState ∧ data ≠ []))
  | (_, .read length _ _) => inferInstanceAs (Decidable (0 < length))
  | (_, .close _) => isTrue trivial

def samplePeer : UtpPeer where
  payload index := [UInt8.ofNat index, 7]
  fin := some 2

def sampleHeader (packetType seqNr : ℕ) : UtpPacket where
  packetType := packetType
  connectionId := 7
  timestamp := 0
  timestampDifference := 0
  window := 0
  seqNr := seqNr
  ackNr := 1
  payload := []

/-- The numbers wrap after the first packet, which arrives last; one packet arrives twice. -/
def wrappedArrivals : List (ℚ × UtpEvent) :=
  [(1, .state (sampleHeader stState 65535)), (2, .packet 1 (sampleHeader stData 0)), (2, .sendAck),
    (3, .packet 2 (sampleHeader stData 0)), (4, .packet 1 (sampleHeader stData 0)),
    (5, .packet 0 (sampleHeader stData 0)), (6, .read 3 false .closed)]

theorem utp_delivers_in_order_wrapped : ∃ s₀ s, connect 7 0 = .ok s₀ ∧
    (machine samplePeer 65535).run s₀ wrappedArrivals = some s ∧ s.connection.deliveries = 3 ∧
    s.consumed ++ s.connection.buffer =
      (List.range s.connection.deliveries).flatMap samplePeer.data := by
  obtain ⟨s₀, hconnect, hruns⟩ := utp_delivers_in_order samplePeer 65535 7 0 (by decide)
  have hsample : ∀ s ∈ (connect 7 0).toOption,
      (machine samplePeer 65535).Along (Allowed samplePeer 65535) s wrappedArrivals ∧
        ((machine samplePeer 65535).run s wrappedArrivals).map (fun s ↦ s.connection.deliveries) =
          some 3 := by
    decide +kernel
  obtain ⟨hallowed, hthree⟩ := hsample s₀ (by rw [hconnect]; rfl)
  obtain ⟨s, hrun, hstream, -⟩ := hruns wrappedArrivals hallowed
  rw [hrun, Option.map_some, Option.some.injEq] at hthree
  exact ⟨s₀, s, hconnect, hrun, hthree, hstream⟩

end UtpSession

end DhtScraper
