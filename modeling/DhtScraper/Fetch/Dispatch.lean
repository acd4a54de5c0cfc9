import DhtScraper.Fetch.UtpSocket

/-!
# Dispatching packets to connections

The table of the socket holds exactly the open connections, no datagram makes an assertion fail, and
every connection behaves as it would with a socket of its own that only gets the packets which its
peer sends with its id.
-/

namespace DhtScraper

open Library

namespace UtpConnection

variable {c c' c'' : UtpConnection}

/-! ## What no call changes -/

/-- The id stays, what is closed stays closed, and what was sent stays sent. -/
structure Keeps (c c' : UtpConnection) : Prop where
  recvId : c'.recvId = c.recvId
  closed : c.closed → c'.closed
  sent : c.sent.length ≤ c'.sent.length

theorem Keeps.trans (h : Keeps c c') (h' : Keeps c' c'') : Keeps c c'' :=
  ⟨h'.recvId.trans h.recvId, h'.closed ∘ h.closed, h.sent.trans h'.sent⟩

theorem ends_assert (p : Prop) [Decidable p] : Ends (assert p) (fun _ ↦ p) (fun _ ↦ True) := by
  by_cases h : p
  · rw [assert_true h]
    exact h
  · rw [assert, if_neg h]
    trivial

theorem keeps_sendPacket (c : UtpConnection) (now : ℚ) (packetType seqNr : ℕ) (payload : Bytes) :
    Ends (c.sendPacket now packetType seqNr payload) (fun sent ↦ Keeps c sent.2) fun _ ↦ True := by
  refine (ends_assert _).bind fun _ _ ↦ ?_
  cases encodeUtpPacket _ with
  | error e => trivial
  | ok packet => exact (ends_assert _).bind fun _ _ ↦ ⟨rfl, id, by simp⟩

theorem keeps_armResend (c : UtpConnection) : Ends c.armResend (Keeps c) fun _ ↦ True := by
  refine (ends_assert _).bind fun _ _ ↦ ?_
  split <;> exact ⟨rfl, id, le_rfl⟩

theorem keeps_sendUnacked (c : UtpConnection) (now : ℚ) (packetType : ℕ) (payload : Bytes) :
    Ends (c.sendUnacked now packetType payload) (Keeps c) fun _ ↦ True :=
  (c.keeps_sendPacket now packetType c.seqNr payload).bind fun _ hsent ↦ hsent.trans ⟨rfl, id, le_rfl⟩

theorem keeps_sendChunks (now : ℚ) (pieces : List Bytes) : ∀ c : UtpConnection,
    Ends (sendChunks now pieces c) (Keeps c) fun _ ↦ True := by
  induction pieces with
  | nil => exact fun c ↦ ⟨rfl, id, le_rfl⟩
  | cons chunk rest ih =>
    intro c
    refine (c.keeps_sendUnacked now stData chunk).bind fun mid hmid ↦ ?_
    exact (ih mid).mono (fun _ hrest ↦ hmid.trans hrest) fun _ h ↦ h

theorem keeps_write (c : UtpConnection) (now : ℚ) (data : Bytes) :
    Ends (c.write now data) (Keeps c) fun _ ↦ True := by
  refine (ends_assert _).bind fun _ _ ↦ ?_
  split
  · exact ⟨rfl, id, le_rfl⟩
  · refine (keeps_sendChunks now (chunks data) c).bind fun mid hmid ↦ ?_
    refine mid.keeps_armResend.bind fun last hlast ↦ ?_
    exact (ends_assert _).bind fun _ _ ↦ hmid.trans hlast

theorem keeps_acknowledge (c : UtpConnection) (ackNr : ℕ) :
    Ends (c.acknowledge ackNr) (Keeps c) fun _ ↦ True :=
  (ends_assert _).bind fun _ _ ↦ (ends_assert _).bind fun _ _ ↦ ⟨rfl, id, le_rfl⟩

theorem keeps_close (c : UtpConnection) (now : ℚ) (sendReset : Bool) :
    Ends (c.close now sendReset) (Keeps c) fun _ ↦ True := by
  unfold close
  split
  · exact ⟨rfl, id, le_rfl⟩
  · refine Ends.bind (Q := Keeps c) ?_ fun mid hmid ↦ ⟨hmid.recvId, fun _ ↦ rfl, hmid.sent⟩
    split
    · refine (c.keeps_sendPacket now stState c.seqNr []).bind fun first hfirst ↦ ?_
      refine (first.2.keeps_sendPacket now stReset first.2.seqNr []).bind fun second hsecond ↦ ?_
      exact hfirst.trans hsecond
    · exact ⟨rfl, id, le_rfl⟩

theorem keeps_fail (c : UtpConnection) (now : ℚ) (reason : FetchReason) :
    Ends (c.fail now reason) (Keeps c) fun _ ↦ True := by
  refine (ends_assert _).bind fun _ _ ↦ ?_
  refine (keeps_close _ now false).bind fun last hlast ↦ ?_
  exact (ends_assert _).bind fun _ _ ↦ ⟨hlast.recvId, hlast.closed, hlast.sent⟩

theorem keeps_sendAck (c : UtpConnection) (now : ℚ) :
    Ends (c.sendAck now) (Keeps c) fun _ ↦ True := by
  unfold sendAck
  dsimp only
  split
  · exact ⟨rfl, id, le_rfl⟩
  · refine (keeps_sendPacket _ now stState _ []).bind fun _ hsent ↦ ?_
    exact ⟨hsent.recvId, hsent.closed, hsent.sent⟩

theorem keeps_resendEntries (now : ℚ) (items : List (ℕ × Unacked)) : ∀ c : UtpConnection,
    Ends (resendEntries now items c) (fun result ↦ Keeps c result.1) fun _ ↦ True := by
  induction items with
  | nil => exact fun c ↦ ⟨rfl, id, le_rfl⟩
  | cons item rest ih =>
    intro c
    obtain ⟨seqNr, entry⟩ := item
    unfold resendEntries
    split
    · exact ih c
    · split
      · exact (c.keeps_fail now _).bind fun _ hfail ↦ hfail
      · refine (ih _).mono (fun _ hrest ↦ ⟨hrest.recvId, hrest.closed, ?_⟩) fun _ h ↦ h
        exact le_trans (by simp) hrest.sent

theorem keeps_checkResend (c : UtpConnection) (now : ℚ) :
    Ends (c.checkResend now) (Keeps c) fun _ ↦ True := by
  unfold checkResend
  dsimp only
  split
  · exact ⟨rfl, id, le_rfl⟩
  · refine (keeps_resendEntries now c.unacked.items _).bind fun result hresult ↦ ?_
    have hmid : Keeps c result.1 := ⟨hresult.recvId, hresult.closed, hresult.sent⟩
    split
    · exact hmid
    · refine Ends.bind (Q := Keeps c) ?_ fun last hlast ↦ (ends_assert _).bind fun _ _ ↦ hlast
      split
      · exact result.1.keeps_armResend.mono (fun _ harmed ↦ hmid.trans harmed) fun _ h ↦ h
      · exact hmid

/-! ## Any packet can come -/

/-- The state of a connection between two calls, whatever packets came. -/
structure Robust (c : UtpConnection) : Prop where
  healthy : c.Healthy
  next : c.outOfOrder.get? ((c.ackNr + 1) % (sequenceMask + 1)) = none
  idle : c.connectedState = false → ∀ seqNr, c.outOfOrder.get? seqNr = none

theorem Robust.of_sends (h : c.Robust) (hsends : c.Sends c') : c'.Robust := by
  have hsame := hsends.received
  simp only [received, Prod.mk.injEq] at hsame
  obtain ⟨hack, hstate, -, hearly, -⟩ := hsame
  refine ⟨hsends.healthy h.healthy, ?_, ?_⟩
  · rw [hearly, hack]
    exact h.next
  · rw [hearly, hstate]
    exact h.idle

/-- A round of the loop over the early packets shortens the map of them. -/
theorem followingRound_ends (hhealthy : c.Healthy) (hstate : c.connectedState) :
    Ends c.followingRound (Sum.elim
      (fun next ↦ (next.Healthy ∧ next.connectedState ∧ Keeps c next) ∧
        next.outOfOrder.size < c.outOfOrder.size)
      fun last ↦ last = c ∧ c.outOfOrder.get? ((c.ackNr + 1) % (sequenceMask + 1)) = none)
      fun _ ↦ False := by
  unfold followingRound
  dsimp only
  split
  next hnone => exact ⟨rfl, hnone⟩
  next payload hget =>
    unfold deliver
    rw [assert_true (by rfl)]
    exact ⟨⟨⟨hhealthy.ids, hhealthy.scheduled, hhealthy.resent⟩, hstate, ⟨rfl, id, le_rfl⟩⟩,
      OrderedMap.size_erase_lt hget⟩

theorem dataReceived_ends (h : c.Robust) (hstate : c.connectedState) {seqNr : ℕ}
    (hseq : seqNr ≤ sequenceMask) (payload : Bytes) :
    Ends (c.dataReceived seqNr payload) (fun c' ↦ c'.Robust ∧ c'.connectedState ∧ Keeps c c')
      fun _ ↦ False := by
  unfold dataReceived
  rw [assert_true hseq, ok_bind]
  refine Ends.bind (Q := fun mid ↦ mid.Healthy ∧ mid.connectedState ∧ Keeps c mid ∧
    mid.outOfOrder.get? ((mid.ackNr + 1) % (sequenceMask + 1)) = none) ?_ fun mid hmid ↦ ?_
  · split
    next heq =>
      unfold deliver
      rw [assert_true heq]
      refine loop_ends (I := fun mid : UtpConnection ↦ mid.Healthy ∧ mid.connectedState ∧ Keeps c mid)
        (fun mid ↦ mid.outOfOrder.size) (fun mid hmid ↦ ?_) ?_ (Nat.lt_succ_self _)
      · refine (followingRound_ends hmid.1 hmid.2.1).mono (fun result hresult ↦ ?_) fun _ h ↦ h
        cases result with
        | inl next =>
          obtain ⟨⟨hhealthy, hon, hkeeps⟩, hless⟩ := hresult
          exact ⟨⟨hhealthy, hon, hmid.2.2.trans hkeeps⟩, hless⟩
        | inr last =>
          obtain ⟨rfl, hnone⟩ := hresult
          exact ⟨hmid.1, hmid.2.1, hmid.2.2, hnone⟩
      · exact ⟨⟨h.healthy.ids, h.healthy.scheduled, h.healthy.resent⟩, hstate, ⟨rfl, id, le_rfl⟩⟩
    next hne =>
      split
      · refine ⟨⟨h.healthy.ids, h.healthy.scheduled, h.healthy.resent⟩, hstate, ⟨rfl, id, le_rfl⟩, ?_⟩
        dsimp only
        rw [OrderedMap.get?_insert, if_neg (Ne.symm hne)]
        exact h.next
      · exact ⟨h.healthy, hstate, ⟨rfl, id, le_rfl⟩, h.next⟩
  · obtain ⟨hhealthy, hon, hkeeps, hnone⟩ := hmid
    unfold scheduleAck
    rw [assert_true hon, ok_bind, pure_bind, assert_true hnone, ok_bind]
    exact ⟨⟨⟨hhealthy.ids, fun _ ↦ hon, hhealthy.resent⟩, hnone,
      fun hoff ↦ by cases hon.symm.trans hoff⟩, hon, hkeeps.trans ⟨rfl, id, le_rfl⟩⟩

theorem acknowledge_ends (h : c.Robust) {ackNr : ℕ} (hack : ackNr ≤ sequenceMask) :
    Ends (c.acknowledge ackNr)
      (fun c' ↦ c'.Robust ∧ c'.connectedState = c.connectedState ∧ Keeps c c') fun _ ↦ False := by
  obtain ⟨c', hc', hsends, -⟩ := acknowledge_spec (c := c) hack
  have hkeeps := (c.keeps_acknowledge ackNr).of_ok hc'
  rw [hc']
  exact ⟨h.of_sends hsends, congrArg (fun r ↦ r.2.1) hsends.received, hkeeps⟩

/-- What an open connection does with a packet, its time noted, makes no assertion fail. -/
theorem handled_ends (h : c.Robust) (now : ℚ) {packet : UtpPacket} (hack : packet.ackNr ≤ sequenceMask)
    (hseq : packet.seqNr ≤ sequenceMask) :
    Ends (if packet.packetType = stReset then c.fail now .closed
      else if c.connectedState = false then
        if packet.packetType ≠ stState then .ok c
        else do
          let c ← { c with
            ackNr := (packet.seqNr + sequenceMask) % (sequenceMask + 1)
            connectedState := true }.acknowledge packet.ackNr
          return { c with connected := some (c.connected.getD true) }
      else do
        let c ← c.acknowledge packet.ackNr
        let received : Except Failure UtpConnection :=
          if packet.packetType = stData then c.dataReceived packet.seqNr packet.payload
          else if packet.packetType = stFin then
            { c with eofSeq := some packet.seqNr }.dataReceived packet.seqNr []
          else .ok c
        let c ← received
        assert c.connectedState
        return c) (fun c' ↦ c'.Robust ∧ Keeps c c') fun _ ↦ False := by
  split
  next =>
    obtain ⟨c', hc', hsends, -⟩ :=
      fail_spec now h.healthy (show FetchReason.closed ∈ _ by simp)
    have hkeeps := (c.keeps_fail now .closed).of_ok hc'
    rw [hc']
    exact ⟨h.of_sends hsends, hkeeps⟩
  next =>
    split
    next hoff =>
      split
      next => exact ⟨h, ⟨rfl, id, le_rfl⟩⟩
      next =>
        -- before the first packet no early one was stored
        have hon : { c with
            ackNr := (packet.seqNr + sequenceMask) % (sequenceMask + 1)
            connectedState := true }.Robust :=
          ⟨⟨h.healthy.ids, fun _ ↦ rfl, h.healthy.resent⟩, h.idle hoff _, by simp⟩
        refine (acknowledge_ends hon hack).bind fun mid hmid ↦ ?_
        obtain ⟨hrobust, -, hkeeps⟩ := hmid
        refine ⟨hrobust.of_sends (.quiet rfl rfl fun h ↦ ⟨h.ids, h.scheduled, h.resent⟩), ?_⟩
        exact ⟨hkeeps.recvId, hkeeps.closed, hkeeps.sent⟩
    next hon =>
      refine (acknowledge_ends h hack).bind fun mid hmid ↦ ?_
      obtain ⟨hrobust, hsame, hkeeps⟩ := hmid
      have hmidOn : mid.connectedState := by
        rw [hsame]
        simpa using hon
      have hdata {mid' : UtpConnection} (hmid' : mid'.Robust) (hon' : mid'.connectedState)
          (hkeeps' : Keeps c mid') (payload : Bytes) :
          Ends (mid'.dataReceived packet.seqNr payload)
            (fun c' ↦ c'.Robust ∧ c'.connectedState ∧ Keeps c c') fun _ ↦ False :=
        (dataReceived_ends hmid' hon' hseq payload).mono
          (fun c' hc' ↦ ⟨hc'.1, hc'.2.1, hkeeps'.trans hc'.2.2⟩) fun _ h ↦ h
      refine Ends.bind (Q := fun c' ↦ c'.Robust ∧ c'.connectedState ∧ Keeps c c') ?_
        fun last hlast ↦ ?_
      · split
        · exact hdata hrobust hmidOn hkeeps packet.payload
        · split
          · have hfin : { mid with eofSeq := some packet.seqNr }.Robust :=
              ⟨⟨hrobust.healthy.ids, hrobust.healthy.scheduled, hrobust.healthy.resent⟩,
                hrobust.next, hrobust.idle⟩
            exact hdata hfin hmidOn (hkeeps.trans ⟨rfl, id, le_rfl⟩) []
          · exact ⟨hrobust, hmidOn, hkeeps⟩
      · rw [assert_true hlast.2.1, ok_bind]
        exact ⟨hlast.1, hlast.2.2⟩

/-- Whatever packet comes, no assertion fails. -/
theorem packetReceived_ends (h : c.Robust) (now : ℚ) {packet : UtpPacket}
    (hack : packet.ackNr ≤ sequenceMask) (hseq : packet.seqNr ≤ sequenceMask) :
    Ends (c.packetReceived now packet) (fun c' ↦ c'.Robust ∧ Keeps c c') fun _ ↦ False := by
  by_cases hopen : c.closed = false
  · have hstamp : c.Sends { c with replyMicro := microsecondsSince now packet.timestamp } :=
      .quiet (by simp only [received]) rfl fun h ↦ ⟨h.ids, h.scheduled, h.resent⟩
    rw [packetReceived, if_neg (by simp [hopen])]
    exact (handled_ends (h.of_sends hstamp) now hack hseq).mono
      (fun c' hc' ↦ ⟨hc'.1, hc'.2.recvId, hc'.2.closed, hc'.2.sent⟩) fun _ h ↦ h
  · rw [packetReceived, if_pos (by simpa using hopen)]
    exact ⟨h, ⟨rfl, id, le_rfl⟩⟩

theorem readExactly_ends (h : c.Robust) {length : ℕ} (hlength : 0 < length) (deadlinePassed : Bool)
    (closedReason : FetchReason) :
    Ends (c.readExactly length deadlinePassed closedReason)
      (fun result ↦ result.2.Robust ∧ Keeps c result.2) fun _ ↦ False := by
  unfold readExactly
  rw [assert_true hlength, ok_bind]
  split
  · split
    · exact ⟨h, ⟨rfl, id, le_rfl⟩⟩
    · split
      · exact ⟨h, ⟨rfl, id, le_rfl⟩⟩
      · exact ⟨h.of_sends (.quiet rfl rfl fun h ↦ ⟨h.ids, h.scheduled, h.resent⟩), ⟨rfl, id, le_rfl⟩⟩
  next hlong =>
    have htake : (c.buffer.take length).length = length := by
      rw [List.length_take]
      omega
    dsimp only
    rw [assert_true htake, ok_bind]
    exact ⟨⟨⟨h.healthy.ids, h.healthy.scheduled, h.healthy.resent⟩, h.next, h.idle⟩, ⟨rfl, id, le_rfl⟩⟩

end UtpConnection

/-- A decoded packet has sequence numbers. -/
theorem decodeUtpPacket_bounds {data : Bytes} {packet : UtpPacket}
    (h : decodeUtpPacket data = some packet) :
    packet.ackNr ≤ sequenceMask ∧ packet.seqNr ≤ sequenceMask := by
  have hslice (start : ℕ) : fromBigEndian (slice data start (start + 2)) ≤ sequenceMask := by
    have hlength : (slice data start (start + 2)).length ≤ 2 := by
      rw [slice, List.length_drop, List.length_take]
      omega
    have hlt := (fromBigEndian_lt (slice data start (start + 2))).trans_le
      (Nat.pow_le_pow_right (by decide) hlength)
    exact Nat.le_of_lt_succ hlt
  unfold decodeUtpPacket at h
  split at h
  · cases h
  · dsimp only at h
    split at h
    · cases h
    · obtain ⟨offset, -, rfl⟩ := Option.map_eq_some_iff.mp h
      exact ⟨hslice 18, hslice 16⟩

/-! ## One connection -/

/-- What can happen to a connection next: what it expects, and any packet. -/
def UtpLink.Possible (link : UtpLink) (event : LinkEvent) : Prop :=
  link.Expects event ∨ ∃ packet, event = .received packet ∧
    packet.ackNr ≤ sequenceMask ∧ packet.seqNr ≤ sequenceMask

namespace UtpSession

open UtpConnection

theorem handle_ends {link : UtpLink} (h : link.session.connection.Robust) {event : LinkEvent}
    (hevent : link.Possible event) (now : ℚ) :
    Ends (link.session.handle now event)
      (fun s ↦ s.connection.Robust ∧ Keeps link.session.connection s.connection) fun _ ↦ False := by
  have hsends {x : Except Failure UtpConnection} {c : UtpConnection} (hx : x = .ok c)
      (hc : link.session.connection.Sends c)
      (hkeeps : Ends x (Keeps link.session.connection) fun _ ↦ True) :
      Ends x (fun c ↦ c.Robust ∧ Keeps link.session.connection c) fun _ ↦ False := by
    have hkept := hkeeps.of_ok hx
    rw [hx]
    exact ⟨h.of_sends hc, hkept⟩
  obtain ⟨packet, rfl, hack, hseq⟩ | hevent := hevent.symm
  · exact (packetReceived_ends h now hack hseq).bind fun c hc ↦ hc
  · cases event with
    | received packet => exact hevent.elim
    | sendAck =>
      obtain ⟨c, hc, hcSends, -⟩ := sendAck_spec now h.healthy (h.healthy.scheduled hevent)
      exact (hsends hc hcSends (keeps_sendAck _ now)).bind fun c hc ↦ hc
    | checkResend =>
      obtain ⟨c, hc, hcSends, -⟩ := checkResend_spec now h.healthy
      exact (hsends hc hcSends (keeps_checkResend _ now)).bind fun c hc ↦ hc
    | write data =>
      obtain ⟨c, hc, hcSends, -⟩ := write_spec now h.healthy hevent
      exact (hsends hc hcSends (keeps_write _ now data)).bind fun c hc ↦ hc
    | read length deadlinePassed closedReason =>
      exact (readExactly_ends h hevent deadlinePassed closedReason).bind fun result hresult ↦ hresult
    | close sendReset =>
      obtain ⟨c, hc, hcSends, -⟩ := close_spec now sendReset h.healthy
      exact (hsends hc hcSends (keeps_close _ now sendReset)).bind fun c hc ↦ hc

theorem connect_ends {recvId : ℕ} (hid : recvId ≤ sequenceMask) (now : ℚ) :
    Ends (connect recvId now) (fun s ↦ s.connection.Robust ∧ s.connection.recvId = recvId ∧
      s.connection.closed = false) fun _ ↦ False := by
  have hcreated : ({ recvId := recvId, sendId := (recvId + 1) % (sequenceMask + 1) } :
      UtpConnection).Robust := by
    refine ⟨⟨⟨hid, Nat.lt_succ_iff.mp (Nat.mod_lt _ (by decide))⟩, by simp, ?_⟩, rfl, fun _ _ ↦ rfl⟩
    simp [OrderedMap.empty]
  obtain ⟨mid, hmid, hsends, hopen, -, hsize⟩ := sendUnacked_spec now [] hcreated.healthy rfl
    (show stSyn ≤ stSyn by decide) (by decide)
  obtain ⟨last, hlast, hsends', hopen', -, hunacked⟩ := armResend_spec hsize
  have hmidKeeps := (keeps_sendUnacked _ now stSyn []).of_ok hmid
  have hlastKeeps := mid.keeps_armResend.of_ok hlast
  rw [connect, create, assert_true hid, ok_bind, pure_bind, sendSyn, assert_true rfl, ok_bind, hmid,
    ok_bind, hlast, ok_bind, assert_true (hunacked ▸ hsize), ok_bind]
  exact ⟨hcreated.of_sends (hsends.trans hsends'), (hmidKeeps.trans hlastKeeps).recvId,
    hopen'.trans hopen⟩

/-- A closed connection ignores packets and closing. -/
theorem handle_closed {s : UtpSession} (hclosed : s.connection.closed) (now : ℚ) :
    (∀ packet, s.handle now (.received packet) = .ok s) ∧
      ∀ sendReset, s.handle now (.close sendReset) = .ok s := by
  constructor
  · intro packet
    rw [handle, packetReceived, if_pos hclosed, ok_bind]
    rfl
  · intro sendReset
    rw [handle, close, if_pos hclosed, ok_bind]
    rfl

end UtpSession

theorem linkMachine_step {s s' : UtpSession} {now : ℚ} {event : LinkEvent} :
    linkMachine.step s (now, event) = some s' ↔ s.handle now event = .ok s' := by
  simp only [linkMachine]
  cases s.handle now event with
  | error e => simp [Except.toOption]
  | ok value => simp [Except.toOption]

/-! ## The table -/

namespace UtpSocket

variable {s s' : UtpSocket} {number : ℕ} {link : UtpLink}

/-- The table holds the open connections by their keys, and the packets are counted. -/
structure Kept (s : UtpSocket) : Prop where
  links : ∀ number link, s.links.get? number = some link →
    link.session.connection.Robust ∧ number < s.created
  table : ∀ key number, s.connections.get? key = some number ↔
    ∃ link ∈ s.links.get? number, link.key = key ∧ link.session.connection.closed = false
  counted : s.transportOpen →
    s.packetsSent = (s.links.values.map fun link ↦ link.session.connection.sent.length).sum

theorem new_kept : new.Kept where
  links := by simp [new]
  table := by simp [new]
  counted := by simp [new, OrderedMap.values, OrderedMap.empty]

theorem Kept.fresh (h : s.Kept) : s.links.get? s.created = none := by
  by_contra hsome
  obtain ⟨link, hlink⟩ := Option.ne_none_iff_exists'.mp hsome
  exact lt_irrefl _ (h.links _ link hlink).2

/-- A connection is replaced by what it has become. -/
theorem Kept.table_insert (h : s.Kept) (hlink : s.links.get? number = some link) {session : UtpSession}
    (hkeeps : UtpConnection.Keeps link.session.connection session.connection) (key : Address × ℕ)
    (other : ℕ) :
    (if link.session.connection.closed = false ∧ session.connection.closed then
      s.connections.erase link.key else s.connections).get? key = some other ↔
      ∃ link' ∈ (s.links.insert number { link with session := session }).get? other,
        link'.key = key ∧ link'.session.connection.closed = false := by
  have hkey : { link with session := session }.key = link.key :=
    congrArg (Prod.mk link.address) hkeeps.recvId
  rw [OrderedMap.get?_insert]
  split
  next hforgotten =>
    rw [OrderedMap.get?_erase]
    by_cases hother : other = number
    · rw [if_pos hother]
      subst hother
      refine iff_of_false ?_ ?_
      · split
        · simp
        · intro hget
          obtain ⟨link', hlink', hkey', -⟩ := (h.table key other).mp hget
          rw [hlink, Option.mem_some_iff] at hlink'
          exact absurd (hlink' ▸ hkey').symm ‹_›
      · rintro ⟨link', hlink', -, hopen⟩
        rw [← Option.mem_some_iff.mp hlink', hforgotten.2] at hopen
        cases hopen
    · rw [if_neg hother, ← h.table]
      split
      next hsame =>
        refine iff_of_false (by simp) fun hget ↦ hother ?_
        have hthis := (h.table link.key number).mpr ⟨link, hlink, rfl, hforgotten.1⟩
        rw [hsame, hthis, Option.some.injEq] at hget
        exact hget.symm
      next => rfl
  next hkept =>
    rw [h.table]
    by_cases hother : other = number
    · rw [if_pos hother, hother, hlink]
      have hclosed : session.connection.closed = false ↔ link.session.connection.closed = false := by
        constructor
        · exact fun hopen ↦ by_contra fun hclosed ↦
            absurd (hkeeps.closed (by simpa using hclosed)) (by simp [hopen])
        · exact fun hopen ↦ by_contra fun hclosed ↦ hkept ⟨hopen, by simpa using hclosed⟩
      simp [hkey, hclosed]
    · rw [if_neg hother]

theorem handle_ends (h : s.Kept) (hlink : s.links.get? number = some link) {event : LinkEvent}
    (hevent : link.Possible event) (now : ℚ) :
    Ends (s.handle number now event) (fun s' ↦ s'.Kept ∧ s'.created = s.created ∧
      ∃ session, link.session.handle now event = .ok session ∧
        { link with session := session }.key = link.key ∧
        s'.links = s.links.insert number { link with session := session }) fun _ ↦ False := by
  obtain ⟨session, hsession, hrobust, hkeeps⟩ :=
    (UtpSession.handle_ends (h.links number link hlink).1 hevent now).exists_ok
  rw [handle, hlink]
  dsimp only
  rw [hsession, ok_bind]
  refine ⟨⟨?_, h.table_insert hlink hkeeps, ?_⟩, rfl, session, rfl,
    congrArg (Prod.mk link.address) hkeeps.recvId, rfl⟩
  · intro other link' hget
    rw [OrderedMap.get?_insert] at hget
    split at hget
    next hother =>
      rw [← Option.some.inj hget, hother]
      exact ⟨hrobust, (h.links number link hlink).2⟩
    next => exact h.links other link' hget
  · intro hopen
    have hcounted := h.counted hopen
    rw [s.links.sum_values_erase _ hlink] at hcounted
    rw [OrderedMap.sum_values_insert]
    have hsent := hkeeps.sent
    simp only [countSent] at hopen ⊢
    rw [if_pos hopen, hcounted]
    omega

/-! ## Free ids -/

theorem freeId_eq_some {address : Address} {fuel recvId id : ℕ}
    (h : s.freeId address fuel recvId = some id) (hid : recvId ≤ sequenceMask) :
    s.connections.get? (address, id) = none ∧ id ≤ sequenceMask := by
  induction fuel generalizing recvId with
  | zero => cases h
  | succ fuel ih =>
    rw [freeId] at h
    split at h
    · exact ih h (Nat.le_of_lt_succ (Nat.mod_lt _ (Nat.succ_pos _)))
    next hfree =>
      rw [← Option.some.inj h]
      exact ⟨by simpa [OrderedMap.contains] using hfree, hid⟩

theorem freeId_eq_none {address : Address} {fuel recvId : ℕ} (h : s.freeId address fuel recvId = none)
    (hid : recvId ≤ sequenceMask) {i : ℕ} (hi : i < fuel) :
    (address, (recvId + i) % (sequenceMask + 1)) ∈ s.connections.keys := by
  induction fuel generalizing recvId i with
  | zero => omega
  | succ fuel ih =>
    rw [freeId] at h
    split at h
    next htaken =>
      cases i with
      | zero =>
        rw [Nat.add_zero, Nat.mod_eq_of_lt (Nat.lt_succ_of_le hid)]
        exact OrderedMap.get?_isSome_iff.mp htaken
      | succ i =>
        have hnext : (recvId + 1) % (sequenceMask + 1) ≤ sequenceMask :=
          Nat.le_of_lt_succ (Nat.mod_lt _ (Nat.succ_pos _))
        have hrest := ih h hnext (Nat.lt_of_succ_lt_succ hi)
        rwa [Nat.mod_add_mod, Nat.add_assoc, Nat.add_comm 1 i] at hrest
    next => cases h

/-- An id is free while there are fewer connections than ids. -/
theorem exists_freeId (hsize : s.connections.size ≤ sequenceMask) (address : Address) {recvId : ℕ}
    (hid : recvId ≤ sequenceMask) : ∃ id, s.freeId address (sequenceMask + 1) recvId = some id := by
  by_contra hnone
  have hnone' : s.freeId address (sequenceMask + 1) recvId = none :=
    Option.eq_none_iff_forall_ne_some.mpr (not_exists.mp hnone)
  have hnodup : ((List.range (sequenceMask + 1)).map fun i ↦
      (address, (recvId + i) % (sequenceMask + 1))).Nodup := by
    refine List.nodup_range.map_on fun i hi j hj heq ↦ ?_
    have hi' := List.mem_range.mp hi
    have hj' := List.mem_range.mp hj
    have hmod := congrArg Prod.snd heq
    simp only [sequenceMask] at hi' hj' hmod
    omega
  have hsubset : ((List.range (sequenceMask + 1)).map fun i ↦
      (address, (recvId + i) % (sequenceMask + 1))) ⊆ s.connections.keys := by
    intro key hkey
    obtain ⟨i, hi, rfl⟩ := List.mem_map.mp hkey
    exact freeId_eq_none hnone' hid (List.mem_range.mp hi)
  have hle := (hnodup.subperm hsubset).length_le
  rw [List.length_map, List.length_range, OrderedMap.keys, List.length_map] at hle
  exact absurd (hle.trans hsize) (Nat.not_succ_le_self _)

theorem connect_ends (h : s.Kept) (address : Address) {recvId : ℕ} (hid : recvId ≤ sequenceMask)
    (hsize : s.connections.size ≤ sequenceMask) (now : ℚ) :
    Ends (s.connect address recvId now) (fun s' ↦ s'.Kept ∧ s'.created = s.created + 1 ∧
      ∃ link, link.address = address ∧ UtpSession.connect link.key.2 now = .ok link.session ∧
        s'.links = s.links.insert s.created link) fun _ ↦ False := by
  obtain ⟨id, hfound⟩ := exists_freeId hsize address hid
  obtain ⟨hfree, hbound⟩ := freeId_eq_some hfound hid
  obtain ⟨session, hsession, hrobust, hsame, hopen⟩ := (UtpSession.connect_ends hbound now).exists_ok
  rw [connect, hfound]
  dsimp only
  rw [hsession, ok_bind]
  subst hsame
  refine ⟨⟨?_, ?_, ?_⟩, rfl, ⟨address, session⟩, rfl, hsession, rfl⟩
  · intro number link hget
    rw [OrderedMap.get?_insert] at hget
    split at hget
    next hnumber =>
      rw [← Option.some.inj hget, hnumber]
      exact ⟨hrobust, Nat.lt_succ_self _⟩
    next => exact (h.links number link hget).imp_right (Nat.lt_succ_of_lt ·)
  · intro key number
    simp only [countSent]
    rw [OrderedMap.get?_insert, OrderedMap.get?_insert]
    by_cases hnumber : number = s.created
    · rw [if_pos hnumber]
      subst hnumber
      split
      next hkey => simp [hkey, hopen]
      next hkey =>
        refine iff_of_false (fun hget ↦ ?_) ?_
        · obtain ⟨link, hlink, -⟩ := (h.table key _).mp hget
          rw [h.fresh] at hlink
          cases hlink
        · rintro ⟨link, hlink, hkey', -⟩
          rw [← Option.mem_some_iff.mp hlink] at hkey'
          exact hkey hkey'.symm
    · rw [if_neg hnumber, ← h.table]
      split
      next hkey =>
        subst hkey
        refine iff_of_false (fun hget ↦ hnumber (Option.some.inj hget).symm) ?_
        simp [UtpLink.key, hfree]
      next => rfl
  · intro hopen'
    have hcounted := h.counted hopen'
    simp only [countSent] at hopen' ⊢
    rw [OrderedMap.sum_values_insert, OrderedMap.erase_eq_self h.fresh, if_pos hopen', hcounted]
    exact Nat.add_comm _ _

end UtpSocket

/-! ## The share of a connection -/

/-- What a step of the socket is to the connection with a number and a key. -/
def SocketStep.share (number : ℕ) (key : Address × ℕ) : SocketStep → Option LinkEvent
  | .connect _ _ => none
  | .datagram data address => (decodeUtpPacket data).bind fun packet ↦
      if (address, packet.connectionId) = key then some (.received packet) else none
  | .call n event => if n = number then some event else none
  | .close => some (.close true)

/-- The datagrams of a connection's peer that carry its id, and the calls of the connection. -/
def sharesOf (number : ℕ) (key : Address × ℕ) (labels : List (ℚ × SocketStep)) :
    List (ℚ × LinkEvent) :=
  labels.filterMap fun label ↦ (label.2.share number key).map fun event ↦ (label.1, event)

namespace UtpSocket

variable {s s' : UtpSocket} {number : ℕ} {link : UtpLink}

/-- A connection makes the step that is its share. -/
def Moves (label : ℚ × SocketStep) (number : ℕ) (link link' : UtpLink) : Prop :=
  link'.address = link.address ∧ link'.key = link.key ∧
    linkMachine.run link.session (sharesOf number link.key [label]) = some link'.session

theorem moves_none {label : ℚ × SocketStep} (h : label.2.share number link.key = none) :
    Moves label number link link := by
  refine ⟨rfl, rfl, ?_⟩
  rw [sharesOf, List.filterMap_cons, h]
  rfl

theorem moves_some {label : ℚ × SocketStep} {event : LinkEvent} {link' : UtpLink}
    (h : label.2.share number link.key = some event) (haddress : link'.address = link.address)
    (hkey : link'.key = link.key) (hhandle : link.session.handle label.1 event = .ok link'.session) :
    Moves label number link link' := by
  refine ⟨haddress, hkey, ?_⟩
  rw [sharesOf, List.filterMap_cons, h]
  exact linkMachine.run_cons_eq_some.mpr ⟨_, linkMachine_step.mpr hhandle, rfl⟩

/-- A step of the socket makes every connection take its share, and only `connect` makes a new one. -/
structure Steps (s : UtpSocket) (label : ℚ × SocketStep) (s' : UtpSocket) : Prop where
  kept : s'.Kept
  moves : ∀ number link, s.links.get? number = some link →
    ∃ link', s'.links.get? number = some link' ∧ Moves label number link link'
  made : ∀ number link', s.links.get? number = none → s'.links.get? number = some link' →
    number = s.created ∧ ∃ recvId, label.2 = .connect link'.address recvId ∧
      UtpSession.connect link'.key.2 label.1 = .ok link'.session

theorem connect_steps (h : s.Kept) (address : Address) {recvId : ℕ} (hid : recvId ≤ sequenceMask)
    (hsize : s.connections.size ≤ sequenceMask) (now : ℚ) :
    Ends (s.connect address recvId now) (s.Steps (now, .connect address recvId)) fun _ ↦ False := by
  refine (connect_ends h address hid hsize now).mono (fun s' hs' ↦ ?_) fun _ h ↦ h
  obtain ⟨hkept, -, new, haddress, hnew, hlinks⟩ := hs'
  refine ⟨hkept, fun number link hlink ↦ ⟨link, ?_, moves_none rfl⟩, fun number link' hnone hlink' ↦ ?_⟩
  · rw [hlinks, OrderedMap.get?_insert, if_neg (h.links number link hlink).2.ne]
    exact hlink
  · rw [hlinks, OrderedMap.get?_insert] at hlink'
    split at hlink'
    next hnumber =>
      obtain rfl := Option.some.inj hlink'
      exact ⟨hnumber, recvId, by rw [haddress], hnew⟩
    next =>
      rw [hnone] at hlink'
      cases hlink'

/-- What happens to one connection is nobody else's share, unless another one ignores it. -/
theorem handle_steps (h : s.Kept) (hlink : s.links.get? number = some link) {event : LinkEvent}
    (hevent : link.Possible event) {now : ℚ} {step : SocketStep}
    (hshare : step.share number link.key = some event)
    (hothers : ∀ other link', other ≠ number → s.links.get? other = some link' →
      Moves (now, step) other link' link') :
    Ends (s.handle number now event) (s.Steps (now, step)) fun _ ↦ False := by
  refine (handle_ends h hlink hevent now).mono (fun s' hs' ↦ ?_) fun _ h ↦ h
  obtain ⟨hkept, -, session, hsession, hkey, hlinks⟩ := hs'
  refine ⟨hkept, fun other link' hlink' ↦ ?_, fun other link' hnone hlink' ↦ ?_⟩
  · rw [hlinks, OrderedMap.get?_insert]
    split
    next hother =>
      subst hother
      rw [hlink, Option.some.injEq] at hlink'
      subst hlink'
      exact ⟨_, rfl, moves_some hshare rfl hkey hsession⟩
    next hother => exact ⟨link', hlink', hothers other link' hother hlink'⟩
  · rw [hlinks, OrderedMap.get?_insert] at hlink'
    split at hlink'
    next hother =>
      rw [hother, hlink] at hnone
      cases hnone
    next =>
      rw [hnone] at hlink'
      cases hlink'

theorem call_steps (h : s.Kept) (hlink : s.links.get? number = some link) {event : LinkEvent}
    (hevent : link.Expects event) (now : ℚ) :
    Ends (s.handle number now event) (s.Steps (now, .call number event)) fun _ ↦ False :=
  handle_steps h hlink (.inl hevent) (if_pos rfl) fun _ _ hother _ ↦
    moves_none (if_neg (Ne.symm hother))

/-- A packet that is not for an open connection changes none. -/
theorem moves_closed (h : s.Kept) {data : Bytes} {address : Address} {packet : UtpPacket}
    (hdecode : decodeUtpPacket data = some packet) {now : ℚ} (hlink : s.links.get? number = some link)
    (hclosed : s.connections.get? (address, packet.connectionId) ≠ some number) :
    Moves (now, .datagram data address) number link link := by
  by_cases hkey : (address, packet.connectionId) = link.key
  · have hgone : link.session.connection.closed := by
      by_contra hopen
      exact hclosed ((h.table _ number).mpr ⟨link, hlink, hkey.symm, by simpa using hopen⟩)
    have hshare : (SocketStep.datagram data address).share number link.key =
        some (.received packet) := by
      rw [SocketStep.share, hdecode, Option.bind_some, if_pos hkey]
    exact moves_some hshare rfl rfl ((UtpSession.handle_closed hgone now).1 packet)
  · refine moves_none ?_
    rw [SocketStep.share, hdecode, Option.bind_some, if_neg hkey]

theorem datagramReceived_steps (h : s.Kept) (data : Bytes) (address : Address) (now : ℚ) :
    Ends (s.datagramReceived data address now) (s.Steps (now, .datagram data address))
      fun _ ↦ False := by
  have hstays (hmoves : ∀ number link, s.links.get? number = some link →
      Moves (now, .datagram data address) number link link) :
      s.Steps (now, .datagram data address) s := by
    refine ⟨h, fun number link hlink ↦ ⟨link, hlink, hmoves number link hlink⟩, ?_⟩
    intro number link' hnone hsome
    rw [hnone] at hsome
    cases hsome
  unfold datagramReceived
  split
  next hdecode =>
    refine hstays fun number link _ ↦ moves_none ?_
    rw [SocketStep.share, hdecode]
    rfl
  next packet hdecode =>
    split
    next hnone =>
      refine hstays fun number link hlink ↦ moves_closed h hdecode hlink ?_
      simp [hnone]
    next number hget =>
      obtain ⟨link, hlink, hkey, -⟩ := (h.table _ number).mp hget
      obtain ⟨hack, hseq⟩ := decodeUtpPacket_bounds hdecode
      refine handle_steps h hlink (.inr ⟨packet, rfl, hack, hseq⟩) ?_ fun other link' hother hlink' ↦ ?_
      · rw [SocketStep.share, hdecode, Option.bind_some, if_pos hkey.symm]
      · refine moves_closed h hdecode hlink' ?_
        rw [hget]
        exact fun hsame ↦ hother (Option.some.inj hsame).symm

/-- Closing connections one after the other closes each of them, and leaves the others. -/
theorem closeEach_ends (now : ℚ) (numbers : List ℕ) : ∀ {s : UtpSocket}, s.Kept →
    (∀ number ∈ numbers, ∃ link, s.links.get? number = some link) →
    Ends (closeEach now numbers s) (fun s' ↦ s'.Kept ∧
      (∀ number link, s.links.get? number = some link → ∃ link', s'.links.get? number = some link' ∧
        link'.address = link.address ∧ link'.key = link.key ∧
        if number ∈ numbers then link.session.handle now (.close true) = .ok link'.session
        else link' = link) ∧
      ∀ number, s.links.get? number = none → s'.links.get? number = none) fun _ ↦ False := by
  induction numbers with
  | nil => exact fun h _ ↦ ⟨h, fun number link hlink ↦ ⟨link, hlink, rfl, rfl, rfl⟩, fun _ h ↦ h⟩
  | cons first rest ih =>
    intro s h hnumbers
    obtain ⟨link₀, hlink₀⟩ := hnumbers first List.mem_cons_self
    have hclose : link₀.Possible (.close true) := .inl trivial
    refine (handle_ends h hlink₀ hclose now).bind fun mid hmid ↦ ?_
    obtain ⟨hmidKept, -, session, hsession, hkey, hlinks⟩ := hmid
    have hget (number : ℕ) : mid.links.get? number =
        if number = first then some { link₀ with session := session } else s.links.get? number := by
      rw [hlinks, OrderedMap.get?_insert]
    have hclosed : session.connection.closed := by
      obtain ⟨c, hc, -, -, hclosed⟩ :=
        UtpConnection.close_spec now true (h.links first link₀ hlink₀).1.healthy
      rw [UtpSession.handle, hc, ok_bind] at hsession
      cases hsession
      exact hclosed
    have hrest : ∀ number ∈ rest, ∃ link, mid.links.get? number = some link := by
      intro number hnumber
      rw [hget]
      split
      · exact ⟨_, rfl⟩
      · exact hnumbers number (List.mem_cons_of_mem _ hnumber)
    refine (ih hmidKept hrest).mono (fun s' hs' ↦ ?_) fun _ h ↦ h
    obtain ⟨hkept, hmoved, hnone⟩ := hs'
    refine ⟨hkept, fun number link hlink ↦ ?_, fun number hnumber ↦ hnone number ?_⟩
    · by_cases hfirst : number = first
      · obtain ⟨link', hlink', haddress, hkey', hstep⟩ :=
          hmoved number _ ((hget number).trans (if_pos hfirst))
        subst hfirst
        rw [hlink₀, Option.some.injEq] at hlink
        subst hlink
        refine ⟨link', hlink', haddress, hkey'.trans hkey, ?_⟩
        rw [if_pos List.mem_cons_self, hsession]
        -- closed once, it ignores the second time
        split at hstep
        · rw [(UtpSession.handle_closed hclosed now).2 true] at hstep
          exact hstep
        · rw [hstep]
      · obtain ⟨link', hlink', haddress, hkey', hstep⟩ :=
          hmoved number link (((hget number).trans (if_neg hfirst)).trans hlink)
        refine ⟨link', hlink', haddress, hkey', ?_⟩
        simpa [hfirst] using hstep
    · rw [hget, if_neg fun hfirst ↦ ?_]
      · exact hnumber
      · rw [hfirst, hlink₀] at hnumber
        cases hnumber

theorem close_steps (h : s.Kept) (now : ℚ) :
    Ends (s.close now) (s.Steps (now, .close)) fun _ ↦ False := by
  have hopen (number : ℕ) : number ∈ s.connections.values ↔
      ∃ link, s.links.get? number = some link ∧ link.session.connection.closed = false := by
    rw [OrderedMap.mem_values_iff]
    constructor
    · rintro ⟨key, hget⟩
      obtain ⟨link, hlink, -, hlive⟩ := (h.table key number).mp hget
      exact ⟨link, hlink, hlive⟩
    · rintro ⟨link, hlink, hlive⟩
      exact ⟨link.key, (h.table link.key number).mpr ⟨link, hlink, rfl, hlive⟩⟩
  refine (closeEach_ends now s.connections.values h fun number hnumber ↦ ?_).bind fun last hlast ↦ ?_
  · obtain ⟨link, hlink, -⟩ := (hopen number).mp hnumber
    exact ⟨link, hlink⟩
  obtain ⟨hkept, hmoved, hnone⟩ := hlast
  have hall (number : ℕ) (link : UtpLink) (hlink : s.links.get? number = some link) :
      ∃ link', last.links.get? number = some link' ∧ Moves (now, .close) number link link' ∧
        link'.session.connection.closed := by
    obtain ⟨link', hlink', haddress, hkey, hstep⟩ := hmoved number link hlink
    split at hstep
    next =>
      refine ⟨link', hlink', moves_some rfl haddress hkey hstep, ?_⟩
      obtain ⟨c, hc, -, -, hclosed⟩ :=
        UtpConnection.close_spec now true (h.links number link hlink).1.healthy
      rw [UtpSession.handle, hc, ok_bind] at hstep
      rw [← Except.ok.inj hstep]
      exact hclosed
    next hnot =>
      subst hstep
      have hgone : link'.session.connection.closed := by
        by_contra hlive
        exact hnot ((hopen number).mpr ⟨link', hlink, by simpa using hlive⟩)
      exact ⟨link', hlink', moves_some rfl rfl rfl ((UtpSession.handle_closed hgone now).2 true), hgone⟩
  have hempty : last.connections.size = 0 := by
    refine OrderedMap.size_eq_zero_iff.mpr fun key ↦ ?_
    refine Option.eq_none_iff_forall_ne_some.mpr fun number hget ↦ ?_
    obtain ⟨link', hlink', -, hlive⟩ := (hkept.table key number).mp hget
    cases hlink : s.links.get? number with
    | none =>
      rw [hnone number hlink] at hlink'
      cases hlink'
    | some link =>
      obtain ⟨link'', hlink'', -, hclosed⟩ := hall number link hlink
      rw [hlink'', Option.mem_some_iff] at hlink'
      rw [hlink', hlive] at hclosed
      cases hclosed
  dsimp only
  rw [assert_true hempty, ok_bind]
  refine ⟨⟨hkept.links, hkept.table, by simp⟩, fun number link hlink ↦ ?_,
    fun number link' hgone hlink' ↦ ?_⟩
  · obtain ⟨link', hlink', hmoves, -⟩ := hall number link hlink
    exact ⟨link', hlink', hmoves⟩
  · rw [show last.links.get? number = none from hnone number hgone] at hlink'
    cases hlink'

/-- Every step that can happen is taken. -/
theorem step_steps (h : s.Kept) {label : ℚ × SocketStep} (hallowed : s.Allowed label) :
    Ends (s.step label.1 label.2) (s.Steps label) fun _ ↦ False := by
  obtain ⟨now, step⟩ := label
  cases step with
  | connect address recvId => exact connect_steps h address hallowed.1 hallowed.2 now
  | datagram data address => exact datagramReceived_steps h data address now
  | call number event =>
    obtain ⟨link, hlink, hexpects⟩ := hallowed
    exact call_steps h hlink hexpects now
  | close => exact close_steps h now

/-! ## Runs -/

/-- A connection is in the state in which it would be with a socket of its own, since it was made. -/
def Alone (past : List (ℚ × SocketStep)) (number : ℕ) (link : UtpLink) : Prop :=
  ∃ before now recvId after mid session₀,
    past = before ++ (now, .connect link.address recvId) :: after ∧
      machine.run new before = some mid ∧ mid.created = number ∧
        UtpSession.connect link.key.2 now = .ok session₀ ∧
          linkMachine.run session₀ (sharesOf number link.key after) = some link.session

/-- What a run has come to. -/
structure Isolated (past : List (ℚ × SocketStep)) (s : UtpSocket) : Prop where
  kept : s.Kept
  run : machine.run new past = some s
  alone : ∀ number link, s.links.get? number = some link → Alone past number link

theorem machine_step {label : ℚ × SocketStep} :
    machine.step s label = some s' ↔ s.step label.1 label.2 = .ok s' := by
  simp only [machine]
  cases s.step label.1 label.2 with
  | error e => simp [Except.toOption]
  | ok value => simp [Except.toOption]

theorem Alone.moves {past : List (ℚ × SocketStep)} {label : ℚ × SocketStep} {link' : UtpLink}
    (h : Alone past number link) (hmoves : Moves label number link link') :
    Alone (past ++ [label]) number link' := by
  obtain ⟨before, now, recvId, after, mid, session₀, hpast, hmid, hcreated, hstart, hrun⟩ := h
  obtain ⟨haddress, hkey, hstep⟩ := hmoves
  refine ⟨before, now, recvId, after ++ [label], mid, session₀, ?_, hmid, hcreated, ?_, ?_⟩
  · rw [hpast, haddress, List.append_assoc, List.cons_append]
  · rw [hkey]
    exact hstart
  · rw [hkey, sharesOf, List.filterMap_append, Machine.run_append, ← sharesOf, hrun]
    exact hstep

theorem Isolated.step {past : List (ℚ × SocketStep)} {label : ℚ × SocketStep} (h : Isolated past s)
    (hallowed : s.Allowed label) (hstep : machine.step s label = some s') :
    Isolated (past ++ [label]) s' := by
  have hsteps := (step_steps h.kept hallowed).of_ok (machine_step.mp hstep)
  refine ⟨hsteps.kept, ?_, fun number link' hlink' ↦ ?_⟩
  · rw [Machine.run_append, h.run]
    exact machine.run_cons_eq_some.mpr ⟨s', hstep, rfl⟩
  · cases hlink : s.links.get? number with
    | some link =>
      obtain ⟨link'', hlink'', hmoves⟩ := hsteps.moves number link hlink
      rw [hlink', Option.some.injEq] at hlink''
      subst hlink''
      exact (h.alone number link hlink).moves hmoves
    | none =>
      obtain ⟨hnumber, recvId, hconnect, hsession⟩ := hsteps.made number link' hlink hlink'
      obtain ⟨now, step⟩ := label
      obtain rfl : step = .connect link'.address recvId := hconnect
      exact ⟨past, now, recvId, [], s, link'.session, rfl, h.run, hnumber.symm, hsession, rfl⟩

/-- Whatever datagrams come from whomever, in whatever order with the calls of the connections: no
assertion fails and `connect` finds an id; the table holds the open connections under their peers'
addresses and their ids, and so no two of them share both; every connection is in the state in which it
would be with a socket of its own that gets what its peer sends with its id; and `packets_sent` counts
what all of them sent, until the socket is closed. -/
theorem connections_isolated {labels : List (ℚ × SocketStep)} (h : machine.Along Allowed new labels) :
    ∃ s, machine.run new labels = some s ∧
      (∀ key number, s.connections.get? key = some number ↔
        ∃ link ∈ s.links.get? number, link.key = key ∧ link.session.connection.closed = false) ∧
      (∀ number link, s.links.get? number = some link → Alone labels number link) ∧
      (s.transportOpen →
        s.packetsSent = (s.links.values.map fun link ↦ link.session.connection.sent.length).sum) := by
  have htotal (s : UtpSocket) (label : ℚ × SocketStep) (hs : s.Kept) (hallowed : s.Allowed label) :
      ∃ s', machine.step s label = some s' ∧ s'.Kept := by
    obtain ⟨s', hstep, hsteps⟩ := (step_steps hs hallowed).exists_ok
    exact ⟨s', machine_step.mpr hstep, hsteps.kept⟩
  obtain ⟨s, hrun⟩ := machine.run_total htotal new_kept h
  have hnone : Isolated [] new := ⟨new_kept, rfl, by simp [new]⟩
  have hisolated : Isolated ([] ++ labels) s :=
    machine.run_history_invariant (fun _ _ _ _ h hallowed hstep ↦ h.step hallowed hstep) [] hnone h hrun
  rw [List.nil_append] at hisolated
  exact ⟨s, hrun, hisolated.kept.table, hisolated.alone, hisolated.kept.counted⟩

/-- Two connections to one peer drew the same id; the peer answers the second one. -/
def sameId : List (ℚ × SocketStep) :=
  [(0, .connect (['h'], 1) 7), (0, .connect (['h'], 1) 7), (1, .datagram [0] (['h'], 1)),
    (1, .datagram [0x21, 0, 0, 8, 0, 0, 0, 0, 0, 0, 0, 0, 0, 0, 0, 0, 0, 5, 0, 1] (['h'], 1)),
    (2, .call 0 (.close true))]

theorem connections_isolated_sample :
    ∃ s link, machine.run new sameId = some s ∧ s.links.get? 1 = some link ∧ s.packetsSent = 2 ∧
      link.key = ((['h'], 1), 8) ∧ link.session.connection.connectedState ∧ Alone sameId 1 link := by
  have hguard : machine.Along Allowed new sameId := by decide +kernel
  have heval : (machine.run new sameId).any fun s ↦ s.packetsSent = 2 ∧ (s.links.get? 1).any fun link ↦
      link.key = ((['h'], 1), 8) ∧ link.session.connection.connectedState := by
    decide +kernel
  obtain ⟨s, hrun, -, halone, -⟩ := connections_isolated hguard
  rw [hrun, Option.any_some, decide_eq_true_eq, Option.any_eq_true] at heval
  obtain ⟨hsent, link, hlink, hsecond⟩ := heval
  obtain ⟨hkey, hconnected⟩ := of_decide_eq_true hsecond
  exact ⟨s, link, hrun, hlink, hsent, hkey, hconnected, halone 1 link hlink⟩

end UtpSocket

end DhtScraper
