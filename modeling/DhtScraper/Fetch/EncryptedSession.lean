import DhtScraper.Fetch.Negotiation

/-!
# Conversations and encrypted sessions

In a conversation each side receives exactly what the other one writes.  After it the two sides form
a session: both write and read as they like, and the network delivers what was written in pieces of
any size.
-/

namespace DhtScraper

open Library

/-- What a run has sent when it ends or waits for more. -/
def sentBy {α : Type} (x : Except Interrupted α) (last : α → ByteStream) : Bytes :=
  match x with
  | .ok result => ByteStream.sent (last result).log
  | .error interrupted => ByteStream.sent interrupted.log

theorem sentBy_of_ends {α : Type} {x : Except Interrupted α} {last : α → ByteStream}
    {P : Bytes → Prop} (h : Ends x (fun result ↦ P (ByteStream.sent (last result).log))
      fun interrupted ↦ P (ByteStream.sent interrupted.log)) : P (sentBy x last) := by
  cases x with
  | ok result => exact h
  | error interrupted => exact h

/-- While the selection is awaited nothing is sent. -/
theorem sentBy_awaitSelection (encryptor decryptor : Rc4) (stream : ByteStream) :
    sentBy (awaitSelection encryptor decryptor stream) EncryptedStream.inner =
      ByteStream.sent stream.log := by
  apply sentBy_of_ends (P := fun data ↦ data = ByteStream.sent stream.log)
  apply (awaitSelection_ends encryptor decryptor stream).mono
  · rintro encrypted ⟨reads, hlog⟩
    rw [hlog, ByteStream.sent_append, ByteStream.sent_reads, List.append_nil]
  · rintro interrupted ⟨reason, reads, rfl⟩
    rw [ByteStream.sent_append, ByteStream.sent_reads, List.append_nil]

/-- The inputs of both sides of a negotiation, within their limits.  The verification constant,
encrypted, does not appear in the pad before its place. -/
structure Negotiation where
  digest : Bytes → Bytes
  infoHash : Bytes
  initialPayload : Bytes
  ourKey : Bytes
  ourPad : Bytes
  theirKey : Bytes
  helloPad : Bytes
  select : ℕ
  pad : Bytes
  length_digest : ∀ data, (digest data).length = 20
  length_infoHash : infoHash.length = nodeIdLength
  initialPayload_pos : 0 < initialPayload.length
  initialPayload_le : initialPayload.length ≤ 0xFFFF
  ourPad_le : ourPad.length ≤ ourPadMax
  helloPad_le : helloPad.length ≤ maxPadLength
  select_known : select = cryptoPlaintext ∨ select = cryptoRc4
  pad_le : pad.length ≤ maxPadLength
  marker_first : FirstAfter helloPad (rc4.crypt (sessionCipher digest keyB
    (dhSecret (fromBigEndian (dhPublic (fromBigEndian theirKey))) (fromBigEndian ourKey)) infoHash)
    verificationConstant).1

namespace Negotiation

variable (N : Negotiation)

def ourPublic : Bytes := dhPublic (fromBigEndian N.ourKey)

def theirPublic : Bytes := dhPublic (fromBigEndian N.theirKey)

/-- The secret as our side derives it. -/
def secret : Bytes := dhSecret (fromBigEndian N.theirPublic) (fromBigEndian N.ourKey)

/-- The secret as the other side derives it. -/
def theirSecret : Bytes := dhSecret (fromBigEndian N.ourPublic) (fromBigEndian N.theirKey)

def negotiate (stream : ByteStream) : Except Interrupted EncryptedStream :=
  negotiateEncryption N.digest N.infoHash N.initialPayload N.ourKey N.ourPad stream

def respond (conn : ByteStream) : Except Interrupted (Option CipherConnection × ByteStream) :=
  handleConnection N.digest N.infoHash N.select N.theirKey N.helloPad N.pad conn

/-- Each side receives what the other one sends. -/
structure Conversation (ours theirs : ByteStream) : Prop where
  ours_fresh : ours.log = []
  theirs_fresh : theirs.log = []
  toTheirs : theirs.incoming = sentBy (N.negotiate ours) EncryptedStream.inner
  toOurs : ours.incoming = sentBy (N.respond theirs) Prod.snd

/-- The two confusions the responder is open to do not arise: our public key does not begin like a
plaintext handshake, and our pad does not contain the sync hash before its place. -/
structure Unmistakable : Prop where
  key : N.ourPublic.take plaintextPrefix.length ≠ plaintextPrefix
  pad : FirstAfter N.ourPad (syncHash N.digest N.secret)

theorem theirSecret_eq : N.theirSecret = N.secret := dhSecret_comm _ _

theorem valid : N.infoHash.length = nodeIdLength ∧ 0 < N.initialPayload.length ∧
    N.initialPayload.length ≤ 0xFFFF :=
  ⟨N.length_infoHash, N.initialPayload_pos, N.initialPayload_le⟩

theorem length_theirPublic : N.theirPublic.length = dhKeyLength := length_dhPublic _

theorem length_ourPublic : N.ourPublic.length = dhKeyLength := length_dhPublic _

/-! ## What is said -/

def ourHello : Bytes := N.ourPublic ++ N.ourPad

def ourRequest : Bytes := request N.digest N.infoHash N.initialPayload N.secret

def theirHello : Bytes := N.theirPublic ++ N.helloPad

def theirAnswer : Bytes × Rc4 :=
  rc4.crypt (sessionCipher N.digest keyB N.secret N.infoHash) (selection N.select N.pad)

variable {N} {ours theirs : ByteStream} {rest : Bytes}

/-- Our side begins with its hello whatever arrives. -/
theorem negotiate_begins (hfresh : ours.log = []) :
    N.ourHello <+: sentBy (N.negotiate ours) EncryptedStream.inner := by
  by_cases hshort : ours.incoming.length < dhKeyLength
  · obtain ⟨reason, hrun⟩ := negotiateEncryption_of_short N.valid N.ourKey N.ourPad hshort
    have hsent : sentBy (N.negotiate ours) EncryptedStream.inner = N.ourHello := by
      rw [negotiate, hrun, sentBy, ByteStream.sent_wrote, hfresh]
      rfl
    rw [hsent]
  · obtain ⟨next, -, hsent, hrun⟩ := negotiateEncryption_of_public N.length_digest N.valid
      N.ourKey N.ourPad (List.take_append_drop dhKeyLength ours.incoming).symm
      (List.length_take_of_le (Nat.not_lt.mp hshort))
    rw [negotiate, hrun, sentBy_awaitSelection, hsent, hfresh]
    exact List.prefix_append _ _

/-- Behind the other side's hello our side has sent its hello and its request, and waits. -/
theorem negotiate_awaits (hfresh : ours.log = []) (h : ours.incoming = N.theirHello ++ rest) :
    ∃ next : ByteStream, next.incoming = N.helloPad ++ rest ∧
      ByteStream.sent next.log = N.ourHello ++ N.ourRequest ∧
      N.negotiate ours = awaitSelection
        (hiddenRequest N.digest N.infoHash N.initialPayload N.secret).2
        (sessionCipher N.digest keyB N.secret N.infoHash) next := by
  obtain ⟨next, hnext, hsent, hrun⟩ := negotiateEncryption_of_public N.length_digest N.valid
      N.ourKey N.ourPad
    (h.trans (List.append_assoc _ _ _)) N.length_theirPublic
  rw [hfresh] at hsent
  exact ⟨next, hnext, hsent, hrun⟩

/-- Behind the other side's hello and answer our side is ready. -/
theorem negotiate_ready (hfresh : ours.log = [])
    (h : ours.incoming = N.theirHello ++ N.theirAnswer.1 ++ rest) :
    ∃ encrypted, N.negotiate ours = .ok encrypted ∧ encrypted.inner.incoming = rest ∧
      encrypted.encryptor = (if N.select = cryptoRc4 then
        some (hiddenRequest N.digest N.infoHash N.initialPayload N.secret).2 else none) ∧
      encrypted.decryptor = if N.select = cryptoRc4 then some N.theirAnswer.2 else none := by
  obtain ⟨next, hnext, -, hrun⟩ := negotiate_awaits hfresh (h.trans (List.append_assoc _ _ _))
  rw [hrun]
  exact awaitSelection_finds N.select_known N.marker_first N.helloPad_le N.pad_le
    (hnext.trans (List.append_assoc _ _ _).symm)

/-- Behind our hello the responder has sent its own and looks for the request. -/
theorem respond_answers (hfresh : theirs.log = [])
    (hkey : N.ourPublic.take plaintextPrefix.length ≠ plaintextPrefix)
    (h : theirs.incoming = N.ourHello ++ rest) :
    ∃ next : ByteStream, next.incoming = N.ourPad ++ rest ∧
      ByteStream.sent next.log = N.theirHello ∧
      N.respond theirs = answerRequest N.digest N.infoHash N.secret N.select N.pad next := by
  obtain ⟨next, hnext, hsent, hrun⟩ := handleConnection_of_public
    (h.trans (List.append_assoc _ _ _)) N.length_ourPublic hkey
  rw [hfresh] at hsent
  refine ⟨next, hnext, hsent, ?_⟩
  rw [← theirSecret_eq]
  exact hrun

theorem respond_begins (hfresh : theirs.log = []) (hclear : N.Unmistakable)
    (h : theirs.incoming = N.ourHello ++ rest) :
    N.theirHello <+: sentBy (N.respond theirs) Prod.snd := by
  obtain ⟨next, -, hsent, hrun⟩ := respond_answers hfresh hclear.key h
  rw [hrun, ← hsent]
  exact sentBy_of_ends (answerRequest_extends N.digest N.infoHash N.secret N.pad N.select next)

/-- Behind our hello and our request the responder is ready. -/
theorem respond_ready (hfresh : theirs.log = []) (hclear : N.Unmistakable)
    (h : theirs.incoming = N.ourHello ++ N.ourRequest ++ rest) :
    ∃ peer, N.respond theirs = .ok (some peer, peer.conn) ∧ peer.conn.incoming = rest ∧
      peer.pending = N.initialPayload ∧
      ByteStream.sent peer.conn.log = N.theirHello ++ N.theirAnswer.1 ∧
      peer.decryptor = (if N.select = cryptoRc4 then
        some (hiddenRequest N.digest N.infoHash N.initialPayload N.secret).2 else none) ∧
      peer.encryptor = if N.select = cryptoRc4 then some N.theirAnswer.2 else none := by
  obtain ⟨next, hnext, hsent, hrun⟩ := respond_answers hfresh hclear.key
    (h.trans (List.append_assoc _ _ _))
  rw [hrun, ← hsent]
  exact answerRequest_of N.length_digest N.select_known N.initialPayload_le hclear.pad
    (N.ourPad_le.trans (by decide)) (hnext.trans (List.append_assoc _ _ _).symm)

/-! ## Conversations -/

/-- What is heard in a conversation. -/
theorem Conversation.heard (hclear : N.Unmistakable) (h : N.Conversation ours theirs) :
    theirs.incoming = N.ourHello ++ N.ourRequest ∧
      ours.incoming = N.theirHello ++ N.theirAnswer.1 := by
  have hbegun := @negotiate_begins N ours h.ours_fresh
  rw [← h.toTheirs] at hbegun
  obtain ⟨later, hlater⟩ := hbegun
  have hgreeted := respond_begins h.theirs_fresh hclear hlater.symm
  rw [← h.toOurs] at hgreeted
  obtain ⟨answer, hanswer⟩ := hgreeted
  obtain ⟨next, -, hsent, hrun⟩ := negotiate_awaits h.ours_fresh hanswer.symm
  have htheirs : theirs.incoming = N.ourHello ++ N.ourRequest := by
    rw [h.toTheirs, hrun, sentBy_awaitSelection, hsent]
  obtain ⟨peer, hpeer, -, -, hanswered, -, -⟩ := respond_ready h.theirs_fresh hclear
    (htheirs.trans (List.append_nil _).symm)
  refine ⟨htheirs, ?_⟩
  rw [h.toOurs, hpeer, sentBy, hanswered]

/-- There is a conversation. -/
theorem exists_conversation (hclear : N.Unmistakable) :
    ∃ ours theirs, N.Conversation ours theirs := by
  refine ⟨⟨N.theirHello ++ N.theirAnswer.1, .deadline, []⟩,
    ⟨N.ourHello ++ N.ourRequest, .deadline, []⟩, rfl, rfl, ?_, ?_⟩
  · obtain ⟨next, -, hsent, hrun⟩ := @negotiate_awaits N
      ⟨N.theirHello ++ N.theirAnswer.1, .deadline, []⟩ N.theirAnswer.1 rfl rfl
    rw [hrun, sentBy_awaitSelection, hsent]
  · obtain ⟨peer, hpeer, -, -, hanswered, -, -⟩ := @respond_ready N
      ⟨N.ourHello ++ N.ourRequest, .deadline, []⟩ [] rfl hclear (List.append_nil _).symm
    rw [hpeer, sentBy, hanswered]

end Negotiation

/-! ## The session after it -/

/-- `CipherConnection.recv` on a socket that holds the bytes that have arrived. -/
def CipherConnection.recv (peer : CipherConnection) (length : ℕ) :
    Except Failure (Bytes × CipherConnection) :=
  if peer.pending ≠ [] then
    .ok (peer.pending.take length, { peer with pending := peer.pending.drop length })
  else do
    let data := peer.conn.incoming.take length
    let (plain, decryptor) ← cryptOptional peer.decryptor data
    return (plain, { peer with
      conn := { peer.conn with
        incoming := peer.conn.incoming.drop length
        log := peer.conn.log ++ [.read data] }
      decryptor := decryptor })

def CipherConnection.sendall (peer : CipherConnection) (data : Bytes) :
    Except Failure CipherConnection := do
  let (hidden, encryptor) ← cryptOptional peer.encryptor data
  return { peer with
    conn := { peer.conn with log := peer.conn.log ++ [.wrote hidden] }
    encryptor := encryptor }

/-- The two sides, what is on the way between them, and what they have said and heard so far. -/
structure EncryptedSession where
  ours : EncryptedStream
  theirs : CipherConnection
  toOurs : Bytes
  toTheirs : Bytes
  ourSaid : Bytes
  ourHeard : Bytes
  theirSaid : Bytes
  theirHeard : Bytes

inductive SessionStep where
  | ourWrite (data : Bytes)
  | ourRead (length : ℕ)
  | theirSend (data : Bytes)
  | theirRecv (length : ℕ)
  | arriveOurs (count : ℕ)
  | arriveTheirs (count : ℕ)

namespace EncryptedSession

def start (ours : EncryptedStream) (theirs : CipherConnection) : EncryptedSession :=
  ⟨ours, theirs, [], [], [], [], [], []⟩

/-- What a stream has sent since it had this log. -/
def sentSince (log log' : List Transfer) : Bytes :=
  (ByteStream.sent log').drop (ByteStream.sent log).length

/-- A read of our side waits for all its bytes, one of the other side for the first. -/
def step (s : EncryptedSession) : SessionStep → Option EncryptedSession
  | .ourWrite data =>
    match s.ours.write data with
    | .error _ => none
    | .ok ours => some { s with
        ours := ours
        toTheirs := s.toTheirs ++ sentSince s.ours.inner.log ours.inner.log
        ourSaid := s.ourSaid ++ data }
  | .ourRead length =>
    match s.ours.readExactly length .closed with
    | .error _ => none
    | .ok (data, ours) => some { s with ours := ours, ourHeard := s.ourHeard ++ data }
  | .theirSend data =>
    match s.theirs.sendall data with
    | .error _ => none
    | .ok theirs => some { s with
        theirs := theirs
        toOurs := s.toOurs ++ sentSince s.theirs.conn.log theirs.conn.log
        theirSaid := s.theirSaid ++ data }
  | .theirRecv length =>
    if s.theirs.pending = [] ∧ s.theirs.conn.incoming = [] then none
    else match s.theirs.recv length with
      | .error _ => none
      | .ok (data, theirs) => some { s with theirs := theirs, theirHeard := s.theirHeard ++ data }
  | .arriveOurs count => some { s with
      ours := { s.ours with inner := { s.ours.inner with
        incoming := s.ours.inner.incoming ++ s.toOurs.take count } }
      toOurs := s.toOurs.drop count }
  | .arriveTheirs count => some { s with
      theirs := { s.theirs with conn := { s.theirs.conn with
        incoming := s.theirs.conn.incoming ++ s.toTheirs.take count } }
      toTheirs := s.toTheirs.drop count }

def machine : Machine EncryptedSession SessionStep := ⟨step⟩

/-- What each side has heard is the beginning of what the other side has said, the payload of the
negotiation first; the rest is still to be read, and can be read as soon as it has arrived. -/
structure Faithful (payload : Bytes) (s : EncryptedSession) : Prop where
  ours : ∃ rest, s.theirSaid = s.ourHeard ++ rest ∧
    rest.length = s.ours.inner.incoming.length + s.toOurs.length
  theirs : ∃ rest, payload ++ s.ourSaid = s.theirHeard ++ s.theirs.pending ++ rest ∧
    rest.length = s.theirs.conn.incoming.length + s.toTheirs.length
  read : ∀ length, 0 < length → length ≤ s.ours.inner.incoming.length →
    ∃ s', s.step (.ourRead length) = some s' ∧
      s'.ourHeard = s.theirSaid.take (s.ourHeard.length + length)
  recv : ∀ length, 0 < length → s.theirs.pending ≠ [] ∨ s.theirs.conn.incoming ≠ [] →
    ∃ s', s.step (.theirRecv length) = some s' ∧ s.theirHeard.length < s'.theirHeard.length

/-- Decryptors and encryptors are in step over what is on the way. -/
structure InStep (payload : Bytes) (s : EncryptedSession) : Prop where
  ours : ∃ rest, s.theirSaid = s.ourHeard ++ rest ∧
    rc4.optional.Carries s.ours.decryptor (s.ours.inner.incoming ++ s.toOurs)
      s.theirs.encryptor rest
  theirs : ∃ rest, payload ++ s.ourSaid = s.theirHeard ++ s.theirs.pending ++ rest ∧
    rc4.optional.Carries s.theirs.decryptor (s.theirs.conn.incoming ++ s.toTheirs)
      s.ours.encryptor rest

theorem sentSince_wrote (log : List Transfer) (data : Bytes) :
    sentSince log (log ++ [.wrote data]) = data := by
  rw [sentSince, ByteStream.sent_wrote, List.drop_left]

variable {s s' : EncryptedSession} {payload data : Bytes} {length : ℕ}

theorem write_eq (stream : EncryptedStream) (h : data ≠ []) :
    stream.write data = .ok
      ⟨{ stream.inner with
          log := stream.inner.log ++ [.wrote (rc4.optional.crypt stream.encryptor data).1] },
        (rc4.optional.crypt stream.encryptor data).2, stream.decryptor⟩ := by
  have hhidden : (rc4.optional.crypt stream.encryptor data).1 ≠ [] := by
    apply List.ne_nil_of_length_pos
    rw [rc4.optional.length_crypt]
    exact List.length_pos_of_ne_nil h
  unfold EncryptedStream.write
  rw [assert_true h, ByteStream.call_eq_ok rfl, ok_bind, cryptOptional_eq,
    ByteStream.call_eq_ok rfl, ok_bind]
  simp only
  rw [ByteStream.write_eq_ok hhidden]
  rfl

theorem readExactly_eq (stream : EncryptedStream) (hpos : 0 < length)
    (hle : length ≤ stream.inner.incoming.length) :
    stream.readExactly length .closed = .ok
      ((rc4.optional.crypt stream.decryptor (stream.inner.incoming.take length)).1,
        ⟨⟨stream.inner.incoming.drop length, stream.inner.ending,
            stream.inner.log ++ [.read (stream.inner.incoming.take length)]⟩, stream.encryptor,
          (rc4.optional.crypt stream.decryptor (stream.inner.incoming.take length)).2⟩) := by
  have hlength : (rc4.optional.crypt stream.decryptor
      (stream.inner.incoming.take length)).1.length = length := by
    rw [rc4.optional.length_crypt, List.length_take_of_le hle]
  unfold EncryptedStream.readExactly
  rw [assert_true hpos, ByteStream.call_eq_ok rfl, ok_bind, ByteStream.readExactly,
    if_neg (by omega), if_pos hle, ok_bind]
  simp only
  rw [cryptOptional_eq, ByteStream.call_eq_ok rfl, ok_bind, assert_true hlength,
    ByteStream.call_eq_ok rfl]
  rfl

theorem bounds_of_readExactly {stream : EncryptedStream} {result : Bytes × EncryptedStream}
    (h : stream.readExactly length .closed = .ok result) :
    0 < length ∧ length ≤ stream.inner.incoming.length := by
  unfold EncryptedStream.readExactly at h
  by_cases hpos : 0 < length
  · refine ⟨hpos, ?_⟩
    by_contra hshort
    obtain ⟨reason, hread⟩ := @ByteStream.readExactly_of_short stream.inner length .closed
      (Nat.lt_of_not_le hshort)
    rw [assert_true hpos, ByteStream.call_eq_ok rfl, ok_bind, hread] at h
    cases h
  · rw [assert, if_neg hpos] at h
    cases h

theorem sendall_eq (peer : CipherConnection) (data : Bytes) :
    peer.sendall data = .ok { peer with
      conn := { peer.conn with
        log := peer.conn.log ++ [.wrote (rc4.optional.crypt peer.encryptor data).1] }
      encryptor := (rc4.optional.crypt peer.encryptor data).2 } := by
  unfold CipherConnection.sendall
  rw [cryptOptional_eq, ok_bind]
  rfl

theorem recv_eq (peer : CipherConnection) (length : ℕ) (h : peer.pending = []) :
    peer.recv length = .ok
      ((rc4.optional.crypt peer.decryptor (peer.conn.incoming.take length)).1, { peer with
        conn := { peer.conn with
          incoming := peer.conn.incoming.drop length
          log := peer.conn.log ++ [.read (peer.conn.incoming.take length)] }
        decryptor := (rc4.optional.crypt peer.decryptor (peer.conn.incoming.take length)).2 }) := by
  unfold CipherConnection.recv
  rw [if_neg (not_not_intro h)]
  simp only
  rw [cryptOptional_eq, ok_bind]
  rfl

/-- One step keeps both directions in step. -/
theorem inStep_step {label : SessionStep} (h : InStep payload s) (hstep : s.step label = some s') :
    InStep payload s' := by
  obtain ⟨⟨ourRest, hourSaid, hours⟩, theirRest, htheirSaid, htheirs⟩ := h
  cases label with
  | ourWrite data =>
    have hdata : data ≠ [] := by
      rintro rfl
      cases hstep
    rw [step, write_eq _ hdata, Option.some.injEq] at hstep
    subst hstep
    refine ⟨⟨ourRest, hourSaid, hours⟩, theirRest ++ data, ?_, ?_⟩
    · rw [← List.append_assoc, htheirSaid]
      simp only [List.append_assoc]
    · rw [sentSince_wrote, ← List.append_assoc]
      exact htheirs.write data
  | ourRead length =>
    rw [step] at hstep
    cases hread : s.ours.readExactly length .closed with
    | error e =>
      rw [hread] at hstep
      cases hstep
    | ok result =>
      obtain ⟨hpos, hle⟩ := bounds_of_readExactly hread
      rw [readExactly_eq _ hpos hle, Option.some.injEq] at hstep
      subst hstep
      rw [← List.take_append_drop length s.ours.inner.incoming, List.append_assoc] at hours
      obtain ⟨rest, rfl, hrest⟩ := hours.read
      exact ⟨⟨rest, hourSaid.trans (List.append_assoc _ _ _).symm, hrest⟩, theirRest, htheirSaid,
        htheirs⟩
  | theirSend data =>
    rw [step, sendall_eq, Option.some.injEq] at hstep
    subst hstep
    refine ⟨⟨ourRest ++ data, ?_, ?_⟩, theirRest, htheirSaid, htheirs⟩
    · rw [hourSaid, List.append_assoc]
    · rw [sentSince_wrote, ← List.append_assoc]
      exact hours.write data
  | theirRecv length =>
    rw [step] at hstep
    split at hstep
    · cases hstep
    by_cases hpending : s.theirs.pending = []
    · rw [recv_eq _ length hpending, Option.some.injEq] at hstep
      subst hstep
      rw [← List.take_append_drop length s.theirs.conn.incoming, List.append_assoc] at htheirs
      obtain ⟨rest, rfl, hrest⟩ := htheirs.read
      refine ⟨⟨ourRest, hourSaid, hours⟩, rest, ?_, hrest⟩
      rw [htheirSaid, hpending]
      simp only [List.append_nil, List.append_assoc]
    · rw [CipherConnection.recv, if_pos hpending, Option.some.injEq] at hstep
      subst hstep
      refine ⟨⟨ourRest, hourSaid, hours⟩, theirRest, ?_, htheirs⟩
      rw [htheirSaid]
      simp only [List.append_assoc]
      rw [← List.append_assoc (s.theirs.pending.take length), List.take_append_drop]
  | arriveOurs count =>
    rw [step, Option.some.injEq] at hstep
    subst hstep
    refine ⟨⟨ourRest, hourSaid, ?_⟩, theirRest, htheirSaid, htheirs⟩
    rw [List.append_assoc, List.take_append_drop]
    exact hours
  | arriveTheirs count =>
    rw [step, Option.some.injEq] at hstep
    subst hstep
    refine ⟨⟨ourRest, hourSaid, hours⟩, theirRest, htheirSaid, ?_⟩
    rw [List.append_assoc, List.take_append_drop]
    exact htheirs

theorem inStep_start {ours : EncryptedStream} {theirs : CipherConnection}
    (hours : ours.inner.incoming = []) (htheirs : theirs.conn.incoming = [])
    (houtward : ours.encryptor = theirs.decryptor) (hinward : ours.decryptor = theirs.encryptor) :
    InStep theirs.pending (start ours theirs) := by
  refine ⟨⟨[], rfl, ?_⟩, [], ?_, ?_⟩
  · simp only [start, hours, hinward, List.append_nil]
    exact StreamCipher.Carries.start _
  · simp only [start, List.append_nil, List.nil_append]
  · simp only [start, htheirs, houtward, List.append_nil]
    exact StreamCipher.Carries.start _

theorem faithful_of_inStep (h : InStep payload s) : s.Faithful payload := by
  obtain ⟨⟨ourRest, hourSaid, hours⟩, theirRest, htheirSaid, htheirs⟩ := h
  refine ⟨⟨ourRest, hourSaid, ?_⟩, ⟨theirRest, htheirSaid, ?_⟩, fun length hpos hle ↦ ?_,
    fun length hpos hsome ↦ ?_⟩
  · rw [← hours.length, List.length_append]
  · rw [← htheirs.length, List.length_append]
  · refine ⟨_, by rw [step, readExactly_eq _ hpos hle], ?_⟩
    rw [← List.take_append_drop length s.ours.inner.incoming, List.append_assoc] at hours
    obtain ⟨rest, rfl, -⟩ := hours.read
    have hlength := rc4.optional.length_crypt s.ours.decryptor (s.ours.inner.incoming.take length)
    rw [List.length_take_of_le hle] at hlength
    simp only
    rw [hourSaid, List.take_length_add_append, List.take_left' hlength]
  · have hnot : ¬(s.theirs.pending = [] ∧ s.theirs.conn.incoming = []) := by
      rintro ⟨hpending, hincoming⟩
      exact hsome.elim (absurd hpending) (absurd hincoming)
    by_cases hpending : s.theirs.pending = []
    · refine ⟨_, by rw [step, if_neg hnot, recv_eq _ length hpending], ?_⟩
      have hincoming := List.length_pos_of_ne_nil fun hnil ↦ hnot ⟨hpending, hnil⟩
      simp only [List.length_append, rc4.optional.length_crypt, List.length_take]
      omega
    · refine ⟨_, by rw [step, if_neg hnot, CipherConnection.recv, if_pos hpending], ?_⟩
      have hlength := List.length_pos_of_ne_nil hpending
      simp only [List.length_append, List.length_take]
      omega

theorem faithful_of_run {ours : EncryptedStream} {theirs : CipherConnection}
    (h : InStep payload (start ours theirs)) {steps : List SessionStep}
    (hrun : machine.run (start ours theirs) steps = some s) : s.Faithful payload :=
  faithful_of_inStep (machine.run_invariant (fun _ _ _ hs hstep ↦ inStep_step hs hstep) h hrun)

end EncryptedSession

open EncryptedSession

/-- A negotiation agrees with every responder that cannot mistake it, and so does the session after
it; whatever arrives, it fails only with a fetch error and its search is bounded. -/
theorem negotiation_agrees (N : Negotiation) :
    (∀ stream, Ends (N.negotiate stream) (fun _ ↦ True)
      fun interrupted ↦ ∃ reason, interrupted.error = .fetch reason) ∧
    (∀ marker window stream, Ends (searchMarker marker window stream)
      (fun next ↦ ∃ reads, FewSingles reads ∧ stream.Advanced reads next)
      fun interrupted ↦ ∃ reason reads, FewSingles reads ∧
        interrupted = ⟨.fetch reason, stream.log ++ reads.map .read⟩) ∧
    (N.Unmistakable → (∃ ours theirs, N.Conversation ours theirs) ∧
      ∀ ours theirs, N.Conversation ours theirs → ∃ encrypted peer,
        N.negotiate ours = .ok encrypted ∧ N.respond theirs = .ok (some peer, peer.conn) ∧
        N.theirSecret = N.secret ∧ encrypted.encryptor = peer.decryptor ∧
        encrypted.decryptor = peer.encryptor ∧
        (encrypted.encryptor.isSome ↔ N.select = cryptoRc4) ∧
        peer.pending = N.initialPayload ∧
        ∀ steps s, machine.run (start encrypted peer) steps = some s →
          s.Faithful N.initialPayload) := by
  refine ⟨negotiateEncryption_ends N.length_digest N.valid N.ourKey N.ourPad, searchMarker_ends,
    fun hclear ↦ ⟨Negotiation.exists_conversation hclear, fun ours theirs hconversation ↦ ?_⟩⟩
  obtain ⟨htheirs, hours⟩ := hconversation.heard hclear
  obtain ⟨encrypted, hnegotiate, hinner, hencryptor, hdecryptor⟩ :=
    Negotiation.negotiate_ready hconversation.ours_fresh (hours.trans (List.append_nil _).symm)
  obtain ⟨peer, hrespond, hconn, hpending, -, hdecryptor', hencryptor'⟩ :=
    Negotiation.respond_ready hconversation.theirs_fresh hclear
      (htheirs.trans (List.append_nil _).symm)
  have houtward : encrypted.encryptor = peer.decryptor := hencryptor.trans hdecryptor'.symm
  have hinward : encrypted.decryptor = peer.encryptor := hdecryptor.trans hencryptor'.symm
  refine ⟨encrypted, peer, hnegotiate, hrespond, N.theirSecret_eq, houtward, hinward, ?_, hpending,
    fun steps s hrun ↦ ?_⟩
  · rw [hencryptor]
    split <;> simp [*]
  · have hstart := inStep_start hinner hconn houtward hinward
    rw [hpending] at hstart
    exact faithful_of_run hstart hrun

/-! Two negotiations with the private keys zero.  The digest tells only the prefixes of the hashed
bytes apart. -/

def prefixDigest (data : Bytes) : Bytes :=
  if data.take 4 = req2 then List.replicate 20 1 else List.replicate 20 0

theorem length_prefixDigest (data : Bytes) : (prefixDigest data).length = 20 := by
  unfold prefixDigest
  split <;> rfl

def someNegotiation (ourPad : Bytes) (h : ourPad.length ≤ ourPadMax) : Negotiation where
  digest := prefixDigest
  infoHash := List.replicate 20 0
  initialPayload := [1]
  ourKey := []
  ourPad := ourPad
  theirKey := []
  helloPad := []
  select := cryptoRc4
  pad := []
  length_digest := length_prefixDigest
  length_infoHash := rfl
  initialPayload_pos := by decide
  initialPayload_le := by decide
  ourPad_le := h
  helloPad_le := by decide
  select_known := Or.inr rfl
  pad_le := by decide
  marker_first := firstAfter_nil _

theorem someNegotiation_key (ourPad : Bytes) (h : ourPad.length ≤ ourPadMax) :
    (someNegotiation ourPad h).ourPublic.take plaintextPrefix.length ≠ plaintextPrefix := by
  change (dhPublic (fromBigEndian [])).take plaintextPrefix.length ≠ plaintextPrefix
  rw [dhPublic, powMod_eq]
  decide

/-- The first byte of the encrypted verification constant that our side looks for. -/
def markerByte : UInt8 :=
  rc4.mask (rc4.next (mseState (List.replicate 20 0))).1 0

theorem firstAfter_marker (n : ℕ) (ourPad : Bytes) (h : ourPad.length ≤ ourPadMax) :
    FirstAfter (List.replicate n (markerByte + 1))
      (rc4.crypt (sessionCipher prefixDigest keyB (someNegotiation ourPad h).secret
        (someNegotiation ourPad h).infoHash) verificationConstant).1 := by
  have hcipher (secret infoHash : Bytes) :
      sessionCipher prefixDigest keyB secret infoHash = mseState (List.replicate 20 0) := rfl
  have hne : markerByte + 1 ≠ markerByte := by simp
  rw [hcipher]
  exact firstAfter_replicate hne n _

/-- A negotiation with pads at each of its three places. -/
def paddedNegotiation : Negotiation :=
  { someNegotiation [7, 7] (by decide) with
    helloPad := List.replicate 3 (markerByte + 1)
    pad := [6, 6, 6, 6]
    helloPad_le := List.length_replicate.trans_le (by decide)
    pad_le := by decide
    marker_first := firstAfter_marker 3 [7, 7] (by decide) }

theorem negotiation_agrees_padded : ∃ ours theirs encrypted peer,
    paddedNegotiation.Conversation ours theirs ∧
      paddedNegotiation.negotiate ours = .ok encrypted ∧
      paddedNegotiation.respond theirs = .ok (some peer, peer.conn) ∧
      encrypted.encryptor.isSome ∧ encrypted.encryptor = peer.decryptor ∧ peer.pending = [1] := by
  have hclear : paddedNegotiation.Unmistakable :=
    ⟨someNegotiation_key [7, 7] (by decide), firstAfter_replicate (by decide) 2 _⟩
  obtain ⟨⟨ours, theirs, hconversation⟩, hagree⟩ := (negotiation_agrees paddedNegotiation).2.2 hclear
  obtain ⟨encrypted, peer, hours, htheirs, -, houtward, -, hselect, hpending, -⟩ :=
    hagree ours theirs hconversation
  exact ⟨ours, theirs, encrypted, peer, hconversation, hours, htheirs, hselect.mpr rfl, houtward,
    hpending⟩

/-- A pad of one zero byte before a sync hash of twenty: the responder finds the hash one byte early,
reads on and gives the connection up. -/
theorem pad_confuses_responder :
    ¬∀ (N : Negotiation) (ours theirs : ByteStream), N.Conversation ours theirs →
      ∃ encrypted, N.negotiate ours = .ok encrypted := by
  intro hall
  let N := someNegotiation [0] (by decide)
  let ours : ByteStream := ⟨N.theirHello, .deadline, []⟩
  let theirs : ByteStream := ⟨N.ourHello ++ N.ourRequest, .deadline, []⟩
  obtain ⟨awaiting, hawaiting, hsent, hours⟩ := @Negotiation.negotiate_awaits N ours [] rfl
    (List.append_nil _).symm
  obtain ⟨looking, hlooking, hgreeted, htheirs⟩ := @Negotiation.respond_answers N theirs
    N.ourRequest rfl (someNegotiation_key [0] (by decide)) rfl
  have hsync : syncHash N.digest N.secret = List.replicate 20 0 := rfl
  have hhidden : hiddenInfoHash N.digest N.infoHash N.secret = List.replicate 20 1 := rfl
  have hpad : N.ourPad = [0] := rfl
  have hshape (hidden : Bytes) : [0] ++ (List.replicate 20 0 ++ List.replicate 20 1 ++ hidden) =
      [] ++ List.replicate 20 0 ++ ((0 :: List.replicate 19 1) ++ (1 :: hidden)) := rfl
  have hearly : looking.incoming = [] ++ syncHash N.digest N.secret ++
      ((0 :: List.replicate 19 1) ++
        (1 :: (hiddenRequest N.digest N.infoHash N.initialPayload N.secret).1)) := by
    rw [hlooking, hpad, Negotiation.ourRequest, request, hsync, hhidden]
    exact hshape _
  obtain ⟨refused, hrefused, hquiet⟩ := answerRequest_refuses (firstAfter_nil _) (by decide)
    hearly rfl (by rw [hhidden]; decide)
  have hconversation : N.Conversation ours theirs := by
    refine ⟨rfl, rfl, ?_, ?_⟩
    · rw [hours, sentBy_awaitSelection, hsent]
    · rw [htheirs, hrefused, sentBy, hquiet, hgreeted]
  obtain ⟨encrypted, hok⟩ := hall N ours theirs hconversation
  -- nothing more arrives, so our side does not get its first window
  have hshort : awaiting.incoming.length <
      (rc4.crypt (sessionCipher N.digest keyB N.secret N.infoHash)
        verificationConstant).1.length := by
    rw [hawaiting, rc4.length_crypt]
    decide
  obtain ⟨reason, hread⟩ := ByteStream.readExactly_of_short .closed hshort
  rw [hours, awaitSelection, Rc4.crypt_eq, ByteStream.call_eq_ok rfl, ok_bind] at hok
  simp only [hread, error_bind] at hok
  cases hok

end DhtScraper
