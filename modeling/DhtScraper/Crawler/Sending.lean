import DhtScraper.Library.Windows
import DhtScraper.Codec.Bencode

/-!
# Sending datagrams

`send_message` of the crawler: the cap on packets per address, the socket call and the counters.
Whether `sendto` succeeds is an input of each call.  `sent` records what has left a socket.
-/

namespace DhtScraper

open Library

/-- `AF_INET` and `AF_INET6`. -/
inductive AddressFamily where
  | inet
  | inet6
  deriving DecidableEq

/-- One UDP socket of the crawler; `udpSocket` stands for the socket object. -/
structure NodeSocket where
  udpSocket : ℕ
  ownId : Bytes
  port : ℤ
  family : AddressFamily
  deriving DecidableEq

/-- A KRPC message, the items of a dictionary. -/
abbrev Message := List (Bytes × BencodeValue)

def perAddressWindowSeconds : ℚ := 10
def perAddressMaxPackets : ℕ := 40
def sendWindowEntries : ℕ := 65536

/-- A call of `send_message`, with the clock reading it makes and what `sendto` answers. -/
structure SendCall where
  now : ℚ
  nodeSocket : NodeSocket
  message : Message
  address : Address
  delivered : Bool

/-- What `send_message` reads and writes, and the packets that were sent. -/
structure Sender where
  sendWindows : OrderedMap Text (ℚ × ℕ)
  packetsSent : ℕ
  packetsThrottled : ℕ
  sent : List SendCall

namespace Sender

def new : Sender := ⟨.empty, 0, 0, []⟩

/-- `allow_send`. -/
def allowSend (s : Sender) (ip : Text) (now : ℚ) : Sender × Bool :=
  match s.sendWindows.get? ip with
  | none =>
    ({ s with sendWindows := (remember s.sendWindows ip (now, 1) sendWindowEntries).1 }, true)
  | some window =>
    if perAddressWindowSeconds ≤ now - window.1 then
      ({ s with sendWindows := (remember s.sendWindows ip (now, 1) sendWindowEntries).1 }, true)
    else if perAddressMaxPackets ≤ window.2 then (s, false)
    else ({ s with sendWindows := s.sendWindows.insert ip (window.1, window.2 + 1) }, true)

/-- `send_message`. -/
def sendMessage (s : Sender) (call : SendCall) : Sender × Bool :=
  let (s, allowed) := s.allowSend call.address.1 call.now
  if !allowed then ({ s with packetsThrottled := s.packetsThrottled + 1 }, false)
  else if !call.delivered then (s, false)
  else ({ s with packetsSent := s.packetsSent + 1, sent := s.sent ++ [call] }, true)

def run (s : Sender) (calls : List SendCall) : Sender :=
  calls.foldl (fun s call ↦ (s.sendMessage call).1) s

/-! ## One address at a time -/

/-- The calls that address `ip`. -/
def callsTo (ip : Text) (calls : List SendCall) : List SendCall :=
  calls.filter fun call ↦ call.address.1 = ip

/-- Every address with a window is one of `ips`. -/
def WindowsWithin (s : Sender) (ips : List Text) : Prop := ∀ ip ∈ s.sendWindows.keys, ip ∈ ips

theorem WindowsWithin.insertLast_fits {s : Sender} {ips : List Text} (h : s.WindowsWithin ips)
    (hfew : ips.dedup.length ≤ sendWindowEntries) {ip : Text} (hip : ip ∈ ips) (window : ℚ × ℕ) :
    (s.sendWindows.insertLast ip window).size ≤ sendWindowEntries := by
  have hsubset : (s.sendWindows.insertLast ip window).keys ⊆ ips.dedup := by
    intro k hk
    rw [List.mem_dedup]
    rw [← OrderedMap.get?_isSome_iff, OrderedMap.get?_insertLast] at hk
    split at hk
    · rename_i heq
      exact heq ▸ hip
    · exact h k (OrderedMap.get?_isSome_iff.mp hk)
  have hlength := (List.subperm_of_subset (s.sendWindows.insertLast ip window).nodup hsubset).length_le
  rw [List.length_map] at hlength
  exact hlength.trans hfew

/-- `allow_send` is the counter of `allowance` for its address and leaves the others alone, as long as
no window is dropped for lack of room. -/
theorem allowSend_spec {s : Sender} {ips : List Text} (h : s.WindowsWithin ips)
    (hfew : ips.dedup.length ≤ sendWindowEntries) {ip : Text} (hip : ip ∈ ips) (now : ℚ) :
    (s.allowSend ip now).2 = (allowance perAddressWindowSeconds perAddressMaxPackets
        (s.sendWindows.get? ip) now).2 ∧
      (∀ k, (s.allowSend ip now).1.sendWindows.get? k =
        if k = ip then some (allowance perAddressWindowSeconds perAddressMaxPackets
          (s.sendWindows.get? ip) now).1 else s.sendWindows.get? k) ∧
      (s.allowSend ip now).1.sent = s.sent := by
  have hremember := remember_of_fits s.sendWindows ip (now, 1) (h.insertLast_fits hfew hip (now, 1))
  rw [allowSend, hremember]
  cases hwindow : s.sendWindows.get? ip with
  | none => exact ⟨rfl, fun k ↦ OrderedMap.get?_insertLast _ _ _ _, rfl⟩
  | some window =>
    obtain ⟨start, count⟩ := window
    by_cases hlate : perAddressWindowSeconds ≤ now - start
    · simp only [allowance, if_pos hlate]
      exact ⟨trivial, fun k ↦ OrderedMap.get?_insertLast _ _ _ _, trivial⟩
    · by_cases hfull : perAddressMaxPackets ≤ count
      · simp only [allowance, if_neg hlate, if_pos hfull]
        refine ⟨trivial, fun k ↦ ?_, trivial⟩
        split
        · rename_i heq
          rw [heq, hwindow]
        · rfl
      · simp only [allowance, if_neg hlate, if_neg hfull]
        exact ⟨trivial, fun k ↦ OrderedMap.get?_insert _ _ _ _, trivial⟩

/-- One call: its own counter moves, and it is recorded when it is admitted and delivered. -/
theorem sendMessage_spec {s : Sender} {ips : List Text} (h : s.WindowsWithin ips)
    (hfew : ips.dedup.length ≤ sendWindowEntries) {call : SendCall} (hip : call.address.1 ∈ ips) :
    (s.sendMessage call).1.WindowsWithin ips ∧
      (∀ k, (s.sendMessage call).1.sendWindows.get? k =
        if k = call.address.1 then some (allowance perAddressWindowSeconds perAddressMaxPackets
          (s.sendWindows.get? call.address.1) call.now).1 else s.sendWindows.get? k) ∧
      (s.sendMessage call).1.sent = s.sent ++ if (allowance perAddressWindowSeconds perAddressMaxPackets
        (s.sendWindows.get? call.address.1) call.now).2 && call.delivered then [call] else [] := by
  obtain ⟨hallowed, hwindows, hsent⟩ := allowSend_spec h hfew hip call.now
  have hstate : (s.sendMessage call).1.sendWindows =
      (s.allowSend call.address.1 call.now).1.sendWindows := by
    simp only [sendMessage]
    split
    · rfl
    · split <;> rfl
  refine ⟨?_, fun k ↦ by rw [hstate, hwindows], ?_⟩
  · intro k hk
    rw [hstate, ← OrderedMap.get?_isSome_iff, hwindows] at hk
    split at hk
    · rename_i heq
      exact heq ▸ hip
    · exact h k (OrderedMap.get?_isSome_iff.mp hk)
  · rw [← hallowed, ← hsent]
    simp only [sendMessage]
    cases (s.allowSend call.address.1 call.now).2 <;> cases call.delivered <;> simp

/-- What a run sends to one address: the delivered ones of the calls that the counter admits. -/
theorem sent_run {ips : List Text} (hfew : ips.dedup.length ≤ sendWindowEntries) (ip : Text)
    (calls : List SendCall) : ∀ s : Sender, s.WindowsWithin ips →
      (∀ call ∈ calls, call.address.1 ∈ ips) →
        callsTo ip (s.run calls).sent = callsTo ip s.sent ++
          (admitted SendCall.now perAddressWindowSeconds perAddressMaxPackets
            (s.sendWindows.get? ip) (callsTo ip calls)).filter SendCall.delivered := by
  induction calls with
  | nil =>
    intro s _ _
    simp [run, callsTo, admitted]
  | cons call rest ih =>
    intro s h hips
    obtain ⟨hhead, htail⟩ := List.forall_mem_cons.mp hips
    obtain ⟨hwithin, hwindows, hsent⟩ := sendMessage_spec h hfew hhead
    have hrun : s.run (call :: rest) = (s.sendMessage call).1.run rest := rfl
    rw [hrun, ih _ hwithin htail, hsent, hwindows]
    by_cases hip : call.address.1 = ip
    · subst hip
      simp only [callsTo, decide_true, List.filter_cons_of_pos, if_true, admitted]
      rw [List.filter_append]
      cases (allowance perAddressWindowSeconds perAddressMaxPackets
        (s.sendWindows.get? call.address.1) call.now).2 <;> cases hdelivered : call.delivered <;>
        simp [hdelivered]
    · have hne : ip ≠ call.address.1 := fun heq ↦ hip heq.symm
      have hskip (passes : Bool) : callsTo ip (if passes then [call] else []) = [] := by
        cases passes <;> simp [callsTo, hip]
      have hcalls : callsTo ip (call :: rest) = callsTo ip rest := by simp [callsTo, hip]
      rw [if_neg hne, hcalls, callsTo, List.filter_append]
      have hnone := hskip ((allowance perAddressWindowSeconds perAddressMaxPackets
        (s.sendWindows.get? call.address.1) call.now).2 && call.delivered)
      rw [callsTo] at hnone
      rw [hnone, List.append_nil]
      rfl

/-! ## The cap -/

/-- The packets sent to `ip` in the ten seconds from `t` on. -/
def packetsDuring (s : Sender) (ip : Text) (t : ℚ) : ℕ :=
  s.sent.countP fun call ↦
    decide (call.address.1 = ip) && (t ≤ call.now && call.now < t + perAddressWindowSeconds)

/-- The calls for `ip` fall into windows of ten seconds, each starting with the first call after the
one before.  From any moment `x` on, the packets of the first forty calls of one window made since
`x`, and those of the first forty calls of the next made before `x` plus ten seconds, are at most
forty together. -/
def WindowsSpaced (ip : Text) (calls : List SendCall) : Prop :=
  (windows SendCall.now perAddressWindowSeconds (callsTo ip calls)).IsChain
    (Spaced SendCall.now perAddressWindowSeconds perAddressMaxPackets SendCall.delivered)

theorem packetsDuring_run {calls : List SendCall}
    (hfew : ((calls.map fun call ↦ call.address.1).dedup).length ≤ sendWindowEntries) (ip : Text)
    (t : ℚ) : (new.run calls).packetsDuring ip t =
      countFrom SendCall.now perAddressWindowSeconds SendCall.delivered t
        (admitted SendCall.now perAddressWindowSeconds perAddressMaxPackets none
          (callsTo ip calls)) := by
  have hwithin : new.WindowsWithin (calls.map fun call ↦ call.address.1) := by
    intro k hk
    cases hk
  have hsent := sent_run hfew ip calls new hwithin fun call hcall ↦ List.mem_map_of_mem hcall
  have hcount : (new.run calls).packetsDuring ip t = (callsTo ip (new.run calls).sent).countP
      fun call ↦ t ≤ call.now && call.now < t + perAddressWindowSeconds := by
    rw [packetsDuring, callsTo, List.countP_filter]
    apply List.countP_congr
    intro call _
    rw [Bool.and_comm]
  rw [hcount, hsent, countFrom]
  have hnone : new.sendWindows.get? ip = none := rfl
  have hnil : callsTo ip new.sent = [] := rfl
  rw [hnone, hnil, List.nil_append, List.countP_filter]
  apply List.countP_congr
  intro call _
  rw [Bool.and_comm]

/-- No address gets more than forty packets in any ten seconds exactly when the windows of the calls
to every address are spaced. -/
theorem send_cap_iff (calls : List SendCall)
    (hclock : calls.Pairwise fun call later ↦ call.now ≤ later.now)
    (hfew : ((calls.map fun call ↦ call.address.1).dedup).length ≤ sendWindowEntries) :
    (∀ ip t, (new.run calls).packetsDuring ip t ≤ perAddressMaxPackets) ↔
      ∀ ip, WindowsSpaced ip calls := by
  apply forall_congr'
  intro ip
  simp only [packetsDuring_run hfew]
  exact countFrom_admitted_le_iff (by decide) (hclock.filter _)

/-- One packet, thirty-nine nine seconds later, and forty as soon as the window is over. -/
def burstCalls : List SendCall :=
  let call (now : ℚ) : SendCall := ⟨now, ⟨0, [], 0, .inet⟩, [], (['8'], 1), true⟩
  call 0 :: (List.replicate 39 (call 9) ++ List.replicate 40 (call 10))

/-- Seventy-nine packets go to one address within the ten seconds that start at 9. -/
theorem send_cap_exceeded :
    burstCalls.Pairwise (fun call later ↦ call.now ≤ later.now) ∧
      ((burstCalls.map fun call ↦ call.address.1).dedup).length ≤ sendWindowEntries ∧
        perAddressMaxPackets < (new.run burstCalls).packetsDuring ['8'] 9 := by
  decide +kernel

/-- Forty-five calls of one window, of which the counter refuses five, and forty calls ten seconds
after the last ones. -/
def fullCalls : List SendCall :=
  let call (now : ℚ) : SendCall := ⟨now, ⟨0, [], 0, .inet⟩, [], (['8'], 1), true⟩
  call 0 :: (List.replicate 44 (call 9) ++ List.replicate 40 (call 19))

/-- Two full windows do not exceed the cap when they are apart. -/
theorem send_cap_iff_full :
    (new.run fullCalls).sent.length + 5 = fullCalls.length ∧
      (new.run fullCalls).packetsDuring ['8'] 0 = perAddressMaxPackets ∧
        (new.run fullCalls).packetsDuring ['8'] 19 = perAddressMaxPackets ∧
          ∀ ip, WindowsSpaced ip fullCalls := by
  refine ⟨by decide +kernel, by decide +kernel, by decide +kernel,
    (send_cap_iff fullCalls (by decide +kernel) (by decide +kernel)).mp fun ip t ↦ ?_⟩
  have hsent : (new.run fullCalls).sent.map (fun call ↦ (call.address.1, call.now)) =
      (['8'], 0) :: (List.replicate 39 (['8'], 9) ++ List.replicate 40 (['8'], 19)) := by
    decide +kernel
  have hcount : (new.run fullCalls).packetsDuring ip t =
      ((new.run fullCalls).sent.map fun call ↦ (call.address.1, call.now)).countP fun packet ↦
        decide (packet.1 = ip) && (t ≤ packet.2 && packet.2 < t + perAddressWindowSeconds) := by
    rw [List.countP_map]
    rfl
  rw [hcount, hsent, List.countP_cons, List.countP_append, List.countP_replicate,
    List.countP_replicate]
  by_cases hlate : t ≤ 9
  · have hnone : ¬ (19 : ℚ) < t + perAddressWindowSeconds := by
      rw [perAddressWindowSeconds]
      linarith
    simp only [hnone, decide_false, Bool.and_false, Bool.false_eq_true, if_false,
      perAddressMaxPackets]
    split <;> split <;> omega
  · have hzero : ¬ t ≤ 0 := fun h ↦ hlate (h.trans (by norm_num))
    simp only [hlate, hzero, decide_false, Bool.and_false, Bool.false_and, Bool.false_eq_true,
      if_false, perAddressMaxPackets]
    split <;> omega

end Sender

end DhtScraper
