import TinyProto.Fd.Atomicity
import TinyProto.Fd.Service

/-!
# The addresses of the application

The callbacks report a peer under an address, and the send functions look a peer up by one.
A primary station shifts the address field of the peer down and up again.  A secondary station
reports the primary address, and the send functions put its own address field in its place
before they shift the address into a field.  The field is shifted twice then, and only one
address survives that (`addresses_lead_back`).
-/

set_option linter.unusedSectionVars false

namespace TinyProto.Fd

open Hdlc

variable {W N : Nat} [NeZero W] [NeZero N] {h h₁ : Handle W N} {p : Fin N}

/-! ## Sending to the primary address -/

/-- `tiny_fd_send_packet`. -/
def sendPacket (h : Handle W N) (data : List Byte) : Handle W N × Status := sendPacketTo h 0 data

/-- The loop of `tiny_fd_send_to`, with the number of bytes that were queued. -/
def sendToLoop : Nat → Handle W N → Byte → List Byte → Handle W N × Nat
  | 0, h, _, _ => (h, 0)
  | fuel + 1, h, address, data =>
      if data = [] then (h, 0)
      else
        let size := min data.length h.iQueue.mtu.toNat
        match sendPacketTo h address (data.take size) with
        | (h, .success) =>
            let (h, sent) := sendToLoop fuel h address (data.drop size)
            (h, size + sent)
        | (h, _) => (h, 0)

/-- `tiny_fd_send`.  With an mtu of a byte or more every turn of the loop queues a byte. -/
def fdSend (h : Handle W N) (data : List Byte) : Handle W N × Nat :=
  sendToLoop data.length h 0 data

/-! ## What the callbacks report -/

/-- The peer and the address in a call of `on_read_cb`, `on_send_cb` or
`on_connect_event_cb`. -/
def Event.reported : Event N → Option (Fin N × Byte)
  | .sent p address _ => some (p, address)
  | .read p address _ => some (p, address)
  | .connect p address _ => some (p, address)
  | _ => none

/-- The event reports a peer under the address it has. -/
def Event.Named (h : Handle W N) (e : Event N) : Prop :=
  ∀ p a, e.reported = some (p, a) → Live h p ∧ a = callbackAddress h p

/-- All events of the history do. -/
def Named (h : Handle W N) : Prop := ∀ e ∈ h.log, e.Named h

theorem Event.Named.of_none {e : Event N} (he : e.reported = none) : e.Named h := by
  intro p a hr
  rw [he] at hr
  cases hr

theorem Event.Named.of_some {e : Event N} {a : Byte} (hp : Live h p)
    (he : e.reported = some (p, a)) (ha : a = callbackAddress h p) : e.Named h := by
  intro q b hr
  rw [he] at hr
  cases hr
  exact ⟨hp, ha⟩

theorem Event.Neutral.named {e : Event N} (he : e.Neutral) : e.Named h := by
  refine .of_none ?_
  cases e <;> first | rfl | exact he.elim

theorem callbackAddress_congr (hset : h₁.settings = h.settings)
    (ha : (h₁.peers p).addr = (h.peers p).addr) : callbackAddress h₁ p = callbackAddress h p := by
  unfold callbackAddress Handle.isPrimaryStation peerToAddressField
  rw [hset, ha]

/-- The addresses of live peers stay. -/
theorem Event.Named.step {a : Act N} {e : Event N} (hw : Addressed h) (hs : Step h a h₁)
    (he : e.Named h) : e.Named h₁ := by
  intro p b hr
  obtain ⟨hp, rfl⟩ := he p b hr
  obtain ⟨hp₁, haddr⟩ := hp.step hw hs
  exact ⟨hp₁, (callbackAddress_congr hs.stations.1 haddr).symm⟩

/-- The new events of a handle are named. -/
def NewNamed (h h₁ : Handle W N) : Prop :=
  ∃ es, h₁.log = h.log ++ es ∧ ∀ e ∈ es, e.Named h

theorem NewNamed.of_eq (hl : h₁.log = h.log) : NewNamed h h₁ :=
  ⟨[], by rw [hl, List.append_nil], nofun⟩

theorem NewNamed.concat {k : Handle W N} {e : Event N} (hk : NewNamed h k)
    (hl : h₁.log = k.log ++ [e]) (he : e.Named h) : NewNamed h h₁ := by
  obtain ⟨es, hes, hnamed⟩ := hk
  refine ⟨es ++ [e], by rw [hl, hes, List.append_assoc], fun x hx => ?_⟩
  rcases List.mem_append.mp hx with hx | hx
  · exact hnamed x hx
  · rw [List.mem_singleton.mp hx]
    exact he

theorem confirmSentFrames_newNamed (hp : Live h p) (nr : Seq) :
    NewNamed h (confirmSentFrames h p nr) := by
  have hloop : Confirms p h (confirmLoop 8 h p nr) ∧ NewNamed h (confirmLoop 8 h p nr) := by
    refine confirmLoop_rule (P := fun k => Confirms p h k ∧ NewNamed h k) ?_ 8 h
      ⟨.refl p h, .of_eq rfl⟩
    rintro k ⟨hc, hk⟩ - -
    refine ⟨hc.trans (confirmOne_confirms k p), ?_⟩
    rcases confirmOne_cases k p with ⟨j, -, -, hl⟩ | ⟨-, -, hl⟩
    · exact hk.concat hl (.of_some hp rfl (callbackAddress_congr hc.settings (hc.addr p).1))
    · obtain ⟨es, hes, hnamed⟩ := hk
      exact ⟨es, hl.trans hes, hnamed⟩
  obtain ⟨-, es, hes, hnamed⟩ := hloop
  refine ⟨es, ?_, hnamed⟩
  unfold confirmSentFrames
  dsimp only
  split <;> exact hes

theorem switchToConnectedState_log (hs : (h.peers p).state ≠ .connected) :
    (switchToConnectedState h p).log = h.log ++ [.connect p (callbackAddress h p) true] := by
  unfold switchToConnectedState
  rw [if_pos hs]
  refine congrArg (fun a => h.log ++ [Event.connect p a true]) (callbackAddress_congr rfl ?_)
  simp [Handle.setPeer, Handle.setEvents, Peer.resetCounters]

theorem switchToDisconnectedState_log (hs : (h.peers p).state ≠ .disconnected) :
    (switchToDisconnectedState h p).log = h.log ++ [.connect p (callbackAddress h p) false] := by
  unfold switchToDisconnectedState
  rw [if_pos hs]
  refine congrArg (fun a => h.log ++ [Event.connect p a false]) (callbackAddress_congr rfl ?_)
  simp [Handle.setPeer, Peer.resetCounters]

/-- An elementary step reports a peer under its address only. -/
theorem Step.newNamed {a : Act N} (hs : Step h a h₁) : NewNamed h h₁ := by
  cases hs with
  | quiet hq =>
    obtain ⟨es, hl, hes⟩ := hq.log
    exact ⟨es, hl, fun e he => (hes e he).named⟩
  | register => exact .of_eq rfl
  | turn => exact .of_eq rfl
  | putS =>
    unfold putSFrame
    exact .of_eq (putUSFrame_log ..)
  | putU => exact .of_eq (putUSFrame_log ..)
  | free => exact .of_eq rfl
  | confirm hp => exact confirmSentFrames_newNamed hp _
  | @reject p control hp =>
    have hr := resendAllUnconfirmedFrames_resends (confirmSentFrames h p (nrOf control)) p control
      (nrOf control)
    obtain ⟨es, hl, hes⟩ := confirmSentFrames_newNamed hp (nrOf control)
    exact ⟨es, hr.log.trans hl, hes⟩
  | @receive p nr payload hp =>
    have haddr : ∀ q, ((h.setControl p fun c => { c with nextNr := c.nextNr + 1 }).peers q).addr =
        (h.peers q).addr := setPeer_addr h p rfl
    have hset : (h.setControl p fun c => { c with nextNr := c.nextNr + 1 }).settings = h.settings :=
      rfl
    have hp' : Live (h.setControl p fun c => { c with nextNr := c.nextNr + 1 }) p :=
      (sameStations_of_addr hset haddr p hp).1
    have hc := confirmSentFrames_confirms (h.setControl p fun c => { c with nextNr := c.nextNr + 1 })
      p nr
    obtain ⟨es, hl, hes⟩ := confirmSentFrames_newNamed hp' nr
    have hbefore : NewNamed h (confirmSentFrames
        (h.setControl p fun c => { c with nextNr := c.nextNr + 1 }) p nr) := by
      refine ⟨es, hl, fun e he q b hr => ?_⟩
      obtain ⟨hq, rfl⟩ := hes e he q b hr
      exact ⟨(sameStations_of_addr hset.symm (fun q => (haddr q).symm) q hq).1,
        callbackAddress_congr hset (haddr q)⟩
    refine hbefore.concat (e := .read p (callbackAddress (confirmSentFrames
      (h.setControl p fun c => { c with nextNr := c.nextNr + 1 }) p nr) p) payload) rfl ?_
    exact .of_some hp rfl
      (callbackAddress_congr hc.settings ((hc.addr p).1.trans (haddr p)))
  | @resend p =>
    exact .of_eq (resendAllUnconfirmedFrames_resends h p 0 (h.control p).confirmNs).log
  | connect hp hl =>
    exact NewNamed.concat (.of_eq rfl) (switchToConnectedState_log (ne_connected hl))
      (.of_some hp rfl rfl)
  | disconnect hp hst =>
    exact NewNamed.concat (.of_eq rfl) (switchToDisconnectedState_log hst)
      (.of_some hp rfl rfl)
  | reset => exact .of_eq rfl
  | request => exact .of_eq rfl
  | hangUp => exact .of_eq rfl
  | @chooseService p i poll =>
    obtain ⟨data, hl⟩ := markChosen_log h p (.sSlot i) poll
    exact NewNamed.concat (.of_eq rfl) hl (.of_none rfl)
  | @chooseNext p i poll =>
    obtain ⟨data, hl⟩ := markChosen_log
      ((refreshSlot h p i).setControl p fun c => { c with nextNs := c.nextNs + 1 }) p (.iSlot i) poll
    exact NewNamed.concat (k := h) (.of_eq rfl) hl (.of_none rfl)
  | @chooseRequested p i _ poll =>
    obtain ⟨data, hl⟩ := markChosen_log (refreshSlot h p i) p (.iSlot i) poll
    exact NewNamed.concat (k := h) (.of_eq rfl) hl (.of_none rfl)
  | @accept _ p data _ _ hput =>
    obtain ⟨i, -, -, rfl⟩ := putIFrame_some hput
    exact NewNamed.concat (k := h) (.of_eq rfl) rfl (.of_none rfl)

/-- What the callbacks report of a peer is the address of the peer now. -/
theorem Reachable.named (hr : Reachable AnyFrame h) : Named h := by
  refine hr.rule (P := Named) (fun _ _ _ => nofun) ?_
  intro k a k' hw hk hs
  obtain ⟨es, hl, hes⟩ := hs.newNamed
  intro e he
  rw [hl] at he
  rcases List.mem_append.mp he with he | he
  · exact (hk e he).step hw hs
  · exact (hes e he).step hw hs

/-! ## The way back -/

/-- The room that `tiny_fd_send_packet_to` waits for. -/
def HasRoom (h : Handle W N) (p : Fin N) : Prop :=
  h.events.queueHasFreeSlots = true ∧ (h.peers p).canAcceptIFrames = true

/-- Where the flags tell the truth this is a free slot and an open window. -/
theorem Truthful.hasRoom_iff (ht : Truthful h) (hs : (h.peers p).state = .connected) :
    HasRoom h p ↔ h.iQueue.hasFreeSlots = true ∧ (h.control p).txFull = false := by
  unfold HasRoom
  rw [ht.room, ht.peer p hs, Bool.not_eq_true']
  rfl

/-- The address reported for the peer is the one to send to it: it is known, and a payload
that fits is queued for the peer where there is room.  The primary address need not be
given. -/
structure LeadsBack (h : Handle W N) (p : Fin N) : Prop where
  resolves : addressFieldToPeer h (sendAddress h (callbackAddress h p)) = some p
  known : ∀ data, (sendPacketTo h (callbackAddress h p) data).2 ≠ .unknownPeer
  queued : ∀ data, (h.peers p).state = .connected → HasRoom h p →
    (data.length : Int) ≤ h.iQueue.mtu →
      (sendPacketTo h (callbackAddress h p) data).2 = .success ∧
        Takes h (sendPacketTo h (callbackAddress h p) data).1 p data
  implied : callbackAddress h p = 0 → ∀ data, (h.peers p).state = .connected → HasRoom h p →
    ((data.length : Int) ≤ h.iQueue.mtu → (sendPacket h data).2 = .success) ∧
      (0 < h.iQueue.mtu → data ≠ [] → 0 < (fdSend h data).2)

theorem sendPacketTo_room (hf : FlagsSound h) (hroom : HasRoom h p) {address : Byte}
    (hp : addressFieldToPeer h (sendAddress h address) = some p) {data : List Byte}
    (hlen : data.length ≤ h.iQueue.mtu) :
    ∃ i, h.iQueue.getNext [.free] 0 0 = some i ∧
      sendPacketTo h address data = (h.store p i data, .success) := by
  obtain ⟨i, hi, he⟩ := takePacket_success hf hroom.1 hlen p
  refine ⟨i, hi, ?_⟩
  unfold sendPacketTo
  rw [hp]
  dsimp only
  rw [if_neg (Int.not_lt.mpr hlen), if_pos hroom.2, if_pos hroom.1]
  exact he

/-- An address that is found leads back. -/
theorem leadsBack_of_resolves (hf : FlagsSound h)
    (hp : addressFieldToPeer h (sendAddress h (callbackAddress h p)) = some p) : LeadsBack h p where
  resolves := hp
  known data := by
    unfold sendPacketTo
    rw [hp]
    dsimp only
    split
    · exact Status.noConfusion
    · split
      · split
        · next hlen _ hroom =>
          obtain ⟨i, -, he⟩ := takePacket_success hf hroom (Int.not_lt.mp hlen) p
          unfold holdFlags at he
          exact fun hs => Status.noConfusion ((congrArg Prod.snd he).symm.trans hs)
        · exact Status.noConfusion
      · exact Status.noConfusion
  queued data _ hroom hlen := by
    obtain ⟨i, hi, he⟩ := sendPacketTo_room hf hroom hp hlen
    rw [he]
    exact ⟨rfl, store_takes hi p data⟩
  implied hzero data _ hroom := by
    rw [hzero] at hp
    refine ⟨fun hlen => ?_, fun hmtu hne => ?_⟩
    · obtain ⟨i, -, he⟩ := sendPacketTo_room hf hroom hp hlen
      unfold sendPacket
      rw [he]
    · obtain ⟨b, rest, rfl⟩ := List.exists_cons_of_ne_nil hne
      have hlen : (((b :: rest).take (min (b :: rest).length h.iQueue.mtu.toNat)).length : Int) ≤
          h.iQueue.mtu := by
        rw [List.length_take]
        omega
      obtain ⟨i, -, he⟩ := sendPacketTo_room hf hroom hp hlen
      unfold fdSend
      rw [List.length_cons, sendToLoop, if_neg hne]
      dsimp only
      rw [he]
      show 0 < min (rest.length + 1) h.iQueue.mtu.toNat + _
      omega

/-- The field of a primary peer is shifted down and up again. -/
theorem field_shifted {a : Byte} (ha : a &&& 0x03 = 0x01) :
    (a &&& ~~~crBit) >>> 2 <<< 2 ||| eBit = a := by
  revert a
  decide +kernel

/-- The field of a secondary station is shifted up once more. -/
theorem field_shifted_twice {a : Byte} (ha : a &&& 0x03 = 0x01) :
    (a <<< 2 ||| eBit) &&& ~~~crBit = a ↔ a = 0x55 := by
  revert a
  decide +kernel

theorem secondary_resolves (hw : Addressed h) (hs : h.isPrimaryStation = false) :
    addressFieldToPeer h (sendAddress h 0) =
      if h.settings.addr = 0x55 then some (0 : Fin N) else none := by
  have hm : ¬Multi h := fun hm => Bool.noConfusion (hm.1.symm.trans hs)
  have hsend : sendAddress h 0 = h.settings.addr <<< 2 ||| eBit := by
    unfold sendAddress Handle.isSecondaryStation
    rw [hs]
    rfl
  have hbit : ∀ a : Byte, ¬(a <<< 2 ||| eBit) &&& ~~~crBit &&& eBit = 0 := by decide +kernel
  rw [addressFieldToPeer_eq, hsend, if_neg (hbit _), if_pos hm]
  simp only [field_shifted_twice hw.station]

/-- What the callbacks report of a peer is its address, in every state.  The addresses lead
back to the peers if and only if the station is a primary one, or in ABM with the default
address, or its own address is 21. -/
theorem addresses_lead_back (hr : Reachable AnyFrame h) :
    (∀ e ∈ h.log, ∀ p a, e.reported = some (p, a) → Live h p ∧ a = callbackAddress h p) ∧
      ((∀ p, Live h p → LeadsBack h p) ↔
        h.isPrimaryStation = true ∨ h.settings.addr = 0x55) := by
  have hw := hr.reaches.addressed
  refine ⟨hr.named, ?_⟩
  cases hs : h.isPrimaryStation with
  | true =>
    refine ⟨fun _ => .inl rfl, fun _ p hp => leadsBack_of_resolves hr.flagsSound ?_⟩
    have hsend : sendAddress h (callbackAddress h p) = (h.peers p).addr := by
      unfold sendAddress callbackAddress Handle.isSecondaryStation
      simp only [hs, Bool.not_true, Bool.false_eq_true, false_and, if_false, if_true]
      exact field_shifted hp.2
    rw [hsend]
    exact hp.1
  | false =>
    have hzero : ∀ p, callbackAddress h p = 0 := by
      intro p
      unfold callbackAddress
      rw [hs]
      rfl
    have hlive : Live h (0 : Fin N) := by
      have hm : ¬Multi h := fun hm => Bool.noConfusion (hm.1.symm.trans hs)
      refine hw.live_of_unique (fun he => ?_) fun _ => rfl
      have hbits := hw.station
      rw [← (hw.single hm).1 0, he] at hbits
      exact invalidAddr_bits hbits
    have hunique : ∀ p, Live h p → p = 0 := by
      intro p hp
      have hm : ¬Multi h := fun hm => Bool.noConfusion (hm.1.symm.trans hs)
      refine (hp.eq_of_sameStation hlive ?_)
      unfold peerToAddressField
      rw [(hw.single hm).1 p, (hw.single hm).1 0]
      exact sameStation_self _
    constructor
    · intro hback
      have hfound := (hback 0 hlive).resolves
      rw [hzero, secondary_resolves hw hs] at hfound
      split at hfound
      · next ha => exact .inr ha
      · cases hfound
    · rintro (htrue | ha) p hp
      · cases htrue
      · refine leadsBack_of_resolves hr.flagsSound ?_
        rw [hzero, secondary_resolves hw hs, if_pos ha, hunique p hp]

theorem addresses_lead_back_abm : LeadsBack (smallHandle 2 1 .abm) 0 := by
  have hr : Reachable AnyFrame (smallHandle 2 1 .abm) :=
    smallHandle_reachable _ .abm (by decide) (by decide)
  exact (addresses_lead_back hr).2.mpr (.inl rfl) 0 ⟨rfl, rfl⟩

/-- A secondary station with this address. -/
def secondaryHandle (W N : Nat) [NeZero W] [NeZero N] (addr : Byte) : Handle W N :=
  initHandle W N
    { mode := .nrm, addr := addr, sendTimeout := 1000, retryTimeout := 100, retries := 2,
      mtu := 32 } (smallLl W) 0

/-- The primary station connects to the station with address 1. -/
def takeSnrm : List Call := [.onFrameRead [0x07, 0x93]]

/-- It reports the connection, and does not know the address it reported. -/
theorem primary_not_found : ∃ h : Handle 2 1, Reachable AnyFrame h ∧
    Event.connect 0 0 true ∈ h.log ∧ (h.peers 0).state = .connected ∧ HasRoom h 0 ∧
    (sendPacketTo h 0 [1]).2 = .unknownPeer ∧ (sendPacket h [1]).2 = .unknownPeer ∧
    (fdSend h [1]).2 = 0 := by
  have hr : Reachable AnyFrame (takeSnrm.foldl call (secondaryHandle 2 1 1)) :=
    Reachable.calls (.init (by decide) (by decide) (smallLl_started 2)) (callsOk_any _ _)
  exact ⟨_, hr, by decide +kernel, by decide +kernel, by unfold HasRoom; decide +kernel,
    by decide +kernel, by decide +kernel, by decide +kernel⟩

end TinyProto.Fd
