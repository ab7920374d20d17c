import TinyProto.Fd.BackPressure

/-!
# Sending is atomic

`tiny_fd_send_packet_to` waits for two flags, one after the other, and a failure gives back
what was taken (`sending_atomic`).  The last failure, that there is no free slot behind both
waits, does not happen: a flag that is up is right in every state (`FlagsSound`).  That a flag
that is down is right too is another matter, and not true in every state.
-/

set_option linter.unusedSectionVars false

namespace TinyProto.Fd

open Hdlc

variable {W N : Nat} [NeZero W] [NeZero N] {h h₁ : Handle W N} {p : Fin N}

/-! ## Waiting for the flags -/

/-- `tiny_fd_send_packet_to` with its timeout.  While the only thread waits nothing raises a
flag, so a wait for a flag that is down lasts until the timeout. -/
def sendPacketToWaiting (h : Handle W N) (address : Byte) (data : List Byte) (timeout : BitVec 32) :
    Handle W N × Status :=
  match addressFieldToPeer h (sendAddress h address) with
  | none => (h, .unknownPeer)
  | some p =>
      if data.length > h.iQueue.mtu then (h, .dataTooLarge)
      else if (h.peers p).canAcceptIFrames then
        let h := h.setPeer p fun x => { x with canAcceptIFrames := false }
        if h.events.queueHasFreeSlots then
          takePacket (h.setEvents fun e => { e with queueHasFreeSlots := false }) p data
        else
          let h := { h with millis := h.millis + timeout }
          (h.setPeer p fun x => { x with canAcceptIFrames := true }, .timeout)
      else ({ h with millis := h.millis + timeout }, .timeout)

/-- But for the time that passes the waits change nothing. -/
theorem sendPacketToWaiting_eq (h : Handle W N) (address : Byte) (data : List Byte)
    (timeout : BitVec 32) : sendPacketToWaiting h address data timeout = sendPacketTo h address data ∨
      sendPacketTo h address data = (h, .timeout) ∧ sendPacketToWaiting h address data timeout =
        ({ h with millis := h.millis + timeout }, .timeout) := by
  unfold sendPacketToWaiting sendPacketTo
  cases addressFieldToPeer h (sendAddress h address) with
  | none => exact .inl rfl
  | some p =>
    dsimp only
    split
    · exact .inl rfl
    · split
      · next ha =>
        have hflag : (h.setPeer p fun x => { x with canAcceptIFrames := false }).events = h.events :=
          rfl
        rw [hflag]
        split
        · exact .inl rfl
        · refine .inr ⟨rfl, ?_⟩
          have hback : ({ h.setPeer p fun x => { x with canAcceptIFrames := false } with
              millis := h.millis + timeout } : Handle W N).setPeer p
                (fun x => { x with canAcceptIFrames := true }) =
              { h with millis := h.millis + timeout } := by
            have hfold := setPeer_setPeer ({ h with millis := h.millis + timeout } : Handle W N) p
              (fun x => { x with canAcceptIFrames := false })
              fun x => { x with canAcceptIFrames := true }
            refine hfold.trans (setPeer_id ?_)
            show { h.peers p with canAcceptIFrames := true } = h.peers p
            rw [← ha]
          exact congrArg (fun k => (k, Status.timeout)) hback
      · exact .inr ⟨rfl, rfl⟩

/-! ## Flags that are up -/

/-- A peer that may send has an open window. -/
def Peer.Open (x : Peer) : Prop := x.canAcceptIFrames = true → x.iQueueControl.txFull = false

/-- The flags that are up are right. -/
structure FlagsSound (h : Handle W N) : Prop where
  room : h.events.queueHasFreeSlots = true → h.iQueue.hasFreeSlots = true
  peer : ∀ p, (h.peers p).Open

theorem Peer.Open.congr {x y : Peer} (hx : x.Open) (ha : y.canAcceptIFrames = x.canAcceptIFrames)
    (hc : y.iQueueControl.txFull = x.iQueueControl.txFull) : y.Open := by
  unfold Peer.Open
  rw [ha, hc]
  exact hx

theorem Peer.Open.of_false {x : Peer} (ha : x.canAcceptIFrames = false) : x.Open := fun hup =>
  Bool.noConfusion (ha.symm.trans hup)

theorem FlagsSound.congr (hf : FlagsSound h)
    (he : h₁.events.queueHasFreeSlots = h.events.queueHasFreeSlots)
    (hi : h₁.iQueue.hasFreeSlots = h.iQueue.hasFreeSlots) (hp : h₁.peers = h.peers) :
    FlagsSound h₁ where
  room := by
    rw [he, hi]
    exact hf.room
  peer := by
    rw [hp]
    exact hf.peer

theorem FlagsSound.of_update {x : Peer} (hf : FlagsSound h)
    (hr : h₁.events.queueHasFreeSlots = true → h₁.iQueue.hasFreeSlots = true)
    (hp : h₁.peers = Function.update h.peers p x) (hx : x.Open) : FlagsSound h₁ := by
  refine ⟨hr, ?_⟩
  rw [hp]
  exact (Function.forall_update_iff _ fun _ (y : Peer) => y.Open).mpr ⟨hx, fun q _ => hf.peer q⟩

theorem FlagsSound.putUSFrame (hf : FlagsSound h) (type : QueueType) (address control : Byte)
    (payload : List Byte) : FlagsSound (putUSFrame h type address control payload) := by
  obtain ⟨q, b, he⟩ := putUSFrame_eq h type address control payload
  rw [he]
  exact hf.congr rfl rfl rfl

/-- The window stays open when its end moves up to something else than its start. -/
theorem IQueueControl.confirm_open {c : IQueueControl} (hne : c.confirmNs ≠ c.lastNs) :
    ({ c with confirmNs := c.confirmNs + 1 } : IQueueControl).txFull = false := by
  obtain ⟨last, confirm, next, nr⟩ := c
  refine beq_eq_false_iff_ne.mpr fun he => hne ?_
  have he : last + 1 = confirm + 1 := he
  show confirm = last
  bv_omega

theorem FlagsSound.confirmOne (hf : FlagsSound h)
    (hne : (h.control p).confirmNs ≠ (h.control p).lastNs) : FlagsSound (confirmOne h p) := by
  have hroom : (Fd.confirmOne h p).events.queueHasFreeSlots = true →
      (Fd.confirmOne h p).iQueue.hasFreeSlots = true := by
    show (onFrameConfirmed h p _).events.queueHasFreeSlots = true →
      (onFrameConfirmed h p _).iQueue.hasFreeSlots = true
    unfold onFrameConfirmed
    split
    · next i _ =>
      intro _
      have hfree := Queue.freeByHeader_hasFreeSlots h.iQueue i
      dsimp only
      split <;> exact hfree
    · exact hf.room
  obtain ⟨q, free, log, r, he⟩ := confirmOne_form h p
  rw [he] at hroom ⊢
  exact hf.of_update hroom rfl fun _ => IQueueControl.confirm_open hne

theorem FlagsSound.confirmSentFrames (hf : FlagsSound h) (p : Fin N) (nr : Seq) :
    FlagsSound (confirmSentFrames h p nr) := by
  have hloop : FlagsSound (confirmLoop 8 h p nr) :=
    confirmLoop_rule (P := FlagsSound) (fun _ hk _ hne => hk.confirmOne hne) 8 h hf
  unfold Fd.confirmSentFrames
  dsimp only
  split
  · next hopen => exact hloop.of_update hloop.room rfl fun _ => Bool.not_eq_true' _ ▸ hopen
  · exact hloop

/-! ## Connections -/

theorem FlagsSound.switchToDisconnectedState (hf : FlagsSound h) (p : Fin N) :
    FlagsSound (switchToDisconnectedState h p) := by
  by_cases hst : (h.peers p).state = .disconnected
  · rw [switchToDisconnectedState_of hst]
    exact hf
  · obtain ⟨log, he⟩ := switchToDisconnectedState_form hst
    rw [he]
    exact hf.of_update (fun hup => flushed_hasFreeSlots (hf.room hup) p) rfl (.of_false rfl)

theorem FlagsSound.reconnect (hf : FlagsSound h) (p : Fin N) : FlagsSound (reconnect h p) := by
  have hopen : ∀ {k : Handle W N}, FlagsSound k → FlagsSound (switchToConnectedState k p) := by
    intro k hk
    by_cases hst : (k.peers p).state = .connected
    · rw [switchToConnectedState_of hst]
      exact hk
    · obtain ⟨log, he⟩ := switchToConnectedState_form hst
      rw [he]
      refine hk.of_update (fun hup => ?_) rfl fun _ => rfl
      rcases Bool.or_eq_true_iff.mp hup with hup | hup
      · exact flushed_hasFreeSlots (hk.room hup) p
      · exact hup
  unfold Fd.reconnect
  split
  · exact hopen (hf.switchToDisconnectedState p)
  · exact hopen hf

/-! ## Operations -/

theorem Handled.flagsSound {control : Byte} (hh : Handled h p control h₁) (hf : FlagsSound h) :
    FlagsSound h₁ := by
  have hua : ∀ {k : Handle W N}, k = h ∨ k = putUFrame h p 0 .ua → FlagsSound k := by
    rintro k (rfl | rfl)
    · exact hf
    · exact hf.putUSFrame _ _ _ _
  cases hh with
  | ignored => exact hf
  | passed => exact hf.congr rfl rfl rfl
  | refused => exact hf.putUSFrame _ _ _ _
  | opened _ hk => exact (hua hk).reconnect p
  | closed _ hk => exact (hua hk).switchToDisconnectedState p
  | rejected =>
    have hput := (hf.switchToDisconnectedState p).putUSFrame .uFrame
      (peerToAddressField (switchToDisconnectedState h p) p ||| crBit) (uControl (connectType h)) []
    exact hput.of_update hput.room rfl ((hput.peer p).congr rfl rfl)
  | reset =>
    have hclear : FlagsSound (h.setPeer p Peer.resetCounters) :=
      hf.of_update hf.room rfl fun _ => rfl
    exact hclear.putUSFrame _ _ _ _
  | expected _ _ payload =>
    have hadv : FlagsSound (advance h p) := by
      unfold advance Handle.setControl
      rw [setPeer_setPeer]
      exact hf.of_update hf.room rfl ((hf.peer p).congr rfl rfl)
    have hread : FlagsSound ((confirmSentFrames (advance h p) p (nrOf control)).emit
        (.read p (callbackAddress (confirmSentFrames (advance h p) p (nrOf control)) p) payload)) :=
      (hadv.confirmSentFrames p (nrOf control)).congr rfl rfl rfl
    unfold deliver
    dsimp only
    split
    · exact hread.putUSFrame _ _ _ _
    · exact hread
  | @confirmed k _ _ hk =>
    refine FlagsSound.confirmSentFrames ?_ p _
    rcases hk with rfl | rfl
    · exact hf
    · have hmark : FlagsSound (h.setPeer p fun x => { x with sentReject := true }) :=
        hf.of_update hf.room rfl ((hf.peer p).congr rfl rfl)
      exact hmark.putUSFrame _ _ _ _
  | answered => exact (hf.confirmSentFrames p _).putUSFrame _ _ _ _
  | rewound =>
    have hc := hf.confirmSentFrames p (nrOf control)
    generalize confirmSentFrames h p (nrOf control) = k at hc
    obtain ⟨q, c, he⟩ := resendAllUnconfirmedFrames_form k p control (nrOf control)
    rw [he]
    exact hc.of_update hc.room rfl ((hc.peer p).congr rfl rfl)
  | requested =>
    have hc := hf.confirmSentFrames p (nrOf control)
    generalize confirmSentFrames h p (nrOf control) = k at hc
    exact hc.of_update (p := p) hc.room rfl ((hc.peer p).congr rfl rfl)

theorem Checked.flagsSound (hc : Checked h p h₁) (hf : FlagsSound h) : FlagsSound h₁ := by
  cases hc with
  | retried =>
    obtain ⟨q, c, he⟩ := resendAllUnconfirmedFrames_form
      (h.setPeer p fun x => { x with retries := x.retries - 1 }) p 0 (h.control p).confirmNs
    have htaken : FlagsSound (h.setPeer p fun x => { x with retries := x.retries - 1 }) :=
      hf.of_update hf.room rfl ((hf.peer p).congr rfl rfl)
    rw [he]
    exact htaken.of_update htaken.room rfl ((htaken.peer p).congr rfl rfl)
  | gaveUp => exact hf.switchToDisconnectedState p
  | lost => exact hf.switchToDisconnectedState p
  | disarmed => exact hf
  | keptAlive =>
    have hclear : FlagsSound (h.setPeer p fun x => { x with kaConfirmed := false }) :=
      hf.of_update hf.room rfl ((hf.peer p).congr rfl rfl)
    have hput := hclear.putUSFrame .sFrame
      (peerToAddressField (h.setPeer p fun x => { x with kaConfirmed := false }) p ||| 0)
      (sControl .rr ((h.setPeer p fun x =>
        { x with kaConfirmed := false }).control p).nextNr ||| pBit) []
    exact hput.of_update hput.room rfl ((hput.peer p).congr rfl rfl)
  | rested => exact hf
  | requested =>
    have hput := hf.putUSFrame .uFrame (peerToAddressField h p ||| crBit)
      (uControl (connectType h)) []
    exact hput.of_update hput.room rfl ((hput.peer p).congr rfl rfl)
  | waited => exact hf

theorem Sent.flagsSound {data : List Byte} (hs : Sent h p data h₁) (hf : FlagsSound h) :
    FlagsSound h₁ := by
  have hflag : ∀ c : IQueueControl, (!c.txFull) = true → c.txFull = false := fun c hc =>
    Bool.not_eq_true' _ ▸ hc
  cases hs with
  | refused => exact hf
  | full => exact hf.of_update (fun hup => Bool.noConfusion hup) rfl (hflag _)
  | stored => exact hf.of_update id rfl (hflag _)

theorem Selects.flagsSound (hs : Selects p h h₁) (hf : FlagsSound h) : FlagsSound h₁ := by
  refine ⟨by rw [hs.queueHasFreeSlots, hs.slots.hasFreeSlots]; exact hf.room, fun q => ?_⟩
  by_cases hq : q = p
  · obtain ⟨_, _, _, _, _, hp⟩ := hs.peer
    rw [hq, hp]
    exact (hf.peer p).congr rfl rfl
  · rw [hs.other q hq]
    exact hf.peer q

theorem FlagsSound.frame (hf : FlagsSound h) (data : List Byte) :
    FlagsSound (onFrameRead h data) := by
  have hr := onFrameRead_read h data
  generalize onFrameRead h data = k at hr
  cases hr with
  | unknown _ hk =>
    rcases hk with rfl | rfl
    · exact hf
    · exact hf.congr rfl rfl rfl
  | @handled p control k _ hk =>
    obtain ⟨b, hb⟩ := captureMarker_form k control
    have hnote : FlagsSound (heardFrom h p data) :=
      hf.of_update hf.room rfl ((hf.peer p).congr rfl rfl)
    rw [hb]
    exact (hk.flagsSound hnote).congr rfl rfl rfl

theorem FlagsSound.operate {o : Op W N} (hord : Ordered h) (hf : FlagsSound h) :
    FlagsSound (operate h o) := by
  cases o with
  | frame data => exact hf.frame data
  | check p => exact (checkIdleTimeout_checked h p).flagsSound hf
  | attempt p => exact (tryToSend_selects h p).flagsSound hf
  | run len =>
    obtain ⟨ll, q, next, marker, sending, he, -⟩ := runTx_form hord.inStep len
    show FlagsSound (runTx h len).1
    rw [he]
    exact hf.congr rfl rfl rfl
  | lowLevel hdlc => exact hf.congr rfl rfl rfl
  | sendPacketTo address data =>
    show FlagsSound (sendPacketTo h address data).1
    rcases sendPacketTo_sent h address data with he | ⟨p, -, hs⟩
    · rw [he]
      exact hf
    · exact hs.flagsSound hf
  | sendUiPacketTo address data =>
    show FlagsSound (sendUiPacketTo h address data).1
    rcases sendUiPacketTo_cases h address data with he | ⟨p, -, he⟩
    · rw [he]
      exact hf
    · rw [he]
      exact hf.putUSFrame _ _ _ _
  | disconnect =>
    show FlagsSound (disconnect h).1
    rcases disconnect_cases h with he | ⟨-, he⟩
    · rw [he]
      exact hf
    · have hput := hf.putUSFrame .uFrame (peerToAddressField h 0 ||| crBit) (uControl .disc) []
      rw [he]
      exact hput.of_update hput.room rfl ((hput.peer 0).congr rfl rfl)
  | registerPeer address =>
    show FlagsSound (registerPeer h address).1
    rcases registerPeer_cases h address with he | ⟨p, a, ts, -, -, -, he⟩
    · rw [he]
      exact hf
    · rw [he]
      exact hf.of_update hf.room rfl ((hf.peer p).congr rfl rfl)
  | setKaTimeout keepAlive => exact hf.congr rfl rfl rfl
  | tick ms => exact hf.congr rfl rfl rfl

theorem initHandle_flagsSound (init : InitParams) (hdlc : HdlcLl (SlotRef W))
    (millis : BitVec 32) : FlagsSound (initHandle W N init hdlc millis) :=
  ⟨fun _ => Queue.hasFreeSlots_iff.mpr ⟨0, rfl⟩, fun _ => .of_false rfl⟩

theorem Reachable.lives {F : Handle W N → List Byte → Prop} (hr : Reachable F h) :
    ∃ past, Lives AnyOp h past := by
  induction hr with
  | init hmin hmax hll => exact ⟨[], .init hmin hmax hll⟩
  | call c _ _ ih =>
    obtain ⟨past, hl⟩ := ih
    exact ⟨_, hl.call c (meets_any _ c)⟩

/-- A flag that is up is right, in every state. -/
theorem Reachable.flagsSound (hr : Reachable AnyFrame h) : FlagsSound h := by
  obtain ⟨past, hl⟩ := hr.lives
  refine hl.invariant (fun init hdlc millis _ _ => initHandle_flagsSound init hdlc millis) ?_ _
    (.inl rfl)
  exact fun _ _ hord _ _ hf => hf.operate hord

/-! ## All or nothing -/

/-- The payload has one slot that was free, and the next frame number of the peer. -/
structure Takes (h h₁ : Handle W N) (p : Fin N) (data : List Byte) : Prop where
  slot : ∃ i, (h.iQueue.frames i).type = .free ∧ (h₁.iQueue.frames i).type = .iFrame ∧
    (h₁.iQueue.frames i).payload = data ∧
    nsOf (h₁.iQueue.frames i).control = (h.control p).lastNs ∧
    (h₁.iQueue.frames i).address = peerToAddressField h p ∧
    ∀ j, j ≠ i → h₁.iQueue.frames j = h.iQueue.frames j
  service : h₁.sQueue = h.sQueue
  window : h₁.control p = { h.control p with lastNs := (h.control p).lastNs + 1 }
  others : ∀ q, q ≠ p → h₁.peers q = h.peers q

theorem store_takes {i : Fin W} (hi : h.iQueue.getNext [.free] 0 0 = some i) (p : Fin N)
    (data : List Byte) : Takes h (h.store p i data) p data where
  slot := by
    have hfree := Queue.getNext_some hi
    rw [Slot.fits_free, beq_iff_eq] at hfree
    have hslot : (h.store p i data).iQueue.frames i = newIFrame h p data :=
      Queue.setFrame_self h.iQueue i _
    refine ⟨i, hfree, ?_⟩
    rw [hslot]
    exact ⟨rfl, rfl, nsOf_shift _, rfl, fun j hj => Queue.setFrame_ne h.iQueue hj _⟩
  service := rfl
  window := congrArg Peer.iQueueControl (setPeer_self ..)
  others _ hq := setPeer_ne _ hq _

/-- Behind both waits there is room for the payload. -/
theorem takePacket_success (hf : FlagsSound h) (hroom : h.events.queueHasFreeSlots = true)
    {data : List Byte} (hlen : data.length ≤ h.iQueue.mtu) (p : Fin N) :
    ∃ i, h.iQueue.getNext [.free] 0 0 = some i ∧
      takePacket (holdFlags h p) p data = (h.store p i data, .success) := by
  obtain ⟨i, hi⟩ := Option.isSome_iff_exists.mp (hf.room hroom)
  have hput : (putIFrame? (holdFlags h p) p data).isSome := by
    have hiq : (holdFlags h p).iQueue = h.iQueue := rfl
    unfold putIFrame? Queue.allocate
    rw [hiq, if_pos hlen, hi]
    rfl
  obtain ⟨m, hm⟩ := Option.isSome_iff_exists.mp hput
  exact takePacket_stored hm

/-- A send that finds the peer and both flags queues the payload, any other leaves the handle
as it was. -/
theorem sendPacketTo_cases (hf : FlagsSound h) (address : Byte) (data : List Byte) :
    (∃ p i, addressFieldToPeer h (sendAddress h address) = some p ∧
        h.iQueue.getNext [.free] 0 0 = some i ∧
        sendPacketTo h address data = (h.store p i data, .success)) ∨
      ∃ status, status ≠ .success ∧ sendPacketTo h address data = (h, status) := by
  unfold sendPacketTo
  cases hp : addressFieldToPeer h (sendAddress h address) with
  | none => exact .inr ⟨.unknownPeer, Status.noConfusion, rfl⟩
  | some p =>
    dsimp only
    split
    · exact .inr ⟨.dataTooLarge, Status.noConfusion, rfl⟩
    · next hlen =>
      split
      · split
        · next hroom =>
          obtain ⟨i, hi, he⟩ := takePacket_success hf hroom (Int.not_lt.mp hlen) p
          exact .inl ⟨p, i, rfl, hi, he⟩
        · exact .inr ⟨.timeout, Status.noConfusion, rfl⟩
      · exact .inr ⟨.timeout, Status.noConfusion, rfl⟩

/-- A payload that is accepted takes one free slot and one frame number, and nothing else
changes in the queues and the windows.  A payload that is refused changes nothing, and what
passes is time. -/
theorem sending_atomic (hr : Reachable AnyFrame h) (address : Byte) (data : List Byte)
    (timeout : BitVec 32) :
    ((sendPacketToWaiting h address data timeout).2 = .success →
      ∃ p, addressFieldToPeer h (sendAddress h address) = some p ∧
        Takes h (sendPacketToWaiting h address data timeout).1 p data) ∧
    ((sendPacketToWaiting h address data timeout).2 ≠ .success →
      ∃ t, (sendPacketToWaiting h address data timeout).1 = { h with millis := t }) := by
  have hcases := sendPacketTo_cases hr.flagsSound address data
  rcases sendPacketToWaiting_eq h address data timeout with hw | ⟨-, hw⟩
  · rw [hw]
    rcases hcases with ⟨p, i, hp, hi, he⟩ | ⟨status, hne, he⟩
    · rw [he]
      exact ⟨fun _ => ⟨p, hp, store_takes hi p data⟩, fun hn => absurd rfl hn⟩
    · rw [he]
      exact ⟨fun hs => absurd hs hne, fun _ => ⟨h.millis, rfl⟩⟩
  · rw [hw]
    exact ⟨fun hs => Status.noConfusion hs, fun _ => ⟨_, rfl⟩⟩

/-- One frame is on its way, and the second finds the window of the queue full. -/
def twoPackets : List Call :=
  [.onFrameRead [0x03, 0x2F], .sendPacketTo 0 [1], .sendPacketTo 0 [2]]

theorem sending_atomic_refused : ∃ h : Handle 2 1, Reachable AnyFrame h ∧
    (sendPacketToWaiting h 0 [3] 100).2 = .timeout ∧
    ∃ t, (sendPacketToWaiting h 0 [3] 100).1 = { h with millis := t } := by
  have hr : Reachable AnyFrame (twoPackets.foldl call (smallHandle 2 1 .abm)) :=
    (smallHandle_reachable _ .abm (by decide) (by decide)).calls (callsOk_any _ _)
  have hstatus : (sendPacketToWaiting (twoPackets.foldl call (smallHandle 2 1 .abm)) 0 [3] 100).2 =
      .timeout := by decide +kernel
  refine ⟨_, hr, hstatus, (sending_atomic hr 0 [3] 100).2 ?_⟩
  rw [hstatus]
  exact Status.noConfusion

end TinyProto.Fd
