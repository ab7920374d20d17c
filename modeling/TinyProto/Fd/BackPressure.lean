import TinyProto.Fd.Operations
import TinyProto.Fd.Outcomes

/-!
# The flags that hold a sender back

`FD_EVENT_QUEUE_HAS_FREE_SLOTS` and `FD_EVENT_CAN_ACCEPT_I_FRAMES` are raised where slots
are freed and where the window opens, with two exceptions: a connection that is closed frees
its slots and says nothing, and RSET opens the window and says nothing.  A run in which
neither changes what the flags should say keeps them true (`flags_tell_truth`).
-/

set_option linter.unusedSectionVars false

namespace TinyProto.Fd

open Hdlc Runs

variable {W N : Nat} [NeZero W] [NeZero N] {h h₁ h₂ : Handle W N} {p : Fin N}

/-! ## The flags -/

/-- A connected peer may send if and only if the window is open. -/
def Peer.Truthful (x : Peer) : Prop :=
  x.state = .connected → x.canAcceptIFrames = !x.iQueueControl.txFull

/-- The flags say what is the case. -/
structure Truthful (h : Handle W N) : Prop where
  room : h.events.queueHasFreeSlots = h.iQueue.hasFreeSlots
  peer : ∀ p, (h.peers p).Truthful

theorem Truthful.congr (ht : Truthful h)
    (hf : h₁.events.queueHasFreeSlots = h.events.queueHasFreeSlots)
    (hi : h₁.iQueue.hasFreeSlots = h.iQueue.hasFreeSlots) (hp : h₁.peers = h.peers) :
    Truthful h₁ where
  room := by rw [hf, hi, ht.room]
  peer := by
    rw [hp]
    exact ht.peer

theorem Truthful.of_update {x : Peer} (ht : Truthful h)
    (hf : h₁.events.queueHasFreeSlots = h₁.iQueue.hasFreeSlots)
    (hp : h₁.peers = Function.update h.peers p x) (hx : x.Truthful) : Truthful h₁ := by
  refine ⟨hf, ?_⟩
  rw [hp]
  exact (Function.forall_update_iff _ fun _ (y : Peer) => y.Truthful).mpr
    ⟨hx, fun q _ => ht.peer q⟩

/-- The fields that matter stay. -/
theorem Peer.Truthful.congr {x y : Peer} (hx : x.Truthful) (hs : y.state = x.state)
    (ha : y.canAcceptIFrames = x.canAcceptIFrames)
    (hf : y.iQueueControl.txFull = x.iQueueControl.txFull) : y.Truthful := by
  unfold Peer.Truthful
  rw [hs, ha, hf]
  exact hx

theorem Truthful.putUSFrame (ht : Truthful h) (type : QueueType) (address control : Byte)
    (payload : List Byte) : Truthful (putUSFrame h type address control payload) := by
  obtain ⟨q, b, he⟩ := putUSFrame_eq h type address control payload
  rw [he]
  exact ht.congr rfl rfl rfl

theorem SameSlots.hasFreeSlots {q q' : Queue W} (hs : SameSlots q q') :
    q'.hasFreeSlots = q.hasFreeSlots := by
  rw [Bool.eq_iff_iff, Queue.hasFreeSlots_iff, Queue.hasFreeSlots_iff]
  simp only [(hs _).1]

theorem Selects.truthful (hs : Selects p h h₁) (ht : Truthful h) : Truthful h₁ := by
  refine ⟨by rw [hs.queueHasFreeSlots, hs.slots.hasFreeSlots, ht.room], fun q => ?_⟩
  by_cases hq : q = p
  · obtain ⟨_, _, _, _, _, hp⟩ := hs.peer
    rw [hq, hp]
    exact (ht.peer p).congr rfl rfl rfl
  · rw [hs.other q hq]
    exact ht.peer q

/-! ## Confirmation -/

/-- A queue with a slot that was just freed has a free one. -/
theorem Queue.freeByHeader_hasFreeSlots {n : Nat} [NeZero n] (q : Queue n) (i : Fin n) :
    (q.freeByHeader i).hasFreeSlots = true :=
  Queue.hasFreeSlots_iff.mpr ⟨i, by rw [Queue.freeByHeader_self]⟩

theorem confirmOne_room (hr : h.events.queueHasFreeSlots = h.iQueue.hasFreeSlots) (p : Fin N) :
    (confirmOne h p).events.queueHasFreeSlots = (confirmOne h p).iQueue.hasFreeSlots := by
  show (onFrameConfirmed h p _).events.queueHasFreeSlots =
    (onFrameConfirmed h p _).iQueue.hasFreeSlots
  unfold onFrameConfirmed
  split
  · next i _ =>
    have hfree := Queue.freeByHeader_hasFreeSlots h.iQueue i
    dsimp only
    split
    · exact hfree.symm
    · next hn => exact absurd hfree hn
  · exact hr

/-- What confirming leaves of the flags: a full window is one that did not move. -/
theorem confirmLoop_flags (hr : h.events.queueHasFreeSlots = h.iQueue.hasFreeSlots) (p : Fin N)
    (nr : Seq) :
    ∃ q log c r, confirmLoop 8 h p nr =
        h.putConfirmed p q q.hasFreeSlots log c r (h.peers p).canAcceptIFrames ∧
      ((h.control p).lastNs + 1 = c → c = (h.control p).confirmNs) := by
  refine confirmLoop_rule (P := fun k => ∃ q log c r, k =
        h.putConfirmed p q q.hasFreeSlots log c r (h.peers p).canAcceptIFrames ∧
      ((h.control p).lastNs + 1 = c → c = (h.control p).confirmNs)) ?_ 8 h ?_
  · rintro k ⟨q, log, c, r, rfl, -⟩ - hne
    have hroom := confirmOne_room (h := h.putConfirmed p q q.hasFreeSlots log c r
      (h.peers p).canAcceptIFrames) rfl p
    obtain ⟨q', free', log', r', he⟩ := confirmOne_form (h.putConfirmed p q q.hasFreeSlots log c r
      (h.peers p).canAcceptIFrames) p
    have hpeer : (h.putConfirmed p q q.hasFreeSlots log c r (h.peers p).canAcceptIFrames).peers p =
        { h.peers p with
          iQueueControl := { (h.peers p).iQueueControl with confirmNs := c }
          retries := r } := setPeer_self ..
    unfold Handle.control at he hne
    rw [hpeer] at he hne
    rw [he, putConfirmed_putConfirmed] at hroom ⊢
    have hfree : free' = q'.hasFreeSlots := hroom
    refine ⟨q', log', c + 1, r', by rw [hfree], fun hlast => ?_⟩
    -- The turn was taken with frames left to confirm.
    have hend : c = (h.peers p).iQueueControl.lastNs := by
      have hlast' : (h.peers p).iQueueControl.lastNs + 1 = c + 1 := hlast
      generalize (h.peers p).iQueueControl.lastNs = last at hlast'
      bv_omega
    exact absurd hend hne
  · refine ⟨h.iQueue, h.log, (h.control p).confirmNs, (h.peers p).retries, ?_, fun _ => rfl⟩
    rw [← hr]
    exact (setPeer_id rfl).symm

theorem Truthful.confirmSentFrames (ht : Truthful h) (p : Fin N) (nr : Seq) :
    Truthful (confirmSentFrames h p nr) := by
  obtain ⟨q, log, c, r, he, hc⟩ := confirmLoop_flags ht.room p nr
  unfold Fd.confirmSentFrames
  dsimp only
  rw [he]
  have hctl : (h.putConfirmed p q q.hasFreeSlots log c r (h.peers p).canAcceptIFrames).control p =
      { h.control p with confirmNs := c } := by
    unfold Handle.control Handle.putConfirmed
    rw [setPeer_self]
  split
  · next hopen =>
    rw [hctl] at hopen
    unfold Handle.putConfirmed
    rw [setPeer_setPeer]
    exact ht.of_update rfl rfl fun _ => hopen.symm
  · next hfull =>
    rw [hctl, Bool.not_eq_true', Bool.not_eq_false] at hfull
    refine ht.of_update rfl rfl fun hs => ?_
    have hsame : c = (h.control p).confirmNs := hc (beq_iff_eq.mp hfull)
    have hold := ht.peer p hs
    rw [hsame] at hfull ⊢
    exact hold

/-! ## Connections -/

/-- To close the connection frees no slot, or there is a free one anyway. -/
def SparesQueue (h : Handle W N) (p : Fin N) : Prop :=
  h.iQueue.hasFreeSlots = true ∨ ∀ i, (h.iQueue.frames i).type ≠ .free →
    sameStation (h.iQueue.frames i).address (peerToAddressField h p) = false

instance : Decidable (SparesQueue h p) := inferInstanceAs (Decidable (_ ∨ _))

/-- Flushing keeps the free slots. -/
theorem flushed_hasFreeSlots (hf : h.iQueue.hasFreeSlots = true) (p : Fin N) :
    (flushed h p).hasFreeSlots = true := by
  obtain ⟨i, hi⟩ := Queue.hasFreeSlots_iff.mp hf
  refine Queue.hasFreeSlots_iff.mpr ⟨i, ?_⟩
  cases hs : sameStation (h.iQueue.frames i).address (peerToAddressField h p) with
  | true => rw [Queue.resetFor_same hs]
  | false => rw [Queue.resetFor_other hs, hi]

theorem SparesQueue.flushed (hs : SparesQueue h p) :
    (flushed h p).hasFreeSlots = h.iQueue.hasFreeSlots := by
  cases hfree : h.iQueue.hasFreeSlots with
  | true => exact flushed_hasFreeSlots hfree p
  | false =>
    refine eq_false_of_ne_true fun hflush => ?_
    obtain ⟨i, hi⟩ := Queue.hasFreeSlots_iff.mp hflush
    rcases hs with hs | hs
    · exact Bool.noConfusion (hs.symm.trans hfree)
    · have hused : (h.iQueue.frames i).type ≠ .free := fun ht =>
        Bool.noConfusion ((Queue.hasFreeSlots_iff.mpr ⟨i, ht⟩).symm.trans hfree)
      rw [Queue.resetFor_other (hs i hused)] at hi
      exact hused hi

theorem Truthful.switchToDisconnectedState (ht : Truthful h) (hs : SparesQueue h p) :
    Truthful (switchToDisconnectedState h p) := by
  by_cases hst : (h.peers p).state = .disconnected
  · rw [switchToDisconnectedState_of hst]
    exact ht
  · obtain ⟨log, he⟩ := switchToDisconnectedState_form hst
    rw [he]
    exact ht.of_update (ht.room.trans hs.flushed.symm) rfl fun hc => PeerState.noConfusion hc

/-- A connection that is opened raises both flags. -/
theorem Truthful.reconnect (ht : Truthful h) (p : Fin N) : Truthful (reconnect h p) := by
  obtain ⟨k, hk⟩ : ∃ k, k = (if Linked h p then Fd.switchToDisconnectedState h p else h) := ⟨_, rfl⟩
  have hkeep : (k.events.queueHasFreeSlots = true → k.iQueue.hasFreeSlots = true) ∧
      (∀ q, q ≠ p → k.peers q = h.peers q) ∧ (k.peers p).state ≠ .connected := by
    rw [hk]
    split
    · next hl =>
      obtain ⟨log, he⟩ := switchToDisconnectedState_form hl.ne_disconnected
      rw [he]
      refine ⟨fun hf => flushed_hasFreeSlots (ht.room ▸ hf) p, fun q hq => setPeer_ne _ hq _, ?_⟩
      rw [setPeer_self]
      exact PeerState.noConfusion
    · next hl => exact ⟨fun hf => ht.room ▸ hf, fun _ _ => rfl, ne_connected hl⟩
  obtain ⟨hsound, hother, hne⟩ := hkeep
  obtain ⟨log, he⟩ := switchToConnectedState_form hne
  unfold Fd.reconnect
  rw [← hk, he]
  refine ⟨?_, fun q => ?_⟩
  · show (k.events.queueHasFreeSlots || (flushed k p).hasFreeSlots) = (flushed k p).hasFreeSlots
    cases hf : k.events.queueHasFreeSlots with
    | true => rw [flushed_hasFreeSlots (hsound hf) p, Bool.true_or]
    | false => rw [Bool.false_or]
  · by_cases hq : q = p
    · rw [hq, setPeer_self]
      exact fun _ => rfl
    · rw [setPeer_ne _ hq]
      show (k.peers q).Truthful
      rw [hother q hq]
      exact ht.peer q

/-! ## Operations -/

/-- What a frame of the peer may not do: free slots of a full queue by closing the
connection, and open a full window by RSET. -/
structure KeepsFlags (h : Handle W N) (p : Fin N) (control : Byte) : Prop where
  close : Closes h p control ∨ Rejects h p control → SparesQueue h p
  reset : Resets h p control → (h.peers p).state = .connected → (h.control p).txFull = false

theorem Handled.truthful {control : Byte} (hh : Handled h p control h₁) (ht : Truthful h)
    (hg : KeepsFlags h p control) : Truthful h₁ := by
  have hua : ∀ {k : Handle W N}, k = h ∨ k = putUFrame h p 0 .ua →
      Truthful k ∧ (SparesQueue h p → SparesQueue k p) := by
    rintro k (rfl | rfl)
    · exact ⟨ht, id⟩
    · refine ⟨ht.putUSFrame _ _ _ _, fun hs => ?_⟩
      obtain ⟨q, b, he⟩ := putUSFrame_eq h .uFrame (peerToAddressField h p ||| 0) (uControl .ua) []
      unfold putUFrame
      rw [he]
      exact hs
  cases hh with
  | ignored => exact ht
  | passed => exact ht.congr rfl rfl rfl
  | refused => exact ht.putUSFrame _ _ _ _
  | opened _ hk => exact (hua hk).1.reconnect p
  | closed hc hk => exact (hua hk).1.switchToDisconnectedState ((hua hk).2 (hg.close (.inl hc)))
  | rejected hr =>
    have hput := (ht.switchToDisconnectedState (hg.close (.inr hr))).putUSFrame .uFrame
      (peerToAddressField (switchToDisconnectedState h p) p ||| crBit) (uControl (connectType h)) []
    exact hput.of_update hput.room rfl fun hc => PeerState.noConfusion hc
  | reset hr =>
    have hclear : Truthful (h.setPeer p Peer.resetCounters) := by
      refine ht.of_update ht.room rfl fun hc => ?_
      have hopen := hg.reset hr hc
      have hflag := ht.peer p hc
      exact hflag.trans (by rw [show (h.peers p).iQueueControl.txFull = false from hopen]; rfl)
    exact hclear.putUSFrame _ _ _ _
  | expected _ _ payload =>
    have hadv : Truthful (advance h p) := by
      unfold advance Handle.setControl
      rw [setPeer_setPeer]
      exact ht.of_update ht.room rfl ((ht.peer p).congr rfl rfl rfl)
    have hread : Truthful ((confirmSentFrames (advance h p) p (nrOf control)).emit
        (.read p (callbackAddress (confirmSentFrames (advance h p) p (nrOf control)) p) payload)) :=
      (hadv.confirmSentFrames p (nrOf control)).congr rfl rfl rfl
    unfold deliver
    dsimp only
    split
    · exact hread.putUSFrame _ _ _ _
    · exact hread
  | @confirmed k _ _ hk =>
    refine Truthful.confirmSentFrames ?_ p _
    rcases hk with rfl | rfl
    · exact ht
    · have hmark : Truthful (h.setPeer p fun x => { x with sentReject := true }) :=
        ht.of_update ht.room rfl ((ht.peer p).congr rfl rfl rfl)
      exact hmark.putUSFrame _ _ _ _
  | answered => exact (ht.confirmSentFrames p _).putUSFrame _ _ _ _
  | rewound =>
    have hc := ht.confirmSentFrames p (nrOf control)
    generalize confirmSentFrames h p (nrOf control) = k at hc
    obtain ⟨q, c, he⟩ := resendAllUnconfirmedFrames_form k p control (nrOf control)
    rw [he]
    exact hc.of_update hc.room rfl ((hc.peer p).congr rfl rfl rfl)
  | requested =>
    have hc := ht.confirmSentFrames p (nrOf control)
    generalize confirmSentFrames h p (nrOf control) = k at hc
    exact hc.of_update (p := p) hc.room rfl ((hc.peer p).congr rfl rfl rfl)

theorem Checked.truthful (hc : Checked h p h₁) (ht : Truthful h)
    (hg : Expires h p → SparesQueue h p) :
    Truthful h₁ := by
  cases hc with
  | retried =>
    obtain ⟨q, c, he⟩ := resendAllUnconfirmedFrames_form
      (h.setPeer p fun x => { x with retries := x.retries - 1 }) p 0 (h.control p).confirmNs
    have htaken : Truthful (h.setPeer p fun x => { x with retries := x.retries - 1 }) :=
      ht.of_update ht.room rfl ((ht.peer p).congr rfl rfl rfl)
    rw [he]
    exact htaken.of_update htaken.room rfl ((htaken.peer p).congr rfl rfl rfl)
  | gaveUp hl hto hr => exact ht.switchToDisconnectedState (hg ⟨hl, .inl ⟨hto, hr⟩⟩)
  | lost hl hto hu hk => exact ht.switchToDisconnectedState (hg ⟨hl, .inr ⟨hto, hu, hk⟩⟩)
  | disarmed => exact ht
  | keptAlive =>
    have hclear : Truthful (h.setPeer p fun x => { x with kaConfirmed := false }) :=
      ht.of_update ht.room rfl ((ht.peer p).congr rfl rfl rfl)
    have hput := hclear.putUSFrame .sFrame
      (peerToAddressField (h.setPeer p fun x => { x with kaConfirmed := false }) p ||| 0)
      (sControl .rr ((h.setPeer p fun x =>
        { x with kaConfirmed := false }).control p).nextNr ||| pBit) []
    exact hput.of_update hput.room rfl ((hput.peer p).congr rfl rfl rfl)
  | rested => exact ht
  | requested =>
    have hput := ht.putUSFrame .uFrame (peerToAddressField h p ||| crBit)
      (uControl (connectType h)) []
    exact hput.of_update hput.room rfl fun hc => PeerState.noConfusion hc
  | waited => exact ht

theorem Sent.truthful {data : List Byte} (hs : Sent h p data h₁) (ht : Truthful h) :
    Truthful h₁ := by
  cases hs with
  | refused => exact ht
  | full hf => exact ht.of_update hf.symm rfl fun _ => rfl
  | stored => exact ht.of_update rfl rfl fun _ => rfl

/-- The operation is none of the two exceptions. -/
def FlagsKept (h : Handle W N) : Op W N → Prop
  | .frame data => ∀ m ∈ sender h data, KeepsFlags h m.1 m.2
  | .check p => Expires h p → SparesQueue h p
  | _ => True

instance keepsFlags_decidable (control : Byte) : Decidable (KeepsFlags h p control) :=
  decidable_of_iff ((Closes h p control ∨ Rejects h p control → SparesQueue h p) ∧
      (Resets h p control → (h.peers p).state = .connected → (h.control p).txFull = false))
    ⟨fun hk => ⟨hk.1, hk.2⟩, fun hk => ⟨hk.close, hk.reset⟩⟩

instance flagsKept_decidable : (o : Op W N) → Decidable (FlagsKept h o)
  | .frame data => inferInstanceAs (Decidable (∀ m ∈ sender h data, KeepsFlags h m.1 m.2))
  | .check p => inferInstanceAs (Decidable (Expires h p → SparesQueue h p))
  | .attempt _ | .run _ | .lowLevel _ | .sendPacketTo _ _ | .sendUiPacketTo _ _
  | .disconnect | .registerPeer _ | .setKaTimeout _ | .tick _ =>
    isTrue trivial

/-- What the handle notes before it looks at a frame does not matter. -/
theorem KeepsFlags.heardFrom {control : Byte} (hg : KeepsFlags h p control) (data : List Byte) :
    KeepsFlags (heardFrom h p data) p control := by
  have hpeer := heardFrom_peer h p data
  have hqueue : (Fd.heardFrom h p data).iQueue = h.iQueue := rfl
  constructor
  · unfold Closes Rejects SparesQueue peerToAddressField
    rw [hpeer, hqueue]
    exact hg.close
  · unfold Resets Handle.control
    rw [hpeer]
    exact hg.reset

theorem Truthful.frame (ht : Truthful h) {data : List Byte} (hg : FlagsKept h (.frame data)) :
    Truthful (onFrameRead h data) := by
  have hr := onFrameRead_read h data
  generalize onFrameRead h data = k at hr
  cases hr with
  | unknown _ hk =>
    rcases hk with rfl | rfl
    · exact ht
    · exact ht.congr rfl rfl rfl
  | @handled p control k hs hk =>
    obtain ⟨b, hb⟩ := captureMarker_form k control
    rw [hb]
    have hnote : Truthful (heardFrom h p data) :=
      ht.of_update ht.room rfl ((ht.peer p).congr rfl rfl rfl)
    exact (hk.truthful hnote ((hg _ hs).heardFrom data)).congr rfl rfl rfl

theorem Truthful.operate {o : Op W N} (hord : Ordered h) (hg : FlagsKept h o) (ht : Truthful h) :
    Truthful (operate h o) := by
  cases o with
  | frame data => exact ht.frame hg
  | check p => exact (checkIdleTimeout_checked h p).truthful ht hg
  | attempt p => exact (tryToSend_selects h p).truthful ht
  | run len =>
    obtain ⟨ll, q, next, marker, sending, he, -⟩ := runTx_form hord.inStep len
    show Truthful (runTx h len).1
    rw [he]
    exact ht.congr rfl rfl rfl
  | lowLevel hdlc => exact ht.congr rfl rfl rfl
  | sendPacketTo address data =>
    show Truthful (sendPacketTo h address data).1
    rcases sendPacketTo_sent h address data with he | ⟨p, -, hs⟩
    · rw [he]
      exact ht
    · exact hs.truthful ht
  | sendUiPacketTo address data =>
    show Truthful (sendUiPacketTo h address data).1
    rcases sendUiPacketTo_cases h address data with he | ⟨p, -, he⟩
    · rw [he]
      exact ht
    · rw [he]
      exact ht.putUSFrame _ _ _ _
  | disconnect =>
    show Truthful (disconnect h).1
    rcases disconnect_cases h with he | ⟨-, he⟩
    · rw [he]
      exact ht
    · have hput := ht.putUSFrame .uFrame (peerToAddressField h 0 ||| crBit) (uControl .disc) []
      rw [he]
      exact hput.of_update hput.room rfl fun hc => PeerState.noConfusion hc
  | registerPeer address =>
    show Truthful (registerPeer h address).1
    rcases registerPeer_cases h address with he | ⟨p, a, ts, -, -, -, he⟩
    · rw [he]
      exact ht
    · rw [he]
      exact ht.of_update ht.room rfl ((ht.peer p).congr rfl rfl rfl)
  | setKaTimeout keepAlive => exact ht.congr rfl rfl rfl
  | tick ms => exact ht.congr rfl rfl rfl

theorem initHandle_truthful (init : InitParams) (hdlc : HdlcLl (SlotRef W)) (millis : BitVec 32) :
    Truthful (initHandle W N init hdlc millis) :=
  ⟨(Queue.hasFreeSlots_iff.mpr ⟨0, rfl⟩).symm, fun _ hc => PeerState.noConfusion hc⟩

/-- The flags tell the truth in every state of a run without the two exceptions. -/
theorem flags_tell_truth {past : History W N} (hl : Lives FlagsKept h past) :
    ∀ k, Visits past h k → Truthful k :=
  hl.invariant (fun init hdlc millis _ _ => initHandle_truthful init hdlc millis)
    fun _ _ hord _ hg ht => ht.operate hord hg

/-- Two connections, and a queue full of frames for the first. -/
def fillQueue : List Call :=
  [.registerPeer 1, .registerPeer 2, .getTxData 16, .onFrameRead [0x05, 0x73], .getTxData 16,
    .onFrameRead [0x09, 0x73], .sendPacketTo 1 [1], .sendPacketTo 1 [2]]

theorem flags_tell_truth_fillQueue : Truthful (fillQueue.foldl call (smallHandle 2 2 .nrm)) :=
  flags_tell_truth (smallHandle_lives (by decide) (by decide) (by decide +kernel)) _ (.inl rfl)

/-- The first peer refuses its connection. -/
def refuseFirst : List Call := fillQueue ++ [.onFrameRead [0x05, 0x0F]]

/-- Its slots are free then, and yet nothing can be sent to the second. -/
theorem freed_slots_unnoticed : ∃ h : Handle 2 2, Reachable AnyFrame h ∧ ¬Truthful h ∧
    h.iQueue.hasFreeSlots = true ∧ (h.peers 1).state = .connected ∧
    (sendPacketTo h 2 [3]).2 = .timeout := by
  refine ⟨refuseFirst.foldl call (smallHandle 2 2 .nrm),
    (smallHandle_reachable _ .nrm (by decide) (by decide)).calls (callsOk_any _ _), fun ht => ?_,
      ?_, ?_, ?_⟩
  · have hroom := ht.room
    revert hroom
    decide +kernel
  · decide +kernel
  · decide +kernel
  · decide +kernel

end TinyProto.Fd
