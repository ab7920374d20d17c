import TinyProto.Fd.Operations
import TinyProto.Fd.Service

/-!
# Requests for what is missing

An I-frame out of order shows a gap.  `__check_received_frame` sets `sent_reject`, and queues
a REJ if the service queue has room.  The bit keeps further REJs away until the expected frame
comes, also when the first one was dropped.  A bit that is set stands for a REJ in every state
of a run if and only if there was a free slot at every gap (`gaps_reported_iff`).
-/

set_option linter.unusedSectionVars false

namespace TinyProto.Fd

open Hdlc

variable {W N : Nat} [NeZero W] [NeZero N] {h h₁ h₂ : Handle W N} {p : Fin N}
  {past : History W N}

/-! ## Gaps that are known -/

/-- A gap of a connected peer that is known now was known before, and the same frame is
missing. -/
def Peer.Waits (x y : Peer) : Prop :=
  y.state = .connected → y.sentReject = true →
    x.state = .connected ∧ x.sentReject = true ∧ y.iQueueControl.nextNr = x.iQueueControl.nextNr

/-- No gap was detected. -/
structure NoNewGap (h h₁ : Handle W N) : Prop where
  peer : ∀ q, (h.peers q).Waits (h₁.peers q)

theorem Peer.Waits.refl (x : Peer) : x.Waits x := fun hs hr => ⟨hs, hr, rfl⟩

theorem NoNewGap.of_eq (hp : h₁.peers = h.peers) : NoNewGap h h₁ := by
  constructor
  rw [hp]
  exact fun _ => .refl _

theorem NoNewGap.trans (h₁₂ : NoNewGap h h₁) (h₂₃ : NoNewGap h₁ h₂) : NoNewGap h h₂ := by
  constructor
  intro q hs hr
  obtain ⟨hs₁, hr₁, hn₁⟩ := h₂₃.peer q hs hr
  obtain ⟨hs₂, hr₂, hn₂⟩ := h₁₂.peer q hs₁ hr₁
  exact ⟨hs₂, hr₂, hn₁.trans hn₂⟩

theorem NoNewGap.of_update {x : Peer} (hp : h₁.peers = Function.update h.peers p x)
    (hx : (h.peers p).Waits x) : NoNewGap h h₁ := by
  constructor
  rw [hp]
  exact (Function.forall_update_iff _ fun q (y : Peer) => (h.peers q).Waits y).mpr
    ⟨hx, fun _ _ => .refl _⟩

theorem NoNewGap.putUSFrame (h : Handle W N) (type : QueueType) (address control : Byte)
    (payload : List Byte) : NoNewGap h (putUSFrame h type address control payload) :=
  .of_eq (putUSFrame_peers ..)

theorem confirmSentFrames_noNewGap (h : Handle W N) (p : Fin N) (nr : Seq) :
    NoNewGap h (confirmSentFrames h p nr) := by
  obtain ⟨q, free, log, c, r, b, he⟩ := confirmSentFrames_form h p nr
  rw [he]
  exact .of_update rfl fun hs hr => ⟨hs, hr, rfl⟩

theorem resendAllUnconfirmedFrames_noNewGap (h : Handle W N) (p : Fin N) (control : Byte)
    (nr : Seq) : NoNewGap h (resendAllUnconfirmedFrames h p control nr) := by
  obtain ⟨q, c, he⟩ := resendAllUnconfirmedFrames_form h p control nr
  rw [he]
  exact .of_update rfl fun hs hr => ⟨hs, hr, rfl⟩

theorem switchToDisconnectedState_noNewGap (h : Handle W N) (p : Fin N) :
    NoNewGap h (switchToDisconnectedState h p) := by
  by_cases hst : (h.peers p).state = .disconnected
  · rw [switchToDisconnectedState_of hst]
    exact .of_eq rfl
  · obtain ⟨log, he⟩ := switchToDisconnectedState_form hst
    rw [he]
    exact .of_update rfl fun hs => PeerState.noConfusion hs

theorem reconnect_noNewGap (h : Handle W N) (p : Fin N) : NoNewGap h (reconnect h p) := by
  have hopen : ∀ k : Handle W N, NoNewGap k (switchToConnectedState k p) := by
    intro k
    by_cases hst : (k.peers p).state = .connected
    · rw [switchToConnectedState_of hst]
      exact .of_eq rfl
    · obtain ⟨log, he⟩ := switchToConnectedState_form hst
      rw [he]
      exact .of_update rfl fun _ hr => Bool.noConfusion hr
  unfold reconnect
  split
  · exact (switchToDisconnectedState_noNewGap h p).trans (hopen _)
  · exact hopen h

theorem Handled.noNewGap {control : Byte} (hh : Handled h p control h₁)
    (hu : isUFrame control = true) : NoNewGap h h₁ := by
  have hua : ∀ {k : Handle W N}, k = h ∨ k = putUFrame h p 0 .ua → NoNewGap h k := by
    rintro k (rfl | rfl)
    · exact .of_eq rfl
    · exact .putUSFrame ..
  have hno : ∀ {P : Prop}, isUFrame control = false → P := fun hn =>
    Bool.noConfusion (hu.symm.trans hn)
  cases hh with
  | ignored => exact .of_eq rfl
  | passed => exact .of_eq rfl
  | refused => exact .putUSFrame ..
  | opened _ hk => exact (hua hk).trans (reconnect_noNewGap _ p)
  | closed _ hk => exact (hua hk).trans (switchToDisconnectedState_noNewGap _ p)
  | rejected =>
    have hput := (switchToDisconnectedState_noNewGap h p).trans (.putUSFrame
      (switchToDisconnectedState h p) .uFrame
      (peerToAddressField (switchToDisconnectedState h p) p ||| crBit) (uControl (connectType h)) [])
    exact hput.trans (.of_update rfl fun hs => PeerState.noConfusion hs)
  | reset =>
    have hclear : NoNewGap h (h.setPeer p Peer.resetCounters) :=
      .of_update rfl fun _ hr => Bool.noConfusion hr
    exact hclear.trans (.putUSFrame ..)
  | expected _ hn => exact hno hn
  | confirmed _ hn => exact hno hn
  | answered _ hn => exact hno hn
  | rewound _ hn => exact hno hn
  | requested _ hn => exact hno hn

theorem onSFrameRead_noNewGap (h : Handle W N) (p : Fin N) (address control : Byte) :
    NoNewGap h (onSFrameRead h p address control) := by
  have hc := confirmSentFrames_noNewGap h p (nrOf control)
  unfold onSFrameRead
  dsimp only
  split
  · exact hc.trans (resendAllUnconfirmedFrames_noNewGap ..)
  · split
    · split
      · exact hc.trans (.putUSFrame ..)
      · exact hc
    · split
      · exact hc
      · exact hc.trans (.of_update (p := p) rfl fun hs hr => ⟨hs, hr, rfl⟩)

theorem Checked.noNewGap (hc : Checked h p h₁) : NoNewGap h h₁ := by
  cases hc with
  | retried =>
    have htaken : NoNewGap h (h.setPeer p fun x => { x with retries := x.retries - 1 }) :=
      .of_update rfl fun hs hr => ⟨hs, hr, rfl⟩
    exact htaken.trans (resendAllUnconfirmedFrames_noNewGap ..)
  | gaveUp => exact switchToDisconnectedState_noNewGap h p
  | lost => exact switchToDisconnectedState_noNewGap h p
  | disarmed => exact .of_eq rfl
  | keptAlive =>
    have hclear : NoNewGap h (h.setPeer p fun x => { x with kaConfirmed := false }) :=
      .of_update rfl fun hs hr => ⟨hs, hr, rfl⟩
    exact (hclear.trans (.putUSFrame ..)).trans (.of_update rfl fun hs hr => ⟨hs, hr, rfl⟩)
  | rested => exact .of_eq rfl
  | requested =>
    exact (NoNewGap.putUSFrame ..).trans (.of_update rfl fun hs => PeerState.noConfusion hs)
  | waited => exact .of_eq rfl

theorem Sent.noNewGap {data : List Byte} (hs : Sent h p data h₁) : NoNewGap h h₁ := by
  cases hs with
  | refused => exact .of_eq rfl
  | full => exact .of_update rfl fun hs hr => ⟨hs, hr, rfl⟩
  | stored => exact .of_update rfl fun hs hr => ⟨hs, hr, rfl⟩

theorem Selects.noNewGap (hs : Selects p h h₁) : NoNewGap h h₁ := by
  constructor
  intro q
  by_cases hq : q = p
  · obtain ⟨_, _, _, _, _, hp⟩ := hs.peer
    rw [hq, hp]
    exact fun hs hr => ⟨hs, hr, rfl⟩
  · rw [hs.other q hq]
    exact .refl _

/-! ## Gaps that are detected -/

/-- The frame shows a gap of a connected peer that is not known yet. -/
structure Gap (h : Handle W N) (p : Fin N) (control : Byte) : Prop where
  connected : (h.peers p).state = .connected
  iFrame : isIFrame control = true
  outOfOrder : nsOf control ≠ (h.control p).nextNr
  unknown : (h.peers p).sentReject = false

instance gap_decidable (control : Byte) : Decidable (Gap h p control) :=
  decidable_of_iff ((h.peers p).state = .connected ∧ isIFrame control = true ∧
      nsOf control ≠ (h.control p).nextNr ∧ (h.peers p).sentReject = false)
    ⟨fun hg => ⟨hg.1, hg.2.1, hg.2.2.1, hg.2.2.2⟩, fun hg => ⟨hg.1, hg.2, hg.3, hg.4⟩⟩

/-- The handle with the gap noted, and the REJ queued if there is room. -/
def noteGap (h : Handle W N) (p : Fin N) : Handle W N :=
  putSFrame (h.setPeer p fun x => { x with sentReject := true }) p crBit .rej 0

theorem onIFrameRead_noNewGap {control : Byte} (hi : isIFrame control = true)
    (hg : ¬Gap h p control) (payload : List Byte) :
    NoNewGap h (onIFrameRead h p control payload) := by
  unfold onIFrameRead checkReceivedFrame
  by_cases hns : nsOf control = (h.control p).nextNr
  · rw [if_pos hns]
    have hadv : NoNewGap h (advance h p) := by
      unfold advance Handle.setControl
      rw [setPeer_setPeer]
      exact .of_update rfl fun _ hr => Bool.noConfusion hr
    have hread : NoNewGap h ((confirmSentFrames (advance h p) p (nrOf control)).emit
        (.read p (callbackAddress (confirmSentFrames (advance h p) p (nrOf control)) p) payload)) :=
      (hadv.trans (confirmSentFrames_noNewGap (advance h p) p (nrOf control))).trans (.of_eq rfl)
    show NoNewGap h (deliver (confirmSentFrames (advance h p) p (nrOf control)) p payload)
    unfold deliver
    dsimp only
    split
    · exact hread.trans (.putUSFrame _ _ _ _ _)
    · exact hread
  · rw [if_neg hns]
    cases hr : (h.peers p).sentReject with
    | true =>
      simp only [Bool.not_true, Bool.false_eq_true, if_false]
      exact confirmSentFrames_noNewGap h p _
    | false =>
      have hst : (h.peers p).state ≠ .connected := fun hst => hg ⟨hst, hi, hns, hr⟩
      have hmark : NoNewGap h (h.setPeer p fun x => { x with sentReject := true }) :=
        .of_update rfl fun hs => absurd hs hst
      simp only [Bool.not_false, if_true]
      exact (hmark.trans (.putUSFrame _ _ _ _ _)).trans (confirmSentFrames_noNewGap _ p _)

theorem onPeerFrame_noNewGap {control : Byte} (hg : ¬Gap h p control) (address : Byte)
    (payload : List Byte) : NoNewGap h (onPeerFrame h p address control payload) := by
  unfold onPeerFrame
  split
  · next hu => exact (onUFrameRead_handled hu address payload).noNewGap hu
  · split
    · exact .putUSFrame _ _ _ _ _
    · split
      · next hi => exact onIFrameRead_noNewGap hi hg payload
      · exact onSFrameRead_noNewGap h p address control

theorem Gap.onPeerFrame {control : Byte} (hg : Gap h p control) (address : Byte)
    (payload : List Byte) :
    onPeerFrame h p address control payload = confirmSentFrames (noteGap h p) p (nrOf control) := by
  have hst : ¬((h.peers p).state ≠ .connected ∧ (h.peers p).state ≠ .disconnecting) := fun hn =>
    hn.1 hg.connected
  unfold Fd.onPeerFrame onIFrameRead checkReceivedFrame noteGap
  simp only [isUFrame_of_isIFrame hg.iFrame, Bool.false_eq_true, if_false, if_neg hst, hg.iFrame,
    if_true, if_neg hg.outOfOrder, hg.unknown, Bool.not_false]

/-- What the handle notes before it looks at a frame does not matter. -/
theorem gap_heardFrom {data : List Byte} {control : Byte} :
    Gap (heardFrom h p data) p control ↔ Gap h p control := by
  have hpeer := heardFrom_peer h p data
  constructor
  · rintro ⟨hs, hi, ho, hu⟩
    unfold Handle.control at ho
    rw [hpeer] at hs ho hu
    exact ⟨hs, hi, ho, hu⟩
  · rintro ⟨hs, hi, ho, hu⟩
    refine ⟨?_, hi, ?_, ?_⟩
    · rw [hpeer]
      exact hs
    · unfold Handle.control
      rw [hpeer]
      exact ho
    · rw [hpeer]
      exact hu

theorem heardFrom_noNewGap (h : Handle W N) (p : Fin N) (data : List Byte) :
    NoNewGap h (heardFrom h p data) :=
  .of_update rfl fun hs hr => ⟨hs, hr, rfl⟩

theorem captureMarker_keeps (h : Handle W N) (control : Byte) :
    (captureMarker h control).peers = h.peers ∧ (captureMarker h control).sQueue = h.sQueue := by
  obtain ⟨b, hb⟩ := captureMarker_form h control
  rw [hb]
  exact ⟨rfl, rfl⟩

/-- The operation brings a frame that shows a gap of the peer. -/
def Op.ShowsGap (h : Handle W N) (p : Fin N) : Op W N → Prop
  | .frame data => ∃ control, sender h data = some (p, control) ∧ Gap h p control
  | _ => False

/-- If the operation brings a frame that shows a gap, there is a free slot for the REJ. -/
def LeavesSlot (h : Handle W N) : Op W N → Prop
  | .frame data => ∀ m ∈ sender h data, Gap h m.1 m.2 → h.sQueue.hasFreeSlots = true
  | _ => True

instance leavesSlot_decidable : (o : Op W N) → Decidable (LeavesSlot h o)
  | .frame data => inferInstanceAs
      (Decidable (∀ m ∈ sender h data, Gap h m.1 m.2 → h.sQueue.hasFreeSlots = true))
  | .check _ | .attempt _ | .run _ | .lowLevel _ | .sendPacketTo _ _ | .sendUiPacketTo _ _
  | .disconnect | .registerPeer _ | .setKaTimeout _ | .tick _ => isTrue trivial

/-- Other operations make no gap known. -/
theorem operate_noNewGap (hord : Ordered h) (o : Op W N) (q : Fin N) :
    o.ShowsGap h q ∨ (h.peers q).Waits ((operate h o).peers q) := by
  cases o with
  | frame data =>
    cases hs : sender h data with
    | none =>
      right
      have hr := onFrameRead_read h data
      show (h.peers q).Waits ((onFrameRead h data).peers q)
      generalize onFrameRead h data = k at hr
      cases hr with
      | unknown _ hk =>
        rcases hk with rfl | rfl
        · exact .refl _
        · exact .refl _
      | handled hs' => cases hs.symm.trans hs'
    | some m =>
      obtain ⟨p, control⟩ := m
      obtain ⟨address, payload, -, he⟩ := onFrameRead_of_sender hs
      by_cases hg : Gap h p control
      · by_cases hq : q = p
        · rw [hq]
          exact .inl ⟨control, hs, hg⟩
        · right
          show (h.peers q).Waits ((onFrameRead h data).peers q)
          have hother : (onFrameRead h data).peers q = h.peers q := by
            rw [he, (captureMarker_keeps _ _).1, (gap_heardFrom.mpr hg).onPeerFrame,
              (confirmSentFrames_confirms _ p _).other q hq]
            unfold noteGap putSFrame heardFrom noteReceived
            rw [putUSFrame_peers, setPeer_ne _ hq, setPeer_ne _ hq]
            rfl
          rw [hother]
          exact .refl _
      · right
        have hno := (heardFrom_noNewGap h p data).trans
          (onPeerFrame_noNewGap (fun hg' => hg (gap_heardFrom.mp hg')) address payload)
        show (h.peers q).Waits ((onFrameRead h data).peers q)
        rw [he, (captureMarker_keeps _ _).1]
        exact hno.peer q
  | check p => exact .inr ((checkIdleTimeout_checked h p).noNewGap.peer q)
  | attempt p => exact .inr ((tryToSend_selects h p).noNewGap.peer q)
  | run len =>
    obtain ⟨ll, qs, next, marker, sending, he, -⟩ := runTx_form hord.inStep len
    right
    show (h.peers q).Waits ((runTx h len).1.peers q)
    rw [he]
    exact .refl _
  | lowLevel hdlc => exact .inr (.refl _)
  | sendPacketTo address data =>
    right
    show (h.peers q).Waits ((sendPacketTo h address data).1.peers q)
    rcases sendPacketTo_sent h address data with he | ⟨p, -, hs⟩
    · rw [he]
      exact .refl _
    · exact hs.noNewGap.peer q
  | sendUiPacketTo address data =>
    right
    show (h.peers q).Waits ((sendUiPacketTo h address data).1.peers q)
    rcases sendUiPacketTo_cases h address data with he | ⟨p, -, he⟩
    · rw [he]
      exact .refl _
    · rw [he]
      exact (NoNewGap.putUSFrame _ _ _ _ _).peer q
  | disconnect =>
    right
    show (h.peers q).Waits ((disconnect h).1.peers q)
    rcases disconnect_cases h with he | ⟨-, he⟩
    · rw [he]
      exact .refl _
    · have hhung : NoNewGap (putUFrame h 0 crBit .disc)
          ((putUFrame h 0 crBit .disc).setPeer 0 fun x => { x with state := .disconnecting }) :=
        .of_update rfl fun hs => PeerState.noConfusion hs
      rw [he]
      exact ((NoNewGap.putUSFrame _ _ _ _ _).trans hhung).peer q
  | registerPeer address =>
    right
    show (h.peers q).Waits ((registerPeer h address).1.peers q)
    rcases registerPeer_cases h address with he | ⟨p, a, ts, -, -, -, he⟩
    · rw [he]
      exact .refl _
    · have hnew : NoNewGap h (h.setPeer p fun x =>
          { x with addr := a, lastReceivedFrameTs := ts }) :=
        .of_update rfl fun hs hr => ⟨hs, hr, rfl⟩
      rw [he]
      exact hnew.peer q
  | setKaTimeout keepAlive => exact .inr (.refl _)
  | tick ms => exact .inr (.refl _)

/-! ## The REJ for a gap -/

/-- The REJ that asks the peer for this frame. -/
def rejFor (h : Handle W N) (p : Fin N) (nr : Seq) : Slot :=
  { type := .sFrame
    address := peerToAddressField h p ||| crBit
    control := sControl .rej nr
    payload := [] }

/-- The operation placed a REJ with this N(R) in a free slot of the service queue. -/
def PlacesRej (h : Handle W N) (o : Op W N) (p : Fin N) (nr : Seq) : Prop :=
  ∃ i, (h.sQueue.frames i).type = .free ∧ (operate h o).sQueue.frames i = rejFor h p nr

/-- A REJ for the frame that is expected now was placed when the gap was detected, and the gap
was known ever since. -/
def RejQueued (past : History W N) (h : Handle W N) (p : Fin N) : Prop :=
  ∃ before k o after, past = before ++ (k, o) :: after ∧ (k.peers p).sentReject = false ∧
    PlacesRej k o p (h.control p).nextNr ∧ ∀ m ∈ after, (m.1.peers p).sentReject = true

theorem RejQueued.extend {o : Op W N} (hq : RejQueued past h p)
    (hr : (h.peers p).sentReject = true)
    (hn : (h₁.control p).nextNr = (h.control p).nextNr) :
    RejQueued (past ++ [(h, o)]) h₁ p := by
  obtain ⟨before, k, o', after, he, hfirst, hplaced, hafter⟩ := hq
  refine ⟨before, k, o', after ++ [(h, o)], ?_, hfirst, hn ▸ hplaced, fun m hm => ?_⟩
  · rw [he, List.append_assoc, List.cons_append]
  · rcases List.mem_append.mp hm with hm | hm
    · exact hafter m hm
    · rw [List.mem_singleton.mp hm]
      exact hr

theorem putUSFrame_sQueue_congr (hs : h₁.sQueue = h.sQueue) (type : QueueType)
    (address control : Byte) (payload : List Byte) :
    (putUSFrame h₁ type address control payload).sQueue =
      (putUSFrame h type address control payload).sQueue := by
  unfold putUSFrame putUSFrame?
  rw [hs]
  cases h.sQueue.allocate type payload with
  | none => exact hs
  | some r => rfl

/-- What a frame that shows a gap leaves. -/
theorem Op.ShowsGap.operate {o : Op W N} (hg : o.ShowsGap h p) :
    ((operate h o).peers p).sentReject = true ∧ ((operate h o).peers p).state = .connected ∧
      ((operate h o).control p).nextNr = (h.control p).nextNr ∧
      (operate h o).sQueue = (putUSFrame h .sFrame (peerToAddressField h p ||| crBit)
        (sControl .rej (h.control p).nextNr) []).sQueue := by
  cases o with
  | frame data =>
    obtain ⟨control, hs, hg⟩ := hg
    obtain ⟨address, payload, -, he⟩ := onFrameRead_of_sender hs
    have hc := confirmSentFrames_confirms (noteGap (heardFrom h p data) p) p (nrOf control)
    obtain ⟨c, r, b, hpeer⟩ := hc.peer
    have hnoted : (noteGap (heardFrom h p data) p).peers p =
        { (heardFrom h p data).peers p with sentReject := true } := by
      unfold noteGap putSFrame
      rw [putUSFrame_peers, setPeer_self]
    rw [hnoted, heardFrom_peer] at hpeer
    show ((onFrameRead h data).peers p).sentReject = true ∧ ((onFrameRead h data).peers p).state = _ ∧
      ((onFrameRead h data).peers p).iQueueControl.nextNr = _ ∧ (onFrameRead h data).sQueue = _
    rw [he, (captureMarker_keeps _ _).1, (captureMarker_keeps _ _).2,
      (gap_heardFrom.mpr hg).onPeerFrame, hpeer, hc.sQueue]
    refine ⟨rfl, hg.connected, rfl, ?_⟩
    have hfield : peerToAddressField ((heardFrom h p data).setPeer p fun x =>
        { x with sentReject := true }) p = peerToAddressField h p := by
      unfold peerToAddressField
      rw [setPeer_self, heardFrom_peer]
    have hnr : (((heardFrom h p data).setPeer p fun x => { x with sentReject := true }).control
        p).nextNr = (h.control p).nextNr := by
      unfold Handle.control
      rw [setPeer_self, heardFrom_peer]
    have hzero : ∀ c : Byte, c ||| 0 = c := by decide +kernel
    unfold noteGap putSFrame
    rw [hfield, hnr, hzero]
    have hqueue : ((heardFrom h p data).setPeer p fun x => { x with sentReject := true }).sQueue =
        h.sQueue := rfl
    exact putUSFrame_sQueue_congr hqueue _ _ _ _
  | _ => exact hg.elim

theorem Op.ShowsGap.unknown {o : Op W N} (hg : o.ShowsGap h p) :
    (h.peers p).sentReject = false := by
  cases o with
  | frame data =>
    obtain ⟨control, -, hg⟩ := hg
    exact hg.unknown
  | _ => exact hg.elim

/-- With a free slot the REJ is placed. -/
theorem Op.ShowsGap.places {o : Op W N} (hg : o.ShowsGap h p) (hl : LeavesSlot h o)
    (hm : h.sQueue.mtu = 2) : PlacesRej h o p (h.control p).nextNr := by
  have hfree : h.sQueue.hasFreeSlots = true := by
    cases o with
    | frame data =>
      obtain ⟨control, hs, hg⟩ := hg
      exact hl _ hs hg
    | _ => exact hg.elim
  have hlen : (([] : List Byte).length : Int) ≤ h.sQueue.mtu := by
    rw [hm]
    decide
  obtain ⟨i, hi, -, he⟩ := putUSFrame_placed hfree hlen .sFrame (peerToAddressField h p ||| crBit)
    (sControl .rej (h.control p).nextNr)
  have hslot := Queue.getNext_some hi
  rw [Slot.fits_free, beq_iff_eq] at hslot
  refine ⟨i, hslot, ?_⟩
  rw [hg.operate.2.2.2, he]
  exact Queue.setFrame_self ..

/-! ## Runs -/

theorem Lives.service_mtu {G : Handle W N → Op W N → Prop} (hl : Lives G h past) :
    ∀ k, Visits past h k → k.sQueue.mtu = 2 :=
  hl.invariant (fun _ _ _ _ _ => rfl) fun _ _ hord hd _ hk =>
    (operate_run hord hd).preserves (P := fun k => k.sQueue.mtu = 2)
      (fun _ _ _ hm _ hs => hs.service_mtu.trans hm) hk

/-- In every state of the run, a set bit of a connected peer stands for a REJ. -/
def GapsReported (past : History W N) (h : Handle W N) : Prop :=
  ∀ before k, Stands past h before k → ∀ p, (k.peers p).state = .connected →
    (k.peers p).sentReject = true → RejQueued before k p

theorem rejQueued_step {o : Op W N} (hord : Ordered h) (hm : h.sQueue.mtu = 2)
    (hl : LeavesSlot h o)
    (hP : ∀ p, (h.peers p).state = .connected → (h.peers p).sentReject = true → RejQueued past h p)
    (p : Fin N) (hs : ((operate h o).peers p).state = .connected)
    (hr : ((operate h o).peers p).sentReject = true) :
    RejQueued (past ++ [(h, o)]) (operate h o) p := by
  rcases operate_noNewGap hord o p with hg | hw
  · obtain ⟨-, -, hn, -⟩ := hg.operate
    refine ⟨past, h, o, [], rfl, hg.unknown, ?_, fun _ hnil => absurd hnil List.not_mem_nil⟩
    rw [hn]
    exact hg.places hl hm
  · obtain ⟨hs₀, hr₀, hn⟩ := hw hs hr
    exact (hP p hs₀ hr₀).extend hr₀ hn

/-- A gap without a free slot is left unreported. -/
theorem Lives.gap_lost {G : Handle W N → Op W N → Prop} (hl : Lives G h past)
    {m : Handle W N × Op W N} (hm : m ∈ past) (hno : ¬LeavesSlot m.1 m.2) :
    ¬GapsReported past h := by
  intro hall
  obtain ⟨before, after, he⟩ := List.append_of_mem hm
  obtain ⟨k, o⟩ := m
  obtain ⟨p, hg, hfull⟩ : ∃ p, o.ShowsGap k p ∧ k.sQueue.hasFreeSlots ≠ true := by
    cases o with
    | frame data =>
      by_contra hc
      refine hno fun m hs hgap => ?_
      by_contra hfull
      exact hc ⟨m.1, ⟨m.2, hs, hgap⟩, hfull⟩
    | _ => exact absurd trivial hno
  obtain ⟨hr, hst, -, -⟩ := hg.operate
  obtain ⟨before', k', o', after', he', -, ⟨i, hfree, -⟩, hknown⟩ :=
    hall _ _ (hl.stands_next ⟨after, he⟩) p hst hr
  -- The REJ would have come with the last operation, or the gap was known before it.
  rcases List.eq_nil_or_concat after' with rfl | ⟨after', x, rfl⟩
  · obtain ⟨-, hlast⟩ := List.append_inj' he' rfl
    cases hlast
    exact hfull (Queue.hasFreeSlots_iff.mpr ⟨i, hfree⟩)
  · rw [List.concat_eq_append, ← List.cons_append, ← List.append_assoc] at he'
    obtain ⟨-, hlast⟩ := List.append_inj' he' rfl
    cases hlast
    have hr₀ := hknown (k, o) (by simp)
    exact Bool.false_ne_true (hg.unknown.symm.trans hr₀)

/-- In a run the bits stand for queued REJs if and only if there was a free slot at every
gap. -/
theorem gaps_reported_iff (hl : Lives AnyOp h past) :
    GapsReported past h ↔ ∀ m ∈ past, LeavesSlot m.1 m.2 := by
  constructor
  · intro hall m hm
    by_contra hno
    exact hl.gap_lost hm hno hall
  · intro hslots before k hk p
    have hmtu := hl.service_mtu
    have hrule := hl.rule (P := fun past h => (∀ m ∈ past, LeavesSlot m.1 m.2) →
      h.sQueue.mtu = 2 ∧ ∀ p, (h.peers p).state = .connected → (h.peers p).sentReject = true →
        RejQueued past h p) ?_ ?_
    · rcases hk with ⟨rfl, rfl⟩ | ⟨o, hh⟩
      · exact (hrule.2.1 hslots).2 p
      · obtain ⟨after, he⟩ := hh
        refine ((hrule.2.2 before k o ⟨after, he⟩).2.2.2 fun m hm => hslots m ?_).2 p
        rw [he]
        exact List.mem_append_left _ hm
    · intro init hdlc millis _ _ _
      exact ⟨rfl, fun p hs => PeerState.noConfusion hs⟩
    · intro past h o hord hd _ ih hslots
      obtain ⟨hm, hknown⟩ := ih fun m hm => hslots m (List.mem_append_left _ hm)
      refine ⟨?_, rejQueued_step hord hm
        (hslots (h, o) (List.mem_append_right _ (List.mem_singleton_self _))) hknown⟩
      exact (operate_run hord hd).preserves (P := fun k => k.sQueue.mtu = 2)
        (fun _ _ _ hm _ hs => hs.service_mtu.trans hm) hm

/-- A connection, and an I-frame behind a lost one. -/
def missOne : List Call :=
  [.onFrameRead [0x03, 0x3F], .onFrameRead [0x03, 0x02, 7]]

/-- The gap is reported. -/
theorem gaps_reported_missOne :
    ((missOne.foldl call (smallHandle 2 1 .abm)).peers 0).sentReject = true ∧
      RejQueued (history (smallHandle 2 1 .abm) missOne)
        (missOne.foldl call (smallHandle 2 1 .abm)) 0 := by
  have hl : Lives AnyOp _ (history (smallHandle 2 1 .abm) missOne) :=
    smallHandle_lives (by decide) (by decide) (callsMeet_any _ _)
  have hr : ((missOne.foldl call (smallHandle 2 1 .abm)).peers 0).sentReject = true := by
    decide +kernel
  exact ⟨hr, (gaps_reported_iff hl).mpr (by decide +kernel) _ _ (.inl ⟨rfl, rfl⟩) 0
    (by decide +kernel) hr⟩

/-- The same, after frames whose answers were not sent yet. -/
def missOneUnderLoad : List Call :=
  [.onFrameRead [0x03, 0x3F], .onFrameRead [0x03, 0x11], .onFrameRead [0x03, 0x11],
    .onFrameRead [0x03, 0x11], .onFrameRead [0x03, 0x02, 7]]

/-- The gap is noted, and nobody is told. -/
theorem gap_unreported : ∃ past, ∃ h : Handle 2 1, Lives AnyOp h past ∧
    (h.peers 0).state = .connected ∧ (h.peers 0).sentReject = true ∧ ¬GapsReported past h := by
  have hl : Lives AnyOp _ (history (smallHandle 2 1 .abm) missOneUnderLoad) :=
    smallHandle_lives (by decide) (by decide) (callsMeet_any _ _)
  have hlost : ∃ m ∈ history (smallHandle 2 1 .abm) missOneUnderLoad, ¬LeavesSlot m.1 m.2 := by
    decide +kernel
  obtain ⟨m, hm, hno⟩ := hlost
  exact ⟨_, _, hl, by decide +kernel, by decide +kernel, hl.gap_lost hm hno⟩

end TinyProto.Fd
