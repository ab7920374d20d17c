import TinyProto.Fd.Addressing
import TinyProto.Fd.Sending

/-!
# Unnumbered information

A UI frame goes through the service queue, past the sequence numbers, and is delivered in
every state of the connection (`onFrameRead_ui`).  Neither side changes what it keeps for the
numbered traffic (`Unaffected`).

The slots of the service queue are made for the two bytes of an FRMR, so
`tiny_fd_send_ui_packet` refuses a payload of three bytes, whatever the mtu.  Together with
the address that a secondary station does not find, this is all that keeps a payload from
being carried (`ui_carried_iff`).
-/

set_option linter.unusedSectionVars false

namespace TinyProto.Fd

open Hdlc

variable {W N : Nat} [NeZero W] [NeZero N] {h h₁ h₂ : Handle W N} {p : Fin N}

/-- `tiny_fd_send_ui_packet`. -/
def sendUiPacket (h : Handle W N) (data : List Byte) : Handle W N × Status :=
  sendUiPacketTo h 0 data

/-- `tiny_fd_get_mtu`. -/
def fdGetMtu (h : Handle W N) : Int := h.iQueue.mtu

/-! ## The numbered traffic -/

/-- The connection state, the sequence numbers and the reject flags stay. -/
structure Peer.Unaffected (x y : Peer) : Prop where
  state : y.state = x.state
  control : y.iQueueControl = x.iQueueControl
  sentNr : y.sentNr = x.sentNr
  sentReject : y.sentReject = x.sentReject
  srejReqMask : y.srejReqMask = x.srejReqMask

/-- They do for every peer, and so do the I-frames in the queue. -/
structure Unaffected (h h₁ : Handle W N) : Prop where
  peer : ∀ p, (h.peers p).Unaffected (h₁.peers p)
  iQueue : h₁.iQueue = h.iQueue

theorem Peer.Unaffected.refl (x : Peer) : x.Unaffected x := ⟨rfl, rfl, rfl, rfl, rfl⟩

theorem Peer.Unaffected.trans {x y z : Peer} (hxy : x.Unaffected y) (hyz : y.Unaffected z) :
    x.Unaffected z where
  state := hyz.state.trans hxy.state
  control := hyz.control.trans hxy.control
  sentNr := hyz.sentNr.trans hxy.sentNr
  sentReject := hyz.sentReject.trans hxy.sentReject
  srejReqMask := hyz.srejReqMask.trans hxy.srejReqMask

theorem Unaffected.of_eq (hp : h₁.peers = h.peers) (hi : h₁.iQueue = h.iQueue) :
    Unaffected h h₁ :=
  ⟨fun _ => hp ▸ .refl _, hi⟩

theorem Unaffected.trans (h₁₂ : Unaffected h h₁) (h₂₃ : Unaffected h₁ h₂) :
    Unaffected h h₂ :=
  ⟨fun p => (h₁₂.peer p).trans (h₂₃.peer p), h₂₃.iQueue.trans h₁₂.iQueue⟩

/-- One peer is changed in what does not belong to the numbered traffic. -/
theorem Unaffected.setPeer (h : Handle W N) (p : Fin N) {f : Peer → Peer}
    (hf : (h.peers p).Unaffected (f (h.peers p))) : Unaffected h (h.setPeer p f) where
  peer := setPeer_forall (P := fun q x => (h.peers q).Unaffected x) hf fun _ _ => .refl _
  iQueue := rfl

/-! ## The frame -/

/-- A slot with a UI frame that waits. -/
def uiSlot (address : Byte) (data : List Byte) : Slot :=
  { type := .uFrame, address := address, control := uControl .ui, payload := data }

/-- The frame as it leaves in ABM: a U-frame gets P/F. -/
def uiFrame (address : Byte) (data : List Byte) : List Byte :=
  address :: (uControl .ui ||| pBit) :: data

/-- An ABM station has one peer address, its own. -/
theorem not_multi_of_abm (hm : h.settings.mode = .abm) : ¬Multi h := fun hmulti => hmulti.2 hm

theorem Addressed.abm_field (hw : Addressed h) (hm : h.settings.mode = .abm) (p : Fin N) :
    peerToAddressField h p = h.settings.addr := by
  unfold peerToAddressField
  rw [(hw.single (not_multi_of_abm hm)).1 p]
  exact (clear_cr hw.station).1

/-- An ABM station takes the frames with its own address. -/
theorem abm_found (hm : h.settings.mode = .abm) {a : Byte} (ha : a &&& 0x03 = 0x01) :
    addressFieldToPeer h a = if a = h.settings.addr then some 0 else none := by
  obtain ⟨hclear, hbit⟩ := clear_cr ha
  rw [addressFieldToPeer_eq, hclear, if_neg hbit, if_pos (not_multi_of_abm hm)]

theorem primary_addr (hw : Addressed h) (hs : h.isPrimaryStation = true) :
    h.settings.addr = eBit := by
  rw [← (clear_cr hw.station).1]
  exact eq_of_beq hs

/-- The primary address leads to the peer if the own address is the default, or survives being
shifted twice. -/
theorem abm_primary_found (hw : Addressed h) (hm : h.settings.mode = .abm) :
    addressFieldToPeer h (sendAddress h 0) =
      if h.isPrimaryStation = true ∨ h.settings.addr = 0x55 then some (0 : Fin N) else none := by
  cases hs : h.isPrimaryStation with
  | true =>
    have hsend : sendAddress h 0 = eBit := by
      unfold sendAddress Handle.isSecondaryStation
      simp only [hs, Bool.not_true, Bool.false_eq_true, false_and, if_false]
      decide
    rw [hsend, abm_found hm (by decide), if_pos (primary_addr hw hs).symm, if_pos (.inl rfl)]
  | false =>
    rw [secondary_resolves hw hs]
    simp only [Bool.false_eq_true, false_or]

/-! ## Both ends -/

/-- A frame that is found and has room is placed as it is. -/
theorem sendUiPacket_placed (hw : Addressed h) (hm : h.settings.mode = .abm)
    (hroom : h.sQueue.hasFreeSlots = true) {data : List Byte}
    (hlen : (data.length : Int) ≤ h.sQueue.mtu)
    (hfound : addressFieldToPeer h (sendAddress h 0) = some p) :
    ∃ i, (h.sQueue.frames i).type = .free ∧ sendUiPacket h data =
      ({ h with
          sQueue := h.sQueue.setFrame i (uiSlot h.settings.addr data)
          events := { h.events with txDataAvailable := true } }, .success) := by
  obtain ⟨i, hi, hput, he⟩ :=
    putUSFrame_placed hroom hlen .uFrame (peerToAddressField h p) (uControl .ui)
  have hfree := Queue.getNext_some hi
  rw [Slot.fits_free, beq_iff_eq] at hfree
  refine ⟨i, hfree, ?_⟩
  unfold sendUiPacket sendUiPacketTo
  rw [if_neg (Int.not_lt.mpr hlen), hfound]
  dsimp only
  rw [hput]
  dsimp only
  rw [he, hw.abm_field hm]
  rfl

/-- The UI frame that is first in the queue is chosen as it is. -/
theorem getNextFrameToSend_ui (hm : h.settings.mode = .abm) {i : Fin 4} {address : Byte}
    {data : List Byte} (hslot : h.sQueue.frames i = uiSlot address data)
    (hfirst : firstService h p = some i) :
    ∃ k, getNextFrameToSend h p = (k, some (.sSlot i)) ∧
      Unaffected h (startFrame k (.sSlot i)) ∧
      (k.slot (.sSlot i)).bytes = uiFrame address data := by
  have hsu : getNextSUFrame h p = (h, some i) := by
    unfold getNextSUFrame
    unfold firstService at hfirst
    rw [hfirst]
    dsimp only
    rw [hslot]
    exact congrArg (·, some i) (if_neg (show ¬isSFrame (uControl .ui) = true by decide))
  have hpick : chooseFrame h p = (h, some (.sSlot i)) := by
    unfold chooseFrame pickFrame
    rw [hsu]
  have hpoll : getsPoll h p (h.slot (.sSlot i)).control = true := by
    unfold getsPoll Handle.slot
    rw [hm, if_neg Mode.noConfusion]
    dsimp only
    rw [hslot]
    exact show isUFrame (uControl .ui) = true by decide
  refine ⟨finishFrame h p (.sSlot i), ?_, ?_, ?_⟩
  · unfold getNextFrameToSend
    rw [hpick]
  · unfold finishFrame
    rw [if_pos hpoll]
    refine Unaffected.trans (Unaffected.setPeer h p
      (f := fun x => { x with lastSentFrameTs := h.millis }) ⟨rfl, rfl, rfl, rfl, rfl⟩) ?_
    exact .of_eq rfl rfl
  · unfold finishFrame
    rw [if_pos hpoll]
    simp [Handle.slot, Handle.setSlot, Handle.setPeer, Handle.emit, Queue.setFrame, hslot, uiSlot,
      uiFrame, Slot.bytes]

/-- At its end it makes room. -/
theorem onFrameSend_ui (hm : h.settings.mode = .abm) {i : Fin 4} {address : Byte}
    (hfound : addressFieldToPeer h address = some p)
    (haddr : (h.sQueue.frames i).address = address)
    (hcontrol : (h.sQueue.frames i).control = uControl .ui ||| pBit) :
    Unaffected h (onFrameSend h (.sSlot i)) ∧
      ((onFrameSend h (.sSlot i)).sQueue.frames i).type = .free := by
  have hnrm : h.settings.mode ≠ .nrm := by
    rw [hm]
    exact Mode.noConfusion
  have hsend : onFrameSend h (.sSlot i) =
      { h with
        sQueue := h.sQueue.freeByHeader i
        events := { h.events with txSending := false } } := by
    unfold onFrameSend Handle.slot
    dsimp only
    rw [haddr, hfound, hcontrol]
    dsimp only
    rw [if_neg (show ¬isIFrame (uControl .ui ||| pBit) = true by decide)]
    unfold releaseMarker
    rw [if_neg fun hp => hnrm hp.1]
    rfl
  rw [hsend]
  refine ⟨.of_eq rfl rfl, ?_⟩
  simp [Queue.freeByHeader, Queue.setFrame]

/-- A UI frame is delivered in every state of the connection. -/
theorem onFrameRead_ui (hm : h.settings.mode = .abm) {address : Byte} {data : List Byte}
    (hne : data ≠ []) (hfound : addressFieldToPeer h address = some p) :
    Unaffected h (onFrameRead h (uiFrame address data)) ∧
      (onFrameRead h (uiFrame address data)).log =
        h.log ++ [.frameIn (uiFrame address data), .readUi p (callbackAddress h p) data] := by
  have hnrm : h.settings.mode ≠ .nrm := by
    rw [hm]
    exact Mode.noConfusion
  have hread : ∀ k : Handle W N, onPeerFrame k p address (uControl .ui ||| pBit) data =
      k.emit (.readUi p (callbackAddress k p) data) := by
    intro k
    unfold onPeerFrame
    rw [if_pos (by decide)]
    unfold onUFrameRead
    have htype : uTypeOf (uControl .ui ||| pBit) = UType.ui.bits := by decide
    simp only [htype, ne_eq, not_true_eq_false, and_false, if_false, UType.bits, hne,
      not_false_eq_true, and_true, if_true]
    rfl
  have hfound' : addressFieldToPeer (h.emit (.frameIn (uiFrame address data))) address = some p :=
    hfound
  have haddr : ((noteReceived (h.emit (.frameIn (uiFrame address data))) p).peers p).addr =
      (h.peers p).addr := by
    unfold noteReceived
    rw [setPeer_self]
    rfl
  have he : onFrameRead h (uiFrame address data) =
      (noteReceived (h.emit (.frameIn (uiFrame address data))) p).emit
        (.readUi p (callbackAddress h p) data) := by
    unfold onFrameRead
    rw [show uiFrame address data = address :: (uControl .ui ||| pBit) :: data from rfl] at *
    dsimp only
    rw [hfound']
    dsimp only
    rw [hread]
    unfold captureMarker
    rw [if_neg fun hp => hnrm hp.1]
    exact congrArg (fun a => Handle.emit _ (Event.readUi p a data))
      (callbackAddress_congr rfl haddr)
  rw [he]
  refine ⟨?_, ?_⟩
  · refine Unaffected.trans (Unaffected.setPeer h p
      (f := fun x => { x with lastReceivedFrameTs := h.millis, kaConfirmed := true })
      ⟨rfl, rfl, rfl, rfl, rfl⟩) ?_
    exact .of_eq rfl rfl
  · exact List.append_assoc _ _ _

/-- A frame of another station is only noted. -/
theorem onFrameRead_stranger {address control : Byte} {data : List Byte}
    (hfound : addressFieldToPeer h address = none) :
    onFrameRead h (address :: control :: data) =
      h.emit (.frameIn (address :: control :: data)) := by
  have hfound' : addressFieldToPeer (h.emit (.frameIn (address :: control :: data))) address =
      none := hfound
  unfold onFrameRead
  dsimp only
  rw [hfound']

/-- A payload handed to one endpoint reaches the user of the other, and neither loses anything
of the numbered traffic over it: when it is queued, when the frame is chosen and sent, and when
it is read. -/
structure UiCarried (sender receiver : Handle W N) (data : List Byte) : Prop where
  accepted : (sendUiPacket sender data).2 = .success
  queued : Unaffected sender (sendUiPacket sender data).1
  placed : ∃ i, (sender.sQueue.frames i).type = .free ∧
    (sendUiPacket sender data).1.sQueue =
      sender.sQueue.setFrame i (uiSlot sender.settings.addr data)
  chosen : ∀ (k : Handle W N) p i, k.settings = sender.settings →
    k.sQueue.frames i = uiSlot sender.settings.addr data → firstService k p = some i →
      ∃ k', getNextFrameToSend k p = (k', some (.sSlot i)) ∧
        Unaffected k (startFrame k' (.sSlot i)) ∧
        (k'.slot (.sSlot i)).bytes = uiFrame sender.settings.addr data
  sent : ∀ (k : Handle W N) i, k.settings = sender.settings →
    (k.slot (.sSlot i)).bytes = uiFrame sender.settings.addr data →
      Unaffected k (onFrameSend k (.sSlot i)) ∧
        ((onFrameSend k (.sSlot i)).sQueue.frames i).type = .free
  read : Unaffected receiver (onFrameRead receiver (uiFrame sender.settings.addr data))
  delivered : (onFrameRead receiver (uiFrame sender.settings.addr data)).log =
    receiver.log ++ [.frameIn (uiFrame sender.settings.addr data),
      .readUi 0 (callbackAddress receiver 0) data]

/-- Between two ABM endpoints, in any states of the connection, with room in the service queue,
a payload is carried if and only if it has two bytes at most, the primary address leads to the
peer, and the endpoints have the same address. -/
theorem ui_carried_iff {sender receiver : Handle W N} (hs : Reachable AnyFrame sender)
    (hsm : sender.settings.mode = .abm) (hrm : receiver.settings.mode = .abm)
    (hroom : sender.sQueue.hasFreeSlots = true) {data : List Byte} (hne : 1 ≤ data.length) :
    UiCarried sender receiver data ↔
      data.length ≤ 2 ∧
        (sender.isPrimaryStation = true ∨ sender.settings.addr = 0x55) ∧
        receiver.settings.addr = sender.settings.addr := by
  have hsw := hs.reaches.addressed
  have hmtu := hs.service_mtu
  have hdata : data ≠ [] := by
    rintro rfl
    exact Nat.not_succ_le_zero 0 hne
  have htake := abm_found hrm hsw.station
  constructor
  · intro hc
    refine ⟨?_, ?_, ?_⟩
    · by_contra hlen
      have hlarge : (sendUiPacket sender data).2 = .dataTooLarge := by
        unfold sendUiPacket sendUiPacketTo
        rw [if_pos (by omega)]
      exact Status.noConfusion (hlarge.symm.trans hc.accepted)
    · by_contra haddr
      have hnone := abm_primary_found hsw hsm
      rw [if_neg haddr] at hnone
      have hrefused : (sendUiPacket sender data).2 ≠ .success := by
        unfold sendUiPacket sendUiPacketTo
        rw [hnone]
        split
        · exact Status.noConfusion
        · exact Status.noConfusion
      exact hrefused hc.accepted
    · by_contra haddr
      rw [if_neg fun he => haddr he.symm] at htake
      have hlog := hc.delivered
      unfold uiFrame at hlog
      rw [onFrameRead_stranger htake] at hlog
      exact absurd (congrArg List.length hlog) (by simp [Handle.emit])
  · rintro ⟨hlen, haddr, hsame⟩
    have hfound := abm_primary_found hsw hsm
    rw [if_pos haddr] at hfound
    rw [if_pos hsame.symm] at htake
    have hfits : (data.length : Int) ≤ sender.sQueue.mtu := by omega
    obtain ⟨i, hfree, he⟩ := sendUiPacket_placed hsw hsm hroom hfits hfound
    have hmode : ∀ k : Handle W N, k.settings = sender.settings → k.settings.mode = .abm :=
      fun k hk => (congrArg Settings.mode hk).trans hsm
    obtain ⟨hread, hlog⟩ := onFrameRead_ui hrm hdata htake
    refine
      { accepted := by rw [he]
        queued := ?_
        placed := ⟨i, hfree, by rw [he]⟩
        chosen := fun k p j hk hslot hfirst => getNextFrameToSend_ui (hmode k hk) hslot hfirst
        sent := ?_
        read := hread
        delivered := hlog }
    · rw [he]
      exact .of_eq rfl rfl
    · intro k j hk hbytes
      obtain ⟨ha, htail⟩ := List.cons.inj hbytes
      obtain ⟨hcontrol, -⟩ := List.cons.inj htail
      refine onFrameSend_ui (hmode k hk) (p := 0) ?_ ha hcontrol
      rw [abm_found (hmode k hk) hsw.station, if_pos (congrArg Settings.addr hk).symm]

/-- Two bytes are carried between two new endpoints. -/
theorem ui_carried_fresh : UiCarried (smallHandle 2 1 .abm) (smallHandle 2 1 .abm) [1, 2] := by
  have hr : Reachable AnyFrame (smallHandle 2 1 .abm) :=
    smallHandle_reachable _ .abm (by decide) (by decide)
  exact (ui_carried_iff hr rfl rfl (by decide) (by decide)).mpr
    ⟨by decide, .inl rfl, rfl⟩

/-- Three bytes are not, although the mtu is 32. -/
theorem ui_mtu_refused : ∃ h : Handle 2 1, Reachable AnyFrame h ∧ h.settings.mode = .abm ∧
    h.sQueue.hasFreeSlots = true ∧ fdGetMtu h = 32 ∧
    (sendUiPacket h [1, 2, 3]).2 = .dataTooLarge ∧ ¬UiCarried h h [1, 2, 3] := by
  have hr : Reachable AnyFrame (smallHandle 2 1 .abm) :=
    smallHandle_reachable _ .abm (by decide) (by decide)
  exact ⟨_, hr, rfl, by decide, by decide, by decide,
    fun hc => absurd hc.accepted (by decide)⟩

end TinyProto.Fd
