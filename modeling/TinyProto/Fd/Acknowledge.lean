import TinyProto.Fd.Cursors

/-!
# Acknowledgements outside of the window

A frame whose N(R) is not in `[confirm_ns, next_ns]` acknowledges nothing that was sent.
The confirmation loop notices that only when it has gone through all unconfirmed frames, so
such a frame is harmless only if there are none (`outside_iff`).
-/

set_option linter.unusedSectionVars false

namespace TinyProto.Fd

open Hdlc Runs SlotWindow

variable {W N : Nat} [NeZero W] [NeZero N] {h h' : Handle W N} {p : Fin N}

/-! ## What a frame does to the counters -/

/-- A REJ, if the frame is no U-frame. -/
def isRej (control : Byte) : Prop := isIFrame control = false ∧ sTypeOf control = SType.rej.bits

instance isRejDecidable (control : Byte) : Decidable (isRej control) :=
  inferInstanceAs (Decidable (_ ∧ _))

theorem deliver_control (h : Handle W N) (p : Fin N) (payload : List Byte) :
    (deliver h p payload).control p = h.control p := by
  unfold deliver putSFrame
  dsimp only
  split
  · simp only [putUSFrame_control]
    rfl
  · rfl

theorem onIFrameRead_control (h : Handle W N) (p : Fin N) (control : Byte) (payload : List Byte) :
    ∃ nr, (onIFrameRead h p control payload).control p =
      { h.control p with
        confirmNs := (h.control p).confirmed (nrOf control)
        nextNr := nr } := by
  have hread : ∃ nr, (checkReceivedFrame h p (nsOf control)).1.control p =
      { h.control p with nextNr := nr } := by
    unfold checkReceivedFrame
    split
    · refine ⟨(h.control p).nextNr + 1, ?_⟩
      rw [setPeer_control_keep, setControl_self]
      rfl
    · refine ⟨(h.control p).nextNr, ?_⟩
      split
      · unfold putSFrame
        rw [putUSFrame_control, setPeer_control_keep]
        rfl
      · rfl
  obtain ⟨nr, hnr⟩ := hread
  refine ⟨nr, ?_⟩
  have hconf : (confirmSentFrames (checkReceivedFrame h p (nsOf control)).1 p
      (nrOf control)).control p = { h.control p with
        confirmNs := (h.control p).confirmed (nrOf control)
        nextNr := nr } := by
    rw [confirmSentFrames_control, hnr]
    rfl
  unfold onIFrameRead
  dsimp only
  split
  · rw [deliver_control, hconf]
  · exact hconf

theorem onSFrameRead_rej {address control : Byte} (hr : sTypeOf control = SType.rej.bits) :
    (onSFrameRead h p address control).control p =
      { h.control p with
        confirmNs := (h.control p).confirmed (nrOf control)
        nextNs := ({ h.control p with
          confirmNs := (h.control p).confirmed (nrOf control) } : IQueueControl).rewound
            (nrOf control) } := by
  unfold onSFrameRead
  dsimp only
  rw [if_pos hr, resendAllUnconfirmedFrames_control, confirmSentFrames_control]

theorem onSFrameRead_other {address control : Byte} (hr : sTypeOf control ≠ SType.rej.bits) :
    (onSFrameRead h p address control).control p =
      { h.control p with confirmNs := (h.control p).confirmed (nrOf control) } := by
  have hconf := confirmSentFrames_control h p (nrOf control)
  unfold onSFrameRead
  dsimp only
  rw [if_neg hr]
  split
  · split
    · unfold putSFrame
      rw [putUSFrame_control, hconf]
    · exact hconf
  · split
    · exact hconf
    · refine Eq.trans ?_ hconf
      show ((confirmSentFrames h p (nrOf control)).setPeer p fun x =>
        { x with srejReqMask := x.srejReqMask ||| 1#8 <<< (nrOf control).toNat }).control p = _
      exact setPeer_control_keep _ p rfl

/-! ## Without unconfirmed frames -/

/-- The I-frame slots are the same, and no payload was reported as sent. -/
structure Idle (h h' : Handle W N) : Prop where
  iQueue : h'.iQueue = h.iQueue
  log : ∃ es, h'.log = h.log ++ es ∧ ∀ e ∈ es, ∀ q a x, e ≠ Event.sent q a x

theorem Idle.refl (h : Handle W N) : Idle h h := ⟨rfl, [], by simp, by simp⟩

theorem Idle.trans {h₁ h₂ h₃ : Handle W N} (h₁₂ : Idle h₁ h₂) (h₂₃ : Idle h₂ h₃) :
    Idle h₁ h₃ := by
  obtain ⟨es, hes, hsent⟩ := h₁₂.log
  obtain ⟨es', hes', hsent'⟩ := h₂₃.log
  refine ⟨h₂₃.iQueue.trans h₁₂.iQueue, es ++ es', by rw [hes', hes, List.append_assoc], ?_⟩
  intro e he
  rcases List.mem_append.mp he with he | he
  · exact hsent e he
  · exact hsent' e he

theorem Idle.of_eq (hi : h'.iQueue = h.iQueue) (hl : h'.log = h.log) : Idle h h' :=
  ⟨hi, [], by rw [hl, List.append_nil], by simp⟩

theorem Idle.emit (h : Handle W N) {e : Event N} (he : ∀ q a x, e ≠ .sent q a x) :
    Idle h (h.emit e) :=
  ⟨rfl, [e], rfl, by simpa using he⟩

theorem putUSFrame_idle (h : Handle W N) (type : QueueType) (address control : Byte)
    (payload : List Byte) : Idle h (putUSFrame h type address control payload) :=
  .of_eq (putUSFrame_iQueue ..) (putUSFrame_log ..)

theorem confirmSentFrames_idle (hc : (h.control p).confirmNs = (h.control p).lastNs) (nr : Seq) :
    Idle h (confirmSentFrames h p nr) := by
  have hloop : confirmLoop 8 h p nr = h := by
    unfold confirmLoop
    split
    · rfl
    · rw [if_pos]
      unfold IQueueControl.hasUnconfirmedFrames
      rw [hc]
      simp
  unfold confirmSentFrames
  rw [hloop]
  dsimp only
  split
  · exact .of_eq rfl rfl
  · exact .refl h

theorem resendAllUnconfirmedFrames_idle (h : Handle W N) (p : Fin N) (control : Byte) (nr : Seq) :
    Idle h (resendAllUnconfirmedFrames h p control nr) :=
  have hr := resendAllUnconfirmedFrames_resends h p control nr
  .of_eq hr.iQueue hr.log

theorem checkReceivedFrame_idle (h : Handle W N) (p : Fin N) (ns : Seq) :
    Idle h (checkReceivedFrame h p ns).1 ∧
      ((checkReceivedFrame h p ns).1.control p).confirmNs = (h.control p).confirmNs ∧
      ((checkReceivedFrame h p ns).1.control p).lastNs = (h.control p).lastNs := by
  unfold checkReceivedFrame
  split
  · refine ⟨.of_eq rfl rfl, ?_⟩
    dsimp only
    rw [setPeer_control_keep, setControl_self]
    · exact ⟨rfl, rfl⟩
    · rfl
  · split
    · have hfirst : Idle h (h.setPeer p fun x => { x with sentReject := true }) := .of_eq rfl rfl
      refine ⟨hfirst.trans (putUSFrame_idle _ _ _ _ _), ?_⟩
      unfold putSFrame
      rw [putUSFrame_control, setPeer_control_keep]
      · exact ⟨rfl, rfl⟩
      · rfl
    · exact ⟨.refl h, rfl, rfl⟩

theorem onIFrameRead_idle (hc : (h.control p).confirmNs = (h.control p).lastNs) (control : Byte)
    (payload : List Byte) : Idle h (onIFrameRead h p control payload) := by
  obtain ⟨hidle, hconfirm, hlast⟩ := checkReceivedFrame_idle h p (nsOf control)
  have hconf := hidle.trans (confirmSentFrames_idle (h := (checkReceivedFrame h p (nsOf control)).1)
    (by rw [hconfirm, hlast, hc]) (nrOf control))
  unfold onIFrameRead
  dsimp only
  split
  · refine hconf.trans ?_
    have hread := Idle.emit (confirmSentFrames (checkReceivedFrame h p (nsOf control)).1 p
      (nrOf control)) (e := .read p (callbackAddress (confirmSentFrames
        (checkReceivedFrame h p (nsOf control)).1 p (nrOf control)) p) payload)
      (fun _ _ _ h => by cases h)
    unfold deliver
    dsimp only
    split
    · exact hread.trans (putUSFrame_idle _ _ _ _ _)
    · exact hread
  · exact hconf

theorem onSFrameRead_idle (hc : (h.control p).confirmNs = (h.control p).lastNs)
    (address control : Byte) : Idle h (onSFrameRead h p address control) := by
  have hconf := confirmSentFrames_idle hc (nrOf control)
  unfold onSFrameRead
  dsimp only
  generalize confirmSentFrames h p (nrOf control) = k at hconf ⊢
  split
  · exact hconf.trans (resendAllUnconfirmedFrames_idle _ _ _ _)
  · split
    · split
      · exact hconf.trans (putUSFrame_idle _ _ _ _ _)
      · exact hconf
    · split
      · exact hconf
      · exact hconf.trans (.of_eq rfl rfl)

/-! ## Frames -/

/-- No I-frame was freed or reported as sent, and the counters are the same. -/
structure Untouched (p : Fin N) (h h' : Handle W N) : Prop where
  slots : ∀ i, (h.iQueue.frames i).type = .iFrame → (h'.iQueue.frames i).type = .iFrame
  sent : ∃ es, h'.log = h.log ++ es ∧ ∀ e ∈ es, ∀ q a x, e ≠ Event.sent q a x
  confirmNs : (h'.control p).confirmNs = (h.control p).confirmNs
  nextNs : (h'.control p).nextNs = (h.control p).nextNs
  lastNs : (h'.control p).lastNs = (h.control p).lastNs

/-- N(R) is not in the cyclic interval `[confirm_ns, next_ns]`. -/
def IQueueControl.Outside (c : IQueueControl) (nr : Seq) : Prop :=
  (c.nextNs - c.confirmNs).toNat < (nr - c.confirmNs).toNat

theorem IQueueControl.Outside.confirmed {c : IQueueControl} {nr : Seq} (ho : c.Outside nr)
    (hc : c.confirmed nr = c.confirmNs) : c.confirmNs = c.lastNs := by
  unfold IQueueControl.confirmed at hc
  split at hc
  · unfold IQueueControl.Outside at ho
    rw [hc, sub_self_toNat] at ho
    exact absurd ho (Nat.not_lt_zero _)
  · exact hc.symm

theorem confirmed_of_none {c : IQueueControl} (hc : c.confirmNs = c.lastNs) (nr : Seq) :
    c.confirmed nr = c.confirmNs := by
  unfold IQueueControl.confirmed IQueueControl.span
  rw [← hc, sub_self_toNat]
  split
  · next hle => exact sub_left_inj ((Nat.le_zero.mp hle).trans (sub_self_toNat _).symm)
  · rfl

theorem IQueueControl.Outside.rewound {c : IQueueControl} {nr : Seq} (ho : c.Outside nr) :
    c.rewound nr = c.confirmNs := if_neg (Nat.not_le.mpr ho)

theorem onFrameRead_linked {address control : Byte} {payload : List Byte}
    (hp : addressFieldToPeer h address = some p) (hs : (h.peers p).state = .connected)
    (hu : isUFrame control = false) :
    onFrameRead h (address :: control :: payload) =
      captureMarker
        (if isIFrame control then
          onIFrameRead (heardFrom h p (address :: control :: payload)) p control payload
        else onSFrameRead (heardFrom h p (address :: control :: payload)) p address control)
        control := by
  have hfound : addressFieldToPeer (h.emit (.frameIn (address :: control :: payload))) address =
      some p := hp
  have hstate : ((heardFrom h p (address :: control :: payload)).peers p).state = .connected := by
    unfold heardFrom noteReceived
    rw [setPeer_self]
    exact hs
  have hpeer : onPeerFrame (heardFrom h p (address :: control :: payload)) p address control
      payload = if isIFrame control then
          onIFrameRead (heardFrom h p (address :: control :: payload)) p control payload
        else onSFrameRead (heardFrom h p (address :: control :: payload)) p address control := by
    unfold onPeerFrame
    rw [hu, if_neg Bool.false_ne_true, if_neg fun hc => hc.1 hstate]
  unfold onFrameRead
  dsimp only
  rw [hfound]
  dsimp only
  rw [← hpeer]
  rfl

theorem heardFrom_control (h : Handle W N) (p : Fin N) (data : List Byte) :
    (heardFrom h p data).control p = h.control p := by
  unfold heardFrom noteReceived
  rw [setPeer_control_keep _ p rfl]
  rfl

theorem heardFrom_idle (h : Handle W N) (p : Fin N) (data : List Byte) :
    Idle h (heardFrom h p data) :=
  (Idle.emit h (e := .frameIn data) fun _ _ _ => nofun).trans (.of_eq rfl rfl)

theorem captureMarker_peers (h : Handle W N) (control : Byte) :
    (captureMarker h control).peers = h.peers ∧ (captureMarker h control).iQueue = h.iQueue ∧
      (captureMarker h control).log = h.log := by
  unfold captureMarker
  split <;> exact ⟨rfl, rfl, rfl⟩

/-- A frame with an N(R) outside of the window changes nothing if and only if there are no
unconfirmed frames, and for a REJ `next_ns` is not behind the empty window. -/
theorem outside_iff {address control : Byte} {payload : List Byte}
    (hp : addressFieldToPeer h address = some p) (hs : (h.peers p).state = .connected)
    (hu : isUFrame control = false) (ho : (h.control p).Outside (nrOf control)) :
    Untouched p h (onFrameRead h (address :: control :: payload)) ↔
      (h.control p).confirmNs = (h.control p).lastNs ∧
        (isRej control → (h.control p).nextNs = (h.control p).confirmNs) := by
  rw [onFrameRead_linked hp hs hu]
  have hk := heardFrom_control h p (address :: control :: payload)
  have hidle := heardFrom_idle h p (address :: control :: payload)
  generalize heardFrom h p (address :: control :: payload) = k at hk hidle
  have hcontrol : ∀ m : Handle W N, (captureMarker m control).control p = m.control p := by
    intro m
    unfold Handle.control
    rw [(captureMarker_peers m control).1]
  rw [← hk] at ho ⊢
  constructor
  · intro hu
    have hconfirm := hu.confirmNs
    have hnext := hu.nextNs
    rw [hcontrol, ← hk] at hconfirm hnext
    split at hconfirm
    · next hi =>
      obtain ⟨nr, hread⟩ := onIFrameRead_control k p control payload
      rw [hread] at hconfirm
      exact ⟨ho.confirmed hconfirm, fun hr => absurd hr.1 (by rw [hi]; exact Bool.noConfusion)⟩
    · next hi =>
      rw [if_neg hi] at hnext
      by_cases hr : sTypeOf control = SType.rej.bits
      · rw [onSFrameRead_rej hr] at hconfirm hnext
        have hnone := ho.confirmed hconfirm
        refine ⟨hnone, fun _ => ?_⟩
        rw [← hnext]
        dsimp only
        rw [confirmed_of_none hnone]
        exact ho.rewound
      · rw [onSFrameRead_other hr] at hconfirm
        exact ⟨ho.confirmed hconfirm, fun hrej => absurd hrej.2 hr⟩
  · rintro ⟨hnone, hrej⟩
    have hread : Idle k (if isIFrame control then onIFrameRead k p control payload
        else onSFrameRead k p address control) := by
      split
      · exact onIFrameRead_idle hnone control payload
      · exact onSFrameRead_idle hnone address control
    have hcounters : ∃ nr, (if isIFrame control then onIFrameRead k p control payload
        else onSFrameRead k p address control).control p = { k.control p with nextNr := nr } := by
      split
      · obtain ⟨nr, hread⟩ := onIFrameRead_control k p control payload
        exact ⟨nr, by rw [hread, confirmed_of_none hnone]⟩
      · next hi =>
        refine ⟨(k.control p).nextNr, ?_⟩
        by_cases hr : sTypeOf control = SType.rej.bits
        · rw [onSFrameRead_rej hr, confirmed_of_none hnone]
          have hnext := hrej ⟨eq_false_of_ne_true hi, hr⟩
          have hrew : (k.control p).rewound (nrOf control) = (k.control p).nextNs := by
            rw [ho.rewound, hnext]
          exact congrArg (fun n => { k.control p with nextNs := n }) hrew
        · rw [onSFrameRead_other hr, confirmed_of_none hnone]
    generalize (if isIFrame control then onIFrameRead k p control payload
      else onSFrameRead k p address control) = m at hread hcounters
    obtain ⟨nr, hm⟩ := hcounters
    obtain ⟨-, hqueue, hlog⟩ := captureMarker_peers m control
    have hall := (hidle.trans hread).trans (.of_eq hqueue hlog)
    refine ⟨fun i hi => by rw [hall.iQueue]; exact hi, hall.log, ?_, ?_, ?_⟩
    all_goals rw [hcontrol, hm, hk]

/-- An RR that acknowledges five frames, with one in the queue that was not sent. -/
theorem outside_iff_unsent :
    Untouched 0 (openAndSend.foldl call (smallHandle 2 1 .abm))
        (onFrameRead (openAndSend.foldl call (smallHandle 2 1 .abm)) [0x01, 0xA1]) ↔
      ((openAndSend.foldl call (smallHandle 2 1 .abm)).control 0).confirmNs =
          ((openAndSend.foldl call (smallHandle 2 1 .abm)).control 0).lastNs ∧
        (isRej 0xA1 → ((openAndSend.foldl call (smallHandle 2 1 .abm)).control 0).nextNs =
          ((openAndSend.foldl call (smallHandle 2 1 .abm)).control 0).confirmNs) :=
  outside_iff (by decide +kernel) (by decide +kernel) (by decide)
    (by unfold IQueueControl.Outside; decide +kernel)

/-- The RR frees the frame, and reports it as sent. -/
theorem acknowledged_unsent : ∃ h : Handle 2 1, Reachable AnyFrame h ∧
    (h.peers 0).state = .connected ∧ (h.control 0).Outside (nrOf 0xA1) ∧
      ¬Untouched 0 h (onFrameRead h [0x01, 0xA1]) := by
  refine ⟨openAndSend.foldl call (smallHandle 2 1 .abm),
    (smallHandle_reachable _ .abm (by decide) (by decide)).calls (callsOk_any _ _),
    by decide +kernel, by unfold IQueueControl.Outside; decide +kernel, fun hu => ?_⟩
  refine absurd hu.confirmNs ?_
  decide +kernel

end TinyProto.Fd
