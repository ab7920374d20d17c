import TinyProto.Fd.Steps

/-!
# Calls are runs of elementary steps

One lemma for each function of the model, from the handlers of the frame kinds up to the
calls of the application (`call_run`).

A guard may forbid some elementary steps.  The guards used here depend on the sequence
numbers of the peer only, and only for the steps that an incoming frame causes
(`frameAct`).  `FrameOk` is what such a guard asks of a frame.
-/

set_option linter.unusedSectionVars false

namespace TinyProto.Fd

open Hdlc Runs

variable {W N : Nat} [NeZero W] [NeZero N] {h h' : Handle W N} {p : Fin N}

/-! ## Guards -/

/-- The steps a guard may forbid.  It may not forbid to close an open connection. -/
def Act.Guarded (h : Handle W N) : Act N → Prop
  | .free _ | .confirm .. | .reject .. | .receive .. | .connect _ | .reset _ => True
  | .disconnect p | .hangUp p => ¬Linked h p
  | _ => False

/-- The guard allows the steps that are not for it to forbid. -/
def Fair (G : Handle W N → Act N → Prop) : Prop := ∀ h a, ¬a.Guarded h → G h a

variable {G : Handle W N → Act N → Prop}

theorem quiet_run (hG : Fair G) (hq : Quiet h h') : Run Step G h h' :=
  .single (hG h .quiet id) (.quiet hq)

theorem putS_run (hG : Fair G) {cr poll : Byte} (type : SType) (hcr : cr = 0 ∨ cr = crBit)
    (hpoll : poll = 0 ∨ poll = pBit) (hl : Linked h p ∨ h.settings.mode = .nrm) :
    Run Step G h (putSFrame h p cr type poll) :=
  .single (hG h (.put p) id) (.putS type hcr hpoll hl)

theorem putU_run (hG : Fair G) {cr : Byte} {u : UType} (hcr : cr = 0 ∨ cr = crBit)
    (hua : u = .ua → h.control p = IQueueControl.reset)
    (hsabm : u = .sabm ∨ u = .snrm → ¬Linked h p) :
    Run Step G h (putUFrame h p cr u) :=
  .single (hG h (.put p) id) (.putU hcr hua hsabm)

/-! ## U-frames -/

/-- A frame queued before a connection is closed can as well be queued after it. -/
theorem disconnect_put_comm (h : Handle W N) (p : Fin N) (type : QueueType) (a c : Byte)
    (payload : List Byte) :
    switchToDisconnectedState (putUSFrame h type a c payload) p =
      putUSFrame (switchToDisconnectedState h p) type a c payload := by
  have hs : (switchToDisconnectedState h p).sQueue = h.sQueue := by
    unfold switchToDisconnectedState
    split <;> rfl
  unfold putUSFrame putUSFrame?
  rw [hs]
  cases h.sQueue.allocate type payload with
  | none => rfl
  | some r =>
    simp only [Option.map_some, Option.getD_some]
    unfold switchToDisconnectedState
    by_cases hst : (h.peers p).state = .disconnected
    · simp only [hst, ne_eq, not_true_eq_false, if_false]
    · simp only [hst, ne_eq, not_false_eq_true, if_true]
      rfl

/-- The same for a connection that is opened. -/
theorem connect_put_comm (h : Handle W N) (p : Fin N) (type : QueueType) (a c : Byte)
    (payload : List Byte) :
    switchToConnectedState (putUSFrame h type a c payload) p =
      putUSFrame (switchToConnectedState h p) type a c payload := by
  have hs : (switchToConnectedState h p).sQueue = h.sQueue := by
    unfold switchToConnectedState
    split <;> rfl
  unfold putUSFrame putUSFrame?
  rw [hs]
  cases h.sQueue.allocate type payload with
  | none => rfl
  | some r =>
    simp only [Option.map_some, Option.getD_some]
    unfold switchToConnectedState
    by_cases hst : (h.peers p).state = .connected
    · simp only [hst, ne_eq, not_true_eq_false, if_false]
    · simp only [hst, ne_eq, not_false_eq_true, if_true]
      rfl

/-- A connection that is opened, after an open one was closed. -/
def reconnect (h : Handle W N) (p : Fin N) : Handle W N :=
  switchToConnectedState (if Linked h p then switchToDisconnectedState h p else h) p

/-- The UA can as well be queued once the connection is open. -/
theorem onConnectRequest_eq (h : Handle W N) (p : Fin N) :
    onConnectRequest h p = putUFrame (reconnect h p) p 0 .ua := by
  have haddr : peerToAddressField (reconnect h p) p = peerToAddressField h p := by
    have hd : peerToAddressField (if Linked h p then switchToDisconnectedState h p else h) p =
        peerToAddressField h p := by
      unfold peerToAddressField
      split
      · next hl =>
        rw [(switchToDisconnectedState_switches h hl.ne_disconnected).addr]
      · rfl
    unfold reconnect
    rw [← hd]
    generalize (if Linked h p then switchToDisconnectedState h p else h) = k
    by_cases hne : (k.peers p).state = .connected
    · unfold switchToConnectedState
      rw [if_neg (not_not.mpr hne)]
    · unfold peerToAddressField
      rw [(switchToConnectedState_switches k hne).addr]
  have hcond : ((putUFrame h p 0 .ua).peers p).state ≠ .disconnected ∧
      ((putUFrame h p 0 .ua).peers p).state ≠ .connecting ↔ Linked h p := by
    unfold putUFrame
    rw [putUSFrame_peers, ← not_or, ← not_linked_iff, not_not]
  unfold onConnectRequest
  simp only [hcond]
  unfold putUFrame
  rw [haddr]
  unfold reconnect
  split
  · rw [disconnect_put_comm, connect_put_comm]
  · rw [connect_put_comm]

/-- The state after a connection was closed. -/
theorem disconnected_state (h : Handle W N) (p : Fin N) :
    ((switchToDisconnectedState h p).peers p).state = .disconnected := by
  by_cases hs : (h.peers p).state = .disconnected
  · unfold switchToDisconnectedState
    rw [if_neg (not_not.mpr hs), hs]
  · rw [switchToDisconnectedState_peer h hs]

theorem not_linked_of_disconnected (hs : (h.peers p).state = .disconnected) : ¬Linked h p :=
  not_linked_iff.mpr (.inl hs)

/-- The opened connection starts with clear counters. -/
theorem reconnect_control (h : Handle W N) (p : Fin N) :
    (reconnect h p).control p = IQueueControl.reset ∧
      ¬Linked (if Linked h p then switchToDisconnectedState h p else h) p := by
  have hnot : ¬Linked (if Linked h p then switchToDisconnectedState h p else h) p := by
    split
    · exact not_linked_of_disconnected (disconnected_state h p)
    · next hl => exact hl
  exact ⟨(switchToConnectedState_switches _ (ne_connected hnot)).control, hnot⟩

theorem onConnectRequest_run (hG : Fair G) (hw : Addressed h) (hp : Live h p)
    (hconnect : ∀ h₁, h₁.sQueue = h.sQueue → G h₁ (.connect p)) :
    Run Step G h (onConnectRequest h p) := by
  obtain ⟨hreset, hne⟩ := reconnect_control h p
  rw [onConnectRequest_eq]
  refine Run.trans ?_ (putU_run hG (.inl rfl) (fun _ => hreset) ?_)
  · unfold reconnect
    by_cases hl : Linked h p
    · rw [if_pos hl] at hne ⊢
      have hstep : Step h (.disconnect p) (switchToDisconnectedState h p) :=
        .disconnect hp hl.ne_disconnected
      have hqueue := (switchToDisconnectedState_switches h hl.ne_disconnected).sQueue
      exact (Run.single (hG h (.disconnect p) fun hn => hn hl) hstep).trans
        (.single (hconnect _ hqueue) (.connect (hp.step hw hstep).1 hne))
    · rw [if_neg hl] at hne ⊢
      exact .single (hconnect h rfl) (.connect hp hne)
  · rintro (hu | hu) <;> cases hu

theorem disconnect_run (hp : Live h p) (hclose : G h (.disconnect p)) :
    Run Step G h (switchToDisconnectedState h p) := by
  by_cases hs : (h.peers p).state = .disconnected
  · have : switchToDisconnectedState h p = h := by
      unfold switchToDisconnectedState
      rw [if_neg (not_not.mpr hs)]
    rw [this]
    exact .refl
  · exact .single hclose (.disconnect hp hs)

theorem onDisconnectRequest_run (hG : Fair G) (hp : Live h p)
    (hs : (h.peers p).state ≠ .disconnected) (hclose : G h (.disconnect p)) :
    Run Step G h (switchToDisconnectedState (putUFrame h p 0 .ua) p) := by
  have haddr : peerToAddressField (switchToDisconnectedState h p) p = peerToAddressField h p := by
    unfold peerToAddressField
    rw [(switchToDisconnectedState_switches h hs).addr]
  unfold putUFrame
  rw [disconnect_put_comm, ← haddr]
  refine (disconnect_run hp hclose).trans (putU_run hG (.inl rfl) (fun _ => ?_) ?_)
  · exact (switchToDisconnectedState_switches h hs).control
  · rintro (hu | hu) <;> cases hu

theorem onReset_run (hG : Fair G) (hp : Live h p) (hreset : G h (.reset p)) :
    Run Step G h (onReset h p) := by
  refine (Run.single hreset (.reset hp)).trans (putU_run hG (.inl rfl) (fun _ => ?_) ?_)
  · unfold Handle.control
    rw [setPeer_self]
    rfl
  · rintro (hu | hu) <;> cases hu

theorem onFrameReject_run (hG : Fair G) (hp : Live h p) (hclose : G h (.disconnect p)) :
    Run Step G h (onFrameReject h p) := by
  have hd : (if (h.peers p).state ≠ .disconnected then switchToDisconnectedState h p else h) =
      switchToDisconnectedState h p := by
    split
    · rfl
    · next hs =>
      unfold switchToDisconnectedState
      rw [if_neg hs]
  have hnot := not_linked_of_disconnected (disconnected_state h p)
  unfold onFrameReject
  rw [hd]
  refine (disconnect_run hp hclose).trans ?_
  refine (putU_run hG (.inr rfl) (fun hu => ?_) fun _ => hnot).trans
    (.single (hG _ (.request p) id) (.request ?_))
  · unfold connectType at hu
    split at hu <;> cases hu
  · unfold Linked putUFrame
    rw [putUSFrame_peers]
    exact hnot

theorem onAcknowledge_run (hG : Fair G) (hp : Live h p) (hconnect : G h (.connect p)) :
    Run Step G h (onAcknowledge h p) := by
  unfold onAcknowledge
  split
  · next hs => exact .single hconnect (.connect hp (not_linked_iff.mpr (.inr hs)))
  · split
    · next hs => exact disconnect_run hp (hG h (.disconnect p) fun hn => hn (.inr hs))
    · exact .refl

/-- The step a frame causes that a guard may forbid, besides opening a connection. -/
def frameAct (h : Handle W N) (p : Fin N) (control : Byte) : Option (Act N) :=
  if isUFrame control then
    if uTypeOf control = UType.rset.bits then some (.reset p) else none
  else if isIFrame control then
    some (if nsOf control = (h.control p).nextNr then .receive p (nrOf control)
      else .confirm p (nrOf control))
  else if sTypeOf control = SType.rej.bits then some (.reject p (nrOf control))
  else some (.confirm p (nrOf control))

/-- The frames that close a connection. -/
def Closing (control : Byte) : Prop :=
  isUFrame control = true ∧ (uTypeOf control = UType.disc.bits ∨
    uTypeOf control = UType.frmr.bits ∨ uTypeOf control = UType.dm.bits)

/-- The guard lets the peer's frame with this control field through. -/
structure Allows (G : Handle W N → Act N → Prop) (h : Handle W N) (p : Fin N) (control : Byte) :
    Prop where
  frame : ∀ h₁ a, h₁.control p = h.control p → frameAct h p control = some a → G h₁ a
  connect : ∀ h₁ : Handle W N, h₁.sQueue = h.sQueue → G h₁ (.connect p)
  close : ∀ h₁ : Handle W N, (h₁.peers p).state = (h.peers p).state →
    (h.peers p).state ≠ .disconnected → Closing control → G h₁ (.disconnect p)

theorem onUFrameRead_run (hG : Fair G) (hw : Addressed h) (hp : Live h p) {address control : Byte}
    {payload : List Byte} (hu : isUFrame control) (ha : Allows G h p control) :
    Run Step G h (onUFrameRead h p address control payload) := by
  have hdm : Run Step G h (putUFrame h p 0 .dm) := by
    refine putU_run hG (.inl rfl) ?_ ?_
    · intro hu
      cases hu
    · rintro (hu | hu) <;> cases hu
  unfold onUFrameRead
  dsimp only
  split
  · split
    · exact hdm
    · exact .refl
  · next hign =>
    have hclose : Closing control → (h.peers p).state ≠ .disconnected ∧ G h (.disconnect p) := by
      intro hc
      have hs : (h.peers p).state ≠ .disconnected := by
        intro hs
        refine hign ⟨hs, ?_⟩
        rcases hc.2 with ht | ht | ht
        all_goals
          rw [ht]
          decide
      exact ⟨hs, ha.close h rfl hs hc⟩
    split
    · exact onConnectRequest_run hG hw hp ha.connect
    · next hconn =>
      split
      · next hdisc =>
        obtain ⟨hs, hg⟩ := hclose ⟨hu, .inl hdisc⟩
        exact onDisconnectRequest_run hG hp hs hg
      · split
        · next hrset =>
          refine onReset_run hG hp (ha.frame h _ rfl ?_)
          unfold frameAct
          rw [if_pos hu, if_pos hrset]
        · split
          · next hfrmr => exact onFrameReject_run hG hp (hclose ⟨hu, .inr (.inl hfrmr)⟩).2
          · split
            · exact onAcknowledge_run hG hp (ha.connect h rfl)
            · split
              · next hdm => exact disconnect_run hp (hclose ⟨hu, .inr (.inr hdm)⟩).2
              · split
                · exact quiet_run hG (.emit h trivial)
                · exact .refl

/-! ## I- and S-frames -/

theorem isUFrame_of_isIFrame {control : Byte} (hi : isIFrame control = true) :
    isUFrame control = false := by
  revert control
  decide +kernel

theorem poll_cases (control : Byte) : control &&& pBit = 0 ∨ control &&& pBit = pBit := by
  revert control
  decide +kernel

theorem linked_of_confirms {h₁ h₂ : Handle W N} (hc : Confirms p h₁ h₂) (hl : Linked h₁ p) :
    Linked h₂ p := by
  unfold Linked
  rw [(hc.addr p).2]
  exact hl

theorem linked_setPeer {f : Peer → Peer} (hf : (f (h.peers p)).state = (h.peers p).state)
    (hl : Linked h p) : Linked (h.setPeer p f) p := by
  unfold Linked
  rw [setPeer_self, hf]
  exact hl

theorem linked_setControl {f : IQueueControl → IQueueControl} (hl : Linked h p) :
    Linked (h.setControl p f) p := linked_setPeer rfl hl

theorem live_of_quiet (hq : Quiet h h') (hw : Addressed h) (hp : Live h p) : Live h' p :=
  (hp.step hw (.quiet hq)).1

theorem onIFrameRead_run (hG : Fair G) (hw : Addressed h) (hp : Live h p) (hl : Linked h p)
    {control : Byte} {payload : List Byte} (hi : isIFrame control) (ha : Allows G h p control) :
    Run Step G h (onIFrameRead h p control payload) := by
  have hnu := isUFrame_of_isIFrame hi
  unfold onIFrameRead checkReceivedFrame
  by_cases hns : nsOf control = (h.control p).nextNr
  · -- The flag of the REJ is cleared first, the rest is one step.
    have hact : frameAct h p control = some (.receive p (nrOf control)) := by
      unfold frameAct
      rw [hnu, if_neg Bool.false_ne_true, if_pos hi, if_pos hns]
    have hquiet : Quiet h (h.setPeer p fun x => { x with sentReject := false }) :=
      .setPeer h p ⟨rfl, rfl, rfl, id⟩
    have hcomm : (h.setControl p fun c => { c with nextNr := c.nextNr + 1 }).setPeer p
          (fun x => { x with sentReject := false }) =
        (h.setPeer p fun x => { x with sentReject := false }).setControl p
          fun c => { c with nextNr := c.nextNr + 1 } := by
      unfold Handle.setControl
      rw [setPeer_setPeer, setPeer_setPeer]
      rfl
    simp only [if_pos hns, if_true]
    rw [hcomm]
    refine (quiet_run hG hquiet).trans ?_
    have hp' := live_of_quiet hquiet hw hp
    have hl' : Linked (h.setPeer p fun x => { x with sentReject := false }) p :=
      linked_setPeer rfl hl
    have hstep : Step (h.setPeer p fun x => { x with sentReject := false })
        (.receive p (nrOf control)) (receiveFrame _ p (nrOf control) payload) := .receive hp' hl'
    refine Run.trans (.single (ha.frame _ _ (hquiet.control p) hact) hstep) ?_
    unfold deliver receiveFrame
    dsimp only
    split
    · refine putS_run hG .rr (.inl rfl) (.inl rfl) (.inl ?_)
      show Linked (confirmSentFrames _ p _) p
      exact linked_of_confirms (confirmSentFrames_confirms _ p _) (linked_setControl hl')
    · exact .refl
  · have hact : frameAct h p control = some (.confirm p (nrOf control)) := by
      unfold frameAct
      rw [hnu, if_neg Bool.false_ne_true, if_pos hi, if_neg hns]
    simp only [if_neg hns]
    split
    · have hquiet : Quiet h (h.setPeer p fun x => { x with sentReject := true }) :=
        .setPeer h p ⟨rfl, rfl, rfl, id⟩
      have hput : Step (h.setPeer p fun x => { x with sentReject := true }) (.put p)
          (putSFrame (h.setPeer p fun x => { x with sentReject := true }) p crBit .rej 0) :=
        .putS .rej (.inr rfl) (.inl rfl) (.inl (linked_setPeer rfl hl))
      refine (quiet_run hG hquiet).trans ((Run.single (hG _ _ id) hput).trans ?_)
      refine .single (ha.frame _ _ ?_ hact) (.confirm ?_ ?_)
      · unfold putSFrame
        rw [putUSFrame_control]
        exact hquiet.control p
      · exact ((live_of_quiet hquiet hw hp).step (hw.step (.quiet hquiet)) hput).1
      · unfold Linked putSFrame
        rw [putUSFrame_peers]
        exact linked_setPeer rfl hl
    · exact .single (ha.frame h _ rfl hact) (.confirm hp hl)

theorem onSFrameRead_run (hG : Fair G) (hp : Live h p) (hl : Linked h p) {address control : Byte}
    (hnu : isUFrame control = false) (hni : isIFrame control = false) (ha : Allows G h p control) :
    Run Step G h (onSFrameRead h p address control) := by
  have hconfirm : sTypeOf control ≠ SType.rej.bits →
      Run Step G h (confirmSentFrames h p (nrOf control)) := by
    intro hrej
    refine .single (ha.frame h _ rfl ?_) (.confirm hp hl)
    unfold frameAct
    rw [hnu, if_neg Bool.false_ne_true, hni, if_neg Bool.false_ne_true, if_neg hrej]
  unfold onSFrameRead
  dsimp only
  split
  · next hrej =>
    refine .single (ha.frame h _ rfl ?_) (.reject hp hl)
    unfold frameAct
    rw [hnu, if_neg Bool.false_ne_true, hni, if_neg Bool.false_ne_true, if_pos hrej]
  · next hrej =>
    split
    · refine (hconfirm hrej).trans ?_
      split
      · refine putS_run hG .rr (.inl rfl) ?_ (.inl ?_)
        · exact poll_cases control
        · exact linked_of_confirms (confirmSentFrames_confirms h p _) hl
      · exact .refl
    · split
      · exact hconfirm hrej
      · refine (hconfirm hrej).trans ((quiet_run hG (.setPeer _ p ?_)).trans
          (quiet_run hG (.setEvents _ _)))
        exact ⟨rfl, rfl, rfl, id⟩

/-! ## Frames -/

theorem onPeerFrame_run (hG : Fair G) (hw : Addressed h) (hp : Live h p) {address control : Byte}
    {payload : List Byte} (ha : Allows G h p control) :
    Run Step G h (onPeerFrame h p address control payload) := by
  unfold onPeerFrame
  split
  · next hu => exact onUFrameRead_run hG hw hp hu ha
  · next hu =>
    split
    · refine putU_run hG (.inl rfl) ?_ ?_
      · intro hu
        cases hu
      · rintro (hu | hu) <;> cases hu
    · next hst =>
      have hl : Linked h p := by
        rw [not_and_or, not_not, not_not] at hst
        exact hst
      have hu' := eq_false_of_ne_true hu
      split
      · next hi => exact onIFrameRead_run hG hw hp hl hi ha
      · next hi => exact onSFrameRead_run hG hp hl hu' (eq_false_of_ne_true hi) ha

theorem captureMarker_quiet (h : Handle W N) (control : Byte) :
    Quiet h (captureMarker h control) := by
  unfold captureMarker
  split
  · exact .setEvents h _
  · exact .refl h

/-- The guard lets a frame through. -/
def FrameOk (G : Handle W N → Act N → Prop) (h : Handle W N) (data : List Byte) : Prop :=
  ∀ address control payload p, data = address :: control :: payload →
    addressFieldToPeer h address = some p → Allows G h p control

theorem onFrameRead_run (hG : Fair G) (hw : Addressed h) {data : List Byte}
    (hok : FrameOk G h data) : Run Step G h (onFrameRead h data) := by
  unfold onFrameRead
  split
  · next address control payload =>
    dsimp only
    have hqk : Quiet h (h.emit (.frameIn (address :: control :: payload))) := .emit h trivial
    refine (quiet_run hG hqk).trans ?_
    have hfound : addressFieldToPeer (h.emit (.frameIn (address :: control :: payload))) address =
        addressFieldToPeer h address := rfl
    rw [hfound]
    cases hp : addressFieldToPeer h address with
    | none => exact .refl
    | some p =>
      generalize h.emit (.frameIn (address :: control :: payload)) = k at hqk
      have hqn : Quiet k (noteReceived k p) := .setPeer k p ⟨rfl, rfl, rfl, id⟩
      refine (quiet_run hG hqn).trans ((onPeerFrame_run hG ?_ ?_ ?_).trans
        (quiet_run hG (captureMarker_quiet _ _)))
      · exact (hw.step (.quiet hqk)).step (.quiet hqn)
      · exact live_of_quiet hqn (hw.step (.quiet hqk)) (live_of_quiet hqk hw (hw.live_of_found hp))
      · have ha := hok address control payload p rfl hp
        have hc : (noteReceived k p).control p = h.control p :=
          (hqn.control p).trans (hqk.control p)
        have hst : ((noteReceived k p).peers p).state = (h.peers p).state :=
          (hqn.peer p).state.trans (hqk.peer p).state
        refine ⟨fun h₁ a h₁c hact => ha.frame h₁ a (h₁c.trans hc) ?_,
          fun h₁ h₁s => ha.connect h₁ (h₁s.trans (hqn.sQueue.trans hqk.sQueue)),
          fun h₁ h₁s hne => ha.close h₁ (h₁s.trans hst) (by rw [← hst]; exact hne)⟩
        unfold frameAct at hact ⊢
        rw [← hc]
        exact hact
  · exact .refl

/-! ## Timeouts -/

theorem run_addressed (hr : Run Step G h h') (hw : Addressed h) : Addressed h' :=
  hr.preserves (fun _ _ _ hP _ hs => hP.step hs) hw

theorem run_settings (hr : Run Step G h h') : h'.settings = h.settings :=
  hr.preserves (P := fun k => k.settings = h.settings) (fun _ _ _ hP _ hs => hs.stations.1.trans hP)
    rfl

theorem connectedCheckIdleTimeout_run (hG : Fair G) (hw : Addressed h) (hp : Live h p)
    (hl : Linked h p) : Run Step G h (connectedCheckIdleTimeout h p) := by
  have hclose : G h (.disconnect p) := hG h (.disconnect p) fun hn => hn hl
  unfold connectedCheckIdleTimeout
  dsimp only
  split
  · next hc =>
    split
    · have hq : Quiet h (h.setPeer p fun x => { x with retries := x.retries - 1 }) :=
        .setPeer h p ⟨rfl, rfl, rfl, id⟩
      have hcontrol := hq.control p
      refine (quiet_run hG hq).trans (.single (hG _ (.resend p) id) ?_)
      rw [← hcontrol]
      refine .resend (live_of_quiet hq hw hp) (linked_setPeer rfl hl) ?_
      rw [hcontrol]
      exact hc.2.1
    · exact disconnect_run hp hclose
  · split
    · split
      · exact disconnect_run hp hclose
      · exact .refl
    · split
      · refine (quiet_run hG (.setPeer h p ⟨rfl, rfl, rfl, id⟩)).trans
          ((putS_run hG .rr (.inl rfl) (.inr rfl) (.inl (linked_setPeer rfl hl))).trans
            (quiet_run hG (.setPeer _ p ⟨rfl, rfl, rfl, id⟩)))
      · exact .refl

theorem disconnectedCheckIdleTimeout_run (hG : Fair G) (hl : ¬Linked h p) :
    Run Step G h (disconnectedCheckIdleTimeout h p) := by
  unfold disconnectedCheckIdleTimeout
  split
  · dsimp only
    have hput : Run Step G h (putUFrame h p crBit (connectType h)) := by
      refine putU_run hG (.inr rfl) (fun hu => ?_) fun _ => hl
      unfold connectType at hu
      split at hu <;> cases hu
    have hnot : ¬Linked (putUFrame h p crBit (connectType h)) p := by
      unfold Linked putUFrame
      rw [putUSFrame_peers]
      exact hl
    generalize putUFrame h p crBit (connectType h) = k at hput hnot
    have htwo : (k.setPeer p fun x =>
          { x with state := .connecting, lastReceivedFrameTs := k.millis }) =
        (k.setPeer p fun x => { x with state := .connecting }).setPeer p
          fun x => { x with lastReceivedFrameTs := k.millis } := by
      rw [setPeer_setPeer]
      rfl
    rw [htwo]
    exact hput.trans ((Run.single (hG _ (.request p) id) (.request hnot)).trans
      (quiet_run hG (.setPeer _ p ⟨rfl, rfl, rfl, id⟩)))
  · exact .refl

theorem checkIdleTimeout_run (hG : Fair G) (hw : Addressed h) (hp : Live h p) :
    Run Step G h (checkIdleTimeout h p) := by
  unfold checkIdleTimeout
  split
  · next hl => exact connectedCheckIdleTimeout_run hG hw hp hl
  · next hl => exact disconnectedCheckIdleTimeout_run hG hl

/-! ## The end of a frame -/

theorem switchToNextPeer_run (hG : Fair G) (hm : h.settings.mode = .nrm ∧ h.isPrimaryStation) :
    Run Step G h (switchToNextPeer h) := by
  unfold switchToNextPeer
  dsimp only
  cases hf : ((List.finRange N).map fun k => h.nextPeer + 1 + k).find?
      fun p => (h.peers p).addr ≠ invalidAddr with
  | none => exact .refl
  | some p =>
    have hp := List.find?_some hf
    rw [decide_eq_true_eq] at hp
    exact .single (hG h (.turn p) id) (.turn hm hp)

theorem releaseMarker_run (hG : Fair G) (control : Byte) :
    Run Step G h (releaseMarker h control) := by
  unfold releaseMarker
  split
  · next hm =>
    refine Run.trans ?_ (quiet_run hG (.setEvents _ _))
    split
    · next hprim => exact switchToNextPeer_run hG ⟨hm.1, hprim⟩
    · exact .refl
  · exact .refl

theorem onFrameSend_run (hG : Fair G) (hfree : ∀ h₁ i, G h₁ (.free i)) (r : SlotRef W) :
    Run Step G h (onFrameSend h r) := by
  unfold onFrameSend
  dsimp only
  split
  · exact .refl
  · refine Run.trans ?_ ((releaseMarker_run hG _).trans (quiet_run hG (.setEvents _ _)))
    split
    · exact .refl
    · cases r with
      | iSlot i => exact .refl
      | sSlot i => exact .single (hfree h i) .free

theorem runTx_run (hG : Fair G) (hfree : ∀ h₁ i, G h₁ (.free i)) (len : Nat) :
    Run Step G h (runTx h len).1 := by
  have hfold : ∀ (done : List (SlotRef W × Nat)) (k : Handle W N),
      Run Step G k (done.foldl (fun h r => onFrameSend h r.1) k) := by
    intro done
    induction done with
    | nil => exact fun k => .refl
    | cons r done ih => exact fun k => (onFrameSend_run hG hfree r.1).trans (ih _)
  unfold runTx
  dsimp only
  refine Run.trans (quiet_run hG ?_) (hfold _ _)
  exact ⟨rfl, rfl, rfl, rfl, ⟨[], (List.append_nil _).symm, by simp⟩, fun _ => .refl _⟩

/-! ## The next frame -/

theorem setPeer_control_keep (h : Handle W N) (p : Fin N) {f : Peer → Peer}
    (hf : (f (h.peers p)).iQueueControl = (h.peers p).iQueueControl) :
    (h.setPeer p f).control p = h.control p := by
  unfold Handle.control
  rw [setPeer_self, hf]

/-- What is noted about the chosen frame is quiet, up to P/F and the log. -/
theorem finishFrame_quiet (h : Handle W N) (p : Fin N) (r : SlotRef W) :
    Quiet (markChosen h p r (getsPoll h p (h.slot r).control)) (finishFrame h p r) := by
  unfold markChosen finishFrame
  dsimp only
  generalize (if getsPoll h p (h.slot r).control = true
    then h.setSlot r fun s => { s with control := s.control ||| pBit } else h) = k
  have hslot : ∀ m : BitVec 32,
      ((({ k with lastMarkerTs := m } : Handle W N).setPeer p
        fun x => { x with lastSentFrameTs := k.millis }).slot r) = k.slot r := by
    intro m
    cases r <;> rfl
  refine ⟨rfl, rfl, rfl, rfl, ⟨[], ?_, by simp⟩, ?_⟩
  · rw [List.append_nil]
    show k.log ++ [_] = k.log ++ [_]
    rw [hslot]
  · exact (Quiet.setPeer k p (f := fun x => { x with lastSentFrameTs := k.millis })
      ⟨rfl, rfl, rfl, id⟩).peer

theorem getNextSUFrame_run (hG : Fair G) (hw : Addressed h) (hp : Live h p) {k : Handle W N}
    {i : Fin 4} (hk : getNextSUFrame h p = (k, some i)) :
    Run Step G h (finishFrame k p (.sSlot i)) := by
  unfold getNextSUFrame at hk
  split at hk
  · cases hk
  · next j hj =>
    obtain ⟨rfl, hij⟩ := Prod.mk.inj hk
    cases hij
    have hq : Quiet h (if isSFrame (h.sQueue.frames i).control = true
        then h.setPeer p fun x => { x with sentNr := nrOf (h.sQueue.frames i).control } else h) := by
      split
      · exact .setPeer h p ⟨rfl, rfl, rfl, id⟩
      · exact .refl h
    refine (quiet_run hG hq).trans (Run.trans ?_ (quiet_run hG (finishFrame_quiet _ p _)))
    refine .single (hG _ (.chooseService p i) id) (.chooseService _ (live_of_quiet hq hw hp) ?_)
    rw [hq.sQueue, hq.addressField]
    exact hj

theorem getNextSUFrame_none {k : Handle W N} (hk : getNextSUFrame h p = (k, none)) :
    k = h ∧ h.sQueue.getNext [.sFrame, .uFrame] (peerToAddressField h p) 0 = none := by
  unfold getNextSUFrame at hk
  split at hk
  · next hn => exact ⟨(Prod.mk.inj hk).1.symm, hn⟩
  · cases hk

theorem getNextIFrame_none (hG : Fair G) {k : Handle W N} (hk : getNextIFrame h p = (k, none)) :
    Run Step G h k := by
  unfold getNextIFrame at hk
  dsimp only at hk
  split at hk
  · rw [← (Prod.mk.inj hk).1]
    exact .refl
  · split at hk
    · split at hk
      · cases hk
      · rw [← (Prod.mk.inj hk).1]
        exact quiet_run hG (.setPeer h p ⟨rfl, rfl, rfl, id⟩)
    · split at hk
      · cases hk
      · rw [← (Prod.mk.inj hk).1]
        exact .refl

theorem markChosen_setPeer (h : Handle W N) (p : Fin N) (r : SlotRef W) (poll : Bool)
    (f : Peer → Peer) : markChosen (h.setPeer p f) p r poll = (markChosen h p r poll).setPeer p f := by
  unfold markChosen
  cases poll <;> cases r <;> rfl

/-- The chosen I-frame, with the quiet part of the choice behind the step. -/
theorem chosen_run (hG : Fair G) {k : Handle W N} {i : Fin W} (f : Peer → Peer)
    (hf : ∀ x : Peer, x.Quiet (f x)) (hstep : ∀ poll, Step h (.chooseIFrame p)
      (markChosen k p (.iSlot i) poll)) :
    Run Step G h (finishFrame (k.setPeer p f) p (.iSlot i)) := by
  have hfinish := finishFrame_quiet (k.setPeer p f) p (.iSlot i)
  rw [markChosen_setPeer] at hfinish
  generalize getsPoll (k.setPeer p f) p ((k.setPeer p f).slot (.iSlot i)).control = poll at hfinish
  exact (Run.single (hG h (.chooseIFrame p) id) (hstep poll)).trans
    ((quiet_run hG (.setPeer _ p (hf _))).trans (quiet_run hG hfinish))

theorem getNextIFrame_run (hG : Fair G) (hw : Addressed h) (hp : Live h p)
    (hs : h.sQueue.getNext [.sFrame, .uFrame] (peerToAddressField h p) 0 = none) {k : Handle W N}
    {i : Fin W} (hk : getNextIFrame h p = (k, some i)) :
    Run Step G h (finishFrame k p (.iSlot i)) := by
  unfold getNextIFrame at hk
  dsimp only at hk
  split at hk
  · cases hk
  · next hst =>
    have hl : Linked h p := by
      by_contra hl
      exact hst (not_linked_iff.mp hl)
    split at hk
    · next ns hns =>
      split at hk
      · next j hj =>
        obtain ⟨rfl, hij⟩ := Prod.mk.inj hk
        cases hij
        have hq : Quiet h (h.setPeer p fun x =>
            { x with srejReqMask := x.srejReqMask &&& ~~~(1#8 <<< ns.val) }) :=
          .setPeer h p ⟨rfl, rfl, rfl, id⟩
        refine (quiet_run hG hq).trans (chosen_run hG _ (fun x => ⟨rfl, rfl, rfl, id⟩) fun poll => ?_)
        rw [← hq.addressField] at hs hj
        exact .chooseRequested poll (live_of_quiet hq hw hp) (linked_setPeer rfl hl) hs hj
      · cases hk
    · split at hk
      · next j hj =>
        obtain ⟨rfl, hij⟩ := Prod.mk.inj hk
        cases hij
        have hcomm : (refreshIFrame h p i).setControl p (fun c => { c with nextNs := c.nextNs + 1 }) =
            ((refreshSlot h p i).setControl p fun c => { c with nextNs := c.nextNs + 1 }).setPeer p
              fun x => { x with sentNr := (h.control p).nextNr, lastSentITs := h.millis } := by
          unfold refreshIFrame Handle.setControl
          rw [setPeer_setPeer, setPeer_setPeer]
          rfl
        rw [hcomm]
        exact chosen_run hG _ (fun x => ⟨rfl, rfl, rfl, id⟩) fun poll => .chooseNext poll hp hl hs hj
      · cases hk

theorem putIdleFrame_run (hG : Fair G) (hm : h.settings.mode = .nrm) :
    Run Step G h (putIdleFrame h p) := by
  unfold putIdleFrame
  split
  · next hc =>
    refine .single (hG h (.put p) id) (.putU (.inr rfl) (fun hu => ?_) fun _ => ?_)
    · cases hu
    · exact not_linked_iff.mpr hc.2
  · exact putS_run hG .rr (.inl rfl) (.inl rfl) (.inr hm)

/-- The frame comes from the service queue, or from the other one if there is none. -/
theorem pickFrame_cases (h : Handle W N) (p : Fin N) :
    (∃ k i, pickFrame h p = (k, some (.sSlot i)) ∧ getNextSUFrame h p = (k, some i)) ∨
      h.sQueue.getNext [.sFrame, .uFrame] (peerToAddressField h p) 0 = none ∧
        ((∃ k i, pickFrame h p = (k, some (.iSlot i)) ∧ getNextIFrame h p = (k, some i)) ∨
          ∃ k, pickFrame h p = (k, none) ∧ getNextIFrame h p = (k, none)) := by
  unfold pickFrame
  cases hsu : getNextSUFrame h p with
  | mk k found =>
    cases found with
    | some i => exact .inl ⟨k, i, rfl, rfl⟩
    | none =>
      obtain ⟨rfl, hnone⟩ := getNextSUFrame_none hsu
      refine .inr ⟨hnone, ?_⟩
      dsimp only
      cases hi : getNextIFrame k p with
      | mk k' found =>
        cases found with
        | some i => exact .inl ⟨k', i, rfl, rfl⟩
        | none => exact .inr ⟨k', rfl, rfl⟩

theorem run_live (hr : Run Step G h h') (hw : Addressed h) (hp : Live h p) : Live h' p :=
  (hr.preserves (P := fun k => Addressed k ∧ Live k p)
    (fun _ _ _ hP _ hs => ⟨hP.1.step hs, (hP.2.step hP.1 hs).1⟩) ⟨hw, hp⟩).2

theorem getNextFrameToSend_run (hG : Fair G) (hw : Addressed h) (hp : Live h p) :
    Run Step G h (getNextFrameToSend h p).1 := by
  unfold getNextFrameToSend chooseFrame
  rcases pickFrame_cases h p with ⟨k, i, hk, hsu⟩ | ⟨hs, ⟨k, i, hk, hi⟩ | ⟨k, hk, hi⟩⟩
  · rw [hk]
    exact getNextSUFrame_run hG hw hp hsu
  · rw [hk]
    exact getNextIFrame_run hG hw hp hs hi
  · have hrk := getNextIFrame_none hG hi
    rw [hk]
    dsimp only
    -- With nothing in the queues, NRM sends a frame only to pass the marker.
    by_cases hm : k.settings.mode = .nrm
    · rw [if_pos hm]
      have hput := putIdleFrame_run (p := p) hG hm
      have hrun := hrk.trans hput
      cases hsu : getNextSUFrame (putIdleFrame k p) p with
      | mk k' found =>
        cases found with
        | some i =>
          exact hrun.trans (getNextSUFrame_run hG (run_addressed hrun hw) (run_live hrun hw hp) hsu)
        | none =>
          obtain ⟨rfl, -⟩ := getNextSUFrame_none hsu
          exact hrun
    · rw [if_neg hm]
      exact hrk

/-! ## Transmission -/

/-- The handle a turn leaves. -/
def Turn.handle : Turn W N → Handle W N
  | .stop h | .chosen h | .nothing h => h

theorem startFrame_quiet (h : Handle W N) (r : SlotRef W) : Quiet h (startFrame h r) :=
  ⟨rfl, rfl, rfl, rfl, ⟨[], (List.append_nil _).symm, by simp⟩, fun _ => .refl _⟩

theorem tryToSend_run (hG : Fair G) (hw : Addressed h) (hp : Live h p) :
    Run Step G h (tryToSend h p).handle := by
  unfold tryToSend
  split
  · split
    · have hq := Quiet.setEvents h fun e => { e with txDataAvailable := false }
      have hrun := (quiet_run hG hq).trans
        (getNextFrameToSend_run hG (hw.step (.quiet hq)) (live_of_quiet hq hw hp))
      dsimp only
      cases hg : getNextFrameToSend (h.setEvents fun e => { e with txDataAvailable := false }) p with
      | mk k found =>
        rw [hg] at hrun
        cases found with
        | some r => exact hrun.trans (quiet_run hG (startFrame_quiet k r))
        | none =>
          dsimp only
          split <;> exact hrun
    · split <;> exact .refl
  · split
    · split
      · exact (quiet_run hG (.setEvents h _)).trans (quiet_run hG (.emit _ trivial))
      · exact .refl
    · exact .refl

theorem getTxDataLoop_run (hG : Fair G) (hfree : ∀ h₁ i, G h₁ (.free i)) (len : Nat) :
    ∀ (fuel : Nat) (again waitPointPassed : Bool) (h : Handle W N) (data : List Byte),
      Addressed h → (¬Multi h → p = 0) →
        Run Step G h (getTxDataLoop len p fuel again waitPointPassed h data).h
  | 0, _, _, _, _, _, _ => .refl
  | fuel + 1, again, waitPointPassed, h, data, hw, hu => by
    have hnext : ∀ (k : Handle W N) (again waitPointPassed : Bool) (data : List Byte),
        Run Step G h k →
          Run Step G h (getTxDataLoop len p fuel again waitPointPassed k data).h := by
      intro k again waitPointPassed data hr
      refine hr.trans (getTxDataLoop_run hG hfree len fuel _ _ k _ (run_addressed hr hw) ?_)
      rw [Multi.congr (run_settings hr)]
      exact hu
    unfold getTxDataLoop
    split
    · exact .refl
    · split
      · have hr := runTx_run (h := h) hG hfree (len - data.length)
        dsimp only
        split
        · exact hr
        · exact hnext _ _ _ _ hr
      · split
        · exact .refl
        · next ha =>
          have hp := hw.live_of_unique ha hu
          have hidle := checkIdleTimeout_run hG hw hp
          dsimp only
          split
          · exact hidle
          · have htry := hidle.trans (tryToSend_run hG (run_addressed hidle hw)
              (run_live hidle hw hp))
            cases hturn : tryToSend (checkIdleTimeout h p) p with
            | stop k =>
              rw [hturn] at htry
              exact htry
            | chosen k =>
              rw [hturn] at htry
              exact hnext _ _ _ _ htry
            | nothing k =>
              rw [hturn] at htry
              dsimp only
              split
              · exact htry
              · exact hnext _ _ _ _ htry

theorem getTxData_run (hG : Fair G) (hfree : ∀ h₁ i, G h₁ (.free i)) (hw : Addressed h)
    (len : Nat) : Run Step G h (getTxData h len).h :=
  getTxDataLoop_run hG hfree len _ _ _ h _ hw fun hm => (hw.single hm).2

/-! ## Calls of the application -/

/-- Quiet changes of a peer and its sequence numbers do not interfere. -/
theorem Quiet.congr_control (hq : Quiet h h') (p : Fin N) (f : IQueueControl → IQueueControl) :
    Quiet (h.setControl p f) (h'.setControl p f) := by
  refine ⟨hq.settings, hq.iQueue, hq.sQueue, hq.nextPeer, hq.log, fun q => ?_⟩
  unfold Handle.setControl
  by_cases hqp : q = p
  · subst hqp
    rw [setPeer_self, setPeer_self]
    exact ⟨(hq.peer q).state, (hq.peer q).addr, congrArg f (hq.peer q).control, (hq.peer q).accepts⟩
  · rw [setPeer_ne h hqp, setPeer_ne h' hqp]
    exact hq.peer q

theorem putIFrame_quiet (hq : Quiet h h') (p : Fin N) (data : List Byte) :
    putIFrame? h' p data = none ∨
      ∃ k k', putIFrame? h p data = some k ∧ putIFrame? h' p data = some k' ∧ Quiet k k' := by
  unfold putIFrame?
  rw [hq.iQueue, hq.addressField, hq.control]
  cases h.iQueue.allocate .iFrame data with
  | none => exact .inl rfl
  | some r =>
    refine .inr ⟨_, _, rfl, rfl, Quiet.congr_control ?_ p _⟩
    exact ⟨hq.settings, rfl, hq.sQueue, hq.nextPeer, hq.log, hq.peer⟩

/-- A flag that was set may be set again. -/
theorem Quiet.raise (hq : Quiet h h') (ha : (h.peers p).canAcceptIFrames) (b : Bool) :
    Quiet h (if b then h'.setPeer p fun x => { x with canAcceptIFrames := true } else h') := by
  split
  · refine ⟨hq.settings, hq.iQueue, hq.sQueue, hq.nextPeer, hq.log,
      setPeer_forall (P := fun q x => (h.peers q).Quiet x) ?_ fun q _ => hq.peer q⟩
    exact ⟨(hq.peer p).state, (hq.peer p).addr, (hq.peer p).control, fun _ => ha⟩
  · exact hq

theorem Quiet.trans_events (hq : Quiet h h') (f : Events → Events) : Quiet h (h'.setEvents f) :=
  ⟨hq.settings, hq.iQueue, hq.sQueue, hq.nextPeer, hq.log, hq.peer⟩

theorem Quiet.congr_emit (hq : Quiet h h') (hlog : h'.log = h.log) (e : Event N) :
    Quiet (h.emit e) (h'.emit e) := by
  refine ⟨hq.settings, hq.iQueue, hq.sQueue, hq.nextPeer, ⟨[], ?_, by simp⟩, hq.peer⟩
  unfold Handle.emit
  rw [hlog, List.append_nil]

theorem takePacket_run (hG : Fair G) {data : List Byte} (hp : Live h p)
    (ha : (h.peers p).canAcceptIFrames) (hq : Quiet h h') (hlog : h'.log = h.log) :
    Run Step G h (takePacket h' p data).1 := by
  unfold takePacket
  rcases putIFrame_quiet hq p data with hn | ⟨k, k', hk, hk', hqk⟩
  · rw [hn]
    exact quiet_run hG (hq.raise ha _)
  · rw [hk']
    refine (Run.single (hG h (.accept p) id) (.accept hp ha hk)).trans (quiet_run hG ?_)
    have hak : (k.peers p).canAcceptIFrames := by
      obtain ⟨i, -, -, rfl⟩ := putIFrame_some hk
      unfold Handle.setControl
      rw [setPeer_self]
      exact ha
    have hlogk : k'.log = k.log := by
      obtain ⟨i, -, -, rfl⟩ := putIFrame_some hk
      obtain ⟨i', -, -, rfl⟩ := putIFrame_some hk'
      exact hlog
    have hqe := hqk.congr_emit hlogk (.accepted p data)
    dsimp only
    refine Quiet.raise (h := k.emit (.accepted p data)) ?_ hak _
    split
    · exact hqe.trans_events _
    · exact hqe

theorem sendPacketTo_run (hG : Fair G) (hw : Addressed h) (address : Byte) (data : List Byte) :
    Run Step G h (sendPacketTo h address data).1 := by
  unfold sendPacketTo
  cases hp : addressFieldToPeer h (sendAddress h address) with
  | none => exact .refl
  | some p =>
    dsimp only
    split
    · exact .refl
    · split
      · next ha =>
        split
        · refine takePacket_run hG (hw.live_of_found hp) ha (Quiet.trans_events
            (.setPeer h p ⟨rfl, rfl, rfl, fun hf => ?_⟩) _) rfl
          exact absurd hf Bool.false_ne_true
        · exact .refl
      · exact .refl

theorem putUSFrame_of_some {type : QueueType} {address control : Byte} {payload : List Byte}
    (hput : putUSFrame? h type address control payload = some h') :
    h' = putUSFrame h type address control payload := by
  unfold putUSFrame
  rw [hput]
  rfl

theorem sendUiPacketTo_run (hG : Fair G) (address : Byte) (data : List Byte) :
    Run Step G h (sendUiPacketTo h address data).1 := by
  unfold sendUiPacketTo
  split
  · exact .refl
  · split
    · exact .refl
    · next p hp =>
      cases hput : putUSFrame? h .uFrame (peerToAddressField h p) (uControl .ui) data with
      | none => exact .refl
      | some k =>
        have hk := putUSFrame_of_some hput
        have hzero : peerToAddressField h p = peerToAddressField h p ||| 0 := by simp
        rw [hzero] at hk
        show Run Step G h k
        rw [hk]
        refine .single (hG h (.put p) id) (.putU (.inl rfl) ?_ ?_)
        · intro hu
          cases hu
        · rintro (hu | hu) <;> cases hu

theorem putUSFrame_room {type : QueueType} {address control : Byte} {payload : List Byte}
    (hput : putUSFrame? h type address control payload = some h') : h.sQueue.hasFreeSlots := by
  unfold putUSFrame? at hput
  cases ha : h.sQueue.allocate type payload with
  | none =>
    rw [ha] at hput
    cases hput
  | some r =>
    unfold Queue.allocate at ha
    split at ha
    · unfold Queue.hasFreeSlots
      cases hi : h.sQueue.getNext [.free] 0 0 with
      | none =>
        rw [hi] at ha
        cases ha
      | some i => rfl
    · cases ha

theorem disconnect_call_run (hG : Fair G)
    (hhang : ∀ k : Handle W N, (k.peers 0).state = (h.peers 0).state → h.sQueue.hasFreeSlots →
      G k (.hangUp 0)) : Run Step G h (disconnect h).1 := by
  unfold disconnect
  cases hput : putUSFrame? h .uFrame (peerToAddressField h 0 ||| crBit) (uControl .disc) [] with
  | none => exact .refl
  | some k =>
    have hk := putUSFrame_of_some hput
    have hstep : Step h (.put 0) k := by
      rw [hk]
      refine .putU (.inr rfl) ?_ ?_
      · intro hu
        cases hu
      · rintro (hu | hu) <;> cases hu
    refine (Run.single (hG h _ id) hstep).trans (.single (hhang k ?_ ?_) .hangUp)
    · rw [hk, putUSFrame_peers]
    · exact putUSFrame_room hput

theorem shift_bits (address : Byte) : (address <<< 2 ||| eBit) &&& 0x03 = 0x01 := by
  revert address
  decide +kernel

theorem registerPeer_run (hG : Fair G) (address : Byte) :
    Run Step G h (registerPeer h address).1 := by
  unfold registerPeer
  split
  · exact .refl
  · dsimp only
    split
    · exact .refl
    · split
      · exact .refl
      · next hnew =>
        split
        · exact .refl
        · next p hp =>
          have hinv := List.find?_some hp
          rw [decide_eq_true_eq] at hinv
          rw [Option.not_isSome_iff_eq_none] at hnew
          refine (Run.single (hG h (.register p) id)
            (.register hinv (shift_bits address) hnew)).trans (quiet_run hG ?_)
          refine ⟨rfl, rfl, rfl, rfl, ⟨[], (List.append_nil _).symm, by simp⟩, fun q => ?_⟩
          by_cases hqp : q = p
          · subst hqp
            rw [setPeer_self, setPeer_self]
            exact ⟨rfl, rfl, rfl, id⟩
          · rw [setPeer_ne h hqp, setPeer_ne h hqp]
            exact .refl _

/-! ## All calls -/

/-- A condition on frames and the state they come in holds for the frames, one after the
other. -/
def FramesOk (F : Handle W N → List Byte → Prop) : Handle W N → List (List Byte) → Prop
  | _, [] => True
  | h, data :: frames => F h data ∧ FramesOk F (onFrameRead h data) frames

/-- A condition on frames holds for the frames that come with a call. -/
def CallOk (F : Handle W N → List Byte → Prop) (h : Handle W N) : Call → Prop
  | .onRxData data =>
      FramesOk F { h with hdlc := (onRxData h.hdlc data).1 } (framesOf (onRxData h.hdlc data).2)
  | .onFrameRead data => F h data
  | _ => True

theorem FramesOk.mono {F F' : Handle W N → List Byte → Prop} (hle : ∀ h data, F h data → F' h data) :
    ∀ {frames : List (List Byte)} {h : Handle W N}, FramesOk F h frames → FramesOk F' h frames
  | [], _, _ => trivial
  | _ :: _, _, hok => ⟨hle _ _ hok.1, hok.2.mono hle⟩

theorem CallOk.mono {F F' : Handle W N → List Byte → Prop} (hle : ∀ h data, F h data → F' h data)
    {c : Call} (hok : CallOk F h c) : CallOk F' h c := by
  cases c with
  | onRxData data => exact FramesOk.mono hle hok
  | onFrameRead data => exact hle _ _ hok
  | _ => trivial

theorem frames_run (hG : Fair G) : ∀ (frames : List (List Byte)) (h : Handle W N), Addressed h →
    FramesOk (FrameOk G) h frames → Run Step G h (frames.foldl onFrameRead h)
  | [], _, _, _ => .refl
  | data :: frames, h, hw, hok => by
    have hfirst := onFrameRead_run hG hw hok.1
    exact hfirst.trans (frames_run hG frames _ (run_addressed hfirst hw) hok.2)

/-- The guard lets a call through. -/
structure CallAllowed (G : Handle W N → Act N → Prop) (h : Handle W N) (c : Call) : Prop where
  frames : CallOk (FrameOk G) h c
  hangUp : c = .disconnect → ∀ k : Handle W N, (k.peers 0).state = (h.peers 0).state →
    h.sQueue.hasFreeSlots → G k (.hangUp 0)

/-- A call is a run of elementary steps. -/
theorem call_run (hG : Fair G) (hfree : ∀ h₁ i, G h₁ (.free i)) (hw : Addressed h) (c : Call)
    (hok : CallAllowed G h c) : Run Step G h (call h c) := by
  have hsame : ∀ k : Handle W N, k.settings = h.settings → k.iQueue = h.iQueue →
      k.sQueue = h.sQueue → k.nextPeer = h.nextPeer → k.log = h.log → k.peers = h.peers →
      Run Step G h k := by
    intro k hset hi hs hn hlog hp
    refine quiet_run hG ⟨hset, hi, hs, hn, ⟨[], by rw [hlog, List.append_nil], by simp⟩, ?_⟩
    rw [hp]
    exact fun q => .refl _
  cases c with
  | sendPacketTo address data => exact sendPacketTo_run hG hw address data
  | sendUiPacketTo address data => exact sendUiPacketTo_run hG address data
  | disconnect => exact disconnect_call_run hG (hok.hangUp rfl)
  | registerPeer address => exact registerPeer_run hG address
  | setKaTimeout keepAlive => exact hsame _ rfl rfl rfl rfl rfl rfl
  | onRxData data =>
    have hll : Run Step G h { h with hdlc := (onRxData h.hdlc data).1 } :=
      hsame _ rfl rfl rfl rfl rfl rfl
    exact hll.trans (frames_run hG _ _ (run_addressed hll hw) hok.frames)
  | onFrameRead data => exact onFrameRead_run hG hw hok.frames
  | getTxData len => exact getTxData_run hG hfree hw len
  | tick ms => exact hsame _ rfl rfl rfl rfl rfl rfl

/-! ## Reachable states -/

/-- The low level handle is one that `hdlc_ll_init` made. -/
def Started (hdlc : HdlcLl (SlotRef W)) : Prop :=
  ∃ sz init a, hdlcLlInit sz init = .ok (a, hdlc)

/-- The states that come of calls whose frames meet a condition.  The bounds on the window
are those that `tiny_fd_init` checks. -/
inductive Reachable (F : Handle W N → List Byte → Prop) : Handle W N → Prop where
  | init {init : InitParams} {hdlc : HdlcLl (SlotRef W)} {millis : BitVec 32} (hmin : 2 ≤ W)
      (hmax : W ≤ 7) (hll : Started hdlc) : Reachable F (initHandle W N init hdlc millis)
  | call {h : Handle W N} (c : Call) (hr : Reachable F h) (hok : CallOk F h c) :
      Reachable F (call h c)

theorem addressField_bits (init : InitParams) : init.addressField &&& 0x03 = 0x01 := by
  have bits : ∀ a : Byte, ((if a ≠ 0 then a <<< 2 else 0) ||| eBit) &&& 0x03 = 0x01 := by
    decide +kernel
  exact bits init.addr

theorem initHandle_addressed (init : InitParams) (hdlc : HdlcLl (SlotRef W)) (millis : BitVec 32) :
    Addressed (initHandle W N init hdlc millis) := by
  have haddr : ∀ p, ((initHandle W N init hdlc millis).peers p).addr =
      if Multi (initHandle W N init hdlc millis) then invalidAddr else init.addressField := by
    intro p
    show (if _ then _ else _) = _
    have hm : Multi (initHandle W N init hdlc millis) ↔
        ¬((!isPrimaryAddress init.addressField) = true ∨ init.mode = .abm) := by
      show _ ∧ _ ↔ _
      rw [not_or]
      simp [initHandle, Handle.isPrimaryStation]
    by_cases hc : (!isPrimaryAddress init.addressField) = true ∨ init.mode = .abm
    · rw [if_pos hc, if_neg (by rw [hm]; exact not_not.mpr hc)]
    · rw [if_neg hc, if_pos (hm.mpr hc)]
  refine ⟨addressField_bits init, fun hm => ⟨fun p => ?_, rfl⟩, fun hm p hp => ?_,
    fun hm p q _ hp => ?_⟩
  · rw [haddr, if_neg hm]
    rfl
  · rw [haddr, if_pos hm] at hp
    exact absurd rfl hp
  · rw [haddr, if_pos hm] at hp
    exact absurd rfl hp

/-- The states that come of calls that meet a condition. -/
inductive Reaches (C : Handle W N → Call → Prop) : Handle W N → Prop where
  | init {init : InitParams} {hdlc : HdlcLl (SlotRef W)} {millis : BitVec 32} (hmin : 2 ≤ W)
      (hmax : W ≤ 7) (hll : Started hdlc) : Reaches C (initHandle W N init hdlc millis)
  | call {h : Handle W N} (c : Call) (hr : Reaches C h) (hok : C h c) : Reaches C (call h c)

theorem Reachable.reaches {F : Handle W N → List Byte → Prop} (hr : Reachable F h) :
    Reaches (CallOk F) h := by
  induction hr with
  | init hmin hmax hll => exact .init hmin hmax hll
  | call c _ hok ih => exact .call c ih hok

/-- What holds of a new handle and is preserved by the allowed elementary steps holds in
every reachable state. -/
theorem Reaches.invariant {C : Handle W N → Call → Prop} {P : Handle W N → Prop}
    (hG : Fair G) (hfree : ∀ h i, G h (.free i)) (hC : ∀ h c, C h c → CallAllowed G h c)
    (hinit : ∀ init hdlc millis, P (initHandle W N init hdlc millis))
    (hstep : ∀ h a h', W ≤ 7 → Addressed h → P h → G h a → Step h a h' → P h')
    (hr : Reaches C h) : W ≤ 7 ∧ Addressed h ∧ P h := by
  induction hr with
  | init _ hmax => exact ⟨hmax, initHandle_addressed _ _ _, hinit _ _ _⟩
  | call c _ hok ih =>
    obtain ⟨hmax, hw, hP⟩ := ih
    have hrun := call_run hG hfree hw c (hC _ c hok)
    refine ⟨hmax, hrun.preserves (P := fun k => Addressed k ∧ P k) ?_ ⟨hw, hP⟩⟩
    rintro k a k' ⟨hwk, hPk⟩ hg hs
    exact ⟨hwk.step hs, hstep k a k' hmax hwk hPk hg hs⟩

/-- The same with a condition on the frames, and a guard that does not look at
`tiny_fd_disconnect`. -/
theorem Reachable.invariant {F : Handle W N → List Byte → Prop} {P : Handle W N → Prop}
    (hG : Fair G) (hfree : ∀ h i, G h (.free i)) (hhang : ∀ h p, G h (.hangUp p))
    (hF : ∀ h data, F h data → FrameOk G h data)
    (hinit : ∀ init hdlc millis, P (initHandle W N init hdlc millis))
    (hstep : ∀ h a h', W ≤ 7 → Addressed h → P h → G h a → Step h a h' → P h')
    (hr : Reachable F h) : W ≤ 7 ∧ Addressed h ∧ P h :=
  hr.reaches.invariant hG hfree (fun _ _ hok => ⟨hok.mono hF, fun _ _ _ _ => hhang _ _⟩) hinit hstep

/-- No condition on the frames. -/
def AnyFrame (_ : Handle W N) (_ : List Byte) : Prop := True

theorem framesOk_any : ∀ (frames : List (List Byte)) (h : Handle W N), FramesOk AnyFrame h frames
  | [], _ => trivial
  | _ :: frames, _ => ⟨trivial, framesOk_any frames _⟩

theorem callOk_any (h : Handle W N) (c : Call) : CallOk AnyFrame h c := by
  cases c with
  | onRxData data => exact framesOk_any _ _
  | _ => trivial

/-- No guard. -/
def AnyAct (_ : Handle W N) (_ : Act N) : Prop := True

theorem Reaches.addressed {C : Handle W N → Call → Prop} (hr : Reaches C h) : Addressed h := by
  have hok : ∀ (k : Handle W N) data, FrameOk AnyAct k data := fun _ _ _ _ _ _ _ _ =>
    ⟨fun _ _ _ _ => trivial, fun _ _ => trivial, fun _ _ _ _ => trivial⟩
  refine (hr.invariant (G := AnyAct) (P := fun _ => True) (fun _ _ _ => trivial)
    (fun _ _ => trivial) (fun k c _ => ⟨?_, fun _ _ _ _ => trivial⟩) (fun _ _ _ => trivial)
    fun _ _ _ _ _ _ _ _ => trivial).2.1
  exact (callOk_any k c).mono fun k data _ => hok k data

/-- A condition holds for the frames of several calls. -/
def CallsOk (F : Handle W N → List Byte → Prop) : Handle W N → List Call → Prop
  | _, [] => True
  | h, c :: calls => CallOk F h c ∧ CallsOk F (call h c) calls

theorem callsOk_any : ∀ (calls : List Call) (h : Handle W N), CallsOk AnyFrame h calls
  | [], _ => trivial
  | c :: calls, h => ⟨callOk_any h c, callsOk_any calls _⟩

theorem Reachable.calls {F : Handle W N → List Byte → Prop} :
    ∀ {calls : List Call} {h : Handle W N}, Reachable F h → CallsOk F h calls →
      Reachable F (calls.foldl Fd.call h)
  | [], _, hr, _ => hr
  | c :: _, _, hr, hok => (hr.call c hok.1).calls hok.2

/-- A condition holds for several calls, one after the other. -/
def CallsMeet (C : Handle W N → Call → Prop) : Handle W N → List Call → Prop
  | _, [] => True
  | h, c :: calls => C h c ∧ CallsMeet C (call h c) calls

theorem Reaches.calls {C : Handle W N → Call → Prop} :
    ∀ {calls : List Call} {h : Handle W N}, Reaches C h → CallsMeet C h calls →
      Reaches C (calls.foldl Fd.call h)
  | [], _, hr, _ => hr
  | c :: _, _, hr, hok => (hr.call c hok.1).calls hok.2

/-! ## A small handle -/

/-- A low level handle with room for frames of 32 bytes. -/
def smallLl (W : Nat) : HdlcLl (SlotRef W) :=
  { rxBuf := fun _ => 0, rxBufSize := 64, crcType := .crc16, physMtu := 34, rx := Rx.idle,
    tx := Tx.idle }

theorem smallLl_started (W : Nat) : Started (smallLl W) :=
  ⟨.linux64, { buf := 4096, bufSize := 200, crcType := .crc16, mtu := 32 }, 4096, rfl⟩

/-- A primary station, or one in ABM, with these low level and timeouts. -/
def smallHandle (W N : Nat) [NeZero W] [NeZero N] (mode : Mode) : Handle W N :=
  initHandle W N
    { mode := mode, addr := 0, sendTimeout := 1000, retryTimeout := 100, retries := 2, mtu := 32 }
    (smallLl W) 0

theorem smallHandle_reachable (F : Handle W N → List Byte → Prop) (mode : Mode) (hmin : 2 ≤ W)
    (hmax : W ≤ 7) : Reachable F (smallHandle W N mode) :=
  .init hmin hmax (smallLl_started W)

theorem smallHandle_reaches (C : Handle W N → Call → Prop) (mode : Mode) (hmin : 2 ≤ W)
    (hmax : W ≤ 7) : Reaches C (smallHandle W N mode) :=
  .init hmin hmax (smallLl_started W)

end TinyProto.Fd
