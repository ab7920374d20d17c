import TinyProto.Fd.Api

/-!
# What the functions change

For each function that the handlers are made of, the fields it leaves alone and what
becomes of the others.  The loops get a rule each: what one turn preserves, the loop
preserves.
-/

set_option linter.unusedSectionVars false

namespace TinyProto.Fd

open Hdlc

variable {W N : Nat} {h : Handle W N} {p q : Fin N}

/-! ## Updates of a peer -/

theorem setPeer_self (h : Handle W N) (p : Fin N) (f : Peer → Peer) :
    (h.setPeer p f).peers p = f (h.peers p) := Function.update_self ..

theorem setPeer_ne (h : Handle W N) (hq : q ≠ p) (f : Peer → Peer) :
    (h.setPeer p f).peers q = h.peers q := Function.update_of_ne hq ..

@[simp] theorem setControl_self (h : Handle W N) (p : Fin N) (f : IQueueControl → IQueueControl) :
    (h.setControl p f).control p = f (h.control p) := by
  unfold Handle.control Handle.setControl
  rw [setPeer_self]

/-- A property of all peers that holds for the new one and the others. -/
theorem setPeer_forall {P : Fin N → Peer → Prop} {f : Peer → Peer} (hp : P p (f (h.peers p)))
    (hq : ∀ q, q ≠ p → P q (h.peers q)) (q : Fin N) : P q ((h.setPeer p f).peers q) :=
  (Function.forall_update_iff h.peers P).mpr ⟨hp, hq⟩ q

theorem setPeer_id {f : Peer → Peer} (hf : f (h.peers p) = h.peers p) : h.setPeer p f = h := by
  unfold Handle.setPeer
  rw [hf, Function.update_eq_self]

/-- Two updates of one peer. -/
theorem setPeer_setPeer (h : Handle W N) (p : Fin N) (f g : Peer → Peer) :
    (h.setPeer p f).setPeer p g = h.setPeer p (g ∘ f) := by
  unfold Handle.setPeer
  simp only [Function.update_self, Function.update_idem, Function.comp]

variable [NeZero W] [NeZero N]

/-! ## The service queue -/

/-- Queueing touches the service queue and one flag. -/
theorem putUSFrame_eq (h : Handle W N) (type : QueueType) (address control : Byte)
    (payload : List Byte) :
    ∃ q b, putUSFrame h type address control payload =
      { h with sQueue := q, events := { h.events with txDataAvailable := b } } := by
  unfold putUSFrame putUSFrame?
  cases h.sQueue.allocate type payload with
  | none => exact ⟨h.sQueue, h.events.txDataAvailable, rfl⟩
  | some r => exact ⟨_, true, rfl⟩

/-- Without room the frame is dropped, else it fills a free slot. -/
theorem putUSFrame_cases (h : Handle W N) (type : QueueType) (address control : Byte)
    (payload : List Byte) :
    (putUSFrame h type address control payload).sQueue = h.sQueue ∨
      ∃ i, h.sQueue.getNext [.free] 0 0 = some i ∧
        (putUSFrame h type address control payload).sQueue =
          h.sQueue.setFrame i
            { type := type, address := address, control := control, payload := payload } := by
  unfold putUSFrame putUSFrame? Queue.allocate
  split
  · cases hi : h.sQueue.getNext [.free] 0 0 with
    | none => exact .inl rfl
    | some i =>
      refine .inr ⟨i, rfl, ?_⟩
      show (h.sQueue.setFrame i _).setFrame i _ = _
      unfold Queue.setFrame
      simp only [Function.update_self, Function.update_idem]
  · exact .inl rfl

section
variable (type : QueueType) (address control : Byte) (payload : List Byte)

@[simp] theorem putUSFrame_settings :
    (putUSFrame h type address control payload).settings = h.settings := by
  obtain ⟨q, b, he⟩ := putUSFrame_eq h type address control payload
  rw [he]

@[simp] theorem putUSFrame_peers :
    (putUSFrame h type address control payload).peers = h.peers := by
  obtain ⟨q, b, he⟩ := putUSFrame_eq h type address control payload
  rw [he]

@[simp] theorem putUSFrame_control :
    (putUSFrame h type address control payload).control p = h.control p := by
  obtain ⟨q, b, he⟩ := putUSFrame_eq h type address control payload
  rw [he]
  rfl

@[simp] theorem putUSFrame_iQueue :
    (putUSFrame h type address control payload).iQueue = h.iQueue := by
  obtain ⟨q, b, he⟩ := putUSFrame_eq h type address control payload
  rw [he]

@[simp] theorem putUSFrame_nextPeer :
    (putUSFrame h type address control payload).nextPeer = h.nextPeer := by
  obtain ⟨q, b, he⟩ := putUSFrame_eq h type address control payload
  rw [he]

@[simp] theorem putUSFrame_log :
    (putUSFrame h type address control payload).log = h.log := by
  obtain ⟨q, b, he⟩ := putUSFrame_eq h type address control payload
  rw [he]

@[simp] theorem putUSFrame_hdlc :
    (putUSFrame h type address control payload).hdlc = h.hdlc := by
  obtain ⟨q, b, he⟩ := putUSFrame_eq h type address control payload
  rw [he]

@[simp] theorem putUSFrame_millis :
    (putUSFrame h type address control payload).millis = h.millis := by
  obtain ⟨q, b, he⟩ := putUSFrame_eq h type address control payload
  rw [he]

end

/-! ## I-frames -/

/-- The slot of a queued payload. -/
def newIFrame (h : Handle W N) (p : Fin N) (data : List Byte) : Slot :=
  { type := .iFrame
    address := peerToAddressField h p
    control := (h.control p).lastNs.setWidth 8 <<< 1
    payload := data }

/-- A payload that is queued fills a free slot. -/
theorem putIFrame_some {h' : Handle W N} {data : List Byte} (hput : putIFrame? h p data = some h') :
    ∃ i, (h.iQueue.frames i).type = .free ∧ data.length ≤ h.iQueue.mtu ∧
      h' = ({ h with
        iQueue := h.iQueue.setFrame i (newIFrame h p data)
        events := { h.events with txDataAvailable := true } } : Handle W N).setControl p
        fun c => { c with lastNs := c.lastNs + 1 } := by
  unfold putIFrame? at hput
  cases ha : h.iQueue.allocate .iFrame data with
  | none =>
    rw [ha] at hput
    cases hput
  | some r =>
    obtain ⟨q, i⟩ := r
    rw [ha] at hput
    cases hput
    obtain ⟨hlen, hfree, rfl⟩ := Queue.allocate_some ha
    refine ⟨i, hfree, hlen, ?_⟩
    simp only [Queue.setFrame, Function.update_self, Function.update_idem]
    rfl

/-- It is the first free slot. -/
theorem putIFrame_first {h' : Handle W N} {data : List Byte}
    (hput : putIFrame? h p data = some h') :
    ∃ i, h.iQueue.getNext [.free] 0 0 = some i ∧
      h' = ({ h with
        iQueue := h.iQueue.setFrame i (newIFrame h p data)
        events := { h.events with txDataAvailable := true } } : Handle W N).setControl p
        fun c => { c with lastNs := c.lastNs + 1 } := by
  unfold putIFrame? at hput
  cases ha : h.iQueue.allocate .iFrame data with
  | none =>
    rw [ha] at hput
    cases hput
  | some r =>
    obtain ⟨q, i⟩ := r
    rw [ha] at hput
    cases hput
    have hfirst := Queue.allocate_first ha
    obtain ⟨-, -, rfl⟩ := Queue.allocate_some ha
    refine ⟨i, hfirst, ?_⟩
    simp only [Queue.setFrame, Function.update_self, Function.update_idem]
    rfl

theorem putIFrame_control {h' : Handle W N} {data : List Byte}
    (hput : putIFrame? h p data = some h') :
    h'.control p = { h.control p with lastNs := (h.control p).lastNs + 1 } := by
  obtain ⟨i, -, -, rfl⟩ := putIFrame_some hput
  exact setControl_self ..

/-! ## Confirmation -/

/-- What every turn of the confirmation loop preserves, the loop preserves.  A turn is
taken only with unconfirmed frames left, and before N(R) is reached. -/
theorem confirmLoop_rule {P : Handle W N → Prop} {nr : Seq}
    (hstep : ∀ h : Handle W N, P h → nr ≠ (h.control p).confirmNs →
      (h.control p).confirmNs ≠ (h.control p).lastNs → P (confirmOne h p)) :
    ∀ (fuel : Nat) (h : Handle W N), P h → P (confirmLoop fuel h p nr)
  | 0, _, hP => hP
  | fuel + 1, h, hP => by
    unfold confirmLoop
    split
    · exact hP
    · next hnr =>
      split
      · exact hP
      · next hun =>
        have hne : (h.control p).confirmNs ≠ (h.control p).lastNs := by
          unfold IQueueControl.hasUnconfirmedFrames at hun
          simpa using hun
        exact confirmLoop_rule hstep fuel _ (hstep h hP hnr hne)

/-- What confirming frames of a peer leaves alone. -/
structure Confirms (p : Fin N) (h h' : Handle W N) : Prop where
  settings : h'.settings = h.settings
  sQueue : h'.sQueue = h.sQueue
  nextPeer : h'.nextPeer = h.nextPeer
  hdlc : h'.hdlc = h.hdlc
  millis : h'.millis = h.millis
  txSending : h'.events.txSending = h.events.txSending
  hasMarker : h'.events.hasMarker = h.events.hasMarker
  other : ∀ q, q ≠ p → h'.peers q = h.peers q
  peer : ∃ c r b, h'.peers p = { h.peers p with
    iQueueControl := { (h.peers p).iQueueControl with confirmNs := c }
    retries := r
    canAcceptIFrames := b }
  log : ∃ es : List (Event N), h'.log = h.log ++ es ∧ ∀ e ∈ es, ∃ a x, e = .sent p a x

theorem Confirms.refl (p : Fin N) (h : Handle W N) : Confirms p h h :=
  ⟨rfl, rfl, rfl, rfl, rfl, rfl, rfl, fun _ _ => rfl, ⟨_, _, _, rfl⟩, ⟨[], by simp, by simp⟩⟩

theorem Confirms.trans {h h₁ h₂ : Handle W N} (h₁₂ : Confirms p h h₁) (h₂₃ : Confirms p h₁ h₂) :
    Confirms p h h₂ := by
  obtain ⟨c, r, b, hp₁⟩ := h₁₂.peer
  obtain ⟨c', r', b', hp₂⟩ := h₂₃.peer
  obtain ⟨es, hl₁, he₁⟩ := h₁₂.log
  obtain ⟨es', hl₂, he₂⟩ := h₂₃.log
  exact
    { settings := h₂₃.settings.trans h₁₂.settings
      sQueue := h₂₃.sQueue.trans h₁₂.sQueue
      nextPeer := h₂₃.nextPeer.trans h₁₂.nextPeer
      hdlc := h₂₃.hdlc.trans h₁₂.hdlc
      millis := h₂₃.millis.trans h₁₂.millis
      txSending := h₂₃.txSending.trans h₁₂.txSending
      hasMarker := h₂₃.hasMarker.trans h₁₂.hasMarker
      other := fun q hq => (h₂₃.other q hq).trans (h₁₂.other q hq)
      peer := ⟨c', r', b', by rw [hp₂, hp₁]⟩
      log := ⟨es ++ es', by rw [hl₂, hl₁, List.append_assoc], by
        intro e he
        rcases List.mem_append.mp he with he | he
        · exact he₁ e he
        · exact he₂ e he⟩ }

/-- An update of the fields that confirmation touches. -/
theorem Confirms.setPeer {h h' : Handle W N} (hc : Confirms p h h') {f : Peer → Peer}
    (hf : ∀ x, ∃ c r b, f x = { x with
      iQueueControl := { x.iQueueControl with confirmNs := c }
      retries := r
      canAcceptIFrames := b }) : Confirms p h (h'.setPeer p f) := by
  refine hc.trans ⟨rfl, rfl, rfl, rfl, rfl, rfl, rfl, fun q hq => setPeer_ne h' hq f, ?_,
    ⟨[], by simp [Handle.setPeer], by simp⟩⟩
  obtain ⟨c, r, b, hx⟩ := hf (h'.peers p)
  exact ⟨c, r, b, by rw [setPeer_self, hx]⟩

theorem onFrameConfirmed_confirms (h : Handle W N) (p : Fin N) (nr : Seq) :
    Confirms p h (onFrameConfirmed h p nr) := by
  unfold onFrameConfirmed
  split
  · next i hi =>
    refine Confirms.setPeer ?_ fun _ => ⟨_, _, _, rfl⟩
    dsimp only
    split
    · exact ⟨rfl, rfl, rfl, rfl, rfl, rfl, rfl, fun _ _ => rfl, ⟨_, _, _, rfl⟩,
        ⟨[_], rfl, by simp⟩⟩
    · exact ⟨rfl, rfl, rfl, rfl, rfl, rfl, rfl, fun _ _ => rfl, ⟨_, _, _, rfl⟩,
        ⟨[_], rfl, by simp⟩⟩
  · exact (Confirms.refl p h).setPeer fun _ => ⟨_, _, _, rfl⟩

theorem confirmOne_confirms (h : Handle W N) (p : Fin N) : Confirms p h (confirmOne h p) :=
  (onFrameConfirmed_confirms h p _).setPeer fun _ => ⟨_, _, _, rfl⟩

theorem confirmSentFrames_confirms (h : Handle W N) (p : Fin N) (nr : Seq) :
    Confirms p h (confirmSentFrames h p nr) := by
  have hloop : Confirms p h (confirmLoop 8 h p nr) :=
    confirmLoop_rule (fun h' hc _ _ => hc.trans (confirmOne_confirms h' p)) 8 h (Confirms.refl p h)
  unfold confirmSentFrames
  dsimp only
  split
  · exact hloop.setPeer fun _ => ⟨_, _, _, rfl⟩
  · exact hloop

/-- Addresses and states stay. -/
theorem Confirms.addr {h h' : Handle W N} (hc : Confirms p h h') (q : Fin N) :
    (h'.peers q).addr = (h.peers q).addr ∧ (h'.peers q).state = (h.peers q).state := by
  by_cases hq : q = p
  · subst hq
    obtain ⟨c, r, b, hx⟩ := hc.peer
    rw [hx]
    exact ⟨rfl, rfl⟩
  · rw [hc.other q hq]
    exact ⟨rfl, rfl⟩

/-! ## Resending -/

/-- What every turn of the resend loop preserves holds at its end, up to the FRMR that is
queued when the loop reaches the last confirmed frame without meeting N(R). -/
theorem resendLoop_rule {P Q : Handle W N → Prop} {control : Byte} {nr : Seq}
    (hstep : ∀ h : Handle W N, P h → (h.control p).nextNs ≠ nr →
      (h.control p).confirmNs ≠ (h.control p).nextNs → P (moveToPreviousNs h p))
    (hdone : ∀ h : Handle W N, P h → (h.control p).nextNs = nr → Q h)
    (hfrmr : ∀ h : Handle W N, P h → (h.control p).nextNs ≠ nr →
      (h.control p).confirmNs = (h.control p).nextNs →
      Q (putUSFrame h .uFrame (peerToAddressField h p ||| crBit) (uControl .frmr)
        (frmrData control (h.control p)))) :
    ∀ (fuel : Nat) (h : Handle W N), P h →
      ((h.control p).nextNs - (h.control p).confirmNs).toNat < fuel →
      Q (resendLoop fuel h p control nr)
  | 0, _, _, hf => absurd hf (Nat.not_lt_zero _)
  | fuel + 1, h, hP, hf => by
    unfold resendLoop
    split
    · next hnr => exact hdone h hP hnr
    · next hnr =>
      split
      · next hend => exact hfrmr h hP hnr hend
      · next hgo =>
        refine resendLoop_rule hstep hdone hfrmr fuel _ (hstep h hP hnr hgo) ?_
        -- The distance to `confirm_ns` is the number of turns that are left.
        have hcontrol : (moveToPreviousNs h p).control p =
            { h.control p with nextNs := (h.control p).nextNs - 1 } := setControl_self ..
        rw [hcontrol]
        show ((h.control p).nextNs - 1 - (h.control p).confirmNs).toNat < fuel
        generalize (h.control p).nextNs = next at *
        generalize (h.control p).confirmNs = confirm at *
        bv_omega

/-- What resending leaves alone. -/
structure Resends (p : Fin N) (h h' : Handle W N) : Prop where
  settings : h'.settings = h.settings
  iQueue : h'.iQueue = h.iQueue
  nextPeer : h'.nextPeer = h.nextPeer
  hdlc : h'.hdlc = h.hdlc
  millis : h'.millis = h.millis
  txSending : h'.events.txSending = h.events.txSending
  hasMarker : h'.events.hasMarker = h.events.hasMarker
  other : ∀ q, q ≠ p → h'.peers q = h.peers q
  peer : ∃ c, h'.peers p = { h.peers p with
    iQueueControl := { (h.peers p).iQueueControl with nextNs := c } }
  log : h'.log = h.log
  /-- At most an FRMR is queued. -/
  sQueue : h'.sQueue = h.sQueue ∨ ∃ i payload, h.sQueue.getNext [.free] 0 0 = some i ∧
    h'.sQueue = h.sQueue.setFrame i
      { type := .uFrame
        address := peerToAddressField h p ||| crBit
        control := uControl .frmr
        payload := payload }

/-- Only `next_ns` moved. -/
theorem Resends.rewound (h : Handle W N) (p : Fin N) (c : Seq) :
    Resends p h (h.setControl p fun x => { x with nextNs := c }) :=
  ⟨rfl, rfl, rfl, rfl, rfl, rfl, rfl, fun _ hq => setPeer_ne h hq _, ⟨c, setPeer_self ..⟩, rfl,
    .inl rfl⟩

theorem Resends.putFrmr {h h' : Handle W N} (hr : Resends p h h') (hs : h'.sQueue = h.sQueue)
    (payload : List Byte) :
    Resends p h (putUSFrame h' .uFrame (peerToAddressField h p ||| crBit) (uControl .frmr)
      payload) := by
  have hcases := putUSFrame_cases h' .uFrame (peerToAddressField h p ||| crBit) (uControl .frmr)
    payload
  obtain ⟨q, b, he⟩ := putUSFrame_eq h' .uFrame (peerToAddressField h p ||| crBit)
    (uControl .frmr) payload
  rw [he] at hcases ⊢
  refine { hr with sQueue := ?_ }
  rcases hcases with hq | ⟨i, hi, hq⟩
  · exact .inl (hq.trans hs)
  · rw [hs] at hi hq
    exact .inr ⟨i, payload, hi, hq⟩

theorem resendAllUnconfirmedFrames_resends (h : Handle W N) (p : Fin N) (control : Byte)
    (nr : Seq) : Resends p h (resendAllUnconfirmedFrames h p control nr) := by
  have hloop : Resends p h (resendLoop 8 h p control nr) := by
    refine resendLoop_rule (P := fun h' => ∃ c, h' = h.setControl p fun x => { x with nextNs := c })
      ?_ ?_ ?_ 8 h ?_ (by omega)
    · rintro h' ⟨c, rfl⟩ - -
      refine ⟨c - 1, ?_⟩
      unfold moveToPreviousNs Handle.setControl
      rw [setPeer_setPeer]
      rfl
    · rintro h' ⟨c, rfl⟩ -
      exact Resends.rewound h p c
    · rintro h' ⟨c, rfl⟩ - -
      have haddr : peerToAddressField (h.setControl p fun x => { x with nextNs := c }) p =
          peerToAddressField h p := by
        unfold peerToAddressField Handle.setControl
        rw [setPeer_self]
      rw [haddr]
      exact (Resends.rewound h p c).putFrmr rfl _
    · refine ⟨(h.control p).nextNs, ?_⟩
      exact (setPeer_id rfl).symm
  exact { hloop with }

/-- Addresses and states stay. -/
theorem Resends.addr {h h' : Handle W N} (hr : Resends p h h') (q : Fin N) :
    (h'.peers q).addr = (h.peers q).addr ∧ (h'.peers q).state = (h.peers q).state := by
  by_cases hq : q = p
  · subst hq
    obtain ⟨c, hx⟩ := hr.peer
    rw [hx]
    exact ⟨rfl, rfl⟩
  · rw [hr.other q hq]
    exact ⟨rfl, rfl⟩

/-! ## Frames -/

/-- The handle when a frame of the peer is looked at. -/
def heardFrom (h : Handle W N) (p : Fin N) (data : List Byte) : Handle W N :=
  noteReceived (h.emit (.frameIn data)) p

/-! ## Connection state -/

/-- The peer while a connection is opened. -/
theorem switchToConnectedState_peer (h : Handle W N) (hs : (h.peers p).state ≠ .connected) :
    (switchToConnectedState h p).peers p =
      { (h.peers p).resetCounters with
        state := .connected
        lastReceivedFrameTs := h.millis
        lastSentFrameTs := h.millis
        canAcceptIFrames := true } := by
  unfold switchToConnectedState
  rw [if_pos hs]
  simp only [Handle.setPeer, Handle.setEvents, Handle.emit, Function.update_self]

/-- The peer while a connection is closed. -/
theorem switchToDisconnectedState_peer (h : Handle W N) (hs : (h.peers p).state ≠ .disconnected) :
    (switchToDisconnectedState h p).peers p =
      { (h.peers p).resetCounters with state := .disconnected, canAcceptIFrames := false } := by
  unfold switchToDisconnectedState
  rw [if_pos hs]
  simp only [Handle.setPeer, Handle.emit, Function.update_self]

/-- What opening or closing a connection leaves alone, and the queue it flushes. -/
structure Switches (p : Fin N) (connected : Bool) (h h' : Handle W N) : Prop where
  settings : h'.settings = h.settings
  sQueue : h'.sQueue = h.sQueue
  nextPeer : h'.nextPeer = h.nextPeer
  hdlc : h'.hdlc = h.hdlc
  millis : h'.millis = h.millis
  txSending : h'.events.txSending = h.events.txSending
  hasMarker : h'.events.hasMarker = h.events.hasMarker
  other : ∀ q, q ≠ p → h'.peers q = h.peers q
  addr : (h'.peers p).addr = (h.peers p).addr
  control : h'.control p = IQueueControl.reset
  iQueue : h'.iQueue = h.iQueue.resetFor (peerToAddressField h p)
  log : ∃ a, h'.log = h.log ++ [.connect p a connected]

theorem Switches.addr_eq {h h' : Handle W N} {connected : Bool} (hw : Switches p connected h h')
    (q : Fin N) : (h'.peers q).addr = (h.peers q).addr := by
  by_cases hq : q = p
  · subst hq
    exact hw.addr
  · rw [hw.other q hq]

theorem switchToConnectedState_switches (h : Handle W N) (hs : (h.peers p).state ≠ .connected) :
    Switches p true h (switchToConnectedState h p) := by
  have hp := switchToConnectedState_peer h hs
  have haddr : peerToAddressField
      (h.setPeer p fun x => { x.resetCounters with state := .connected }) p =
      peerToAddressField h p := by
    unfold peerToAddressField
    rw [setPeer_self]
    rfl
  have hiq : (switchToConnectedState h p).iQueue = h.iQueue.resetFor (peerToAddressField h p) := by
    rw [← haddr]
    unfold switchToConnectedState
    rw [if_pos hs]
    rfl
  refine ⟨?_, ?_, ?_, ?_, ?_, ?_, ?_, ?_, by rw [hp]; rfl, by unfold Handle.control; rw [hp]; rfl,
    hiq, ?_⟩
  all_goals
    unfold switchToConnectedState
    rw [if_pos hs]
  · rfl
  · rfl
  · rfl
  · rfl
  · rfl
  · rfl
  · rfl
  · intro q hq
    simp only [Handle.setPeer, Handle.setEvents, Handle.emit, Function.update_of_ne hq]
  · exact ⟨_, rfl⟩

theorem switchToDisconnectedState_switches (h : Handle W N)
    (hs : (h.peers p).state ≠ .disconnected) :
    Switches p false h (switchToDisconnectedState h p) := by
  have hp := switchToDisconnectedState_peer h hs
  have haddr : peerToAddressField
      (h.setPeer p fun x => { x.resetCounters with state := .disconnected }) p =
      peerToAddressField h p := by
    unfold peerToAddressField
    rw [setPeer_self]
    rfl
  have hiq : (switchToDisconnectedState h p).iQueue =
      h.iQueue.resetFor (peerToAddressField h p) := by
    rw [← haddr]
    unfold switchToDisconnectedState
    rw [if_pos hs]
    rfl
  refine ⟨?_, ?_, ?_, ?_, ?_, ?_, ?_, ?_, by rw [hp]; rfl, by unfold Handle.control; rw [hp]; rfl,
    hiq, ?_⟩
  all_goals
    unfold switchToDisconnectedState
    rw [if_pos hs]
  · rfl
  · rfl
  · rfl
  · rfl
  · rfl
  · rfl
  · rfl
  · intro q hq
    simp only [Handle.setPeer, Handle.emit, Function.update_of_ne hq]
  · exact ⟨_, rfl⟩

end TinyProto.Fd
