import TinyProto.Fd.Sending

/-!
# What handling can do

The outcomes of `on_frame_read` for a peer (`Handled`) and of the timeout check (`Checked`),
each with the conditions it comes under.  Proofs about the handlers go by cases on these.
-/

set_option linter.unusedSectionVars false

namespace TinyProto.Fd

open Hdlc

variable {W N : Nat} [NeZero W] [NeZero N] {h h₁ : Handle W N} {p : Fin N}

/-! ## What confirming and resending touch -/

/-- Writes to the I-frames, a flag, the history and three fields of a peer. -/
def Handle.putConfirmed (h : Handle W N) (p : Fin N) (q : Queue W) (free : Bool)
    (log : List (Event N))
    (c : Seq) (r : Nat) (b : Bool) : Handle W N :=
  ({ h with
      iQueue := q
      events := { h.events with queueHasFreeSlots := free }
      log := log } : Handle W N).setPeer p fun x =>
    { x with
      iQueueControl := { x.iQueueControl with confirmNs := c }
      retries := r
      canAcceptIFrames := b }

/-- Writes to the service queue, a flag and `next_ns`. -/
def Handle.putRewound (h : Handle W N) (p : Fin N) (q : Queue 4) (b : Bool) (c : Seq) :
    Handle W N :=
  ({ h with
      sQueue := q
      events := { h.events with txDataAvailable := b } } : Handle W N).setControl p fun x =>
    { x with nextNs := c }

theorem onFrameConfirmed_form (h : Handle W N) (p : Fin N) (nr : Seq) :
    ∃ q free log r, onFrameConfirmed h p nr =
      h.putConfirmed p q free log (h.control p).confirmNs r (h.peers p).canAcceptIFrames := by
  have hform : ∀ q free log r, ∃ q' free' log' r',
      ({ h with
          iQueue := q
          events := { h.events with queueHasFreeSlots := free }
          log := log } : Handle W N).setPeer p (fun x => { x with retries := r }) =
        h.putConfirmed p q' free' log' (h.control p).confirmNs r' (h.peers p).canAcceptIFrames :=
    fun q free log r => ⟨q, free, log, r, rfl⟩
  unfold onFrameConfirmed
  split
  · dsimp only
    split
    · exact hform _ true _ _
    · exact hform _ h.events.queueHasFreeSlots _ _
  · exact hform h.iQueue h.events.queueHasFreeSlots h.log _

theorem putConfirmed_putConfirmed (h : Handle W N) (p : Fin N) {q q' : Queue W}
    {free free' b b' : Bool}
    {log log' : List (Event N)} {c c' : Seq} {r r' : Nat} :
    (h.putConfirmed p q free log c r b).putConfirmed p q' free' log' c' r' b' =
      h.putConfirmed p q' free' log' c' r' b' := by
  unfold Handle.putConfirmed Handle.setPeer
  simp only [Function.update_self, Function.update_idem]

theorem confirmOne_form (h : Handle W N) (p : Fin N) :
    ∃ q free log r, confirmOne h p = h.putConfirmed p q free log ((h.control p).confirmNs + 1) r
      (h.peers p).canAcceptIFrames := by
  obtain ⟨q, free, log, r, he⟩ := onFrameConfirmed_form h p (h.control p).confirmNs
  refine ⟨q, free, log, r, ?_⟩
  unfold confirmOne
  rw [he]
  unfold Handle.setControl Handle.putConfirmed
  rw [setPeer_setPeer]
  rfl

theorem confirmSentFrames_form (h : Handle W N) (p : Fin N) (nr : Seq) :
    ∃ q free log c r b, confirmSentFrames h p nr = h.putConfirmed p q free log c r b := by
  have hloop : ∃ q free log c r b, confirmLoop 8 h p nr = h.putConfirmed p q free log c r b := by
    refine confirmLoop_rule
      (P := fun k => ∃ q free log c r b, k = h.putConfirmed p q free log c r b)
      ?_ 8 h ?_
    · rintro k ⟨q, free, log, c, r, b, rfl⟩ - -
      obtain ⟨q', free', log', r', he⟩ := confirmOne_form (h.putConfirmed p q free log c r b) p
      rw [he, putConfirmed_putConfirmed]
      exact ⟨_, _, _, _, _, _, rfl⟩
    · refine ⟨h.iQueue, h.events.queueHasFreeSlots, h.log, (h.control p).confirmNs,
        (h.peers p).retries, (h.peers p).canAcceptIFrames, ?_⟩
      exact (setPeer_id rfl).symm
  obtain ⟨q, free, log, c, r, b, hk⟩ := hloop
  unfold confirmSentFrames
  dsimp only
  rw [hk]
  split
  · refine ⟨q, free, log, c, r, true, ?_⟩
    unfold Handle.putConfirmed
    rw [setPeer_setPeer]
    rfl
  · exact ⟨q, free, log, c, r, b, rfl⟩

theorem resendAllUnconfirmedFrames_form (h : Handle W N) (p : Fin N) (control : Byte) (nr : Seq) :
    ∃ q c, resendAllUnconfirmedFrames h p control nr = h.putRewound p q true c := by
  have hloop : ∃ q b c, resendLoop 8 h p control nr = h.putRewound p q b c := by
    refine resendLoop_rule (P := fun k => ∃ c, k = h.setControl p fun x => { x with nextNs := c })
      (Q := fun k => ∃ q b c, k = h.putRewound p q b c) ?_ ?_ ?_ 8 h ?_ ?_
    · rintro k ⟨c, rfl⟩ - -
      refine ⟨c - 1, ?_⟩
      unfold moveToPreviousNs Handle.setControl
      rw [setPeer_setPeer]
      rfl
    · rintro k ⟨c, rfl⟩ -
      exact ⟨h.sQueue, h.events.txDataAvailable, c, rfl⟩
    · rintro k ⟨c, rfl⟩ - -
      obtain ⟨q, b, he⟩ := putUSFrame_eq (h.setControl p fun x => { x with nextNs := c }) .uFrame
        (peerToAddressField (h.setControl p fun x => { x with nextNs := c }) p ||| crBit)
        (uControl .frmr)
        (frmrData control ((h.setControl p fun x => { x with nextNs := c }).control p))
      rw [he]
      exact ⟨q, b, c, rfl⟩
    · exact ⟨(h.control p).nextNs, (setPeer_id rfl).symm⟩
    · omega
  obtain ⟨q, b, c, he⟩ := hloop
  unfold resendAllUnconfirmedFrames
  rw [he]
  exact ⟨q, c, rfl⟩

/-! ## What opening and closing touch -/

/-- The queue without the I-frames of the peer. -/
abbrev flushed (h : Handle W N) (p : Fin N) : Queue W := h.iQueue.resetFor (peerToAddressField h p)

theorem switchToConnectedState_form (hs : (h.peers p).state ≠ .connected) :
    ∃ log, switchToConnectedState h p =
      ({ h with
          iQueue := flushed h p
          events := { h.events with
            txDataAvailable := true
            queueHasFreeSlots := h.events.queueHasFreeSlots || (flushed h p).hasFreeSlots }
          log := log } : Handle W N).setPeer p fun x =>
        { x.resetCounters with
          state := .connected
          lastReceivedFrameTs := h.millis
          lastSentFrameTs := h.millis
          canAcceptIFrames := true } := by
  have hfield : peerToAddressField
      (h.setPeer p fun x => { x.resetCounters with state := .connected }) p =
      peerToAddressField h p := by
    unfold peerToAddressField
    rw [setPeer_self]
    rfl
  refine ⟨(switchToConnectedState h p).log, ?_⟩
  unfold switchToConnectedState flushed
  rw [if_pos hs]
  dsimp only
  rw [hfield]
  unfold Handle.setPeer Handle.setEvents Handle.emit
  simp only [Function.update_self, Function.update_idem]

theorem switchToDisconnectedState_form (hs : (h.peers p).state ≠ .disconnected) :
    ∃ log, switchToDisconnectedState h p =
      ({ h with iQueue := flushed h p, log := log } : Handle W N).setPeer p fun x =>
        { x.resetCounters with state := .disconnected, canAcceptIFrames := false } := by
  have hfield : peerToAddressField
      (h.setPeer p fun x => { x.resetCounters with state := .disconnected }) p =
      peerToAddressField h p := by
    unfold peerToAddressField
    rw [setPeer_self]
    rfl
  refine ⟨(switchToDisconnectedState h p).log, ?_⟩
  unfold switchToDisconnectedState flushed
  rw [if_pos hs]
  dsimp only
  rw [hfield]
  unfold Handle.setPeer Handle.emit
  simp only [Function.update_self, Function.update_idem]

theorem switchToConnectedState_of (hs : (h.peers p).state = .connected) :
    switchToConnectedState h p = h := by
  unfold switchToConnectedState
  rw [if_neg (not_not.mpr hs)]

theorem switchToDisconnectedState_of (hs : (h.peers p).state = .disconnected) :
    switchToDisconnectedState h p = h := by
  unfold switchToDisconnectedState
  rw [if_neg (not_not.mpr hs)]

/-! ## Frames -/

/-- The frame was expected, and the next one is. -/
def advance (h : Handle W N) (p : Fin N) : Handle W N :=
  (h.setControl p fun c => { c with nextNr := c.nextNr + 1 }).setPeer p fun x =>
    { x with sentReject := false }

/-- The frame opens a connection. -/
def Opens (h : Handle W N) (p : Fin N) (control : Byte) : Prop :=
  isUFrame control = true ∧
    (uTypeOf control = UType.sabm.bits ∨ uTypeOf control = UType.snrm.bits ∨
      uTypeOf control = UType.ua.bits ∧ (h.peers p).state = .connecting)

/-- The frame leaves the peer disconnected. -/
def Closes (h : Handle W N) (p : Fin N) (control : Byte) : Prop :=
  isUFrame control = true ∧ (h.peers p).state ≠ .disconnected ∧
    (uTypeOf control = UType.disc.bits ∨ uTypeOf control = UType.dm.bits ∨
      uTypeOf control = UType.ua.bits ∧ (h.peers p).state = .disconnecting)

/-- The frame is an FRMR for a peer that is not disconnected. -/
def Rejects (h : Handle W N) (p : Fin N) (control : Byte) : Prop :=
  isUFrame control = true ∧ (h.peers p).state ≠ .disconnected ∧
    uTypeOf control = UType.frmr.bits

/-- The frame is an RSET for a peer that is not disconnected. -/
def Resets (h : Handle W N) (p : Fin N) (control : Byte) : Prop :=
  isUFrame control = true ∧ (h.peers p).state ≠ .disconnected ∧
    uTypeOf control = UType.rset.bits

instance (control : Byte) : Decidable (Opens h p control) := inferInstanceAs (Decidable (_ ∧ _))

instance (control : Byte) : Decidable (Closes h p control) := inferInstanceAs (Decidable (_ ∧ _))

instance (control : Byte) : Decidable (Rejects h p control) := inferInstanceAs (Decidable (_ ∧ _))

instance (control : Byte) : Decidable (Resets h p control) := inferInstanceAs (Decidable (_ ∧ _))

/-- What a frame of the peer leaves. -/
inductive Handled (h : Handle W N) (p : Fin N) (control : Byte) : Handle W N → Prop where
  | ignored (hu : isUFrame control = true) : Handled h p control h
  | passed (hu : isUFrame control = true) (payload : List Byte) :
      Handled h p control (h.emit (.readUi p (callbackAddress h p) payload))
  | refused (hl : ¬Linked h p) : Handled h p control (putUFrame h p 0 .dm)
  | opened {k : Handle W N} (ho : Opens h p control) (hk : k = h ∨ k = putUFrame h p 0 .ua) :
      Handled h p control (reconnect k p)
  | closed {k : Handle W N} (hc : Closes h p control) (hk : k = h ∨ k = putUFrame h p 0 .ua) :
      Handled h p control (switchToDisconnectedState k p)
  | rejected (hr : Rejects h p control) :
      Handled h p control ((putUFrame (switchToDisconnectedState h p) p crBit
        (connectType h)).setPeer p fun x => { x with state := .connecting })
  | reset (hr : Resets h p control) : Handled h p control (onReset h p)
  | expected (hl : Linked h p) (hu : isUFrame control = false) (payload : List Byte) :
      Handled h p control
        (deliver (confirmSentFrames (advance h p) p (nrOf control)) p payload)
  /-- An I-frame out of order, or an RNR. -/
  | confirmed {k : Handle W N} (hl : Linked h p) (hu : isUFrame control = false)
      (hk : k = h ∨ k = putSFrame (h.setPeer p fun x =>
        { x with sentReject := true }) p crBit .rej 0) :
      Handled h p control (confirmSentFrames k p (nrOf control))
  | answered (hl : Linked h p) (hu : isUFrame control = false) :
      Handled h p control
        (putSFrame (confirmSentFrames h p (nrOf control)) p 0 .rr (control &&& pBit))
  /-- REJ. -/
  | rewound (hl : Linked h p) (hu : isUFrame control = false) :
      Handled h p control
        (resendAllUnconfirmedFrames (confirmSentFrames h p (nrOf control)) p control (nrOf control))
  /-- SREJ. -/
  | requested (hl : Linked h p) (hu : isUFrame control = false) :
      Handled h p control
        (((confirmSentFrames h p (nrOf control)).setPeer p fun x =>
          { x with srejReqMask := x.srejReqMask ||| 1#8 <<< (nrOf control).toNat }).setEvents
            fun e =>
          { e with txDataAvailable := true })

theorem onConnectRequest_reconnect (h : Handle W N) (p : Fin N) :
    onConnectRequest h p = reconnect (putUFrame h p 0 .ua) p := by
  unfold onConnectRequest reconnect
  dsimp only
  have hiff : ((putUFrame h p 0 .ua).peers p).state ≠ .disconnected ∧
      ((putUFrame h p 0 .ua).peers p).state ≠ .connecting ↔ Linked (putUFrame h p 0 .ua) p := by
    unfold Linked
    cases ((putUFrame h p 0 .ua).peers p).state <;> simp
  simp only [hiff]

theorem onUFrameRead_handled {control : Byte} (hu : isUFrame control = true) (address : Byte)
    (payload : List Byte) : Handled h p control (onUFrameRead h p address control payload) := by
  unfold onUFrameRead
  dsimp only
  split
  · next hd =>
    split
    · exact .refused (not_linked_iff.mpr (.inl hd.1))
    · exact .ignored hu
  · next hign =>
    -- Behind this point only SABM, SNRM and UI come to a disconnected peer.
    have hopen : ∀ {t : UType}, t ≠ .sabm → t ≠ .snrm → t ≠ .ui → uTypeOf control = t.bits →
        (h.peers p).state ≠ .disconnected := by
      intro t h1 h2 h3 ht hs
      refine hign ⟨hs, ?_⟩
      rw [ht]
      cases t <;> first | exact absurd rfl h1 | exact absurd rfl h2 | exact absurd rfl h3 | decide
    split
    · next ht =>
      rw [onConnectRequest_reconnect]
      refine .opened ⟨hu, ?_⟩ (.inr rfl)
      rcases ht with ht | ht
      · exact .inl ht
      · exact .inr (.inl ht)
    · split
      · next ht =>
        have hs := hopen UType.noConfusion UType.noConfusion UType.noConfusion ht
        exact .closed ⟨hu, hs, .inl ht⟩ (.inr rfl)
      · split
        · next ht =>
          exact .reset ⟨hu, hopen UType.noConfusion UType.noConfusion UType.noConfusion ht, ht⟩
        · split
          · next ht =>
            have hs := hopen UType.noConfusion UType.noConfusion UType.noConfusion ht
            have hr := Handled.rejected (h := h) (p := p) ⟨hu, hs, ht⟩
            unfold onFrameReject
            rw [if_pos hs]
            dsimp only
            have hmode : connectType (switchToDisconnectedState h p) = connectType h := by
              unfold connectType
              rw [(switchToDisconnectedState_switches h hs).settings]
            rw [hmode]
            exact hr
          · split
            · next ht =>
              unfold onAcknowledge
              split
              · next hs =>
                have hk : reconnect h p = switchToConnectedState h p := by
                  unfold reconnect
                  rw [if_neg (not_linked_iff.mpr (.inr hs))]
                rw [← hk]
                exact .opened ⟨hu, .inr (.inr ⟨ht, hs⟩)⟩ (.inl rfl)
              · split
                · next hs =>
                  refine .closed ⟨hu, ?_, .inr (.inr ⟨ht, hs⟩)⟩ (.inl rfl)
                  rw [hs]
                  exact PeerState.noConfusion
                · exact .ignored hu
            · split
              · next ht =>
                have hs := hopen UType.noConfusion UType.noConfusion UType.noConfusion ht
                exact .closed ⟨hu, hs, .inr (.inl ht)⟩ (.inl rfl)
              · split
                · exact .passed hu payload
                · exact .ignored hu

theorem onIFrameRead_handled {control : Byte} (hl : Linked h p) (hu : isUFrame control = false)
    (payload : List Byte) : Handled h p control (onIFrameRead h p control payload) := by
  unfold onIFrameRead checkReceivedFrame
  by_cases hns : nsOf control = (h.control p).nextNr
  · rw [if_pos hns]
    exact .expected hl hu payload
  · rw [if_neg hns]
    split
    · next hrej =>
      split at hrej
      · cases hrej
        exact .confirmed hl hu (.inr rfl)
      · cases hrej
        exact .confirmed hl hu (.inl rfl)

theorem onSFrameRead_handled {control : Byte} (hl : Linked h p) (hu : isUFrame control = false)
    (address : Byte) : Handled h p control (onSFrameRead h p address control) := by
  unfold onSFrameRead
  dsimp only
  split
  · exact .rewound hl hu
  · split
    · split
      · exact .answered hl hu
      · exact .confirmed hl hu (.inl rfl)
    · split
      · exact .confirmed hl hu (.inl rfl)
      · exact .requested hl hu

/-- Every frame of a peer has one of these outcomes. -/
theorem onPeerFrame_handled (h : Handle W N) (p : Fin N) (address control : Byte)
    (payload : List Byte) : Handled h p control (onPeerFrame h p address control payload) := by
  unfold onPeerFrame
  split
  · next hu => exact onUFrameRead_handled hu address payload
  · next hu =>
    have hn := eq_false_of_ne_true hu
    split
    · next hs =>
      refine .refused fun hl => ?_
      rcases hl with hl | hl
      · exact hs.1 hl
      · exact hs.2 hl
    · next hs =>
      have hl : Linked h p := by
        rw [not_and_or, not_not, not_not] at hs
        exact hs
      split
      · exact onIFrameRead_handled hl hn payload
      · exact onSFrameRead_handled hl hn address

theorem heardFrom_peer (h : Handle W N) (p : Fin N) (data : List Byte) :
    (heardFrom h p data).peers p =
      { h.peers p with lastReceivedFrameTs := h.millis, kaConfirmed := true } := by
  unfold heardFrom noteReceived
  rw [setPeer_self]
  rfl

/-- The peer a frame is from, and its control field. -/
def sender (h : Handle W N) (data : List Byte) : Option (Fin N × Byte) :=
  match data with
  | address :: control :: _ => (addressFieldToPeer h address).map fun p => (p, control)
  | _ => none

/-- A frame of a peer goes to the branch for its kind. -/
theorem onFrameRead_of_sender {data : List Byte} {control : Byte}
    (hs : sender h data = some (p, control)) :
    ∃ address payload, data = address :: control :: payload ∧ onFrameRead h data =
      captureMarker (onPeerFrame (heardFrom h p data) p address control payload) control := by
  unfold sender at hs
  split at hs
  · next address c payload =>
    obtain ⟨q, hq, he⟩ := Option.map_eq_some_iff.mp hs
    cases he
    refine ⟨address, payload, rfl, ?_⟩
    have hfound : addressFieldToPeer (h.emit (.frameIn (address :: control :: payload))) address =
        some p := hq
    unfold onFrameRead
    dsimp only
    rw [hfound]
    rfl
  · cases hs

/-- What a frame leaves. -/
inductive Read (h : Handle W N) (data : List Byte) : Handle W N → Prop where
  | unknown {k : Handle W N} (hs : sender h data = none) (hk : k = h ∨ k = h.emit (.frameIn data)) :
      Read h data k
  | handled {p : Fin N} {control : Byte} {k : Handle W N} (hs : sender h data = some (p, control))
      (hk : Handled (heardFrom h p data) p control k) : Read h data (captureMarker k control)

/-- Every frame has one of these outcomes. -/
theorem onFrameRead_read (h : Handle W N) (data : List Byte) :
    Read h data (onFrameRead h data) := by
  unfold onFrameRead
  split
  · next address control payload =>
    dsimp only
    have hfound : addressFieldToPeer (h.emit (.frameIn (address :: control :: payload))) address =
        addressFieldToPeer h address := rfl
    rw [hfound]
    split
    · next hnone =>
      refine .unknown ?_ (.inr rfl)
      unfold sender
      dsimp only
      rw [hnone]
      rfl
    · next p hp =>
      refine .handled (p := p) ?_ (onPeerFrame_handled _ p address control payload)
      unfold sender
      dsimp only
      rw [hp]
      rfl
  · next hshort =>
    refine .unknown ?_ (.inl rfl)
    unfold sender
    split
    · next address control payload => exact absurd rfl (hshort address control payload)
    · rfl

theorem Addressed.live_sender (hw : Addressed h) {data : List Byte} {control : Byte}
    (hs : sender h data = some (p, control)) : Live h p := by
  unfold sender at hs
  split at hs
  · obtain ⟨q, hq, hqp⟩ := Option.map_eq_some_iff.mp hs
    rw [← (Prod.mk.inj hqp).1]
    exact hw.live_of_found hq
  · cases hs

theorem captureMarker_form (h : Handle W N) (control : Byte) :
    ∃ b, captureMarker h control = h.setEvents fun e => { e with hasMarker := b } := by
  unfold captureMarker
  split
  · exact ⟨true, rfl⟩
  · exact ⟨h.events.hasMarker, rfl⟩

/-! ## Timeouts -/

/-- All I-frames were sent, some were not confirmed in time. -/
def TimedOut (h : Handle W N) (p : Fin N) : Prop :=
  (h.control p).hasUnconfirmedFrames ∧ (h.control p).allFramesAreSent ∧
    h.elapsed (h.peers p).lastSentITs ≥ h.settings.retryTimeout

/-- Nothing was received from the peer for twice the keep alive timeout. -/
def Unheard (h : Handle W N) (p : Fin N) : Prop :=
  h.elapsed (h.peers p).lastReceivedFrameTs ≥ h.kaTimeout * 2

instance : Decidable (TimedOut h p) := inferInstanceAs (Decidable (_ ∧ _))

instance : Decidable (Unheard h p) := inferInstanceAs (Decidable (_ ≥ _))

/-- The check ends the connection of the peer. -/
def Expires (h : Handle W N) (p : Fin N) : Prop :=
  Linked h p ∧ (TimedOut h p ∧ (h.peers p).retries = 0 ∨
    ¬TimedOut h p ∧ Unheard h p ∧ (h.peers p).kaConfirmed = false)

instance : Decidable (Expires h p) := inferInstanceAs (Decidable (_ ∧ _))

/-- What a timeout check leaves. -/
inductive Checked (h : Handle W N) (p : Fin N) : Handle W N → Prop where
  | retried (hl : Linked h p) (ht : TimedOut h p) (hr : 0 < (h.peers p).retries) :
      Checked h p (resendAllUnconfirmedFrames
        (h.setPeer p fun x => { x with retries := x.retries - 1 }) p 0 (h.control p).confirmNs)
  | gaveUp (hl : Linked h p) (ht : TimedOut h p) (hr : (h.peers p).retries = 0) :
      Checked h p (switchToDisconnectedState h p)
  | lost (hl : Linked h p) (ht : ¬TimedOut h p) (hu : Unheard h p)
      (hk : (h.peers p).kaConfirmed = false) : Checked h p (switchToDisconnectedState h p)
  | disarmed (hl : Linked h p) (ht : ¬TimedOut h p) (hu : Unheard h p)
      (hk : (h.peers p).kaConfirmed = true) : Checked h p h
  | keptAlive (hl : Linked h p) (ht : ¬TimedOut h p) (hu : ¬Unheard h p) :
      Checked h p ((putSFrame (h.setPeer p fun x => { x with kaConfirmed := false }) p 0 .rr
        pBit).setPeer p fun x => { x with lastSentFrameTs := h.millis })
  | rested (hl : Linked h p) (ht : ¬TimedOut h p) (hu : ¬Unheard h p) : Checked h p h
  | requested (hl : ¬Linked h p)
      (he : h.elapsed (h.peers p).lastReceivedFrameTs ≥ h.settings.retryTimeout)
      (hp : h.isPrimaryStation = true) :
      Checked h p ((putUFrame h p crBit (connectType h)).setPeer p fun x =>
        { x with state := .connecting, lastReceivedFrameTs := h.millis })
  | waited (hl : ¬Linked h p) : Checked h p h

theorem connectedCheckIdleTimeout_checked (hl : Linked h p) :
    Checked h p (connectedCheckIdleTimeout h p) := by
  unfold connectedCheckIdleTimeout
  dsimp only
  split
  · next ht =>
    split
    · next hr => exact .retried hl ht hr
    · next hr => exact .gaveUp hl ht (by omega)
  · next ht =>
    split
    · next hu =>
      cases hk : (h.peers p).kaConfirmed with
      | false => exact .lost hl ht hu hk
      | true => exact .disarmed hl ht hu hk
    · next hu =>
      split
      · have hkept := Checked.keptAlive hl ht hu
        have hmillis : (putSFrame (h.setPeer p fun x => { x with kaConfirmed := false }) p 0 .rr
            pBit).millis = h.millis := putUSFrame_millis ..
        rw [hmillis]
        exact hkept
      · exact .rested hl ht hu

/-- Every check has one of these outcomes. -/
theorem checkIdleTimeout_checked (h : Handle W N) (p : Fin N) :
    Checked h p (checkIdleTimeout h p) := by
  unfold checkIdleTimeout
  split
  · next hl => exact connectedCheckIdleTimeout_checked hl
  · next hl =>
    unfold disconnectedCheckIdleTimeout
    split
    · next he =>
      have hreq := Checked.requested hl he.1 he.2
      have hmillis : (putUFrame h p crBit (connectType h)).millis = h.millis :=
        putUSFrame_millis ..
      dsimp only
      rw [hmillis]
      exact hreq
    · exact .waited hl

end TinyProto.Fd
