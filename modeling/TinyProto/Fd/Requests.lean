import TinyProto.Fd.Operations
import TinyProto.Fd.Outcomes

/-!
# Connection requests and their answers

A peer that is disconnected ignores UA.  The timeout check and FRMR move a peer to
`CONNECTING` together with the SNRM they queue.  Two SNRM go out for a disconnected peer all
the same: the one that only passes the marker, and one that waits while the connection is
closed.  A run without these two sends every SNRM for a peer that takes the answer
(`request_answered`).
-/

set_option linter.unusedSectionVars false

namespace TinyProto.Fd

open Hdlc Runs

variable {W N : Nat} [NeZero W] [NeZero N] {h h₁ h₂ : Handle W N} {p q : Fin N}

/-! ## Requests that wait -/

/-- The control field of a U-frame of this type, whatever P/F is. -/
def IsU (type : UType) (control : Byte) : Prop :=
  isUFrame control = true ∧ uTypeOf control = type.bits

instance isU_decidable (type : UType) (control : Byte) : Decidable (IsU type control) :=
  inferInstanceAs (Decidable (_ ∧ _))

theorem isU_poll (type : UType) (control : Byte) :
    IsU type (control ||| pBit) ↔ IsU type control := by
  have hbits : ∀ c : Byte, isUFrame (c ||| pBit) = isUFrame c ∧ uTypeOf
    (c ||| pBit) = uTypeOf c := by
    decide +kernel
  unfold IsU
  rw [(hbits control).1, (hbits control).2]

theorem isU_uControl {type type' : UType} (hu : IsU type (uControl type')) : type = type' := by
  revert hu
  cases type <;> cases type' <;> decide

/-- A connection request for the peer waits in this slot, and is not being sent. -/
def RequestWaits (h : Handle W N) (p : Fin N) (i : Fin 4) : Prop :=
  (h.sQueue.frames i).type ≠ .free ∧
    sameStation (peerToAddressField h p) (h.sQueue.frames i).address = true ∧
    IsU .snrm (h.sQueue.frames i).control ∧ h.hdlc.tx.originData ≠ some (.sSlot i)

instance requestWaits_decidable (i : Fin 4) : Decidable (RequestWaits h p i) :=
  inferInstanceAs (Decidable (_ ∧ _))

/-- UA moves the peer to `CONNECTED`, or finds it there. -/
def Listens (h : Handle W N) (p : Fin N) : Prop :=
  (h.peers p).state = .connecting ∨ (h.peers p).state = .connected

/-- The peer listens for the answers to the requests that wait. -/
def Receptive (h : Handle W N) (p : Fin N) : Prop := ∀ i, RequestWaits h p i → Listens h p

/-- No request is queued. -/
def Fewer (p : Fin N) (h h' : Handle W N) : Prop := ∀ i, RequestWaits h' p i → RequestWaits h p i

theorem Fewer.refl (p : Fin N) (h : Handle W N) : Fewer p h h := fun _ => id

theorem Fewer.trans (hf : Fewer p h h₁) (hf' : Fewer p h₁ h₂) : Fewer p h h₂ :=
  fun i hw => hf i (hf' i hw)

theorem Fewer.of_same (hs : h₁.sQueue.frames = h.sQueue.frames)
    (ho : h₁.hdlc.tx.originData = h.hdlc.tx.originData)
    (ha : (h₁.peers p).addr = (h.peers p).addr) :
    Fewer p h h₁ := by
  intro i hw
  unfold RequestWaits peerToAddressField at hw ⊢
  rwa [hs, ho, ha] at hw

theorem Fewer.setPeer (h : Handle W N) (p : Fin N) {f : Peer → Peer}
    (hf : (f (h.peers p)).addr = (h.peers p).addr) : Fewer p h (h.setPeer p f) :=
  .of_same rfl rfl (by rw [setPeer_self, hf])

theorem Fewer.putUSFrame (h : Handle W N) (p : Fin N) (type : QueueType) (address : Byte)
    {control : Byte} (hc : ¬IsU .snrm control) (payload : List Byte) :
    Fewer p h (putUSFrame h type address control payload) := by
  intro i hw
  have hcases := putUSFrame_cases h type address control payload
  obtain ⟨q, b, he⟩ := putUSFrame_eq h type address control payload
  rw [he] at hcases hw
  rcases hcases with hq | ⟨j, -, hq⟩
  · exact Fewer.of_same (h := h) (congrArg Queue.frames hq) rfl rfl i hw
  · obtain ⟨ht, hs, hu, ho⟩ := hw
    have hslot := congrArg (fun q : Queue 4 => q.frames i) hq
    dsimp only at hslot ht hs hu
    rw [hslot] at ht hs hu
    by_cases hij : i = j
    · rw [hij, Queue.setFrame_self] at hu
      exact absurd hu hc
    · rw [Queue.setFrame_ne _ hij] at ht hs hu
      exact ⟨ht, hs, hu, ho⟩

/-- An S-frame is no U-frame. -/
theorem isUFrame_sControl (type : SType) (nr : Seq) {poll : Byte} (hp : poll &&& 0x03 = 0) :
    isUFrame (sControl type nr ||| poll) = false := by
  unfold sControl
  revert poll nr
  cases type <;> decide +kernel

theorem Fewer.putSFrame (h : Handle W N) (p : Fin N) (cr : Byte) (type : SType) {poll : Byte}
    (hp : poll &&& 0x03 = 0) : Fewer p h (putSFrame h p cr type poll) := by
  refine .putUSFrame h p _ _ (fun hu => ?_) _
  exact Bool.noConfusion ((isUFrame_sControl type _ hp).symm.trans hu.1)

theorem Fewer.putUFrame (h : Handle W N) (p : Fin N) (cr : Byte) {type : UType}
    (ht : type ≠ .snrm) :
    Fewer p h (putUFrame h p cr type) :=
  .putUSFrame h p _ _ (fun hu => ht (isU_uControl hu).symm) _

theorem switchToDisconnectedState_fewer (h : Handle W N) (p : Fin N) :
    Fewer p h (switchToDisconnectedState h p) := by
  by_cases hs : (h.peers p).state = .disconnected
  · rw [switchToDisconnectedState_of hs]
    exact .refl p h
  · have hsw := switchToDisconnectedState_switches h hs
    exact .of_same (by rw [hsw.sQueue]) (by rw [hsw.hdlc]) hsw.addr

/-- No request is queued, and the state of the peer stays. -/
structure Undisturbed (p : Fin N) (h h' : Handle W N) : Prop where
  fewer : Fewer p h h'
  state : (h'.peers p).state = (h.peers p).state

theorem Undisturbed.refl (p : Fin N) (h : Handle W N) : Undisturbed p h h := ⟨.refl p h, rfl⟩

theorem Undisturbed.trans (hs : Undisturbed p h h₁) (hs' : Undisturbed p h₁ h₂) :
    Undisturbed p h h₂ :=
  ⟨hs.fewer.trans hs'.fewer, hs'.state.trans hs.state⟩

theorem Undisturbed.of_same (hs : h₁.sQueue.frames = h.sQueue.frames)
    (ho : h₁.hdlc.tx.originData = h.hdlc.tx.originData) (hp : h₁.peers p = h.peers p) :
    Undisturbed p h h₁ :=
  ⟨.of_same hs ho (by rw [hp]), by rw [hp]⟩

theorem Undisturbed.setPeer (h : Handle W N) (p : Fin N) {f : Peer → Peer}
    (ha : (f (h.peers p)).addr = (h.peers p).addr)
    (hs : (f (h.peers p)).state = (h.peers p).state) :
    Undisturbed p h (h.setPeer p f) :=
  ⟨.setPeer h p ha, by rw [setPeer_self, hs]⟩

theorem Undisturbed.putSFrame (h : Handle W N) (p : Fin N) (cr : Byte) (type : SType) {poll : Byte}
    (hp : poll &&& 0x03 = 0) : Undisturbed p h (putSFrame h p cr type poll) :=
  ⟨.putSFrame h p cr type hp, by unfold Fd.putSFrame; rw [putUSFrame_peers]⟩

theorem Undisturbed.putUFrame (h : Handle W N) (p : Fin N) (cr : Byte) {type : UType}
    (ht : type ≠ .snrm) :
    Undisturbed p h (putUFrame h p cr type) :=
  ⟨.putUFrame h p cr ht, by unfold Fd.putUFrame; rw [putUSFrame_peers]⟩

theorem confirmSentFrames_undisturbed (h : Handle W N) (p : Fin N) (nr : Seq) :
    Undisturbed p h (confirmSentFrames h p nr) := by
  obtain ⟨q, free, log, c, r, b, he⟩ := confirmSentFrames_form h p nr
  have hpeer : (confirmSentFrames h p nr).peers p = { h.peers p with
      iQueueControl := { (h.peers p).iQueueControl with confirmNs := c }
      retries := r
      canAcceptIFrames := b } := by
    rw [he]
    exact setPeer_self ..
  exact ⟨.of_same (by rw [he]; rfl) (by rw [he]; rfl) (by rw [hpeer]), by rw [hpeer]⟩

theorem resendAllUnconfirmedFrames_undisturbed (h : Handle W N) (p : Fin N) (control : Byte)
    (nr : Seq) :
    Undisturbed p h (resendAllUnconfirmedFrames h p control nr) := by
  have hr := resendAllUnconfirmedFrames_resends h p control nr
  refine ⟨?_, (hr.addr p).2⟩
  rcases hr.sQueue with hs | ⟨j, payload, -, hs⟩
  · exact .of_same (by rw [hs]) (by rw [hr.hdlc]) (hr.addr p).1
  · rintro i ⟨ht, hst, hu, ho⟩
    rw [hs] at ht hst hu
    by_cases hij : i = j
    · rw [hij, Queue.setFrame_self] at hu
      exact UType.noConfusion (isU_uControl hu)
    · rw [Queue.setFrame_ne _ hij] at ht hst hu
      unfold peerToAddressField at hst
      rw [(hr.addr p).1] at hst
      rw [hr.hdlc] at ho
      exact ⟨ht, hst, hu, ho⟩

/-! ## Work for the peer -/

/-- No request for the peer waits. -/
def Unasked (h : Handle W N) (p : Fin N) : Prop := ∀ i, ¬RequestWaits h p i

instance unasked_decidable : Decidable (Unasked h p) := inferInstanceAs (Decidable (∀ _, ¬_))

/-- The state stays, or no request waits that it would matter for. -/
theorem Receptive.fewer (hr : Receptive h p) (hf : Fewer p h h₁)
    (hs : (h₁.peers p).state = (h.peers p).state ∨ Unasked h p) : Receptive h₁ p := by
  intro i hw
  rcases hs with hs | hn
  · unfold Listens
    rw [hs]
    exact hr i (hf i hw)
  · exact absurd (hf i hw) (hn i)

theorem Listens.receptive (hl : Listens h p) : Receptive h p := fun _ _ => hl

theorem switchToConnectedState_connected (h : Handle W N) (p : Fin N) :
    ((switchToConnectedState h p).peers p).state = .connected := by
  by_cases hs : (h.peers p).state = .connected
  · rw [switchToConnectedState_of hs]
    exact hs
  · obtain ⟨log, he⟩ := switchToConnectedState_form hs
    rw [he, setPeer_self]

theorem Handled.receptive {control : Byte} (hh : Handled h p control h₁)
    (hg : Closes h p control → Unasked h p) (hr : Receptive h p) : Receptive h₁ p := by
  have hua : ∀ {k : Handle W N}, k = h ∨ k = putUFrame h p 0 .ua → Fewer p h k := by
    rintro k (rfl | rfl)
    · exact .refl p k
    · exact .putUFrame h p 0 UType.noConfusion
  have hstay : ∀ {k : Handle W N}, Undisturbed p h k → Receptive k p :=
    fun hs => hr.fewer hs.fewer (.inl hs.state)
  have hzero : (0 : Byte) &&& 0x03 = 0 := by decide
  cases hh with
  | ignored => exact hr
  | passed => exact hstay (.of_same rfl rfl rfl)
  | refused => exact hstay (.putUFrame h p 0 UType.noConfusion)
  | opened => exact Listens.receptive (.inr (switchToConnectedState_connected _ p))
  | closed hc hk =>
    exact hr.fewer ((hua hk).trans (switchToDisconnectedState_fewer _ p)) (.inr (hg hc))
  | rejected => exact Listens.receptive (.inl (by rw [setPeer_self]))
  | reset =>
    have hclear : Undisturbed p h (h.setPeer p Peer.resetCounters) := .setPeer h p rfl rfl
    exact hstay (hclear.trans (.putUFrame _ p 0 UType.noConfusion))
  | expected _ _ payload =>
    have hadv : Undisturbed p h (advance h p) :=
      (Undisturbed.setPeer h p rfl rfl).trans (.setPeer _ p rfl rfl)
    refine hstay ((hadv.trans (confirmSentFrames_undisturbed _ p (nrOf control))).trans ?_)
    have hread : ∀ k : Handle W N, Undisturbed p k
      (k.emit (.read p (callbackAddress k p) payload)) :=
      fun k => .of_same rfl rfl rfl
    unfold deliver
    dsimp only
    split
    · exact (hread _).trans (.putSFrame _ p 0 .rr hzero)
    · exact hread _
  | @confirmed k _ _ hk =>
    refine hstay (Undisturbed.trans ?_ (confirmSentFrames_undisturbed k p _))
    rcases hk with rfl | rfl
    · exact .refl p _
    · exact (Undisturbed.setPeer h p rfl rfl).trans (.putSFrame _ p crBit .rej hzero)
  | answered =>
    have hpoll : ∀ c : Byte, c &&& pBit &&& 0x03 = 0 := by
      decide +kernel
    exact hstay ((confirmSentFrames_undisturbed h p _).trans (.putSFrame _ p 0 .rr (hpoll control)))
  | rewound =>
    exact hstay ((confirmSentFrames_undisturbed h p _).trans
      (resendAllUnconfirmedFrames_undisturbed _ p _ _))
  | requested =>
    have hmask : Undisturbed p h ((confirmSentFrames h p (nrOf control)).setPeer p fun x =>
        { x with srejReqMask := x.srejReqMask ||| 1#8 <<< (nrOf control).toNat }) :=
      (confirmSentFrames_undisturbed h p (nrOf control)).trans (.setPeer _ p rfl rfl)
    exact hstay (hmask.trans (.of_same rfl rfl rfl))

theorem Checked.receptive (hc : Checked h p h₁) (hg : Expires h p → Unasked h p)
    (hr : Receptive h p) : Receptive h₁ p := by
  have hstay : ∀ {k : Handle W N}, Undisturbed p h k → Receptive k p :=
    fun hs => hr.fewer hs.fewer (.inl hs.state)
  have hclose : Expires h p → Receptive (switchToDisconnectedState h p) p :=
    fun he => hr.fewer (switchToDisconnectedState_fewer h p) (.inr (hg he))
  cases hc with
  | retried =>
    exact hstay ((Undisturbed.setPeer h p rfl rfl).trans
      (resendAllUnconfirmedFrames_undisturbed _ p 0 _))
  | gaveUp hl hto hn => exact hclose ⟨hl, .inl ⟨hto, hn⟩⟩
  | lost hl hto hu hk => exact hclose ⟨hl, .inr ⟨hto, hu, hk⟩⟩
  | disarmed => exact hr
  | keptAlive =>
    have hpoll : pBit &&& 0x03 = 0 := by decide
    have hput : Undisturbed p h
      (putSFrame (h.setPeer p fun x => { x with kaConfirmed := false }) p 0 .rr pBit) :=
      (Undisturbed.setPeer h p rfl rfl).trans (.putSFrame _ p 0 .rr hpoll)
    exact hstay (hput.trans (.setPeer _ p rfl rfl))
  | rested => exact hr
  | requested => exact Listens.receptive (.inl (by rw [setPeer_self]))
  | waited => exact hr

/-! ## The other peers -/

/-- Every request that waits belongs to a registered peer that listens for the answer. -/
structure Sincere (h : Handle W N) : Prop where
  numbered : ∀ i, (h.iQueue.frames i).type ≠ .free → isIFrame (h.iQueue.frames i).control = true
  owned : ∀ i, (h.sQueue.frames i).type ≠ .free → IsU .snrm (h.sQueue.frames i).control →
    ∃ q, Live h q ∧ sameStation (peerToAddressField h q) (h.sQueue.frames i).address = true
  receptive : ∀ q, Live h q → Receptive h q

/-- Work for a peer leaves the requests for the others. -/
theorem WorksFor.receptive (hw : WorksFor p h h₁) (hp : Live h p) (hq : Live h q) (hne : q ≠ p)
    (hr : Receptive h q) : Receptive h₁ q := by
  have hpeer := hw.other q hne
  have hfield : peerToAddressField h₁ q = peerToAddressField h q := by
    unfold peerToAddressField
    rw [hpeer]
  rintro i ⟨ht, hst, hu, ho⟩
  rw [hfield] at hst
  rcases hw.sQueue i with hsame | ⟨-, -, cr, hcr, haddr⟩
  · rw [hsame] at ht hst hu
    rw [hw.hdlc] at ho
    unfold Listens
    rw [hpeer]
    exact hr i ⟨ht, hst, hu, ho⟩
  · rw [haddr, sameStation_comm] at hst
    have hsame := sameStation_trans (sameStation_flagged h p hcr) hst
    exact absurd (hp.eq_of_sameStation hq hsame).symm hne

theorem live_congr (hset : h₁.settings = h.settings)
    (haddr : ∀ q, (h₁.peers q).addr = (h.peers q).addr) : Live h₁ p ↔ Live h p := by
  unfold Live
  rw [addressFieldToPeer_eq, addressFieldToPeer_eq]
  simp only [haddr, hset, Multi.congr hset]

theorem Sincere.works (hs : Sincere h) (hp : Live h p) (hw : WorksFor p h h₁)
    (hr : Receptive h p → Receptive h₁ p) : Sincere h₁ := by
  have hlive : ∀ q, Live h₁ q ↔ Live h q := fun q => live_congr hw.settings hw.addr_eq
  have hfield : ∀ q, peerToAddressField h₁ q = peerToAddressField h q := by
    intro q
    unfold peerToAddressField
    rw [hw.addr_eq]
  refine ⟨fun i hi => ?_, fun i hi hu => ?_, fun q hq => ?_⟩
  · rcases hw.iQueue i with hsame | ⟨-, hfree⟩
    · rw [hsame] at hi ⊢
      exact hs.numbered i hi
    · exact absurd (congrArg Slot.type hfree) hi
  · rcases hw.sQueue i with hsame | ⟨-, -, cr, hcr, haddr⟩
    · rw [hsame] at hi hu ⊢
      obtain ⟨q, hq, hst⟩ := hs.owned i hi hu
      exact ⟨q, (hlive q).mpr hq, by rw [hfield, hst]⟩
    · exact ⟨p, (hlive p).mpr hp, by rw [hfield, haddr, sameStation_flagged h p hcr]⟩
  · have hq' := (hlive q).mp hq
    by_cases hqp : q = p
    · rw [hqp]
      exact hr (hs.receptive p hp)
    · exact hw.receptive hp hq' hqp (hs.receptive q hq')

/-- Nothing that the requests depend on changes. -/
theorem Sincere.of_same (hs : Sincere h) (hset : h₁.settings = h.settings)
    (hsq : h₁.sQueue.frames = h.sQueue.frames) (ho : h₁.hdlc.tx.originData = h.hdlc.tx.originData)
    (hp : ∀ q, (h₁.peers q).addr = (h.peers q).addr ∧ (h₁.peers q).state = (h.peers q).state)
    (hi : ∀ i, (h₁.iQueue.frames i).type ≠ .free → isIFrame (h₁.iQueue.frames i).control = true) :
    Sincere h₁ := by
  have hlive : ∀ q, Live h₁ q ↔ Live h q := fun q => live_congr hset fun q => (hp q).1
  have hfield : ∀ q, peerToAddressField h₁ q = peerToAddressField h q := by
    intro q
    unfold peerToAddressField
    rw [(hp q).1]
  refine ⟨hi, fun i hused hu => ?_, fun q hq => ?_⟩
  · rw [hsq] at hused hu ⊢
    obtain ⟨q, hq, hst⟩ := hs.owned i hused hu
    exact ⟨q, (hlive q).mpr hq, by rw [hfield, hst]⟩
  · exact (hs.receptive q ((hlive q).mp hq)).fewer (.of_same hsq ho (hp q).1) (.inl (hp q).2)

theorem Sincere.frame (hs : Sincere h) (ho : Ordered h) {data : List Byte}
    (hg : ∀ m ∈ sender h data, Closes h m.1 m.2 → Unasked h m.1) :
    Sincere (onFrameRead h data) := by
  unfold onFrameRead
  split
  · next address control payload =>
    dsimp only
    have hfound : addressFieldToPeer (h.emit (.frameIn (address :: control :: payload))) address =
        addressFieldToPeer h address := rfl
    rw [hfound]
    split
    · exact hs.of_same rfl rfl rfl (fun _ => ⟨rfl, rfl⟩) hs.numbered
    · next p hp =>
      have hp' := ho.addressed.live_of_found hp
      have hlog : WorksFor p h (h.emit (.frameIn (address :: control :: payload))) := .emit h p rfl
      have hsame : Undisturbed p h (h.emit (.frameIn (address :: control :: payload))) :=
        .of_same rfl rfl rfl
      have hnote : WorksFor p h (heardFrom h p (address :: control :: payload)) :=
        hlog.trans (.setPeer _ p (f := fun x =>
          { x with lastReceivedFrameTs := h.millis, kaConfirmed := true }) rfl)
      have hheard : Undisturbed p h (heardFrom h p (address :: control :: payload)) :=
        hsame.trans (.setPeer _ p (f := fun x =>
          { x with lastReceivedFrameTs := h.millis, kaConfirmed := true }) rfl rfl)
      have hsend : sender h (address :: control :: payload) = some (p, control) := by
        unfold sender
        dsimp only
        rw [hp]
        rfl
      have hclose : Closes (heardFrom h p (address :: control :: payload)) p control →
          Unasked (heardFrom h p (address :: control :: payload)) p := by
        unfold Closes
        rw [hheard.state]
        exact fun hc i hw => hg _ hsend hc i (hheard.fewer i hw)
      have hwork := hs.works hp'
        (hnote.trans (onPeerFrame_works _ p address control payload)) fun hr =>
        (onPeerFrame_handled _ p address control payload).receptive hclose
          (hr.fewer hheard.fewer (.inl hheard.state))
      obtain ⟨b, hb⟩ := captureMarker_form
        (onPeerFrame (heardFrom h p (address :: control :: payload)) p
        address control payload) control
      show Sincere (captureMarker
        (onPeerFrame (heardFrom h p (address :: control :: payload)) p address
        control payload) control)
      rw [hb]
      exact hwork.of_same rfl rfl rfl (fun _ => ⟨rfl, rfl⟩) hwork.numbered
  · exact hs

/-! ## The choice of a frame -/

/-- The idle frame is an SNRM for a peer without a connection, else no request. -/
theorem putIdleFrame_cases (h : Handle W N) (p : Fin N) : ∃ address control,
    putIdleFrame h p = putUSFrame h .sFrame address control [] ∧
      sameStation (peerToAddressField h p) address = true ∧
      (((h.peers p).state = .disconnected ∨ (h.peers p).state = .connecting) ∨
      ¬IsU .snrm control) := by
  unfold putIdleFrame
  split
  · next hidle => exact ⟨_, _, rfl, sameStation_flagged h p (.inr rfl), .inl hidle.2⟩
  · refine ⟨_, _, rfl, sameStation_flagged h p (.inl rfl), .inr fun hu => ?_⟩
    have hzero : (0 : Byte) &&& 0x03 = 0 := by decide
    exact Bool.noConfusion ((isUFrame_sControl .rr _ hzero).symm.trans hu.1)

/-- If nothing waited for the peer, the idle frame is the one that does. -/
theorem putIdleFrame_first {k m : Handle W N} {i : Fin 4} (hs : firstService h p = none)
    (hq : k.sQueue = h.sQueue) (ha : (k.peers p).addr = (h.peers p).addr)
    (hg : getNextSUFrame (putIdleFrame k p) p = (m, some i)) :
    h.sQueue.hasFreeSlots = true ∧ (∀ j, j ≠ i → m.sQueue.frames j = h.sQueue.frames j) ∧
      (((k.peers p).state = .disconnected ∨ (k.peers p).state = .connecting) ∨
        ¬IsU .snrm (m.sQueue.frames i).control) := by
  obtain ⟨address, control, he, -, hidle⟩ := putIdleFrame_cases k p
  have hm : m.sQueue = (putIdleFrame k p).sQueue := by
    have hsame := getNextSUFrame_sQueue (putIdleFrame k p) p
    rwa [hg] at hsame
  have hfield : peerToAddressField (putIdleFrame k p) p = peerToAddressField h p := by
    unfold peerToAddressField
    rw [he, putUSFrame_peers, ha]
  have hserves := Slot.fits_sFrame_uFrame.mp (Queue.getNext_some (getNextSUFrame_first hg))
  have hnone : ∀ j, ¬(h.sQueue.frames j).Serves (peerToAddressField h p) := by
    intro j hj
    obtain ⟨i, hi⟩ := serviceWaits_iff.mp ⟨j, hj⟩
    rw [hs] at hi
    cases hi
  rw [hfield] at hserves
  rcases putUSFrame_cases k .sFrame address control [] with hsame | ⟨j, hj, hput⟩
  · rw [he, hsame, hq] at hserves
    exact absurd hserves (hnone i)
  · rw [← he] at hput
    rw [hq] at hj hput
    rw [hput] at hserves hm
    rw [hm]
    by_cases hij : i = j
    · refine ⟨Queue.hasFreeSlots_iff.mpr ⟨j, ?_⟩, fun l hl => Queue.setFrame_ne _ (hij ▸ hl) _, ?_⟩
      · have hfree := Queue.getNext_some hj
        rwa [Slot.fits_free, beq_iff_eq] at hfree
      · rw [hij, Queue.setFrame_self]
        exact hidle
    · rw [Queue.setFrame_ne _ hij] at hserves
      exact absurd hserves (hnone i)

/-- The slots of the service queue stay, up to the chosen one. -/
theorem chosen_others {found : Handle W N × Option (SlotRef W)} (hc : Chosen h p found) {i : Fin 4}
    (hi : found.2 ≠ some (.sSlot i)) : found.1.sQueue.frames i = h.sQueue.frames i := by
  have hkept : ∀ {k : Handle W N} {j : Option (Fin W)}, getNextIFrame h p = (k, j) →
      k.sQueue = h.sQueue ∧ (k.peers p).addr = (h.peers p).addr := by
    intro k j hk
    have hsq := getNextIFrame_sQueue h p
    have haddr := (getNextIFrame_prepares h p).1.addr p
    rw [hk] at hsq haddr
    exact ⟨hsq, haddr⟩
  have hfin : ∀ {k : Handle W N} {r : SlotRef W}, some r ≠ some (.sSlot i) →
      (finishFrame k p r).sQueue.frames i = k.sQueue.frames i := by
    intro k r hr
    rcases finishFrame_slot k p r (.sSlot i) with hs | ⟨hri, -⟩
    · exact hs
    · exact absurd (congrArg some hri.symm) hr
  cases hc with
  | service => exact (hfin hi).trans (by rw [getNextSUFrame_sQueue])
  | iFrame _ hk => exact (hfin hi).trans (by rw [(hkept hk).1])
  | idle hs hk _ hg =>
    refine (hfin hi).trans ((putIdleFrame_first hs (hkept hk).1 (hkept hk).2 hg).2.1 i ?_)
    rintro rfl
    exact hi rfl
  | @noRoom k _ hk _ hg =>
    obtain ⟨hq, -⟩ := hkept hk
    obtain ⟨address, control, he, hst, -⟩ := putIdleFrame_cases k p
    show (putIdleFrame k p).sQueue.frames i = _
    rw [he] at hg ⊢
    rcases putUSFrame_cases k .sFrame address control [] with hsame | ⟨j, -, hput⟩
    · rw [hsame, hq]
    · -- The frame would have been found.
      have hwaits : ServiceWaits (putUSFrame k .sFrame address control []) p := by
        refine ⟨j, ?_⟩
        unfold peerToAddressField
        rw [hput, Queue.setFrame_self, putUSFrame_peers]
        exact ⟨.inl rfl, hst⟩
      obtain ⟨l, hl⟩ := serviceWaits_iff.mp hwaits
      rw [hg] at hl
      cases hl
  | nothing _ hk => exact congrArg (fun q : Queue 4 => q.frames i) (hkept hk).1

/-- The choice of a frame leaves I-frames what they are. -/
def SameKinds (h h' : Handle W N) : Prop :=
  ∀ i, isIFrame (h'.iQueue.frames i).control = isIFrame (h.iQueue.frames i).control

theorem isIFrame_poll (c : Byte) : isIFrame (c ||| pBit) = isIFrame c := by
  revert c
  decide +kernel

theorem isIFrame_refresh (c : Byte) (nr : Seq) :
    isIFrame (c &&& 0x0F ||| nr.setWidth 8 <<< 5) = isIFrame c := by
  revert c nr
  decide +kernel

theorem refreshIFrame_kinds (h : Handle W N) (p : Fin N) (i : Fin W) :
    SameKinds h (refreshIFrame h p i) := by
  intro j
  show isIFrame ((h.iQueue.setFrame i _).frames j).control = _
  by_cases hji : j = i
  · rw [hji, Queue.setFrame_self]
    exact isIFrame_refresh _ _
  · rw [Queue.setFrame_ne _ hji]

theorem getNextIFrame_kinds (h : Handle W N) (p : Fin N) : SameKinds h (getNextIFrame h p).1 := by
  unfold getNextIFrame
  dsimp only
  split
  · exact fun _ => rfl
  · split
    · split
      · exact refreshIFrame_kinds _ p _
      · exact fun _ => rfl
    · split
      · exact refreshIFrame_kinds h p _
      · exact fun _ => rfl

theorem chosen_kinds {found : Handle W N × Option (SlotRef W)} (hc : Chosen h p found) :
    SameKinds h found.1 := by
  have hfin : ∀ {k : Handle W N} {r : SlotRef W}, SameKinds h k → SameKinds h
    (finishFrame k p r) := by
    intro k r hk i
    rw [← hk i]
    rcases finishFrame_slot k p r (.iSlot i) with hs | ⟨-, hs⟩
    · exact congrArg (fun s : Slot => isIFrame s.control) hs
    · exact (congrArg (fun s : Slot => isIFrame s.control) hs).trans (isIFrame_poll _)
  have hiframe : ∀ {k : Handle W N} {j : Option (Fin W)}, getNextIFrame h p = (k, j) →
    SameKinds h k := by
    intro k j hk
    have hs := getNextIFrame_kinds h p
    rwa [hk] at hs
  have hsu : ∀ k : Handle W N, SameKinds k (getNextSUFrame k p).1 := by
    intro k i
    unfold getNextSUFrame
    split
    · rfl
    · dsimp only
      split
      · rfl
      · rfl
  have hidle : ∀ k : Handle W N, SameKinds k (putIdleFrame k p) := by
    intro k i
    obtain ⟨address, control, he, -⟩ := putIdleFrame_cases k p
    rw [he, putUSFrame_iQueue]
  cases hc with
  | service => exact hfin (hsu h)
  | iFrame _ hk => exact hfin (hiframe hk)
  | @idle k m i _ hk _ hg =>
    have hm := hsu (putIdleFrame k p)
    rw [hg] at hm
    exact hfin fun j => (hm j).trans ((hidle k j).trans (hiframe hk j))
  | @noRoom k _ hk => exact fun j => (hidle k j).trans (hiframe hk j)
  | nothing _ hk => exact hiframe hk

/-! ## Transmission -/

theorem Selects.state (hs : Selects p h h₁) (q : Fin N) :
    (h₁.peers q).state = (h.peers q).state := by
  by_cases hq : q = p
  · obtain ⟨_, _, _, _, _, hp⟩ := hs.peer
    rw [hq, hp]
  · rw [hs.other q hq]

theorem Sincere.attempt (hs : Sincere h) (ho : Ordered h) (hp : Live h p)
    (ht : h.events.txSending = false) : Sincere (tryToSend h p).handle := by
  have hidle := ho.inStep.idle ht
  have hsel := tryToSend_selects h p
  have ha := tryToSend_attempted h p
  generalize (tryToSend h p).handle = k at hsel ha
  cases ha with
  | @started m r _ hc hprep hf =>
    have hlive : ∀ q, Live m q ↔ Live h q := fun q => live_congr hprep.settings hprep.addr
    have hfield : ∀ q, peerToAddressField m q = peerToAddressField h q := by
      intro q
      unfold peerToAddressField
      rw [hprep.addr]
    have hkinds := chosen_kinds hc
    have hsame : ∀ i, r ≠ .sSlot i → m.sQueue.frames i = h.sQueue.frames i :=
      fun i hr => chosen_others hc fun he => hr (Option.some.inj he)
    have hod : (startFrame m r).hdlc.tx.originData = some r := by
      rw [startFrame_tx m (hprep.hdlc ▸ hidle)]
    refine ⟨fun i hi => ?_, fun i hi hu => ?_, fun q hq i hw => ?_⟩
    · have hused : (h.iQueue.frames i).type ≠ .free := by
        rw [← (hsel.slots i).1]
        exact hi
      exact (hkinds i).trans (hs.numbered i hused)
    · by_cases hr : r = .sSlot i
      · rw [hr] at hf
        exact ⟨p, (hlive p).mpr hp, hf.2⟩
      · have hslot : (startFrame m r).sQueue.frames i = h.sQueue.frames i := hsame i hr
        rw [hslot] at hi hu ⊢
        obtain ⟨q, hq, hst⟩ := hs.owned i hi hu
        refine ⟨q, (hlive q).mpr hq, ?_⟩
        show sameStation (peerToAddressField m q) _ = true
        rw [hfield, hst]
    · obtain ⟨htype, hst, hu, hne⟩ := hw
      rw [hod] at hne
      have hr : r ≠ .sSlot i := fun he => hne (congrArg some he)
      have hslot : (startFrame m r).sQueue.frames i = h.sQueue.frames i := hsame i hr
      rw [hslot] at htype hst hu
      have hst' : sameStation (peerToAddressField m q) (h.sQueue.frames i).address = true := hst
      rw [hfield] at hst'
      unfold Listens
      rw [hsel.state q]
      exact hs.receptive q ((hlive q).mp hq) i
        ⟨htype, hst', hu, by rw [hidle]; exact fun hn => (by cases hn)⟩
  | empty _ _ hc hprep =>
    have hkinds := chosen_kinds hc
    have hsq : k.sQueue.frames = h.sQueue.frames := by
      funext i
      exact chosen_others hc fun hn => (by cases hn)
    refine hs.of_same hprep.settings hsq (by rw [hprep.hdlc])
      (fun q => ⟨hprep.addr q, hsel.state q⟩) fun i hi => ?_
    rw [(hsel.slots i).1] at hi
    exact (hkinds i).trans (hs.numbered i hi)
  | rested => exact hs
  | returned => exact hs.of_same rfl rfl rfl (fun _ => ⟨rfl, rfl⟩) hs.numbered

/-- What becomes of the slots of the service queue at the end of a frame. -/
theorem freed_slots (h : Handle W N) (r : SlotRef W) :
    ∃ q, (if isIFrame (h.slot r).control then h else freeService h r) = { h with sQueue := q } ∧
      ∀ i, (q.frames i).type = .free ∨ q.frames i = h.sQueue.frames i ∧
        (r = .sSlot i → isIFrame (h.sQueue.frames i).control = true) := by
  split
  · next hi =>
    refine ⟨h.sQueue, rfl, fun i => .inr ⟨rfl, ?_⟩⟩
    rintro rfl
    exact hi
  · cases r with
    | iSlot j => exact ⟨h.sQueue, rfl, fun i => .inr ⟨rfl, fun he => (by cases he)⟩⟩
    | sSlot j =>
      refine ⟨h.sQueue.freeByHeader j, rfl, fun i => ?_⟩
      by_cases hij : i = j
      · rw [hij, Queue.freeByHeader_self]
        exact .inl rfl
      · refine .inr ⟨Queue.freeByHeader_ne _ hij, fun he => absurd ?_ hij⟩
        exact (SlotRef.sSlot.inj he).symm

/-- A turn of the low level queues nothing, and the frame it completes does not wait again. -/
theorem runTx_requests (hi : InStep h) (len : Nat) :
    (∀ i, ((runTx h len).1.sQueue.frames i).type ≠ .free →
      (runTx h len).1.sQueue.frames i = h.sQueue.frames i) ∧ ∀ q, Fewer q h (runTx h len).1 := by
  have hran := runTx_ran hi len
  generalize (runTx h len).1 = k at hran
  generalize (runTx h len).2.1 = bs at hran
  cases hran with
  | filled _ hod => exact ⟨fun _ _ => rfl, fun q => .of_same rfl hod rfl⟩
  | @completed ll bs r n _ hod =>
    have hresolves := hi.resolves_ll hod ll
    unfold onFrameSend
    dsimp only
    split
    · next hn => exact absurd hn hresolves
    · obtain ⟨q, hq, hslots⟩ := freed_slots ({ h with hdlc := ll } : Handle W N) r
      rw [hq]
      obtain ⟨next, marker, hm, -⟩ := releaseMarker_fields
        ({ h with hdlc := ll, sQueue := q } : Handle W N)
        (({ h with hdlc := ll } : Handle W N).slot r).control
      rw [hm]
      refine ⟨fun i ht => ?_, fun p i hw => ?_⟩
      · rcases hslots i with hfree | ⟨hsame, -⟩
        · exact absurd hfree ht
        · exact hsame
      · obtain ⟨ht, hst, hu, -⟩ := hw
        rcases hslots i with hfree | ⟨hsame, hkind⟩
        · exact absurd hfree ht
        · have hsame' : q.frames i = h.sQueue.frames i := hsame
          dsimp only [Handle.setEvents] at ht hst hu
          rw [hsame'] at ht hst hu
          refine ⟨ht, hst, hu, fun he => ?_⟩
          rw [hod] at he
          have hno := isUFrame_of_isIFrame (hkind (Option.some.inj he))
          exact Bool.noConfusion (hno.symm.trans hu.1)

theorem Sincere.runTx (hs : Sincere h) (hi : InStep h) (len : Nat) : Sincere (runTx h len).1 := by
  obtain ⟨ll, q, next, marker, sending, he, -⟩ := runTx_form hi len
  obtain ⟨hslots, hfewer⟩ := runTx_requests hi len
  rw [he] at hslots hfewer ⊢
  have hlive : ∀ q', Live ({ h with
      hdlc := ll
      sQueue := q
      nextPeer := next
      events := { h.events with hasMarker := marker, txSending := sending } } : Handle W N) q' ↔
      Live h q' := fun _ => live_congr rfl fun _ => rfl
  refine ⟨hs.numbered, fun i ht hu => ?_, fun p hp => ?_⟩
  · have hsame := hslots i ht
    rw [hsame] at ht hu ⊢
    obtain ⟨p, hp, hst⟩ := hs.owned i ht hu
    exact ⟨p, (hlive p).mpr hp, hst⟩
  · exact (hs.receptive p ((hlive p).mp hp)).fewer (hfewer p) (.inl rfl)

/-! ## The other calls -/

theorem Sincere.putUSFrame (hs : Sincere h) (type : QueueType) (address : Byte) {control : Byte}
    (hc : ¬IsU .snrm control) (payload : List Byte) :
    Sincere (putUSFrame h type address control payload) := by
  have hfewer := fun p => Fewer.putUSFrame h p type address hc payload
  have hcases := putUSFrame_cases h type address control payload
  obtain ⟨q, b, he⟩ := putUSFrame_eq h type address control payload
  rw [he] at hfewer hcases ⊢
  have hlive : ∀ p, Live ({ h with
      sQueue := q
      events := { h.events with txDataAvailable := b } } : Handle W N) p ↔ Live h p :=
    fun _ => live_congr rfl fun _ => rfl
  refine ⟨hs.numbered, fun i ht hu => ?_, fun p hp => ?_⟩
  · rcases hcases with hq | ⟨j, -, hq⟩
    · rw [hq] at ht hu ⊢
      obtain ⟨p, hp, hst⟩ := hs.owned i ht hu
      exact ⟨p, (hlive p).mpr hp, hst⟩
    · rw [hq] at ht hu ⊢
      by_cases hij : i = j
      · rw [hij, Queue.setFrame_self] at hu
        exact absurd hu hc
      · rw [Queue.setFrame_ne _ hij] at ht hu ⊢
        obtain ⟨p, hp, hst⟩ := hs.owned i ht hu
        exact ⟨p, (hlive p).mpr hp, hst⟩
  · exact (hs.receptive p ((hlive p).mp hp)).fewer (hfewer p) (.inl rfl)

/-- An update that touches neither the address nor the state of the peer. -/
theorem setPeer_stays (h : Handle W N) (p : Fin N) {f : Peer → Peer}
    (ha : (f (h.peers p)).addr = (h.peers p).addr) (hs : (f (h.peers p)).state = (h.peers p).state)
    (q : Fin N) : ((h.setPeer p f).peers q).addr = (h.peers q).addr ∧
      ((h.setPeer p f).peers q).state = (h.peers q).state := by
  by_cases hq : q = p
  · rw [hq, setPeer_self, ha, hs]
    exact ⟨rfl, rfl⟩
  · rw [setPeer_ne h hq]
    exact ⟨rfl, rfl⟩

theorem Sent.sincere {data : List Byte} (hsent : Sent h p data h₁) (hs : Sincere h) :
    Sincere h₁ := by
  cases hsent with
  | refused => exact hs
  | full =>
    exact hs.of_same rfl rfl rfl (setPeer_stays (h.setEvents fun e =>
      { e with queueHasFreeSlots := false }) p rfl rfl) hs.numbered
  | @stored i _ _ =>
    have hnumbered : ∀ ns : Seq, isIFrame (ns.setWidth 8 <<< 1) = true := by
      decide
    refine hs.of_same rfl rfl rfl (setPeer_stays _ p rfl rfl) fun j hj => ?_
    show isIFrame ((h.iQueue.setFrame i (newIFrame h p data)).frames j).control = true
    have hj' : ((h.iQueue.setFrame i (newIFrame h p data)).frames j).type ≠ .free := hj
    by_cases hji : j = i
    · rw [hji, Queue.setFrame_self]
      exact hnumbered _
    · rw [Queue.setFrame_ne _ hji] at hj' ⊢
      exact hs.numbered j hj'

theorem Sincere.hangUp (hs : Sincere h) (hg : Unasked h p) {f : Peer → Peer}
    (ha : (f (h.peers p)).addr = (h.peers p).addr) : Sincere (h.setPeer p f) := by
  have haddr : ∀ q, ((h.setPeer p f).peers q).addr = (h.peers q).addr := setPeer_addr h p ha
  have hlive : ∀ q, Live (h.setPeer p f) q ↔ Live h q := fun _ => live_congr rfl haddr
  refine ⟨hs.numbered, fun i ht hu => ?_, fun q hq => ?_⟩
  · obtain ⟨q, hq, hst⟩ := hs.owned i ht hu
    refine ⟨q, (hlive q).mpr hq, ?_⟩
    unfold peerToAddressField
    rw [haddr]
    exact hst
  · by_cases hqp : q = p
    · rw [hqp]
      exact (hs.receptive p ((hlive p).mp (hqp ▸ hq))).fewer (.setPeer h p ha) (.inr hg)
    · exact (hs.receptive q ((hlive q).mp hq)).fewer (.of_same rfl rfl (haddr q))
        (.inl (by rw [setPeer_ne h hqp]))

/-- No request waits for an address that is new. -/
theorem Sincere.register (hs : Sincere h) (ho : Ordered h) {a : Byte} {ts : BitVec 32}
    (hinv : (h.peers p).addr = invalidAddr)
    (ho' : Ordered (h.setPeer p fun x => { x with addr := a, lastReceivedFrameTs := ts })) :
    Sincere (h.setPeer p fun x => { x with addr := a, lastReceivedFrameTs := ts }) := by
  obtain ⟨k, hk⟩ : ∃ k, k = h.setPeer p fun x =>
    { x with addr := a, lastReceivedFrameTs := ts } := ⟨_, rfl⟩
  rw [← hk] at ho' ⊢
  have hother : ∀ q, q ≠ p → k.peers q = h.peers q := by
    intro q hq
    rw [hk, setPeer_ne h hq]
  have hset : k.settings = h.settings := by rw [hk]; rfl
  have hlive : ∀ q, q ≠ p → (Live k q ↔ Live h q) := by
    intro q hq
    rw [ho'.addressed.live_iff, ho.addressed.live_iff, hother q hq, Multi.congr hset]
  have hnp : ¬Live h p := fun hl => (ho.addressed.live_iff.mp hl).1 hinv
  have howned : ∀ i, (k.sQueue.frames i).type ≠ .free → IsU .snrm (k.sQueue.frames i).control →
      ∃ q, q ≠ p ∧ Live k q ∧ sameStation (peerToAddressField k q)
        (k.sQueue.frames i).address = true := by
    intro i ht hu
    have hsq : k.sQueue = h.sQueue := by rw [hk]; rfl
    rw [hsq] at ht hu ⊢
    obtain ⟨q, hq, hst⟩ := hs.owned i ht hu
    have hqp : q ≠ p := fun he => hnp (he ▸ hq)
    refine ⟨q, hqp, (hlive q hqp).mpr hq, ?_⟩
    unfold peerToAddressField
    rw [hother q hqp]
    exact hst
  refine ⟨by rw [hk]; exact hs.numbered, fun i ht hu => ?_, fun q hq i hw => ?_⟩
  · obtain ⟨q, -, hq, hst⟩ := howned i ht hu
    exact ⟨q, hq, hst⟩
  · by_cases hqp : q = p
    · obtain ⟨q', hne, hq', hst'⟩ := howned i hw.1 hw.2.2.1
      have hst := hw.2.1
      rw [sameStation_comm] at hst
      have hsame := hq'.eq_of_sameStation hq (sameStation_trans hst' hst)
      exact absurd (hsame.trans hqp) hne
    · have hf : Fewer q h k := .of_same (by rw [hk]; rfl) (by rw [hk]; rfl) (by rw [hother q hqp])
      exact (hs.receptive q ((hlive q hqp).mp hq)).fewer hf (.inl (by rw [hother q hqp])) i hw

/-! ## Operations -/

/-- No connection is closed while a request for the peer waits, and a disconnected peer is
polled only if there is something for it. -/
def RequestsHeard (h : Handle W N) : Op W N → Prop
  | .frame data => ∀ m ∈ sender h data, Closes h m.1 m.2 → Unasked h m.1
  | .check p => Expires h p → Unasked h p
  | .attempt p => h.events.hasMarker = true → (h.peers p).state = .disconnected →
      ServiceWaits h p ∨ h.sQueue.hasFreeSlots = false
  | .disconnect => h.sQueue.hasFreeSlots = true → Unasked h 0
  | _ => True

instance requestsHeard_decidable (h : Handle W N) : (o : Op W N) → Decidable (RequestsHeard h o)
  | .frame data =>
    inferInstanceAs (Decidable (∀ m ∈ sender h data, Closes h m.1 m.2 → Unasked h m.1))
  | .check p => inferInstanceAs (Decidable (Expires h p → Unasked h p))
  | .attempt p =>
    inferInstanceAs (Decidable (h.events.hasMarker = true → (h.peers p).state = .disconnected →
      ServiceWaits h p ∨ h.sQueue.hasFreeSlots = false))
  | .disconnect => inferInstanceAs (Decidable (h.sQueue.hasFreeSlots = true → Unasked h 0))
  | .run _ | .lowLevel _ | .sendPacketTo _ _ | .sendUiPacketTo _ _ | .registerPeer _
  | .setKaTimeout _ | .tick _ =>
    isTrue trivial

theorem Sincere.operate {o : Op W N} (ho : Ordered h) (hd : Due h o) (hg : RequestsHeard h o)
    (hs : Sincere h) : Sincere (operate h o) := by
  cases o with
  | frame data => exact hs.frame ho hg
  | check p =>
    exact hs.works hd.1 (checkIdleTimeout_works h p) fun hr =>
      (checkIdleTimeout_checked h p).receptive hg hr
  | attempt p => exact hs.attempt ho hd.1 hd.2.2
  | run len => exact hs.runTx ho.inStep len
  | lowLevel hdlc =>
    obtain ⟨rx, buf, rfl⟩ := hd
    exact hs.of_same rfl rfl rfl (fun _ => ⟨rfl, rfl⟩) hs.numbered
  | sendPacketTo address data =>
    show Sincere (sendPacketTo h address data).1
    rcases sendPacketTo_sent h address data with he | ⟨p, -, hsent⟩
    · rw [he]
      exact hs
    · exact hsent.sincere hs
  | sendUiPacketTo address data =>
    show Sincere (sendUiPacketTo h address data).1
    rcases sendUiPacketTo_cases h address data with he | ⟨p, -, he⟩
    · rw [he]
      exact hs
    · rw [he]
      exact hs.putUSFrame _ _ (fun hu => UType.noConfusion (isU_uControl hu)) _
  | disconnect =>
    show Sincere (disconnect h).1
    rcases disconnect_cases h with he | ⟨hfree, he⟩
    · rw [he]
      exact hs
    · have hdisc : ¬IsU .snrm (uControl .disc) := fun hu => UType.noConfusion (isU_uControl hu)
      have hput : Sincere (putUFrame h 0 crBit .disc) := hs.putUSFrame _ _ hdisc _
      rw [he]
      exact hput.hangUp (fun i hw =>
        hg hfree i (Fewer.putUFrame h 0 crBit UType.noConfusion i hw)) rfl
  | registerPeer address =>
    have hord := ho.operate hd
    have hcases := registerPeer_cases h address
    show Sincere (registerPeer h address).1
    have hord' : Ordered (registerPeer h address).1 := hord
    rcases hcases with he | ⟨p, a, ts, hinv, -, -, he⟩
    · rw [he]
      exact hs
    · rw [he] at hord' ⊢
      exact hs.register ho hinv hord'
  | setKaTimeout keepAlive => exact hs.of_same rfl rfl rfl (fun _ => ⟨rfl, rfl⟩) hs.numbered
  | tick ms => exact hs.of_same rfl rfl rfl (fun _ => ⟨rfl, rfl⟩) hs.numbered

theorem initHandle_sincere (init : InitParams) (hdlc : HdlcLl (SlotRef W)) (millis : BitVec 32) :
    Sincere (initHandle W N init hdlc millis) :=
  ⟨fun _ hi => absurd rfl hi, fun _ hi => absurd rfl hi, fun _ _ _ hw => absurd rfl hw.1⟩

/-! ## The answer -/

/-- The search hands an SNRM to the low level. -/
def HandsRequest (h : Handle W N) (p : Fin N) : Prop :=
  (tryToSend h p).isChosen = true ∧ ∃ r ∈ (tryToSend h p).handle.hdlc.tx.originData,
    IsU .snrm ((tryToSend h p).handle.slot r).control

instance handsRequest_decidable : Decidable (HandsRequest h p) :=
  inferInstanceAs (Decidable (_ ∧ _))

theorem finishFrame_isU (h : Handle W N) (p : Fin N) (r : SlotRef W) (type : UType) :
    IsU type ((finishFrame h p r).slot r).control ↔ IsU type (h.slot r).control := by
  rcases finishFrame_slot h p r r with hs | ⟨-, hs⟩
  · rw [hs]
  · rw [hs]
    exact isU_poll type _

/-- An SNRM is handed for a peer that listens. -/
theorem Sincere.hands (hs : Sincere h) (ho : Ordered h) (hp : Live h p)
    (ht : h.events.txSending = false) (hg : RequestsHeard h (.attempt p)) (hh : HandsRequest h p) :
    Listens h p := by
  have hidle := ho.inStep.idle ht
  have hsel := tryToSend_selects h p
  have ha := tryToSend_attempted h p
  obtain ⟨-, r', hr', hu⟩ := hh
  generalize (tryToSend h p).handle = k at hsel ha hr' hu
  have hno : ∀ {r : SlotRef W}, h.hdlc.tx.originData ≠ some r := by
    rw [hidle]
    exact fun he => (by cases he)
  cases ha with
  | @started m r hm hc hprep hf =>
    have hod : (startFrame m r).hdlc.tx.originData = some r := by
      rw [startFrame_tx m (hprep.hdlc ▸ hidle)]
    rw [hod] at hr'
    obtain rfl := Option.some.inj hr'
    have hslot : (startFrame m r).slot r = m.slot r := by
      cases r <;> rfl
    rw [hslot] at hu
    have hkinds := chosen_kinds hc
    cases hc with
    | @service i hfirst =>
      have hserves : (h.sQueue.frames i).Serves (peerToAddressField h p) :=
        Slot.fits_sFrame_uFrame.mp (Queue.getNext_some hfirst)
      have hused : (h.sQueue.frames i).type ≠ .free := by
        intro hfree
        rcases hserves.1 with he | he
        · cases hfree.symm.trans he
        · cases hfree.symm.trans he
      rw [finishFrame_isU] at hu
      have hu' : IsU .snrm ((getNextSUFrame (h.setEvents fun e =>
        { e with txDataAvailable := false }) p).1.sQueue.frames i).control := hu
      rw [getNextSUFrame_sQueue] at hu'
      exact hs.receptive p hp i ⟨hused, hserves.2, hu', hno⟩
    | @iFrame k i _ _ =>
      have hused : (h.iQueue.frames i).type ≠ .free := by
        rw [← (hsel.slots i).1]
        exact hf.1
      have hkind := (hkinds i).trans (hs.numbered i hused)
      exact Bool.noConfusion ((isUFrame_of_isIFrame hkind).symm.trans hu.1)
    | @idle k m i hfirst hi _ hgot =>
      obtain ⟨mask, hk⟩ := getNextIFrame_misses hi
      rw [finishFrame_isU] at hu
      have hpeer : k.peers p = { h.peers p with srejReqMask := mask } := by
        rw [hk]
        exact setPeer_self ..
      obtain ⟨hfree, -, hidle⟩ := putIdleFrame_first hfirst (by rw [hk]; rfl)
        (by rw [hpeer]; rfl) hgot
      rw [hpeer] at hidle
      rcases hidle with hstate | hother
      · rcases hstate with hdisc | hconn
        · rcases hg hm hdisc with hwaits | hfull
          · obtain ⟨j, hj⟩ := serviceWaits_iff.mp hwaits
            exact absurd (hj.symm.trans hfirst) (Option.some_ne_none j)
          · exact Bool.noConfusion (hfree.symm.trans hfull)
        · exact .inl hconn
      · exact absurd hu hother
  | empty _ _ _ hprep => exact absurd (hprep.hdlc ▸ hr') hno
  | rested => exact absurd hr' hno
  | returned => exact absurd hr' hno

/-- UA leaves a peer that listens connected. -/
theorem ua_connects (hl : Listens h p) {data : List Byte} {control : Byte}
    (hs : sender h data = some (p, control)) (hu : IsU .ua control) :
    ((onFrameRead h data).peers p).state = .connected := by
  unfold sender at hs
  split at hs
  · next address c payload =>
    obtain ⟨p', hfound, he⟩ := Option.map_eq_some_iff.mp hs
    obtain ⟨rfl, rfl⟩ := Prod.mk.inj he
    obtain ⟨k, hk⟩ : ∃ k, k = heardFrom h p' (address :: c :: payload) := ⟨_, rfl⟩
    have hlk : Listens k p' := by
      unfold Listens
      rw [hk, heardFrom_peer]
      exact hl
    have hread : onFrameRead h (address :: c :: payload) =
        captureMarker (onPeerFrame k p' address c payload) c := by
      unfold onFrameRead
      dsimp only
      have hsame : addressFieldToPeer (h.emit (.frameIn (address :: c :: payload))) address =
          addressFieldToPeer h address := rfl
      rw [hsame, hfound, hk]
      rfl
    obtain ⟨b, hb⟩ := captureMarker_form (onPeerFrame k p' address c payload) c
    rw [hread, hb]
    show ((onPeerFrame k p' address c payload).peers p').state = .connected
    have hdisc : ¬((k.peers p').state = .disconnected ∧ UType.ua.bits ≠ UType.sabm.bits ∧
        UType.ua.bits ≠ UType.snrm.bits ∧ UType.ua.bits ≠ UType.ui.bits) := by
      rintro ⟨hd, -⟩
      rcases hlk with hc | hc
      · cases hd.symm.trans hc
      · cases hd.symm.trans hc
    unfold onPeerFrame onUFrameRead
    dsimp only
    rw [if_pos hu.1, hu.2, if_neg hdisc, if_neg (by decide), if_neg (by decide), if_neg (by decide),
      if_neg (by decide), if_pos rfl]
    unfold onAcknowledge
    rcases hlk with hc | hc
    · rw [if_pos hc]
      exact switchToConnectedState_connected k p'
    · rw [if_neg (by rw [hc]; exact PeerState.noConfusion),
        if_neg (by rw [hc]; exact PeerState.noConfusion)]
      exact hc
  · cases hs

/-- The operation is a search that hands an SNRM for the peer. -/
def Asks (h : Handle W N) (p : Fin N) : Op W N → Prop
  | .attempt q => q = p ∧ HandsRequest h p
  | _ => False

instance asks_decidable (h : Handle W N) (p : Fin N) : (o : Op W N) → Decidable (Asks h p o)
  | .attempt q => inferInstanceAs (Decidable (q = p ∧ HandsRequest h p))
  | .frame _ | .check _ | .run _ | .lowLevel _ | .sendPacketTo _ _ | .sendUiPacketTo _ _
  | .disconnect | .registerPeer _ | .setKaTimeout _ | .tick _ =>
    isFalse id

/-- In a run that closes no connection while a request waits, and in which no idle frame goes
to a disconnected peer, an SNRM is only handed for a peer that is not disconnected, and UA
makes the peer connected or finds it so. -/
theorem request_answered {past : History W N} (hl : Lives RequestsHeard h past) :
    ∀ before k o p, Happens past before k o → Asks k p o → (k.peers p).state ≠ .disconnected ∧
      ∀ (x : Handle W N) data control, (x.peers p).state = ((operate k o).peers p).state →
        sender x data = some (p, control) → IsU .ua control →
          ((onFrameRead x data).peers p).state = .connected := by
  obtain ⟨-, -, hbefore⟩ := hl.rule (P := fun _ k => Sincere k)
    (fun init hdlc millis _ _ => initHandle_sincere init hdlc millis)
    fun _ k o ho hd hg hs => hs.operate ho hd hg
  intro before k o p hk hask
  obtain ⟨ho, hd, hg, hs⟩ := hbefore before k o hk
  cases o with
  | attempt q =>
    obtain ⟨rfl, hh⟩ := hask
    have hlisten := hs.hands ho hd.1 hd.2.2 hg hh
    refine ⟨fun hdisc => ?_, fun x data control hx hsend hu => ua_connects ?_ hsend hu⟩
    · rcases hlisten with hc | hc
      · cases hdisc.symm.trans hc
      · cases hdisc.symm.trans hc
    · have hstate : ((operate k (.attempt q)).peers q).state = (k.peers q).state :=
        (tryToSend_selects k q).state q
      unfold Listens
      rw [hx, hstate]
      exact hlisten
  | _ => exact hask.elim

/-- A peer is registered and asked to connect. -/
def askOnce : List Call := [.registerPeer 1, .getTxData 16]

/-- It takes the answer. -/
theorem request_answered_askOnce : ∃ (k : Handle 2 1) (o : Op 2 1), Asks k 0 o ∧
    (k.peers 0).state ≠ .disconnected ∧
    ((onFrameRead (operate k o) [0x05, 0x73]).peers 0).state = .connected := by
  have hl : Lives RequestsHeard _ (history (smallHandle 2 1 .nrm) askOnce) :=
    smallHandle_lives (by decide) (by decide) (by decide +kernel)
  have hask : ∃ i : Fin (history (smallHandle 2 1 .nrm) askOnce).length,
      Asks ((history (smallHandle 2 1 .nrm) askOnce).get i).1 0
        ((history (smallHandle 2 1 .nrm) askOnce).get i).2 ∧
      sender (operate ((history (smallHandle 2 1 .nrm) askOnce).get i).1
        ((history (smallHandle 2 1 .nrm) askOnce).get i).2) [0x05, 0x73] = some (0, 0x73) := by
    decide +kernel
  obtain ⟨i, ha, hsend⟩ := hask
  obtain ⟨hne, hua⟩ := request_answered hl _ _ _ 0 (happens_get _ i) ha
  exact ⟨_, _, ha, hne, hua _ _ 0x73 rfl hsend (by decide)⟩

/-- The peer refuses with DM, and is polled at once. -/
def refuseOnce : List Call := askOnce ++ [.onFrameRead [0x05, 0x1F], .getTxData 16]

/-- The SNRM that polls it is sent while the peer is disconnected, and its UA is ignored. -/
theorem request_unheard : ∃ past, ∃ h : Handle 2 1, Lives AnyOp h past ∧ ∃ before k o,
    Happens past before k o ∧ k.settings.mode = .nrm ∧ k.isPrimaryStation = true ∧ Asks k 0 o ∧
    (k.peers 0).state = .disconnected ∧ sender (operate k o) [0x05, 0x73] = some (0, 0x73) ∧
    IsU .ua 0x73 ∧ ((onFrameRead (operate k o) [0x05, 0x73]).peers 0).state = .disconnected := by
  have hask : ∃ i : Fin (history (smallHandle 2 1 .nrm) refuseOnce).length,
      let (k, o) := (history (smallHandle 2 1 .nrm) refuseOnce).get i
      k.settings.mode = .nrm ∧ k.isPrimaryStation = true ∧ Asks k 0 o ∧
        (k.peers 0).state = .disconnected ∧ sender (operate k o) [0x05, 0x73] = some (0, 0x73) ∧
        IsU .ua 0x73 ∧ ((onFrameRead (operate k o) [0x05, 0x73]).peers 0).state =
          .disconnected := by
    decide +kernel
  obtain ⟨i, ha⟩ := hask
  exact ⟨_, _, smallHandle_lives (by decide) (by decide) (callsMeet_any _ _), _, _, _,
    happens_get _ i, ha⟩

end TinyProto.Fd
