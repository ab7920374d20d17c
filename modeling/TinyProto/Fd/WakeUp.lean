import TinyProto.Fd.Operations
import TinyProto.Fd.Outcomes

/-!
# The transmit wake-up

`FD_EVENT_TX_DATA_AVAILABLE` is cleared before a frame is looked for, and raised again if one
is found.  In ABM the search finds every eligible frame, except that a frame which SREJ
requested and which is gone ends it at once.  A run without such a search keeps the flag
raised as long as a frame is eligible (`wake_up_kept`).
-/

set_option linter.unusedSectionVars false

namespace TinyProto.Fd

open Hdlc Runs

variable {W N : Nat} [NeZero W] [NeZero N] {h h₁ h₂ : Handle W N} {p : Fin N}

/-! ## Eligible frames -/

/-- An I-frame for the peer with this number waits. -/
def IFrameWaits (h : Handle W N) (p : Fin N) (ns : Seq) : Prop :=
  ∃ i, (h.iQueue.frames i).type = .iFrame ∧
    sameStation (peerToAddressField h p) (h.iQueue.frames i).address = true ∧
    nsOf (h.iQueue.frames i).control = ns

/-- A frame that may be sent now. -/
def Eligible (h : Handle W N) (p : Fin N) : Prop :=
  ServiceWaits h p ∨ Linked h p ∧ IFrameWaits h p (h.control p).nextNs

instance iFrameWaits_decidable (ns : Seq) : Decidable (IFrameWaits h p ns) :=
  inferInstanceAs (Decidable (∃ _, _ ∧ _))

instance eligible_decidable : Decidable (Eligible h p) := inferInstanceAs (Decidable (_ ∨ _))

theorem iFrameWaits_iff {ns : Seq} : IFrameWaits h p ns ↔
    ∃ i, h.iQueue.getNext [.iFrame] (peerToAddressField h p) ns = some i := by
  unfold IFrameWaits
  constructor
  · rintro ⟨i, hi⟩
    exact Queue.getNext_isSome (i := i) (Slot.fits_iFrame.mpr hi)
  · rintro ⟨i, hi⟩
    exact ⟨i, Slot.fits_iFrame.mp (Queue.getNext_some hi)⟩

/-! ## The search -/

/-- The search ends at a frame that SREJ requested and that is gone, and the next one waits. -/
def Strays (h : Handle W N) (p : Fin N) : Prop :=
  ¬ServiceWaits h p ∧ Linked h p ∧ IFrameWaits h p (h.control p).nextNs ∧
    ∃ ns ∈ firstRequested (h.peers p).srejReqMask, ¬IFrameWaits h p (BitVec.ofFin ns)

instance strays_decidable : Decidable (Strays h p) := inferInstanceAs (Decidable (_ ∧ _))

/-- With a frame eligible, a search for an I-frame that finds none has strayed. -/
theorem strays_of_getNextIFrame {k : Handle W N} (hf : firstService h p = none)
    (hi : getNextIFrame h p = (k, none)) (he : Eligible h p) : Strays h p := by
  have hs : ¬ServiceWaits h p := by
    rw [serviceWaits_iff, hf]
    rintro ⟨i, hi⟩
    cases hi
  obtain ⟨hl, hw⟩ := he.resolve_left hs
  refine ⟨hs, hl, hw, ?_⟩
  unfold getNextIFrame at hi
  dsimp only at hi
  rw [if_neg fun hn => not_linked_iff.mpr hn hl] at hi
  split at hi
  · next ns hns =>
    refine ⟨ns, hns, ?_⟩
    rw [iFrameWaits_iff]
    split at hi
    · cases hi
    · next hnone =>
      rw [hnone]
      rintro ⟨i, hi⟩
      cases hi
  · obtain ⟨i, hsome⟩ := iFrameWaits_iff.mp hw
    rw [hsome] at hi
    cases hi

/-- The slots of the service queue, up to control fields. -/
structure SameService (h h' : Handle W N) : Prop where
  mtu : h'.sQueue.mtu = h.sQueue.mtu
  slots : ∀ i, ∃ c, h'.sQueue.frames i = { h.sQueue.frames i with control := c }

theorem SameService.of_eq (hs : h₁.sQueue = h.sQueue) : SameService h h₁ :=
  ⟨by rw [hs], fun i => ⟨(h.sQueue.frames i).control, by rw [hs]⟩⟩

theorem finishFrame_service (h : Handle W N) (p : Fin N) (r : SlotRef W) :
    SameService h (finishFrame h p r) := by
  refine ⟨finishFrame_mtu h p r, fun i => ?_⟩
  rcases finishFrame_slot h p r (.sSlot i) with hs | ⟨-, hs⟩
  · exact ⟨(h.sQueue.frames i).control, hs⟩
  · exact ⟨_, hs⟩

/-- Out of NRM the choice of a frame touches control fields only. -/
theorem chosen_service {found : Handle W N × Option (SlotRef W)} (hc : Chosen h p found)
    (hm : h.settings.mode ≠ .nrm) : SameService h found.1 := by
  have hfin : ∀ {k : Handle W N} (r : SlotRef W), k.sQueue = h.sQueue →
      SameService h (finishFrame k p r) := by
    intro k r hk
    have hs := finishFrame_service k p r
    exact ⟨by rw [hs.mtu, hk], fun i => by rw [← hk]; exact hs.slots i⟩
  have hi : ∀ {k : Handle W N} {j : Option (Fin W)}, getNextIFrame h p = (k, j) →
      k.sQueue = h.sQueue := by
    intro k j hk
    have hs := getNextIFrame_sQueue h p
    rwa [hk] at hs
  cases hc with
  | service => exact hfin _ (getNextSUFrame_sQueue h p)
  | iFrame _ hk => exact hfin _ (hi hk)
  | idle _ _ hn => exact absurd hn hm
  | noRoom _ _ hn _ => exact absurd hn hm
  | nothing _ hk => exact .of_eq (hi hk)

/-! ## What wakes the sender -/

/-- The work leaves the flag raised, or makes nothing eligible. -/
structure Rouses (p : Fin N) (h h' : Handle W N) : Prop where
  field : peerToAddressField h' p = peerToAddressField h p
  txSending : h'.events.txSending = h.events.txSending
  hasMarker : h.events.hasMarker = true → h'.events.hasMarker = true
  mtu : h'.sQueue.mtu = h.sQueue.mtu
  slots : ∀ i, h'.sQueue.frames i = h.sQueue.frames i ∨
    (h'.sQueue.frames i).Serves (peerToAddressField h p)
  flag : h'.events.txDataAvailable = true ∨
    h'.events.txDataAvailable = h.events.txDataAvailable ∧ (Eligible h' p → Eligible h p)

theorem Rouses.refl (p : Fin N) (h : Handle W N) : Rouses p h h :=
  ⟨rfl, rfl, id, rfl, fun _ => .inl rfl, .inr ⟨rfl, id⟩⟩

theorem Rouses.trans (hr : Rouses p h h₁) (hr' : Rouses p h₁ h₂) : Rouses p h h₂ where
  field := hr'.field.trans hr.field
  txSending := hr'.txSending.trans hr.txSending
  hasMarker hm := hr'.hasMarker (hr.hasMarker hm)
  mtu := hr'.mtu.trans hr.mtu
  slots i := by
    rcases hr'.slots i with hs | hs
    · rw [hs]
      exact hr.slots i
    · rw [hr.field] at hs
      exact .inr hs
  flag := by
    rcases hr'.flag with hf' | ⟨hf', he'⟩
    · exact .inl hf'
    · rw [hf']
      exact hr.flag.imp id (And.imp id fun he => he ∘ he')

/-- The service queue and the flags of the sender stay. -/
theorem Rouses.of_less (ha : (h₁.peers p).addr = (h.peers p).addr)
    (he : h₁.events = { h.events with
      queueHasFreeSlots := h₁.events.queueHasFreeSlots, hasMarker := h₁.events.hasMarker })
    (hmark : h.events.hasMarker = true → h₁.events.hasMarker = true) (hs : h₁.sQueue = h.sQueue)
    (hl : Linked h₁ p → Linked h p ∧ (h₁.control p).nextNs = (h.control p).nextNs)
    (hi : ∀ ns, IFrameWaits h₁ p ns → IFrameWaits h p ns) : Rouses p h h₁ := by
  have hfield : peerToAddressField h₁ p = peerToAddressField h p := by
    unfold peerToAddressField
    rw [ha]
  refine ⟨hfield, by rw [he], hmark, by rw [hs], fun i => .inl (by rw [hs]), .inr ⟨by rw [he], ?_⟩⟩
  unfold Eligible ServiceWaits
  rw [hs, hfield]
  rintro (hw | ⟨hlink, hw⟩)
  · exact .inl hw
  · obtain ⟨hlink', hn⟩ := hl hlink
    rw [hn] at hw
    exact .inr ⟨hlink', hi _ hw⟩

theorem IFrameWaits.of_slots {ns : Seq} (ha : (h₁.peers p).addr = (h.peers p).addr)
    (hi : ∀ i, (h₁.iQueue.frames i).type = .iFrame → h₁.iQueue.frames i = h.iQueue.frames i)
    (hw : IFrameWaits h₁ p ns) : IFrameWaits h p ns := by
  obtain ⟨i, ht, hs, hn⟩ := hw
  have hsame := hi i ht
  unfold peerToAddressField at hs
  rw [ha] at hs
  rw [hsame] at ht hs hn
  exact ⟨i, ht, hs, hn⟩

/-- Only what the peer does not look at changes. -/
theorem Rouses.of_same (hp : h₁.peers p = h.peers p) (he : h₁.events = { h.events with
      queueHasFreeSlots := h₁.events.queueHasFreeSlots, hasMarker := h₁.events.hasMarker })
    (hmark : h.events.hasMarker = true → h₁.events.hasMarker = true) (hs : h₁.sQueue = h.sQueue)
    (hi : h₁.iQueue = h.iQueue) : Rouses p h h₁ := by
  refine .of_less (by rw [hp]) he hmark hs ?_ fun ns => .of_slots (by rw [hp]) fun i _ => by rw [hi]
  unfold Linked Handle.control
  rw [hp]
  exact fun hl => ⟨hl, rfl⟩

theorem Rouses.setPeer (h : Handle W N) (p : Fin N) {f : Peer → Peer}
    (ha : (f (h.peers p)).addr = (h.peers p).addr) (hs : (f (h.peers p)).state = (h.peers p).state)
    (hn : (f (h.peers p)).iQueueControl.nextNs = (h.control p).nextNs) :
    Rouses p h (h.setPeer p f) := by
  refine .of_less (by rw [setPeer_self, ha]) rfl id rfl ?_
    fun ns => .of_slots (by rw [setPeer_self, ha]) fun _ _ => rfl
  unfold Linked Handle.control
  rw [setPeer_self, hs]
  exact fun hl => ⟨hl, hn⟩

/-- Nothing but the request is sent to a peer that is connecting. -/
theorem Rouses.connecting (h : Handle W N) (p : Fin N) {f : Peer → Peer}
    (ha : (f (h.peers p)).addr = (h.peers p).addr) (hs : (f (h.peers p)).state = .connecting) :
    Rouses p h (h.setPeer p f) := by
  refine .of_less (by rw [setPeer_self, ha]) rfl id rfl (fun hl => ?_)
    fun ns => .of_slots (by rw [setPeer_self, ha]) fun _ _ => rfl
  refine absurd hl (not_linked_iff.mpr (.inr ?_))
  rw [setPeer_self, hs]

/-- Without room the frame is dropped, else the flag is raised. -/
theorem putUSFrame_wakes (h : Handle W N) (type : QueueType) (address control : Byte)
    (payload : List Byte) :
    h.sQueue.allocate type payload = none ∧ putUSFrame h type address control payload = h ∨
      (putUSFrame h type address control payload).events.txDataAvailable = true := by
  unfold putUSFrame putUSFrame?
  cases h.sQueue.allocate type payload with
  | none => exact .inl ⟨rfl, rfl⟩
  | some r => exact .inr rfl

theorem Rouses.putUSFrame (h : Handle W N) (p : Fin N) {type : QueueType} {address : Byte}
    (ht : type = .sFrame ∨ type = .uFrame)
    (hs : sameStation (peerToAddressField h p) address = true) (control : Byte)
    (payload : List Byte) : Rouses p h (putUSFrame h type address control payload) := by
  have hcases := putUSFrame_cases h type address control payload
  rcases putUSFrame_wakes h type address control payload with ⟨-, hsame⟩ | hraised
  · rw [hsame]
    exact .refl p h
  · obtain ⟨q, b, he⟩ := putUSFrame_eq h type address control payload
    rw [he] at hcases hraised ⊢
    refine ⟨rfl, rfl, id, ?_, fun i => ?_, .inl hraised⟩
    · rcases hcases with hq | ⟨j, -, hq⟩
      · exact congrArg Queue.mtu hq
      · exact (congrArg Queue.mtu hq).trans rfl
    · rcases hcases with hq | ⟨j, -, hq⟩
      · exact .inl (congrArg (fun q : Queue 4 => q.frames i) hq)
      · have hslot := congrArg (fun q : Queue 4 => q.frames i) hq
        dsimp only at hslot ⊢
        rw [hslot]
        by_cases hij : i = j
        · rw [hij, Queue.setFrame_self]
          exact .inr ⟨ht, hs⟩
        · exact .inl (Queue.setFrame_ne _ hij _)

theorem Rouses.putSFrame (h : Handle W N) (p : Fin N) {cr : Byte} (hcr : cr = 0 ∨ cr = crBit)
    (type : SType) (poll : Byte) : Rouses p h (putSFrame h p cr type poll) :=
  .putUSFrame h p (.inl rfl) (sameStation_flagged h p hcr) _ _

theorem Rouses.putUFrame (h : Handle W N) (p : Fin N) {cr : Byte} (hcr : cr = 0 ∨ cr = crBit)
    (type : UType) : Rouses p h (putUFrame h p cr type) :=
  .putUSFrame h p (.inr rfl) (sameStation_flagged h p hcr) _ _

/-! ## Confirmation -/

theorem confirmOne_rouses (h : Handle W N) (p : Fin N) : Rouses p h (confirmOne h p) := by
  have hslots : ∀ i, ((confirmOne h p).iQueue.frames i).type = .iFrame →
      (confirmOne h p).iQueue.frames i = h.iQueue.frames i := by
    intro i hi
    rcases confirmOne_cases h p with ⟨j, -, hq, -⟩ | ⟨-, hq, -⟩
    · rw [hq] at hi ⊢
      by_cases hij : i = j
      · rw [hij, Queue.freeByHeader_self] at hi
        cases hi
      · exact Queue.freeByHeader_ne _ hij
    · rw [hq]
  obtain ⟨q, free, log, r, he⟩ := confirmOne_form h p
  have hpeer : (confirmOne h p).peers p = { h.peers p with
      iQueueControl := { (h.peers p).iQueueControl with confirmNs := (h.control p).confirmNs + 1 }
      retries := r } := by
    rw [he]
    exact setPeer_self ..
  refine .of_less (by rw [hpeer]) (by rw [he]; rfl) (by rw [he]; exact id) (by rw [he]; rfl) ?_
    fun ns => .of_slots (by rw [hpeer]) hslots
  unfold Linked Handle.control
  rw [hpeer]
  exact fun hl => ⟨hl, rfl⟩

theorem confirmSentFrames_rouses (h : Handle W N) (p : Fin N) (nr : Seq) :
    Rouses p h (confirmSentFrames h p nr) := by
  have hloop : Rouses p h (confirmLoop 8 h p nr) := by
    refine confirmLoop_rule (P := fun k => Rouses p h k) (fun k hk _ _ => ?_) 8 h (.refl p h)
    exact hk.trans (confirmOne_rouses k p)
  unfold confirmSentFrames
  dsimp only
  split
  · exact hloop.trans (.setPeer _ p rfl rfl rfl)
  · exact hloop

theorem resendAllUnconfirmedFrames_rouses (h : Handle W N) (p : Fin N) (control : Byte) (nr : Seq) :
    Rouses p h (resendAllUnconfirmedFrames h p control nr) := by
  have hr := resendAllUnconfirmedFrames_resends h p control nr
  have hfield : peerToAddressField (resendAllUnconfirmedFrames h p control nr) p =
      peerToAddressField h p := by
    unfold peerToAddressField
    rw [(hr.addr p).1]
  refine ⟨hfield, hr.txSending, fun hm => by rw [hr.hasMarker, hm], ?_, fun i => ?_, .inl rfl⟩
  · rcases hr.sQueue with hs | ⟨j, payload, -, hs⟩
    · rw [hs]
    · rw [hs]
      rfl
  · rcases hr.sQueue with hs | ⟨j, payload, -, hs⟩
    · exact .inl (by rw [hs])
    · rw [hs]
      by_cases hij : i = j
      · rw [hij, Queue.setFrame_self]
        exact .inr ⟨.inr rfl, sameStation_flagged h p (.inr rfl)⟩
      · exact .inl (Queue.setFrame_ne _ hij _)

/-! ## Connections -/

theorem switchToDisconnectedState_rouses (h : Handle W N) (p : Fin N) :
    Rouses p h (switchToDisconnectedState h p) := by
  by_cases hs : (h.peers p).state = .disconnected
  · rw [switchToDisconnectedState_of hs]
    exact .refl p h
  · obtain ⟨log, he⟩ := switchToDisconnectedState_form hs
    rw [he]
    refine .of_less (by rw [setPeer_self]; rfl) rfl id rfl (fun hl => ?_)
      fun ns => .of_slots (by rw [setPeer_self]; rfl) fun i hi => ?_
    · refine absurd hl (not_linked_iff.mpr (.inl ?_))
      rw [setPeer_self]
    · have hi' : ((flushed h p).frames i).type = .iFrame := hi
      show (flushed h p).frames i = h.iQueue.frames i
      cases hst : sameStation (h.iQueue.frames i).address (peerToAddressField h p) with
      | true =>
        rw [Queue.resetFor_same hst] at hi'
        cases hi'
      | false => exact Queue.resetFor_other hst

theorem switchToConnectedState_rouses (h : Handle W N) (p : Fin N) :
    Rouses p h (switchToConnectedState h p) := by
  by_cases hs : (h.peers p).state = .connected
  · rw [switchToConnectedState_of hs]
    exact .refl p h
  · obtain ⟨log, he⟩ := switchToConnectedState_form hs
    rw [he]
    refine ⟨?_, rfl, id, rfl, fun _ => .inl rfl, .inl rfl⟩
    unfold peerToAddressField
    rw [setPeer_self]
    rfl

theorem reconnect_rouses (h : Handle W N) (p : Fin N) : Rouses p h (reconnect h p) := by
  unfold reconnect
  split
  · exact (switchToDisconnectedState_rouses h p).trans (switchToConnectedState_rouses _ p)
  · exact switchToConnectedState_rouses h p

/-! ## Outcomes -/

/-- A free slot takes a frame without data. -/
theorem allocate_free {n : Nat} {q : Queue n} {type : QueueType} (hm : 0 ≤ q.mtu)
    (hf : q.hasFreeSlots = true) : q.allocate type [] ≠ none := by
  obtain ⟨i, hi⟩ := Option.isSome_iff_exists.mp hf
  have hfits : (([] : List Byte).length : Int) ≤ q.mtu := hm
  unfold Queue.allocate
  rw [if_pos hfits, hi]
  exact Option.some_ne_none _

/-- The service queue is the peer's. -/
structure ServiceOwned (h : Handle W N) (p : Fin N) : Prop where
  mtu : 0 ≤ h.sQueue.mtu
  own : ∀ i, (h.sQueue.frames i).type ≠ .free → (h.sQueue.frames i).Serves (peerToAddressField h p)

theorem ServiceOwned.rouses (hs : ServiceOwned h p) (hr : Rouses p h h₁) : ServiceOwned h₁ p := by
  refine ⟨by rw [hr.mtu]; exact hs.mtu, fun i hi => ?_⟩
  rw [hr.field]
  rcases hr.slots i with hsame | hserves
  · rw [hsame] at hi ⊢
    exact hs.own i hi
  · exact hserves

/-- RSET starts the numbers anew.  If there is no room for the UA, there are frames that wait. -/
theorem ServiceOwned.reset (hs : ServiceOwned h p) : Rouses p h (onReset h p) := by
  obtain ⟨k, hk⟩ : ∃ k, k = h.setPeer p Peer.resetCounters := ⟨_, rfl⟩
  have hfield : peerToAddressField k p = peerToAddressField h p := by
    unfold peerToAddressField
    rw [hk, setPeer_self]
    rfl
  have hput := Rouses.putUFrame k p (.inl rfl) .ua
  have hevents : k.events = h.events := by rw [hk]; rfl
  have hqueue : k.sQueue = h.sQueue := by rw [hk]; rfl
  show Rouses p h (Fd.putUFrame (h.setPeer p Peer.resetCounters) p 0 .ua)
  rw [← hk]
  refine ⟨hput.field.trans hfield, by rw [hput.txSending, hevents],
    fun hm => hput.hasMarker (by rw [hevents, hm]), by rw [hput.mtu, hqueue],
    fun i => by rw [← hfield, ← hqueue]; exact hput.slots i, ?_⟩
  rcases putUSFrame_wakes k .uFrame (peerToAddressField k p ||| 0) (uControl .ua) [] with
    ⟨hnone, hsame⟩ | hraised
  · refine .inr ⟨?_, fun _ => .inl ⟨0, hs.own 0 fun hfree => ?_⟩⟩
    · show (putUSFrame k .uFrame (peerToAddressField k p ||| 0)
        (uControl .ua) []).events.txDataAvailable = _
      rw [hsame, hevents]
    · rw [hqueue] at hnone
      exact allocate_free hs.mtu (Queue.hasFreeSlots_iff.mpr ⟨0, hfree⟩) hnone
  · exact .inl hraised

theorem Handled.rouses {control : Byte} (hh : Handled h p control h₁) (hs : ServiceOwned h p) :
    Rouses p h h₁ := by
  have hua : ∀ {k : Handle W N}, k = h ∨ k = Fd.putUFrame h p 0 .ua → Rouses p h k := by
    rintro k (rfl | rfl)
    · exact .refl p k
    · exact .putUFrame h p (.inl rfl) .ua
  cases hh with
  | ignored => exact .refl p h
  | passed => exact .of_same rfl rfl id rfl rfl
  | refused => exact .putUFrame h p (.inl rfl) .dm
  | opened _ hk => exact (hua hk).trans (reconnect_rouses _ p)
  | closed _ hk => exact (hua hk).trans (switchToDisconnectedState_rouses _ p)
  | rejected =>
    have hput := (switchToDisconnectedState_rouses h p).trans
      (.putUFrame (switchToDisconnectedState h p) p (.inr rfl) (connectType h))
    exact hput.trans (.connecting _ p rfl rfl)
  | reset => exact hs.reset
  | expected _ _ payload =>
    have hadv : Rouses p h (advance h p) :=
      (Rouses.setPeer h p rfl rfl rfl).trans (.setPeer _ p rfl rfl rfl)
    refine (hadv.trans (confirmSentFrames_rouses _ p (nrOf control))).trans ?_
    have hread : ∀ k : Handle W N, Rouses p k (k.emit (.read p (callbackAddress k p) payload)) :=
      fun k => .of_same rfl rfl id rfl rfl
    unfold deliver
    dsimp only
    split
    · exact (hread _).trans (.putSFrame _ p (.inl rfl) .rr 0)
    · exact hread _
  | @confirmed k _ _ hk =>
    refine Rouses.trans ?_ (confirmSentFrames_rouses k p _)
    rcases hk with rfl | rfl
    · exact .refl p _
    · exact (Rouses.setPeer h p rfl rfl rfl).trans (.putSFrame _ p (.inr rfl) .rej 0)
  | answered => exact (confirmSentFrames_rouses h p _).trans (.putSFrame _ p (.inl rfl) .rr _)
  | rewound =>
    exact (confirmSentFrames_rouses h p _).trans (resendAllUnconfirmedFrames_rouses _ p _ _)
  | requested =>
    have hc := confirmSentFrames_rouses h p (nrOf control)
    have hmask := hc.trans (.setPeer (confirmSentFrames h p (nrOf control)) p
      (f := fun x => { x with srejReqMask := x.srejReqMask ||| 1#8 <<< (nrOf control).toNat })
        rfl rfl rfl)
    exact { hmask with flag := .inl rfl }

theorem Checked.rouses (hc : Checked h p h₁) : Rouses p h h₁ := by
  cases hc with
  | retried =>
    exact (Rouses.setPeer h p rfl rfl rfl).trans (resendAllUnconfirmedFrames_rouses _ p 0 _)
  | gaveUp => exact switchToDisconnectedState_rouses h p
  | lost => exact switchToDisconnectedState_rouses h p
  | disarmed => exact .refl p h
  | keptAlive =>
    have hput := (Rouses.setPeer h p (f := fun x =>
      { x with kaConfirmed := false }) rfl rfl rfl).trans
      (.putSFrame _ p (.inl rfl) .rr pBit)
    exact hput.trans (.setPeer _ p rfl rfl rfl)
  | rested => exact .refl p h
  | requested =>
    exact (Rouses.putUFrame h p (.inr rfl) (connectType h)).trans (.connecting _ p rfl rfl)
  | waited => exact .refl p h

theorem Sent.rouses {data : List Byte} (hs : Sent h p data h₁) : Rouses p h h₁ := by
  cases hs with
  | refused => exact .refl p h
  | full =>
    have hheld : Rouses p h (h.setEvents fun e => { e with queueHasFreeSlots := false }) :=
      .of_same rfl rfl id rfl rfl
    exact hheld.trans (.setPeer _ p rfl rfl rfl)
  | stored =>
    refine ⟨?_, rfl, id, rfl, fun _ => .inl rfl, .inl rfl⟩
    unfold peerToAddressField
    rw [setPeer_self]

theorem onFrameRead_rouses (hs : ServiceOwned h p) {data : List Byte}
    (hp : ∀ m ∈ sender h data, m.1 = p) : Rouses p h (onFrameRead h data) := by
  have hr := onFrameRead_read h data
  generalize onFrameRead h data = k at hr
  cases hr with
  | unknown _ hk =>
    rcases hk with rfl | rfl
    · exact .refl p _
    · exact .of_same rfl rfl id rfl rfl
  | @handled q control k hsend hk =>
    obtain rfl : q = p := hp _ hsend
    have hlog : Rouses q h (h.emit (.frameIn data)) := .of_same rfl rfl id rfl rfl
    have hnote : Rouses q h (heardFrom h q data) := hlog.trans (.setPeer _ q (f := fun x =>
      { x with lastReceivedFrameTs := h.millis, kaConfirmed := true }) rfl rfl rfl)
    have hheard := hnote.trans (hk.rouses (hs.rouses hnote))
    refine hheard.trans ?_
    unfold captureMarker
    split
    · exact .of_same rfl rfl (fun _ => rfl) rfl rfl
    · exact .refl q k

/-! ## Operations -/

/-- The operation is no search that strays. -/
def NoStray (h : Handle W N) : Op W N → Prop
  | .attempt p => h.events.hasMarker = true → h.events.txDataAvailable = true → ¬Strays h p
  | _ => True

instance noStray_decidable (h : Handle W N) : (o : Op W N) → Decidable (NoStray h o)
  | .attempt p =>
    inferInstanceAs (Decidable (h.events.hasMarker = true → h.events.txDataAvailable = true →
      ¬Strays h p))
  | .frame _ | .check _ | .run _ | .lowLevel _ | .sendPacketTo _ _ | .sendUiPacketTo _ _
  | .disconnect | .registerPeer _ | .setKaTimeout _ | .tick _ =>
    isTrue trivial

/-- The flag is raised while a frame is sent, and while one is eligible. -/
structure Wakeful (h : Handle W N) : Prop where
  serving : ServiceOwned h 0
  marker : h.isPrimaryStation = true → h.events.hasMarker = true
  sending : h.events.txSending = true → h.events.txDataAvailable = true
  waiting : Eligible h 0 → h.events.txDataAvailable = true

theorem Wakeful.rouses (hw : Wakeful h) (hr : Rouses 0 h h₁) (hset : h₁.settings = h.settings) :
    Wakeful h₁ := by
  refine ⟨hw.serving.rouses hr, ?_, ?_, ?_⟩
  · unfold Handle.isPrimaryStation
    rw [hset]
    exact fun hp => hr.hasMarker (hw.marker hp)
  · rw [hr.txSending]
    intro ht
    rcases hr.flag with hf | ⟨hf, -⟩
    · exact hf
    · rw [hf]
      exact hw.sending ht
  · intro he
    rcases hr.flag with hf | ⟨hf, hle⟩
    · exact hf
    · rw [hf]
      exact hw.waiting (hle he)

/-- In ABM there is one peer. -/
theorem found_zero (hm : h.settings.mode = .abm) {a : Byte} (hf : addressFieldToPeer h a = some p) :
    p = 0 := by
  have hs : ¬Multi h := fun hn => hn.2 hm
  rw [addressFieldToPeer_eq, if_pos hs] at hf
  split at hf
  · cases hf
  · split at hf
    · exact (Option.some.inj hf).symm
    · cases hf

theorem ServiceOwned.freeByHeader (hs : ServiceOwned h p) (hp : h₁.peers = h.peers) {i : Fin 4}
    (hq : h₁.sQueue = h.sQueue.freeByHeader i) : ServiceOwned h₁ p := by
  refine ⟨by rw [hq]; exact hs.mtu, fun j hj => ?_⟩
  unfold peerToAddressField
  rw [hq] at hj ⊢
  rw [hp]
  by_cases hji : j = i
  · rw [hji, Queue.freeByHeader_self] at hj
    exact absurd rfl hj
  · rw [Queue.freeByHeader_ne _ hji] at hj ⊢
    exact hs.own j hj

theorem ServiceOwned.same (hs : ServiceOwned h p)
    (hp : peerToAddressField h₁ p = peerToAddressField h p)
    (hsame : SameService h h₁) : ServiceOwned h₁ p := by
  refine ⟨by rw [hsame.mtu]; exact hs.mtu, fun i hi => ?_⟩
  obtain ⟨c, hc⟩ := hsame.slots i
  rw [hc] at hi ⊢
  rw [hp]
  exact hs.own i hi

theorem tryToSend_hasMarker (hm : h.events.hasMarker = true) (p : Fin N) :
    (tryToSend h p).handle.events.hasMarker = true := by
  have ht := tryToSend_tries h p
  generalize tryToSend h p = t at ht
  cases ht with
  | chosen _ hprep => exact hprep.hasMarker.trans hm
  | none _ hprep => exact hprep.hasMarker.trans hm
  | returned => rfl

/-- A try to send keeps the flag, if the search does not stray. -/
theorem Wakeful.attempt (hw : Wakeful h) (hm : h.settings.mode = .abm)
    (ht : h.events.txSending = false) (hg : NoStray h (.attempt 0)) :
    Wakeful (tryToSend h 0).handle := by
  have hn : h.settings.mode ≠ .nrm := by
    rw [hm]
    exact Mode.noConfusion
  have hset := (tryToSend_selects h 0).settings
  have hmark : (tryToSend h 0).handle.isPrimaryStation = true →
      (tryToSend h 0).handle.events.hasMarker = true := by
    unfold Handle.isPrimaryStation
    rw [hset]
    exact fun hp => tryToSend_hasMarker (hw.marker hp) 0
  have hfield := (tryToSend_selects h 0).peer
  have hattempt := tryToSend_attempted h 0
  generalize (tryToSend h 0).handle = k at hset hmark hfield hattempt
  cases hattempt with
  | @started m r _ hc =>
    have hsame : SameService h (startFrame m r) :=
      let hs := chosen_service hc hn
      ⟨hs.mtu, hs.slots⟩
    refine ⟨hw.serving.same ?_ hsame, hmark, fun _ => rfl, fun _ => rfl⟩
    obtain ⟨_, _, _, _, _, hp⟩ := hfield
    unfold peerToAddressField
    rw [hp]
  | empty hmk ha hc =>
    cases hc with
    | noRoom _ _ hmode _ => exact absurd hmode hn
    | nothing hf hi =>
      obtain ⟨mask, rfl⟩ := getNextIFrame_misses hi
      obtain ⟨k, hk⟩ : ∃ k, k = h.setEvents fun e => { e with txDataAvailable := false } := ⟨_, rfl⟩
      rw [← hk] at hf hi hmark hfield ⊢
      have hquiet : Rouses 0 k (k.setPeer 0 fun x => { x with srejReqMask := mask }) :=
        .setPeer _ 0 rfl rfl rfl
      have hservice : ServiceOwned k 0 := by
        rw [hk]
        exact ⟨hw.serving.mtu, hw.serving.own⟩
      have hclear : (k.setPeer 0 fun x => { x with srejReqMask := mask }).events = k.events := rfl
      refine ⟨hservice.rouses hquiet, hmark, fun hsend => ?_, fun he => ?_⟩
      · rw [hclear, hk] at hsend
        exact Bool.noConfusion (hsend.symm.trans ht)
      · rcases hquiet.flag with hraised | ⟨-, hle⟩
        · exact hraised
        · have hstray := strays_of_getNextIFrame hf hi (hle he)
          rw [hk] at hstray
          exact absurd hstray (hg hmk (ha.resolve_right hn))
  | rested => exact hw
  | returned => exact hw.rouses (.of_same rfl rfl (fun _ => rfl) rfl rfl) rfl

theorem Wakeful.operate {o : Op W N} (hord : Ordered h) (hd : Due h o) (hg : NoStray h o)
    (hm : h.settings.mode = .abm) (hw : Wakeful h) : Wakeful (operate h o) := by
  have hset := operate_settings hord hd
  cases o with
  | frame data =>
    refine hw.rouses (onFrameRead_rouses hw.serving fun m hs => ?_) hset
    have hsent : sender h data = some (m.1, m.2) := hs
    have hlive := hord.addressed.live_sender hsent
    exact found_zero hm hlive.1
  | check p =>
    obtain rfl := found_zero hm hd.1.1
    exact hw.rouses (checkIdleTimeout_checked h 0).rouses hset
  | attempt p =>
    obtain rfl := found_zero hm hd.1.1
    exact hw.attempt hm hd.2.2 hg
  | run len =>
    have hraised := hw.sending hd
    obtain ⟨ll, q, next, marker, sending, he, hq, hmark⟩ := runTx_form hord.inStep len
    show Wakeful (runTx h len).1
    rw [he]
    refine ⟨?_, fun hp => ?_, fun _ => hraised, fun _ => hraised⟩
    · rcases hq with hq | ⟨i, -, hq⟩
      · rw [hq]
        exact ⟨hw.serving.mtu, hw.serving.own⟩
      · exact hw.serving.freeByHeader rfl hq
    · have hn : h.settings.mode ≠ .nrm := by
        rw [hm]
        exact Mode.noConfusion
      show marker = true
      rw [hmark hn]
      exact hw.marker hp
  | lowLevel hdlc => exact hw.rouses (.of_same rfl rfl id rfl rfl) rfl
  | sendPacketTo address data =>
    refine hw.rouses ?_ hset
    show Rouses 0 h (sendPacketTo h address data).1
    rcases sendPacketTo_sent h address data with he | ⟨p, hp, hs⟩
    · rw [he]
      exact .refl 0 h
    · obtain rfl := found_zero hm hp
      exact hs.rouses
  | sendUiPacketTo address data =>
    refine hw.rouses ?_ hset
    show Rouses 0 h (sendUiPacketTo h address data).1
    rcases sendUiPacketTo_cases h address data with he | ⟨p, hp, he⟩
    · rw [he]
      exact .refl 0 h
    · obtain rfl := found_zero hm hp
      rw [he]
      exact .putUSFrame h 0 (.inr rfl) (sameStation_self _) _ _
  | disconnect =>
    refine hw.rouses ?_ hset
    show Rouses 0 h (disconnect h).1
    rcases disconnect_cases h with he | ⟨hfree, he⟩
    · rw [he]
      exact .refl 0 h
    · have hraised := (putUSFrame_wakes h .uFrame (peerToAddressField h 0 ||| crBit)
        (uControl .disc)
        []).resolve_left fun hnone => allocate_free hw.serving.mtu hfree hnone.1
      have hdisc : Rouses 0 h (putUFrame h 0 crBit .disc) := .putUFrame h 0 (.inr rfl) .disc
      rw [he]
      exact { hdisc with
        field := by unfold peerToAddressField; rw [setPeer_self]; exact hdisc.field
        flag := .inl hraised }
  | registerPeer address =>
    show Wakeful (registerPeer h address).1
    rcases registerPeer_cases h address with he | ⟨p, a, ts, hp, -, -, -⟩
    · rw [he]
      exact hw
    · -- Every peer of an ABM station has an address from the start.
      have hs : ¬Multi h := fun hn => hn.2 hm
      have hbits := hord.addressed.station
      rw [← (hord.addressed.single hs).1 p, hp] at hbits
      exact absurd hbits invalidAddr_bits
  | setKaTimeout keepAlive => exact hw.rouses (.of_same rfl rfl id rfl rfl) rfl
  | tick ms => exact hw.rouses (.of_same rfl rfl id rfl rfl) rfl

theorem initHandle_wakeful (init : InitParams) (hdlc : HdlcLl (SlotRef W)) (millis : BitVec 32) :
    Wakeful (initHandle W N init hdlc millis) := by
  have hmtu : (0 : Int) ≤ 2 := by decide
  refine ⟨⟨hmtu, fun _ hi => absurd rfl hi⟩, id, fun ht => Bool.noConfusion ht, ?_⟩
  rintro (⟨i, ht, -⟩ | ⟨hl, -⟩)
  · rcases ht with ht | ht
    · cases ht
    · cases ht
  · exact absurd hl (not_linked_iff.mpr (.inl rfl))

/-! ## The next call -/

/-- With the marker, the flag and a frame eligible, a search that does not stray finds one. -/
theorem tryToSend_chooses (hm : h.settings.mode ≠ .nrm) (hmark : h.events.hasMarker = true)
    (ha : h.events.txDataAvailable = true) (he : Eligible h p) (hs : ¬Strays h p) :
    ∃ k, tryToSend h p = .chosen k := by
  have hc := getNextFrameToSend_chosen (h.setEvents fun e => { e with txDataAvailable := false }) p
  unfold tryToSend
  rw [if_pos hmark, if_pos (Or.inl ha)]
  dsimp only
  generalize getNextFrameToSend (h.setEvents fun e => { e with txDataAvailable := false }) p =
    found at hc
  obtain ⟨m, r⟩ := found
  cases r with
  | some r => exact ⟨_, rfl⟩
  | none =>
    cases hc with
    | noRoom _ _ hn _ => exact absurd hn hm
    | nothing hf hi => exact absurd (strays_of_getNextIFrame hf hi he) hs

/-- A call that finds a frame writes something. -/
theorem getTxData_writes (ho : Ordered h) (ht : h.events.txSending = false)
    (ha : (h.peers h.nextPeer).addr ≠ invalidAddr) {m : Handle W N}
    (hturn : tryToSend (checkIdleTimeout h h.nextPeer) h.nextPeer = .chosen m) {len : Nat}
    (hlen : 0 < len) : ∃ bs, bs ≠ [] ∧ (getTxData h len).result = .ok bs := by
  obtain ⟨p, hp⟩ : ∃ p, p = h.nextPeer := ⟨_, rfl⟩
  obtain ⟨k, hk⟩ : ∃ k, k = checkIdleTimeout h p := ⟨_, rfl⟩
  have hlive : Live h p := hp ▸ ho.addressed.live_next ha
  have hworks := checkIdleTimeout_works h p
  have hok : Ordered (checkIdleTimeout h p) := ho.operate (o := .check p) ⟨hlive, ha, ht⟩
  rw [← hk] at hworks hok
  rw [← hp, ← hk] at hturn
  have hnext : k.nextPeer = p := hworks.nextPeer.trans hp.symm
  have hvalid : (k.peers p).addr ≠ invalidAddr := by
    rw [hworks.addr_eq, hp]
    exact ha
  have hlk : Live k p := hnext ▸ hok.addressed.live_next (hnext.symm ▸ hvalid)
  have hvk : (k.peers k.nextPeer).addr ≠ invalidAddr := by rwa [hnext]
  have htk := hworks.txSending.trans ht
  have htried := tryToSend_tried hok.inStep hok.addressed htk hlk hvk
  have hom := hok.operate (o := .attempt p) ⟨hlk, hvk, htk⟩
  have hhandle : operate k (.attempt p) = m := congrArg Turn.handle hturn
  rw [hhandle] at hom
  rw [hturn] at htried
  have hnm : m.nextPeer = p := htried.nextPeer.trans hnext
  have hvm : (m.peers p).addr ≠ invalidAddr := by
    have haddr : (m.peers p).addr = (k.peers p).addr := htried.addr p
    rwa [haddr]
  -- The turns behind the first write the frame.
  obtain ⟨⟨new, hc, hnew⟩, -⟩ := getTxDataLoopWith_continues (fun k => tryToSend k p)
    (fun _ => tryToSend_tried) len (2 * len + 2) true true m [] hom.addressed hom.inStep
    (fun hs => hnm ▸ (hom.addressed.single hs).2) hvm (by rwa [hnm]) (Nat.zero_le len)
  refine ⟨new, hnew (by omega) htried.sending hlen, ?_⟩
  have hres := hc.result
  rw [← getTxDataLoop_eq] at hres
  unfold getTxData
  rw [← hp]
  unfold getTxDataLoop
  have hfull : ¬len ≤ ([] : List Byte).length := Nat.not_le.mpr hlen
  have hidle : ¬h.events.txSending = true := by rw [ht]; exact Bool.noConfusion
  rw [if_neg hfull, if_neg hidle, if_neg (hp ▸ ha)]
  dsimp only
  rw [← hk, hturn]
  exact hres

/-- A call that has something to send writes something. -/
theorem Wakeful.sends (hw : Wakeful h) (ho : Ordered h) (hm : h.settings.mode = .abm)
    (hp : h.isPrimaryStation = true) (ht : h.events.txSending = false)
    (he : Eligible (checkIdleTimeout h 0) 0) (hs : ¬Strays (checkIdleTimeout h 0) 0) {len : Nat}
    (hlen : 0 < len) : ∃ bs, bs ≠ [] ∧ (getTxData h len).result = .ok bs := by
  have hsingle : ¬Multi h := fun hn => hn.2 hm
  obtain ⟨haddr, hzero⟩ := ho.addressed.single hsingle
  have hnext : (h.peers h.nextPeer).addr ≠ invalidAddr := by
    intro hinv
    have hbits := ho.addressed.station
    rw [← haddr h.nextPeer, hinv] at hbits
    exact invalidAddr_bits hbits
  have hdue : Due h (.check 0) := ⟨hzero ▸ ho.addressed.live_next hnext, hnext, ht⟩
  have hwk : Wakeful (checkIdleTimeout h 0) := hw.operate ho hdue trivial hm
  have hset := (checkIdleTimeout_works h 0).settings
  have hn : (checkIdleTimeout h 0).settings.mode ≠ .nrm := by
    rw [hset, hm]
    exact Mode.noConfusion
  have hpk : (checkIdleTimeout h 0).isPrimaryStation = true := by
    unfold Handle.isPrimaryStation
    rw [hset]
    exact hp
  obtain ⟨m, hturn⟩ := tryToSend_chooses hn (hwk.marker hpk) (hwk.waiting he) he hs
  exact getTxData_writes ho ht hnext (by rw [hzero]; exact hturn) hlen

/-- A run in which no search strays keeps the flag raised as long as a frame is eligible, and
the next call sends something then. -/
theorem wake_up_kept {past : History W N} (hl : Lives NoStray h past) :
    (∀ k, Visits past h k → k.settings.mode = .abm → k.events.txSending = false → Eligible k 0 →
      k.events.txDataAvailable = true) ∧
    (h.settings.mode = .abm → h.isPrimaryStation = true → h.events.txSending = false →
      Eligible (checkIdleTimeout h 0) 0 → ¬Strays (checkIdleTimeout h 0) 0 →
        ∀ len, 0 < len → ∃ bs, bs ≠ [] ∧ (getTxData h len).result = .ok bs) := by
  have hwake := hl.invariant (P := fun k => k.settings.mode = .abm → Wakeful k)
    (fun init hdlc millis _ _ _ => initHandle_wakeful init hdlc millis)
    fun k o hord hd hg hw hm => by
      rw [operate_settings hord hd] at hm
      exact (hw hm).operate hord hd hg hm
  have ho := (hl.rule (P := fun _ _ => True) (fun _ _ _ _ _ => trivial)
    fun _ _ _ _ _ _ _ => trivial).1
  exact ⟨fun k hk hm _ he => (hwake k hk hm).waiting he, fun hm hp ht he hs _ hlen =>
    (hwake h (.inl rfl) hm).sends ho hm hp ht he hs hlen⟩

/-- The peer connects, and a frame is accepted. -/
def connectAndAccept : List Call :=
  [.onFrameRead [0x03, 0x2F], .getTxData 16, .sendPacketTo 0 [1]]

theorem wake_up_kept_connectAndAccept :
    (connectAndAccept.foldl call (smallHandle 2 1 .abm)).events.txDataAvailable = true ∧
      ∃ bs, bs ≠ [] ∧
        (getTxData (connectAndAccept.foldl call (smallHandle 2 1 .abm)) 16).result = .ok bs := by
  have hl : Lives NoStray _ (history (smallHandle 2 1 .abm) connectAndAccept) :=
    smallHandle_lives (by decide) (by decide) (by decide +kernel)
  have hkept := wake_up_kept hl
  exact ⟨hkept.1 _ (.inl rfl) (by decide +kernel) (by decide +kernel) (by decide +kernel),
    hkept.2 (by decide +kernel) (by decide +kernel) (by decide +kernel) (by decide +kernel)
      (by decide +kernel) 16 (by decide)⟩

/-- The frame is sent and requested again, but it is confirmed before that, and a second
frame is accepted.  The search for the first ends the call. -/
def confirmRequested : List Call := connectAndAccept ++
  [.getTxData 16, .onFrameRead [0x01, 0x0D], .onFrameRead [0x01, 0x21], .sendPacketTo 0 [2],
    .getTxData 16]

/-- The second frame waits then, and the calls send nothing. -/
theorem wake_up_lost : ∃ h : Handle 2 1, Reachable AnyFrame h ∧ h.settings.mode = .abm ∧
    h.isPrimaryStation = true ∧ h.events.txSending = false ∧ Eligible h 0 ∧
    h.events.txDataAvailable = false ∧ (getTxData h 16).result = .ok [] := by
  refine ⟨confirmRequested.foldl call (smallHandle 2 1 .abm),
    (smallHandle_reachable _ .abm (by decide) (by decide)).calls (callsOk_any _ _),
    ?_, ?_, ?_, ?_, ?_, ?_⟩
  · decide +kernel
  · decide +kernel
  · decide +kernel
  · decide +kernel
  · decide +kernel
  · decide +kernel

end TinyProto.Fd
