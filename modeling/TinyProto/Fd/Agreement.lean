import TinyProto.Fd.Window

/-!
# Queue and window agree

The I-frames queued for a peer are those with the numbers `[confirm_ns, last_ns)`, one
each, with the payloads that were accepted in this connection and not confirmed yet
(`queue_agrees`).

RSET clears the counters and leaves the queue as it is.  So this holds as long as RSET
comes with an empty window only (`ResetIdle`).  `stale_slot` is what happens otherwise.
-/

set_option linter.unusedSectionVars false

namespace TinyProto.Fd

open Hdlc Runs SlotWindow

variable {W N : Nat} [NeZero W] [NeZero N] {h h' : Handle W N} {p q : Fin N}

/-- The queue agrees with the counters of the peer and the history. -/
structure Agrees (h : Handle W N) (p : Fin N) : Prop where
  holds : Holds (h.window p) (h.control p).confirmNs (unconfirmed p h.log)
  count : ((h.control p).lastNs - (h.control p).confirmNs).toNat = (unconfirmed p h.log).length

theorem Agrees.congr (ha : Agrees h p) (hw : h'.window p = h.window p)
    (hl : (h'.control p).lastNs = (h.control p).lastNs)
    (hc : (h'.control p).confirmNs = (h.control p).confirmNs)
    (hu : unconfirmed p h'.log = unconfirmed p h.log) : Agrees h' p where
  holds := by
    rw [hw, hc, hu]
    exact ha.holds
  count := by
    rw [hl, hc, hu]
    exact ha.count

theorem Agrees.length_lt (ha : Agrees h p) : (unconfirmed p h.log).length < 2 ^ 3 := by
  rw [← ha.count]
  exact BitVec.isLt _

/-- `last_ns` is the number of the next payload. -/
theorem Agrees.lastNs_eq (ha : Agrees h p) :
    (h.control p).lastNs = number (h.control p).confirmNs (unconfirmed p h.log).length := by
  rw [← ha.count, number_of_sub]

/-- Nothing is queued, accepted or counted. -/
theorem Agrees.empty (hw : ∀ i, h.window p i = none) (hc : h.control p = IQueueControl.reset)
    (hu : unconfirmed p h.log = []) : Agrees h p where
  holds := by
    rw [hu]
    exact .empty hw
  count := by
    rw [hu, hc]
    rfl

/-- A frame is confirmed. -/
theorem Agrees.confirmOne (ho : Owned h) (hp : Live h p) (ha : Agrees h p)
    (hne : (h.control p).confirmNs ≠ (h.control p).lastNs) : Agrees (confirmOne h p) p := by
  have hcount := sub_succ hne.symm
  cases hu : unconfirmed p h.log with
  | nil =>
    have := ha.count
    rw [hu] at this
    rw [this] at hcount
    exact absurd hcount (Nat.succ_ne_zero _)
  | cons x u =>
    have hholds := ha.holds
    rw [hu] at hholds
    obtain ⟨i, hi⟩ := hholds.slot 0 (Nat.zero_lt_succ _)
    rw [number_zero] at hi
    obtain ⟨j, y, a, hj, hlog, hwin⟩ := confirmOne_window ho hp hi
    have hu' : unconfirmed p (TinyProto.Fd.confirmOne h p).log = u := by
      rw [hlog, unconfirmed_concat, hu]
      exact if_pos rfl
    have hlen := ha.length_lt
    rw [hu] at hlen
    refine ⟨?_, ?_⟩
    · rw [hwin, confirmOne_control, hu']
      exact hholds.pop (Nat.lt_of_succ_lt hlen) hj
    · rw [confirmOne_control, hu']
      have hold := ha.count
      rw [hu, ← hcount] at hold
      exact Nat.succ_inj.mp hold

theorem Agrees.setPeer (ha : Agrees h p) {f : Peer → Peer}
    (hc : (f (h.peers p)).iQueueControl.lastNs = (h.control p).lastNs ∧
      (f (h.peers p)).iQueueControl.confirmNs = (h.control p).confirmNs)
    (haddr : (f (h.peers p)).addr = (h.peers p).addr) : Agrees (h.setPeer p f) p := by
  refine ha.congr ?_ ?_ ?_ rfl
  · unfold Handle.window
    rw [setPeer_addr h p haddr]
    rfl
  · unfold Handle.control
    rw [setPeer_self]
    exact hc.1
  · unfold Handle.control
    rw [setPeer_self]
    exact hc.2

theorem Agrees.confirm (ho : Owned h) (hp : Live h p) (ha : Agrees h p) (nr : Seq) :
    Agrees (confirmSentFrames h p nr) p :=
  confirmSentFrames_rule (P := fun k => Agrees k p) ho hp
    (fun _ hok hpk hk _ hne => hk.confirmOne hok hpk hne) (fun _ hk => hk.setPeer ⟨rfl, rfl⟩ rfl) ha

theorem Agrees.resend (ha : Agrees h p) (hr : Resends p h h') : Agrees h' p := by
  obtain ⟨c, hx⟩ := hr.peer
  refine ha.congr ?_ ?_ ?_ (by rw [hr.log])
  · unfold Handle.window
    rw [hr.iQueue, (hr.addr p).1]
  · unfold Handle.control
    rw [hx]
  · unfold Handle.control
    rw [hx]

/-- A connection is opened or closed. -/
theorem Agrees.switch {connected : Bool} (hw : Switches p connected h h') (hp : Live h p) :
    Agrees h' p := by
  obtain ⟨a, hlog⟩ := hw.log
  refine .empty (fun i => ?_) hw.control ?_
  · rw [switches_window hw hp hp, if_pos rfl]
  · rw [hlog, unconfirmed_concat]
    exact if_pos rfl

/-- A frame was chosen. -/
theorem Agrees.choose (ha : Agrees h p) (r : SlotRef W) (poll : Bool) :
    Agrees (markChosen h p r poll) p := by
  have hv := markChosen_sameView h p p r poll
  obtain ⟨-, hpeers, -⟩ := markChosen_eq h p r poll
  refine ha.congr ((markChosen_sameSlots h p r poll).window (by rw [hpeers])) ?_ ?_ hv.log
  · rw [hv.control]
  · rw [hv.control]

/-- A payload is accepted.  It gets a slot, so the window had room. -/
theorem Agrees.accept {data : List Byte} (hmax : W ≤ 7) (hp : Live h p) (ha : Agrees h p)
    (hput : putIFrame? h p data = some h') : Agrees (h'.emit (.accepted p data)) p := by
  obtain ⟨i, hi, hwin⟩ := accept_window hput hp hp
  rw [if_pos rfl] at hwin
  have hlt := ha.holds.covers.lt_card (Nat.le_of_lt ha.length_lt) hi
  rw [Fintype.card_fin] at hlt
  have hcontrol : (h'.control p).lastNs = (h.control p).lastNs + 1 ∧
      (h'.control p).confirmNs = (h.control p).confirmNs := by
    rw [putIFrame_control hput]
    exact ⟨rfl, rfl⟩
  have hlog : h'.log = h.log := by
    obtain ⟨_, -, -, rfl⟩ := putIFrame_some hput
    rfl
  have hu : unconfirmed p (h'.emit (.accepted p data)).log = unconfirmed p h.log ++ [data] := by
    show unconfirmed p (h'.log ++ [_]) = _
    rw [unconfirmed_concat, hlog]
    exact if_pos rfl
  refine ⟨?_, ?_⟩
  · show Holds (h'.window p) (h'.control p).confirmNs _
    rw [hwin, hcontrol.2, hu, ha.lastNs_eq]
    exact ha.holds.push ha.length_lt hi data
  · show ((h'.control p).lastNs - (h'.control p).confirmNs).toNat = _
    rw [hu, hcontrol.1, hcontrol.2, List.length_append, List.length_singleton]
    have hsucc : (h.control p).lastNs + 1 =
        number (h.control p).confirmNs ((unconfirmed p h.log).length + 1) := by
      rw [ha.lastNs_eq]
      unfold number
      rw [BitVec.add_assoc, BitVec.ofNat_add]
      rfl
    rw [hsucc, number_sub]
    show _ < 8
    omega

/-! ## Steps -/

/-- RSET comes only if nothing is unconfirmed. -/
def ResetGuard (h : Handle W N) : Act N → Prop
  | .reset p => (h.control p).confirmNs = (h.control p).lastNs
  | _ => True

/-- The queue agrees with the counters of every peer in use, and the others have none. -/
structure InAgreement (h : Handle W N) : Prop where
  owned : Owned h
  agrees : ∀ p, Live h p → Agrees h p
  unused : ∀ p, ¬Live h p → h.control p = IQueueControl.reset ∧ unconfirmed p h.log = []

/-- RSET with an empty window. -/
theorem Agrees.reset (ha : Agrees h p) (he : (h.control p).confirmNs = (h.control p).lastNs) :
    Agrees (h.setPeer p Peer.resetCounters) p := by
  have hlen : unconfirmed p h.log = [] := by
    rw [← List.length_eq_zero_iff, ← ha.count, he, BitVec.sub_self]
    rfl
  have hholds := ha.holds
  rw [hlen] at hholds
  refine .empty (fun i => ?_) ?_ hlen
  · unfold Handle.window
    rw [setPeer_addr h p rfl]
    exact hholds.none_of_nil i
  · unfold Handle.control
    rw [setPeer_self]
    rfl

/-- What a step does to the peer it is about. -/
theorem Agrees.step {a : Act N} (hmax : W ≤ 7) (ho : Owned h) (ha : Agrees h p)
    (hact : a.actor = some p) (hg : ResetGuard h a) (hs : Step h a h') : Agrees h' p := by
  have hp := hs.actor_live hact
  cases hs with
  | @confirm q nr =>
    cases hact
    exact ha.confirm ho hp nr
  | @reject q control =>
    cases hact
    exact (ha.confirm ho hp (nrOf control)).resend (resendAllUnconfirmedFrames_resends _ p _ _)
  | @receive q nr payload hq hl =>
    cases hact
    have hst : SameStations h (h.setControl p fun c => { c with nextNr := c.nextNr + 1 }) :=
      setPeer_sameStations h p rfl
    have hnr : Agrees (h.setControl p fun c => { c with nextNr := c.nextNr + 1 }) p :=
      ha.setPeer ⟨rfl, rfl⟩ rfl
    have hconf := hnr.confirm (ho.keep hst fun i hi => ⟨hi, rfl⟩) (hst p hp).1 nr
    exact hconf.congr rfl rfl rfl (unconfirmed_silent (.single fun u => rfl))
  | resend =>
    cases hact
    exact ha.resend (resendAllUnconfirmedFrames_resends h p _ _)
  | connect _ hl =>
    cases hact
    exact .switch (switchToConnectedState_switches h (ne_connected hl)) hp
  | disconnect _ hne =>
    cases hact
    exact .switch (switchToDisconnectedState_switches h hne) hp
  | reset =>
    cases hact
    exact ha.reset hg
  | @chooseNext q i poll =>
    cases hact
    have hslots : Agrees (refreshSlot h p i) p :=
      ha.congr ((refreshSlot_sameSlots h p i).window rfl) rfl rfl rfl
    have hnext : Agrees ((refreshSlot h p i).setControl p fun c =>
        { c with nextNs := c.nextNs + 1 }) p := hslots.setPeer ⟨rfl, rfl⟩ rfl
    exact hnext.choose (.iSlot i) poll
  | @chooseRequested q i ns poll =>
    cases hact
    have hslots : Agrees (refreshSlot h p i) p :=
      ha.congr ((refreshSlot_sameSlots h p i).window rfl) rfl rfl rfl
    exact hslots.choose (.iSlot i) poll
  | accept _ _ hput =>
    cases hact
    exact ha.accept hmax hp hput
  | _ => cases hact

/-- What a step leaves alone still agrees. -/
theorem SameView.agrees (hv : SameView p h h') (hp : Live h p) (ha : Agrees h p) : Agrees h' p :=
  ha.congr (hv.window hp) (by rw [hv.control]) (by rw [hv.control]) hv.log

theorem InAgreement.step {a : Act N} (hmax : W ≤ 7) (hw : Addressed h) (hi : InAgreement h)
    (hg : ResetGuard h a) (hs : Step h a h') : InAgreement h' := by
  have hsame : ∀ p, a.actor ≠ some p → a ≠ .register p → SameView p h h' := fun p hq hr =>
    hs.others hi.owned hq hr
  refine ⟨hs.owned hw hi.owned, fun p hp => ?_, fun p hp => ?_⟩
  · by_cases hr : a = .register p
    · -- A new peer had no counters and has no frames.
      subst hr
      by_cases hlive : Live h p
      · cases hs with
        | register hinv =>
          have hbits := hlive.2
          rw [hinv] at hbits
          exact absurd hbits invalidAddr_bits
      · obtain ⟨hc, hu⟩ := hi.unused p hlive
        refine .empty (register_window hi.owned hs hp) ?_ ?_
        · rw [← hc]
          cases hs with
          | register => exact setPeer_control_keep h p rfl
        · rw [← hu]
          cases hs with
          | register => rfl
    · have hlive := (hs.live_iff hw hr).mp hp
      by_cases hact : a.actor = some p
      · exact (hi.agrees p hlive).step hmax hi.owned hact hg hs
      · exact (hsame p hact hr).agrees hlive (hi.agrees p hlive)
  · have hlive : ¬Live h p := fun hlive => hp (hlive.step hw hs).1
    obtain ⟨hc, hu⟩ := hi.unused p hlive
    have hact : a.actor ≠ some p := fun hact => hlive (hs.actor_live hact)
    by_cases hr : a = .register p
    · subst hr
      cases hs with
      | register =>
        refine ⟨?_, hu⟩
        rw [← hc]
        exact setPeer_control_keep h p rfl
    · have hv := hsame p hact hr
      exact ⟨hv.control.trans hc, hv.log.trans hu⟩

theorem initHandle_inAgreement (init : InitParams) (hdlc : HdlcLl (SlotRef W))
    (millis : BitVec 32) : InAgreement (initHandle W N init hdlc millis) where
  owned i hi := by cases hi
  agrees p _ := .empty (fun i => Slot.entry_none QueueType.noConfusion) rfl rfl
  unused p _ := ⟨rfl, rfl⟩

/-! ## Reachable states -/

/-- An RSET frame comes only if nothing is unconfirmed. -/
def ResetIdle (h : Handle W N) : List Byte → Prop
  | address :: control :: _ =>
      ∀ p, addressFieldToPeer h address = some p → isUFrame control →
        uTypeOf control = UType.rset.bits → (h.control p).confirmNs = (h.control p).lastNs
  | _ => True

theorem resetGuard_fair : Fair (ResetGuard (W := W) (N := N)) := by
  intro h a ha
  cases a with
  | reset => exact absurd trivial ha
  | _ => trivial

theorem ResetIdle.frameOk {data : List Byte} (hok : ResetIdle h data) :
    FrameOk ResetGuard h data := by
  rintro address control payload p rfl hp
  refine ⟨fun k a hk hact => ?_, fun k _ => trivial, fun k _ _ _ => trivial⟩
  unfold frameAct at hact
  split at hact
  · next hu =>
    split at hact
    · next hr =>
      cases hact
      show (k.control p).confirmNs = (k.control p).lastNs
      rw [hk]
      exact hok p hp hu hr
    · cases hact
  · split at hact
    · cases hact
      split <;> trivial
    · split at hact <;> cases hact <;> trivial

/-- The slot holds an I-frame for the peer. -/
def Handle.IsFrameOf (h : Handle W N) (p : Fin N) (i : Fin W) : Prop :=
  (h.iQueue.frames i).type = .iFrame ∧ (h.iQueue.frames i).address = (h.peers p).addr

/-- The I-frames for a peer are the accepted payloads that are not confirmed yet, with the
numbers `[confirm_ns, last_ns)`. -/
structure QueueAgrees (h : Handle W N) (p : Fin N) : Prop where
  /-- The interval has a number for each payload. -/
  count : ((h.control p).lastNs - (h.control p).confirmNs).toNat = (unconfirmed p h.log).length
  /-- Each of the numbers has exactly one slot, which holds the payload. -/
  slot : ∀ k (hk : k < (unconfirmed p h.log).length), ∃ i,
    h.IsFrameOf p i ∧
      nsOf (h.iQueue.frames i).control = (h.control p).confirmNs + BitVec.ofNat 3 k ∧
      (h.iQueue.frames i).payload = (unconfirmed p h.log)[k] ∧
      ∀ j, h.IsFrameOf p j → nsOf (h.iQueue.frames j).control = nsOf (h.iQueue.frames i).control →
        j = i
  /-- No slot is outside of the interval. -/
  inside : ∀ i, h.IsFrameOf p i →
    (nsOf (h.iQueue.frames i).control - (h.control p).confirmNs).toNat <
      ((h.control p).lastNs - (h.control p).confirmNs).toNat

theorem Handle.IsFrameOf.window {i : Fin W} (hi : h.IsFrameOf p i) :
    h.window p i = some (nsOf (h.iQueue.frames i).control, (h.iQueue.frames i).payload) :=
  Slot.entry_some.mpr ⟨hi.1, hi.2, rfl, rfl⟩

theorem Agrees.queueAgrees (ha : Agrees h p) : QueueAgrees h p where
  count := ha.count
  slot k hk := by
    obtain ⟨i, hi⟩ := ha.holds.slot k hk
    obtain ⟨ht, haddr, hns, hx⟩ := Slot.entry_some.mp hi
    refine ⟨i, ⟨ht, haddr⟩, hns, hx, fun j hj hsame => ?_⟩
    have hwj := hj.window
    rw [hsame, hns] at hwj
    exact ha.holds.unique j i _ _ _ hwj hi
  inside i hi := by
    rw [ha.count]
    exact ha.holds.inside i _ _ hi.window

/-- Nobody has a frame for a peer that is not registered. -/
theorem InAgreement.queueAgrees_unused (hi : InAgreement h) (hp : ¬Live h p)
    (haddr : (h.peers p).addr = invalidAddr) : QueueAgrees h p := by
  obtain ⟨hc, hu⟩ := hi.unused p hp
  refine (Agrees.empty (fun i => ?_) hc hu).queueAgrees
  cases hwi : h.window p i with
  | none => rfl
  | some r =>
    obtain ⟨ht, ha, -, -⟩ := Slot.entry_some.mp hwi
    obtain ⟨q, hq, haq⟩ := hi.owned i ht
    have hbits := hq.2
    rw [← haq, ha, haddr] at hbits
    exact absurd hbits invalidAddr_bits

/-- As long as RSET comes with an empty window only, the queue agrees with the counters of
every peer.  A secondary station and a station in ABM have one peer. -/
theorem queue_agrees (hr : Reachable ResetIdle h) (p : Fin N) (hp : ¬Multi h → p = 0) :
    QueueAgrees h p := by
  obtain ⟨-, hw, hi⟩ := hr.invariant (P := InAgreement) resetGuard_fair (fun _ _ => trivial)
    (fun _ _ => trivial)
    (fun _ _ hok => hok.frameOk) initHandle_inAgreement
    fun _ _ _ hmax hw hi hg hs => hi.step hmax hw hg hs
  by_cases hlive : Live h p
  · exact (hi.agrees p hlive).queueAgrees
  · refine hi.queueAgrees_unused hlive ?_
    by_contra hne
    exact hlive (hw.live_of_unique hne hp)

/-- SABM, and a payload that nobody confirms. -/
def openAndSend : List Call := [.onFrameRead [0x03, 0x2F], .sendPacketTo 0 [0xAA]]

theorem queue_agrees_openAndSend :
    QueueAgrees (openAndSend.foldl call (smallHandle 2 1 .abm)) 0 := by
  refine queue_agrees ((smallHandle_reachable ResetIdle .abm (by decide) (by decide)).calls ?_) 0
    fun _ => rfl
  exact ⟨fun p _ _ hr => absurd hr (by decide), trivial, trivial⟩

/-- RSET, and another payload. -/
def resetAndSend : List Call := [.onFrameRead [0x03, 0x8F], .sendPacketTo 0 [0xBB]]

/-- RSET clears the counters and leaves the frame in its slot.  The next payload gets the
same number. -/
theorem stale_slot : ∃ h : Handle 2 1, Reachable AnyFrame h ∧ ¬QueueAgrees h 0 := by
  refine ⟨(openAndSend ++ resetAndSend).foldl call (smallHandle 2 1 .abm),
    (smallHandle_reachable _ .abm (by decide) (by decide)).calls (callsOk_any _ _), fun ha => ?_⟩
  generalize hh : (openAndSend ++ resetAndSend).foldl call (smallHandle 2 1 .abm) = h at ha
  have hslots : ∀ i, (h.iQueue.frames i).type = .iFrame ∧
      (h.iQueue.frames i).address = (h.peers 0).addr ∧
      nsOf (h.iQueue.frames i).control = (h.control 0).confirmNs + BitVec.ofNat 3 0 := by
    rw [← hh]
    decide +kernel
  have hcount : 0 < ((h.control 0).lastNs - (h.control 0).confirmNs).toNat := by
    rw [← hh]
    decide +kernel
  rw [ha.count] at hcount
  obtain ⟨i, -, hns, -, hone⟩ := ha.slot 0 hcount
  have heq : ∀ j, j = i := fun j =>
    hone j ⟨(hslots j).1, (hslots j).2.1⟩ ((hslots j).2.2.trans hns.symm)
  exact absurd ((heq 0).trans (heq 1).symm) (by decide)

end TinyProto.Fd
