import TinyProto.Fd.Agreement

/-!
# The cursors of the send window

`next_ns` stays between `confirm_ns` and `last_ns`, so there is always a frame to send, or
a timer that brings one back (`send_window`).

Confirmation stops at `last_ns`, not at the last frame that was sent.  After the window
was rewound an acknowledgement can therefore carry `confirm_ns` past `next_ns`
(`late_acknowledgement`).  The theorem asks of each N(R) that it does not (`AckInRange`).
-/

set_option linter.unusedSectionVars false

namespace TinyProto.Fd

open Hdlc Runs SlotWindow

variable {W N : Nat} [NeZero W] [NeZero N] {h h' : Handle W N} {p : Fin N}

/-! ## Where the cursors go -/

/-- The number of unconfirmed frames. -/
def IQueueControl.span (c : IQueueControl) : Nat := (c.lastNs - c.confirmNs).toNat

/-- The number of unconfirmed frames that were sent. -/
def IQueueControl.progress (c : IQueueControl) : Nat := (c.nextNs - c.confirmNs).toNat

/-- `confirm_ns` after an acknowledgement. -/
def IQueueControl.confirmed (c : IQueueControl) (nr : Seq) : Seq :=
  if (nr - c.confirmNs).toNat ≤ c.span then nr else c.lastNs

/-- `next_ns` after the request to send from N(R) on. -/
def IQueueControl.rewound (c : IQueueControl) (nr : Seq) : Seq :=
  if (nr - c.confirmNs).toNat ≤ c.progress then nr else c.confirmNs

theorem sub_self_toNat (s : Seq) : (s - s).toNat = 0 := by
  rw [BitVec.sub_self]
  rfl

theorem sub_left_inj {a b c : Seq} (hab : (a - c).toNat = (b - c).toNat) : a = b := by
  rw [← number_of_sub c a, hab, number_of_sub]

/-- One step back from a number that is not the first. -/
theorem pred_sub {s base : Seq} (hne : s ≠ base) : (s - 1 - base).toNat + 1 = (s - base).toNat := by
  rw [← sub_succ hne, BitVec.sub_sub, BitVec.add_comm 1 base]

theorem confirmed_succ {c : IQueueControl} {nr : Seq} (hnr : nr ≠ c.confirmNs)
    (hne : c.confirmNs ≠ c.lastNs) :
    ({ c with confirmNs := c.confirmNs + 1 } : IQueueControl).confirmed nr = c.confirmed nr := by
  have hs := sub_succ hne.symm
  have hr := sub_succ hnr
  unfold IQueueControl.confirmed IQueueControl.span
  dsimp only
  congr 1
  rw [← hs, ← hr, Nat.succ_le_succ_iff]

/-- The loop runs until N(R) is reached, or nothing is left to confirm. -/
theorem confirmLoop_control (nr : Seq) : ∀ (fuel : Nat) (h : Handle W N),
    (h.control p).span < fuel →
      (confirmLoop fuel h p nr).control p =
        { h.control p with confirmNs := (h.control p).confirmed nr }
  | 0, _, hf => absurd hf (Nat.not_lt_zero _)
  | fuel + 1, h, hf => by
    unfold confirmLoop
    split
    · next hnr =>
      rw [hnr]
      unfold IQueueControl.confirmed
      rw [sub_self_toNat, if_pos (Nat.zero_le _)]
    · next hnr =>
      split
      · next hun =>
        have he : (h.control p).confirmNs = (h.control p).lastNs := by
          unfold IQueueControl.hasUnconfirmedFrames at hun
          simpa using hun
        unfold IQueueControl.confirmed IQueueControl.span
        rw [← he, sub_self_toNat, if_neg]
        intro hle
        refine hnr ?_
        rw [← number_of_sub (h.control p).confirmNs nr, Nat.le_zero.mp hle, number_zero]
      · next hun =>
        have hne : (h.control p).confirmNs ≠ (h.control p).lastNs := by
          unfold IQueueControl.hasUnconfirmedFrames at hun
          simpa using hun
        have hcontrol := confirmOne_control h p
        have hspan : ((confirmOne h p).control p).span < fuel := by
          rw [hcontrol]
          have hs := sub_succ hne.symm
          unfold IQueueControl.span at hf ⊢
          dsimp only
          omega
        rw [confirmLoop_control nr fuel _ hspan, hcontrol, confirmed_succ hnr hne]

theorem confirmSentFrames_control (h : Handle W N) (p : Fin N) (nr : Seq) :
    (confirmSentFrames h p nr).control p =
      { h.control p with confirmNs := (h.control p).confirmed nr } := by
  have hloop := confirmLoop_control nr 8 h (BitVec.isLt ((h.control p).lastNs - (h.control p).confirmNs))
  unfold confirmSentFrames
  dsimp only
  split
  · rw [setPeer_control_keep, hloop]
    rfl
  · exact hloop

theorem resendAllUnconfirmedFrames_control (h : Handle W N) (p : Fin N) (control : Byte)
    (nr : Seq) : (resendAllUnconfirmedFrames h p control nr).control p =
      { h.control p with nextNs := (h.control p).rewound nr } := by
  show (resendLoop 8 h p control nr).control p = _
  -- While the loop runs, N(R) is not passed if it is in the way.
  refine resendLoop_rule (P := fun k => ∃ x, k.control p = { h.control p with nextNs := x } ∧
      (x - (h.control p).confirmNs).toNat ≤ (h.control p).progress ∧
      ((nr - (h.control p).confirmNs).toNat ≤ (h.control p).progress →
        (nr - (h.control p).confirmNs).toNat ≤ (x - (h.control p).confirmNs).toNat))
    (Q := fun k => k.control p = { h.control p with nextNs := (h.control p).rewound nr })
    ?_ ?_ ?_ 8 h ⟨_, rfl, Nat.le_refl _, id⟩ (BitVec.isLt _)
  · rintro k ⟨x, hk, hx, hin⟩ hnr hgo
    rw [hk] at hnr hgo
    have hback : (x - 1 - (h.control p).confirmNs).toNat + 1 = (x - (h.control p).confirmNs).toNat :=
      pred_sub (Ne.symm hgo)
    refine ⟨x - 1, ?_, ?_, fun hle => ?_⟩
    · unfold moveToPreviousNs
      rw [setControl_self, hk]
    · omega
    · have hlt : (nr - (h.control p).confirmNs).toNat ≠ (x - (h.control p).confirmNs).toNat :=
        fun he => hnr (sub_left_inj he).symm
      have := hin hle
      omega
  · rintro k ⟨x, hk, hx, hin⟩ hnr
    have hxnr : x = nr := by
      rw [hk] at hnr
      exact hnr
    subst hxnr
    rw [hk]
    unfold IQueueControl.rewound
    rw [if_pos hx]
  · rintro k ⟨x, hk, hx, hin⟩ hnr hend
    rw [putUSFrame_control, hk]
    rw [hk] at hnr hend
    have hxc : (h.control p).confirmNs = x := hend
    unfold IQueueControl.rewound
    rw [if_neg, hxc]
    intro hle
    have hzero := hin hle
    rw [← hxc, sub_self_toNat, Nat.le_zero, ← sub_self_toNat (h.control p).confirmNs] at hzero
    exact hnr (hxc.symm.trans (sub_left_inj hzero).symm)

/-! ## The order of the cursors -/

/-- `next_ns` is in the window. -/
def IQueueControl.Ordered (c : IQueueControl) : Prop := c.progress ≤ c.span

theorem allFramesAreSent_iff {c : IQueueControl} : c.allFramesAreSent ↔ c.lastNs = c.nextNs := by
  unfold IQueueControl.allFramesAreSent
  exact beq_iff_eq

theorem ordered_of_sent {c : IQueueControl} (hs : c.allFramesAreSent) : c.Ordered := by
  unfold IQueueControl.Ordered IQueueControl.progress IQueueControl.span
  rw [allFramesAreSent_iff.mp hs]

theorem ordered_of_confirm {c : IQueueControl} (hc : c.nextNs = c.confirmNs) : c.Ordered := by
  unfold IQueueControl.Ordered IQueueControl.progress
  rw [hc, sub_self_toNat]
  exact Nat.zero_le _

/-- The distance from a number in between. -/
theorem sub_of_le {c n s : Seq} (hle : (n - c).toNat ≤ (s - c).toNat) :
    (s - n).toNat = (s - c).toNat - (n - c).toNat := by
  bv_omega

/-- N(R) acknowledges sent frames only, or all frames are sent. -/
def IQueueControl.Acknowledges (c : IQueueControl) (nr : Seq) : Prop :=
  c.allFramesAreSent ∨ (nr - c.confirmNs).toNat ≤ c.progress

/-- N(R) acknowledges accepted frames only, or all frames are sent. -/
def IQueueControl.Rejects (c : IQueueControl) (nr : Seq) : Prop :=
  c.allFramesAreSent ∨ (nr - c.confirmNs).toNat ≤ c.span

/-- An acknowledgement keeps the order. -/
theorem IQueueControl.Ordered.confirm {c : IQueueControl} {nr : Seq} (ho : c.Ordered)
    (ha : c.Acknowledges nr) :
    ({ c with confirmNs := c.confirmed nr } : IQueueControl).Ordered := by
  rcases ha with hs | hle
  · refine ordered_of_sent ?_
    rw [allFramesAreSent_iff] at hs ⊢
    exact hs
  · have hspan := Nat.le_trans hle ho
    unfold IQueueControl.confirmed
    rw [if_pos hspan]
    unfold IQueueControl.Ordered IQueueControl.progress IQueueControl.span at *
    dsimp only
    rw [sub_of_le hle, sub_of_le hspan]
    exact Nat.sub_le_sub_right ho _

/-- Going back keeps the order. -/
theorem IQueueControl.Ordered.rewind {c : IQueueControl} (ho : c.Ordered) (nr : Seq) :
    ({ c with nextNs := c.rewound nr } : IQueueControl).Ordered := by
  unfold IQueueControl.rewound
  split
  · next hle => exact Nat.le_trans hle ho
  · exact ordered_of_confirm rfl

/-- A REJ keeps the order: where the acknowledgement passes `next_ns`, the window starts
over at N(R). -/
theorem IQueueControl.Ordered.reject {c : IQueueControl} {nr : Seq} (ho : c.Ordered)
    (hr : c.Rejects nr) :
    let d : IQueueControl := { c with confirmNs := c.confirmed nr }
    ({ d with nextNs := d.rewound nr } : IQueueControl).Ordered := by
  intro d
  rcases hr with hs | hle
  · exact (ho.confirm (.inl hs)).rewind nr
  · have hc : d.confirmNs = nr := if_pos hle
    refine ordered_of_confirm ?_
    show d.rewound nr = d.confirmNs
    unfold IQueueControl.rewound
    rw [hc, sub_self_toNat, if_pos (Nat.zero_le _)]

/-! ## Steps -/

/-- N(R) acknowledges what was sent, and RSET comes only if nothing is unconfirmed. -/
def AckGuard (h : Handle W N) : Act N → Prop
  | .confirm p nr | .receive p nr => (h.control p).Acknowledges nr
  | .reject p nr => (h.control p).Rejects nr
  | a => ResetGuard h a

theorem AckGuard.reset {a : Act N} (hg : AckGuard h a) : ResetGuard h a := by
  cases a with
  | confirm => trivial
  | receive => trivial
  | reject => trivial
  | _ => exact hg

/-- The cursors of every peer are in order. -/
structure InOrder (h : Handle W N) : Prop where
  agreement : InAgreement h
  ordered : ∀ p, (h.control p).Ordered
  connected : ∀ p, (h.peers p).state = .connected → Live h p

theorem setPeer_control (h : Handle W N) (p : Fin N) (f : Peer → Peer) :
    (h.setPeer p f).control p = (f (h.peers p)).iQueueControl := by
  unfold Handle.control
  rw [setPeer_self]

theorem markChosen_control (h : Handle W N) (p : Fin N) (r : SlotRef W) (poll : Bool) :
    (markChosen h p r poll).control p = h.control p := by
  unfold Handle.control
  rw [(markChosen_eq h p r poll).2.1]

/-- The frame with number `next_ns` is an unconfirmed one, so it is not behind the window. -/
theorem Agrees.ordered_next {i : Fin W} {x : List Byte} (ha : Agrees h p)
    (hi : h.window p i = some ((h.control p).nextNs, x)) :
    ({ h.control p with nextNs := (h.control p).nextNs + 1 } : IQueueControl).Ordered := by
  have hin := ha.holds.inside i _ _ hi
  rw [← ha.count] at hin
  have hlast := BitVec.isLt ((h.control p).lastNs - (h.control p).confirmNs)
  unfold IQueueControl.Ordered IQueueControl.progress IQueueControl.span
  dsimp only
  bv_omega

/-- A payload widens the window.  It got a slot, so there are less than seven others. -/
theorem Agrees.ordered_accept (hmax : W ≤ 7) (ha : Agrees h p) (ho : (h.control p).Ordered)
    {i : Fin W} (hi : h.window p i = none) :
    ({ h.control p with lastNs := (h.control p).lastNs + 1 } : IQueueControl).Ordered := by
  have hlt := ha.holds.covers.lt_card (Nat.le_of_lt ha.length_lt) hi
  rw [Fintype.card_fin, ← ha.count] at hlt
  unfold IQueueControl.Ordered IQueueControl.progress IQueueControl.span at *
  dsimp only at *
  bv_omega

/-- What a step does to the cursors of the peer it is about. -/
theorem InOrder.step_actor {a : Act N} (hmax : W ≤ 7) (hi : InOrder h) (hact : a.actor = some p)
    (hg : AckGuard h a) (hs : Step h a h') : (h'.control p).Ordered := by
  have ho := hi.ordered p
  have hp := hs.actor_live hact
  have ha := hi.agreement.agrees p hp
  cases hs with
  | @confirm q nr =>
    cases hact
    rw [confirmSentFrames_control]
    exact ho.confirm hg
  | @reject q control =>
    cases hact
    rw [resendAllUnconfirmedFrames_control, confirmSentFrames_control]
    exact ho.reject hg
  | @receive q nr payload =>
    cases hact
    show ((confirmSentFrames _ p nr).control p).Ordered
    rw [confirmSentFrames_control, setControl_self]
    exact ho.confirm hg
  | resend =>
    cases hact
    rw [resendAllUnconfirmedFrames_control]
    exact ho.rewind _
  | connect _ hl =>
    cases hact
    rw [(switchToConnectedState_switches h (ne_connected hl)).control]
    exact ordered_of_sent rfl
  | disconnect _ hne =>
    cases hact
    rw [(switchToDisconnectedState_switches h hne).control]
    exact ordered_of_sent rfl
  | reset =>
    cases hact
    rw [setPeer_control]
    exact ordered_of_sent rfl
  | @chooseNext q i poll _ _ _ hnext =>
    cases hact
    rw [markChosen_control, setControl_self]
    exact ha.ordered_next (window_of_getNext hi.agreement.owned hp hnext)
  | chooseRequested =>
    cases hact
    rw [markChosen_control]
    exact ho
  | @accept k q data _ _ hput =>
    cases hact
    obtain ⟨i, hnone, -⟩ := accept_window hput hp hp
    show (k.control p).Ordered
    rw [putIFrame_control hput]
    exact ha.ordered_accept hmax ho hnone
  | _ => cases hact

theorem InOrder.step {a : Act N} (hmax : W ≤ 7) (hw : Addressed h) (hi : InOrder h)
    (hg : AckGuard h a) (hs : Step h a h') : InOrder h' := by
  refine ⟨hi.agreement.step hmax hw hg.reset hs, fun p => ?_, fun p hp => ?_⟩
  · by_cases hact : a.actor = some p
    · exact hi.step_actor hmax hact hg hs
    · have hsame : h'.control p = h.control p := by
        by_cases hr : a = .register p
        · subst hr
          cases hs with
          | register => exact setPeer_control_keep h p rfl
        · exact (hs.others hi.agreement.owned hact hr).control
      rw [hsame]
      exact hi.ordered p
  · rcases hs.state p with hst | hsw
    · rw [hst] at hp
      exact ((hi.connected p hp).step hw hs).1
    · cases hs with
      | connect hlive hne =>
        cases hsw
        exact (hlive.step hw (.connect hlive hne)).1
      | disconnect hlive hne =>
        cases hsw
        exact (hlive.step hw (.disconnect hlive hne)).1
      | request =>
        cases hsw
        rw [setPeer_self] at hp
        cases hp
      | hangUp =>
        cases hsw
        rw [setPeer_self] at hp
        cases hp
      | _ => cases hsw

theorem initHandle_inOrder (init : InitParams) (hdlc : HdlcLl (SlotRef W)) (millis : BitVec 32) :
    InOrder (initHandle W N init hdlc millis) where
  agreement := initHandle_inAgreement init hdlc millis
  ordered _ := ordered_of_sent rfl
  connected _ hp := by cases hp

/-! ## Sending the next frame -/

/-- The handle after a choice of an I-frame. -/
def passIFrame (p : Fin N) (h : Handle W N) : Handle W N := (getNextIFrame h p).1

/-- The number of frames that SREJ asked for. -/
def requests (mask : BitVec 8) : Nat := ((List.finRange 8).filter fun i : Fin 8 => mask.getLsbD i).length

theorem requests_le (mask : BitVec 8) : requests mask ≤ 8 := by
  refine Nat.le_trans (List.length_filter_le _ _) ?_
  rw [List.length_finRange]

theorem requests_served : ∀ {mask : BitVec 8} {ns : Fin 8}, firstRequested mask = some ns →
    requests (mask &&& ~~~(1#8 <<< ns.val)) < requests mask := by
  decide +kernel

/-- What a requested frame leaves alone. -/
structure Serves (p : Fin N) (h h' : Handle W N) : Prop where
  settings : h'.settings = h.settings
  addr : ∀ q, (h'.peers q).addr = (h.peers q).addr
  state : (h'.peers p).state = (h.peers p).state
  control : h'.control p = h.control p
  slots : SameSlots h.iQueue h'.iQueue

theorem Serves.trans {h₁ h₂ h₃ : Handle W N} (h₁₂ : Serves p h₁ h₂) (h₂₃ : Serves p h₂ h₃) :
    Serves p h₁ h₃ :=
  ⟨h₂₃.settings.trans h₁₂.settings, fun q => (h₂₃.addr q).trans (h₁₂.addr q),
    h₂₃.state.trans h₁₂.state, h₂₃.control.trans h₁₂.control, h₁₂.slots.trans h₂₃.slots⟩

theorem Serves.setPeer (h : Handle W N) (p : Fin N) {f : Peer → Peer}
    (hf : ∀ x : Peer, x.Quiet (f x)) : Serves p h (h.setPeer p f) :=
  ⟨rfl, setPeer_addr h p (hf _).addr, setPeer_state h p (hf _).state p,
    setPeer_control_keep h p (hf _).control, .refl _⟩

theorem refreshIFrame_serves (h : Handle W N) (p : Fin N) (i : Fin W) :
    Serves p h (refreshIFrame h p i) ∧
      ((refreshIFrame h p i).peers p).srejReqMask = (h.peers p).srejReqMask := by
  have hslot : Serves p h (refreshSlot h p i) :=
    ⟨rfl, fun _ => rfl, rfl, rfl, refreshSlot_sameSlots h p i⟩
  have heq : refreshIFrame h p i = (refreshSlot h p i).setPeer p fun x =>
      { x with sentNr := (h.control p).nextNr, lastSentITs := h.millis } := rfl
  rw [heq]
  refine ⟨hslot.trans (.setPeer _ p fun x => ⟨rfl, rfl, rfl, id⟩), ?_⟩
  rw [setPeer_self]
  rfl

theorem passIFrame_serves (hs : (h.peers p).state = .connected) {ns : Fin 8}
    (hreq : firstRequested (h.peers p).srejReqMask = some ns) :
    Serves p h (passIFrame p h) ∧
      ((passIFrame p h).peers p).srejReqMask =
        (h.peers p).srejReqMask &&& ~~~(1#8 <<< ns.val) := by
  have hnot : ¬((h.peers p).state = .disconnected ∨ (h.peers p).state = .connecting) := by
    rw [hs]
    rintro (hc | hc) <;> cases hc
  have hfirst : Serves p h (h.setPeer p fun x =>
      { x with srejReqMask := x.srejReqMask &&& ~~~(1#8 <<< ns.val) }) :=
    .setPeer h p fun x => ⟨rfl, rfl, rfl, id⟩
  unfold passIFrame getNextIFrame
  dsimp only
  rw [if_neg hnot, hreq]
  dsimp only
  split
  · next i hi =>
    obtain ⟨hserves, hmask⟩ := refreshIFrame_serves (h.setPeer p fun x =>
      { x with srejReqMask := x.srejReqMask &&& ~~~(1#8 <<< ns.val) }) p i
    refine ⟨hfirst.trans hserves, ?_⟩
    rw [hmask, setPeer_self]
  · refine ⟨hfirst, ?_⟩
    rw [setPeer_self]

/-- Without a request the next frame of the window is chosen. -/
theorem getNextIFrame_next (ho : Owned h) (hp : Live h p) (hs : (h.peers p).state = .connected)
    (hreq : firstRequested (h.peers p).srejReqMask = none) {i : Fin W} {x : List Byte}
    (hi : h.window p i = some ((h.control p).nextNs, x)) :
    ∃ j y, h.window p j = some ((h.control p).nextNs, y) ∧ (getNextIFrame h p).2 = some j := by
  have hnot : ¬((h.peers p).state = .disconnected ∨ (h.peers p).state = .connecting) := by
    rw [hs]
    rintro (hc | hc) <;> cases hc
  obtain ⟨j, hj⟩ := getNext_of_window hp hi
  refine ⟨j, _, window_of_getNext ho hp hj, ?_⟩
  unfold getNextIFrame
  dsimp only
  rw [if_neg hnot, hreq]
  dsimp only
  rw [hj]

/-- The frame with number `next_ns` is chosen, as soon as the requests are served. -/
def Transmits (h : Handle W N) (p : Fin N) : Prop :=
  ∃ k ≤ 8, ∃ i, h.IsFrameOf p i ∧
    nsOf (h.iQueue.frames i).control = (h.control p).nextNs ∧
    (getNextIFrame ((passIFrame p)^[k] h) p).2 = some i

theorem transmits_of_window : ∀ (n : Nat) (h : Handle W N), requests (h.peers p).srejReqMask ≤ n →
    Owned h → Live h p → (h.peers p).state = .connected →
    (∃ i x, h.window p i = some ((h.control p).nextNs, x)) →
    ∃ k ≤ n, ∃ i x, h.window p i = some ((h.control p).nextNs, x) ∧
      (getNextIFrame ((passIFrame p)^[k] h) p).2 = some i := by
  intro n
  induction n with
  | zero =>
    rintro h hn ho hp hs ⟨i, x, hi⟩
    cases hreq : firstRequested (h.peers p).srejReqMask with
    | none => exact ⟨0, Nat.le_refl _, getNextIFrame_next ho hp hs hreq hi⟩
    | some ns => exact absurd (Nat.lt_of_lt_of_le (requests_served hreq) hn) (Nat.not_lt_zero _)
  | succ n ih =>
    rintro h hn ho hp hs ⟨i, x, hi⟩
    cases hreq : firstRequested (h.peers p).srejReqMask with
    | none => exact ⟨0, Nat.zero_le _, getNextIFrame_next ho hp hs hreq hi⟩
    | some ns =>
      obtain ⟨hserves, hmask⟩ := passIFrame_serves hs hreq
      have hst := sameStations_of_addr hserves.settings hserves.addr
      have hwin := hserves.slots.window (hserves.addr p)
      have hnext : ((passIFrame p h).control p).nextNs = (h.control p).nextNs := by
        rw [hserves.control]
      obtain ⟨k, hk, j, y, hj, hchosen⟩ := ih (passIFrame p h)
        (by rw [hmask]; exact Nat.le_of_lt_succ (Nat.lt_of_lt_of_le (requests_served hreq) hn))
        (ho.keep hst hserves.slots.keeps) (hst p hp).1 (hserves.state.trans hs)
        ⟨i, x, by rw [hwin, hnext]; exact hi⟩
      rw [hwin, hnext] at hj
      exact ⟨k + 1, Nat.succ_le_succ hk, j, y, hj, hchosen⟩

/-- Once the retry timer has expired the unconfirmed frames are sent again, or the
connection is closed if there was the last retry. -/
def RetryArmed (h : Handle W N) (p : Fin N) : Prop :=
  ∀ ms, h.settings.retryTimeout ≤ (ms - (h.peers p).lastSentITs).toNat →
    if (h.peers p).retries > 0 then
      (checkIdleTimeout { h with millis := ms } p).control p =
        { h.control p with nextNs := (h.control p).confirmNs }
    else ((checkIdleTimeout { h with millis := ms } p).peers p).state = .disconnected

theorem connectedCheckIdleTimeout_expired (hall : (h.control p).allFramesAreSent)
    (hun : (h.control p).hasUnconfirmedFrames)
    (hms : h.settings.retryTimeout ≤ h.elapsed (h.peers p).lastSentITs) :
    connectedCheckIdleTimeout h p =
      if (h.peers p).retries > 0 then
        resendAllUnconfirmedFrames (h.setPeer p fun x => { x with retries := x.retries - 1 }) p 0
          (h.control p).confirmNs
      else switchToDisconnectedState h p :=
  if_pos ⟨hun, hall, hms⟩

theorem retryArmed (hs : (h.peers p).state = .connected) (hall : (h.control p).allFramesAreSent)
    (hun : (h.control p).hasUnconfirmedFrames) : RetryArmed h p := by
  intro ms hms
  have hcheck : checkIdleTimeout { h with millis := ms } p =
      connectedCheckIdleTimeout { h with millis := ms } p := if_pos (.inl hs)
  have hexpired := connectedCheckIdleTimeout_expired (h := { h with millis := ms }) hall hun hms
  rw [hcheck, hexpired]
  by_cases hr : (h.peers p).retries > 0
  · rw [if_pos hr, if_pos hr, resendAllUnconfirmedFrames_control, setPeer_control_keep _ p rfl]
    unfold IQueueControl.rewound
    split <;> rfl
  · rw [if_neg hr, if_neg hr]
    exact disconnected_state _ p

/-! ## Reachable states -/

/-- The frame acknowledges only what was sent, unless all frames are sent.  A REJ may
acknowledge what was accepted.  RSET comes only if nothing is unconfirmed. -/
def AckInRange (h : Handle W N) : List Byte → Prop
  | address :: control :: _ =>
      ∀ p, addressFieldToPeer h address = some p →
        if isUFrame control then
          uTypeOf control = UType.rset.bits → (h.control p).confirmNs = (h.control p).lastNs
        else if !isIFrame control ∧ sTypeOf control = SType.rej.bits then
          (h.control p).Rejects (nrOf control)
        else (h.control p).Acknowledges (nrOf control)
  | _ => True

theorem ackGuard_fair : Fair (AckGuard (W := W) (N := N)) := by
  intro h a ha
  cases a with
  | confirm => exact absurd trivial ha
  | receive => exact absurd trivial ha
  | reject => exact absurd trivial ha
  | reset => exact absurd trivial ha
  | _ => trivial

theorem AckInRange.frameOk {data : List Byte} (hok : AckInRange h data) :
    FrameOk AckGuard h data := by
  rintro address control payload p rfl hp
  have hin := hok p hp
  refine ⟨fun k a hk hact => ?_, fun k _ => trivial, fun k _ _ _ => trivial⟩
  unfold frameAct at hact
  by_cases hu : isUFrame control = true
  · rw [if_pos hu] at hact hin
    split at hact
    · next hr =>
      cases hact
      show (k.control p).confirmNs = (k.control p).lastNs
      rw [hk]
      exact hin hr
    · cases hact
  · rw [if_neg hu] at hact hin
    by_cases hi : isIFrame control = true
    · rw [if_pos hi] at hact
      rw [if_neg fun hc => by simp [hi] at hc, ← hk] at hin
      cases hact
      split
      · exact hin
      · exact hin
    · rw [if_neg hi] at hact
      split at hact
      · next hr =>
        rw [if_pos ⟨by simp [hi], hr⟩, ← hk] at hin
        cases hact
        exact hin
      · next hr =>
        rw [if_neg fun hc => hr hc.2, ← hk] at hin
        cases hact
        exact hin

/-- The send window of a peer. -/
structure SendWindow (h : Handle W N) (p : Fin N) : Prop where
  /-- The next frame to send is in the cyclic interval. -/
  inside : ((h.control p).nextNs - (h.control p).confirmNs).toNat ≤
    ((h.control p).lastNs - (h.control p).confirmNs).toNat
  transmits : ¬(h.control p).allFramesAreSent → Transmits h p
  armed : (h.control p).allFramesAreSent → (h.control p).hasUnconfirmedFrames → RetryArmed h p

/-- As long as no N(R) passes the frames that were sent, and RSET comes with an empty window
only, every connected peer has its next frame in the window. -/
theorem send_window (hr : Reachable AckInRange h) (hp : (h.peers p).state = .connected) :
    SendWindow h p := by
  obtain ⟨-, -, hi⟩ := hr.invariant (P := InOrder) ackGuard_fair (fun _ _ => trivial)
    (fun _ _ => trivial)
    (fun _ _ hok => hok.frameOk) initHandle_inOrder
    fun _ _ _ hmax hw hi hg hs => hi.step hmax hw hg hs
  have hlive := hi.connected p hp
  have ha := hi.agreement.agrees p hlive
  refine ⟨hi.ordered p, fun hsent => ?_, fun hall hun => retryArmed hp hall hun⟩
  have hlt : ((h.control p).nextNs - (h.control p).confirmNs).toNat <
      (unconfirmed p h.log).length := by
    rw [← ha.count]
    refine Nat.lt_of_le_of_ne (hi.ordered p) fun he => hsent ?_
    exact allFramesAreSent_iff.mpr (sub_left_inj he).symm
  obtain ⟨i, hi'⟩ := ha.holds.slot _ hlt
  rw [number_of_sub] at hi'
  obtain ⟨k, hk, j, y, hj, hchosen⟩ := transmits_of_window 8 h (requests_le _) hi.agreement.owned
    hlive hp ⟨i, _, hi'⟩
  obtain ⟨ht, haddr, hns, -⟩ := Slot.entry_some.mp hj
  exact ⟨k, hk, j, ⟨ht, haddr⟩, hns, hchosen⟩

theorem send_window_openAndSend :
    SendWindow (openAndSend.foldl call (smallHandle 2 1 .abm)) 0 := by
  refine send_window ((smallHandle_reachable AckInRange .abm (by decide) (by decide)).calls ?_)
    (by decide +kernel)
  refine ⟨fun p _ => ?_, trivial, trivial⟩
  rw [if_pos (by decide)]
  exact fun hr => absurd hr (by decide)

/-- SABM, two payloads, and the first one sent again after the retry timeout. -/
def sendAndRewind : List Call :=
  [.onFrameRead [0x03, 0x2F], .sendPacketTo 0 [0xAA], .sendPacketTo 0 [0xBB], .getTxData 32,
    .getTxData 32, .getTxData 32, .tick 200, .getTxData 32]

/-- The RR for both payloads. -/
def lateRr : List Call := [.onFrameRead [0x01, 0x41]]

/-- The RR leaves `next_ns` behind the empty window. -/
theorem late_acknowledgement : ∃ h : Handle 2 1, Reachable AnyFrame h ∧
    (h.peers 0).state = .connected ∧ ¬SendWindow h 0 := by
  refine ⟨(sendAndRewind ++ lateRr).foldl call (smallHandle 2 1 .abm),
    (smallHandle_reachable _ .abm (by decide) (by decide)).calls (callsOk_any _ _),
    by decide +kernel, fun hs => ?_⟩
  refine absurd hs.inside ?_
  decide +kernel

end TinyProto.Fd
