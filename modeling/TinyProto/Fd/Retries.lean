import TinyProto.Fd.Operations
import TinyProto.Fd.Outcomes

/-!
# The retry budget

A connection is dropped when its I-frames timed out and the peer has no retries left.  The
counter is filled up when a frame is confirmed, but not when a connection is opened, so a
connection that comes after one that was lost has no retries (`budget_not_refilled`).  If
the counter is full whenever a connection is opened, every connection that is dropped had
its retries (`full_retry_budget`).
-/

set_option linter.unusedSectionVars false

namespace TinyProto.Fd

open Hdlc Runs

variable {W N : Nat} [NeZero W] [NeZero N] {h h₁ h₂ : Handle W N} {p : Fin N}

/-! ## The counter -/

/-- No counter changed. -/
structure SameBudget (h h' : Handle W N) : Prop where
  settings : h'.settings = h.settings
  retries : ∀ q, (h'.peers q).retries = (h.peers q).retries

theorem SameBudget.refl (h : Handle W N) : SameBudget h h := ⟨rfl, fun _ => rfl⟩

theorem SameBudget.trans (hs : SameBudget h h₁) (hs' : SameBudget h₁ h₂) : SameBudget h h₂ :=
  ⟨hs'.settings.trans hs.settings, fun q => (hs'.retries q).trans (hs.retries q)⟩

theorem SameBudget.of_peers (hset : h₁.settings = h.settings) (hp : h₁.peers = h.peers) :
    SameBudget h h₁ := ⟨hset, fun q => by rw [hp]⟩

theorem SameBudget.of_update {x : Peer} (hset : h₁.settings = h.settings)
    (hp : h₁.peers = Function.update h.peers p x) (hx : x.retries = (h.peers p).retries) :
    SameBudget h h₁ := by
  refine ⟨hset, ?_⟩
  rw [hp]
  exact (Function.forall_update_iff _ fun q (y : Peer) => y.retries = (h.peers q).retries).mpr
    ⟨hx, fun _ _ => rfl⟩

theorem SameBudget.putUSFrame (h : Handle W N) (type : QueueType) (address control : Byte)
    (payload : List Byte) : SameBudget h (putUSFrame h type address control payload) := by
  obtain ⟨q, b, he⟩ := putUSFrame_eq h type address control payload
  rw [he]
  exact .of_peers rfl rfl

theorem resendAllUnconfirmedFrames_sameBudget (h : Handle W N) (p : Fin N) (control : Byte)
    (nr : Seq) : SameBudget h (resendAllUnconfirmedFrames h p control nr) := by
  obtain ⟨q, c, he⟩ := resendAllUnconfirmedFrames_form h p control nr
  rw [he]
  exact .of_update rfl rfl rfl

theorem switchToConnectedState_sameBudget (h : Handle W N) (p : Fin N) :
    SameBudget h (switchToConnectedState h p) := by
  by_cases hs : (h.peers p).state = .connected
  · rw [switchToConnectedState_of hs]
    exact .refl h
  · obtain ⟨log, he⟩ := switchToConnectedState_form hs
    rw [he]
    exact .of_update rfl rfl rfl

theorem switchToDisconnectedState_sameBudget (h : Handle W N) (p : Fin N) :
    SameBudget h (switchToDisconnectedState h p) := by
  by_cases hs : (h.peers p).state = .disconnected
  · rw [switchToDisconnectedState_of hs]
    exact .refl h
  · obtain ⟨log, he⟩ := switchToDisconnectedState_form hs
    rw [he]
    exact .of_update rfl rfl rfl

theorem Selects.sameBudget (hs : Selects p h h₁) : SameBudget h h₁ := by
  refine ⟨hs.settings, fun q => ?_⟩
  by_cases hq : q = p
  · obtain ⟨_, _, _, _, _, hp⟩ := hs.peer
    rw [hq, hp]
  · rw [hs.other q hq]

/-! ## Confirmed frames -/

/-- N(R) confirms a frame. -/
def IQueueControl.ConfirmsSome (c : IQueueControl) (nr : Seq) : Prop :=
  nr ≠ c.confirmNs ∧ c.confirmNs ≠ c.lastNs

instance (c : IQueueControl) (nr : Seq) : Decidable (c.ConfirmsSome nr) :=
  inferInstanceAs (Decidable (_ ∧ _))

/-- The counter of the peer is filled up if a frame is confirmed. -/
structure Refills (h : Handle W N) (p : Fin N) (confirmed : Prop) (h' : Handle W N) : Prop where
  settings : h'.settings = h.settings
  other : ∀ q, q ≠ p → (h'.peers q).retries = (h.peers q).retries
  full : confirmed → (h'.peers p).retries = h.settings.retries
  same : ¬confirmed → (h'.peers p).retries = (h.peers p).retries

theorem SameBudget.refills {c : Prop} (hs : SameBudget h h₁) (hc : ¬c) : Refills h p c h₁ :=
  ⟨hs.settings, fun q _ => hs.retries q, fun h => absurd h hc, fun _ => hs.retries p⟩

theorem Refills.trans {c : Prop} (hr : Refills h p c h₁) (hs : SameBudget h₁ h₂) :
    Refills h p c h₂ where
  settings := hs.settings.trans hr.settings
  other q hq := (hs.retries q).trans (hr.other q hq)
  full hc := (hs.retries p).trans (hr.full hc)
  same hc := (hs.retries p).trans (hr.same hc)

theorem SameBudget.trans_refills {c : Prop} (hs : SameBudget h h₁) (hr : Refills h₁ p c h₂) :
    Refills h p c h₂ where
  settings := hr.settings.trans hs.settings
  other q hq := (hr.other q hq).trans (hs.retries q)
  full hc := (hr.full hc).trans (by rw [hs.settings])
  same hc := (hr.same hc).trans (hs.retries p)

theorem confirmOne_refills (h : Handle W N) (p : Fin N) : Refills h p True (confirmOne h p) := by
  have hc := confirmOne_confirms h p
  refine ⟨hc.settings, fun q hq => by rw [hc.other q hq], fun _ => ?_, fun hn => absurd trivial hn⟩
  unfold confirmOne Handle.setControl
  rw [setPeer_self]
  show ((onFrameConfirmed h p _).peers p).retries = _
  unfold onFrameConfirmed
  split
  · rw [setPeer_self]
    show (if _ then _ else _ : Handle W N).settings.retries = _
    split <;> rfl
  · rw [setPeer_self]

theorem confirmSentFrames_refills (h : Handle W N) (p : Fin N) (nr : Seq) :
    Refills h p ((h.control p).ConfirmsSome nr) (confirmSentFrames h p nr) := by
  have hloop : Refills h p ((h.control p).ConfirmsSome nr) (confirmLoop 8 h p nr) := by
    unfold confirmLoop
    split
    · next hnr => exact (SameBudget.refl h).refills fun ha => ha.1 hnr
    · next hnr =>
      split
      · next hnone =>
        refine (SameBudget.refl h).refills fun ha => ?_
        unfold IQueueControl.hasUnconfirmedFrames at hnone
        exact ha.2 (by simpa using hnone)
      · next hsome =>
        -- The first turn fills the counter up, and so do the others.
        have hfull : Refills h p True (confirmLoop 7 (confirmOne h p) p nr) := by
          refine confirmLoop_rule (P := Refills h p True) (fun k hk _ _ => ?_) 7 _
            (confirmOne_refills h p)
          have hone := confirmOne_refills k p
          refine ⟨hone.settings.trans hk.settings, fun q hq =>
            (hone.other q hq).trans (hk.other q hq),
            fun _ => (hone.full trivial).trans (by rw [hk.settings]), fun hn => absurd trivial hn⟩
        have hack : (h.control p).ConfirmsSome nr := by
          unfold IQueueControl.hasUnconfirmedFrames at hsome
          exact ⟨hnr, by simpa using hsome⟩
        exact ⟨hfull.settings, hfull.other, fun _ => hfull.full trivial, fun hn => absurd hack hn⟩
  unfold confirmSentFrames
  dsimp only
  split
  · exact hloop.trans (.of_update rfl rfl rfl)
  · exact hloop

/-- The frame confirms an I-frame of the peer. -/
def Confirming (h : Handle W N) (p : Fin N) (control : Byte) : Prop :=
  Linked h p ∧ isUFrame control = false ∧ (h.control p).ConfirmsSome (nrOf control)

instance (control : Byte) : Decidable (Confirming h p control) :=
  inferInstanceAs (Decidable (_ ∧ _))

theorem Handled.refills {control : Byte} (hh : Handled h p control h₁) :
    Refills h p (Confirming h p control) h₁ := by
  have hua : ∀ {k : Handle W N}, k = h ∨ k = putUFrame h p 0 .ua → SameBudget h k := by
    rintro k (rfl | rfl)
    · exact .refl k
    · exact .putUSFrame h _ _ _ _
  -- A U-frame confirms nothing.
  have hnu : isUFrame control = true → ¬Confirming h p control := fun hu hc =>
    absurd (hu.symm.trans hc.2.1) Bool.noConfusion
  -- The other frames confirm in the handle as it came, up to other fields.
  have hconf : ∀ {k : Handle W N}, Linked h p → isUFrame control = false → SameBudget h k →
      ((k.control p).ConfirmsSome (nrOf control) ↔ (h.control p).ConfirmsSome (nrOf control)) →
        Refills h p (Confirming h p control) (confirmSentFrames k p (nrOf control)) := by
    intro k hl hu hk hack
    have hr := hk.trans_refills (confirmSentFrames_refills k p (nrOf control))
    exact ⟨hr.settings, hr.other, fun hc => hr.full (hack.mpr hc.2.2),
      fun hn => hr.same fun hc => hn ⟨hl, hu, hack.mp hc⟩⟩
  cases hh with
  | ignored hu => exact (SameBudget.refl h).refills (hnu hu)
  | passed hu payload =>
    have hemit : SameBudget h (h.emit (.readUi p (callbackAddress h p) payload)) :=
      .of_peers rfl rfl
    exact hemit.refills (hnu hu)
  | refused hl => exact (SameBudget.putUSFrame h _ _ _ _).refills fun hc => hl hc.1
  | @opened k ho hk =>
    have hd : SameBudget k (if Linked k p then switchToDisconnectedState k p else k) := by
      split
      · exact switchToDisconnectedState_sameBudget k p
      · exact .refl k
    exact (((hua hk).trans hd).trans (switchToConnectedState_sameBudget _ p)).refills (hnu ho.1)
  | closed hc hk =>
    exact ((hua hk).trans (switchToDisconnectedState_sameBudget _ p)).refills (hnu hc.1)
  | rejected hr =>
    have hput : SameBudget h (putUFrame (switchToDisconnectedState h p) p crBit (connectType h)) :=
      (switchToDisconnectedState_sameBudget h p).trans (.putUSFrame _ _ _ _ _)
    exact (hput.refills (hnu hr.1)).trans (.of_update rfl rfl rfl)
  | reset hr =>
    have hclear : SameBudget h (h.setPeer p Peer.resetCounters) := .of_update rfl rfl rfl
    exact (hclear.trans (.putUSFrame _ _ _ _ _)).refills (hnu hr.1)
  | expected hl hu payload =>
    have hadv : SameBudget h (advance h p) := by
      unfold advance Handle.setControl
      rw [setPeer_setPeer]
      exact .of_update rfl rfl rfl
    have hack : ((advance h p).control p).ConfirmsSome (nrOf control) ↔
        (h.control p).ConfirmsSome (nrOf control) := by
      unfold advance Handle.setControl Handle.control
      rw [setPeer_setPeer, setPeer_self]
      exact Iff.rfl
    refine (hconf hl hu hadv hack).trans ?_
    have hemit : ∀ (k : Handle W N) e, SameBudget k (k.emit e) := fun k e => .of_peers rfl rfl
    unfold deliver
    dsimp only
    split
    · exact (hemit _ _).trans (.putUSFrame _ _ _ _ _)
    · exact hemit _ _
  | @confirmed k hl hu hk =>
    rcases hk with rfl | rfl
    · exact hconf hl hu (.refl k) Iff.rfl
    · have hmark : SameBudget h (h.setPeer p fun x => { x with sentReject := true }) :=
        .of_update rfl rfl rfl
      refine hconf hl hu (hmark.trans (.putUSFrame _ _ _ _ _)) ?_
      unfold putSFrame
      rw [putUSFrame_control]
      unfold Handle.control
      rw [setPeer_self]
  | answered hl hu => exact (hconf hl hu (.refl h) Iff.rfl).trans (.putUSFrame _ _ _ _ _)
  | rewound hl hu =>
    exact (hconf hl hu (.refl h) Iff.rfl).trans (resendAllUnconfirmedFrames_sameBudget _ p _ _)
  | requested hl hu =>
    have hc := hconf hl hu (.refl h) Iff.rfl
    generalize confirmSentFrames h p (nrOf control) = k at hc
    exact hc.trans (.of_update (p := p) rfl rfl rfl)

/-! ## Operations -/

/-- The frame that comes opens a connection of the peer. -/
def Establishes (h : Handle W N) (p : Fin N) : Op W N → Prop
  | .frame data => ∃ m ∈ sender h data, m.1 = p ∧ Opens h p m.2
  | _ => False

/-- The frame that comes confirms an I-frame of the peer. -/
def ConfirmsFrame (h : Handle W N) (p : Fin N) : Op W N → Prop
  | .frame data => ∃ m ∈ sender h data, m.1 = p ∧ Confirming h p m.2
  | _ => False

/-- The check finds that the I-frames of the peer timed out, and sends them again. -/
def Retransmits (h : Handle W N) (p : Fin N) : Op W N → Prop
  | .check q => q = p ∧ Linked h p ∧ TimedOut h p ∧ 0 < (h.peers p).retries
  | _ => False

/-- The check finds that they timed out, and drops the connection. -/
def Drops (h : Handle W N) (p : Fin N) : Op W N → Prop
  | .check q => q = p ∧ Linked h p ∧ TimedOut h p ∧ (h.peers p).retries = 0
  | _ => False

instance establishes_decidable : (o : Op W N) → Decidable (Establishes h p o)
  | .frame data => inferInstanceAs (Decidable (∃ m ∈ sender h data, m.1 = p ∧ Opens h p m.2))
  | .check _ | .attempt _ | .run _ | .lowLevel _ | .sendPacketTo _ _ | .sendUiPacketTo _ _
  | .disconnect | .registerPeer _ | .setKaTimeout _ | .tick _ =>
    isFalse id

instance confirmsFrame_decidable : (o : Op W N) → Decidable (ConfirmsFrame h p o)
  | .frame data => inferInstanceAs (Decidable (∃ m ∈ sender h data, m.1 = p ∧ Confirming h p m.2))
  | .check _ | .attempt _ | .run _ | .lowLevel _ | .sendPacketTo _ _ | .sendUiPacketTo _ _
  | .disconnect | .registerPeer _ | .setKaTimeout _ | .tick _ =>
    isFalse id

instance retransmits_decidable : (o : Op W N) → Decidable (Retransmits h p o)
  | .check _ => inferInstanceAs (Decidable (_ ∧ _))
  | .frame _ | .attempt _ | .run _ | .lowLevel _ | .sendPacketTo _ _ | .sendUiPacketTo _ _
  | .disconnect | .registerPeer _ | .setKaTimeout _ | .tick _ =>
    isFalse id

instance drops_decidable : (o : Op W N) → Decidable (Drops h p o)
  | .check _ => inferInstanceAs (Decidable (_ ∧ _))
  | .frame _ | .attempt _ | .run _ | .lowLevel _ | .sendPacketTo _ _ | .sendUiPacketTo _ _
  | .disconnect | .registerPeer _ | .setKaTimeout _ | .tick _ =>
    isFalse id

/-- Counting goes on, or starts again. -/
def countStep (p : Fin N) (n : Nat) (m : Handle W N × Op W N) : Nat :=
  if Establishes m.1 p m.2 ∨ ConfirmsFrame m.1 p m.2 then 0
  else if Retransmits m.1 p m.2 then n + 1
  else n

/-- The retransmissions for the peer since its connection was opened, or an I-frame of it
was confirmed. -/
def retransmissions (p : Fin N) (past : History W N) : Nat := past.foldl (countStep p) 0

theorem retransmissions_concat (p : Fin N) (past : History W N) (m : Handle W N × Op W N) :
    retransmissions p (past ++ [m]) = countStep p (retransmissions p past) m :=
  List.foldl_concat ..

theorem countStep_again {o : Op W N} (n : Nat) (ho : Establishes h p o ∨ ConfirmsFrame h p o) :
    countStep p n (h, o) = 0 := if_pos ho

theorem countStep_spent {o : Op W N} (n : Nat) (he : ¬Establishes h p o) (hc : ¬ConfirmsFrame h p o)
    (hr : Retransmits h p o) : countStep p n (h, o) = n + 1 :=
  (if_neg (not_or.mpr ⟨he, hc⟩)).trans (if_pos hr)

theorem countStep_same {o : Op W N} (n : Nat) (he : ¬Establishes h p o) (hc : ¬ConfirmsFrame h p o)
    (hr : ¬Retransmits h p o) : countStep p n (h, o) = n :=
  (if_neg (not_or.mpr ⟨he, hc⟩)).trans (if_neg hr)

/-- A connection starts with the counter it finds, a confirmed frame makes it full. -/
def fullStep (p : Fin N) (full : Prop) (m : Handle W N × Op W N) : Prop :=
  if ConfirmsFrame m.1 p m.2 then True
  else if Establishes m.1 p m.2 then (m.1.peers p).retries = m.1.settings.retries
  else full

/-- The counter of the peer was full when its connection was opened, or an I-frame of it was
confirmed since. -/
def StartedFull (p : Fin N) (past : History W N) : Prop := past.foldl (fullStep p) True

theorem startedFull_concat (p : Fin N) (past : History W N) (m : Handle W N × Op W N) :
    StartedFull p (past ++ [m]) = fullStep p (StartedFull p past) m :=
  List.foldl_concat ..

theorem fullStep_confirmed {o : Op W N} (b : Prop) (hc : ConfirmsFrame h p o) :
    fullStep p b (h, o) = True := if_pos hc

theorem fullStep_opened {o : Op W N} (b : Prop) (he : Establishes h p o)
    (hc : ¬ConfirmsFrame h p o) :
    fullStep p b (h, o) = ((h.peers p).retries = h.settings.retries) :=
  (if_neg hc).trans (if_pos he)

theorem fullStep_same {o : Op W N} (b : Prop) (he : ¬Establishes h p o)
    (hc : ¬ConfirmsFrame h p o) :
    fullStep p b (h, o) = b :=
  (if_neg hc).trans (if_neg he)

/-- What is left and what was spent make up the budget, if the counter was full at the start. -/
def Budgeted (past : History W N) (h : Handle W N) : Prop :=
  ∀ p, (h.peers p).retries + retransmissions p past = h.settings.retries ↔ StartedFull p past

/-- A connection is opened with a full counter only. -/
def OpensFull (h : Handle W N) (o : Op W N) : Prop :=
  ∀ p, Establishes h p o → (h.peers p).retries = h.settings.retries

instance (o : Op W N) : Decidable (OpensFull h o) := inferInstanceAs (Decidable (∀ _, _))

variable {past : History W N}

/-- An operation that is neither a frame nor a retransmission. -/
theorem Budgeted.same (hb : Budgeted past h) {o : Op W N} (hs : SameBudget h h₁)
    (he : ∀ p, ¬Establishes h p o) (hc : ∀ p, ¬ConfirmsFrame h p o) (hr : ∀ p, ¬Retransmits h p o) :
    Budgeted (past ++ [(h, o)]) h₁ := by
  intro p
  rw [retransmissions_concat, countStep_same _ (he p) (hc p) (hr p), startedFull_concat,
    fullStep_same _ (he p) (hc p), hs.retries, hs.settings]
  exact hb p

/-- What the handle notes before it looks at a frame decides nothing. -/
theorem heardFrom_refills {data : List Byte} {control : Byte}
    (hr : Refills (heardFrom h p data) p (Confirming (heardFrom h p data) p control) h₁) :
    Refills h p (Confirming h p control) h₁ := by
  have hnote : SameBudget h (heardFrom h p data) := .of_update rfl rfl rfl
  have hiff : Confirming (heardFrom h p data) p control ↔ Confirming h p control := by
    unfold Confirming Linked Handle.control
    rw [heardFrom_peer]
  rw [hiff] at hr
  exact hnote.trans_refills hr

theorem Budgeted.frame (hb : Budgeted past h) (data : List Byte) :
    Budgeted (past ++ [(h, .frame data)]) (onFrameRead h data) := by
  have hr := onFrameRead_read h data
  generalize onFrameRead h data = k at hr
  cases hr with
  | unknown hs hk =>
    have hnone : ∀ m, m ∉ sender h data := by
      rw [hs]
      exact fun m hm => (by cases hm)
    refine hb.same ?_ ?_ ?_ fun p => id
    · rcases hk with rfl | rfl
      · exact .refl k
      · exact .of_peers rfl rfl
    · rintro p ⟨m, hm, -⟩
      exact hnone m hm
    · rintro p ⟨m, hm, -⟩
      exact hnone m hm
  | @handled p control k hs hk =>
    obtain ⟨b, hb'⟩ := captureMarker_form k control
    have hall : Refills h p (Confirming h p control) (captureMarker k control) := by
      rw [hb']
      exact (heardFrom_refills hk.refills).trans (.of_peers rfl rfl)
    have hest : ∀ q, Establishes h q (.frame data) ↔ p = q ∧ Opens h q control := by
      intro q
      show (∃ m ∈ sender h data, _) ↔ _
      rw [hs]
      simp
    have hconf : ∀ q, ConfirmsFrame h q (.frame data) ↔ p = q ∧ Confirming h q control := by
      intro q
      show (∃ m ∈ sender h data, _) ↔ _
      rw [hs]
      simp
    intro q
    rw [retransmissions_concat, startedFull_concat, hall.settings]
    by_cases hqp : p = q
    · subst hqp
      by_cases hc : Confirming h p control
      · have hcf := (hconf p).mpr ⟨rfl, hc⟩
        rw [countStep_again _ (.inr hcf), fullStep_confirmed _ hcf, hall.full hc]
        exact iff_of_true rfl trivial
      · have hncf : ¬ConfirmsFrame h p (.frame data) := fun hn => hc ((hconf p).mp hn).2
        rw [hall.same hc]
        by_cases ho : Establishes h p (.frame data)
        · rw [countStep_again _ (.inl ho), fullStep_opened _ ho hncf, Nat.add_zero]
        · rw [countStep_same _ ho hncf id, fullStep_same _ ho hncf]
          exact hb p
    · have hne : ¬Establishes h q (.frame data) := fun he => hqp ((hest q).mp he).1
      have hncf : ¬ConfirmsFrame h q (.frame data) := fun hc => hqp ((hconf q).mp hc).1
      rw [countStep_same _ hne hncf id, fullStep_same _ hne hncf, hall.other q (Ne.symm hqp)]
      exact hb q

theorem Budgeted.check (hb : Budgeted past h) (p : Fin N) :
    Budgeted (past ++ [(h, .check p)]) (checkIdleTimeout h p) := by
  have hc := checkIdleTimeout_checked h p
  generalize checkIdleTimeout h p = k at hc
  -- Only a retransmission spends something.
  have hsame : (∀ q, ¬Retransmits h q (.check p)) → SameBudget h k →
      Budgeted (past ++ [(h, .check p)]) k := fun hr hs => hb.same hs (fun _ => id) (fun _ => id) hr
  cases hc with
  | retried hl ht hr =>
    intro q
    have hset : (resendAllUnconfirmedFrames (h.setPeer p fun x =>
      { x with retries := x.retries - 1 })
        p 0 (h.control p).confirmNs).settings = h.settings :=
      (resendAllUnconfirmedFrames_sameBudget _ p 0 _).settings
    rw [retransmissions_concat, startedFull_concat, hset,
      (resendAllUnconfirmedFrames_sameBudget _ p 0 _).retries]
    have hq := hb q
    by_cases hqp : q = p
    · subst hqp
      have hret : Retransmits h q (.check q) := ⟨rfl, hl, ht, hr⟩
      have hsum : (h.peers q).retries - 1 + (retransmissions q past + 1) =
          (h.peers q).retries + retransmissions q past := by omega
      rw [countStep_spent _ id id hret, fullStep_same (o := .check q) _ id id, setPeer_self, hsum]
      exact hq
    · have hnot : ¬Retransmits h q (.check p) := fun hret => hqp hret.1.symm
      rw [countStep_same _ id id hnot, fullStep_same (o := .check p) _ id id, setPeer_ne h hqp]
      exact hq
  | gaveUp _ _ hr =>
    refine hsame ?_ (switchToDisconnectedState_sameBudget h p)
    rintro q ⟨rfl, -, -, hpos⟩
    omega
  | lost _ ht =>
    refine hsame ?_ (switchToDisconnectedState_sameBudget h p)
    rintro q ⟨rfl, -, hto, -⟩
    exact ht hto
  | disarmed _ ht =>
    refine hsame ?_ (.refl h)
    rintro q ⟨rfl, -, hto, -⟩
    exact ht hto
  | keptAlive _ ht =>
    refine hsame ?_ ?_
    · rintro q ⟨rfl, -, hto, -⟩
      exact ht hto
    · have hclear : SameBudget h (h.setPeer p fun x => { x with kaConfirmed := false }) :=
        .of_update rfl rfl rfl
      exact (hclear.trans (.putUSFrame _ _ _ _ _)).trans (.of_update rfl rfl rfl)
  | rested _ ht =>
    refine hsame ?_ (.refl h)
    rintro q ⟨rfl, -, hto, -⟩
    exact ht hto
  | requested hl =>
    refine hsame ?_ ?_
    · rintro q ⟨rfl, hlink, -⟩
      exact hl hlink
    · have hput : SameBudget h (putUFrame h p crBit (connectType h)) := .putUSFrame h _ _ _ _
      exact hput.trans (.of_update rfl rfl rfl)
  | waited hl =>
    refine hsame ?_ (.refl h)
    rintro q ⟨rfl, hlink, -⟩
    exact hl hlink

theorem Budgeted.operate {o : Op W N} (hord : Ordered h) (hb : Budgeted past h) :
    Budgeted (past ++ [(h, o)]) (operate h o) := by
  cases o with
  | frame data => exact hb.frame data
  | check p => exact hb.check p
  | attempt p =>
    exact hb.same (tryToSend_selects h p).sameBudget (fun _ => id) (fun _ => id) fun _ => id
  | run len =>
    obtain ⟨ll, q, next, marker, sending, he, -⟩ := runTx_form hord.inStep len
    have hs : SameBudget h (runTx h len).1 := .of_peers (by rw [he]) (by rw [he])
    exact hb.same hs (fun _ => id) (fun _ => id) fun _ => id
  | lowLevel hdlc => exact hb.same (.of_peers rfl rfl) (fun _ => id) (fun _ => id) fun _ => id
  | sendPacketTo address data =>
    refine hb.same ?_ (fun _ => id) (fun _ => id) fun _ => id
    show SameBudget h (sendPacketTo h address data).1
    rcases sendPacketTo_sent h address data with he | ⟨p, -, hs⟩
    · rw [he]
      exact .refl h
    · generalize (sendPacketTo h address data).1 = k at hs
      cases hs with
      | refused => exact .refl h
      | full => exact .of_update rfl rfl rfl
      | stored => exact .of_update rfl rfl rfl
  | sendUiPacketTo address data =>
    refine hb.same ?_ (fun _ => id) (fun _ => id) fun _ => id
    show SameBudget h (sendUiPacketTo h address data).1
    rcases sendUiPacketTo_cases h address data with he | ⟨p, -, he⟩
    · rw [he]
      exact .refl h
    · rw [he]
      exact .putUSFrame h _ _ _ _
  | disconnect =>
    refine hb.same ?_ (fun _ => id) (fun _ => id) fun _ => id
    show SameBudget h (disconnect h).1
    rcases disconnect_cases h with he | ⟨-, he⟩
    · rw [he]
      exact .refl h
    · rw [he]
      have hput : SameBudget h (putUFrame h 0 crBit .disc) := .putUSFrame h _ _ _ _
      exact hput.trans (.of_update rfl rfl rfl)
  | registerPeer address =>
    refine hb.same ?_ (fun _ => id) (fun _ => id) fun _ => id
    show SameBudget h (registerPeer h address).1
    rcases registerPeer_cases h address with he | ⟨p, a, ts, -, -, -, he⟩
    · rw [he]
      exact .refl h
    · rw [he]
      exact .of_update rfl rfl rfl
  | setKaTimeout keepAlive =>
    exact hb.same (.of_peers rfl rfl) (fun _ => id) (fun _ => id) fun _ => id
  | tick ms => exact hb.same (.of_peers rfl rfl) (fun _ => id) (fun _ => id) fun _ => id

/-- If connections are opened with a full counter only, the counter was full at the start. -/
theorem startedFull_of_opens (p : Fin N) :
    ∀ {past : History W N}, (∀ m ∈ past, OpensFull m.1 m.2) → StartedFull p past := by
  intro past
  induction past using List.reverseRecOn with
  | nil => exact fun _ => trivial
  | append_singleton past m ih =>
    intro hall
    rw [startedFull_concat]
    obtain ⟨k, o⟩ := m
    by_cases hc : ConfirmsFrame k p o
    · rw [fullStep_confirmed _ hc]
      trivial
    · by_cases ho : Establishes k p o
      · rw [fullStep_opened _ ho hc]
        exact hall _ (List.mem_append_right _ (List.mem_singleton.mpr rfl)) p ho
      · rw [fullStep_same _ ho hc]
        exact ih fun m hm => hall m (List.mem_append_left _ hm)

/-- A connection that is dropped had its retries if and only if the counter was full at its
start, and every one has if connections are opened with a full counter only. -/
theorem full_retry_budget_iff :
    (∀ {past : History W N} {h : Handle W N}, Lives AnyOp h past → ∀ before k o,
      Happens past before k o → ∀ p, Drops k p o →
        (retransmissions p before = k.settings.retries ↔ StartedFull p before)) ∧
    ∀ {past : History W N} {h : Handle W N}, Lives OpensFull h past → ∀ before k o,
      Happens past before k o → ∀ p, Drops k p o →
        retransmissions p before = k.settings.retries := by
  have hexact : ∀ {G : Handle W N → Op W N → Prop} {past : History W N} {h : Handle W N},
      Lives G h past → ∀ before k o, Happens past before k o → ∀ p, Drops k p o →
        (retransmissions p before = k.settings.retries ↔ StartedFull p before) := by
    intro G past h hl before k o hh p hd
    obtain ⟨-, -, hall⟩ := hl.rule (P := Budgeted)
      (fun init hdlc millis _ _ _ => iff_of_true (Nat.add_zero _) trivial)
      fun past k o hord _ _ hb => hb.operate hord
    obtain ⟨-, -, -, hb⟩ := hall before k o hh
    have hzero : (k.peers p).retries = 0 := by
      cases o with
      | check q => exact hd.2.2.2
      | _ => exact hd.elim
    have hp := hb p
    rw [hzero, Nat.zero_add] at hp
    exact hp
  refine ⟨hexact, fun hl before k o hh p hd => (hexact hl before k o hh p hd).mpr ?_⟩
  obtain ⟨after, he⟩ := hh
  refine startedFull_of_opens p fun m hm => hl.met m ?_
  rw [he]
  exact List.mem_append_left _ hm

/-- A connection with one I-frame that is never confirmed. -/
def loseConnection : List Call :=
  [.onFrameRead [0x03, 0x3F], .getTxData 16, .sendPacketTo 0 [1], .getTxData 16, .tick 100,
    .getTxData 16,
    .tick 100, .getTxData 16, .tick 100, .getTxData 16]

/-- It is dropped after all retransmissions. -/
theorem full_retry_budget_loseConnection : ∃ (before : History 2 1) (k : Handle 2 1) (o : Op 2 1),
    Drops k 0 o ∧ retransmissions 0 before = k.settings.retries := by
  have hl : Lives OpensFull _ (history (smallHandle 2 1 .abm) loseConnection) :=
    smallHandle_lives (by decide) (by decide) (by decide +kernel)
  have hdrop : ∃ i : Fin (history (smallHandle 2 1 .abm) loseConnection).length,
      Drops ((history (smallHandle 2 1 .abm) loseConnection).get i).1 0
        ((history (smallHandle 2 1 .abm) loseConnection).get i).2 := by
    decide +kernel
  obtain ⟨i, hd⟩ := hdrop
  exact ⟨_, _, _, hd, full_retry_budget_iff.2 hl _ _ _ (happens_get _ i) 0 hd⟩

/-- The peer connects again, and does not confirm the next I-frame either. -/
def loseConnectionAgain : List Call :=
  loseConnection ++ [.onFrameRead [0x03, 0x3F], .getTxData 16, .sendPacketTo 0 [1], .getTxData 16,
    .tick 100, .getTxData 16]

/-- The second connection is dropped without a retransmission. -/
theorem budget_not_refilled : ∃ past, ∃ h : Handle 2 1, Lives AnyOp h past ∧ ∃ before k o,
    Happens past before k o ∧ Drops k 0 o ∧ retransmissions 0 before = 0 ∧
    k.settings.retries = 2 := by
  have hdrop : ∃ i : Fin (history (smallHandle 2 1 .abm) loseConnectionAgain).length,
      Drops ((history (smallHandle 2 1 .abm) loseConnectionAgain).get i).1 0
        ((history (smallHandle 2 1 .abm) loseConnectionAgain).get i).2 ∧
      retransmissions 0 ((history (smallHandle 2 1 .abm) loseConnectionAgain).take i) = 0 ∧
      ((history (smallHandle 2 1 .abm) loseConnectionAgain).get i).1.settings.retries = 2 := by
    decide +kernel
  obtain ⟨i, hd, hcount, hset⟩ := hdrop
  exact ⟨_, _, smallHandle_lives (by decide) (by decide) (callsMeet_any _ _), _, _, _,
    happens_get _ i, hd, hcount, hset⟩

end TinyProto.Fd
