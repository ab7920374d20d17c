import TinyProto.Fd.Operations
import TinyProto.Fd.Outcomes

/-!
# Peers that are busy

A peer says with RNR that it takes no more I-frames for now.  `__on_s_frame_read` confirms
the frames up to N(R) and notes nothing else, so the search for a frame goes on as before.
A run sends nothing new to a busy peer if and only if no such frame is due when the search
gets to the I-frames of the peer (`busy_respected_iff`).
-/

set_option linter.unusedSectionVars false

namespace TinyProto.Fd

open Hdlc Relation

variable {W N : Nat} [NeZero W] [NeZero N] {h h₁ h₂ : Handle W N} {p q : Fin N}
  {past : History W N} {i : Fin W}

/-! ## The I-frame that is due -/

/-- The first I-frame that SREJ asked for, else the next one. -/
def dueIFrame (h : Handle W N) (p : Fin N) : Option (Fin W) :=
  match firstRequested (h.peers p).srejReqMask with
  | some ns => h.iQueue.getNext [.iFrame] (peerToAddressField h p) (BitVec.ofFin ns)
  | none => h.iQueue.getNext [.iFrame] (peerToAddressField h p) (h.control p).nextNs

/-- A try to send gets to the I-frames of the peer. -/
structure ReachesIFrames (h : Handle W N) (p : Fin N) : Prop where
  marker : h.events.hasMarker = true
  awake : h.events.txDataAvailable = true ∨ h.settings.mode = .nrm
  silent : ¬ServiceWaits h p
  linked : Linked h p

instance reachesIFrames_decidable : Decidable (ReachesIFrames h p) :=
  decidable_of_iff (h.events.hasMarker = true ∧
      (h.events.txDataAvailable = true ∨ h.settings.mode = .nrm) ∧ ¬ServiceWaits h p ∧ Linked h p)
    ⟨fun hr => ⟨hr.1, hr.2.1, hr.2.2.1, hr.2.2.2⟩, fun hr => ⟨hr.1, hr.2, hr.3, hr.4⟩⟩

/-- The frame that a try to send selects. -/
def selected (h : Handle W N) (p : Fin N) : Option (SlotRef W) :=
  if h.events.hasMarker = true ∧ (h.events.txDataAvailable = true ∨ h.settings.mode = .nrm) then
    (getNextFrameToSend (h.setEvents fun e => { e with txDataAvailable := false }) p).2
  else none

/-- It is handed to the low level. -/
theorem tryToSend_selected {r : SlotRef W} (hr : selected h p = some r) :
    ∃ k, tryToSend h p = .chosen (startFrame k r) := by
  unfold selected at hr
  split at hr
  · next hgate =>
    unfold tryToSend
    rw [if_pos hgate.1, if_pos hgate.2]
    dsimp only
    generalize getNextFrameToSend (h.setEvents fun e => { e with txDataAvailable := false }) p =
      found at hr
    obtain ⟨k, r'⟩ := found
    cases hr
    exact ⟨k, rfl⟩
  · cases hr

theorem getNextIFrame_due (hl : Linked h p) : (getNextIFrame h p).2 = dueIFrame h p := by
  have hopen : ¬((h.peers p).state = .disconnected ∨ (h.peers p).state = .connecting) := fun hn =>
    not_linked_iff.mpr hn hl
  unfold getNextIFrame dueIFrame
  dsimp only
  rw [if_neg hopen]
  cases firstRequested (h.peers p).srejReqMask with
  | some ns =>
    dsimp only
    split
    · next hi => exact hi.symm
    · next hi => exact hi.symm
  | none =>
    dsimp only
    split
    · next hi => exact hi.symm
    · next hi => exact hi.symm

theorem getNextIFrame_unlinked (hl : ¬Linked h p) : (getNextIFrame h p).2 = none := by
  unfold getNextIFrame
  dsimp only
  rw [if_pos (not_linked_iff.mp hl)]

/-- An I-frame is selected if the try gets there and it is due. -/
theorem selected_iFrame :
    selected h p = some (.iSlot i) ↔ ReachesIFrames h p ∧ dueIFrame h p = some i := by
  obtain ⟨k, hk⟩ : ∃ k, k = h.setEvents fun e => { e with txDataAvailable := false } := ⟨_, rfl⟩
  have hwaits : ServiceWaits k p ↔ ServiceWaits h p := by
    rw [hk]
    rfl
  have hlinked : Linked k p ↔ Linked h p := by
    rw [hk]
    rfl
  have hdue : dueIFrame k p = dueIFrame h p := by
    rw [hk]
    rfl
  unfold selected
  rw [← hk]
  have hc := getNextFrameToSend_chosen k p
  constructor
  · intro hs
    split at hs
    · next hgate =>
      generalize getNextFrameToSend k p = found at hs hc
      cases hc with
      | service => cases hs
      | @iFrame m j hf hi =>
        cases hs
        have hl : Linked k p := by
          by_contra hl
          have hnone := getNextIFrame_unlinked hl
          rw [hi] at hnone
          cases hnone
        have hfound := getNextIFrame_due hl
        rw [hi] at hfound
        have hsilent : ¬ServiceWaits k p := by
          rw [serviceWaits_iff, hf]
          rintro ⟨_, hn⟩
          cases hn
        exact ⟨⟨hgate.1, hgate.2, fun hw => hsilent (hwaits.mpr hw), hlinked.mp hl⟩,
          hdue ▸ hfound.symm⟩
      | idle => cases hs
      | noRoom => cases hs
      | nothing => cases hs
    · cases hs
  · rintro ⟨hr, hd⟩
    rw [if_pos ⟨hr.marker, hr.awake⟩]
    have hfound := getNextIFrame_due (hlinked.mpr hr.linked)
    rw [hdue, hd] at hfound
    have hmiss : ∀ {m}, getNextIFrame k p = (m, none) → False := fun hi => by
      rw [hi] at hfound
      cases hfound
    generalize getNextFrameToSend k p = found at hc
    cases hc with
    | service hs => exact absurd (hwaits.mp (serviceWaits_iff.mpr ⟨_, hs⟩)) hr.silent
    | iFrame _ hi =>
      rw [hi] at hfound
      exact congrArg (Option.map SlotRef.iSlot) hfound
    | idle _ hi => exact (hmiss hi).elim
    | noRoom _ hi => exact (hmiss hi).elim
    | nothing _ hi => exact (hmiss hi).elim

/-! ## The I-frames of a peer that gets no new ones -/

/-- The operation sends a packet to the peer. -/
def Op.SendsTo (h : Handle W N) (p : Fin N) : Op W N → Prop
  | .sendPacketTo address _ => addressFieldToPeer h (sendAddress h address) = some p
  | _ => False

instance sendsTo_decidable : (o : Op W N) → Decidable (o.SendsTo h p)
  | .sendPacketTo address _ => inferInstanceAs
      (Decidable (addressFieldToPeer h (sendAddress h address) = some p))
  | .frame _ | .check _ | .attempt _ | .run _ | .lowLevel _ | .sendUiPacketTo _ _
  | .disconnect | .registerPeer _ | .setKaTimeout _ | .tick _ => isFalse id

/-- Every I-frame of the peer was there before. -/
structure NoNewFrames (p : Fin N) (h h₁ : Handle W N) : Prop where
  old : ∀ i, h₁.window p i ≠ none → h.window p i ≠ none

theorem NoNewFrames.of_eq (hw : h₁.window p = h.window p) : NoNewFrames p h h₁ :=
  ⟨fun _ hi => hw ▸ hi⟩

theorem NoNewFrames.trans (h₁₂ : NoNewFrames p h h₁) (h₂₃ : NoNewFrames p h₁ h₂) :
    NoNewFrames p h h₂ := ⟨fun i hi => h₁₂.old i (h₂₃.old i hi)⟩

theorem window_congr (hi : h₁.iQueue = h.iQueue) (ha : (h₁.peers p).addr = (h.peers p).addr) :
    h₁.window p = h.window p := by
  funext i
  unfold Handle.window
  rw [hi, ha]

theorem WorksFor.noNewFrames (hw : WorksFor q h h₁) (p : Fin N) : NoNewFrames p h h₁ := by
  refine ⟨fun i hi hn => hi ?_⟩
  have haddr := hw.addr_eq p
  unfold Handle.window at hn ⊢
  rw [haddr]
  rcases hw.iQueue i with he | ⟨-, he⟩
  · rw [he]
    exact hn
  · rw [he]
    exact Slot.entry_none QueueType.noConfusion

/-- A packet for another peer takes a slot of its own. -/
theorem Stores.noNewFrames (hs : Stores q h h₁) (hp : Live h p) (hq : Live h q) (hne : q ≠ p) :
    NoNewFrames p h h₁ := by
  refine ⟨fun i hi hn => hi ?_⟩
  have haddr := hs.addr_eq p
  unfold Handle.window at hn ⊢
  rw [haddr]
  rcases hs.iQueue with he | ⟨j, data, -, he⟩
  · rw [he]
    exact hn
  · rw [he]
    by_cases hij : i = j
    · rw [hij, Queue.setFrame_self]
      refine if_neg fun hc => hne ?_
      have hfield : (newIFrame h q data).address = (h.peers q).addr := hq.field
      have hsame : (h.peers q).addr = (h.peers p).addr := hfield.symm.trans hc.2
      have hlook := hq.1
      rw [hsame, hp.1] at hlook
      exact (Option.some.inj hlook).symm
    · rw [Queue.setFrame_ne _ hij]
      exact hn

theorem Live.valid (hp : Live h p) : (h.peers p).addr ≠ invalidAddr := by
  intro he
  have hbits := hp.2
  rw [he] at hbits
  exact invalidAddr_bits hbits

theorem Around.addr {A : Handle W N → Prop} (ha : Around A h h₁) (hp : Live h p) :
    (h₁.peers p).addr = (h.peers p).addr := by
  cases ha with
  | same _ _ _ _ _ _ peers => rw [peers]
  | works hw => exact hw.addr_eq p
  | stores _ _ hs => exact hs.addr_eq p
  | @register q a ts hinv _ _ hr =>
    have hne : p ≠ q := by
      rintro rfl
      exact hp.valid hinv
    rw [hr, setPeer_ne h hne]

theorem Live.around {A : Handle W N → Prop} (hp : Live h p) (hw : Addressed h)
    (ha : Around A h h₁) : Live h₁ p := by
  rw [(hw.around ha).live_iff, ha.addr hp, Multi.congr ha.settings]
  exact hw.live_iff.mp hp

theorem noNewFrames_around {A : Handle W N → Prop} (hA : ∀ k, ¬A k) (hp : Live h p)
    (ha : Around A h h₁) : NoNewFrames p h h₁ := by
  have haddr := ha.addr hp
  cases ha with
  | same _ _ _ iQueue => exact .of_eq (window_congr iQueue haddr)
  | works hw => exact hw.noNewFrames p
  | stores _ ha => exact absurd ha (hA _)
  | register _ _ _ hr =>
    rw [hr] at haddr ⊢
    exact .of_eq (window_congr rfl haddr)

/-- Operations keep the peer. -/
theorem Live.operate {o : Op W N} (hp : Live h p) (hord : Ordered h) (hd : Due h o) :
    Live (Fd.operate h o) p := by
  have hboth := (operate_run hord hd).preserves (P := fun k => Addressed k ∧ Live k p)
    (fun _ _ _ hk _ hs => ⟨hk.1.step hs, (hk.2.step hk.1 hs).1⟩) ⟨hord.addressed, hp⟩
  exact hboth.2

theorem Owned.operate {o : Op W N} (ho : Owned h) (hord : Ordered h) (hd : Due h o) :
    Owned (Fd.operate h o) := by
  have hboth := (operate_run hord hd).preserves (P := fun k => Addressed k ∧ Owned k)
    (fun _ _ _ hk _ hs => ⟨hk.1.step hs, hs.owned hk.1 hk.2⟩) ⟨hord.addressed, ho⟩
  exact hboth.2

/-- Only a packet for the peer adds an I-frame. -/
theorem operate_noNewFrames {o : Op W N} (hord : Ordered h) (hd : Due h o) (hp : Live h p)
    (ho : ¬o.SendsTo h p) : NoNewFrames p h (operate h o) := by
  have hcall : ∀ c : Call, ¬c.Transmits → (∀ address data, c ≠ .sendPacketTo address data) →
      NoNewFrames p h (call h c) := by
    intro c hc hno
    have hall := call_rule (A := fun _ => False) (P := fun k => Live k p ∧ NoNewFrames p h k)
      hord.addressed hc hno (fun k k' hk hP ha =>
        ⟨hP.1.around hk ha, hP.2.trans (noNewFrames_around (fun _ => id) hP.1 ha)⟩)
      ⟨hp, .of_eq rfl⟩
    exact hall.2
  cases o with
  | frame data => exact hcall (.onFrameRead data) id nofun
  | check q => exact (checkIdleTimeout_works h q).noNewFrames p
  | attempt q =>
    have hs := tryToSend_selects h q
    obtain ⟨hlive, hnext, ht⟩ := hd
    have haddr := (tryToSend_tried hord.inStep hord.addressed ht hlive hnext).addr p
    exact .of_eq (hs.slots.window haddr)
  | run len =>
    obtain ⟨ll, qs, next, marker, sending, he, -⟩ := runTx_form hord.inStep len
    show NoNewFrames p h (runTx h len).1
    rw [he]
    exact .of_eq rfl
  | lowLevel hdlc => exact .of_eq rfl
  | sendPacketTo address data =>
    show NoNewFrames p h (sendPacketTo h address data).1
    cases hq : addressFieldToPeer h (sendAddress h address) with
    | none =>
      unfold sendPacketTo
      rw [hq]
      exact .of_eq rfl
    | some q =>
      have hne : q ≠ p := by
        rintro rfl
        exact ho hq
      exact (sendPacketTo_stores hq data).noNewFrames hp (hord.addressed.live_of_found hq) hne
  | sendUiPacketTo address data => exact hcall (.sendUiPacketTo address data) id nofun
  | disconnect => exact hcall .disconnect id nofun
  | registerPeer address => exact hcall (.registerPeer address) id nofun
  | setKaTimeout keepAlive => exact .of_eq rfl
  | tick ms => exact .of_eq rfl

/-! ## Busy peers -/

/-- The operation brings an RNR of the connected peer. -/
def Op.Pauses (h : Handle W N) (p : Fin N) : Op W N → Prop
  | .frame data => ∃ m ∈ sender h data, m.1 = p ∧ (h.peers p).state = .connected ∧
      isSFrame m.2 = true ∧ sTypeOf m.2 = SType.rnr.bits
  | _ => False

/-- The operation brings another S-frame of the peer, or starts its numbers anew. -/
def Op.Resumes (h : Handle W N) (p : Fin N) : Op W N → Prop
  | .frame data => ∃ m ∈ sender h data, m.1 = p ∧
      (isSFrame m.2 = true ∧ sTypeOf m.2 ≠ SType.rnr.bits ∨ isUFrame m.2 = true ∧
        (uTypeOf m.2 = UType.sabm.bits ∨ uTypeOf m.2 = UType.snrm.bits ∨
          uTypeOf m.2 = UType.rset.bits))
  | _ => False

/-- The peer is not busy any more: it asks for frames, or the connection is reset or lost. -/
def Lifts (p : Fin N) (m : Handle W N × Op W N) : Prop :=
  m.2.Resumes m.1 p ∨ ¬Linked (operate m.1 m.2) p

/-- The operation looks for a frame of the peer. -/
def Op.Attempts (p : Fin N) : Op W N → Prop
  | .attempt q => q = p
  | _ => False

/-- The operation completes the I-frame in the slot. -/
def FinishesIFrame (i : Fin W) (m : Handle W N × Op W N) : Prop :=
  match m.2 with
  | .run len => ∃ r ∈ (hdlcLlRunTx m.1.mem m.1.hdlc len).2.2, r.1 = .iSlot i
  | _ => False

instance pauses_decidable : (o : Op W N) → Decidable (o.Pauses h p)
  | .frame data => inferInstanceAs (Decidable (∃ m ∈ sender h data, _ ∧ _))
  | .attempt _ | .check _ | .run _ | .lowLevel _ | .sendPacketTo _ _ | .sendUiPacketTo _ _
  | .disconnect | .registerPeer _ | .setKaTimeout _ | .tick _ => isFalse id

instance resumes_decidable : (o : Op W N) → Decidable (o.Resumes h p)
  | .frame data => inferInstanceAs (Decidable (∃ m ∈ sender h data, _ ∧ _))
  | .attempt _ | .check _ | .run _ | .lowLevel _ | .sendPacketTo _ _ | .sendUiPacketTo _ _
  | .disconnect | .registerPeer _ | .setKaTimeout _ | .tick _ => isFalse id

instance attempts_decidable : (o : Op W N) → Decidable (o.Attempts p)
  | .attempt q => inferInstanceAs (Decidable (q = p))
  | .frame _ | .check _ | .run _ | .lowLevel _ | .sendPacketTo _ _ | .sendUiPacketTo _ _
  | .disconnect | .registerPeer _ | .setKaTimeout _ | .tick _ => isFalse id

instance finishesIFrame_decidable : (m : Handle W N × Op W N) → Decidable (FinishesIFrame i m)
  | (h, .run len) => inferInstanceAs
      (Decidable (∃ r ∈ (hdlcLlRunTx h.mem h.hdlc len).2.2, r.1 = .iSlot i))
  | (_, .frame _) | (_, .check _) | (_, .attempt _) | (_, .lowLevel _) | (_, .sendPacketTo _ _)
  | (_, .sendUiPacketTo _ _) | (_, .disconnect) | (_, .registerPeer _) | (_, .setKaTimeout _)
  | (_, .tick _) => isFalse id

instance lifts_decidable (m : Handle W N × Op W N) : Decidable (Lifts p m) :=
  inferInstanceAs (Decidable (_ ∨ _))

/-- The peer is busy at the operation `b` of the run, since the RNR at `a`. -/
structure Busy (past : History W N) (p : Fin N) (a b : Fin past.length) : Prop where
  later : a < b
  pauses : (past.get a).2.Pauses (past.get a).1 p
  still : ∀ c, a < c → c < b → ¬Lifts p (past.get c)

instance busy_decidable (a b : Fin past.length) : Decidable (Busy past p a b) :=
  decidable_of_iff (a < b ∧ (past.get a).2.Pauses (past.get a).1 p ∧
      ∀ c, a < c → c < b → ¬Lifts p (past.get c))
    ⟨fun hb => ⟨hb.1, hb.2.1, hb.2.2⟩, fun hb => ⟨hb.1, hb.2, hb.3⟩⟩

/-- The I-frame that is in the slot at `b` was transmitted before `a`. -/
def TransmittedBefore (past : History W N) (a b : Fin past.length) (i : Fin W) : Prop :=
  ∃ d, d < a ∧ FinishesIFrame i (past.get d) ∧
    ∀ c, d < c → c ≤ b → ((past.get c).1.iQueue.frames i).type = .iFrame

instance transmittedBefore_decidable (a b : Fin past.length) :
    Decidable (TransmittedBefore past a b i) := inferInstanceAs (Decidable (∃ _, _ ∧ _))

/-- While a peer is busy, no I-frame is selected for it that is new. -/
def BusyRespected (past : History W N) : Prop :=
  ∀ p a b, Busy past p a b → (past.get b).2.Attempts p → ∀ i,
    selected (past.get b).1 p = some (.iSlot i) → TransmittedBefore past a b i

/-- While a peer is busy, no new I-frame is due for it when its I-frames have their turn. -/
def NothingNewDue (past : History W N) : Prop :=
  ∀ p a b, Busy past p a b → (past.get b).2.Attempts p → ReachesIFrames (past.get b).1 p → ∀ i,
    dueIFrame (past.get b).1 p = some i → TransmittedBefore past a b i

/-- When RNR comes, all I-frames of the peer have been transmitted, and the application queues
none until it is lifted. -/
def SettledAtPauses (past : History W N) : Prop :=
  ∀ p a, (past.get a).2.Pauses (past.get a).1 p →
    (∀ i, (past.get a).1.window p i ≠ none → TransmittedBefore past a a i) ∧
    ∀ b, Busy past p a b → ¬(past.get b).2.SendsTo (past.get b).1 p

instance settledAtPauses_decidable (past : History W N) : Decidable (SettledAtPauses past) :=
  inferInstanceAs (Decidable (∀ _ _, _ → (∀ _, _ → _) ∧ ∀ _, _ → _))

/-- The I-frames of a peer that is busy are from before. -/
theorem Busy.oldFrames {G : Handle W N → Op W N → Prop} (hl : Lives G h past)
    (hset : SettledAtPauses past) {a : Fin past.length} (hp : Live (past.get a).1 p)
    (hpause : (past.get a).2.Pauses (past.get a).1 p) (i : Fin W) :
    ∀ (n : Nat) (b : Fin past.length), b.val = a.val + n →
      (∀ c, a < c → c < b → ¬Lifts p (past.get c)) →
        Live (past.get b).1 p ∧ ((past.get b).1.window p i ≠ none →
          ∀ c, a ≤ c → c ≤ b → (past.get c).1.window p i ≠ none)
  | 0, b, hb, _ => by
    have hab : b = a := Fin.ext hb
    rw [hab]
    refine ⟨hp, fun hi c hac hca => ?_⟩
    rw [le_antisymm hca hac]
    exact hi
  | n + 1, b, hb, hstill => by
    have hlast : a.val + n < past.length := by
      have := b.isLt
      omega
    obtain ⟨c, hc⟩ : ∃ c : Fin past.length, c.val = a.val + n := ⟨⟨_, hlast⟩, rfl⟩
    have hcb : c < b := by
      rw [Fin.lt_def]
      omega
    obtain ⟨hlive, hold⟩ := Busy.oldFrames hl hset hp hpause i n c hc fun d had hdc =>
      hstill d had (lt_trans hdc hcb)
    have hnb : b.val = c.val + 1 := by omega
    have hnext := hl.next hnb
    obtain ⟨-, -, hbefore⟩ := hl.rule (P := fun _ _ => True) (fun _ _ _ _ _ => trivial)
      fun _ _ _ _ _ _ _ => trivial
    obtain ⟨hord, hdue, -, -⟩ := hbefore _ _ _ (happens_get past c)
    have hsend : ¬(past.get c).2.SendsTo (past.get c).1 p := by
      by_cases hac : c = a
      · rw [hac]
        intro hs
        cases ho : (past.get a).2 with
        | sendPacketTo =>
          rw [ho] at hpause
          exact hpause.elim
        | _ =>
          rw [ho] at hs
          exact hs.elim
      · have hlater : a < c := by
          rw [Fin.lt_def]
          have hne : c.val ≠ a.val := fun he => hac (Fin.ext he)
          omega
        exact (hset p a hpause).2 c ⟨hlater, hpause, fun d had hdc =>
          hstill d had (lt_trans hdc hcb)⟩
    have hno := operate_noNewFrames hord hdue hlive hsend
    refine ⟨hnext ▸ hlive.operate hord hdue, fun hi d had hdb => ?_⟩
    rcases hdb.eq_or_lt with rfl | hdb
    · exact hi
    · rw [hnext] at hi
      refine hold (hno.old i hi) d had ?_
      rw [Fin.le_def]
      rw [Fin.lt_def] at hdb
      omega

theorem Lives.owned {G : Handle W N → Op W N → Prop} (hl : Lives G h past) :
    ∀ before k o, Happens past before k o → Ordered k ∧ Owned k := by
  obtain ⟨-, -, hbefore⟩ := hl.rule (P := fun _ k => Owned k)
    (fun _ _ _ _ _ _ hi => QueueType.noConfusion hi) fun _ _ _ hord hd _ ho => ho.operate hord hd
  intro before k o hk
  obtain ⟨hord, -, -, ho⟩ := hbefore before k o hk
  exact ⟨hord, ho⟩

theorem Op.Pauses.live {o : Op W N} (ho : o.Pauses h p) (hw : Addressed h) : Live h p := by
  cases o with
  | frame data =>
    obtain ⟨m, hm, rfl, -⟩ := ho
    unfold sender at hm
    split at hm
    · obtain ⟨q, hq, rfl⟩ := Option.map_eq_some_iff.mp hm
      exact hw.live_of_found hq
    · cases hm
  | _ => exact ho.elim

/-- In a settled run every I-frame that is selected for a busy peer was transmitted before. -/
theorem SettledAtPauses.respected {G : Handle W N → Op W N → Prop} (hset : SettledAtPauses past)
    (hl : Lives G h past) : BusyRespected past := by
  intro p a b hb _ i hsel
  obtain ⟨-, hd⟩ := selected_iFrame.mp hsel
  obtain ⟨horda, -⟩ := hl.owned _ _ _ (happens_get past a)
  obtain ⟨-, hob⟩ := hl.owned _ _ _ (happens_get past b)
  have hab : b.val = a.val + (b.val - a.val) := by
    have := hb.later
    rw [Fin.lt_def] at this
    omega
  obtain ⟨hlive, hold⟩ := Busy.oldFrames hl hset (hb.pauses.live horda.addressed) hb.pauses i _ b
    hab hb.still
  have hwin : (past.get b).1.window p i ≠ none := by
    unfold dueIFrame at hd
    split at hd
    · rw [window_of_getNext hob hlive hd]
      exact Option.some_ne_none _
    · rw [window_of_getNext hob hlive hd]
      exact Option.some_ne_none _
  have hthere := hold hwin
  obtain ⟨d, hda, hdone, hstay⟩ := (hset p a hb.pauses).1 i (hthere a le_rfl hb.later.le)
  refine ⟨d, hda, hdone, fun c hdc hcb => ?_⟩
  rcases le_or_gt c a with hca | hac
  · exact hstay c hdc hca
  · obtain ⟨r, hr⟩ := Option.ne_none_iff_exists'.mp (hthere c hac.le hcb)
    exact (Slot.entry_some.mp hr).1

/-- A run respects busy peers if and only if no new I-frame is due for one when its I-frames
have their turn, as in every run that is settled. -/
theorem busy_respected_iff (hl : Lives AnyOp h past) :
    (BusyRespected past ↔ NothingNewDue past) ∧ (SettledAtPauses past → BusyRespected past) := by
  refine ⟨?_, fun hset => hset.respected hl⟩
  constructor
  · intro hall p a b hb ho hr i hd
    exact hall p a b hb ho i (selected_iFrame.mpr ⟨hr, hd⟩)
  · intro hall p a b hb ho i hsel
    obtain ⟨hr, hd⟩ := selected_iFrame.mp hsel
    exact hall p a b hb ho hr i hd

/-- An I-frame is transmitted, the peer becomes busy, and the retry timeout passes. -/
def pauseBehind : List Call :=
  [.onFrameRead [0x03, 0x3F], .getTxData 16, .sendPacketTo 0 [1], .getTxData 16,
    .onFrameRead [0x03, 0x05], .tick 100, .getTxData 16]

/-- Only the I-frame that it knows is selected. -/
theorem busy_respected_pauseBehind :
    ∃ a b : Fin (history (smallHandle 2 1 .abm) pauseBehind).length,
      Busy (history (smallHandle 2 1 .abm) pauseBehind) 0 a b ∧
      selected ((history (smallHandle 2 1 .abm) pauseBehind).get b).1 0 = some (.iSlot 0) ∧
      TransmittedBefore (history (smallHandle 2 1 .abm) pauseBehind) a b 0 := by
  have hl : Lives AnyOp _ (history (smallHandle 2 1 .abm) pauseBehind) :=
    smallHandle_lives (by decide) (by decide) (callsMeet_any _ _)
  have hsel : ∃ a b : Fin (history (smallHandle 2 1 .abm) pauseBehind).length,
      Busy (history (smallHandle 2 1 .abm) pauseBehind) 0 a b ∧
      ((history (smallHandle 2 1 .abm) pauseBehind).get b).2.Attempts 0 ∧
      selected ((history (smallHandle 2 1 .abm) pauseBehind).get b).1 0 = some (.iSlot 0) := by
    decide +kernel
  obtain ⟨a, b, hb, ho, hs⟩ := hsel
  exact ⟨a, b, hb, hs, (busy_respected_iff hl).2 (by decide +kernel) 0 a b hb ho 0 hs⟩

/-- A payload is sent after RNR. -/
def sendWhilePaused : List Call :=
  [.onFrameRead [0x03, 0x3F], .getTxData 16, .onFrameRead [0x03, 0x05], .sendPacketTo 0 [1],
    .getTxData 16]

/-- Its I-frame is selected at once. -/
theorem busy_ignored : ∃ past, ∃ h : Handle 2 1, Lives AnyOp h past ∧ ¬BusyRespected past := by
  have hnew : ∃ a b : Fin (history (smallHandle 2 1 .abm) sendWhilePaused).length,
      Busy (history (smallHandle 2 1 .abm) sendWhilePaused) 0 a b ∧
      ((history (smallHandle 2 1 .abm) sendWhilePaused).get b).2.Attempts 0 ∧
      selected ((history (smallHandle 2 1 .abm) sendWhilePaused).get b).1 0 = some (.iSlot 0) ∧
      ¬TransmittedBefore (history (smallHandle 2 1 .abm) sendWhilePaused) a b 0 := by
    decide +kernel
  obtain ⟨a, b, hb, ho, hs, hno⟩ := hnew
  exact ⟨_, _, smallHandle_lives (by decide) (by decide) (callsMeet_any _ _), fun hall =>
    hno (hall 0 a b hb ho 0 hs)⟩

end TinyProto.Fd
