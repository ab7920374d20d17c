import TinyProto.Fd.Calls
import TinyProto.Lib.SlotWindow

/-!
# The send window

The slots with I-frames for a peer, as a table of sequence numbers and payloads
(`Handle.window`), and what the elementary steps do to it.  Confirming takes the slot with
number `confirm_ns` out, accepting a payload puts one with number `last_ns` in, opening
and closing a connection empties it, and nothing else changes it.
-/

set_option linter.unusedSectionVars false

namespace TinyProto.Fd

open Hdlc Runs SlotWindow

variable {W N : Nat} [NeZero W] [NeZero N] {h h' : Handle W N} {p q : Fin N}

/-! ## The table of a peer -/

/-- Number and payload, if the slot holds an I-frame from or to the address. -/
def Slot.entry (s : Slot) (address : Byte) : Option (Seq × List Byte) :=
  if s.type = .iFrame ∧ s.address = address then some (nsOf s.control, s.payload) else none

/-- The I-frames for a peer. -/
def Handle.window (h : Handle W N) (p : Fin N) (i : Fin W) : Option (Seq × List Byte) :=
  (h.iQueue.frames i).entry (h.peers p).addr

/-- The payloads of a peer that were accepted in this connection and not confirmed yet. -/
def unconfirmedStep (p : Fin N) (u : List (List Byte)) : Event N → List (List Byte)
  | .accepted q payload => if q = p then u ++ [payload] else u
  | .sent q _ _ => if q = p then u.tail else u
  | .connect q _ _ => if q = p then [] else u
  | _ => u

/-- The unconfirmed payloads after a history. -/
def unconfirmed (p : Fin N) (log : List (Event N)) : List (List Byte) :=
  log.foldl (unconfirmedStep p) []

theorem unconfirmed_append (p : Fin N) (log es : List (Event N)) :
    unconfirmed p (log ++ es) = es.foldl (unconfirmedStep p) (unconfirmed p log) :=
  List.foldl_append ..

theorem unconfirmed_concat (p : Fin N) (log : List (Event N)) (e : Event N) :
    unconfirmed p (log ++ [e]) = unconfirmedStep p (unconfirmed p log) e :=
  unconfirmed_append p log [e]

/-- Every I-frame in the queue is for a peer. -/
def Owned (h : Handle W N) : Prop :=
  ∀ i, (h.iQueue.frames i).type = .iFrame →
    ∃ p, Live h p ∧ (h.iQueue.frames i).address = (h.peers p).addr

theorem Live.field (hp : Live h p) : peerToAddressField h p = (h.peers p).addr :=
  (clear_cr hp.2).1

theorem Slot.entry_some {s : Slot} {a : Byte} {ns : Seq} {x : List Byte} :
    s.entry a = some (ns, x) ↔
      s.type = .iFrame ∧ s.address = a ∧ nsOf s.control = ns ∧ s.payload = x := by
  unfold Slot.entry
  split
  · next hc =>
    simp only [Option.some.injEq, Prod.mk.injEq]
    exact ⟨fun hx => ⟨hc.1, hc.2, hx.1, hx.2⟩, fun hx => ⟨hx.2.2.1, hx.2.2.2⟩⟩
  · next hc =>
    exact ⟨nofun, fun hx => absurd ⟨hx.1, hx.2.1⟩ hc⟩

theorem Slot.entry_none {s : Slot} {a : Byte} (ht : s.type ≠ .iFrame) : s.entry a = none :=
  if_neg fun hc => ht hc.1

/-- What the search for an I-frame of the peer finds is in its table. -/
theorem window_of_getNext (ho : Owned h) (hp : Live h p) {ns : Seq} {i : Fin W}
    (hi : h.iQueue.getNext [.iFrame] (peerToAddressField h p) ns = some i) :
    h.window p i = some (ns, (h.iQueue.frames i).payload) := by
  obtain ⟨ht, ha, hns⟩ := Slot.fits_iFrame.mp (Queue.getNext_some hi)
  obtain ⟨q, hq, haq⟩ := ho i ht
  rw [haq, ← hq.field] at ha
  rw [hp.eq_of_sameStation hq ha]
  exact Slot.entry_some.mpr ⟨ht, haq, hns, rfl⟩

/-- A frame in the table is found. -/
theorem getNext_of_window (hp : Live h p) {ns : Seq} {x : List Byte} {i : Fin W}
    (hi : h.window p i = some (ns, x)) :
    ∃ j, h.iQueue.getNext [.iFrame] (peerToAddressField h p) ns = some j := by
  obtain ⟨ht, ha, hns, -⟩ := Slot.entry_some.mp hi
  refine Queue.getNext_isSome (i := i) (Slot.fits_iFrame.mpr ⟨ht, ?_, hns⟩)
  rw [hp.field, ha]
  exact sameStation_self _

/-- No slot is in the tables of two peers. -/
theorem window_other (hp : Live h p) (hq : Live h q) (hne : q ≠ p) {i : Fin W}
    (hi : h.window p i ≠ none) : h.window q i = none := by
  cases hw : h.window q i with
  | none => rfl
  | some r =>
    obtain ⟨s, hs⟩ := Option.ne_none_iff_exists'.mp hi
    have ha := (Slot.entry_some.mp hs).2.1
    have ha' := (Slot.entry_some.mp hw).2.1
    have hsame : (h.peers q).addr = (h.peers p).addr := ha'.symm.trans ha
    have := hq.1
    rw [hsame, hp.1] at this
    exact absurd (Option.some.inj this).symm hne

/-! ## Changes of the table -/

/-- The stations are the same, for the peers that have one. -/
def SameStations (h h' : Handle W N) : Prop :=
  ∀ q, Live h q → Live h' q ∧ (h'.peers q).addr = (h.peers q).addr

/-- I-frames may have gone, but none is new. -/
def Keeps (h h' : Handle W N) : Prop :=
  ∀ i, (h'.iQueue.frames i).type = .iFrame → (h.iQueue.frames i).type = .iFrame ∧
    (h'.iQueue.frames i).address = (h.iQueue.frames i).address

theorem Owned.keep (ho : Owned h) (hs : SameStations h h') (hk : Keeps h h') : Owned h' := by
  intro i hi
  obtain ⟨ht, ha⟩ := hk i hi
  obtain ⟨q, hq, haq⟩ := ho i ht
  obtain ⟨hq', haddr⟩ := hs q hq
  exact ⟨q, hq', by rw [ha, haq, haddr]⟩

theorem Step.sameStations {a : Act N} (hw : Addressed h) (hs : Step h a h') : SameStations h h' :=
  fun _ hq => hq.step hw hs

/-- The peers kept their addresses and the settings are the same. -/
theorem sameStations_of_addr (hset : h'.settings = h.settings)
    (haddr : ∀ q, (h'.peers q).addr = (h.peers q).addr) : SameStations h h' := by
  intro q hq
  refine ⟨⟨?_, by rw [haddr]; exact hq.2⟩, haddr q⟩
  have hm := Multi.congr hset
  rw [haddr, addressFieldToPeer_eq]
  have hlook := hq.1
  rw [addressFieldToPeer_eq] at hlook
  simp only [hm, hset, haddr]
  exact hlook

theorem SameStations.trans {h₁ h₂ h₃ : Handle W N} (h₁₂ : SameStations h₁ h₂)
    (h₂₃ : SameStations h₂ h₃) : SameStations h₁ h₃ := fun q hq =>
  let ⟨hq₂, ha₂⟩ := h₁₂ q hq
  let ⟨hq₃, ha₃⟩ := h₂₃ q hq₂
  ⟨hq₃, ha₃.trans ha₂⟩

theorem setPeer_sameStations (h : Handle W N) (p : Fin N) {f : Peer → Peer}
    (hf : (f (h.peers p)).addr = (h.peers p).addr) : SameStations h (h.setPeer p f) :=
  sameStations_of_addr rfl (setPeer_addr h p hf)

/-- A slot of the queue was freed. -/
theorem window_free (hp : Live h p) {ns : Seq} {x : List Byte} {i : Fin W}
    (hi : h.window p i = some (ns, x)) (hq : Live h q)
    (hframes : h'.iQueue = h.iQueue.freeByHeader i)
    (haddr : ∀ q, (h'.peers q).addr = (h.peers q).addr) :
    h'.window q = if q = p then Function.update (h.window p) i none else h.window q := by
  funext j
  have hfree : h'.window q i = none := by
    unfold Handle.window
    rw [hframes, Queue.freeByHeader_self]
    exact Slot.entry_none QueueType.noConfusion
  by_cases hji : j = i
  · subst hji
    rw [hfree]
    split
    · rw [Function.update_self]
    · next hne =>
      rw [window_other hp hq hne]
      rw [hi]
      exact Option.some_ne_none _
  · have hsame : h'.window q j = h.window q j := by
      unfold Handle.window
      rw [hframes, Queue.freeByHeader_ne _ hji, haddr]
    rw [hsame]
    split
    · next hqp =>
      rw [Function.update_of_ne hji, hqp]
    · rfl

/-- What a turn of the confirmation loop does to the queue and the log. -/
theorem confirmOne_cases (h : Handle W N) (p : Fin N) :
    (∃ j, h.iQueue.getNext [.iFrame] (peerToAddressField h p) (h.control p).confirmNs = some j ∧
      (confirmOne h p).iQueue = h.iQueue.freeByHeader j ∧
      (confirmOne h p).log =
        h.log ++ [.sent p (callbackAddress h p) (h.iQueue.frames j).payload]) ∨
    h.iQueue.getNext [.iFrame] (peerToAddressField h p) (h.control p).confirmNs = none ∧
      (confirmOne h p).iQueue = h.iQueue ∧ (confirmOne h p).log = h.log := by
  unfold confirmOne onFrameConfirmed
  cases hj : h.iQueue.getNext [.iFrame] (peerToAddressField h p) (h.control p).confirmNs with
  | none => exact .inr ⟨rfl, rfl, rfl⟩
  | some j =>
    refine .inl ⟨j, rfl, ?_, ?_⟩
    · show (if _ then _ else _ : Handle W N).iQueue = _
      split <;> rfl
    · show (if _ then _ else _ : Handle W N).log = _
      split <;> rfl

theorem confirmOne_control (h : Handle W N) (p : Fin N) :
    (confirmOne h p).control p = { h.control p with confirmNs := (h.control p).confirmNs + 1 } := by
  have hkeep : (onFrameConfirmed h p (h.control p).confirmNs).control p = h.control p := by
    unfold onFrameConfirmed
    split
    · rw [setPeer_control_keep]
      · show (if _ then _ else _ : Handle W N).control p = _
        split <;> rfl
      · rfl
    · exact setPeer_control_keep h p rfl
  unfold confirmOne
  rw [setControl_self, hkeep]

theorem confirmOne_sameStations (h : Handle W N) (p : Fin N) :
    SameStations h (confirmOne h p) := by
  have hc := confirmOne_confirms h p
  exact sameStations_of_addr hc.settings fun q => (hc.addr q).1

theorem confirmOne_owned (ho : Owned h) : Owned (confirmOne h p) := by
  refine ho.keep (confirmOne_sameStations h p) fun k hk => ?_
  rcases confirmOne_cases h p with ⟨j, -, hframes, -⟩ | ⟨-, hframes, -⟩
  · rw [hframes] at hk ⊢
    by_cases hkj : k = j
    · rw [hkj, Queue.freeByHeader_self] at hk
      cases hk
    · rw [Queue.freeByHeader_ne _ hkj] at hk ⊢
      exact ⟨hk, rfl⟩
  · rw [hframes] at hk ⊢
    exact ⟨hk, rfl⟩

/-- With the frame in the table, a turn takes it out and reports it. -/
theorem confirmOne_window (ho : Owned h) (hp : Live h p) {i : Fin W} {x : List Byte}
    (hi : h.window p i = some ((h.control p).confirmNs, x)) :
    ∃ j y a, h.window p j = some ((h.control p).confirmNs, y) ∧
      (confirmOne h p).log = h.log ++ [.sent p a y] ∧
      (confirmOne h p).window p = Function.update (h.window p) j none := by
  obtain ⟨k, hk⟩ := getNext_of_window hp hi
  rcases confirmOne_cases h p with ⟨j, hj, hframes, hlog⟩ | ⟨hnone, -, -⟩
  · have hwj := window_of_getNext ho hp hj
    refine ⟨j, _, _, hwj, hlog, ?_⟩
    rw [window_free hp hwj hp hframes fun q => ((confirmOne_confirms h p).addr q).1, if_pos rfl]
  · rw [hk] at hnone
    cases hnone

/-- A turn does nothing to the other peers. -/
theorem confirmOne_other (ho : Owned h) (hp : Live h p) (hne : q ≠ p) :
    (confirmOne h p).control q = h.control q ∧
      unconfirmed q (confirmOne h p).log = unconfirmed q h.log ∧
      (Live h q → (confirmOne h p).window q = h.window q) := by
  have hc := confirmOne_confirms h p
  have haddr : ∀ q, ((confirmOne h p).peers q).addr = (h.peers q).addr := fun q => (hc.addr q).1
  refine ⟨by unfold Handle.control; rw [hc.other q hne], ?_, fun hq => ?_⟩
  · rcases confirmOne_cases h p with ⟨j, -, -, hlog⟩ | ⟨-, -, hlog⟩
    · rw [hlog, unconfirmed_concat]
      exact if_neg (Ne.symm hne)
    · rw [hlog]
  · rcases confirmOne_cases h p with ⟨j, hj, hframes, -⟩ | ⟨-, hframes, -⟩
    · rw [window_free hp (window_of_getNext ho hp hj) hq hframes haddr, if_neg hne]
    · unfold Handle.window
      rw [hframes, haddr]

/-- Opening or closing a connection empties the table of the peer. -/
theorem switches_window {connected : Bool} (hw : Switches p connected h h') (hp : Live h p)
    (hq : Live h q) :
    h'.window q = if q = p then fun _ => none else h.window q := by
  funext i
  have haddr := hw.addr_eq q
  unfold Handle.window
  rw [hw.iQueue, haddr]
  by_cases hs : sameStation (h.iQueue.frames i).address (peerToAddressField h p) = true
  · rw [Queue.resetFor_same hs, Slot.entry_none QueueType.noConfusion]
    split
    · rfl
    · next hne =>
      -- The slot is no frame of another peer either.
      cases hwi : (h.iQueue.frames i).entry (h.peers q).addr with
      | none => exact hwi.symm
      | some r =>
        have ha := (Slot.entry_some.mp hwi).2.1
        rw [ha, ← hq.field] at hs
        exact absurd (hq.eq_of_sameStation hp hs) hne
  · rw [Queue.resetFor_other (eq_false_of_ne_true hs)]
    split
    · next hqp =>
      subst hqp
      cases hwi : (h.iQueue.frames i).entry (h.peers q).addr with
      | none => rfl
      | some r =>
        have ha := (Slot.entry_some.mp hwi).2.1
        rw [ha, hp.field, sameStation_self] at hs
        exact absurd rfl hs
    · rfl

theorem switches_keeps {connected : Bool} (hw : Switches p connected h h') : Keeps h h' := by
  intro i hi
  rw [hw.iQueue] at hi ⊢
  by_cases hs : sameStation (h.iQueue.frames i).address (peerToAddressField h p) = true
  · rw [Queue.resetFor_same hs] at hi
    cases hi
  · rw [Queue.resetFor_other (eq_false_of_ne_true hs)] at hi ⊢
    exact ⟨hi, rfl⟩

/-- The slots differ in N(R) and P/F only. -/
def SameSlots (q q' : Queue W) : Prop :=
  ∀ i, (q'.frames i).type = (q.frames i).type ∧ (q'.frames i).address = (q.frames i).address ∧
    nsOf (q'.frames i).control = nsOf (q.frames i).control ∧
    (q'.frames i).payload = (q.frames i).payload

theorem SameSlots.refl (q : Queue W) : SameSlots q q := fun _ => ⟨rfl, rfl, rfl, rfl⟩

theorem SameSlots.trans {q₁ q₂ q₃ : Queue W} (h₁₂ : SameSlots q₁ q₂) (h₂₃ : SameSlots q₂ q₃) :
    SameSlots q₁ q₃ := fun i =>
  ⟨(h₂₃ i).1.trans (h₁₂ i).1, (h₂₃ i).2.1.trans (h₁₂ i).2.1,
    (h₂₃ i).2.2.1.trans (h₁₂ i).2.2.1, (h₂₃ i).2.2.2.trans (h₁₂ i).2.2.2⟩

theorem SameSlots.setControl (q : Queue W) (i : Fin W) {c : Byte}
    (hc : nsOf c = nsOf (q.frames i).control) :
    SameSlots q (q.setFrame i { q.frames i with control := c }) := by
  intro j
  by_cases hji : j = i
  · subst hji
    rw [Queue.setFrame_self]
    exact ⟨rfl, rfl, hc, rfl⟩
  · rw [Queue.setFrame_ne _ hji]
    exact ⟨rfl, rfl, rfl, rfl⟩

theorem SameSlots.entry {q q' : Queue W} (hs : SameSlots q q') (i : Fin W) (a : Byte) :
    (q'.frames i).entry a = (q.frames i).entry a := by
  obtain ⟨ht, ha, hns, hx⟩ := hs i
  unfold Slot.entry
  rw [ht, ha, hns, hx]

theorem SameSlots.keeps (hs : SameSlots h.iQueue h'.iQueue) : Keeps h h' := fun i hi =>
  ⟨(hs i).1 ▸ hi, (hs i).2.1⟩

theorem SameSlots.window (hs : SameSlots h.iQueue h'.iQueue)
    (haddr : (h'.peers p).addr = (h.peers p).addr) : h'.window p = h.window p := by
  funext i
  unfold Handle.window
  rw [haddr, hs.entry]

/-- Choosing a frame changes N(R) and P/F only. -/
theorem refreshSlot_sameSlots (h : Handle W N) (p : Fin N) (i : Fin W) :
    SameSlots h.iQueue (refreshSlot h p i).iQueue :=
  .setControl h.iQueue i (nsOf_refresh _ _)

theorem markChosen_sameSlots (h : Handle W N) (p : Fin N) (r : SlotRef W) (poll : Bool) :
    SameSlots h.iQueue (markChosen h p r poll).iQueue := by
  unfold markChosen
  cases poll with
  | false => exact .refl _
  | true =>
    cases r with
    | iSlot i => exact .setControl h.iQueue i (nsOf_poll _)
    | sSlot i => exact .refl _

/-- An accepted payload takes a free slot. -/
theorem accept_window {data : List Byte} (hput : putIFrame? h p data = some h') (hp : Live h p)
    (hq : Live h q) :
    ∃ i, h.window p i = none ∧
      h'.window q = if q = p then
        Function.update (h.window p) i (some ((h.control p).lastNs, data)) else h.window q := by
  obtain ⟨i, hfree, -, rfl⟩ := putIFrame_some hput
  have hnone : ∀ a, (h.iQueue.frames i).entry a = none := fun a =>
    Slot.entry_none (by rw [hfree]; exact QueueType.noConfusion)
  refine ⟨i, hnone _, ?_⟩
  funext j
  have haddr : ((h.setControl p fun c => { c with lastNs := c.lastNs + 1 }).peers q).addr =
      (h.peers q).addr := setPeer_addr h p rfl q
  show ((h.iQueue.setFrame i (newIFrame h p data)).frames j).entry
    ((h.setControl p fun c => { c with lastNs := c.lastNs + 1 }).peers q).addr = _
  rw [haddr]
  by_cases hji : j = i
  · subst hji
    rw [Queue.setFrame_self]
    unfold newIFrame
    rw [hp.field]
    split
    · next hqp =>
      subst hqp
      rw [Function.update_self]
      exact Slot.entry_some.mpr ⟨rfl, rfl, nsOf_shift _, rfl⟩
    · next hne =>
      refine (if_neg fun hc => hne ?_).trans (hnone _).symm
      have hlook := hq.1
      rw [← hc.2, hp.1] at hlook
      exact (Option.some.inj hlook).symm
  · rw [Queue.setFrame_ne _ hji]
    split
    · next hqp =>
      subst hqp
      rw [Function.update_of_ne hji]
      rfl
    · rfl

/-- The new frame is for a peer too. -/
theorem accept_owned {data : List Byte} (hput : putIFrame? h p data = some h') (hp : Live h p)
    (hs : SameStations h h') (ho : Owned h) : Owned h' := by
  obtain ⟨hp', haddr⟩ := hs p hp
  obtain ⟨i, -, -, hk⟩ := putIFrame_some hput
  have hiq : h'.iQueue = h.iQueue.setFrame i (newIFrame h p data) := by rw [hk]; rfl
  intro j hj
  by_cases hji : j = i
  · subst hji
    refine ⟨p, hp', ?_⟩
    rw [hiq, Queue.setFrame_self, haddr]
    exact hp.field
  · rw [hiq, Queue.setFrame_ne _ hji] at hj ⊢
    obtain ⟨q, hq, haq⟩ := ho j hj
    obtain ⟨hq', haddr'⟩ := hs q hq
    exact ⟨q, hq', by rw [haq, haddr']⟩

/-! ## Confirmation of several frames -/

/-- What every turn for a peer preserves, confirming frames preserves, up to the flag of
the peer. -/
theorem confirmSentFrames_rule {P : Handle W N → Prop} {nr : Seq} (ho : Owned h) (hp : Live h p)
    (hstep : ∀ k : Handle W N, Owned k → Live k p → P k → nr ≠ (k.control p).confirmNs →
      (k.control p).confirmNs ≠ (k.control p).lastNs → P (confirmOne k p))
    (hflag : ∀ k : Handle W N, P k → P (k.setPeer p fun x => { x with canAcceptIFrames := true }))
    (hP : P h) : P (confirmSentFrames h p nr) := by
  have hloop : P (confirmLoop 8 h p nr) := by
    refine (confirmLoop_rule (P := fun k => Owned k ∧ Live k p ∧ P k) ?_ 8 h ⟨ho, hp, hP⟩).2.2
    rintro k ⟨hok, hpk, hPk⟩ hnr hne
    exact ⟨confirmOne_owned hok, (confirmOne_sameStations k p p hpk).1, hstep k hok hpk hPk hnr hne⟩
  unfold confirmSentFrames
  dsimp only
  split
  · exact hflag _ hloop
  · exact hloop

theorem confirmSentFrames_owned (ho : Owned h) (hp : Live h p) (nr : Seq) :
    Owned (confirmSentFrames h p nr) := by
  refine confirmSentFrames_rule (P := Owned) ho hp (fun k hok _ _ _ _ => confirmOne_owned hok)
    (fun k hok => hok.keep (setPeer_sameStations k p rfl) fun i hi => ⟨hi, rfl⟩) ho

theorem confirmSentFrames_other (ho : Owned h) (hp : Live h p) (nr : Seq) (hne : q ≠ p) :
    (confirmSentFrames h p nr).control q = h.control q ∧
      unconfirmed q (confirmSentFrames h p nr).log = unconfirmed q h.log ∧
      (Live h q → (confirmSentFrames h p nr).window q = h.window q) := by
  refine (confirmSentFrames_rule (P := fun k => SameStations h k ∧ k.control q = h.control q ∧
    unconfirmed q k.log = unconfirmed q h.log ∧ (Live h q → k.window q = h.window q)) ho hp
    ?_ ?_ ⟨fun q hq => ⟨hq, rfl⟩, rfl, rfl, fun _ => rfl⟩).2
  · rintro k hok hpk ⟨hs, hck, huk, hwk⟩ - -
    obtain ⟨hc, hu, hw⟩ := confirmOne_other hok hpk hne
    exact ⟨hs.trans (confirmOne_sameStations k p), hc.trans hck, hu.trans huk,
      fun hq => (hw (hs q hq).1).trans (hwk hq)⟩
  · rintro k ⟨hs, hck, huk, hwk⟩
    refine ⟨hs.trans (setPeer_sameStations k p rfl), ?_, huk, fun hq => ?_⟩
    · unfold Handle.control at hck ⊢
      rw [setPeer_ne k hne]
      exact hck
    · rw [← hwk hq]
      unfold Handle.window
      rw [setPeer_addr k p rfl]
      rfl

/-! ## Steps -/

/-- The peer whose window a step may change. -/
def Act.actor : Act N → Option (Fin N)
  | .confirm p _ | .reject p _ | .receive p _ | .resend p | .connect p | .disconnect p | .reset p
  | .chooseIFrame p | .accept p => some p
  | _ => none

/-- The events say nothing about the window of the peer. -/
def Silent (q : Fin N) (es : List (Event N)) : Prop :=
  ∀ e ∈ es, ∀ u, unconfirmedStep q u e = u

theorem unconfirmed_silent {log es : List (Event N)} (hes : Silent q es) :
    unconfirmed q (log ++ es) = unconfirmed q log := by
  induction es generalizing log with
  | nil => rw [List.append_nil]
  | cons e es ih =>
    have hsplit : log ++ e :: es = (log ++ [e]) ++ es := by simp
    rw [hsplit, ih fun e he => hes e (List.mem_cons_of_mem _ he), unconfirmed_concat]
    exact hes e List.mem_cons_self _

theorem Silent.nil : Silent q ([] : List (Event N)) := fun _ he => absurd he List.not_mem_nil

theorem Silent.single {e : Event N} (he : ∀ u, unconfirmedStep q u e = u) : Silent q [e] := by
  intro e' he' u
  rw [List.mem_singleton.mp he']
  exact he u

theorem Silent.neutral {es : List (Event N)} (hes : ∀ e ∈ es, e.Neutral) : Silent q es := by
  intro e he u
  have := hes e he
  cases e with
  | frameIn => rfl
  | readUi => rfl
  | returnMarker => rfl
  | _ => exact absurd this id

/-- What a peer's window is made of did not change. -/
structure SameView (q : Fin N) (h h' : Handle W N) : Prop where
  control : h'.control q = h.control q
  log : unconfirmed q h'.log = unconfirmed q h.log
  window : Live h q → h'.window q = h.window q

theorem SameView.of (hc : h'.control q = h.control q) (ha : (h'.peers q).addr = (h.peers q).addr)
    (hs : SameSlots h.iQueue h'.iQueue)
    (hlog : ∃ es, h'.log = h.log ++ es ∧ Silent q es) : SameView q h h' := by
  obtain ⟨es, hes, hsilent⟩ := hlog
  exact ⟨hc, by rw [hes, unconfirmed_silent hsilent], fun _ => hs.window ha⟩

theorem SameView.trans {h₁ h₂ h₃ : Handle W N} (hs : SameStations h₁ h₂)
    (h₁₂ : SameView q h₁ h₂) (h₂₃ : SameView q h₂ h₃) : SameView q h₁ h₃ :=
  ⟨h₂₃.control.trans h₁₂.control, h₂₃.log.trans h₁₂.log, fun hq =>
    (h₂₃.window (hs q hq).1).trans (h₁₂.window hq)⟩

theorem sameLog : ∃ es, h.log = h.log ++ es ∧ Silent q es :=
  ⟨[], (List.append_nil _).symm, Silent.nil⟩

theorem setPeer_sameView_ne (h : Handle W N) (hne : q ≠ p) (f : Peer → Peer) :
    SameView q h (h.setPeer p f) := by
  refine .of ?_ (by rw [setPeer_ne h hne]) (SameSlots.refl _) sameLog
  unfold Handle.control
  rw [setPeer_ne h hne]

theorem setPeer_sameView (h : Handle W N) (p : Fin N) {f : Peer → Peer}
    (hc : (f (h.peers p)).iQueueControl = (h.peers p).iQueueControl)
    (ha : (f (h.peers p)).addr = (h.peers p).addr) (q : Fin N) : SameView q h (h.setPeer p f) := by
  refine .of ?_ (setPeer_addr h p ha q) (SameSlots.refl _) sameLog
  by_cases hqp : q = p
  · subst hqp
    exact setPeer_control_keep h q hc
  · unfold Handle.control
    rw [setPeer_ne h hqp]

theorem resends_sameView_ne (hr : Resends p h h') (hne : q ≠ p) : SameView q h h' := by
  refine .of ?_ (hr.addr q).1 (by rw [hr.iQueue]; exact .refl _) ?_
  · unfold Handle.control
    rw [hr.other q hne]
  · rw [hr.log]
    exact sameLog

theorem confirmSentFrames_sameView_ne (ho : Owned h) (hp : Live h p) (nr : Seq) (hne : q ≠ p) :
    SameView q h (confirmSentFrames h p nr) :=
  let ⟨hc, hu, hw⟩ := confirmSentFrames_other ho hp nr hne
  ⟨hc, hu, hw⟩

theorem markChosen_sameView (h : Handle W N) (p q : Fin N) (r : SlotRef W) (poll : Bool) :
    SameView q h (markChosen h p r poll) := by
  obtain ⟨-, hpeers, -⟩ := markChosen_eq h p r poll
  obtain ⟨data, hlog⟩ := markChosen_log h p r poll
  refine .of ?_ (by rw [hpeers]) (markChosen_sameSlots h p r poll)
    ⟨_, hlog, .single fun u => rfl⟩
  unfold Handle.control
  rw [hpeers]

/-- A step changes the window of its actor only. -/
theorem Step.others {a : Act N} (ho : Owned h) (hs : Step h a h') (hq : a.actor ≠ some q)
    (hr : a ≠ .register q) : SameView q h h' := by
  cases hs with
  | quiet hquiet =>
    obtain ⟨es, hlog, hes⟩ := hquiet.log
    exact .of (hquiet.control q) (hquiet.peer q).addr (by rw [hquiet.iQueue]; exact .refl _)
      ⟨es, hlog, .neutral hes⟩
  | @register p =>
    have hne : q ≠ p := fun hqp => hr (by rw [hqp])
    exact setPeer_sameView_ne h hne _
  | turn => exact .of rfl rfl (.refl _) sameLog
  | putS =>
    unfold putSFrame
    exact .of (by simp) (by simp) (by rw [putUSFrame_iQueue]; exact .refl _)
      (by rw [putUSFrame_log]; exact sameLog)
  | putU =>
    exact .of (by simp) (by simp) (by rw [putUSFrame_iQueue]; exact .refl _)
      (by rw [putUSFrame_log]; exact sameLog)
  | free => exact .of rfl rfl (.refl _) sameLog
  | @confirm p nr hp =>
    have hne : q ≠ p := fun hqp => hq (by rw [hqp]; rfl)
    exact confirmSentFrames_sameView_ne ho hp nr hne
  | @reject p control hp =>
    have hne : q ≠ p := fun hqp => hq (by rw [hqp]; rfl)
    have hc := confirmSentFrames_confirms h p (nrOf control)
    exact .trans (sameStations_of_addr hc.settings fun r => (hc.addr r).1)
      (confirmSentFrames_sameView_ne ho hp _ hne)
      (resends_sameView_ne (resendAllUnconfirmedFrames_resends _ p _ _) hne)
  | @receive p nr payload hp =>
    have hne : q ≠ p := fun hqp => hq (by rw [hqp]; rfl)
    have hst : SameStations h (h.setControl p fun c => { c with nextNr := c.nextNr + 1 }) :=
      setPeer_sameStations h p rfl
    have hfirst : SameView q h (h.setControl p fun c => { c with nextNr := c.nextNr + 1 }) :=
      setPeer_sameView_ne h hne _
    have hconf := hfirst.trans hst (confirmSentFrames_sameView_ne
      (ho.keep hst fun i hi => ⟨hi, rfl⟩) (hst p hp).1 nr hne)
    refine ⟨hconf.control, ?_, hconf.window⟩
    unfold receiveFrame Handle.emit
    rw [unconfirmed_silent (.single fun u => rfl)]
    exact hconf.log
  | @resend p =>
    have hne : q ≠ p := fun hqp => hq (by rw [hqp]; rfl)
    exact resends_sameView_ne (resendAllUnconfirmedFrames_resends h p _ _) hne
  | @connect p hp hl =>
    have hne : q ≠ p := fun hqp => hq (by rw [hqp]; rfl)
    have hw := switchToConnectedState_switches h (ne_connected hl)
    obtain ⟨a, hlog⟩ := hw.log
    refine ⟨by unfold Handle.control; rw [hw.other q hne], ?_, fun hlive => ?_⟩
    · rw [hlog, unconfirmed_concat]
      exact if_neg (Ne.symm hne)
    · rw [switches_window hw hp hlive, if_neg hne]
  | @disconnect p hp hst =>
    have hne : q ≠ p := fun hqp => hq (by rw [hqp]; rfl)
    have hw := switchToDisconnectedState_switches h hst
    obtain ⟨a, hlog⟩ := hw.log
    refine ⟨by unfold Handle.control; rw [hw.other q hne], ?_, fun hlive => ?_⟩
    · rw [hlog, unconfirmed_concat]
      exact if_neg (Ne.symm hne)
    · rw [switches_window hw hp hlive, if_neg hne]
  | @reset p =>
    have hne : q ≠ p := fun hqp => hq (by rw [hqp]; rfl)
    exact setPeer_sameView_ne h hne _
  | request => exact setPeer_sameView h _ rfl rfl q
  | hangUp => exact setPeer_sameView h _ rfl rfl q
  | @chooseService p i poll => exact markChosen_sameView h p q (.sSlot i) poll
  | @chooseNext p i poll =>
    have hne : q ≠ p := fun hqp => hq (by rw [hqp]; rfl)
    have hrefresh : SameView q h (refreshSlot h p i) :=
      .of rfl rfl (refreshSlot_sameSlots h p i) sameLog
    have hst : SameStations h (refreshSlot h p i) := sameStations_of_addr rfl fun _ => rfl
    have hnext := hrefresh.trans hst (setPeer_sameView_ne (refreshSlot h p i) hne
      fun x => { x with iQueueControl := { x.iQueueControl with
        nextNs := x.iQueueControl.nextNs + 1 } })
    exact hnext.trans (hst.trans (setPeer_sameStations _ p rfl)) (markChosen_sameView _ p q _ poll)
  | @chooseRequested p i ns poll =>
    have hrefresh : SameView q h (refreshSlot h p i) :=
      .of rfl rfl (refreshSlot_sameSlots h p i) sameLog
    have hst : SameStations h (refreshSlot h p i) := sameStations_of_addr rfl fun _ => rfl
    exact hrefresh.trans hst (markChosen_sameView _ p q _ poll)
  | @accept k p data hp _ hput =>
    have hne : q ≠ p := fun hqp => hq (by rw [hqp]; rfl)
    refine ⟨?_, ?_, fun hlive => ?_⟩
    · obtain ⟨i, -, -, rfl⟩ := putIFrame_some hput
      show ((h.setControl p fun c => { c with lastNs := c.lastNs + 1 }).peers q).iQueueControl = _
      unfold Handle.setControl
      rw [setPeer_ne h hne]
      rfl
    · have hlog : k.log = h.log := by
        obtain ⟨i, -, -, rfl⟩ := putIFrame_some hput
        rfl
      show unconfirmed q (k.log ++ [_]) = _
      rw [unconfirmed_concat, hlog]
      exact if_neg (Ne.symm hne)
    · obtain ⟨i, -, hw⟩ := accept_window hput hp hlive
      exact hw.trans (if_neg hne)

theorem Step.owned {a : Act N} (hw : Addressed h) (ho : Owned h) (hs : Step h a h') : Owned h' := by
  have hst := hs.sameStations hw
  have hsame : SameSlots h.iQueue h'.iQueue → Owned h' := fun hslots => ho.keep hst hslots.keeps
  cases hs with
  | quiet hq =>
    refine hsame ?_
    rw [hq.iQueue]
    exact .refl _
  | register => exact hsame (.refl _)
  | turn => exact hsame (.refl _)
  | putS =>
    refine hsame ?_
    unfold putSFrame
    rw [putUSFrame_iQueue]
    exact .refl _
  | putU =>
    refine hsame ?_
    rw [putUSFrame_iQueue]
    exact .refl _
  | free => exact hsame (.refl _)
  | confirm hp => exact confirmSentFrames_owned ho hp _
  | @reject p control hp =>
    have hc := confirmSentFrames_owned ho hp (nrOf control)
    have hr := resendAllUnconfirmedFrames_resends (confirmSentFrames h p (nrOf control)) p control
      (nrOf control)
    refine hc.keep (sameStations_of_addr hr.settings fun q => (hr.addr q).1) ?_
    intro i hi
    rw [hr.iQueue] at hi ⊢
    exact ⟨hi, rfl⟩
  | @receive p nr payload hp =>
    have hs' : SameStations h (h.setControl p fun c => { c with nextNr := c.nextNr + 1 }) :=
      setPeer_sameStations h p rfl
    exact confirmSentFrames_owned (ho.keep hs' fun i hi => ⟨hi, rfl⟩) (hs' p hp).1 nr
  | @resend p =>
    have hr := resendAllUnconfirmedFrames_resends h p 0 (h.control p).confirmNs
    refine hsame ?_
    rw [hr.iQueue]
    exact .refl _
  | connect _ hl =>
    exact ho.keep hst (switches_keeps (switchToConnectedState_switches h (ne_connected hl)))
  | disconnect _ hne => exact ho.keep hst (switches_keeps (switchToDisconnectedState_switches h hne))
  | reset => exact hsame (.refl _)
  | request => exact hsame (.refl _)
  | hangUp => exact hsame (.refl _)
  | chooseService => exact hsame (markChosen_sameSlots h _ _ _)
  | @chooseNext p i poll =>
    exact hsame ((refreshSlot_sameSlots h p i).trans (markChosen_sameSlots _ p (.iSlot i) poll))
  | @chooseRequested p i ns poll =>
    exact hsame ((refreshSlot_sameSlots h p i).trans (markChosen_sameSlots _ p (.iSlot i) poll))
  | @accept k p data hp _ hput =>
    have howned : Owned k := accept_owned hput hp hst ho
    exact howned

/-- A peer is live if it has an address, and is the first one where there is one only. -/
theorem Addressed.live_iff (hw : Addressed h) :
    Live h p ↔ (h.peers p).addr ≠ invalidAddr ∧ (¬Multi h → p = 0) := by
  refine ⟨fun hp => ⟨fun he => ?_, fun hm => ?_⟩, fun hp => hw.live_of_unique hp.1 hp.2⟩
  · have hbits := hp.2
    rw [he] at hbits
    exact invalidAddr_bits hbits
  · have hlook := hp.1
    rw [addressFieldToPeer_eq, (hw.single hm).1, (clear_cr hw.station).1,
      if_neg (clear_cr hw.station).2, if_pos hm, if_pos rfl] at hlook
    exact (Option.some.inj hlook).symm

theorem Step.live_iff {a : Act N} (hw : Addressed h) (hs : Step h a h') (hr : a ≠ .register q) :
    Live h' q ↔ Live h q := by
  obtain ⟨hset, haddr, -⟩ := hs.stations
  have ha : (h'.peers q).addr = (h.peers q).addr := by
    rcases haddr q with he | ⟨he, -⟩
    · exact he
    · exact absurd he hr
  rw [(hw.step hs).live_iff, hw.live_iff, ha, Multi.congr hset]

/-- A step changes the window of a live peer only. -/
theorem Step.actor_live {a : Act N} (hs : Step h a h') (hq : a.actor = some q) : Live h q := by
  cases hs with
  | confirm hp => cases hq; exact hp
  | reject hp => cases hq; exact hp
  | receive hp => cases hq; exact hp
  | resend hp => cases hq; exact hp
  | connect hp => cases hq; exact hp
  | disconnect hp => cases hq; exact hp
  | reset hp => cases hq; exact hp
  | chooseNext _ hp => cases hq; exact hp
  | chooseRequested _ hp => cases hq; exact hp
  | accept hp => cases hq; exact hp
  | _ => cases hq

/-- Nothing is queued for a peer that is registered now. -/
theorem register_window (ho : Owned h) (hs : Step h (.register q) h')
    (hq : Live h' q) (i : Fin W) : h'.window q i = none := by
  cases hs with
  | @register _ a hinv ha hnew =>
    cases hwi : (h.setPeer q fun x => { x with addr := a }).window q i with
    | none => rfl
    | some r =>
      obtain ⟨ht, haddr, -, -⟩ := Slot.entry_some.mp hwi
      rw [setPeer_self] at haddr
      obtain ⟨p, hp, hap⟩ := ho i ht
      have hlook := hp.1
      rw [← hap] at hlook
      have haddr' : (h.iQueue.frames i).address = a := haddr
      rw [haddr', hnew] at hlook
      cases hlook

end TinyProto.Fd
