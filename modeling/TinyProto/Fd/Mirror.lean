import TinyProto.Fd.Cursors
import TinyProto.Fd.Operations
import TinyProto.Fd.SearchOrder
import TinyProto.Lib.GoBackN

/-!
# A handle as a party

In ABM a handle has one peer, and is a party of the numbered exchange (`Mirrors`).  Its queue
is the service queue in the order of the search, the items are the payloads of the
application, and what is accepted, read and confirmed is what the history says.

Each function that changes something of this is an operation of the party.
-/

set_option linter.unusedSectionVars false

namespace TinyProto.Fd

open Hdlc SlotWindow GoBackN

variable {W N : Nat} [NeZero W] [NeZero N] {h h₁ h₂ : Handle W N} {p : Fin N}
  {s : Party 3 (List Byte)}

/-! ## Histories -/

/-- The payload that was accepted for the peer. -/
def Event.acceptedFor (p : Fin N) : Event N → Option (List Byte)
  | .accepted q payload => if q = p then some payload else none
  | _ => none

/-- The payload that was read from the peer. -/
def Event.readFrom (p : Fin N) : Event N → Option (List Byte)
  | .read q _ payload => if q = p then some payload else none
  | _ => none

/-- The payload that the peer confirmed. -/
def Event.confirmedBy (p : Fin N) : Event N → Option (List Byte)
  | .sent q _ payload => if q = p then some payload else none
  | _ => none

/-- The payloads that were accepted for the peer. -/
def acceptedFor (p : Fin N) (log : List (Event N)) : List (List Byte) :=
  log.filterMap (Event.acceptedFor p)

/-- The payloads that were read from the peer. -/
def readFrom (p : Fin N) (log : List (Event N)) : List (List Byte) :=
  log.filterMap (Event.readFrom p)

/-- The payloads that the peer confirmed. -/
def confirmedBy (p : Fin N) (log : List (Event N)) : List (List Byte) :=
  log.filterMap (Event.confirmedBy p)

/-- The event is about no payload and no connection. -/
def Event.Unrelated : Event N → Prop
  | .accepted .. | .sent .. | .read .. | .connect .. => False
  | _ => True

/-- What the histories of a peer say about the payloads. -/
structure SameStory (p : Fin N) (log log' : List (Event N)) : Prop where
  accepted : acceptedFor p log' = acceptedFor p log
  read : readFrom p log' = readFrom p log
  confirmed : confirmedBy p log' = confirmedBy p log
  unconfirmed : unconfirmed p log' = unconfirmed p log

theorem SameStory.refl (p : Fin N) (log : List (Event N)) : SameStory p log log :=
  ⟨rfl, rfl, rfl, rfl⟩

theorem SameStory.trans {log₁ log₂ log₃ : List (Event N)} (h₁₂ : SameStory p log₁ log₂)
    (h₂₃ : SameStory p log₂ log₃) : SameStory p log₁ log₃ :=
  ⟨h₂₃.accepted.trans h₁₂.accepted, h₂₃.read.trans h₁₂.read, h₂₃.confirmed.trans h₁₂.confirmed,
    h₂₃.unconfirmed.trans h₁₂.unconfirmed⟩

/-- An event that says nothing. -/
theorem filterMap_concat_none {β : Type} {f : Event N → Option β} {e : Event N} (he : f e = none)
    (log : List (Event N)) : (log ++ [e]).filterMap f = log.filterMap f := by
  rw [List.filterMap_append, List.filterMap_cons_none he, List.filterMap_nil, List.append_nil]

theorem SameStory.unrelated (p : Fin N) (log : List (Event N)) {e : Event N} (he : e.Unrelated) :
    SameStory p log (log ++ [e]) := by
  have hnone : e.acceptedFor p = none ∧ e.readFrom p = none ∧ e.confirmedBy p = none ∧
      ∀ u, unconfirmedStep p u e = u := by
    cases e with
    | accepted => exact absurd he id
    | sent => exact absurd he id
    | read => exact absurd he id
    | connect => exact absurd he id
    | _ => exact ⟨rfl, rfl, rfl, fun _ => rfl⟩
  exact ⟨filterMap_concat_none hnone.1 log, filterMap_concat_none hnone.2.1 log,
    filterMap_concat_none hnone.2.2.1 log, (unconfirmed_concat p log e).trans (hnone.2.2.2 _)⟩

theorem unconfirmed_accepted (p : Fin N) (log : List (Event N)) (payload : List Byte) :
    unconfirmed p (log ++ [.accepted p payload]) = unconfirmed p log ++ [payload] := by
  rw [unconfirmed_concat]
  exact if_pos rfl

theorem unconfirmed_sent (p : Fin N) (log : List (Event N)) (a : Byte) (payload : List Byte) :
    unconfirmed p (log ++ [.sent p a payload]) = (unconfirmed p log).tail := by
  rw [unconfirmed_concat]
  exact if_pos rfl

theorem unconfirmed_connect (p : Fin N) (log : List (Event N)) (a : Byte) (connected : Bool) :
    unconfirmed p (log ++ [.connect p a connected]) = [] := by
  rw [unconfirmed_concat]
  exact if_pos rfl

/-- An event that says something. -/
theorem filterMap_concat_some {β : Type} {f : Event N → Option β} {e : Event N} {b : β}
    (he : f e = some b) (log : List (Event N)) :
    (log ++ [e]).filterMap f = log.filterMap f ++ [b] := by
  rw [List.filterMap_append, List.filterMap_cons_some he, List.filterMap_nil]

theorem acceptedFor_concat (p : Fin N) (log : List (Event N)) (payload : List Byte) :
    acceptedFor p (log ++ [.accepted p payload]) = acceptedFor p log ++ [payload] :=
  filterMap_concat_some (if_pos rfl) log

theorem readFrom_concat (p : Fin N) (log : List (Event N)) (a : Byte) (payload : List Byte) :
    readFrom p (log ++ [.read p a payload]) = readFrom p log ++ [payload] :=
  filterMap_concat_some (if_pos rfl) log

theorem confirmedBy_concat (p : Fin N) (log : List (Event N)) (a : Byte) (payload : List Byte) :
    confirmedBy p (log ++ [.sent p a payload]) = confirmedBy p log ++ [payload] :=
  filterMap_concat_some (if_pos rfl) log

/-! ## Frames -/

/-- The type of the U-frame is one that opens connections. -/
def Fences (control : Byte) : Prop :=
  uTypeOf control = UType.sabm.bits ∨ uTypeOf control = UType.snrm.bits ∨
    uTypeOf control = UType.ua.bits

instance fences_decidable (control : Byte) : Decidable (Fences control) :=
  inferInstanceAs (Decidable (_ ∨ _))

/-- An S- or U-frame as a signal. -/
def signalOf (control : Byte) : Signal 3 :=
  if isUFrame control then if Fences control then .fence else .other else .ack (nrOf control)

/-- A frame as one of the exchange.  If it is an I-frame, it is the one with this index. -/
def frameOf (index : Nat) : List Byte → Frame 3 (List Byte)
  | _ :: control :: payload =>
      if isIFrame control then .data index (nsOf control) (nrOf control) payload
      else .signal (signalOf control)
  | _ => .signal .other

/-- An S-frame, or a U-frame other than RSET. -/
def Plain (control : Byte) : Prop :=
  isIFrame control = false ∧ (isUFrame control = true → uTypeOf control ≠ UType.rset.bits)

theorem signalOf_poll (control : Byte) : signalOf (control ||| pBit) = signalOf control := by
  have hu : isUFrame (control ||| pBit) = isUFrame control := by
    revert control
    decide +kernel
  have hf : Fences (control ||| pBit) ↔ Fences control := by
    revert control
    decide +kernel
  have hn : nrOf (control ||| pBit) = nrOf control := by
    revert control
    decide +kernel
  unfold signalOf
  simp only [hu, hf, hn]

theorem Plain.poll {control : Byte} (hp : Plain control) : Plain (control ||| pBit) := by
  revert control
  unfold Plain
  decide +kernel

/-- An S-frame is an acknowledgement. -/
theorem signalOf_sControl (type : SType) (nr : Seq) {poll : Byte} (hp : poll = 0 ∨ poll = pBit) :
    signalOf (sControl type nr ||| poll) = .ack nr ∧ Plain (sControl type nr ||| poll) := by
  unfold signalOf Plain
  rcases hp with rfl | rfl
  · revert nr
    cases type <;> decide +kernel
  · revert nr
    cases type <;> decide +kernel

theorem plain_uControl {type : UType} (ht : type ≠ .rset) : Plain (uControl type) := by
  unfold Plain
  cases type <;> first | decide | exact absurd rfl ht

/-! ## The service queue -/

/-- The slots in use, in the order of the search.  They are for the one peer. -/
structure Queued (h : Handle W N) (l : List Slot) : Prop where
  slots : ∃ free, h.sQueue.slots = l ++ free ∧ ∀ t ∈ free, t.type = .free
  serves : ∀ t ∈ l, t.Serves (peerToAddressField h 0)
  plain : ∀ t ∈ l, Plain t.control

theorem Slot.Serves.not_free {t : Slot} {address : Byte} (hs : t.Serves address) :
    t.type ≠ .free := by
  rcases hs.1 with ht | ht
  · rw [ht]
    exact QueueType.noConfusion
  · rw [ht]
    exact QueueType.noConfusion

theorem Queued.congr {l : List Slot} (hq : Queued h l) (hs : h₁.sQueue = h.sQueue)
    (ha : (h₁.peers 0).addr = (h.peers 0).addr) : Queued h₁ l := by
  have hf : peerToAddressField h₁ 0 = peerToAddressField h 0 := by
    unfold peerToAddressField
    rw [ha]
  refine ⟨?_, ?_, hq.plain⟩
  · rw [hs]
    exact hq.slots
  · rw [hf]
    exact hq.serves

/-- Slots in use and free slots are told apart. -/
theorem append_unique {P : Slot → Prop} : ∀ {l l' m m' : List Slot}, l ++ m = l' ++ m' →
    (∀ t ∈ l, ¬P t) → (∀ t ∈ l', ¬P t) → (∀ t ∈ m.head?, P t) → (∀ t ∈ m'.head?, P t) →
    l = l' ∧ m = m'
  | [], [], _, _, he, _, _, _, _ => ⟨rfl, he⟩
  | [], t :: _, _, _, he, _, hl', hm, _ => by
    rw [List.nil_append] at he
    rw [he] at hm
    exact absurd (hm t (by rw [List.cons_append, List.head?_cons]; rfl))
      (hl' t List.mem_cons_self)
  | t :: _, [], _, _, he, hl, _, _, hm' => by
    rw [List.nil_append] at he
    rw [← he] at hm'
    exact absurd (hm' t (by rw [List.cons_append, List.head?_cons]; rfl))
      (hl t List.mem_cons_self)
  | t :: l, t' :: l', m, m', he, hl, hl', hm, hm' => by
    rw [List.cons_append, List.cons_append] at he
    obtain ⟨rfl, hrest⟩ := List.cons.inj he
    obtain ⟨rfl, rfl⟩ := append_unique hrest (fun u hu => hl u (List.mem_cons_of_mem _ hu))
      (fun u hu => hl' u (List.mem_cons_of_mem _ hu)) hm hm'
    exact ⟨rfl, rfl⟩

/-- A frame that is put comes last. -/
theorem Queued.fill {l : List Slot} (hq : Queued h l) {i : Fin 4}
    (hi : h.sQueue.getNext [.free] 0 0 = some i) {t : Slot}
    (hs : t.Serves (peerToAddressField h 0)) (hp : Plain t.control)
    (hset : h₁.sQueue = h.sQueue.setFrame i t) (ha : (h₁.peers 0).addr = (h.peers 0).addr) :
    Queued h₁ (l ++ [t]) := by
  obtain ⟨free, hslots, hfree⟩ := hq.slots
  obtain ⟨before, after, ho, hb, haft, hbefore⟩ := Queue.getNext_split hi
  have hif : (h.sQueue.frames i).type = .free := by
    have hfits := Queue.getNext_some hi
    rwa [Slot.fits_free, beq_iff_eq] at hfits
  have hbefore' : ∀ u ∈ before.map h.sQueue.frames, ¬u.type = .free := by
    intro u hu
    obtain ⟨j, hj, rfl⟩ := List.mem_map.mp hu
    have hno := hbefore j hj
    rw [Slot.fits_free] at hno
    exact fun hf => by rw [hf] at hno; cases hno
  -- The first free slot is the one behind those in use.
  have hsplit : l = before.map h.sQueue.frames ∧
      free = h.sQueue.frames i :: after.map h.sQueue.frames := by
    refine append_unique (P := fun u => u.type = .free)
      (hslots.symm.trans (Queue.slots_eq ho)) (fun u hu => (hq.serves u hu).not_free) hbefore'
      (fun u hu => hfree u (List.mem_of_mem_head? hu)) fun u hu => ?_
    rw [List.head?_cons, Option.mem_some_iff] at hu
    rw [← hu]
    exact hif
  obtain ⟨hl, hf⟩ := hsplit
  have hfield : peerToAddressField h₁ 0 = peerToAddressField h 0 := by
    unfold peerToAddressField
    rw [ha]
  refine ⟨⟨after.map h.sQueue.frames, ?_, fun u hu => ?_⟩, fun u hu => ?_, fun u hu => ?_⟩
  · rw [hset, Queue.slots_setFrame ho hb haft, hl]
    simp
  · exact hfree u (hf ▸ List.mem_cons_of_mem _ hu)
  · rw [hfield]
    rcases List.mem_append.mp hu with hu | hu
    · exact hq.serves u hu
    · rw [List.mem_singleton.mp hu]
      exact hs
  · rcases List.mem_append.mp hu with hu | hu
    · exact hq.plain u hu
    · rw [List.mem_singleton.mp hu]
      exact hp

/-- The search takes what waits. -/
theorem Queued.fits {l : List Slot} (hq : Queued h l) {t : Slot} (ht : t ∈ l) :
    t.fits [.sFrame, .uFrame] (peerToAddressField h 0) 0 = true :=
  Slot.fits_sFrame_uFrame.mpr (hq.serves t ht)

/-- The frame that is found is the first one. -/
theorem Queued.first {l : List Slot} (hq : Queued h l) {i : Fin 4}
    (hi : firstService h 0 = some i) :
    ∃ l' after, l = h.sQueue.frames i :: l' ∧ h.sQueue.order = i :: after := by
  obtain ⟨free, hslots, hfree⟩ := hq.slots
  obtain ⟨before, after, ho, -, -, hbefore⟩ := Queue.getNext_split hi
  have hserves := Slot.fits_sFrame_uFrame.mp (Queue.getNext_some hi)
  have heq := hslots.symm.trans (Queue.slots_eq ho)
  cases before with
  | nil =>
    cases l with
    | nil =>
      have hmem : h.sQueue.frames i ∈ free := by
        have heq' : free = h.sQueue.frames i :: after.map h.sQueue.frames := heq
        rw [heq']
        exact List.mem_cons_self
      exact absurd (hfree _ hmem) (Slot.Serves.not_free hserves)
    | cons t l' => exact ⟨l', after, by rw [(List.cons.inj heq).1], ho⟩
  | cons j before =>
    have hno := hbefore j List.mem_cons_self
    exfalso
    cases l with
    | nil =>
      -- All slots are free.
      have hmem : h.sQueue.frames i ∈ free := by
        have heq' : free = (j :: before).map h.sQueue.frames ++
          h.sQueue.frames i :: after.map h.sQueue.frames := heq
        rw [heq']
        exact List.mem_append_right _ List.mem_cons_self
      exact (Slot.Serves.not_free hserves) (hfree _ hmem)
    | cons t l' =>
      have hj : h.sQueue.frames j = t := (List.cons.inj heq).1.symm
      have hyes := hq.fits List.mem_cons_self
      rw [← hj] at hyes
      rw [hyes] at hno
      cases hno

/-- Nothing waits. -/
theorem Queued.empty {l : List Slot} (hq : Queued h l) (hi : firstService h 0 = none) : l = [] := by
  obtain ⟨free, hslots, -⟩ := hq.slots
  cases l with
  | nil => rfl
  | cons t l' =>
    have hmem : t ∈ h.sQueue.slots := by
      rw [hslots]
      exact List.mem_cons_self
    obtain ⟨j, -, rfl⟩ := List.mem_map.mp hmem
    have hyes := hq.fits List.mem_cons_self
    have hno := Queue.getNext_none hi j
    rw [hyes] at hno
    cases hno

/-! ## The handle and the party -/

/-- The handle is this party.  The slots held are those of the frame on its way. -/
structure Mirrors (h : Handle W N) (held : List Slot) (s : Party 3 (List Byte)) : Prop where
  queue : ∃ l, Queued h (held ++ l) ∧ s.queue = l.map fun t => signalOf t.control
  isOpen : s.isOpen = true ↔ Linked h 0
  accepted : acceptedFor 0 h.log = s.accepted
  got : readFrom 0 h.log = s.got.map Prod.fst
  confirmed : confirmedBy 0 h.log = s.confirmed.map Prod.fst
  unconfirmed : unconfirmed 0 h.log = s.accepted.drop s.low
  low : s.start ≤ s.low
  top : s.low ≤ s.accepted.length
  confirmNs : (h.control 0).confirmNs = BitVec.ofNat 3 (s.low - s.start)
  nextNr : Linked h 0 → (h.control 0).nextNr = s.next
  accepts : (h.peers 0).canAcceptIFrames = true → Linked h 0

/-- Nothing changed that is part of the exchange, but for the service queue. -/
structure Unnoticed (h h₁ : Handle W N) : Prop where
  addr : (h₁.peers 0).addr = (h.peers 0).addr
  story : SameStory 0 h.log h₁.log
  linked : Linked h₁ 0 ↔ Linked h 0
  confirmNs : (h₁.control 0).confirmNs = (h.control 0).confirmNs
  nextNr : (h₁.control 0).nextNr = (h.control 0).nextNr
  accepts : (h₁.peers 0).canAcceptIFrames = true →
    (h.peers 0).canAcceptIFrames = true ∨ Linked h 0

theorem Unnoticed.of_peers (hp : h₁.peers = h.peers) (hs : SameStory 0 h.log h₁.log) :
    Unnoticed h h₁ where
  addr := by rw [hp]
  story := hs
  linked := by
    unfold Linked
    rw [hp]
  confirmNs := by
    unfold Handle.control
    rw [hp]
  nextNr := by
    unfold Handle.control
    rw [hp]
  accepts ha := .inl (by rwa [hp] at ha)

theorem Unnoticed.refl (h : Handle W N) : Unnoticed h h := .of_peers rfl (.refl 0 h.log)

theorem Unnoticed.trans (hu : Unnoticed h h₁) (hu' : Unnoticed h₁ h₂) : Unnoticed h h₂ where
  addr := hu'.addr.trans hu.addr
  story := hu.story.trans hu'.story
  linked := hu'.linked.trans hu.linked
  confirmNs := hu'.confirmNs.trans hu.confirmNs
  nextNr := hu'.nextNr.trans hu.nextNr
  accepts ha := (hu'.accepts ha).elim hu.accepts fun hl => .inr (hu.linked.mp hl)

theorem Unnoticed.emit (h : Handle W N) {e : Event N} (he : e.Unrelated) :
    Unnoticed h (h.emit e) := .of_peers rfl (.unrelated 0 h.log he)

theorem Unnoticed.setEvents (h : Handle W N) (f : Events → Events) : Unnoticed h (h.setEvents f) :=
  .of_peers rfl (.refl 0 h.log)

/-- The peer is changed in something else. -/
theorem Unnoticed.setPeer (h : Handle W N) {f : Peer → Peer}
    (haddr : (f (h.peers 0)).addr = (h.peers 0).addr)
    (hl : (f (h.peers 0)).state = .connected ∨ (f (h.peers 0)).state = .disconnecting ↔ Linked h 0)
    (hc : (f (h.peers 0)).iQueueControl.confirmNs = (h.control 0).confirmNs)
    (hn : (f (h.peers 0)).iQueueControl.nextNr = (h.control 0).nextNr)
    (ha : (f (h.peers 0)).canAcceptIFrames = true →
      (h.peers 0).canAcceptIFrames = true ∨ Linked h 0) : Unnoticed h (h.setPeer 0 f) where
  addr := by rw [setPeer_self, haddr]
  story := .refl 0 h.log
  linked := by
    unfold Linked at hl ⊢
    rw [setPeer_self]
    exact hl
  confirmNs := by
    unfold Handle.control at hc ⊢
    rw [setPeer_self, hc]
  nextNr := by
    unfold Handle.control at hn ⊢
    rw [setPeer_self, hn]
  accepts h' := by
    rw [setPeer_self] at h'
    exact ha h'

/-- The queue is another one. -/
theorem Mirrors.requeue {held held' l : List Slot} (hm : Mirrors h held s) (hu : Unnoticed h h₁)
    (hq : Queued h₁ (held' ++ l)) :
    Mirrors h₁ held' { s with queue := l.map fun t => signalOf t.control } where
  queue := ⟨l, hq, rfl⟩
  isOpen := hm.isOpen.trans hu.linked.symm
  accepted := hu.story.accepted.trans hm.accepted
  got := hu.story.read.trans hm.got
  confirmed := hu.story.confirmed.trans hm.confirmed
  unconfirmed := hu.story.unconfirmed.trans hm.unconfirmed
  low := hm.low
  top := hm.top
  confirmNs := hu.confirmNs.trans hm.confirmNs
  nextNr hl := hu.nextNr.trans (hm.nextNr (hu.linked.mp hl))
  accepts ha := hu.linked.mpr ((hu.accepts ha).elim hm.accepts id)

/-- The party does not notice. -/
theorem Mirrors.unnoticed {held : List Slot} (hm : Mirrors h held s) (hu : Unnoticed h h₁)
    (hs : h₁.sQueue = h.sQueue) : Mirrors h₁ held s := by
  obtain ⟨l, hq, hsq⟩ := hm.queue
  have hnew := hm.requeue hu (hq.congr hs hu.addr)
  rwa [← hsq] at hnew

/-- The handle is what the party makes of itself, with no new item. -/
def Follows (h : Handle W N) (s : Party 3 (List Byte)) : Prop :=
  ∃ s', s.Emits [] s' ∧ s'.accepted = s.accepted ∧ Mirrors h [] s'

theorem Mirrors.follows (hm : Mirrors h [] s) : Follows h s := ⟨s, .refl, rfl, hm⟩

theorem Mirrors.works {s' : Party 3 (List Byte)} (hm : Mirrors h [] s') (hs : s.Works s')
    (ha : s'.accepted = s.accepted) : Follows h s := ⟨s', .works .refl hs, ha, hm⟩

/-- One thing after the other. -/
theorem Follows.and_then (hf : Follows h s) (hnext : ∀ s', Mirrors h [] s' → Follows h₁ s') :
    Follows h₁ s := by
  obtain ⟨s', hs, ha, hm⟩ := hf
  obtain ⟨s'', hs', ha', hm'⟩ := hnext s' hm
  exact ⟨s'', hs.trans hs', ha'.trans ha, hm'⟩

theorem Follows.unnoticed (hf : Follows h s) (hu : Unnoticed h h₁) (hs : h₁.sQueue = h.sQueue) :
    Follows h₁ s := hf.and_then fun _ hm => (hm.unnoticed hu hs).follows

/-! ## Frames that are put -/

theorem Unnoticed.putUSFrame (h : Handle W N) (type : QueueType) (address control : Byte)
    (payload : List Byte) : Unnoticed h (putUSFrame h type address control payload) := by
  refine .of_peers (putUSFrame_peers ..) ?_
  rw [putUSFrame_log]
  exact .refl 0 h.log

/-- A frame is put last. -/
theorem Mirrors.enqueue (hm : Mirrors h [] s) (hu : Unnoticed h h₁) {i : Fin 4}
    (hi : h.sQueue.getNext [.free] 0 0 = some i) {t : Slot}
    (hs : t.Serves (peerToAddressField h 0)) (hp : Plain t.control)
    (hset : h₁.sQueue = h.sQueue.setFrame i t) : Mirrors h₁ [] (s.put (signalOf t.control)) := by
  obtain ⟨l, hq, hsq⟩ := hm.queue
  have hfill : Queued h₁ ([] ++ (l ++ [t])) := hq.fill hi hs hp hset hu.addr
  have hnew := hm.requeue hu hfill
  rw [List.map_append, ← hsq] at hnew
  exact hnew

/-- There may be no room for it. -/
theorem Mirrors.put (hm : Mirrors h [] s) {type : QueueType} (ht : type = .sFrame ∨ type = .uFrame)
    {cr : Byte} (hcr : cr = 0 ∨ cr = crBit) {control : Byte} (hp : Plain control)
    (payload : List Byte) :
    Mirrors (putUSFrame h type (peerToAddressField h 0 ||| cr) control payload) [] s ∨
      Mirrors (putUSFrame h type (peerToAddressField h 0 ||| cr) control payload) []
        (s.put (signalOf control)) := by
  have hu := Unnoticed.putUSFrame h type (peerToAddressField h 0 ||| cr) control payload
  rcases putUSFrame_cases h type (peerToAddressField h 0 ||| cr) control payload with
    hsame | ⟨i, hi, hset⟩
  · exact .inl (hm.unnoticed hu hsame)
  · exact .inr (hm.enqueue hu hi ⟨ht, sameStation_flagged h 0 hcr⟩ hp hset)

/-- An S-frame tells the number expected. -/
theorem Mirrors.putS (hm : Mirrors h [] s) (hl : Linked h 0) {cr poll : Byte} (type : SType)
    (hcr : cr = 0 ∨ cr = crBit) (hpoll : poll = 0 ∨ poll = pBit) :
    Follows (putSFrame h 0 cr type poll) s := by
  obtain ⟨hsignal, hplain⟩ := signalOf_sControl type (h.control 0).nextNr hpoll
  have hput := hm.put (.inl rfl) hcr hplain []
  rw [hsignal, hm.nextNr hl] at hput
  unfold putSFrame
  rw [hm.nextNr hl]
  rcases hput with hput | hput
  · exact hput.follows
  · exact hput.works (.ack (hm.isOpen.mpr hl)) rfl

/-- A U-frame that opens connections is put without one. -/
theorem Mirrors.putU (hm : Mirrors h [] s) {cr : Byte} (hcr : cr = 0 ∨ cr = crBit) {type : UType}
    (ht : type ≠ .rset) (hf : Fences (uControl type) → ¬Linked h 0) (payload : List Byte) :
    Follows (putUSFrame h .uFrame (peerToAddressField h 0 ||| cr) (uControl type) payload) s := by
  have hu : isUFrame (uControl type) = true := by
    cases type <;> rfl
  rcases hm.put (.inr rfl) hcr (plain_uControl ht) payload with hput | hput
  · exact hput.follows
  · by_cases hfence : Fences (uControl type)
    · have hsignal : signalOf (uControl type) = .fence := by
        unfold signalOf
        rw [if_pos hu, if_pos hfence]
      rw [hsignal] at hput
      exact hput.works (.fence (eq_false_of_ne_true fun ho => hf hfence (hm.isOpen.mp ho))) rfl
    · have hsignal : signalOf (uControl type) = .other := by
        unfold signalOf
        rw [if_pos hu, if_neg hfence]
      rw [hsignal] at hput
      exact hput.works .other rfl

/-- The frames are sent again, and an FRMR may be queued. -/
theorem Mirrors.resend (hm : Mirrors h [] s) (hr : Resends 0 h h₁) : Follows h₁ s := by
  obtain ⟨c, hpeer⟩ := hr.peer
  have hu : Unnoticed h h₁ :=
    { addr := (hr.addr 0).1
      story := by
        rw [hr.log]
        exact .refl 0 h.log
      linked := by
        unfold Linked
        rw [(hr.addr 0).2]
      confirmNs := by
        unfold Handle.control
        rw [hpeer]
      nextNr := by
        unfold Handle.control
        rw [hpeer]
      accepts := fun ha => .inl (by rwa [hpeer] at ha) }
  rcases hr.sQueue with hsame | ⟨i, payload, hi, hset⟩
  · exact (hm.unnoticed hu hsame).follows
  · have hfrmr : UType.frmr ≠ .rset := UType.noConfusion
    have hsignal : signalOf (uControl .frmr) = .other := by decide
    have hnew : Mirrors h₁ [] (s.put .other) := by
      rw [← hsignal]
      exact hm.enqueue hu hi ⟨.inr rfl, sameStation_flagged h 0 (.inr rfl)⟩ (plain_uControl hfrmr)
        hset
    exact hnew.works .other rfl

/-! ## Connections -/

/-- A connection is opened or closed. -/
theorem Mirrors.switch {connected : Bool} (hm : Mirrors h [] s) (hs : Switches 0 connected h h₁)
    (hl : Linked h₁ 0 ↔ connected = true)
    (ha : (h₁.peers 0).canAcceptIFrames = true → connected = true) (next : Seq)
    (hn : connected = true → next = 0) :
    Mirrors h₁ []
      { s with
        isOpen := connected
        start := s.accepted.length
        low := s.accepted.length
        next := next } := by
  obtain ⟨a, hlog⟩ := hs.log
  obtain ⟨l, hq, hsq⟩ := hm.queue
  refine
    { queue := ⟨l, hq.congr hs.sQueue hs.addr, hsq⟩
      isOpen := hl.symm
      accepted := ?_
      got := ?_
      confirmed := ?_
      unconfirmed := ?_
      low := Nat.le_refl _
      top := Nat.le_refl _
      confirmNs := ?_
      nextNr := fun hl' => ?_
      accepts := fun h' => hl.mpr (ha h') }
  · rw [hlog]
    exact (filterMap_concat_none rfl _).trans hm.accepted
  · rw [hlog]
    exact (filterMap_concat_none rfl _).trans hm.got
  · rw [hlog]
    exact (filterMap_concat_none rfl _).trans hm.confirmed
  · rw [hlog, unconfirmed_connect, List.drop_length]
  · rw [hs.control, Nat.sub_self]
    rfl
  · rw [hs.control, hn (hl.mp hl')]
    rfl

theorem Mirrors.close (hm : Mirrors h [] s) (hst : (h.peers 0).state ≠ .disconnected) :
    Mirrors (switchToDisconnectedState h 0) [] s.close := by
  have hpeer := switchToDisconnectedState_peer h hst
  refine hm.switch (switchToDisconnectedState_switches h hst) ?_ (fun ha => ?_) s.next nofun
  · unfold Linked
    rw [hpeer]
    exact ⟨fun hl => hl.elim PeerState.noConfusion PeerState.noConfusion, nofun⟩
  · rw [hpeer] at ha
    exact ha

theorem Mirrors.connect (hm : Mirrors h [] s) (hl : ¬Linked h 0) :
    Mirrors (switchToConnectedState h 0) [] (s.open false) := by
  have hst := ne_connected hl
  have hpeer := switchToConnectedState_peer h hst
  refine hm.switch (switchToConnectedState_switches h hst) ?_ (fun _ => rfl) 0 fun _ => rfl
  unfold Linked
  rw [hpeer]
  exact ⟨fun _ => rfl, fun _ => .inl rfl⟩

/-- An open connection is closed first. -/
theorem Mirrors.reconnect (hm : Mirrors h [] s) : Mirrors (reconnect h 0) [] (s.open false) := by
  unfold Fd.reconnect
  split
  · next hl =>
    exact (hm.close hl.ne_disconnected).connect
      (not_linked_of_disconnected (disconnected_state h 0))
  · next hl => exact hm.connect hl

/-- The connection is answered with UA, if there is room. -/
theorem Mirrors.answer (hm : Mirrors h [] s) :
    ∃ answer, Mirrors (onConnectRequest h 0) [] (s.open answer) := by
  have hua : UType.ua ≠ .rset := UType.noConfusion
  have hsignal : signalOf (uControl .ua) = .fence := by decide
  rw [onConnectRequest_eq]
  rcases hm.reconnect.put (.inr rfl) (.inl rfl) (plain_uControl hua) [] with hput | hput
  · exact ⟨false, hput⟩
  · rw [hsignal] at hput
    exact ⟨true, hput⟩

/-! ## Payloads -/

/-- A confirmation reports the first payload that is not confirmed. -/
theorem Agrees.confirmOne_log (ho : Owned h) (hp : Live h p) (ha : Agrees h p)
    (hne : (h.control p).confirmNs ≠ (h.control p).lastNs) :
    ∃ a x u, unconfirmed p h.log = x :: u ∧
      (Fd.confirmOne h p).log = h.log ++ [.sent p a x] := by
  cases hu : unconfirmed p h.log with
  | nil =>
    have hcount := ha.count
    have hsucc := sub_succ hne.symm
    rw [hu] at hcount
    rw [hcount] at hsucc
    exact absurd hsucc (Nat.succ_ne_zero _)
  | cons x u =>
    have hholds := ha.holds
    rw [hu] at hholds
    obtain ⟨i, hi⟩ := hholds.slot 0 (Nat.zero_lt_succ _)
    rw [number_zero] at hi
    obtain ⟨j, y, a, hj, hlog, -⟩ := confirmOne_window ho hp hi
    have hhead := hholds.head hj
    rw [List.head?_cons, Option.some_inj] at hhead
    exact ⟨a, x, u, rfl, by rw [hlog, hhead]⟩

/-- The first of the items left is confirmed. -/
theorem Mirrors.confirmOne {held : List Slot} {n : Nat} (hm : Mirrors h held (s.release n))
    (ho : Owned h) (hp : Live h 0) (ha : Agrees h 0)
    (hne : (h.control 0).confirmNs ≠ (h.control 0).lastNs) :
    Mirrors (Fd.confirmOne h 0) held (s.release (n + 1)) := by
  obtain ⟨a, x, u, hu, hlog⟩ := ha.confirmOne_log ho hp hne
  have hrest : s.accepted.drop (s.low + n) = x :: u := hm.unconfirmed.symm.trans hu
  have hlt : s.low + n < s.accepted.length := by
    have hlen := congrArg List.length hrest
    rw [List.length_drop, List.length_cons] at hlen
    omega
  have hx : (s.accepted.drop s.low)[n]? = some x := by
    rw [List.getElem?_drop, ← List.head?_drop, hrest, List.head?_cons]
  have hc := confirmOne_confirms h 0
  have hcontrol := confirmOne_control h 0
  have hlow : s.start ≤ s.low + n := hm.low
  obtain ⟨l, hq, hsq⟩ := hm.queue
  have haddr := (hc.addr 0).1
  have hlinked : Linked (Fd.confirmOne h 0) 0 ↔ Linked h 0 := by
    unfold Linked
    rw [(hc.addr 0).2]
  refine
    { queue := ⟨l, hq.congr hc.sQueue haddr, hsq⟩
      isOpen := hm.isOpen.trans hlinked.symm
      accepted := ?_
      got := ?_
      confirmed := ?_
      unconfirmed := ?_
      low := Nat.le_succ_of_le hlow
      top := hlt
      confirmNs := ?_
      nextNr := fun hl => ?_
      accepts := fun h' => ?_ }
  · rw [hlog]
    exact (filterMap_concat_none rfl _).trans hm.accepted
  · rw [hlog]
    exact (filterMap_concat_none rfl _).trans hm.got
  · have hold : confirmedBy 0 h.log =
        (s.confirmed ++ ((s.accepted.drop s.low).take n).zipIdx s.low).map Prod.fst := hm.confirmed
    show _ = (s.confirmed ++ ((s.accepted.drop s.low).take (n + 1)).zipIdx s.low).map Prod.fst
    rw [List.map_append, List.zipIdx_map_fst] at hold ⊢
    rw [List.take_add_one, hx, ← List.append_assoc, ← hold, hlog]
    exact confirmedBy_concat 0 h.log a x
  · show _ = s.accepted.drop (s.low + (n + 1))
    rw [← Nat.add_assoc, ← List.tail_drop, hrest, hlog, unconfirmed_sent, hu]
  · have hold : (h.control 0).confirmNs = BitVec.ofNat 3 (s.low + n - s.start) := hm.confirmNs
    show _ = BitVec.ofNat 3 (s.low + (n + 1) - s.start)
    have hsucc : s.low + (n + 1) - s.start = s.low + n - s.start + 1 := by omega
    rw [hcontrol, hsucc, BitVec.ofNat_add, hold]
    rfl
  · rw [hcontrol]
    exact hm.nextNr (hlinked.mp hl)
  · obtain ⟨q, free, log, r, hform⟩ := confirmOne_form h 0
    rw [hform] at h'
    unfold Handle.putConfirmed at h'
    rw [setPeer_self] at h'
    exact hlinked.mpr (hm.accepts h')

/-- The items are those that N(R) reaches. -/
theorem Mirrors.confirm {held : List Slot} (hm : Mirrors h held s) (ho : Owned h) (hp : Live h 0)
    (ha : Agrees h 0) (hl : Linked h 0) (nr : Seq) :
    Mirrors (confirmSentFrames h 0 nr) held (s.confirm nr) := by
  have hlen : (Fd.unconfirmed 0 h.log).length = s.accepted.length - s.low := by
    rw [hm.unconfirmed, List.length_drop]
  have hcount : (h.control 0).span = s.accepted.length - s.low := ha.count.trans hlen
  have hshort := ha.length_lt
  have hstart : s.release 0 = s := by
    unfold Party.release
    rw [List.take_zero, List.zipIdx_nil, List.append_nil, Nat.add_zero]
  have hrule : ∃ n ≤ s.accepted.length - s.low, Mirrors (confirmSentFrames h 0 nr) held (s.release n) ∧
      Agrees (confirmSentFrames h 0 nr) 0 ∧ Linked (confirmSentFrames h 0 nr) 0 := by
    refine confirmSentFrames_rule (P := fun k => ∃ n ≤ s.accepted.length - s.low,
      Mirrors k held (s.release n) ∧ Agrees k 0 ∧ Linked k 0) ho hp ?_ ?_
      ⟨0, Nat.zero_le _, hstart.symm ▸ hm, ha, hl⟩
    · rintro k hok hpk ⟨n, hn, hk, hak, hlk⟩ - hne
      have hone := hk.confirmOne hok hpk hak hne
      have htop : s.low + (n + 1) ≤ s.accepted.length := hone.top
      exact ⟨n + 1, by omega, hone, hak.confirmOne hok hpk hne,
        linked_of_confirms (confirmOne_confirms k 0) hlk⟩
    · rintro k ⟨n, hn, hk, hak, hlk⟩
      exact ⟨n, hn, hk.unnoticed (.setPeer k rfl Iff.rfl rfl rfl fun _ => .inr hlk) rfl,
        hak.setPeer ⟨rfl, rfl⟩ rfl, linked_setPeer rfl hlk⟩
  obtain ⟨n, hn, hend, -, -⟩ := hrule
  -- Where the loop stops says how many there were.
  have hreach : n = s.reach nr := by
    have hlow := hm.low
    have hbefore := hm.confirmNs
    have hafter : ((confirmSentFrames h 0 nr).control 0).confirmNs =
        BitVec.ofNat 3 (s.low + n - s.start) := hend.confirmNs
    have hdiff : ((h.control 0).confirmed nr - (h.control 0).confirmNs).toNat = n := by
      rw [confirmSentFrames_control] at hafter
      dsimp only at hafter
      have hsum : BitVec.ofNat 3 (s.low + n - s.start) - BitVec.ofNat 3 (s.low - s.start) =
          BitVec.ofNat 3 n := by
        rw [ofNat_sub (by omega)]
        congr 1
        omega
      rw [hafter, hbefore, hsum, BitVec.toNat_ofNat, Nat.mod_eq_of_lt (by omega)]
    unfold IQueueControl.confirmed at hdiff
    unfold Party.reach
    rw [← hbefore, ← hcount]
    split at hdiff
    · omega
    · have hspan : ((h.control 0).lastNs - (h.control 0).confirmNs).toNat = (h.control 0).span := rfl
      omega
  rw [hreach] at hend
  exact hend

/-- The next number is expected. -/
theorem Mirrors.advance {held : List Slot} (hm : Mirrors h held s) :
    Mirrors (advance h 0) held { s with next := s.next + 1 } := by
  have hu : (Fd.advance h 0).peers 0 =
      { h.peers 0 with
        iQueueControl := { h.control 0 with nextNr := (h.control 0).nextNr + 1 }
        sentReject := false } := by
    unfold Fd.advance Handle.setControl
    rw [setPeer_self, setPeer_self]
    rfl
  have hlinked : Linked (Fd.advance h 0) 0 ↔ Linked h 0 := by
    unfold Linked
    rw [hu]
  obtain ⟨l, hq, hsq⟩ := hm.queue
  refine
    { queue := ⟨l, hq.congr rfl (by rw [hu]), hsq⟩
      isOpen := hm.isOpen.trans hlinked.symm
      accepted := hm.accepted
      got := hm.got
      confirmed := hm.confirmed
      unconfirmed := hm.unconfirmed
      low := hm.low
      top := hm.top
      confirmNs := ?_
      nextNr := fun hl => ?_
      accepts := fun ha => ?_ }
  · unfold Handle.control
    rw [hu]
    exact hm.confirmNs
  · unfold Handle.control
    rw [hu]
    exact congrArg (· + 1) (hm.nextNr (hlinked.mp hl))
  · rw [hu] at ha
    exact hlinked.mpr (hm.accepts ha)

/-- A payload is read. -/
theorem Mirrors.emitRead {held : List Slot} (hm : Mirrors h held s) (a : Byte) (g : Nat)
    (x : List Byte) : Mirrors (h.emit (.read 0 a x)) held { s with got := s.got ++ [(x, g)] } where
  queue :=
    have ⟨l, hq, hsq⟩ := hm.queue
    ⟨l, hq.congr rfl rfl, hsq⟩
  isOpen := hm.isOpen
  accepted := (filterMap_concat_none rfl _).trans hm.accepted
  got := by
    show readFrom 0 (h.log ++ [.read 0 a x]) = _
    rw [readFrom_concat, hm.got, List.map_append]
    rfl
  confirmed := (filterMap_concat_none rfl _).trans hm.confirmed
  unconfirmed := (unconfirmed_concat 0 h.log _).trans hm.unconfirmed
  low := hm.low
  top := hm.top
  confirmNs := hm.confirmNs
  nextNr := hm.nextNr
  accepts := hm.accepts

end TinyProto.Fd
