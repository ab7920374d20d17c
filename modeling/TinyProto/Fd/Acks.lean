import TinyProto.Fd.Counts
import TinyProto.Fd.Requests
import TinyProto.Fd.SearchOrder

/-!
# Acknowledgements

An I-frame takes its N(R) when it is chosen, an S-frame when it is queued.  The numbers sent are
counts that never fall (`acks_sound`), as long as three things do not happen (`AcksKept`): the
service queue is not cleared by a new connection, so an S-frame of the old one is sent in it;
RSET starts the numbers anew without a new connection; and with several peers an S-frame that is
passed over by the search may end up behind a later one.
-/

set_option linter.unusedSectionVars false

namespace TinyProto.Fd

open Hdlc

variable {W N : Nat} [NeZero W] [NeZero N] {h h₁ h₂ : Handle W N} {p q : Fin N}

/-! ## Numbers that wait -/

/-- The N(R) of the next frame, and of those that wait, are counts too: not below the last one
sent, in order, and not above the present one. -/
structure Pending (h : Handle W N) (p : Fin N) (last : Nat) (counts : List Nat) : Prop where
  nextNr : (h.control p).nextNr = BitVec.ofNat 3 (acceptedSince p h.log)
  waiting : waitingAcks (peerToAddressField h p) h.sQueue.slots = counts.map (BitVec.ofNat 3)
  rising : (last :: counts ++ [acceptedSince p h.log]).Pairwise (· ≤ ·)

/-- The acknowledgements to the peer are in order. -/
structure Acking (h : Handle W N) (p : Fin N) : Prop where
  linked : isOpen p h.log = true → Live h p ∧ Linked h p
  counted : ∃ last count, Counted p h.log last count ∧
    (isOpen p h.log = true → ∃ counts, Pending h p last counts)

/-- Those to all peers are, and the queue is. -/
structure AllAcking (h : Handle W N) : Prop where
  queue : Unpassed h.sQueue.slots
  peer : ∀ p, Acking h p

/-- The queue is in order as before, with the same S-frames. -/
structure SameAcks (q q' : Queue 4) : Prop where
  queue : Unpassed q.slots → Unpassed q'.slots
  waiting : Unpassed q.slots → ∀ address, waitingAcks address q'.slots = waitingAcks address q.slots

/-- Nothing happened that matters for the acknowledgements. -/
structure Apart (h h₁ : Handle W N) : Prop where
  settings : h₁.settings = h.settings
  log : ∃ es, h₁.log = h.log ++ es ∧ ∀ e ∈ es, e.Aside
  addr : ∀ p, (h₁.peers p).addr = (h.peers p).addr
  linked : ∀ p, Linked h p → Linked h₁ p ∧ (h₁.control p).nextNr = (h.control p).nextNr
  queue : SameAcks h.sQueue h₁.sQueue

theorem SameAcks.refl (q : Queue 4) : SameAcks q q := ⟨id, fun _ _ => rfl⟩

theorem SameAcks.trans {q q' q'' : Queue 4} (hs : SameAcks q q') (hs' : SameAcks q' q'') :
    SameAcks q q'' where
  queue hq := hs'.queue (hs.queue hq)
  waiting hq a := (hs'.waiting (hs.queue hq) a).trans (hs.waiting hq a)

theorem Apart.refl (h : Handle W N) : Apart h h :=
  ⟨rfl, ⟨[], (List.append_nil _).symm, nofun⟩, fun _ => rfl, fun _ hl => ⟨hl, rfl⟩, .refl _⟩

theorem Apart.trans (hs : Apart h h₁) (hs' : Apart h₁ h₂) : Apart h h₂ := by
  obtain ⟨es, hl, hes⟩ := hs.log
  obtain ⟨es', hl', hes'⟩ := hs'.log
  refine ⟨hs'.settings.trans hs.settings, ⟨es ++ es', by rw [hl', hl, List.append_assoc], ?_⟩,
    fun p => (hs'.addr p).trans (hs.addr p), fun p hp => ?_, hs.queue.trans hs'.queue⟩
  · intro e he
    rcases List.mem_append.mp he with he | he
    · exact hes e he
    · exact hes' e he
  · obtain ⟨hl₁, hn₁⟩ := hs.linked p hp
    obtain ⟨hl₂, hn₂⟩ := hs'.linked p hl₁
    exact ⟨hl₂, hn₂.trans hn₁⟩

/-- The peers and the service queue stay. -/
theorem Apart.of_eq (hset : h₁.settings = h.settings) (hlog : h₁.log = h.log)
    (hp : h₁.peers = h.peers) (hq : h₁.sQueue = h.sQueue) : Apart h h₁ where
  settings := hset
  log := ⟨[], by rw [hlog, List.append_nil], nofun⟩
  addr p := by rw [hp]
  linked p hl := by
    unfold Linked Handle.control at *
    rw [hp]
    exact ⟨hl, rfl⟩
  queue := hq ▸ .refl _

theorem Apart.emit (h : Handle W N) {e : Event N} (he : e.Aside) : Apart h (h.emit e) where
  settings := rfl
  log := ⟨[e], rfl, by simpa using he⟩
  addr _ := rfl
  linked _ hl := ⟨hl, rfl⟩
  queue := .refl _

/-- A peer is changed in something else. -/
theorem Apart.setPeer (h : Handle W N) (p : Fin N) {f : Peer → Peer}
    (haddr : (f (h.peers p)).addr = (h.peers p).addr)
    (hf : Linked h p → ((f (h.peers p)).state = .connected ∨ (f (h.peers p)).state = .disconnecting) ∧
      (f (h.peers p)).iQueueControl.nextNr = (h.control p).nextNr) :
    Apart h (h.setPeer p f) where
  settings := rfl
  log := ⟨[], (List.append_nil _).symm, nofun⟩
  addr := setPeer_addr h p haddr
  linked q hl := by
    by_cases hq : q = p
    · subst hq
      unfold Linked Handle.control
      rw [setPeer_self]
      exact hf hl
    · unfold Linked Handle.control at *
      rw [setPeer_ne h hq]
      exact ⟨hl, rfl⟩
  queue := .refl _

theorem Confirms.apart (hc : Confirms p h h₁) : Apart h h₁ where
  settings := hc.settings
  log := by
    obtain ⟨es, hl, hes⟩ := hc.log
    refine ⟨es, hl, fun e he => ?_⟩
    obtain ⟨a, x, rfl⟩ := hes e he
    trivial
  addr q := (hc.addr q).1
  linked q hl := by
    refine ⟨(linked_congr (hc.addr q).2).mpr hl, ?_⟩
    unfold Handle.control
    by_cases hq : q = p
    · obtain ⟨c, r, b, hp⟩ := hc.peer
      rw [hq, hp]
    · rw [hc.other q hq]
  queue := hc.sQueue ▸ .refl _

/-- A frame without N(R) is put in the first free slot. -/
theorem sameAcks_fill {q : Queue 4} {i : Fin 4} (hi : q.getNext [.free] 0 0 = some i) {s : Slot}
    (ht : s.type ≠ .free) (hs : ¬s.Acks) : SameAcks q (q.setFrame i s) := by
  obtain ⟨before, after, ho, hb, ha, hbusy⟩ := Queue.getNext_split hi
  have hfree := Queue.getNext_some hi
  rw [Slot.fits_free, beq_iff_eq] at hfree
  have hslots := Queue.slots_eq ho
  have hnew := Queue.slots_setFrame ho hb ha s
  have hnone : ∀ u ∈ before.map q.frames, u.type ≠ .free := by
    intro u hu
    obtain ⟨j, hj, rfl⟩ := List.mem_map.mp hu
    have hfits := hbusy j hj
    rw [Slot.fits_free, beq_eq_false_iff_ne] at hfits
    exact hfits
  constructor
  · intro hord
    rw [hslots] at hord
    rw [hnew]
    exact hord.fill hnone ht
  · intro _ address
    rw [hslots, hnew, waitingAcks_append, waitingAcks_append, waitingAcks_cons_not fun hk => hs hk.1,
      waitingAcks_cons_not fun hk => not_acks_of_free hfree hk.1]

theorem sameAcks_putUSFrame (h : Handle W N) {type : QueueType} (ht : type ≠ .free) (address : Byte)
    {control : Byte} (hc : isUFrame control = true) (payload : List Byte) :
    SameAcks h.sQueue (putUSFrame h type address control payload).sQueue := by
  rcases putUSFrame_cases h type address control payload with hq | ⟨i, hi, hq⟩
  · rw [hq]
    exact .refl _
  · rw [hq]
    exact sameAcks_fill hi ht fun hs => Bool.noConfusion (hs.2.symm.trans hc)

theorem Apart.putUSFrame (h : Handle W N) {type : QueueType} (ht : type ≠ .free) (address : Byte)
    {control : Byte} (hc : isUFrame control = true) (payload : List Byte) :
    Apart h (putUSFrame h type address control payload) := by
  have hq := sameAcks_putUSFrame h ht address hc payload
  obtain ⟨q, b, he⟩ := putUSFrame_eq h type address control payload
  rw [he] at hq ⊢
  exact ⟨rfl, ⟨[], (List.append_nil _).symm, nofun⟩, fun _ => rfl, fun _ hl => ⟨hl, rfl⟩, hq⟩

theorem isUFrame_uControl (type : UType) : isUFrame (uControl type) = true := by
  cases type <;> decide

theorem Apart.putUFrame (h : Handle W N) (p : Fin N) (cr : Byte) (type : UType) :
    Apart h (putUFrame h p cr type) :=
  .putUSFrame h QueueType.noConfusion _ (isUFrame_uControl type) _

theorem Resends.apart (hr : Resends p h h₁) : Apart h h₁ where
  settings := hr.settings
  log := ⟨[], by rw [hr.log, List.append_nil], nofun⟩
  addr q := (hr.addr q).1
  linked q hl := by
    refine ⟨(linked_congr (hr.addr q).2).mpr hl, ?_⟩
    unfold Handle.control
    by_cases hq : q = p
    · obtain ⟨c, hp⟩ := hr.peer
      rw [hq, hp]
    · rw [hr.other q hq]
  queue := by
    rcases hr.sQueue with hq | ⟨i, payload, hi, hq⟩
    · rw [hq]
      exact .refl _
    · rw [hq]
      exact sameAcks_fill hi QueueType.noConfusion fun hs =>
        Bool.noConfusion (hs.2.symm.trans (isUFrame_uControl .frmr))

theorem Apart.field (ha : Apart h h₁) (p : Fin N) :
    peerToAddressField h₁ p = peerToAddressField h p := by
  unfold peerToAddressField
  rw [ha.addr p]

theorem Apart.live (ha : Apart h h₁) (hp : Live h p) : Live h₁ p :=
  (live_congr ha.settings ha.addr).mpr hp

theorem AllAcking.apart (hi : AllAcking h) (ha : Apart h h₁) : AllAcking h₁ := by
  obtain ⟨es, hlog, hes⟩ := ha.log
  refine ⟨ha.queue.queue hi.queue, fun p => ?_⟩
  obtain ⟨hlinked, last, count, hc, hpend⟩ := hi.peer p
  have hopen : isOpen p h₁.log = isOpen p h.log := by rw [hlog, isOpen_aside hes]
  refine ⟨fun ho => ?_, ?_⟩
  · obtain ⟨hp, hl⟩ := hlinked (hopen ▸ ho)
    exact ⟨ha.live hp, (ha.linked p hl).1⟩
  · obtain ⟨count', hc'⟩ := hc.aside hes
    refine ⟨last, count', hlog ▸ hc', fun ho => ?_⟩
    obtain ⟨counts, hpn⟩ := hpend (hopen ▸ ho)
    have hsince : acceptedSince p h₁.log = acceptedSince p h.log := by
      rw [hlog, acceptedSince_aside hes]
    refine ⟨counts, ?_, ?_, ?_⟩
    · rw [(ha.linked p (hlinked (hopen ▸ ho)).2).2, hpn.nextNr, hsince]
    · rw [ha.field p, ha.queue.waiting hi.queue, hpn.waiting]
    · rw [hsince]
      exact hpn.rising

/-! ## What changes the numbers -/

/-- A count is appended. -/
theorem rising_concat {counts : List Nat} {n m : Nat} (hr : (counts ++ [n]).Pairwise (· ≤ ·))
    (hm : n ≤ m) : (counts ++ [n] ++ [m]).Pairwise (· ≤ ·) := by
  refine List.pairwise_append.mpr ⟨hr, List.pairwise_singleton _ _, fun c hc d hd => ?_⟩
  rw [List.mem_singleton.mp hd]
  rcases List.mem_append.mp hc with hc | hc
  · exact Nat.le_trans ((List.pairwise_append.mp hr).2.2 c hc n (List.mem_singleton_self n)) hm
  · rw [List.mem_singleton.mp hc]
    exact hm

/-- The greatest count grows. -/
theorem rising_grow {counts : List Nat} {n m : Nat} (hr : (counts ++ [n]).Pairwise (· ≤ ·))
    (hm : n ≤ m) : (counts ++ [m]).Pairwise (· ≤ ·) := by
  refine (rising_concat hr hm).sublist ?_
  rw [List.append_assoc]
  exact (List.sublist_append_right [n] [m]).append_left counts

/-- Another event for the peer, without a connection. -/
theorem Counted.other {log : List (Event N)} {last : Nat} {count : Nat → Nat} {e : Event N}
    (hc : Counted p log last count) (hout : ∀ data, e ≠ .frameOut p data) :
    ∃ count, Counted p (log ++ [e]) last count :=
  ⟨_, hc.concat (fun _ _ _ he => absurd he (hout _)) fun _ => Nat.le_refl _⟩

theorem nrOf_sControl (type : SType) (nr : Seq) {poll : Byte} (hp : poll = 0 ∨ poll = pBit) :
    nrOf (sControl type nr ||| poll) = nr ∧ isUFrame (sControl type nr ||| poll) = false := by
  unfold sControl
  rcases hp with rfl | rfl
  · revert nr
    cases type <;> decide +kernel
  · revert nr
    cases type <;> decide +kernel

/-- Slots of one peer are not those of another. -/
theorem other_station (hp : Live h p) (hq : Live h q) (hne : q ≠ p) {cr : Byte}
    (hcr : cr = 0 ∨ cr = crBit) :
    sameStation (peerToAddressField h q) (peerToAddressField h p ||| cr) = false := by
  refine Bool.eq_false_iff.mpr fun hs => hne (hq.eq_of_sameStation hp ?_)
  refine sameStation_trans hs ?_
  rw [sameStation_comm]
  exact sameStation_flagged h p hcr

/-- An S-frame is queued behind all others. -/
theorem AllAcking.putSFrame (hi : AllAcking h) (hp : Live h p) {cr poll : Byte} (type : SType)
    (hcr : cr = 0 ∨ cr = crBit) (hpoll : poll = 0 ∨ poll = pBit) :
    AllAcking (putSFrame h p cr type poll) := by
  unfold Fd.putSFrame
  obtain ⟨hnr, hs⟩ := nrOf_sControl type (h.control p).nextNr hpoll
  generalize hcontrol : sControl type (h.control p).nextNr ||| poll = control at hnr hs
  have hcases := putUSFrame_cases h .sFrame (peerToAddressField h p ||| cr) control []
  obtain ⟨sq, b, he⟩ := putUSFrame_eq h .sFrame (peerToAddressField h p ||| cr) control []
  rw [he] at hcases ⊢
  obtain ⟨s, hslot⟩ : ∃ s : Slot, s = ⟨.sFrame, peerToAddressField h p ||| cr, control, []⟩ :=
    ⟨_, rfl⟩
  have htype : s.type = .sFrame := by rw [hslot]
  have haddr : s.address = peerToAddressField h p ||| cr := by rw [hslot]
  have hctl : s.control = control := by rw [hslot]
  rw [← hslot] at hcases
  have hcases : sq = h.sQueue ∨ ∃ i, h.sQueue.getNext [.free] 0 0 = some i ∧
    sq = h.sQueue.setFrame i s := hcases
  rcases hcases with hq | ⟨i, hfirst, hq⟩
  · exact hi.apart (.of_eq rfl rfl rfl hq)
  obtain ⟨before, after, ho, hb, ha, hbusy⟩ := Queue.getNext_split hfirst
  have hfree := Queue.getNext_some hfirst
  rw [Slot.fits_free, beq_iff_eq] at hfree
  have hold := Queue.slots_eq ho
  have hnew := Queue.slots_setFrame ho hb ha s
  have hacks : s.Acks := ⟨.inl htype, hctl ▸ hs⟩
  have hord := hi.queue
  rw [hold] at hord
  -- The S-frames for an address, before and after.
  have hbehind : ∀ a, waitingAcks a (after.map h.sQueue.frames) = [] := fun a =>
    waitingAcks_eq_nil fun s hs hk => hord.none_behind hfree s hs hk.1
  have hwas : ∀ a, waitingAcks a h.sQueue.slots = waitingAcks a (before.map h.sQueue.frames) := by
    intro a
    rw [hold, waitingAcks_append, waitingAcks_cons_not fun hk => not_acks_of_free hfree hk.1,
      hbehind, List.append_nil]
  refine ⟨?_, fun r => ?_⟩
  · show Unpassed sq.slots
    rw [hq, hnew]
    refine hord.fill (fun u hu => ?_) hacks.not_free
    obtain ⟨j, hj, rfl⟩ := List.mem_map.mp hu
    have hfits := hbusy j hj
    rw [Slot.fits_free, beq_eq_false_iff_ne] at hfits
    exact hfits
  · obtain ⟨hlinked, last, count, hc, hpend⟩ := hi.peer r
    refine ⟨hlinked, last, count, hc, fun hopen => ?_⟩
    obtain ⟨counts, hpn⟩ := hpend hopen
    by_cases hrp : r = p
    · subst hrp
      refine ⟨counts ++ [acceptedSince r h.log], hpn.nextNr, ?_,
        rising_concat hpn.rising (Nat.le_refl _)⟩
      have hown : sameStation (peerToAddressField h r) s.address = true :=
        haddr ▸ sameStation_flagged h r hcr
      show waitingAcks (peerToAddressField h r) sq.slots = _
      rw [hq, hnew, waitingAcks_append, waitingAcks_cons_of hacks hown, hbehind, ← hwas, hpn.waiting,
        hctl, hnr, hpn.nextNr, List.map_append]
      rfl
    · refine ⟨counts, hpn.nextNr, ?_, hpn.rising⟩
      have hother : sameStation (peerToAddressField h r) s.address = false :=
        haddr ▸ other_station hp (hlinked hopen).1 hrp hcr
      show waitingAcks (peerToAddressField h r) sq.slots = _
      rw [hq, hnew, waitingAcks_append, waitingAcks_cons_not
        fun hk => Bool.noConfusion (hother.symm.trans hk.2), hbehind, List.append_nil, ← hwas,
        hpn.waiting]

/-- A connection is opened or closed.  It is opened with no numbers left from before. -/
theorem AllAcking.switches {connected : Bool} (hi : AllAcking h) (hs : Switches p connected h h₁)
    (hopened : connected = true → Live h p ∧ Linked h₁ p ∧
      ∀ nr ∈ waitingAcks (peerToAddressField h p) h.sQueue.slots, nr = 0) : AllAcking h₁ := by
  obtain ⟨a, hlog⟩ := hs.log
  have hfield : ∀ r, peerToAddressField h₁ r = peerToAddressField h r := by
    intro r
    unfold peerToAddressField
    rw [hs.addr_eq r]
  refine ⟨hs.sQueue ▸ hi.queue, fun r => ?_⟩
  obtain ⟨hlinked, last, count, hc, hpend⟩ := hi.peer r
  have hlive : Live h r → Live h₁ r := (live_congr hs.settings hs.addr_eq).mpr
  by_cases hrp : r = p
  · subst hrp
    have hnotice : connections r [Event.connect r a connected] = [connected] := by
      simp [connections]
    have hstate : isOpen r h₁.log = connected := by
      unfold isOpen
      rw [hlog, connections_append, hnotice, List.getLastD_concat]
    have hcount : Counted r h₁.log 0 (Function.update count h.log.length 0) := by
      rw [hlog]
      refine hc.concat (fun _ _ _ => nofun) fun hno => ?_
      rw [hnotice] at hno
      cases hno
    refine ⟨fun ho => ?_, 0, _, hcount, fun ho => ?_⟩
    · obtain ⟨hp, hl, -⟩ := hopened (hstate ▸ ho)
      exact ⟨hlive hp, hl⟩
    · obtain rfl : connected = true := hstate ▸ ho
      have hsince : acceptedSince r h₁.log = 0 := by
        rw [hlog, acceptedSince_concat]
        exact if_pos ⟨rfl, rfl⟩
      obtain ⟨m, hm⟩ : ∃ m, waitingAcks (peerToAddressField h r) h.sQueue.slots =
          List.replicate m 0 := ⟨_, List.eq_replicate_iff.mpr ⟨rfl, (hopened rfl).2.2⟩⟩
      refine ⟨List.replicate m 0, ?_, ?_, ?_⟩
      · rw [hs.control, hsince]
        rfl
      · rw [hfield, hs.sQueue, hm, List.map_replicate]
        rfl
      · have hzeros : 0 :: List.replicate m 0 ++ [0] = List.replicate (m + 1 + 1) 0 := by
          rw [List.replicate_succ' (n := m + 1), List.replicate_succ]
        rw [hsince, hzeros]
        exact List.pairwise_replicate.mpr (.inr (Nat.le_refl 0))
  · have hnone : connections r [Event.connect p a connected] = [] := by
      simp [connections, Ne.symm hrp]
    have hopen : isOpen r h₁.log = isOpen r h.log := by
      unfold isOpen
      rw [hlog, connections_append, hnone, List.append_nil]
    have hsince : acceptedSince r h₁.log = acceptedSince r h.log := by
      rw [hlog, acceptedSince_concat]
      exact if_neg fun hk => hrp hk.1.symm
    have hpeer := hs.other r hrp
    obtain ⟨count', hc'⟩ := hc.other (e := .connect p a connected) fun _ => nofun
    refine ⟨fun ho => ?_, last, count', hlog ▸ hc', fun ho => ?_⟩
    · obtain ⟨hp, hl⟩ := hlinked (hopen ▸ ho)
      refine ⟨hlive hp, ?_⟩
      unfold Linked at hl ⊢
      rw [hpeer]
      exact hl
    · obtain ⟨counts, hpn⟩ := hpend (hopen ▸ ho)
      refine ⟨counts, ?_, by rw [hfield, hs.sQueue, hpn.waiting], by rw [hsince]; exact hpn.rising⟩
      unfold Handle.control
      rw [hpeer, hsince]
      exact hpn.nextNr

/-- An I-frame of the peer is accepted. -/
theorem AllAcking.received (hi : AllAcking h) {k : Handle W N} (hset : k.settings = h.settings)
    (haddr : ∀ r, (k.peers r).addr = (h.peers r).addr) (hq : k.sQueue = h.sQueue)
    {es : List (Event N)} (hlog : k.log = h.log ++ es) (hes : ∀ e ∈ es, e.Aside)
    (hlinked : ∀ r, Linked h r → Linked k r)
    (hself : (k.control p).nextNr = (h.control p).nextNr + 1)
    (hother : ∀ r, r ≠ p → (k.control r).nextNr = (h.control r).nextNr) (a : Byte)
    (payload : List Byte) : AllAcking (k.emit (.read p a payload)) := by
  have hfield : ∀ r, peerToAddressField k r = peerToAddressField h r := by
    intro r
    unfold peerToAddressField
    rw [haddr r]
  refine ⟨show Unpassed k.sQueue.slots from hq ▸ hi.queue, fun r => ?_⟩
  obtain ⟨hlk, last, count, hc, hpend⟩ := hi.peer r
  obtain ⟨count₁, hc₁⟩ := hc.aside hes
  obtain ⟨count₂, hc₂⟩ := hc₁.other (e := .read p a payload) fun _ => nofun
  have hlog' : (k.emit (.read p a payload)).log = h.log ++ es ++ [.read p a payload] := by
    rw [← hlog]
    rfl
  have hopen : isOpen r (k.emit (.read p a payload)).log = isOpen r h.log := by
    rw [hlog']
    unfold isOpen
    rw [connections_append]
    exact (congrArg (fun l => l.getLastD false) (List.append_nil _)).trans (isOpen_aside hes)
  refine ⟨fun ho => ?_, last, count₂, hlog' ▸ hc₂, fun ho => ?_⟩
  · obtain ⟨hp, hl⟩ := hlk (hopen ▸ ho)
    exact ⟨(live_congr hset haddr).mpr hp, hlinked r hl⟩
  · obtain ⟨counts, hpn⟩ := hpend (hopen ▸ ho)
    have hwait : waitingAcks (peerToAddressField k r) k.sQueue.slots =
        counts.map (BitVec.ofNat 3) := by
      rw [hfield, hq, hpn.waiting]
    by_cases hrp : r = p
    · subst hrp
      have hsince : acceptedSince r (k.emit (.read r a payload)).log = acceptedSince r h.log + 1 := by
        rw [hlog', acceptedSince_concat, acceptedSince_aside hes]
        exact if_pos rfl
      refine ⟨counts, ?_, hwait, ?_⟩
      · rw [hsince, BitVec.ofNat_add]
        show (k.control r).nextNr = _
        rw [hself, hpn.nextNr]
        rfl
      · rw [hsince]
        exact rising_grow hpn.rising (Nat.le_succ _)
    · have hsince : acceptedSince r (k.emit (.read p a payload)).log = acceptedSince r h.log := by
        rw [hlog', acceptedSince_concat, acceptedSince_aside hes]
        exact if_neg fun hk => hrp hk.symm
      refine ⟨counts, ?_, hwait, by rw [hsince]; exact hpn.rising⟩
      rw [hsince, ← hpn.nextNr]
      exact hother r hrp

/-- The frame that is chosen is the first that waits, or an I-frame when none does. -/
def MayLeave (h : Handle W N) (p : Fin N) (control : Byte) : Prop :=
  isUFrame control = false →
    (∃ rest, waitingAcks (peerToAddressField h p) h.sQueue.slots = nrOf control :: rest) ∨
      waitingAcks (peerToAddressField h p) h.sQueue.slots = [] ∧
        nrOf control = (h.control p).nextNr

theorem numbered_iff (control : Byte) :
    (isIFrame control = true ∨ isSFrame control = true) ↔ isUFrame control = false := by
  revert control
  decide +kernel

/-- A frame is chosen. -/
theorem AllAcking.sends (hi : AllAcking h) {data : List Byte}
    (hleaves : ∀ address control payload, data = address :: control :: payload →
      MayLeave h p control) : AllAcking (h.emit (.frameOut p data)) := by
  refine ⟨hi.queue, fun r => ?_⟩
  obtain ⟨hlinked, last, count, hc, hpend⟩ := hi.peer r
  have hopen : isOpen r (h.log ++ [.frameOut p data]) = isOpen r h.log := by
    unfold isOpen
    rw [connections_append]
    exact congrArg (fun l => l.getLastD false) (List.append_nil _)
  have hsince : acceptedSince r (h.log ++ [.frameOut p data]) = acceptedSince r h.log :=
    acceptedSince_concat r h.log _
  -- What is left to show once the count of the frame is known.
  have hstep : ∀ m counts, last ≤ m →
      (∀ address control payload, Event.frameOut p data = .frameOut r (address :: control :: payload) →
        (isIFrame control = true ∨ isSFrame control = true) → isOpen r h.log = true →
        nrOf control = BitVec.ofNat 3 m ∧ m ≤ acceptedSince r h.log) →
      (isOpen r h.log = true → Pending h r m counts) → Acking (h.emit (.frameOut p data)) r := by
    intro m counts hle hann hpn
    refine ⟨fun ho => hlinked (hopen ▸ ho), m, _, hc.concat hann fun _ => hle, fun ho => ?_⟩
    obtain ⟨hnr, hwait, hrising⟩ := hpn (hopen ▸ ho)
    refine ⟨counts, ?_, hwait, ?_⟩
    · show (h.control r).nextNr = BitVec.ofNat 3 (acceptedSince r (h.log ++ [.frameOut p data]))
      rw [hsince]
      exact hnr
    · show (m :: counts ++ [acceptedSince r (h.log ++ [.frameOut p data])]).Pairwise (· ≤ ·)
      rw [hsince]
      exact hrising
  cases ho : isOpen r h.log with
  | false =>
    refine hstep last [] (Nat.le_refl _) (fun _ _ _ _ _ ht => ?_) fun ht => ?_
    · exact Bool.noConfusion (ho.symm.trans ht)
    · exact Bool.noConfusion (ho.symm.trans ht)
  | true =>
    obtain ⟨counts, hpn⟩ := hpend ho
    have hlast : last ≤ acceptedSince r h.log :=
      (List.pairwise_cons.mp hpn.rising).1 _ (List.mem_append_right _ (List.mem_singleton_self _))
    by_cases hnum : ∃ address control payload,
        Event.frameOut p data = .frameOut r (address :: control :: payload) ∧
          (isIFrame control = true ∨ isSFrame control = true)
    · obtain ⟨address, control, payload, he, hkind⟩ := hnum
      obtain ⟨rfl, rfl⟩ := Event.frameOut.inj he
      have hleave := hleaves address control payload rfl ((numbered_iff control).mp hkind)
      have hone : ∀ {m : Nat}, nrOf control = BitVec.ofNat 3 m → m ≤ acceptedSince p h.log →
          ∀ address' control' payload', Event.frameOut p (address :: control :: payload) =
            .frameOut p (address' :: control' :: payload') →
          (isIFrame control' = true ∨ isSFrame control' = true) → isOpen p h.log = true →
          nrOf control' = BitVec.ofNat 3 m ∧ m ≤ acceptedSince p h.log := by
        intro m hm hle address' control' payload' he' _ _
        obtain ⟨-, hdata⟩ := Event.frameOut.inj he'
        rw [← (List.cons.inj (List.cons.inj hdata).2).1]
        exact ⟨hm, hle⟩
      rcases hleave with ⟨rest, hrest⟩ | ⟨hnone, hnr⟩
      · cases counts with
        | nil => exact absurd (hrest.symm.trans hpn.waiting) (List.cons_ne_nil _ _)
        | cons c counts =>
          have hrising := (List.pairwise_cons.mp hpn.rising)
          have htail := List.pairwise_cons.mp hrising.2
          have hfirst : nrOf control = BitVec.ofNat 3 c :=
            (List.cons.inj (hrest.symm.trans hpn.waiting)).1
          refine hstep c (c :: counts) (hrising.1 c List.mem_cons_self) (hone hfirst ?_) fun _ => ?_
          · exact htail.1 _ (List.mem_append_right _ (List.mem_singleton_self _))
          · refine ⟨hpn.nextNr, hpn.waiting, List.pairwise_cons.mpr ⟨fun d hd => ?_, hrising.2⟩⟩
            rcases List.mem_cons.mp hd with rfl | hd
            · exact Nat.le_refl _
            · exact htail.1 d hd
      · have hnil : counts = [] := List.map_eq_nil_iff.mp (hpn.waiting.symm.trans hnone)
        refine hstep _ [] hlast (hone (hnr.trans hpn.nextNr) (Nat.le_refl _)) fun _ => ?_
        refine ⟨hpn.nextNr, hnone, ?_⟩
        exact List.pairwise_pair.mpr (Nat.le_refl _)
    · refine hstep last counts (Nat.le_refl _) (fun address control payload he hkind _ => ?_)
        fun _ => hpn
      exact absurd ⟨address, control, payload, he, hkind⟩ hnum

/-- A slot is freed, and no S-frame is passed over. -/
theorem AllAcking.freed (hi : AllAcking h) {i : Fin 4}
    (hpass : ∀ j ∈ h.sQueue.order.takeWhile (· ≠ i), ¬(h.sQueue.frames j).Acks)
    (hset : h₁.settings = h.settings) (hlog : h₁.log = h.log) (hpeers : h₁.peers = h.peers)
    (hq : h₁.sQueue = h.sQueue.freeByHeader i) : AllAcking h₁ := by
  obtain ⟨before, after, ho, hb, ha⟩ := h.sQueue.order_split i
  have hpassed : ∀ s ∈ before.map h.sQueue.frames, ¬s.Acks := by
    intro s hs
    obtain ⟨j, hj, rfl⟩ := List.mem_map.mp hs
    refine hpass j ?_
    rw [ho, List.takeWhile_append_of_pos fun k hk => decide_eq_true (ne_of_mem_of_not_mem hk hb)]
    exact List.mem_append_left _ hj
  have hold := Queue.slots_eq ho
  have hnew := Queue.slots_freeByHeader ho hb ha
  have hord := hi.queue
  rw [hold] at hord
  have hlive : ∀ r, Live h r → Live h₁ r := fun r =>
    (live_congr hset fun r => by rw [hpeers]).mpr
  have hsub : ∀ a, ∃ front, waitingAcks a h.sQueue.slots =
      front ++ waitingAcks a h₁.sQueue.slots := by
    intro a
    refine ⟨waitingAcks a [h.sQueue.frames i], ?_⟩
    have hgone : waitingAcks a (before.map h.sQueue.frames) = [] :=
      waitingAcks_eq_nil fun s hs hk => hpassed s hs hk.1
    have hfree : waitingAcks a [{ h.sQueue.frames i with type := .free }] = [] :=
      waitingAcks_eq_nil fun s hs hk => by
        rw [List.mem_singleton.mp hs] at hk
        exact not_acks_of_free rfl hk.1
    rw [hq, hnew, hold, waitingAcks_append, waitingAcks_append, waitingAcks_append, hgone, hfree,
      List.append_nil, List.append_nil, List.nil_append, ← waitingAcks_append]
    rfl
  refine ⟨?_, fun r => ?_⟩
  · rw [hq, hnew]
    exact hord.turn hpassed rfl
  · obtain ⟨hlinked, last, count, hc, hpend⟩ := hi.peer r
    refine ⟨fun hopen => ?_, last, count, hlog ▸ hc, fun hopen => ?_⟩
    · obtain ⟨hp, hl⟩ := hlinked (hlog ▸ hopen)
      refine ⟨hlive r hp, ?_⟩
      unfold Linked at hl ⊢
      rw [hpeers]
      exact hl
    · obtain ⟨counts, hpn⟩ := hpend (hlog ▸ hopen)
      obtain ⟨front, hfront⟩ := hsub (peerToAddressField h r)
      rw [hpn.waiting] at hfront
      obtain ⟨gone, rest, rfl, -, hrest⟩ := List.map_eq_append_iff.mp hfront
      refine ⟨rest, ?_, ?_, ?_⟩
      · unfold Handle.control
        rw [hpeers, hlog]
        exact hpn.nextNr
      · unfold peerToAddressField at hrest ⊢
        rw [hpeers]
        exact hrest.symm
      · rw [hlog]
        refine hpn.rising.sublist (List.Sublist.append_right (List.Sublist.cons_cons _ ?_) _)
        exact List.sublist_append_right gone rest

/-! ## Operations -/

/-- No number of an old connection waits for the peer. -/
def NoStale (h : Handle W N) (p : Fin N) : Prop :=
  ∀ nr ∈ waitingAcks (peerToAddressField h p) h.sQueue.slots, nr = 0

/-- What a frame of the peer may not do: open a connection while a number of the old one waits,
and start the numbers anew inside a connection. -/
structure KeepsAcks (h : Handle W N) (p : Fin N) (control : Byte) : Prop where
  opened : Opens h p control → NoStale h p
  reset : Resets h p control → Linked h p → (h.control p).nextNr = 0

theorem AllAcking.disconnect (hi : AllAcking h) (p : Fin N) :
    AllAcking (switchToDisconnectedState h p) := by
  by_cases hst : (h.peers p).state = .disconnected
  · rw [switchToDisconnectedState_of hst]
    exact hi
  · exact hi.switches (switchToDisconnectedState_switches h hst) nofun

theorem AllAcking.connect (hi : AllAcking h) (hp : Live h p) (hn : NoStale h p)
    (hst : (h.peers p).state ≠ .connected) : AllAcking (switchToConnectedState h p) := by
  refine hi.switches (switchToConnectedState_switches h hst) fun _ => ⟨hp, .inl ?_, hn⟩
  rw [switchToConnectedState_peer h hst]

/-- The connection that is open is closed first. -/
theorem AllAcking.reconnect (hi : AllAcking h) (hp : Live h p) (hn : NoStale h p) :
    AllAcking (reconnect h p) := by
  unfold Fd.reconnect
  split
  · next hl =>
    have hsw := switchToDisconnectedState_switches h hl.ne_disconnected
    have hst := disconnected_state h p
    refine (hi.disconnect p).connect ((live_congr hsw.settings hsw.addr_eq).mpr hp) ?_ ?_
    · unfold NoStale peerToAddressField
      rw [hsw.sQueue, hsw.addr]
      exact hn
    · rw [hst]
      exact PeerState.noConfusion
  · next hl => exact hi.connect hp hn (ne_connected hl)

theorem NoStale.apart (hi : AllAcking h) (ha : Apart h h₁) (hn : NoStale h p) : NoStale h₁ p := by
  unfold NoStale
  rw [ha.field p, ha.queue.waiting hi.queue]
  exact hn

theorem Handled.allAcking {control : Byte} (hh : Handled h p control h₁) (hi : AllAcking h)
    (hp : Live h p) (hg : KeepsAcks h p control) : AllAcking h₁ := by
  have hua : ∀ {k : Handle W N}, k = h ∨ k = putUFrame h p 0 .ua → Apart h k := by
    rintro k (rfl | rfl)
    · exact .refl _
    · exact .putUFrame h p 0 .ua
  have hconf := confirmSentFrames_confirms h p (nrOf control)
  cases hh with
  | ignored => exact hi
  | passed => exact hi.apart (.emit h trivial)
  | refused => exact hi.apart (.putUFrame h p 0 .dm)
  | opened ho hk =>
    exact (hi.apart (hua hk)).reconnect ((hua hk).live hp) ((hg.opened ho).apart hi (hua hk))
  | closed _ hk => exact (hi.apart (hua hk)).disconnect p
  | rejected =>
    refine ((hi.disconnect p).apart (.putUFrame _ p crBit (connectType h))).apart
      (.setPeer _ p rfl fun hl => ?_)
    have hst : ((putUFrame (switchToDisconnectedState h p) p crBit (connectType h)).peers p).state =
        .disconnected := by
      unfold putUFrame
      rw [putUSFrame_peers, disconnected_state]
    exact absurd hl (not_linked_of_disconnected hst)
  | reset hr =>
    have hclear : Apart h (h.setPeer p Peer.resetCounters) := by
      refine .setPeer h p rfl fun hl => ⟨hl, ?_⟩
      rw [hg.reset hr hl]
      rfl
    exact (hi.apart hclear).apart (.putUFrame _ p 0 .ua)
  | expected hl _ payload =>
    have hconf := confirmSentFrames_confirms (advance h p) p (nrOf control)
    have hpeer : (advance h p).peers p = { h.peers p with
        sentReject := false
        iQueueControl := { (h.peers p).iQueueControl with
          nextNr := (h.peers p).iQueueControl.nextNr + 1 } } := by
      unfold advance Handle.setControl
      rw [setPeer_self, setPeer_self]
    have hne : ∀ r, r ≠ p → (advance h p).peers r = h.peers r := by
      intro r hr
      unfold advance Handle.setControl
      rw [setPeer_ne _ hr, setPeer_ne _ hr]
    have haddr : ∀ r, ((advance h p).peers r).addr = (h.peers r).addr ∧
        ((advance h p).peers r).state = (h.peers r).state := by
      intro r
      by_cases hr : r = p
      · rw [hr, hpeer]
        exact ⟨rfl, rfl⟩
      · rw [hne r hr]
        exact ⟨rfl, rfl⟩
    have hnr : ∀ r, ((confirmSentFrames (advance h p) p (nrOf control)).control r).nextNr =
        ((advance h p).control r).nextNr := by
      intro r
      unfold Handle.control
      by_cases hr : r = p
      · obtain ⟨c, x, b, hx⟩ := hconf.peer
        rw [hr, hx]
      · rw [hconf.other r hr]
    obtain ⟨es, hlog, hes⟩ := hconf.apart.log
    have hread := hi.received (p := p) (k := confirmSentFrames (advance h p) p (nrOf control))
      hconf.settings (fun r => (hconf.addr r).1.trans (haddr r).1) hconf.sQueue hlog hes
      (fun r hl => (linked_congr ((hconf.addr r).2.trans (haddr r).2)).mpr hl)
      (by rw [hnr]; unfold Handle.control; rw [hpeer])
      (fun r hr => by rw [hnr]; unfold Handle.control; rw [hne r hr])
      (callbackAddress (confirmSentFrames (advance h p) p (nrOf control)) p) payload
    unfold deliver
    dsimp only
    split
    · refine hread.putSFrame ?_ .rr (.inl rfl) (.inl rfl)
      have hset : (confirmSentFrames (advance h p) p (nrOf control)).settings = h.settings :=
        hconf.settings
      exact (live_congr hset fun r => (hconf.addr r).1.trans (haddr r).1).mpr hp
    · exact hread
  | @confirmed k _ _ hk =>
    refine AllAcking.apart ?_ (confirmSentFrames_confirms k p _).apart
    rcases hk with rfl | rfl
    · exact hi
    · have hmark : Apart h (h.setPeer p fun x => { x with sentReject := true }) :=
        .setPeer h p rfl fun hl => ⟨hl, rfl⟩
      exact (hi.apart hmark).putSFrame (hmark.live hp) .rej (.inr rfl) (.inl rfl)
  | answered =>
    exact (hi.apart hconf.apart).putSFrame (hconf.apart.live hp) .rr (.inl rfl) (poll_cases control)
  | rewound =>
    exact (hi.apart hconf.apart).apart (resendAllUnconfirmedFrames_resends _ p control _).apart
  | requested =>
    have hc := hi.apart hconf.apart
    generalize confirmSentFrames h p (nrOf control) = k at hc
    have hmask : Apart k (k.setPeer p fun x =>
        { x with srejReqMask := x.srejReqMask ||| 1#8 <<< (nrOf control).toNat }) :=
      .setPeer k p rfl fun hl => ⟨hl, rfl⟩
    exact (hc.apart hmask).apart (.of_eq rfl rfl rfl rfl)

theorem Checked.allAcking (hc : Checked h p h₁) (hi : AllAcking h) (hp : Live h p) :
    AllAcking h₁ := by
  cases hc with
  | retried =>
    have htaken : Apart h (h.setPeer p fun x => { x with retries := x.retries - 1 }) :=
      .setPeer h p rfl fun hl => ⟨hl, rfl⟩
    exact (hi.apart htaken).apart (resendAllUnconfirmedFrames_resends _ p 0 _).apart
  | gaveUp => exact hi.disconnect p
  | lost => exact hi.disconnect p
  | disarmed => exact hi
  | keptAlive =>
    have hclear : Apart h (h.setPeer p fun x => { x with kaConfirmed := false }) :=
      .setPeer h p rfl fun hl => ⟨hl, rfl⟩
    have hput := (hi.apart hclear).putSFrame (hclear.live hp) .rr (.inl rfl) (.inr rfl)
    generalize Fd.putSFrame (h.setPeer p fun x => { x with kaConfirmed := false }) p 0 .rr pBit = k
      at hput
    have hstamp : Apart k (k.setPeer p fun x => { x with lastSentFrameTs := h.millis }) :=
      .setPeer k p rfl fun hl => ⟨hl, rfl⟩
    exact hput.apart hstamp
  | rested => exact hi
  | requested hl =>
    refine (hi.apart (.putUFrame h p crBit (connectType h))).apart (.setPeer _ p rfl fun hl' => ?_)
    refine absurd ((linked_congr ?_).mp hl') hl
    unfold putUFrame
    rw [putUSFrame_peers]
  | waited => exact hi

theorem Sent.apart {data : List Byte} (hs : Sent h p data h₁) : Apart h h₁ := by
  have hset : ∀ {k : Handle W N} {f : Peer → Peer}, (∀ x, (f x).addr = x.addr ∧
      (f x).state = x.state ∧ (f x).iQueueControl.nextNr = x.iQueueControl.nextNr) →
      Apart k (k.setPeer p f) := by
    intro k f hf
    obtain ⟨ha, hst, hn⟩ := hf (k.peers p)
    exact .setPeer k p ha fun hl => ⟨by rw [hst]; exact hl, hn⟩
  cases hs with
  | refused => exact .refl h
  | full =>
    refine .trans ?_ (hset fun x => ⟨rfl, rfl, rfl⟩)
    exact .of_eq rfl rfl rfl rfl
  | stored =>
    refine .trans ?_ (hset fun x => ⟨rfl, rfl, rfl⟩)
    exact ⟨rfl, ⟨[.accepted p data], rfl, by simp [Event.Aside]⟩, fun _ => rfl,
      fun _ hl => ⟨hl, rfl⟩, .refl _⟩

/-! ## Choosing a frame -/

/-- P/F is no part of the number. -/
theorem numbered_poll (control : Byte) :
    nrOf (control ||| pBit) = nrOf control ∧ isUFrame (control ||| pBit) = isUFrame control := by
  revert control
  decide +kernel

/-- An I-frame takes the number of the moment. -/
theorem nrOf_refresh (control : Byte) (nr : Seq) :
    nrOf (control &&& 0x0F ||| nr.setWidth 8 <<< 5) = nr := by
  revert control nr
  decide +kernel

/-- P/F is set in a slot. -/
theorem sameAcks_poll (q : Queue 4) (i : Fin 4) :
    SameAcks q (q.setFrame i { q.frames i with control := (q.frames i).control ||| pBit }) := by
  obtain ⟨before, after, ho, hb, ha⟩ := q.order_split i
  obtain ⟨hnr, hu⟩ := numbered_poll (q.frames i).control
  have hold := Queue.slots_eq ho
  have hnew := Queue.slots_setFrame ho hb ha
    { q.frames i with control := (q.frames i).control ||| pBit }
  have hsame : Slot.Acks { q.frames i with control := (q.frames i).control ||| pBit } ↔
      (q.frames i).Acks := by
    unfold Slot.Acks
    dsimp only
    rw [hu]
  constructor
  · intro hord
    rw [hold] at hord
    rw [hnew]
    exact hord.replace rfl hsame.mp
  · intro _ address
    rw [hold, hnew, waitingAcks_append, waitingAcks_append]
    by_cases hw : (q.frames i).Acks ∧ sameStation address (q.frames i).address = true
    · rw [waitingAcks_cons_of (hsame.mpr hw.1) hw.2, waitingAcks_cons_of hw.1 hw.2]
      exact congrArg (fun nr => _ ++ nr :: _) hnr
    · rw [waitingAcks_cons_not hw, waitingAcks_cons_not fun hk => hw ⟨hsame.mp hk.1, hk.2⟩]

/-- The first S- or U-frame that waits for the peer carries the first number, if it does. -/
theorem waiting_first {i : Fin 4} (hi : firstService h p = some i)
    (hn : isUFrame (h.sQueue.frames i).control = false) :
    ∃ rest, waitingAcks (peerToAddressField h p) h.sQueue.slots =
      nrOf (h.sQueue.frames i).control :: rest := by
  obtain ⟨before, after, ho, -, -, hmiss⟩ := Queue.getNext_split hi
  obtain ⟨htype, hsame⟩ := Slot.fits_sFrame_uFrame.mp (Queue.getNext_some hi)
  have hnone : waitingAcks (peerToAddressField h p) (before.map h.sQueue.frames) = [] := by
    refine waitingAcks_eq_nil fun s hs hk => ?_
    obtain ⟨j, hj, rfl⟩ := List.mem_map.mp hs
    exact Bool.noConfusion ((hmiss j hj).symm.trans (Slot.fits_sFrame_uFrame.mpr ⟨hk.1.1, hk.2⟩))
  refine ⟨waitingAcks (peerToAddressField h p) (after.map h.sQueue.frames), ?_⟩
  rw [Queue.slots_eq ho, waitingAcks_append, hnone, List.nil_append,
    waitingAcks_cons_of ⟨htype, hn⟩ hsame]

/-- Where no S- or U-frame waits, no number does. -/
theorem waiting_none (hn : firstService h p = none) :
    waitingAcks (peerToAddressField h p) h.sQueue.slots = [] := by
  refine waitingAcks_eq_nil fun s hs hk => ?_
  obtain ⟨i, -, rfl⟩ := List.mem_map.mp hs
  obtain ⟨j, hj⟩ := Queue.getNext_isSome (i := i) (Slot.fits_sFrame_uFrame.mpr ⟨hk.1.1, hk.2⟩)
  unfold firstService at hn
  rw [hn] at hj
  cases hj

/-- The frame is finished and logged. -/
theorem AllAcking.finish (hi : AllAcking h) {r : SlotRef W}
    (hleave : isUFrame (h.slot r).control = false →
      (∃ rest, waitingAcks (peerToAddressField h p) h.sQueue.slots =
        nrOf (h.slot r).control :: rest) ∨
      waitingAcks (peerToAddressField h p) h.sQueue.slots = [] ∧
        nrOf (h.slot r).control = (h.control p).nextNr) : AllAcking (finishFrame h p r) := by
  obtain ⟨k, hk⟩ : ∃ k, k = if getsPoll h p (h.slot r).control then
      h.setSlot r fun s => { s with control := s.control ||| pBit } else h := ⟨_, rfl⟩
  have hmark : Apart h k ∧ k.control p = h.control p ∧
      nrOf (k.slot r).control = nrOf (h.slot r).control ∧
      isUFrame (k.slot r).control = isUFrame (h.slot r).control := by
    rw [hk]
    split
    · obtain ⟨hnr, hu⟩ := numbered_poll (h.slot r).control
      rw [slot_setSlot_self]
      refine ⟨?_, ?_, hnr, hu⟩
      · cases r with
        | iSlot i => exact .of_eq rfl rfl rfl rfl
        | sSlot i =>
          exact ⟨rfl, ⟨[], (List.append_nil _).symm, nofun⟩, fun _ => rfl, fun _ hl => ⟨hl, rfl⟩,
            sameAcks_poll h.sQueue i⟩
      · cases r <;> rfl
    · exact ⟨.refl h, rfl, rfl, rfl⟩
  obtain ⟨hapart, hcontrol, hnr, hu⟩ := hmark
  have hmarker : Apart k { k with lastMarkerTs := k.millis } := .of_eq rfl rfl rfl rfl
  have hstamp : Apart k ({ k with lastMarkerTs := k.millis }.setPeer p fun x =>
      { x with lastSentFrameTs := k.millis }) :=
    hmarker.trans (.setPeer _ p rfl fun hl => ⟨hl, rfl⟩)
  have hall := (hi.apart hapart).apart hstamp
  have hnext : (({ k with lastMarkerTs := k.millis }.setPeer p fun x =>
      { x with lastSentFrameTs := k.millis }).control p).nextNr = (h.control p).nextNr := by
    rw [← hcontrol]
    unfold Handle.control
    rw [setPeer_self]
  have hlog : finishFrame h p r = ({ k with lastMarkerTs := k.millis }.setPeer p fun x =>
      { x with lastSentFrameTs := k.millis }).emit (.frameOut p (k.slot r).bytes) := by
    unfold finishFrame
    rw [← hk]
    cases r <;> rfl
  rw [hlog]
  refine hall.sends fun address control payload he hnum => ?_
  obtain rfl : (k.slot r).control = control := (List.cons.inj (List.cons.inj he).2).1
  have hleave := hleave (hu ▸ hnum)
  rw [hnext, hstamp.field p, hapart.field p, hstamp.queue.waiting (hapart.queue.queue hi.queue),
    hapart.queue.waiting hi.queue, hnr]
  exact hleave

theorem getNextSUFrame_apart (h : Handle W N) (p : Fin N) :
    Apart h (getNextSUFrame h p).1 := by
  unfold getNextSUFrame
  split
  · exact .refl h
  · dsimp only
    split
    · exact .setPeer h p rfl fun hl => ⟨hl, rfl⟩
    · exact .refl h

theorem refreshIFrame_apart (h : Handle W N) (p : Fin N) (i : Fin W) :
    Apart h (refreshIFrame h p i) ∧ (refreshIFrame h p i).control p = h.control p ∧
      nrOf ((refreshIFrame h p i).slot (.iSlot i)).control = (h.control p).nextNr := by
  unfold refreshIFrame
  dsimp only
  generalize hk : (h.setSlot (.iSlot i) fun s =>
    { s with control := s.control &&& 0x0F ||| (h.control p).nextNr.setWidth 8 <<< 5 }) = k
  have hset : Apart h k := by
    rw [← hk]
    exact .of_eq rfl rfl rfl rfl
  refine ⟨hset.trans (.setPeer k p rfl fun hl => ⟨hl, rfl⟩), ?_, ?_⟩
  · unfold Handle.control
    rw [setPeer_self, ← hk]
    rfl
  · have hslot : (k.slot (.iSlot i)).control =
        (h.slot (.iSlot i)).control &&& 0x0F ||| (h.control p).nextNr.setWidth 8 <<< 5 := by
      rw [← hk, slot_setSlot_self]
    exact (congrArg nrOf hslot).trans (nrOf_refresh _ _)

/-- The I-frame that is found carries the number of the moment. -/
theorem getNextIFrame_apart (h : Handle W N) (p : Fin N) :
    Apart h (getNextIFrame h p).1 ∧ ∀ i, (getNextIFrame h p).2 = some i →
      nrOf ((getNextIFrame h p).1.slot (.iSlot i)).control =
        ((getNextIFrame h p).1.control p).nextNr := by
  unfold getNextIFrame
  dsimp only
  split
  · exact ⟨.refl h, nofun⟩
  · split
    · next ns _ =>
      have hmask : Apart h (h.setPeer p fun x =>
          { x with srejReqMask := x.srejReqMask &&& ~~~(1#8 <<< ns.val) }) :=
        .setPeer h p rfl fun hl => ⟨hl, rfl⟩
      generalize (h.setPeer p fun x =>
          { x with srejReqMask := x.srejReqMask &&& ~~~(1#8 <<< ns.val) }) = k at hmask
      split
      · next i _ =>
        obtain ⟨hapart, hcontrol, hnr⟩ := refreshIFrame_apart k p i
        refine ⟨hmask.trans hapart, fun j hj => ?_⟩
        obtain rfl := Option.some.inj hj
        rw [hcontrol]
        exact hnr
      · exact ⟨hmask, nofun⟩
    · split
      · next i _ =>
        obtain ⟨hapart, hcontrol, hnr⟩ := refreshIFrame_apart h p i
        generalize refreshIFrame h p i = k at hapart hcontrol hnr
        have hnext : Apart k (k.setControl p fun c => { c with nextNs := c.nextNs + 1 }) :=
          .setPeer k p rfl fun hl => ⟨hl, rfl⟩
        refine ⟨hapart.trans hnext, fun j hj => ?_⟩
        obtain rfl := Option.some.inj hj
        have hkeep : ((k.setControl p fun c => { c with nextNs := c.nextNs + 1 }).control p).nextNr =
            (k.control p).nextNr := by
          unfold Handle.setControl Handle.control
          rw [setPeer_self]
        rw [hkeep, hcontrol]
        exact hnr
      · exact ⟨.refl h, nofun⟩

theorem AllAcking.putIdle (hi : AllAcking h) (hp : Live h p) : AllAcking (putIdleFrame h p) := by
  unfold putIdleFrame
  split
  · exact hi.apart (.putUSFrame h QueueType.noConfusion _ (isUFrame_uControl .snrm) _)
  · exact hi.putSFrame hp .rr (.inl rfl) (.inl rfl)

/-- An S- or U-frame is chosen. -/
theorem AllAcking.service (hi : AllAcking h) {i : Fin 4} (hfirst : firstService h p = some i) :
    AllAcking (finishFrame (getNextSUFrame h p).1 p (.sSlot i)) := by
  have hq := getNextSUFrame_sQueue h p
  have hapart := getNextSUFrame_apart h p
  generalize (getNextSUFrame h p).1 = k at hq hapart
  refine (hi.apart hapart).finish fun hnum => .inl ?_
  refine waiting_first ?_ hnum
  unfold firstService
  rw [hapart.field p, hq]
  exact hfirst

theorem Chosen.allAcking {found : Handle W N × Option (SlotRef W)} (hc : Chosen h p found)
    (hi : AllAcking h) (hp : Live h p) : AllAcking found.1 := by
  have hmiss : ∀ {k found}, getNextIFrame h p = (k, found) → Apart h k := by
    intro k found hk
    have hapart := (getNextIFrame_apart h p).1
    rw [hk] at hapart
    exact hapart
  cases hc with
  | service hs => exact hi.service hs
  | @iFrame k i hs hk =>
    have hapart := hmiss hk
    refine (hi.apart hapart).finish fun _ => .inr ⟨?_, ?_⟩
    · rw [hapart.field p, hapart.queue.waiting hi.queue]
      exact waiting_none hs
    · have hnr := (getNextIFrame_apart h p).2 i
      rw [hk] at hnr
      exact hnr rfl
  | @idle k m i _ hk _ hg =>
    have hidle := (hi.apart (hmiss hk)).putIdle ((hmiss hk).live hp)
    have hfin := hidle.service (getNextSUFrame_first hg)
    rw [hg] at hfin
    exact hfin
  | noRoom _ hk => exact (hi.apart (hmiss hk)).putIdle ((hmiss hk).live hp)
  | nothing _ hk => exact hi.apart (hmiss hk)

theorem AllAcking.attempt (hi : AllAcking h) (hp : Live h p) : AllAcking (tryToSend h p).handle := by
  have hclear : Apart h (h.setEvents fun e => { e with txDataAvailable := false }) :=
    .of_eq rfl rfl rfl rfl
  have ht := tryToSend_attempted h p
  generalize (tryToSend h p).handle = k at ht
  cases ht with
  | started _ hc =>
    exact (hc.allAcking (hi.apart hclear) (hclear.live hp)).apart (.of_eq rfl rfl rfl rfl)
  | empty _ _ hc => exact hc.allAcking (hi.apart hclear) (hclear.live hp)
  | rested => exact hi
  | returned =>
    have hback : Apart h (h.setEvents fun e => { e with hasMarker := true }) :=
      .of_eq rfl rfl rfl rfl
    exact (hi.apart hback).apart (.emit _ trivial)

/-! ## Runs -/

/-- No S-frame is passed over when the slot is freed. -/
def PassesNone (h : Handle W N) (i : Fin 4) : Prop :=
  ∀ j ∈ h.sQueue.order.takeWhile (· ≠ i), ¬(h.sQueue.frames j).Acks

/-- The operation is none of the three exceptions. -/
def AcksKept (h : Handle W N) : Op W N → Prop
  | .frame data => ∀ m ∈ sender h data, KeepsAcks h m.1 m.2
  | .run _ => ∀ i, h.hdlc.tx.originData = some (.sSlot i) → PassesNone h i
  | _ => True

instance noStale_decidable : Decidable (NoStale h p) :=
  inferInstanceAs (Decidable (∀ nr ∈ waitingAcks _ _, nr = 0))

instance keepsAcks_decidable (control : Byte) : Decidable (KeepsAcks h p control) :=
  decidable_of_iff ((Opens h p control → NoStale h p) ∧
      (Resets h p control → Linked h p → (h.control p).nextNr = 0))
    ⟨fun hk => ⟨hk.1, hk.2⟩, fun hk => ⟨hk.opened, hk.reset⟩⟩

instance passesNone_decidable (i : Fin 4) : Decidable (PassesNone h i) :=
  inferInstanceAs (Decidable (∀ j ∈ h.sQueue.order.takeWhile _, ¬Slot.Acks _))

instance acksKept_decidable (h : Handle W N) : (o : Op W N) → Decidable (AcksKept h o)
  | .frame data => inferInstanceAs (Decidable (∀ m ∈ sender h data, KeepsAcks h m.1 m.2))
  | .run _ =>
    inferInstanceAs (Decidable (∀ i, h.hdlc.tx.originData = some (.sSlot i) → PassesNone h i))
  | .check _ | .attempt _ | .lowLevel _ | .sendPacketTo _ _ | .sendUiPacketTo _ _ | .disconnect
  | .registerPeer _ | .setKaTimeout _ | .tick _ =>
    isTrue trivial

theorem heardFrom_apart (h : Handle W N) (p : Fin N) (data : List Byte) :
    Apart h (heardFrom h p data) := by
  have hlog : Apart h (h.emit (.frameIn data)) := .emit h trivial
  have hnote : Apart (h.emit (.frameIn data)) (noteReceived (h.emit (.frameIn data)) p) :=
    .setPeer _ p rfl fun hl => ⟨hl, rfl⟩
  exact hlog.trans hnote

/-- What the handle notes before it looks at a frame does not matter. -/
theorem KeepsAcks.heardFrom {control : Byte} (hg : KeepsAcks h p control) (data : List Byte) :
    KeepsAcks (heardFrom h p data) p control := by
  have hpeer := heardFrom_peer h p data
  have hqueue : (Fd.heardFrom h p data).sQueue = h.sQueue := rfl
  constructor
  · unfold Opens NoStale peerToAddressField
    rw [hpeer, hqueue]
    exact hg.opened
  · unfold Resets Linked Handle.control
    rw [hpeer]
    exact hg.reset

theorem AllAcking.frame (hi : AllAcking h) (hw : Addressed h) {data : List Byte}
    (hg : AcksKept h (.frame data)) : AllAcking (onFrameRead h data) := by
  have hr := onFrameRead_read h data
  generalize onFrameRead h data = k at hr
  cases hr with
  | unknown _ hk =>
    rcases hk with rfl | rfl
    · exact hi
    · exact hi.apart (.emit h trivial)
  | @handled p control k hs hk =>
    obtain ⟨b, hb⟩ := captureMarker_form k control
    have hnote := heardFrom_apart h p data
    have hdone := hk.allAcking (hi.apart hnote) (hnote.live (hw.live_sender hs))
      ((hg _ hs).heardFrom data)
    rw [hb]
    exact hdone.apart (.of_eq rfl rfl rfl rfl)

/-- A peer gets its address before anything is sent to it. -/
theorem AllAcking.register (hi : AllAcking h) (hinv : (h.peers p).addr = invalidAddr)
    (hlog : h₁.log = h.log) (hq : h₁.sQueue = h.sQueue)
    (hother : ∀ r, r ≠ p → h₁.peers r = h.peers r) (hlive : ∀ r, Live h r → Live h₁ r) :
    AllAcking h₁ := by
  refine ⟨hq ▸ hi.queue, fun r => ?_⟩
  obtain ⟨hlinked, last, count, hc, hpend⟩ := hi.peer r
  have hne : isOpen r h.log = true → r ≠ p := by
    rintro ho rfl
    have hbits := (hlinked ho).1.2
    rw [hinv] at hbits
    exact invalidAddr_bits hbits
  refine ⟨fun ho => ?_, last, count, hlog ▸ hc, fun ho => ?_⟩
  · obtain ⟨hp, hl⟩ := hlinked (hlog ▸ ho)
    refine ⟨hlive r hp, ?_⟩
    unfold Linked at hl ⊢
    rw [hother r (hne (hlog ▸ ho))]
    exact hl
  · obtain ⟨counts, hpn⟩ := hpend (hlog ▸ ho)
    have hpeer := hother r (hne (hlog ▸ ho))
    refine ⟨counts, ?_, ?_, hlog ▸ hpn.rising⟩
    · unfold Handle.control
      rw [hpeer, hlog]
      exact hpn.nextNr
    · unfold peerToAddressField
      rw [hpeer, hq]
      exact hpn.waiting

theorem AllAcking.operate {o : Op W N} (hord : Ordered h) (hd : Due h o) (hg : AcksKept h o)
    (hi : AllAcking h) : AllAcking (operate h o) := by
  cases o with
  | frame data => exact hi.frame hord.addressed hg
  | check p => exact (checkIdleTimeout_checked h p).allAcking hi hd.1
  | attempt p => exact hi.attempt hd.1
  | run len =>
    obtain ⟨ll, q, next, marker, sending, he, hq, -⟩ := runTx_form hord.inStep len
    show AllAcking (runTx h len).1
    rw [he]
    rcases hq with hq | ⟨i, hod, hq⟩
    · exact hi.apart (.of_eq rfl rfl rfl hq)
    · exact hi.freed (hg i hod) rfl rfl rfl hq
  | lowLevel hdlc => exact hi.apart (.of_eq rfl rfl rfl rfl)
  | sendPacketTo address data =>
    show AllAcking (sendPacketTo h address data).1
    rcases sendPacketTo_sent h address data with he | ⟨p, -, hs⟩
    · rw [he]
      exact hi
    · exact hi.apart hs.apart
  | sendUiPacketTo address data =>
    show AllAcking (sendUiPacketTo h address data).1
    rcases sendUiPacketTo_cases h address data with he | ⟨p, -, he⟩
    · rw [he]
      exact hi
    · rw [he]
      exact hi.apart (.putUSFrame h QueueType.noConfusion _ (isUFrame_uControl .ui) _)
  | disconnect =>
    show AllAcking (Fd.disconnect h).1
    rcases disconnect_cases h with he | ⟨-, he⟩
    · rw [he]
      exact hi
    · rw [he]
      exact (hi.apart (.putUFrame h 0 crBit .disc)).apart
        (.setPeer _ 0 rfl fun _ => ⟨.inr rfl, rfl⟩)
  | registerPeer address =>
    have hlive : ∀ r, Live h r → Live (registerPeer h address).1 r := fun r hr =>
      run_live (registerPeer_run (G := AnyAct) (fun _ _ _ => trivial) address) hord.addressed hr
    show AllAcking (registerPeer h address).1
    rcases registerPeer_cases h address with he | ⟨p, a, ts, hinv, -, -, he⟩
    · rw [he]
      exact hi
    · rw [he] at hlive ⊢
      exact hi.register hinv rfl rfl (fun r hr => setPeer_ne h hr _) hlive
  | setKaTimeout keepAlive => exact hi.apart (.of_eq rfl rfl rfl rfl)
  | tick ms => exact hi.apart (.of_eq rfl rfl rfl rfl)

theorem initHandle_allAcking (init : InitParams) (hdlc : HdlcLl (SlotRef W)) (millis : BitVec 32) :
    AllAcking (initHandle W N init hdlc millis) := by
  have hnone : ∀ s ∈ (initHandle W N init hdlc millis).sQueue.slots, ¬s.Acks := by
    intro s hs
    obtain ⟨i, -, rfl⟩ := List.mem_map.mp hs
    exact not_acks_of_free rfl
  refine ⟨List.pairwise_of_forall_mem_list fun _ _ t ht _ => hnone t ht, fun p => ?_⟩
  refine ⟨nofun, 0, fun _ => 0, ⟨⟨fun i _ ha => ?_, fun i _ ha => ?_, fun i _ _ _ _ ha => ?_⟩,
    fun i _ ha => ?_⟩, nofun⟩
  all_goals exact absurd ha.lt (Nat.not_lt_zero i)

/-- A connected peer is one whose connection was notified. -/
def ConnectedOpen (h : Handle W N) : Prop :=
  ∀ p, (h.peers p).state = .connected → isOpen p h.log = true

theorem ConnectedOpen.step {a : Act N} (hc : ConnectedOpen h) (hs : Step h a h₁) :
    ConnectedOpen h₁ := by
  obtain ⟨es, hlog, hes⟩ := hs.log
  intro p hst
  rw [hlog, isOpen_append h.log hes p]
  by_cases hsw : a.Switching p
  · cases a with
    | connect q =>
      have hn : (Act.connect q).notices p = [true] := if_pos hsw
      rw [hn]
      rfl
    | disconnect q =>
      obtain rfl : q = p := hsw
      cases hs with
      | disconnect => exact absurd ((disconnected_state h q).symm.trans hst) PeerState.noConfusion
    | request q =>
      obtain rfl : q = p := hsw
      cases hs with
      | request =>
        rw [setPeer_self] at hst
        exact PeerState.noConfusion hst
    | hangUp q =>
      obtain rfl : q = p := hsw
      cases hs with
      | hangUp =>
        rw [setPeer_self] at hst
        exact PeerState.noConfusion hst
    | _ => exact absurd hsw id
  · rw [Act.notices_of_not_switching hsw]
    rcases hs.state p with hsame | hsw'
    · exact hc p (hsame ▸ hst)
    · exact absurd hsw' hsw

theorem ConnectedOpen.operate {o : Op W N} (hc : ConnectedOpen h) (hord : Ordered h)
    (hd : Due h o) : ConnectedOpen (operate h o) :=
  (operate_run hord hd).preserves (P := ConnectedOpen) (fun _ _ _ hk _ hs => hk.step hs) hc

/-- In a run without the three exceptions the numbers that are sent to a peer are counts of the
I-frames accepted from it in the connection, and do not fall within a connection.  The
connection is open in the history whenever the peer is connected. -/
theorem acks_sound {past : History W N} (hl : Lives AcksKept h past) (p : Fin N) :
    (∀ k, Visits past h k → (k.peers p).state = .connected → isOpen p k.log = true) ∧
      ∃ count, AcksSound p h.log count := by
  have hopen := hl.invariant (P := ConnectedOpen) (fun _ _ _ _ _ _ => nofun)
    fun _ _ hord hd _ hc => hc.operate hord hd
  have hall := hl.invariant (P := AllAcking)
    (fun init hdlc millis _ _ => initHandle_allAcking init hdlc millis)
    (fun _ _ hord hd hg hi => hi.operate hord hd hg) h (.inl rfl)
  obtain ⟨last, count, hc, -⟩ := (hall.peer p).counted
  exact ⟨fun k hk => hopen k hk p, count, hc.sound⟩

/-- A frame is received and acknowledged. -/
def receiveOne : List Call :=
  [.onFrameRead [0x03, 0x2F], .getTxData 16, .onFrameRead [0x03, 0x00, 0xAA], .getTxData 16]

theorem acks_sound_receiveOne :
    ∃ count, AcksSound 0 (receiveOne.foldl call (smallHandle 2 1 .abm)).log count :=
  (acks_sound (smallHandle_lives (by decide) (by decide) (by decide +kernel)) 0).2

/-- The peer connects anew while the acknowledgement waits. -/
def reconnectUnsent : List Call :=
  [.onFrameRead [0x03, 0x2F], .getTxData 16, .onFrameRead [0x03, 0x00, 0xAA],
    .onFrameRead [0x03, 0x2F], .getTxData 16]

/-- It is sent in the new connection, in which nothing was received. -/
theorem stale_ack : ∃ h : Handle 2 1, Reachable AnyFrame h ∧ h.settings.mode = .abm ∧
    (h.peers 0).state = .connected ∧ ∀ count, ¬AcksSound 0 h.log count := by
  refine ⟨reconnectUnsent.foldl call (smallHandle 2 1 .abm),
    (smallHandle_reachable _ .abm (by decide) (by decide)).calls (callsOk_any _ _),
    by decide +kernel, by decide +kernel, fun count hs => ?_⟩
  have hann : Announces 0 (reconnectUnsent.foldl call (smallHandle 2 1 .abm) : Handle 2 1).log 8
      0x21 :=
    ⟨⟨0x01, [], by decide +kernel⟩, by decide, by decide +kernel⟩
  have hnone : acceptedSince 0
      ((reconnectUnsent.foldl call (smallHandle 2 1 .abm) : Handle 2 1).log.take 8) = 0 := by
    decide +kernel
  have hle := hs.accepted 8 0x21 hann
  rw [hnone, Nat.le_zero] at hle
  have hnr := hs.number 8 0x21 hann
  rw [hle] at hnr
  exact absurd hnr (by decide)

end TinyProto.Fd
