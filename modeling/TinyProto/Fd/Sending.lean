import TinyProto.Fd.Work
import TinyProto.Hdlc.Units

/-!
# The frame on its way

`FD_EVENT_TX_SENDING` and the low level transmitter are two indicators of one thing, and
they agree after every call (`InStep`).  So what `tiny_fd_get_tx_data` writes, over any
sequence of calls, is a sequence of whole frames (`whole_frames`).
-/

set_option linter.unusedSectionVars false

namespace TinyProto.Fd

open Hdlc Runs

variable {W N : Nat} [NeZero W] [NeZero N] {h h₁ h₂ : Handle W N} {p q : Fin N}

/-! ## Addresses of slots -/

/-- The slots in use carry an address field that is not extended. -/
def Stamped (h : Handle W N) : Prop :=
  ∀ r, (h.slot r).type ≠ .free → (h.slot r).address &&& eBit ≠ 0

/-- A frame with this address field is for one of the peers. -/
def Resolves (h : Handle W N) (a : Byte) : Prop := addressFieldToPeer h a ≠ none

theorem eBit_of_bits {a : Byte} (ha : a = invalidAddr ∨ a &&& 0x03 = 0x01) :
    ∀ cr, cr = 0 ∨ cr = crBit → (a &&& ~~~crBit ||| cr) &&& eBit ≠ 0 := by
  revert a
  decide +kernel

/-- The address of a peer is an address field, or the mark of one not registered. -/
theorem Addressed.addr_bits (hw : Addressed h) (p : Fin N) :
    (h.peers p).addr = invalidAddr ∨ (h.peers p).addr &&& 0x03 = 0x01 := by
  by_cases hm : Multi h
  · by_cases ha : (h.peers p).addr = invalidAddr
    · exact .inl ha
    · exact .inr (hw.multi hm p ha)
  · right
    rw [(hw.single hm).1]
    exact hw.station

theorem Addressed.field_bits (hw : Addressed h) (p : Fin N) {cr : Byte} (hcr : cr = 0 ∨ cr = crBit) :
    (peerToAddressField h p ||| cr) &&& eBit ≠ 0 :=
  eBit_of_bits (hw.addr_bits p) cr hcr

theorem eBit_clear (a : Byte) : a &&& ~~~crBit &&& eBit = a &&& eBit := by
  revert a
  decide +kernel

theorem clear_clear (a : Byte) : a &&& ~~~crBit &&& ~~~crBit = a &&& ~~~crBit := by
  revert a
  decide +kernel

theorem eBit_of_live (hp : Live h p) : (h.peers p).addr &&& eBit ≠ 0 := by
  have bits : ∀ a : Byte, a &&& 0x03 = 0x01 → a &&& eBit ≠ 0 := by
    decide +kernel
  exact bits _ hp.2

/-- An address field of the same station as a live peer is that peer's, up to C/R. -/
theorem Live.found (hp : Live h p) {a : Byte} (he : a &&& eBit ≠ 0)
    (hs : sameStation (peerToAddressField h p) a) : addressFieldToPeer h a = some p := by
  have hbits := clear_cr_of_eBit (a := a) (by rwa [eBit_clear])
  have haddr : (h.peers p).addr = a &&& ~~~crBit := by
    refine TinyProto.Fd.eq_of_sameStation hp.2 hbits ?_
    unfold peerToAddressField at hs
    rw [sameStation_clear] at hs
    rw [sameStation_comm, sameStation_clear, sameStation_comm]
    exact hs
  have hfound := hp.1
  rw [haddr, addressFieldToPeer_eq, clear_clear] at hfound
  rw [addressFieldToPeer_eq]
  exact hfound

/-! ## The invariant -/

/-- The two indicators agree, and the frame on its way is one of a peer. -/
structure InStep (h : Handle W N) : Prop where
  crc : h.hdlc.crcType.value % 8 = 0
  sound : h.hdlc.tx.Sound h.hdlc.crcType
  busy : h.events.txSending = h.hdlc.tx.originData.isSome
  resolves : ∀ r, h.hdlc.tx.originData = some r → Resolves h (h.slot r).address
  /-- The slot of an S- or U-frame is kept until the frame is sent. -/
  taken : ∀ i, h.hdlc.tx.originData = some (.sSlot i) → (h.sQueue.frames i).type ≠ .free
  next : h.hdlc.tx.originData ≠ none → (h.peers h.nextPeer).addr ≠ invalidAddr
  stamped : Stamped h

/-- The same addresses belong to peers as before. -/
theorem Resolves.congr (hset : h₁.settings = h.settings)
    (haddr : ∀ q, (h₁.peers q).addr = (h.peers q).addr) {a : Byte} (hr : Resolves h a) :
    Resolves h₁ a := by
  unfold Resolves at hr ⊢
  rw [addressFieldToPeer_eq] at hr ⊢
  simp only [haddr, hset, Multi.congr hset]
  exact hr

theorem Stamped.works (hst : Stamped h) (hw : Addressed h) (hworks : WorksFor p h h₁) :
    Stamped h₁ := by
  intro r hfull
  cases r with
  | iSlot i =>
    rcases hworks.iQueue i with hsame | ⟨-, hfree⟩
    · have hslot : h₁.slot (.iSlot i) = h.slot (.iSlot i) := hsame
      rw [hslot] at hfull ⊢
      exact hst _ hfull
    · exact absurd (congrArg Slot.type hfree) hfull
  | sSlot i =>
    rcases hworks.sQueue i with hsame | ⟨-, -, cr, hcr, haddr⟩
    · have hslot : h₁.slot (.sSlot i) = h.slot (.sSlot i) := hsame
      rw [hslot] at hfull ⊢
      exact hst _ hfull
    · have hslot : (h₁.slot (.sSlot i)).address = peerToAddressField h p ||| cr := haddr
      rw [hslot]
      exact hw.field_bits p hcr

/-- Work for a peer keeps the frame on its way. -/
theorem InStep.works (hi : InStep h) (hw : Addressed h) (hworks : WorksFor p h h₁) :
    InStep h₁ where
  crc := by rw [hworks.hdlc]; exact hi.crc
  sound := by rw [hworks.hdlc]; exact hi.sound
  busy := by rw [hworks.hdlc, hworks.txSending]; exact hi.busy
  resolves r hr := by
    rw [hworks.hdlc] at hr
    have haddr : (h₁.slot r).address = (h.slot r).address := by
      cases r with
      | iSlot i =>
        rcases hworks.iQueue i with hsame | ⟨-, hfree⟩
        · exact congrArg Slot.address hsame
        · have hslot : h₁.slot (.iSlot i) = { h.iQueue.frames i with type := .free } := hfree
          rw [hslot]
          rfl
      | sSlot i =>
        rcases hworks.sQueue i with hsame | ⟨hfree, -⟩
        · exact congrArg Slot.address hsame
        · exact absurd hfree (hi.taken i hr)
    rw [haddr]
    exact (hi.resolves r hr).congr hworks.settings hworks.addr_eq
  taken i hr := by
    rw [hworks.hdlc] at hr
    rcases hworks.sQueue i with hsame | ⟨hfree, -⟩
    · rw [hsame]
      exact hi.taken i hr
    · exact absurd hfree (hi.taken i hr)
  next hr := by
    rw [hworks.hdlc] at hr
    rw [hworks.nextPeer, hworks.addr_eq]
    exact hi.next hr
  stamped := hi.stamped.works hw hworks

/-- So does accepting a payload.  It may take the slot of the frame on its way, if that is
free again. -/
theorem InStep.stores (hi : InStep h) (hp : Live h p) (hs : Stores p h h₁) :
    InStep h₁ := by
  have hfield : peerToAddressField h p &&& eBit ≠ 0 := by
    unfold peerToAddressField
    rw [eBit_clear]
    exact eBit_of_live hp
  -- A slot is what it was, or the new one.
  have hslot : ∀ r, h₁.slot r = h.slot r ∨ (h₁.slot r).address = peerToAddressField h p := by
    intro r
    cases r with
    | sSlot i => exact .inl (congrArg (fun q : Queue 4 => q.frames i) hs.sQueue)
    | iSlot i =>
      rcases hs.iQueue with hsame | ⟨j, data, -, hset⟩
      · exact .inl (congrArg (fun q : Queue W => q.frames i) hsame)
      · have hget : h₁.slot (.iSlot i) = (h.iQueue.setFrame j (newIFrame h p data)).frames i :=
          congrArg (fun q : Queue W => q.frames i) hset
        rw [hget]
        by_cases hij : i = j
        · rw [hij, Queue.setFrame_self]
          exact .inr rfl
        · exact .inl (Queue.setFrame_ne _ hij _)
  refine ⟨?_, ?_, ?_, fun r hr => ?_, fun i hr => ?_, fun hr => ?_, fun r hfull => ?_⟩
  · rw [hs.hdlc]
    exact hi.crc
  · rw [hs.hdlc]
    exact hi.sound
  · rw [hs.hdlc, hs.txSending]
    exact hi.busy
  · rw [hs.hdlc] at hr
    refine Resolves.congr hs.settings hs.addr_eq ?_
    rcases hslot r with hsame | haddr
    · rw [hsame]
      exact hi.resolves r hr
    · rw [haddr]
      unfold Resolves
      rw [hp.found hfield (sameStation_self _)]
      nofun
  · rw [hs.hdlc] at hr
    rw [hs.sQueue]
    exact hi.taken i hr
  · rw [hs.hdlc] at hr
    rw [hs.nextPeer, hs.addr_eq]
    exact hi.next hr
  · rcases hslot r with hsame | haddr
    · rw [hsame] at hfull ⊢
      exact hi.stamped r hfull
    · rw [haddr]
      exact hfield

/-- Only events, the clock and the history change. -/
theorem InStep.congr (hi : InStep h) (hset : h₁.settings = h.settings)
    (htx : h₁.hdlc.tx = h.hdlc.tx) (hcrc : h₁.hdlc.crcType = h.hdlc.crcType)
    (hev : h₁.events.txSending = h.events.txSending) (hslot : ∀ r, h₁.slot r = h.slot r)
    (hnext : h₁.nextPeer = h.nextPeer) (haddr : ∀ q, (h₁.peers q).addr = (h.peers q).addr) :
    InStep h₁ where
  crc := by rw [hcrc]; exact hi.crc
  sound := by rw [hcrc, htx]; exact hi.sound
  busy := by rw [hev, htx]; exact hi.busy
  resolves r hr := by
    rw [htx] at hr
    rw [hslot]
    exact (hi.resolves r hr).congr hset haddr
  taken i hr := by
    rw [htx] at hr
    have hsame : h₁.sQueue.frames i = h.sQueue.frames i := hslot (.sSlot i)
    rw [hsame]
    exact hi.taken i hr
  next hr := by
    rw [htx] at hr
    rw [hnext, haddr]
    exact hi.next hr
  stamped r hfull := by
    rw [hslot] at hfull ⊢
    exact hi.stamped r hfull

/-- A new peer changes nothing for the others. -/
theorem Resolves.register {a : Byte} (hp : (h.peers p).addr = invalidAddr)
    (hset : h₁.settings = h.settings) (hother : ∀ q, q ≠ p → (h₁.peers q).addr = (h.peers q).addr)
    (hr : Resolves h a) : Resolves h₁ a := by
  have hclear : ∀ a : Byte, a &&& ~~~crBit ≠ invalidAddr := by
    decide +kernel
  unfold Resolves at hr ⊢
  rw [addressFieldToPeer_eq] at hr ⊢
  simp only [Multi.congr hset, hset]
  split
  · next he =>
    rw [if_pos he] at hr
    exact hr
  · next he =>
    rw [if_neg he] at hr
    split
    · next hm =>
      rw [if_pos hm] at hr
      exact hr
    · next hm =>
      rw [if_neg hm] at hr
      obtain ⟨q, hq⟩ := Option.ne_none_iff_exists'.mp hr
      have haddr := List.find?_some hq
      rw [decide_eq_true_eq] at haddr
      -- The peer that was found was registered before.
      have hqp : q ≠ p := by
        rintro rfl
        exact hclear a (haddr.symm.trans hp)
      intro hnone
      have hmiss := List.find?_eq_none.mp hnone q (List.mem_finRange q)
      rw [hother q hqp, haddr] at hmiss
      exact hmiss (decide_eq_true rfl)

theorem InStep.around (hi : InStep h) (hw : Addressed h) {A : Handle W N → Prop}
    (ha : Around A h h₁) : InStep h₁ := by
  cases ha with
  | same settings hdlc txSending iQueue sQueue nextPeer peers =>
    obtain ⟨rx, buf, hll⟩ := hdlc
    refine hi.congr settings (by rw [hll]) (by rw [hll]) txSending (fun r => ?_) nextPeer
      fun q => by rw [peers]
    cases r with
    | iSlot i => exact congrArg (fun q : Queue W => q.frames i) iQueue
    | sSlot i => exact congrArg (fun q : Queue 4 => q.frames i) sQueue
  | works hworks => exact hi.works hw hworks
  | stores hp _ hs => exact hi.stores hp hs
  | @register p a ts hp ha hnew hr =>
    have hother : ∀ q, q ≠ p → (h₁.peers q).addr = (h.peers q).addr := by
      intro q hq
      rw [hr, setPeer_ne h hq]
    have hslot : ∀ r, h₁.slot r = h.slot r := by
      intro r
      rw [hr]
      cases r <;> rfl
    refine ⟨by rw [hr]; exact hi.crc, by rw [hr]; exact hi.sound, by rw [hr]; exact hi.busy,
      fun r hr' => ?_, fun i hr' => ?_, fun hr' => ?_, fun r hfull => ?_⟩
    · rw [hslot]
      refine Resolves.register hp (by rw [hr]; rfl) hother (hi.resolves r ?_)
      rw [hr] at hr'
      exact hr'
    · rw [hr] at hr' ⊢
      exact hi.taken i hr'
    · have hnext : h₁.nextPeer = h.nextPeer := by rw [hr]; rfl
      have hvalid : (h.peers h.nextPeer).addr ≠ invalidAddr := by
        rw [hr] at hr'
        exact hi.next hr'
      rw [hnext, hother h.nextPeer ?_]
      · exact hvalid
      · intro heq
        rw [heq] at hvalid
        exact hvalid hp
    · rw [hslot] at hfull ⊢
      exact hi.stamped r hfull

/-! ## The timeouts -/

theorem checkIdleTimeout_works (h : Handle W N) (p : Fin N) :
    WorksFor p h (checkIdleTimeout h p) := by
  unfold checkIdleTimeout
  split
  · unfold connectedCheckIdleTimeout
    dsimp only
    split
    · split
      · exact (WorksFor.setPeer h p rfl).trans (resendAllUnconfirmedFrames_works _ p 0 _)
      · exact switchToDisconnectedState_works h p
    · split
      · split
        · exact switchToDisconnectedState_works h p
        · exact .refl p h
      · split
        · exact ((WorksFor.setPeer h p rfl).trans (.putSFrame _ p (.inl rfl) .rr pBit)).trans
            (.setPeer _ p rfl)
        · exact .refl p h
  · unfold disconnectedCheckIdleTimeout
    split
    · exact (WorksFor.putUFrame h p (.inr rfl) _).trans (.setPeer _ p rfl)
    · exact .refl p h

/-! ## The choice of a frame -/

/-- What the choice of a frame for a peer does to the handle, at most. -/
structure Prepares (p : Fin N) (h h' : Handle W N) : Prop where
  settings : h'.settings = h.settings
  hdlc : h'.hdlc = h.hdlc
  nextPeer : h'.nextPeer = h.nextPeer
  txSending : h'.events.txSending = h.events.txSending
  hasMarker : h'.events.hasMarker = h.events.hasMarker
  addr : ∀ q, (h'.peers q).addr = (h.peers q).addr
  /-- Control fields are written, and an idle frame is put into a free slot. -/
  slot : ∀ r, (∃ c, h'.slot r = { h.slot r with control := c }) ∨
    (h.slot r).type = .free ∧ (h'.slot r).type ≠ .free ∧ ∃ cr, (cr = 0 ∨ cr = crBit) ∧
      (h'.slot r).address = peerToAddressField h p ||| cr

theorem Prepares.refl (p : Fin N) (h : Handle W N) : Prepares p h h :=
  ⟨rfl, rfl, rfl, rfl, rfl, fun _ => rfl, fun r => .inl ⟨(h.slot r).control, rfl⟩⟩

theorem Prepares.trans (hp : Prepares p h h₁) (hp' : Prepares p h₁ h₂) : Prepares p h h₂ where
  settings := hp'.settings.trans hp.settings
  hdlc := hp'.hdlc.trans hp.hdlc
  nextPeer := hp'.nextPeer.trans hp.nextPeer
  txSending := hp'.txSending.trans hp.txSending
  hasMarker := hp'.hasMarker.trans hp.hasMarker
  addr q := (hp'.addr q).trans (hp.addr q)
  slot r := by
    have hfield : peerToAddressField h₁ p = peerToAddressField h p := by
      unfold peerToAddressField
      rw [hp.addr]
    have hsecond := hp'.slot r
    rw [hfield] at hsecond
    rcases hp.slot r with ⟨c, hc⟩ | ⟨hfree, hfull, haddr⟩
    · rw [hc] at hsecond
      exact hsecond
    · rcases hsecond with ⟨c, hc⟩ | ⟨hfree', -⟩
      · rw [hc]
        exact .inr ⟨hfree, hfull, haddr⟩
      · exact absurd hfree' hfull

theorem Prepares.setPeer (h : Handle W N) (p q : Fin N) {f : Peer → Peer}
    (hf : (f (h.peers q)).addr = (h.peers q).addr) : Prepares p h (h.setPeer q f) :=
  ⟨rfl, rfl, rfl, rfl, rfl, setPeer_addr h q hf, fun r => .inl ⟨(h.slot r).control, by cases r <;> rfl⟩⟩

theorem Prepares.setControl (h : Handle W N) (p : Fin N) (f : IQueueControl → IQueueControl) :
    Prepares p h (h.setControl p f) := by
  unfold Handle.setControl
  exact .setPeer h p p rfl

theorem slot_setSlot_self (h : Handle W N) (r : SlotRef W) (f : Slot → Slot) :
    (h.setSlot r f).slot r = f (h.slot r) := by
  cases r with
  | iSlot i => exact Queue.setFrame_self ..
  | sSlot i => exact Queue.setFrame_self ..

theorem slot_setSlot_ne (h : Handle W N) {r r' : SlotRef W} (hr : r' ≠ r) (f : Slot → Slot) :
    (h.setSlot r f).slot r' = h.slot r' := by
  cases r with
  | iSlot i =>
    cases r' with
    | iSlot j => exact Queue.setFrame_ne _ (fun hij => hr (by rw [hij])) _
    | sSlot j => rfl
  | sSlot i =>
    cases r' with
    | iSlot j => rfl
    | sSlot j => exact Queue.setFrame_ne _ (fun hij => hr (by rw [hij])) _

theorem setSlot_fields (h : Handle W N) (r : SlotRef W) (f : Slot → Slot) :
    (h.setSlot r f).settings = h.settings ∧ (h.setSlot r f).hdlc = h.hdlc ∧
      (h.setSlot r f).nextPeer = h.nextPeer ∧ (h.setSlot r f).events = h.events ∧
      (h.setSlot r f).peers = h.peers ∧ (h.setSlot r f).log = h.log := by
  cases r <;> exact ⟨rfl, rfl, rfl, rfl, rfl, rfl⟩

theorem Prepares.setControlField (h : Handle W N) (p : Fin N) (r : SlotRef W) (f : Byte → Byte) :
    Prepares p h (h.setSlot r fun s => { s with control := f s.control }) := by
  obtain ⟨hset, hll, hnext, hev, hpeers, -⟩ :=
    setSlot_fields h r fun s => { s with control := f s.control }
  refine ⟨hset, hll, hnext, by rw [hev], by rw [hev], fun q => by rw [hpeers], fun r' => .inl ?_⟩
  by_cases hr : r' = r
  · rw [hr]
    exact ⟨_, slot_setSlot_self ..⟩
  · exact ⟨(h.slot r').control, slot_setSlot_ne h hr _⟩

theorem WorksFor.prepares (hw : WorksFor p h h₁) (hi : h₁.iQueue = h.iQueue) :
    Prepares p h h₁ where
  settings := hw.settings
  hdlc := hw.hdlc
  nextPeer := hw.nextPeer
  txSending := hw.txSending
  hasMarker := hw.hasMarker
  addr := hw.addr_eq
  slot r := by
    cases r with
    | iSlot i => exact .inl ⟨(h.slot (.iSlot i)).control, congrArg (fun q : Queue W => q.frames i) hi⟩
    | sSlot i =>
      rcases hw.sQueue i with hsame | hfilled
      · exact .inl ⟨(h.slot (.sSlot i)).control, hsame⟩
      · exact .inr hfilled

theorem getNextSUFrame_prepares (h : Handle W N) (p : Fin N) :
    Prepares p h (getNextSUFrame h p).1 ∧ (getNextSUFrame h p).1.log = h.log := by
  unfold getNextSUFrame
  split
  · exact ⟨.refl p h, rfl⟩
  · dsimp only
    split
    · exact ⟨.setPeer h p p rfl, rfl⟩
    · exact ⟨.refl p h, rfl⟩

theorem refreshIFrame_prepares (h : Handle W N) (p : Fin N) (i : Fin W) :
    Prepares p h (refreshIFrame h p i) ∧ (refreshIFrame h p i).log = h.log := by
  have hfield := Prepares.setControlField h p (.iSlot i)
    fun c => c &&& 0x0F ||| (h.control p).nextNr.setWidth 8 <<< 5
  unfold refreshIFrame
  exact ⟨hfield.trans (.setPeer _ p p rfl), rfl⟩

/-- N(R) is written into the slot. -/
theorem refreshIFrame_slot (h : Handle W N) (p : Fin N) (i : Fin W) :
    ∃ c, (refreshIFrame h p i).slot (.iSlot i) = { h.slot (.iSlot i) with control := c } := by
  have hslot := slot_setSlot_self h (.iSlot i) fun s =>
    { s with control := s.control &&& 0x0F ||| (h.control p).nextNr.setWidth 8 <<< 5 }
  exact ⟨_, hslot⟩

theorem getNextIFrame_prepares (h : Handle W N) (p : Fin N) :
    Prepares p h (getNextIFrame h p).1 ∧ (getNextIFrame h p).1.log = h.log := by
  unfold getNextIFrame
  dsimp only
  split
  · exact ⟨.refl p h, rfl⟩
  · split
    · next ns _ =>
      have hmask := Prepares.setPeer h p p
        (f := fun x => { x with srejReqMask := x.srejReqMask &&& ~~~(1#8 <<< ns.val) }) rfl
      split
      · obtain ⟨hp, hl⟩ := refreshIFrame_prepares (h.setPeer p fun x =>
          { x with srejReqMask := x.srejReqMask &&& ~~~(1#8 <<< ns.val) }) p _
        exact ⟨hmask.trans hp, hl⟩
      · exact ⟨hmask, rfl⟩
    · split
      · next i _ =>
        obtain ⟨hp, hl⟩ := refreshIFrame_prepares h p i
        have hnext := hp.trans
          (.setControl (refreshIFrame h p i) p fun c => { c with nextNs := c.nextNs + 1 })
        exact ⟨hnext, hl⟩
      · exact ⟨.refl p h, rfl⟩

theorem putIdleFrame_prepares (h : Handle W N) (p : Fin N) :
    Prepares p h (putIdleFrame h p) ∧ (putIdleFrame h p).log = h.log := by
  have ht : QueueType.sFrame ≠ .free := nofun
  unfold putIdleFrame
  split
  · exact ⟨(WorksFor.putUSFrame h p ht (.inr rfl) _ _).prepares (putUSFrame_iQueue ..),
      putUSFrame_log ..⟩
  · exact ⟨(WorksFor.putSFrame h p (.inl rfl) .rr 0).prepares (putUSFrame_iQueue ..),
      putUSFrame_log ..⟩

/-- A frame of the peer, in a slot in use. -/
def FrameOf (h : Handle W N) (p : Fin N) (r : SlotRef W) : Prop :=
  (h.slot r).type ≠ .free ∧ sameStation (peerToAddressField h p) (h.slot r).address

theorem FrameOf.control {r : SlotRef W} (hf : FrameOf h p r)
    (haddr : (h₁.peers p).addr = (h.peers p).addr)
    (hs : ∃ c, h₁.slot r = { h.slot r with control := c }) :
    FrameOf h₁ p r := by
  obtain ⟨c, hc⟩ := hs
  unfold FrameOf peerToAddressField
  rw [hc, haddr]
  exact hf

theorem getNextSUFrame_frameOf {k : Handle W N} {i : Fin 4} (hk : getNextSUFrame h p = (k, some i)) :
    FrameOf k p (.sSlot i) := by
  unfold getNextSUFrame at hk
  split at hk
  · cases hk
  · next j hj =>
    obtain ⟨hkeq, hij⟩ := Prod.mk.inj hk
    cases hij
    obtain ⟨htype, hst⟩ := Slot.fits_sFrame_uFrame.mp (Queue.getNext_some hj)
    have hfull : (h.sQueue.frames i).type ≠ .free := by
      rcases htype with ht | ht
      · rw [ht]
        nofun
      · rw [ht]
        nofun
    have hf : FrameOf h p (.sSlot i) := ⟨hfull, hst⟩
    rw [← hkeq]
    split
    · exact hf.control (setPeer_addr h p rfl p) ⟨_, rfl⟩
    · exact hf

theorem getNextIFrame_frameOf {k : Handle W N} {i : Fin W} (hk : getNextIFrame h p = (k, some i)) :
    FrameOf k p (.iSlot i) := by
  have hfits : ∀ {h : Handle W N} {arg : Seq} {i : Fin W},
      h.iQueue.getNext [.iFrame] (peerToAddressField h p) arg = some i →
      FrameOf (refreshIFrame h p i) p (.iSlot i) := by
    intro h arg i hi
    obtain ⟨htype, hst, -⟩ := Slot.fits_iFrame.mp (Queue.getNext_some hi)
    have hfull : (h.iQueue.frames i).type ≠ .free := by
      rw [htype]
      nofun
    have hf : FrameOf h p (.iSlot i) := ⟨hfull, hst⟩
    exact hf.control ((refreshIFrame_prepares h p i).1.addr p) (refreshIFrame_slot h p i)
  unfold getNextIFrame at hk
  dsimp only at hk
  split at hk
  · cases hk
  · split at hk
    · next ns _ =>
      split at hk
      · next j hj =>
        obtain ⟨hkeq, hij⟩ := Prod.mk.inj hk
        cases hij
        rw [← hkeq]
        refine @hfits _ (BitVec.ofFin ns) _ ?_
        have hfield : peerToAddressField (h.setPeer p fun x =>
            { x with srejReqMask := x.srejReqMask &&& ~~~(1#8 <<< ns.val) }) p =
            peerToAddressField h p := by
          unfold peerToAddressField
          rw [setPeer_self]
        rw [hfield]
        exact hj
      · cases hk
    · split at hk
      · next j hj =>
        obtain ⟨hkeq, hij⟩ := Prod.mk.inj hk
        cases hij
        rw [← hkeq]
        exact (hfits hj).control (setPeer_addr _ p rfl p) ⟨_, rfl⟩
      · cases hk

theorem chooseFrame_prepares (h : Handle W N) (p : Fin N) :
    Prepares p h (chooseFrame h p).1 ∧ (chooseFrame h p).1.log = h.log ∧
      ∀ r, (chooseFrame h p).2 = some r → FrameOf (chooseFrame h p).1 p r := by
  have hpick : Prepares p h (pickFrame h p).1 ∧ (pickFrame h p).1.log = h.log ∧
      ∀ r, (pickFrame h p).2 = some r → FrameOf (pickFrame h p).1 p r := by
    rcases pickFrame_cases h p with ⟨k, i, hk, hsu⟩ | ⟨-, ⟨k, i, hk, hif⟩ | ⟨k, hk, hif⟩⟩
    · have hprep := getNextSUFrame_prepares h p
      rw [hsu] at hprep
      rw [hk]
      exact ⟨hprep.1, hprep.2, fun r hr => by cases hr; exact getNextSUFrame_frameOf hsu⟩
    · have hprep := getNextIFrame_prepares h p
      rw [hif] at hprep
      rw [hk]
      exact ⟨hprep.1, hprep.2, fun r hr => by cases hr; exact getNextIFrame_frameOf hif⟩
    · have hprep := getNextIFrame_prepares h p
      rw [hif] at hprep
      rw [hk]
      exact ⟨hprep.1, hprep.2, fun r hr => by cases hr⟩
  unfold chooseFrame
  cases hfound : pickFrame h p with
  | mk k found =>
    rw [hfound] at hpick
    obtain ⟨hprep, hlog, hframe⟩ := hpick
    cases found with
    | some r => exact ⟨hprep, hlog, hframe⟩
    | none =>
      dsimp only
      split
      · obtain ⟨hidle, hilog⟩ := putIdleFrame_prepares k p
        obtain ⟨hsu, hslog⟩ := getNextSUFrame_prepares (putIdleFrame k p) p
        cases hget : getNextSUFrame (putIdleFrame k p) p with
        | mk m i =>
          rw [hget] at hsu hslog
          refine ⟨(hprep.trans hidle).trans hsu, (hslog.trans hilog).trans hlog, fun r hr => ?_⟩
          cases i with
          | none => cases hr
          | some i =>
            cases hr
            exact getNextSUFrame_frameOf hget
      · exact ⟨hprep, hlog, fun r hr => by cases hr⟩

theorem finishFrame_prepares (h : Handle W N) (p : Fin N) (r : SlotRef W) :
    Prepares p h (finishFrame h p r) ∧
      (finishFrame h p r).log = h.log ++ [.frameOut p ((finishFrame h p r).slot r).bytes] := by
  have hpoll : Prepares p h (if getsPoll h p (h.slot r).control then
        h.setSlot r fun s => { s with control := s.control ||| pBit } else h) ∧
      (if getsPoll h p (h.slot r).control then
        h.setSlot r fun s => { s with control := s.control ||| pBit } else h).log = h.log := by
    split
    · exact ⟨.setControlField h p r fun c => c ||| pBit, (setSlot_fields h r _).2.2.2.2.2⟩
    · exact ⟨.refl p h, rfl⟩
  unfold finishFrame
  dsimp only
  generalize (if getsPoll h p (h.slot r).control = true then
    h.setSlot r fun s => { s with control := s.control ||| pBit } else h) = k at hpoll
  obtain ⟨hprep, hlog⟩ := hpoll
  have hmark : Prepares p k { k with lastMarkerTs := k.millis } :=
    ⟨rfl, rfl, rfl, rfl, rfl, fun _ => rfl, fun r => .inl ⟨(k.slot r).control, by cases r <;> rfl⟩⟩
  have hall := (hprep.trans hmark).trans
    (.setPeer { k with lastMarkerTs := k.millis } p p (f := fun x =>
      { x with lastSentFrameTs := k.millis }) rfl)
  refine ⟨⟨hall.settings, hall.hdlc, hall.nextPeer, hall.txSending, hall.hasMarker, hall.addr, ?_⟩, ?_⟩
  · intro r'
    have hslot := hall.slot r'
    cases r' <;> exact hslot
  · rw [← hlog]
    cases r <;> rfl

/-- The chosen frame, and what its choice does. -/
theorem getNextFrameToSend_prepares (h : Handle W N) (p : Fin N) :
    Prepares p h (getNextFrameToSend h p).1 ∧
      match (getNextFrameToSend h p).2 with
      | some r => FrameOf (getNextFrameToSend h p).1 p r ∧ (getNextFrameToSend h p).1.log =
          h.log ++ [.frameOut p ((getNextFrameToSend h p).1.slot r).bytes]
      | none => (getNextFrameToSend h p).1.log = h.log := by
  obtain ⟨hprep, hlog, hframe⟩ := chooseFrame_prepares h p
  unfold getNextFrameToSend
  cases hc : chooseFrame h p with
  | mk k found =>
    rw [hc] at hprep hlog hframe
    cases found with
    | none => exact ⟨hprep, hlog⟩
    | some r =>
      obtain ⟨hfin, hflog⟩ := finishFrame_prepares k p r
      have hf := hframe r rfl
      refine ⟨hprep.trans hfin, hf.control (hfin.addr p) ?_, ?_⟩
      · rcases hfin.slot r with hs | ⟨hfree, -⟩
        · exact hs
        · exact absurd hfree hf.1
      · rw [← show k.log = h.log from hlog]
        exact hflog

/-! ## The transmitter in the handle -/

theorem InStep.idle (hi : InStep h) (ht : h.events.txSending = false) :
    h.hdlc.tx.originData = none := by
  rw [hi.busy] at ht
  cases ho : h.hdlc.tx.originData with
  | none => rfl
  | some r =>
    rw [ho] at ht
    cases ht

/-- A choice is made with no frame on its way. -/
theorem InStep.prepares (hi : InStep h) (hw : Addressed h) (ht : h.events.txSending = false)
    (hp : Prepares p h h₁) : InStep h₁ := by
  have hnone : h₁.hdlc.tx.originData = none := by
    rw [hp.hdlc]
    exact hi.idle ht
  refine ⟨?_, ?_, ?_, ?_, ?_, fun hr => absurd hnone hr, fun r hfull => ?_⟩
  · rw [hp.hdlc]
    exact hi.crc
  · rw [hp.hdlc]
    exact hi.sound
  · rw [hp.hdlc, hp.txSending]
    exact hi.busy
  · intro r hr
    rw [hnone] at hr
    cases hr
  · intro i hr
    rw [hnone] at hr
    cases hr
  · rcases hp.slot r with ⟨c, hc⟩ | ⟨-, -, cr, hcr, haddr⟩
    · rw [hc] at hfull ⊢
      exact hi.stamped r hfull
    · rw [haddr]
      exact hw.field_bits p hcr

theorem Slot.bytes_length (s : Slot) : s.bytes.length = s.payload.length + 2 := rfl

/-- The low level takes the frame. -/
theorem startFrame_tx (h : Handle W N) {r : SlotRef W} (hnone : h.hdlc.tx.originData = none) :
    (startFrame h r).hdlc =
      { h.hdlc with tx :=
        { h.hdlc.tx with originData := some r, data := 0, len := (h.slot r).payload.length + 2 } } := by
  unfold startFrame hdlcLlPutFrame
  dsimp only
  have hslot : (h.setEvents fun e => { e with txDataAvailable := true, txSending := true }).slot r =
      h.slot r := by
    cases r <;> rfl
  have hll : (h.setEvents fun e => { e with txDataAvailable := true, txSending := true }).hdlc =
      h.hdlc := rfl
  rw [hll, hslot, hnone, Slot.bytes_length]
  rfl

theorem InStep.startFrame (hi : InStep h) (ht : h.events.txSending = false) (hp : Live h p)
    (hnext : (h.peers h.nextPeer).addr ≠ invalidAddr) {r : SlotRef W} (hf : FrameOf h p r) :
    InStep (startFrame h r) := by
  have hnone := hi.idle ht
  have htx := @startFrame_tx _ _ _ _ h r hnone
  have hstate := hi.sound.idle hnone
  have hslot : ∀ r', (Fd.startFrame h r).slot r' = h.slot r' := by
    intro r'
    cases r' <;> rfl
  refine ⟨by rw [htx]; exact hi.crc, ?_, by rw [htx]; rfl, fun r' hr' => ?_, fun i hr' => ?_,
    fun _ => hnext, fun r' hfull => ?_⟩
  · rw [htx]
    refine ⟨nofun, fun _ _ => Nat.succ_pos _, fun hs => ?_, fun hs => ?_⟩
    · cases hstate.symm.trans hs
    · cases hstate.symm.trans hs
  · rw [htx] at hr'
    cases hr'
    rw [hslot]
    refine Resolves.congr (h := h) rfl (fun _ => rfl) ?_
    unfold Resolves
    rw [hp.found (hi.stamped r hf.1) hf.2]
    nofun
  · rw [htx] at hr'
    cases hr'
    exact hf.1
  · rw [hslot] at hfull ⊢
    exact hi.stamped r' hfull

theorem switchToNextPeer_registered (hnext : (h.peers h.nextPeer).addr ≠ invalidAddr) :
    (h.peers (switchToNextPeer h).nextPeer).addr ≠ invalidAddr := by
  unfold switchToNextPeer
  dsimp only
  cases hf : ((List.finRange N).map fun k => h.nextPeer + 1 + k).find?
      fun p => (h.peers p).addr ≠ invalidAddr with
  | none => exact hnext
  | some p =>
    have := List.find?_some hf
    rw [decide_eq_true_eq] at this
    exact this

/-- What `on_frame_send` does for a frame of a peer. -/
structure Completes (r : SlotRef W) (h h' : Handle W N) : Prop where
  settings : h'.settings = h.settings
  hdlc : h'.hdlc = h.hdlc
  peers : h'.peers = h.peers
  iQueue : h'.iQueue = h.iQueue
  log : h'.log = h.log
  txSending : h'.events.txSending = false
  sQueue : h'.sQueue = h.sQueue ∨ ∃ i, r = .sSlot i ∧ h'.sQueue = h.sQueue.freeByHeader i
  nextPeer : h'.nextPeer = h.nextPeer ∨ h'.nextPeer = (switchToNextPeer h).nextPeer

theorem releaseMarker_fields (h : Handle W N) (control : Byte) :
    ∃ next marker, releaseMarker h control =
        { h with nextPeer := next, events := { h.events with hasMarker := marker } } ∧
      (next = h.nextPeer ∨ next = (switchToNextPeer h).nextPeer) := by
  unfold releaseMarker
  split
  · dsimp only
    split
    · exact ⟨_, _, rfl, .inr rfl⟩
    · exact ⟨_, _, rfl, .inl rfl⟩
  · exact ⟨_, _, rfl, .inl rfl⟩

/-- What is freed at the end of a frame. -/
theorem freed_eq (h : Handle W N) (r : SlotRef W) (control : Byte) :
    ∃ q, (if isIFrame control then h else freeService h r) = { h with sQueue := q } ∧
      (q = h.sQueue ∨ ∃ i, r = .sSlot i ∧ q = h.sQueue.freeByHeader i) := by
  split
  · exact ⟨_, rfl, .inl rfl⟩
  · cases r with
    | iSlot i => exact ⟨_, rfl, .inl rfl⟩
    | sSlot i => exact ⟨_, rfl, .inr ⟨i, rfl, rfl⟩⟩

theorem onFrameSend_completes {r : SlotRef W} (hr : Resolves h (h.slot r).address) :
    Completes r h (onFrameSend h r) := by
  unfold onFrameSend
  dsimp only
  split
  · next hnone => exact absurd hnone hr
  · obtain ⟨q, hq, hqueue⟩ := freed_eq h r (h.slot r).control
    rw [hq]
    obtain ⟨next, marker, hm, hnext⟩ := releaseMarker_fields { h with sQueue := q }
      (h.slot r).control
    rw [hm]
    exact ⟨rfl, rfl, rfl, rfl, rfl, rfl, hqueue, hnext⟩

/-- Completing a frame frees at most its slot. -/
theorem Stamped.completes {r : SlotRef W} (hst : Stamped h) (hc : Completes r h h₁) :
    Stamped h₁ := by
  intro r' hfull
  cases r' with
  | iSlot i =>
    have hslot : h₁.slot (.iSlot i) = h.slot (.iSlot i) :=
      congrArg (fun q : Queue W => q.frames i) hc.iQueue
    rw [hslot] at hfull ⊢
    exact hst _ hfull
  | sSlot i =>
    have hslot : h₁.slot (.sSlot i) = h₁.sQueue.frames i := rfl
    rw [hslot] at hfull ⊢
    rcases hc.sQueue with hs | ⟨j, -, hs⟩
    · rw [hs] at hfull ⊢
      exact hst (.sSlot i) hfull
    · rw [hs] at hfull ⊢
      by_cases hij : i = j
      · rw [hij, Queue.freeByHeader_self] at hfull
        exact absurd rfl hfull
      · rw [Queue.freeByHeader_ne _ hij] at hfull ⊢
        exact hst (.sSlot i) hfull

/-- What a turn of the low level does with a frame on its way. -/
structure RunsOn (h h' : Handle W N) (len : Nat) (bs : List Byte) : Prop where
  inStep : InStep h'
  settings : h'.settings = h.settings
  peers : h'.peers = h.peers
  log : h'.log = h.log
  length : bs.length ≤ len
  frames : ∀ wire, WholeFrames wire h.hdlc.tx.Inside → WholeFrames (wire ++ bs) h'.hdlc.tx.Inside
  progress : 0 < len → bs ≠ []
  registered : (h.peers h.nextPeer).addr ≠ invalidAddr → (h'.peers h'.nextPeer).addr ≠ invalidAddr

/-- How a turn of the low level ends. -/
inductive Ran (h : Handle W N) (len : Nat) : Handle W N → List Byte → Prop where
  /-- The buffer is full, or there was no frame. -/
  | filled {ll : HdlcLl (SlotRef W)} {bs : List Byte}
      (hrun : hdlcLlRunTx h.mem h.hdlc len = (ll, bs, []))
      (hod : ll.tx.originData = h.hdlc.tx.originData)
      (hfull : h.hdlc.tx.originData ≠ none → bs.length = len) : Ran h len { h with hdlc := ll } bs
  /-- The frame is completed. -/
  | completed {ll : HdlcLl (SlotRef W)} {bs : List Byte} {r : SlotRef W} {n : Nat}
      (hrun : hdlcLlRunTx h.mem h.hdlc len = (ll, bs, [(r, n)]))
      (hod : h.hdlc.tx.originData = some r) (hnone : ll.tx.originData = none) (hne : bs ≠ []) :
      Ran h len (onFrameSend { h with hdlc := ll } r) bs

theorem runTx_ran (hi : InStep h) (len : Nat) : Ran h len (runTx h len).1 (runTx h len).2.1 := by
  have hsent := (hdlcLlRunTx_runs h.mem hi.crc hi.sound len).sent
  unfold runTx
  cases hll : hdlcLlRunTx h.mem h.hdlc len with
  | mk ll out =>
    obtain ⟨bs, done⟩ := out
    rw [hll] at hsent
    rcases hsent with ⟨hdone, hod, hfull⟩ | ⟨r, n, hod, hdone, hnone, hne⟩
    · have hdone' : done = [] := hdone
      subst hdone'
      exact .filled hll hod hfull
    · have hdone' : done = [(r, n)] := hdone
      subst hdone'
      exact .completed hll hod hnone hne

/-- The slots are not the low level's. -/
theorem slot_ll (h : Handle W N) (ll : HdlcLl (SlotRef W)) (r : SlotRef W) :
    ({ h with hdlc := ll } : Handle W N).slot r = h.slot r := by
  cases r <;> rfl

theorem InStep.resolves_ll (hi : InStep h) {r : SlotRef W} (hod : h.hdlc.tx.originData = some r)
    (ll : HdlcLl (SlotRef W)) :
    Resolves { h with hdlc := ll } (({ h with hdlc := ll } : Handle W N).slot r).address := by
  rw [slot_ll]
  exact hi.resolves r hod

theorem runTx_runsOn (hi : InStep h) (ht : h.events.txSending = true) (len : Nat) :
    RunsOn h (runTx h len).1 len (runTx h len).2.1 := by
  have hruns := hdlcLlRunTx_runs h.mem hi.crc hi.sound len
  have hran := runTx_ran hi len
  have hbusy : h.hdlc.tx.originData ≠ none := by
    rw [hi.busy, Option.isSome_iff_ne_none] at ht
    exact ht
  generalize (runTx h len).1 = k at hran
  generalize (runTx h len).2.1 = bs at hran
  cases hran with
  | @filled ll bs hrun hod hfull =>
    rw [hrun] at hruns
    have hst : Stamped ({ h with hdlc := ll } : Handle W N) := by
      intro r' hfull
      rw [slot_ll] at hfull ⊢
      exact hi.stamped r' hfull
    refine ⟨⟨?_, ?_, ?_, fun r hr => ?_, fun i hr => ?_, fun _ => hi.next hbusy, hst⟩, rfl,
      rfl, rfl, hruns.length, hruns.frames, fun hl hnil => ?_, id⟩
    · show ll.crcType.value % 8 = 0
      rw [hruns.crcType]
      exact hi.crc
    · show ll.tx.Sound ll.crcType
      rw [hruns.crcType]
      exact hruns.sound
    · show h.events.txSending = ll.tx.originData.isSome
      rw [hod]
      exact hi.busy
    · rw [slot_ll]
      exact hi.resolves r (hod.symm.trans hr)
    · exact hi.taken i (hod.symm.trans hr)
    · have hlen := hfull hbusy
      rw [show bs = [] from hnil, List.length_nil] at hlen
      omega
  | @completed ll bs r n hrun hod hnone hne =>
    rw [hrun] at hruns
    have hc := onFrameSend_completes (hi.resolves_ll hod ll)
    have hst : Stamped ({ h with hdlc := ll } : Handle W N) := by
      intro r' hfull
      rw [slot_ll] at hfull ⊢
      exact hi.stamped r' hfull
    generalize onFrameSend { h with hdlc := ll } r = k at hc
    have hnone' : k.hdlc.tx.originData = none := by
      rw [hc.hdlc]
      exact hnone
    refine ⟨⟨?_, ?_, ?_, fun r' hr => ?_, fun i hr => ?_, fun hr => absurd hnone' hr,
      hst.completes hc⟩, hc.settings, hc.peers, hc.log, hruns.length, fun wire hw => ?_, fun _ => hne,
      fun hreg => ?_⟩
    · rw [hc.hdlc]
      show ll.crcType.value % 8 = 0
      rw [hruns.crcType]
      exact hi.crc
    · rw [hc.hdlc]
      show ll.tx.Sound ll.crcType
      rw [hruns.crcType]
      exact hruns.sound
    · rw [hc.txSending, hnone']
      rfl
    · cases hnone'.symm.trans hr
    · cases hnone'.symm.trans hr
    · rw [hc.hdlc]
      exact hruns.frames wire hw
    · rw [hc.peers]
      rcases hc.nextPeer with hn | hn
      · rw [hn]
        exact hreg
      · rw [hn]
        exact switchToNextPeer_registered hreg

/-! ## The loop of `tiny_fd_get_tx_data` -/

/-- At most `n` frames were chosen. -/
def Grows (h h' : Handle W N) (n : Nat) : Prop :=
  ∃ fs, framesOut h'.log = framesOut h.log ++ fs ∧ fs.length ≤ n

theorem Grows.of_eq {n : Nat} (hout : framesOut h₁.log = framesOut h.log) : Grows h h₁ n :=
  ⟨[], by rw [hout, List.append_nil], Nat.zero_le n⟩

theorem Grows.trans {m n : Nat} (hg : Grows h h₁ m) (hg' : Grows h₁ h₂ n) : Grows h h₂ (m + n) := by
  obtain ⟨fs, hl, hc⟩ := hg
  obtain ⟨fs', hl', hc'⟩ := hg'
  refine ⟨fs ++ fs', by rw [hl', hl, List.append_assoc], ?_⟩
  rw [List.length_append]
  exact Nat.add_le_add hc hc'

/-- A frame was chosen. -/
def Turn.isChosen : Turn W N → Bool
  | .chosen _ => true
  | _ => false

/-- How a try to send for a peer ends. -/
inductive Tries (h : Handle W N) (p : Fin N) : Turn W N → Prop where
  /-- A frame is handed to the low level. -/
  | chosen {m : Handle W N} {r : SlotRef W} (hmark : h.events.hasMarker = true)
      (hprep : Prepares p h m) (hf : FrameOf m p r)
      (hlog : m.log = h.log ++ [.frameOut p (m.slot r).bytes]) :
      Tries h p (.chosen (startFrame m r))
  /-- There is none. -/
  | none {t : Turn W N} (ht : t.isChosen = false) (hprep : Prepares p h t.handle)
      (hlog : t.handle.log = h.log) : Tries h p t
  /-- The marker is taken back. -/
  | returned (hmark : h.events.hasMarker = false) (hprim : h.isPrimaryStation = true)
      (hlate : h.settings.retryTimeout ≤ h.elapsed h.lastMarkerTs) :
      Tries h p (.nothing ((h.setEvents fun e => { e with hasMarker := true }).emit .returnMarker))

theorem tryToSend_tries (h : Handle W N) (p : Fin N) : Tries h p (tryToSend h p) := by
  unfold tryToSend
  split
  · next hmark =>
    split
    · have hclear : Prepares p h (h.setEvents fun e => { e with txDataAvailable := false }) :=
        ⟨rfl, rfl, rfl, rfl, rfl, fun _ => rfl, fun r => .inl ⟨(h.slot r).control, by cases r <;> rfl⟩⟩
      obtain ⟨hprep, hchoice⟩ :=
        getNextFrameToSend_prepares (h.setEvents fun e => { e with txDataAvailable := false }) p
      dsimp only
      generalize getNextFrameToSend (h.setEvents fun e => { e with txDataAvailable := false }) p =
        out at hprep hchoice
      obtain ⟨m, found⟩ := out
      cases found with
      | some r => exact .chosen hmark (hclear.trans hprep) hchoice.1 hchoice.2
      | none =>
        dsimp only
        split
        · exact .none rfl (hclear.trans hprep) hchoice
        · exact .none rfl (hclear.trans hprep) hchoice
    · split
      · exact .none rfl (.refl p h) rfl
      · exact .none rfl (.refl p h) rfl
  · next hmark =>
    split
    · next hprim =>
      split
      · next hlate => exact .returned (eq_false_of_ne_true hmark) hprim hlate
      · exact .none rfl (.refl p h) rfl
    · exact .none rfl (.refl p h) rfl

/-- What a try to send does. -/
structure Tried (h : Handle W N) (t : Turn W N) : Prop where
  inStep : InStep t.handle
  settings : t.handle.settings = h.settings
  addr : ∀ q, (t.handle.peers q).addr = (h.peers q).addr
  nextPeer : t.handle.nextPeer = h.nextPeer
  inside : t.handle.hdlc.tx.Inside ↔ h.hdlc.tx.Inside
  sending : t.handle.events.txSending = t.isChosen
  grows : Grows h t.handle (if t.isChosen then 1 else 0)

/-- A live peer stays live while its frame is chosen. -/
theorem Prepares.live (hprep : Prepares p h h₁) (hw : Addressed h) (hp : Live h p) : Live h₁ p := by
  refine (hw.congr hprep.settings hprep.nextPeer hprep.addr).live_of_unique ?_ fun hm => ?_
  · rw [hprep.addr]
    intro hinv
    exact invalidAddr_bits (hinv ▸ hp.2)
  · rw [Multi.congr hprep.settings] at hm
    have hfound := hp.1
    rw [addressFieldToPeer_eq, if_pos hm] at hfound
    split at hfound
    · cases hfound
    · split at hfound
      · exact (Option.some.inj hfound).symm
      · cases hfound

theorem tryToSend_tried (hi : InStep h) (hw : Addressed h) (ht : h.events.txSending = false)
    (hp : Live h p) (hnext : (h.peers h.nextPeer).addr ≠ invalidAddr) :
    Tried h (tryToSend h p) := by
  have htries := tryToSend_tries h p
  generalize tryToSend h p = t at htries
  cases htries with
  | @chosen m r _ hprep hf hlog =>
    have him := hi.prepares hw ht hprep
    have htm := hprep.txSending.trans ht
    have htx := @startFrame_tx _ _ _ _ m r (him.idle htm)
    have hin : InStep (startFrame m r) := him.startFrame htm (hprep.live hw hp)
      (by rw [hprep.nextPeer, hprep.addr]; exact hnext) hf
    refine ⟨hin, hprep.settings, hprep.addr, hprep.nextPeer, ?_, rfl,
      ⟨[(p, (m.slot r).bytes)], ?_, Nat.le_refl 1⟩⟩
    · show (startFrame m r).hdlc.tx.Inside ↔ _
      rw [htx, ← hprep.hdlc]
      rfl
    · show framesOut m.log = _
      rw [hlog, framesOut_append]
      rfl
  | none hnot hprep hlog =>
    exact ⟨hi.prepares hw ht hprep, hprep.settings, hprep.addr, hprep.nextPeer, by rw [hprep.hdlc],
      (hprep.txSending.trans ht).trans hnot.symm, .of_eq (by rw [hlog])⟩
  | returned _ _ _ =>
    have hmark : InStep ((h.setEvents fun e => { e with hasMarker := true }).emit .returnMarker) :=
      hi.congr rfl rfl rfl rfl (fun r => by cases r <;> rfl) rfl fun _ => rfl
    exact ⟨hmark, rfl, fun _ => rfl, rfl, Iff.rfl, ht,
      .of_eq ((framesOut_append ..).trans (List.append_nil _))⟩

/-- What the rest of a call does, with `data` written so far. -/
structure Continues (h : Handle W N) (len : Nat) (data : List Byte) (starts : Nat)
    (r : TxData W N) (new : List Byte) : Prop where
  inStep : InStep r.h
  result : r.result = .ok (data ++ new)
  length : (data ++ new).length ≤ len
  frames : ∀ wire, WholeFrames wire h.hdlc.tx.Inside →
    WholeFrames (wire ++ new) r.h.hdlc.tx.Inside
  grows : Grows h r.h starts

theorem Continues.stop {len : Nat} {data : List Byte} {starts : Nat} {sent : List (List Byte)}
    (hi : InStep h₁) (hlen : data.length ≤ len) (hin : h₁.hdlc.tx.Inside ↔ h.hdlc.tx.Inside)
    (hg : Grows h h₁ starts) :
    Continues h len data starts { h := h₁, result := .ok data, sent := sent } [] where
  inStep := hi
  result := by rw [List.append_nil]
  length := by rwa [List.append_nil]
  frames wire hw := by
    rw [List.append_nil]
    exact hw.congr hin.symm
  grows := hg

/-- A call that serves a registered peer.  A turn of its loop writes a byte, passes the wait
point, or is the last, and no turn behind the wait point starts a frame. -/
theorem getTxDataLoopWith_continues (attempt : Handle W N → Turn W N)
    (hattempt : ∀ k, InStep k → Addressed k → k.events.txSending = false → Live k p →
      (k.peers k.nextPeer).addr ≠ invalidAddr → Tried k (attempt k)) (len : Nat) :
    ∀ (fuel : Nat) (again waitPointPassed : Bool) (h : Handle W N) (data : List Byte),
      Addressed h → InStep h → (¬Multi h → p = 0) → (h.peers p).addr ≠ invalidAddr →
      (h.peers h.nextPeer).addr ≠ invalidAddr → data.length ≤ len →
      (∃ new, Continues h len data (if waitPointPassed then 0 else 1)
          (getTxDataLoopWith attempt len p fuel again waitPointPassed h data) new ∧
        (0 < fuel → h.events.txSending = true → data.length < len → new ≠ [])) ∧
      ((len - data.length) + (if waitPointPassed then 0 else 1) + 1 ≤ fuel →
        getTxDataLoopWith attempt len p (fuel + 1) again waitPointPassed h data =
          getTxDataLoopWith attempt len p fuel again waitPointPassed h data)
  | 0, _, _, _, _, _, hi, _, _, _, hlen =>
    ⟨⟨[], .stop hi hlen Iff.rfl (.of_eq rfl), fun hf => absurd hf (Nat.lt_irrefl 0)⟩,
      fun hf => absurd hf (Nat.not_succ_le_zero _)⟩
  | fuel + 1, again, waitPointPassed, h, data, hw, hi, hu, ha, hnext, hlen => by
    unfold getTxDataLoopWith
    by_cases hfull : len ≤ data.length
    · rw [if_pos hfull, if_pos hfull]
      exact ⟨⟨[], .stop hi hlen Iff.rfl (.of_eq rfl), fun _ _ hlt => by omega⟩, fun _ => rfl⟩
    · rw [if_neg hfull, if_neg hfull]
      have hlt : 0 < len - data.length := by omega
      cases ht : h.events.txSending with
      | true =>
        -- The low level writes at least one byte.
        have hrun := runTx_runsOn hi ht (len - data.length)
        have hwk := run_addressed (runTx_run (h := h) (G := AnyAct) (fun _ _ _ => trivial)
          (fun _ _ => trivial) (len - data.length)) hw
        rw [if_pos rfl, if_pos rfl]
        generalize runTx h (len - data.length) = out at hrun hwk
        obtain ⟨k, bs, sent⟩ := out
        have hne : bs ≠ [] := hrun.progress hlt
        have hpos := List.length_pos_of_ne_nil hne
        have hle : bs.length ≤ len - data.length := hrun.length
        dsimp only
        have hcond : ¬(bs = [] ∧ (!again) = true) := fun hc => hne hc.1
        rw [if_neg hcond, if_neg hcond]
        have hlen' : (data ++ bs).length ≤ len := by
          rw [List.length_append]
          omega
        obtain ⟨⟨new, hc, -⟩, hstop⟩ := getTxDataLoopWith_continues attempt hattempt len fuel
          (decide (bs ≠ []))
          waitPointPassed k (data ++ bs) hwk hrun.inStep
          (by rw [Multi.congr hrun.settings]; exact hu) (by rw [hrun.peers]; exact ha)
          (hrun.registered hnext) hlen'
        refine ⟨⟨bs ++ new, ⟨hc.inStep, ?_, ?_, fun wire hwire => ?_, ?_⟩, fun _ _ _ hnil => ?_⟩,
          fun hf => ?_⟩
        · rw [← List.append_assoc]
          exact hc.result
        · rw [← List.append_assoc]
          exact hc.length
        · rw [← List.append_assoc]
          exact hc.frames _ (hrun.frames _ hwire)
        · have hg := (Grows.of_eq (n := 0) (congrArg framesOut hrun.log)).trans hc.grows
          rwa [Nat.zero_add] at hg
        · exact hne (List.append_eq_nil_iff.mp hnil).1
        · rw [hstop]
          rw [List.length_append]
          omega
      | false =>
        have hworks := checkIdleTimeout_works h p
        obtain ⟨k, hk⟩ : ∃ k, k = checkIdleTimeout h p := ⟨_, rfl⟩
        rw [← hk] at hworks
        have hik := hi.works hw hworks
        have hwk := hw.congr hworks.settings hworks.nextPeer hworks.addr_eq
        have htk : k.events.txSending = false := hworks.txSending.trans ht
        have hak : (k.peers p).addr ≠ invalidAddr := by
          rw [hworks.addr_eq]
          exact ha
        have hnextk : (k.peers k.nextPeer).addr ≠ invalidAddr := by
          rw [hworks.nextPeer, hworks.addr_eq]
          exact hnext
        have huk : ¬Multi k → p = 0 := by
          rw [Multi.congr hworks.settings]
          exact hu
        have hink : k.hdlc.tx.Inside ↔ h.hdlc.tx.Inside := by rw [hworks.hdlc]
        have hf0 : (false = true) = False := by simp
        simp only [hf0, if_false, if_neg ha, ← hk, false_imp_iff, imp_true_iff, and_true]
        cases waitPointPassed with
        | true =>
          simp only [if_true]
          exact ⟨⟨[], .stop hik hlen hink (.of_eq hworks.out)⟩, fun _ => trivial⟩
        | false =>
          have htried := hattempt k hik hwk htk (hwk.live_of_unique hak huk) hnextk
          simp only [hf0, if_false]
          generalize attempt k = t at htried
          have hwt : Addressed t.handle := hwk.congr htried.settings htried.nextPeer htried.addr
          have hut : ¬Multi t.handle → p = 0 := by
            rw [Multi.congr htried.settings]
            exact huk
          have hat : (t.handle.peers p).addr ≠ invalidAddr := by
            rw [htried.addr]
            exact hak
          have hnextt : (t.handle.peers t.handle.nextPeer).addr ≠ invalidAddr := by
            rw [htried.nextPeer, htried.addr]
            exact hnextk
          have hint := htried.inside.trans hink
          -- The turns behind the wait point start no frame.
          have hrest : ∀ again', (∃ new, Continues h len data 1
              (getTxDataLoopWith attempt len p fuel again' true t.handle data) new) ∧
              (len - data.length + 1 + 1 ≤ fuel + 1 →
                getTxDataLoopWith attempt len p (fuel + 1) again' true t.handle data =
                  getTxDataLoopWith attempt len p fuel again' true t.handle data) := by
            intro again'
            obtain ⟨⟨new, hc, -⟩, hstop⟩ :=
              getTxDataLoopWith_continues attempt hattempt len fuel again' true t.handle
              data hwt htried.inStep hut hat hnextt hlen
            refine ⟨⟨new, hc.inStep, hc.result, hc.length, fun wire hwire =>
              hc.frames wire (hwire.congr hint.symm), ?_⟩, fun hf => hstop ?_⟩
            · obtain ⟨fs, hl, hcount⟩ := htried.grows.trans hc.grows
              rw [hworks.out] at hl
              refine ⟨fs, hl, Nat.le_trans hcount ?_⟩
              simp only [if_true]
              split <;> omega
            · simp only [if_true]
              omega
          have hend : Grows h t.handle 1 := by
            obtain ⟨fs, hl, hcount⟩ := htried.grows
            rw [hworks.out] at hl
            refine ⟨fs, hl, Nat.le_trans hcount ?_⟩
            split <;> omega
          cases t with
          | stop m => exact ⟨⟨[], .stop htried.inStep hlen hint hend⟩, fun _ => rfl⟩
          | chosen m => exact hrest again
          | nothing m =>
            cases again with
            | true => exact hrest false
            | false => exact ⟨⟨[], .stop htried.inStep hlen hint hend⟩, fun _ => rfl⟩

/-- What every part of the loop preserves, of the handle and the bytes written so far, the
loop preserves.  The property may be another one behind the wait point. -/
theorem getTxDataLoopWith_rule (attempt : Handle W N → Turn W N) (len : Nat) (p : Fin N)
    {P : Bool → Handle W N → List Byte → Prop}
    (hrun : ∀ b k data, P b k data → k.events.txSending = true → data.length < len →
      P b (runTx k (len - data.length)).1 (data ++ (runTx k (len - data.length)).2.1))
    (hidle : ∀ b k data, P b k data → k.events.txSending = false → data.length < len →
      (k.peers p).addr ≠ invalidAddr → P b (checkIdleTimeout k p) data)
    (htry : ∀ k data, P false k data → k.events.txSending = false → data.length < len →
      (k.peers p).addr ≠ invalidAddr → P true (attempt k).handle data) :
    ∀ (fuel : Nat) (again waitPointPassed : Bool) (h : Handle W N) (data : List Byte),
      P waitPointPassed h data →
      ∃ b bs, P b (getTxDataLoopWith attempt len p fuel again waitPointPassed h data).h bs ∧
        ((getTxDataLoopWith attempt len p fuel again waitPointPassed h data).result = .ok bs ∨
          (getTxDataLoopWith attempt len p fuel again waitPointPassed h data).result =
            .error .unknownPeer)
  | 0, _, _, _, data, hP => ⟨_, data, hP, .inl rfl⟩
  | fuel + 1, again, waitPointPassed, h, data, hP => by
    unfold getTxDataLoopWith
    split
    · exact ⟨_, data, hP, .inl rfl⟩
    · next hroom =>
      split
      · next ht =>
        have hk := hrun _ h data hP ht (Nat.lt_of_not_le hroom)
        generalize runTx h (len - data.length) = out at hk
        obtain ⟨k, bs, sent⟩ := out
        dsimp only at hk ⊢
        split
        · next hnone =>
          rw [hnone.1, List.append_nil] at hk
          exact ⟨_, data, hk, .inl rfl⟩
        · exact getTxDataLoopWith_rule attempt len p hrun hidle htry fuel _ _ _ _ hk
      · next ht =>
        split
        · exact ⟨_, data, hP, .inr rfl⟩
        · next hp =>
          have ht' := eq_false_of_ne_true ht
          have hlt := Nat.lt_of_not_le hroom
          have hk := hidle _ h data hP ht' hlt hp
          have hworks := checkIdleTimeout_works h p
          have htk := hworks.txSending.trans ht'
          have hpk : ((checkIdleTimeout h p).peers p).addr ≠ invalidAddr := by
            rw [hworks.addr]
            exact hp
          dsimp only
          split
          · exact ⟨_, data, hk, .inl rfl⟩
          · next hwait =>
            have hwait' : waitPointPassed = false := eq_false_of_ne_true hwait
            subst hwait'
            have hm := htry _ data hk htk hlt hpk
            generalize attempt (checkIdleTimeout h p) = t at hm
            cases t with
            | stop m => exact ⟨_, data, hm, .inl rfl⟩
            | chosen m => exact getTxDataLoopWith_rule attempt len p hrun hidle htry fuel _ _ _ _ hm
            | nothing m =>
              dsimp only
              split
              · exact ⟨_, data, hm, .inl rfl⟩
              · exact getTxDataLoopWith_rule attempt len p hrun hidle htry fuel _ _ _ _ hm

/-! ## A call -/

/-- The loop of `hdlc_ll_run_tx` in this state, with a buffer of `n` bytes. -/
def driver (h : Handle W N) (n fuel : Nat) : Tx (SlotRef W) × List (SlotRef W × Nat) :=
  runTxLoop h.hdlc.crcType h.mem fuel false { h.hdlc.tx with outBuffer := [], outBufferLen := n }

theorem InStep.driver_stops (hi : InStep h) {n fuel : Nat} (hf : n + 4 ≤ fuel) :
    driver h n fuel = driver h n (n + 4) := by
  have hsound : ({ h.hdlc.tx with outBuffer := [], outBufferLen := n } : Tx (SlotRef W)).Sound
      h.hdlc.crcType :=
    ⟨hi.sound.idle, hi.sound.start, hi.sound.data, hi.sound.crcLen⟩
  exact runTxLoop_stops hi.crc hsound hf

/-- What a `tiny_fd_get_tx_data` call with a buffer of `len` bytes does. -/
structure TxCall (h : Handle W N) (len : Nat) : Prop where
  /-- More turns of the loop than the model allows for change nothing, -/
  stops : ∀ fuel, 2 * len + 3 ≤ fuel →
    getTxDataLoop len h.nextPeer fuel true false h [] = getTxData h len
  /-- nor do more turns of the driver's loop, at any turn of the outer one. -/
  drives : ∀ turns n fuel, n + 4 ≤ fuel →
    driver (getTxDataLoop len h.nextPeer turns true false h []).h n fuel =
      driver (getTxDataLoop len h.nextPeer turns true false h []).h n (n + 4)
  /-- The bytes fit, and with an error there are none. -/
  result : (∃ bs, (getTxData h len).result = .ok bs ∧ bs.length ≤ len) ∨
    (getTxData h len).result = .error .unknownPeer ∧ (getTxData h len).h = h
  starts : Grows h (getTxData h len).h 1
  busy : (getTxData h len).h.events.txSending = (getTxData h len).h.hdlc.tx.originData.isSome
  progress : h.events.txSending = true → 0 < len →
    ∃ bs, (getTxData h len).result = .ok bs ∧ bs ≠ []

/-- The bytes that a call puts on the wire. -/
def output (h : Handle W N) : Call → List Byte
  | .getTxData len =>
      match (getTxData h len).result with
      | .ok bs => bs
      | .error _ => []
  | _ => []

theorem output_ok {len : Nat} {bs : List Byte} (hr : (getTxData h len).result = .ok bs) :
    output h (.getTxData len) = bs := by
  unfold output
  dsimp only
  rw [hr]

theorem output_error {len : Nat} {e : Status} (hr : (getTxData h len).result = .error e) :
    output h (.getTxData len) = [] := by
  unfold output
  dsimp only
  rw [hr]

/-- The peer that is served is not registered: nothing is being sent. -/
theorem getTxDataLoop_unknown (hi : InStep h) (hp : (h.peers h.nextPeer).addr = invalidAddr)
    (len fuel : Nat) :
    getTxDataLoop len h.nextPeer (fuel + 1) true false h [] =
      if len = 0 then { h := h, result := .ok [], sent := [] }
      else { h := h, result := .error .unknownPeer, sent := [] } := by
  have ht : h.events.txSending = false := by
    rw [hi.busy]
    cases ho : h.hdlc.tx.originData with
    | none => rfl
    | some r => exact absurd hp (hi.next (by rw [ho]; nofun))
  unfold getTxDataLoop
  rw [ht, if_pos hp]
  simp

/-- The call, and that what it writes continues the wire. -/
theorem getTxData_call (hi : InStep h) (hw : Addressed h) (len : Nat) :
    InStep (getTxData h len).h ∧ TxCall h len ∧
      ∀ wire, WholeFrames wire h.hdlc.tx.Inside →
        WholeFrames (wire ++ output h (.getTxData len)) (getTxData h len).h.hdlc.tx.Inside := by
  by_cases hp : (h.peers h.nextPeer).addr = invalidAddr
  · have hloop := getTxDataLoop_unknown hi hp len
    have hcall : getTxData h len = _ := hloop (2 * len + 2)
    have hsame : (getTxData h len).h = h := by
      rw [hcall]
      split <;> rfl
    have hturn : ∀ turns, (getTxDataLoop len h.nextPeer turns true false h []).h = h := by
      intro turns
      cases turns with
      | zero => rfl
      | succ turns =>
        rw [hloop]
        split <;> rfl
    have hresult : (∃ bs, (getTxData h len).result = .ok bs ∧ bs.length ≤ len) ∨
        (getTxData h len).result = .error .unknownPeer ∧ (getTxData h len).h = h := by
      rw [hcall]
      split
      · exact .inl ⟨[], rfl, Nat.zero_le len⟩
      · exact .inr ⟨rfl, rfl⟩
    have hnone : output h (.getTxData len) = [] := by
      by_cases hlen : len = 0
      · exact output_ok (by rw [hcall, if_pos hlen])
      · exact output_error (by rw [hcall, if_neg hlen])
    refine ⟨by rw [hsame]; exact hi, ⟨fun fuel hf => ?_, fun turns n fuel hf => ?_, hresult, ?_, ?_,
      fun ht => ?_⟩, fun wire hwire => ?_⟩
    · obtain ⟨f, rfl⟩ : ∃ f, fuel = f + 1 := ⟨fuel - 1, by omega⟩
      exact (hloop f).trans hcall.symm
    · rw [hturn]
      exact hi.driver_stops hf
    · rw [hsame]
      exact .of_eq rfl
    · rw [hsame]
      exact hi.busy
    · rw [hi.busy] at ht
      exact absurd hp (hi.next (Option.ne_none_iff_isSome.mpr ht))
    · rw [hnone, hsame, List.append_nil]
      exact hwire
  · have hu : ¬Multi h → h.nextPeer = 0 := fun hm => (hw.single hm).2
    have hcont := fun fuel =>
      getTxDataLoopWith_continues (fun k => tryToSend k h.nextPeer)
        (fun _ => tryToSend_tried) len fuel true false h [] hw hi hu hp hp (Nat.zero_le len)
    simp only [← getTxDataLoop_eq] at hcont
    obtain ⟨⟨new, hc, hprog⟩, -⟩ := hcont (2 * len + 3)
    have hout : output h (.getTxData len) = new := output_ok hc.result
    refine ⟨hc.inStep, ⟨fun fuel hf => ?_, fun turns n fuel hf => ?_,
      .inl ⟨new, hc.result, hc.length⟩, hc.grows, hc.inStep.busy, fun ht hlen => ?_⟩,
      fun wire hwire => ?_⟩
    · induction fuel with
      | zero => omega
      | succ fuel ih =>
        by_cases hlast : 2 * len + 3 = fuel + 1
        · rw [← hlast]
          rfl
        · rw [(hcont fuel).2 (by simp; omega)]
          exact ih (by omega)
    · obtain ⟨⟨_, hck, -⟩, -⟩ := hcont turns
      exact hck.inStep.driver_stops hf
    · exact ⟨new, hc.result, hprog (by omega) ht hlen⟩
    · rw [hout]
      exact hc.frames wire hwire

/-! ## Runs -/

/-- Only `tiny_fd_get_tx_data` touches the transmitter. -/
theorem Around.tx {A : Handle W N → Prop} (ha : Around A h h₁) : h₁.hdlc.tx = h.hdlc.tx := by
  cases ha with
  | same _ hdlc =>
    obtain ⟨rx, buf, hll⟩ := hdlc
    rw [hll]
  | works hworks => rw [hworks.hdlc]
  | stores _ _ hs => rw [hs.hdlc]
  | register _ _ _ hr => rw [hr]; rfl

theorem initHandle_inStep (init : InitParams) {hdlc : HdlcLl (SlotRef W)} (millis : BitVec 32)
    (hll : Started hdlc) : InStep (initHandle W N init hdlc millis) := by
  obtain ⟨sz, llInit, a, hok⟩ := hll
  obtain ⟨-, htx, hcrc⟩ := hdlcLlInit_ok hok
  have hnone : hdlc.tx.originData = none := by rw [htx]; rfl
  have hstate : hdlc.tx.state = .sendStart := by rw [htx]; rfl
  refine ⟨?_, ⟨fun _ => hstate, fun _ hs => ?_, fun hs => ?_, fun hs => ?_⟩, ?_, fun r hr => ?_,
    fun i hr => ?_, fun hr => absurd hnone hr, fun r hfull => ?_⟩
  · show hdlc.crcType.value % 8 = 0
    rw [hcrc]
    exact value_mod_of_stored (stored_stored _)
  · have hs' : hdlc.tx.originData.isSome = true := hs
    rw [hnone] at hs'
    cases hs'
  · cases hstate.symm.trans hs
  · cases hstate.symm.trans hs
  · show false = hdlc.tx.originData.isSome
    rw [hnone]
    rfl
  · cases hnone.symm.trans hr
  · cases hnone.symm.trans hr
  · cases r <;> exact absurd rfl hfull

/-- A handle after calls that meet a condition, and all that it put on the wire. -/
inductive Produces (C : Handle W N → Call → Prop) : Handle W N → List Byte → Prop where
  | init {init : InitParams} {hdlc : HdlcLl (SlotRef W)} {millis : BitVec 32} (hmin : 2 ≤ W)
      (hmax : W ≤ 7) (hll : Started hdlc) : Produces C (initHandle W N init hdlc millis) []
  | call {h : Handle W N} {wire : List Byte} (c : Call) (hp : Produces C h wire) (hok : C h c) :
      Produces C (call h c) (wire ++ output h c)

/-- No condition on the calls. -/
def AnyCall (_ : Handle W N) (_ : Call) : Prop := True

variable {C : Handle W N → Call → Prop} {wire : List Byte}

theorem Produces.reaches (hp : Produces C h wire) : Reaches C h := by
  induction hp with
  | init hmin hmax hll => exact .init hmin hmax hll
  | call c _ hok ih => exact ih.call c hok

/-- The bytes that several calls put on the wire. -/
def outputs (h : Handle W N) : List Call → List Byte
  | [] => []
  | c :: calls => output h c ++ outputs (call h c) calls

theorem Produces.calls : ∀ {calls : List Call} {h : Handle W N} {wire : List Byte},
    Produces C h wire → CallsMeet C h calls →
      Produces C (calls.foldl Fd.call h) (wire ++ outputs h calls)
  | [], _, wire, hp, _ => by rwa [show outputs _ [] = [] from rfl, List.append_nil]
  | c :: calls, h, wire, hp, hok => by
    have hrest := (hp.call c hok.1).calls hok.2
    rw [List.append_assoc] at hrest
    exact hrest

/-- Every state has its wire. -/
theorem Reaches.produces (hr : Reaches C h) : ∃ wire, Produces C h wire := by
  induction hr with
  | init hmin hmax hll => exact ⟨[], .init hmin hmax hll⟩
  | call c _ hok ih =>
    obtain ⟨wire, hp⟩ := ih
    exact ⟨_, hp.call c hok⟩

theorem Produces.inStep (hp : Produces C h wire) : InStep h ∧ WholeFrames wire h.hdlc.tx.Inside := by
  induction hp with
  | @init init hdlc millis _ _ hll =>
    have hi := initHandle_inStep (N := N) init millis hll
    refine ⟨hi, .nil fun hin => hin (hi.sound.idle ?_)⟩
    obtain ⟨sz, llInit, a, hok⟩ := hll
    show hdlc.tx.originData = none
    rw [(hdlcLlInit_ok hok).2.1]
    rfl
  | @call h wire c hp _ ih =>
    obtain ⟨hi, hwire⟩ := ih
    have hw := hp.reaches.addressed
    by_cases hc : c.Transmits
    · cases c with
      | getTxData len =>
        obtain ⟨hi', -, hframes⟩ := getTxData_call hi hw len
        exact ⟨hi', hframes wire hwire⟩
      | _ => exact absurd hc id
    · have hkeep := call_rule (A := fun _ => True)
        (P := fun k => InStep k ∧ k.hdlc.tx = h.hdlc.tx) hw hc (fun _ _ _ => trivial)
        (fun k k' hwk hP ha => ⟨hP.1.around hwk ha, ha.tx.trans hP.2⟩) ⟨hi, rfl⟩
      have hnone : output h c = [] := by
        cases c with
        | getTxData len => exact absurd trivial hc
        | _ => rfl
      refine ⟨hkeep.1, ?_⟩
      rw [hnone, List.append_nil, hkeep.2]
      exact hwire

/-- Every call of `tiny_fd_get_tx_data` ends, and over any sequence of calls the wire is a
sequence of whole frames. -/
theorem whole_frames (hp : Produces AnyCall h wire) :
    (∀ len, TxCall h len) ∧ WholeFrames wire h.hdlc.tx.Inside :=
  ⟨fun len => (getTxData_call hp.inStep.1 hp.reaches.addressed len).2.1, hp.inStep.2⟩

/-- A connection, and one packet that is drained in parts. -/
def sendInParts : List Call :=
  [.onFrameRead [0x03, 0x3F], .getTxData 4, .getTxData 4, .sendPacketTo 0 [1, 2, 3, 4],
    .getTxData 4]

theorem whole_frames_sendInParts :
    (∀ len, TxCall (sendInParts.foldl call (smallHandle 2 1 .abm)) len) ∧
      WholeFrames ([] ++ outputs (smallHandle 2 1 .abm) sendInParts)
        (sendInParts.foldl call (smallHandle 2 1 .abm)).hdlc.tx.Inside :=
  whole_frames (.calls (.init (by decide) (by decide) (smallLl_started 2))
    ⟨trivial, trivial, trivial, trivial, trivial, trivial⟩)

end TinyProto.Fd
