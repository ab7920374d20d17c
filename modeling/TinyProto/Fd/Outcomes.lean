import TinyProto.Fd.Handling
import TinyProto.Fd.Window

/-!
# What sending can do

The outcomes of `tiny_fd_send_packet_to` (`Sent`), of the choice of a frame (`Chosen`), of a
try to send (`Selects`) and of `hdlc_ll_run_tx` (`runTx_form`).
-/

set_option linter.unusedSectionVars false

namespace TinyProto.Fd

open Hdlc

variable {W N : Nat} [NeZero W] [NeZero N] {h h₁ h₂ : Handle W N} {p : Fin N}

/-! ## The queue of the application -/

theorem Queue.hasFreeSlots_iff {n : Nat} [NeZero n] {q : Queue n} :
    q.hasFreeSlots = true ↔ ∃ i, (q.frames i).type = .free := by
  unfold Queue.hasFreeSlots
  rw [Option.isSome_iff_exists]
  constructor
  · rintro ⟨i, hi⟩
    have hf := Queue.getNext_some hi
    rw [Slot.fits_free, beq_iff_eq] at hf
    exact ⟨i, hf⟩
  · rintro ⟨i, hi⟩
    refine Queue.getNext_isSome (i := i) ?_
    rw [Slot.fits_free, hi]
    rfl

/-- The window moved up by a frame. -/
def IQueueControl.extend (c : IQueueControl) : IQueueControl := { c with lastNs := c.lastNs + 1 }

/-- What a payload for a peer leaves. -/
inductive Sent (h : Handle W N) (p : Fin N) (data : List Byte) : Handle W N → Prop where
  | refused : Sent h p data h
  | full (hf : h.iQueue.hasFreeSlots = false) :
      Sent h p data ((h.setEvents fun e => { e with queueHasFreeSlots := false }).setPeer p fun x =>
        { x with canAcceptIFrames := !x.iQueueControl.txFull })
  | stored {i : Fin W} (ha : (h.peers p).canAcceptIFrames = true)
      (hi : h.iQueue.getNext [.free] 0 0 = some i) :
      Sent h p data (({ h with
          iQueue := h.iQueue.setFrame i (newIFrame h p data)
          events := { h.events with
            txDataAvailable := true
            queueHasFreeSlots := (h.iQueue.setFrame i (newIFrame h p data)).hasFreeSlots }
          log := h.log ++ [.accepted p data] } : Handle W N).setPeer p fun x =>
        { x with
          iQueueControl := x.iQueueControl.extend
          canAcceptIFrames := !x.iQueueControl.extend.txFull })

/-- Updates that agree on the peer. -/
theorem setPeer_congr {f g : Peer → Peer} (hfg : f (h.peers p) = g (h.peers p)) :
    h.setPeer p f = h.setPeer p g := by
  unfold Handle.setPeer
  rw [hfg]

/-- The flag of a peer that was cleared is put back if the window is open. -/
theorem restore_flag (h : Handle W N) (p : Fin N) (hf : (h.peers p).canAcceptIFrames = false) :
    (if !(h.control p).txFull then h.setPeer p fun x =>
    { x with canAcceptIFrames := true } else h) =
      h.setPeer p fun x => { x with canAcceptIFrames := !x.iQueueControl.txFull } := by
  have hx : (h.peers p).iQueueControl.txFull = (h.control p).txFull := rfl
  split
  · next hopen =>
    refine setPeer_congr ?_
    rw [hx, hopen]
  · next hfull =>
    refine (setPeer_id ?_).symm
    rw [hx, eq_false_of_ne_true hfull, ← hf]

/-- The state behind the two waits. -/
def holdFlags (h : Handle W N) (p : Fin N) : Handle W N :=
  (h.setEvents fun e => { e with queueHasFreeSlots := false }).setPeer p fun x =>
    { x with canAcceptIFrames := false }

theorem holdFlags_peer (h : Handle W N) (p : Fin N) :
    (holdFlags h p).peers p = { h.peers p with canAcceptIFrames := false } := setPeer_self ..

/-- A handle that stored a payload, with the flags as the queue and the window say. -/
abbrev Handle.store (h : Handle W N) (p : Fin N) (i : Fin W) (data : List Byte) : Handle W N :=
  ({ h with
      iQueue := h.iQueue.setFrame i (newIFrame h p data)
      events := { h.events with
        txDataAvailable := true
        queueHasFreeSlots := (h.iQueue.setFrame i (newIFrame h p data)).hasFreeSlots }
      log := h.log ++ [.accepted p data] } : Handle W N).setPeer p fun x =>
    { x with
      iQueueControl := x.iQueueControl.extend
      canAcceptIFrames := !x.iQueueControl.extend.txFull }

theorem takePacket_stored {data : List Byte} {m : Handle W N}
    (hput : putIFrame? (holdFlags h p) p data = some m) :
    ∃ i, h.iQueue.getNext [.free] 0 0 = some i ∧
      takePacket (holdFlags h p) p data = (h.store p i data, .success) := by
  obtain ⟨i, hi, hm⟩ := putIFrame_first hput
  refine ⟨i, hi, ?_⟩
  have hnew : newIFrame (holdFlags h p) p data = newIFrame h p data := by
    unfold newIFrame peerToAddressField Handle.control
    rw [holdFlags_peer]
  rw [hnew] at hm
  have hform : ∀ b, ((m.emit (.accepted p data)).setEvents fun e =>
      { e with queueHasFreeSlots := b }) = ({ h with
        iQueue := h.iQueue.setFrame i (newIFrame h p data)
        events := { h.events with txDataAvailable := true, queueHasFreeSlots := b }
        log := h.log ++ [.accepted p data] } : Handle W N).setPeer p fun x =>
      { x with iQueueControl := x.iQueueControl.extend, canAcceptIFrames := false } := by
    intro b
    rw [hm]
    exact setPeer_setPeer ({ h with
        iQueue := h.iQueue.setFrame i (newIFrame h p data)
        events := { h.events with txDataAvailable := true, queueHasFreeSlots := b }
        log := h.log ++ [.accepted p data] } : Handle W N) p
      (fun x => { x with canAcceptIFrames := false })
      fun x => { x with iQueueControl := x.iQueueControl.extend }
  -- The flag of the queue is what the queue says now.
  obtain ⟨k, hk⟩ : ∃ k, k = (if (m.emit (.accepted p data)).iQueue.hasFreeSlots then
    (m.emit (.accepted p data)).setEvents fun e => { e with queueHasFreeSlots := true }
    else m.emit (.accepted p data)) := ⟨_, rfl⟩
  have hflag : k = (m.emit (.accepted p data)).setEvents fun e =>
      { e with queueHasFreeSlots :=
        (h.iQueue.setFrame i (newIFrame h p data)).hasFreeSlots } := by
    have hiq : (m.emit (.accepted p data)).iQueue = h.iQueue.setFrame i (newIFrame h p data) := by
      rw [hm]
      rfl
    rw [hk, hiq]
    split
    · next hfree => rw [hfree]
    · next hfree =>
      rw [eq_false_of_ne_true hfree, hm]
      rfl
  unfold takePacket
  rw [hput]
  dsimp only
  rw [← hk, hflag, hform, restore_flag _ p (by rw [setPeer_self]), setPeer_setPeer]
  rfl

theorem takePacket_sent (ha : (h.peers p).canAcceptIFrames = true) {data : List Byte}
    (hlen : data.length ≤ h.iQueue.mtu) : Sent h p data (takePacket (holdFlags h p) p data).1 := by
  cases hput : putIFrame? (holdFlags h p) p data with
  | none =>
    have hfree : h.iQueue.hasFreeSlots = false := by
      have hiq : (holdFlags h p).iQueue = h.iQueue := rfl
      unfold putIFrame? Queue.allocate at hput
      rw [Option.map_eq_none_iff, hiq, if_pos hlen, Option.map_eq_none_iff] at hput
      unfold Queue.hasFreeSlots
      rw [hput]
      rfl
    unfold takePacket
    rw [hput]
    dsimp only
    rw [restore_flag _ p (by rw [holdFlags_peer])]
    unfold holdFlags
    rw [setPeer_setPeer]
    exact .full hfree
  | some m =>
    obtain ⟨i, hi, he⟩ := takePacket_stored hput
    rw [he]
    exact .stored ha hi

theorem sendPacketTo_sent (h : Handle W N) (address : Byte) (data : List Byte) :
    (sendPacketTo h address data).1 = h ∨
      ∃ p, addressFieldToPeer h (sendAddress h address) = some p ∧
        Sent h p data (sendPacketTo h address data).1 := by
  unfold sendPacketTo
  cases hp : addressFieldToPeer h (sendAddress h address) with
  | none => exact .inl rfl
  | some p =>
    refine .inr ⟨p, rfl, ?_⟩
    dsimp only
    split
    · exact .refused
    · next hlen =>
      split
      · next ha =>
        split
        · exact takePacket_sent ha (Int.not_lt.mp hlen)
        · exact .refused
      · exact .refused

/-! ## The other calls -/

theorem sendUiPacketTo_cases (h : Handle W N) (address : Byte) (data : List Byte) :
    (sendUiPacketTo h address data).1 = h ∨
      ∃ p, addressFieldToPeer h (sendAddress h address) = some p ∧
      (sendUiPacketTo h address data).1 =
        putUSFrame h .uFrame (peerToAddressField h p) (uControl .ui) data := by
  unfold sendUiPacketTo
  split
  · exact .inl rfl
  · split
    · exact .inl rfl
    · next p hp =>
      cases hput : putUSFrame? h .uFrame (peerToAddressField h p) (uControl .ui) data with
      | none => exact .inl rfl
      | some k => exact .inr ⟨p, hp, putUSFrame_of_some hput⟩

theorem disconnect_cases (h : Handle W N) :
    (disconnect h).1 = h ∨ h.sQueue.hasFreeSlots = true ∧ (disconnect h).1 =
      (putUFrame h 0 crBit .disc).setPeer 0 fun x => { x with state := .disconnecting } := by
  unfold disconnect
  cases hput : putUSFrame? h .uFrame (peerToAddressField h 0 ||| crBit) (uControl .disc) [] with
  | none => exact .inl rfl
  | some k =>
    refine .inr ⟨putUSFrame_room hput, ?_⟩
    rw [putUSFrame_of_some hput]
    rfl

theorem registerPeer_cases (h : Handle W N) (address : Byte) :
    (registerPeer h address).1 = h ∨ ∃ p a ts, (h.peers p).addr = invalidAddr ∧
      a &&& 0x03 = 0x01 ∧ addressFieldToPeer h a = none ∧ (registerPeer h address).1 =
        h.setPeer p fun x => { x with addr := a, lastReceivedFrameTs := ts } := by
  unfold registerPeer
  split
  · exact .inl rfl
  · dsimp only
    split
    · exact .inl rfl
    · split
      · exact .inl rfl
      · next hnew =>
        split
        · exact .inl rfl
        · next p hp =>
          have hinv := List.find?_some hp
          rw [decide_eq_true_eq] at hinv
          rw [Option.not_isSome_iff_eq_none] at hnew
          exact .inr ⟨p, _, _, hinv, shift_bits address, hnew, rfl⟩

/-! ## The next frame -/

/-- The first S- or U-frame that waits for the peer. -/
def firstService (h : Handle W N) (p : Fin N) : Option (Fin 4) :=
  h.sQueue.getNext [.sFrame, .uFrame] (peerToAddressField h p) 0

/-- The slot holds an S- or U-frame for the address. -/
def Slot.Serves (s : Slot) (address : Byte) : Prop :=
  (s.type = .sFrame ∨ s.type = .uFrame) ∧ sameStation address s.address = true

theorem sameStation_flagged (h : Handle W N) (p : Fin N) {cr : Byte} (hcr : cr = 0 ∨ cr = crBit) :
    sameStation (peerToAddressField h p) (peerToAddressField h p ||| cr) = true := by
  unfold peerToAddressField
  generalize (h.peers p).addr = a
  rcases hcr with rfl | rfl
  · revert a
    decide +kernel
  · revert a
    decide +kernel

/-- An S- or U-frame for the peer waits. -/
def ServiceWaits (h : Handle W N) (p : Fin N) : Prop :=
  ∃ i, (h.sQueue.frames i).Serves (peerToAddressField h p)

instance Slot.serves_decidable (s : Slot) (address : Byte) : Decidable (s.Serves address) :=
  inferInstanceAs (Decidable (_ ∧ _))

instance serviceWaits_decidable : Decidable (ServiceWaits h p) :=
  inferInstanceAs (Decidable (∃ _, Slot.Serves _ _))

theorem serviceWaits_iff : ServiceWaits h p ↔ ∃ i, firstService h p = some i := by
  unfold ServiceWaits firstService
  constructor
  · rintro ⟨i, hi⟩
    exact Queue.getNext_isSome (i := i) (Slot.fits_sFrame_uFrame.mpr hi)
  · rintro ⟨i, hi⟩
    exact ⟨i, Slot.fits_sFrame_uFrame.mp (Queue.getNext_some hi)⟩

/-- The frame found is the first that waits. -/
theorem getNextSUFrame_first {k : Handle W N} {i : Fin 4} (hk : getNextSUFrame h p = (k, some i)) :
    firstService h p = some i := by
  unfold getNextSUFrame at hk
  unfold firstService
  split at hk
  · cases hk
  · next j hj =>
    obtain ⟨-, hij⟩ := Prod.mk.inj hk
    rw [hj, hij]

/-- A search that finds nothing clears a request at most. -/
theorem getNextIFrame_misses {k : Handle W N} (hi : getNextIFrame h p = (k, none)) :
    ∃ mask, k = h.setPeer p fun x => { x with srejReqMask := mask } := by
  have hsame : ∃ mask, h = h.setPeer p fun x => { x with srejReqMask := mask } :=
    ⟨(h.peers p).srejReqMask, (setPeer_id rfl).symm⟩
  unfold getNextIFrame at hi
  dsimp only at hi
  split at hi
  · cases hi
    exact hsame
  · split at hi
    · split at hi
      · cases hi
      · cases hi
        exact ⟨_, rfl⟩
    · split at hi
      · cases hi
      · cases hi
        exact hsame

theorem getNextIFrame_sQueue (h : Handle W N) (p : Fin N) :
    (getNextIFrame h p).1.sQueue = h.sQueue := by
  unfold getNextIFrame
  dsimp only
  split
  · rfl
  · split
    · split
      · rfl
      · rfl
    · split
      · rfl
      · rfl

theorem getNextSUFrame_sQueue (h : Handle W N) (p : Fin N) :
    (getNextSUFrame h p).1.sQueue = h.sQueue := by
  unfold getNextSUFrame
  split
  · rfl
  · dsimp only
    split
    · rfl
    · rfl

/-- A slot stays, or it is the chosen one and gets P/F. -/
theorem finishFrame_slot (h : Handle W N) (p : Fin N) (r r' : SlotRef W) :
    (finishFrame h p r).slot r' = h.slot r' ∨ r' = r ∧
      (finishFrame h p r).slot r' = { h.slot r' with control := (h.slot r').control ||| pBit } := by
  have hslot : (finishFrame h p r).slot r' = (if getsPoll h p (h.slot r).control then
      h.setSlot r fun s => { s with control := s.control ||| pBit } else h).slot r' := by
    cases r' <;> rfl
  rw [hslot]
  split
  · by_cases hr : r' = r
    · refine .inr ⟨hr, ?_⟩
      rw [hr, slot_setSlot_self]
    · exact .inl (slot_setSlot_ne h hr _)
  · exact .inl rfl

theorem finishFrame_mtu (h : Handle W N) (p : Fin N) (r : SlotRef W) :
    (finishFrame h p r).sQueue.mtu = h.sQueue.mtu := by
  unfold finishFrame
  dsimp only
  split
  · cases r <;> rfl
  · rfl

/-- What the search for a frame of the peer ends with. -/
inductive Chosen (h : Handle W N) (p : Fin N) : Handle W N × Option (SlotRef W) → Prop where
  | service {i : Fin 4} (hs : firstService h p = some i) :
      Chosen h p (finishFrame (getNextSUFrame h p).1 p (.sSlot i), some (.sSlot i))
  | iFrame {k : Handle W N} {i : Fin W} (hs : firstService h p = none)
      (hi : getNextIFrame h p = (k, some i)) :
        Chosen h p (finishFrame k p (.iSlot i), some (.iSlot i))
  /-- The frame that only passes the marker. -/
  | idle {k m : Handle W N} {i : Fin 4} (hs : firstService h p = none)
      (hi : getNextIFrame h p = (k, none)) (hm : h.settings.mode = .nrm)
      (hg : getNextSUFrame (putIdleFrame k p) p = (m, some i)) :
      Chosen h p (finishFrame m p (.sSlot i), some (.sSlot i))
  | noRoom {k : Handle W N} (hs : firstService h p = none) (hi : getNextIFrame h p = (k, none))
      (hm : h.settings.mode = .nrm) (hg : firstService (putIdleFrame k p) p = none) :
      Chosen h p (putIdleFrame k p, none)
  | nothing {k : Handle W N} (hs : firstService h p = none) (hi : getNextIFrame h p = (k, none))
      (hm : h.settings.mode ≠ .nrm) : Chosen h p (k, none)

theorem getNextIFrame_settings (h : Handle W N) (p : Fin N) :
    (getNextIFrame h p).1.settings = h.settings :=
  (getNextIFrame_prepares h p).1.settings

theorem getNextFrameToSend_chosen (h : Handle W N) (p : Fin N) :
    Chosen h p (getNextFrameToSend h p) := by
  unfold getNextFrameToSend chooseFrame
  rcases pickFrame_cases h p with ⟨k, i, hk, hsu⟩ | ⟨hs, ⟨k, i, hk, hi⟩ | ⟨k, hk, hi⟩⟩
  · rw [hk]
    have hserv := Chosen.service (getNextSUFrame_first hsu)
    rw [hsu] at hserv
    exact hserv
  · rw [hk]
    exact .iFrame hs hi
  · rw [hk]
    dsimp only
    have hset := getNextIFrame_settings h p
    rw [hi] at hset
    by_cases hm : k.settings.mode = .nrm
    · rw [if_pos hm]
      cases hg : getNextSUFrame (putIdleFrame k p) p with
      | mk m found =>
        cases found with
        | some i => exact .idle hs hi (hset ▸ hm) hg
        | none =>
          obtain ⟨rfl, hnone⟩ := getNextSUFrame_none hg
          exact .noRoom hs hi (hset ▸ hm) hnone
    · rw [if_neg hm]
      exact .nothing hs hi (hset ▸ hm)

/-! ## A try to send -/

/-- What the search for a frame of the peer touches, besides the service queue. -/
structure Selects (p : Fin N) (h h' : Handle W N) : Prop where
  settings : h'.settings = h.settings
  kaTimeout : h'.kaTimeout = h.kaTimeout
  millis : h'.millis = h.millis
  queueHasFreeSlots : h'.events.queueHasFreeSlots = h.events.queueHasFreeSlots
  slots : SameSlots h.iQueue h'.iQueue
  other : ∀ q, q ≠ p → h'.peers q = h.peers q
  peer : ∃ nr mask next its ts, h'.peers p = { h.peers p with
    sentNr := nr
    srejReqMask := mask
    iQueueControl := { (h.peers p).iQueueControl with nextNs := next }
    lastSentITs := its
    lastSentFrameTs := ts }

theorem Selects.of_eq (hset : h₁.settings = h.settings) (hka : h₁.kaTimeout = h.kaTimeout)
    (hm : h₁.millis = h.millis) (hf : h₁.events.queueHasFreeSlots = h.events.queueHasFreeSlots)
    (hi : h₁.iQueue = h.iQueue) (hp : h₁.peers = h.peers) : Selects p h h₁ := by
  refine ⟨hset, hka, hm, hf, ?_, fun q _ => by rw [hp], _, _, _, _, _, by rw [hp]⟩
  rw [hi]
  exact .refl _

theorem Selects.refl (p : Fin N) (h : Handle W N) : Selects p h h := .of_eq rfl rfl rfl rfl rfl rfl

theorem Selects.trans (hs : Selects p h h₁) (hs' : Selects p h₁ h₂) : Selects p h h₂ where
  settings := hs'.settings.trans hs.settings
  kaTimeout := hs'.kaTimeout.trans hs.kaTimeout
  millis := hs'.millis.trans hs.millis
  queueHasFreeSlots := hs'.queueHasFreeSlots.trans hs.queueHasFreeSlots
  slots := hs.slots.trans hs'.slots
  other q hq := (hs'.other q hq).trans (hs.other q hq)
  peer := by
    obtain ⟨_, _, _, _, _, hp⟩ := hs.peer
    obtain ⟨nr, mask, next, its, ts, hp'⟩ := hs'.peer
    exact ⟨nr, mask, next, its, ts, by rw [hp', hp]⟩

theorem Selects.setPeer (h : Handle W N) (p : Fin N) {f : Peer → Peer}
    (hf : ∀ x, ∃ nr mask next its ts, f x = { x with
      sentNr := nr
      srejReqMask := mask
      iQueueControl := { x.iQueueControl with nextNs := next }
      lastSentITs := its
      lastSentFrameTs := ts }) : Selects p h (h.setPeer p f) := by
  refine ⟨rfl, rfl, rfl, rfl, .refl _, fun q hq => setPeer_ne h hq f, ?_⟩
  rw [setPeer_self]
  exact hf _

theorem Selects.putUSFrame (h : Handle W N) (p : Fin N) (type : QueueType) (address control : Byte)
    (payload : List Byte) : Selects p h (putUSFrame h type address control payload) := by
  obtain ⟨q, b, he⟩ := putUSFrame_eq h type address control payload
  rw [he]
  exact .of_eq rfl rfl rfl rfl rfl rfl

theorem getNextSUFrame_selects (h : Handle W N) (p : Fin N) :
    Selects p h (getNextSUFrame h p).1 := by
  unfold getNextSUFrame
  split
  · exact .refl p h
  · dsimp only
    split
    · exact .setPeer h p fun x => ⟨_, x.srejReqMask, x.iQueueControl.nextNs, x.lastSentITs,
        x.lastSentFrameTs, rfl⟩
    · exact .refl p h

theorem refreshIFrame_selects (h : Handle W N) (p : Fin N) (i : Fin W) :
    Selects p h (refreshIFrame h p i) := by
  have hslot : Selects p h (h.setSlot (.iSlot i) fun s =>
      { s with control := s.control &&& 0x0F ||| (h.control p).nextNr.setWidth 8 <<< 5 }) :=
    { Selects.refl p h with slots := .setControl h.iQueue i (nsOf_refresh _ _) }
  exact hslot.trans (.setPeer _ p fun x => ⟨_, x.srejReqMask, x.iQueueControl.nextNs, _,
    x.lastSentFrameTs, rfl⟩)

theorem getNextIFrame_selects (h : Handle W N) (p : Fin N) :
    Selects p h (getNextIFrame h p).1 := by
  unfold getNextIFrame
  dsimp only
  split
  · exact .refl p h
  · split
    · next ns _ =>
      have hmask : Selects p h (h.setPeer p fun x =>
          { x with srejReqMask := x.srejReqMask &&& ~~~(1#8 <<< ns.val) }) :=
        .setPeer h p fun x => ⟨x.sentNr, _, x.iQueueControl.nextNs, x.lastSentITs,
          x.lastSentFrameTs, rfl⟩
      split
      · exact hmask.trans (refreshIFrame_selects _ p _)
      · exact hmask
    · split
      · exact (refreshIFrame_selects h p _).trans (.setPeer _ p fun x =>
          ⟨x.sentNr, x.srejReqMask, _, x.lastSentITs, x.lastSentFrameTs, rfl⟩)
      · exact .refl p h

theorem putIdleFrame_selects (h : Handle W N) (p : Fin N) : Selects p h (putIdleFrame h p) := by
  unfold putIdleFrame
  split
  · exact .putUSFrame h p _ _ _ _
  · exact .putUSFrame h p _ _ _ _

theorem finishFrame_selects (h : Handle W N) (p : Fin N) (r : SlotRef W) :
    Selects p h (finishFrame h p r) := by
  have hpoll : Selects p h (if getsPoll h p (h.slot r).control then
      h.setSlot r fun s => { s with control := s.control ||| pBit } else h) := by
    split
    · cases r with
      | iSlot i => exact { Selects.refl p h with slots := .setControl h.iQueue i (nsOf_poll _) }
      | sSlot i => exact .of_eq rfl rfl rfl rfl rfl rfl
    · exact .refl p h
  unfold finishFrame
  dsimp only
  generalize (if getsPoll h p (h.slot r).control = true then
    h.setSlot r fun s => { s with control := s.control ||| pBit } else h) = k at hpoll
  have hmark : Selects p k { k with lastMarkerTs := k.millis } := .of_eq rfl rfl rfl rfl rfl rfl
  have hts : Selects p { k with lastMarkerTs := k.millis }
      (({ k with lastMarkerTs := k.millis } : Handle W N).setPeer p fun x =>
        { x with lastSentFrameTs := k.millis }) :=
    .setPeer _ p fun x => ⟨x.sentNr, x.srejReqMask, x.iQueueControl.nextNs, x.lastSentITs, _, rfl⟩
  exact ((hpoll.trans hmark).trans hts).trans (.of_eq rfl rfl rfl rfl rfl rfl)

theorem chosen_selects {found : Handle W N × Option (SlotRef W)} (hc : Chosen h p found) :
    Selects p h found.1 := by
  have hi : ∀ {k : Handle W N} {i : Option (Fin W)}, getNextIFrame h p = (k, i) →
    Selects p h k := by
    intro k i hk
    have hs := getNextIFrame_selects h p
    rw [hk] at hs
    exact hs
  cases hc with
  | service => exact (getNextSUFrame_selects h p).trans (finishFrame_selects _ p _)
  | iFrame _ hk => exact (hi hk).trans (finishFrame_selects _ p _)
  | @idle k m i _ hk _ hg =>
    have hs := getNextSUFrame_selects (putIdleFrame k p) p
    rw [hg] at hs
    exact (((hi hk).trans (putIdleFrame_selects k p)).trans hs).trans (finishFrame_selects _ p _)
  | noRoom _ hk => exact (hi hk).trans (putIdleFrame_selects _ p)
  | nothing _ hk => exact hi hk

/-- How a try to send ends, with the choice it makes. -/
inductive Attempted (h : Handle W N) (p : Fin N) : Handle W N → Prop where
  | started {m : Handle W N} {r : SlotRef W} (hm : h.events.hasMarker = true)
      (hc : Chosen (h.setEvents fun e => { e with txDataAvailable := false }) p (m, some r))
      (hprep : Prepares p h m) (hf : FrameOf m p r) : Attempted h p (startFrame m r)
  | empty {m : Handle W N} (hm : h.events.hasMarker = true)
      (ha : h.events.txDataAvailable = true ∨ h.settings.mode = .nrm)
      (hc : Chosen (h.setEvents fun e => { e with txDataAvailable := false }) p (m, none))
      (hprep : Prepares p h m) : Attempted h p m
  | rested (hr : h.events.hasMarker = true →
      h.events.txDataAvailable = false ∧ h.settings.mode ≠ .nrm) : Attempted h p h
  | returned (hm : h.events.hasMarker = false) :
      Attempted h p ((h.setEvents fun e => { e with hasMarker := true }).emit .returnMarker)

theorem tryToSend_attempted (h : Handle W N) (p : Fin N) :
    Attempted h p (tryToSend h p).handle := by
  unfold tryToSend
  split
  · next hm =>
    split
    · next ha =>
      have hclear : Prepares p h (h.setEvents fun e => { e with txDataAvailable := false }) :=
        ⟨rfl, rfl, rfl, rfl, rfl, fun _ => rfl, fun r =>
          .inl ⟨(h.slot r).control, by cases r <;> rfl⟩⟩
      have hc := getNextFrameToSend_chosen
        (h.setEvents fun e => { e with txDataAvailable := false }) p
      obtain ⟨hprep, hchoice⟩ := getNextFrameToSend_prepares
        (h.setEvents fun e => { e with txDataAvailable := false }) p
      dsimp only
      generalize getNextFrameToSend (h.setEvents fun e => { e with txDataAvailable := false }) p =
        found at hc hprep hchoice
      obtain ⟨m, r⟩ := found
      cases r with
      | some r => exact .started hm hc (hclear.trans hprep) hchoice.1
      | none =>
        dsimp only
        split
        · exact .empty hm ha hc (hclear.trans hprep)
        · exact .empty hm ha hc (hclear.trans hprep)
    · next ha =>
      have hr : h.events.hasMarker = true →
          h.events.txDataAvailable = false ∧ h.settings.mode ≠ .nrm := by
        rw [not_or] at ha
        exact fun _ => ⟨eq_false_of_ne_true ha.1, ha.2⟩
      split
      · exact .rested hr
      · exact .rested hr
  · next hm =>
    split
    · split
      · exact .returned (eq_false_of_ne_true hm)
      · exact .rested fun hm' => absurd hm' hm
    · exact .rested fun hm' => absurd hm' hm

theorem tryToSend_selects (h : Handle W N) (p : Fin N) : Selects p h (tryToSend h p).handle := by
  have ht := tryToSend_attempted h p
  have hclear : Selects p h (h.setEvents fun e => { e with txDataAvailable := false }) :=
    .of_eq rfl rfl rfl rfl rfl rfl
  generalize (tryToSend h p).handle = k at ht
  cases ht with
  | started _ hc _ _ =>
    exact (hclear.trans (chosen_selects hc)).trans (.of_eq rfl rfl rfl rfl rfl rfl)
  | empty _ _ hc _ => exact hclear.trans (chosen_selects hc)
  | rested => exact .refl p h
  | returned => exact .of_eq rfl rfl rfl rfl rfl rfl

/-! ## A turn of the low level -/

/-- A turn of the low level touches no peer and no I-frame.  It may free the slot of the frame
it completes. -/
theorem runTx_form (hi : InStep h) (len : Nat) :
    ∃ ll q next marker sending, (runTx h len).1 =
        { h with
          hdlc := ll
          sQueue := q
          nextPeer := next
          events := { h.events with hasMarker := marker, txSending := sending } } ∧
      (q = h.sQueue ∨ ∃ i, h.hdlc.tx.originData = some (.sSlot i) ∧ q = h.sQueue.freeByHeader i) ∧
      (h.settings.mode ≠ .nrm → marker = h.events.hasMarker) := by
  have hran := runTx_ran hi len
  generalize (runTx h len).1 = k at hran
  generalize (runTx h len).2.1 = bs at hran
  cases hran with
  | @filled ll => exact ⟨ll, _, _, _, _, rfl, .inl rfl, fun _ => rfl⟩
  | @completed ll bs r n _ hod =>
    have hr := hi.resolves_ll hod ll
    unfold onFrameSend
    dsimp only
    split
    · next hnone => exact absurd hnone hr
    · obtain ⟨q, hq, hqueue⟩ := freed_eq { h with hdlc := ll } r
        (({ h with hdlc := ll } : Handle W N).slot r).control
      rw [hq]
      obtain ⟨next, marker, hm, -⟩ := releaseMarker_fields
        ({ h with hdlc := ll, sQueue := q } : Handle W N)
        (({ h with hdlc := ll } : Handle W N).slot r).control
      refine ⟨ll, q, next, marker, false, ?_, ?_, fun hnrm => ?_⟩
      · rw [hm]
        rfl
      · rcases hqueue with hsame | ⟨i, hri, hfree⟩
        · exact .inl hsame
        · exact .inr ⟨i, hod.trans (congrArg some hri), hfree⟩
      · unfold releaseMarker at hm
        rw [if_neg fun hn => hnrm hn.1] at hm
        exact (congrArg (fun k : Handle W N => k.events.hasMarker) hm).symm

end TinyProto.Fd
