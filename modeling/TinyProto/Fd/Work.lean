import Mathlib.Logic.Relation
import TinyProto.Fd.Calls
import TinyProto.Hdlc.Stream

/-!
# Work for a peer

What the calls other than `tiny_fd_get_tx_data` do to a handle, at most.  A frame from a
peer and the timeouts are work for the peer (`WorksFor`), a payload of the application is
stored for it (`Stores`), and every call is a sequence of such steps (`call_around`).
-/

set_option linter.unusedSectionVars false

namespace TinyProto.Fd

open Hdlc Relation

variable {W N : Nat} [NeZero W] [NeZero N] {h h₁ h₂ : Handle W N} {p q : Fin N}

/-! ## Work for a peer -/

/-- The frames that were chosen to be sent, with their peers. -/
def framesOut (log : List (Event N)) : List (Fin N × List Byte) :=
  log.filterMap fun
    | .frameOut p data => some (p, data)
    | _ => none

theorem framesOut_append (log log' : List (Event N)) :
    framesOut (log ++ log') = framesOut log ++ framesOut log' := List.filterMap_append

/-- What the work for one peer does to the handle, at most. -/
structure WorksFor (p : Fin N) (h h' : Handle W N) : Prop where
  settings : h'.settings = h.settings
  hdlc : h'.hdlc = h.hdlc
  nextPeer : h'.nextPeer = h.nextPeer
  millis : h'.millis = h.millis
  txSending : h'.events.txSending = h.events.txSending
  hasMarker : h'.events.hasMarker = h.events.hasMarker
  other : ∀ q, q ≠ p → h'.peers q = h.peers q
  addr : (h'.peers p).addr = (h.peers p).addr
  /-- Only slots of the peer are freed. -/
  iQueue : ∀ i, h'.iQueue.frames i = h.iQueue.frames i ∨
    sameStation (h.iQueue.frames i).address (h.peers p).addr ∧
      h'.iQueue.frames i = { h.iQueue.frames i with type := .free }
  /-- Only free slots are filled. -/
  sQueue : ∀ i, h'.sQueue.frames i = h.sQueue.frames i ∨
    (h.sQueue.frames i).type = .free ∧ (h'.sQueue.frames i).type ≠ .free ∧
      ∃ cr, (cr = 0 ∨ cr = crBit) ∧
        (h'.sQueue.frames i).address = peerToAddressField h p ||| cr
  out : framesOut h'.log = framesOut h.log

theorem WorksFor.refl (p : Fin N) (h : Handle W N) : WorksFor p h h :=
  ⟨rfl, rfl, rfl, rfl, rfl, rfl, fun _ _ => rfl, rfl, fun _ => .inl rfl, fun _ => .inl rfl, rfl⟩

theorem WorksFor.addressField (hw : WorksFor p h h₁) :
    peerToAddressField h₁ p = peerToAddressField h p := by
  unfold peerToAddressField
  rw [hw.addr]

theorem WorksFor.trans (hw : WorksFor p h h₁) (hw' : WorksFor p h₁ h₂) : WorksFor p h h₂ where
  settings := hw'.settings.trans hw.settings
  hdlc := hw'.hdlc.trans hw.hdlc
  nextPeer := hw'.nextPeer.trans hw.nextPeer
  millis := hw'.millis.trans hw.millis
  txSending := hw'.txSending.trans hw.txSending
  hasMarker := hw'.hasMarker.trans hw.hasMarker
  other q hq := (hw'.other q hq).trans (hw.other q hq)
  addr := hw'.addr.trans hw.addr
  out := hw'.out.trans hw.out
  iQueue i := by
    have hsecond := hw'.iQueue i
    rw [hw.addr] at hsecond
    rcases hw.iQueue i with hsame | ⟨hst, hfree⟩
    · rw [hsame] at hsecond
      exact hsecond
    · rw [hfree] at hsecond
      rcases hsecond with hsecond | ⟨-, hsecond⟩
      · exact .inr ⟨hst, hsecond⟩
      · exact .inr ⟨hst, hsecond⟩
  sQueue i := by
    have hsecond := hw'.sQueue i
    rw [hw.addressField] at hsecond
    rcases hw.sQueue i with hsame | ⟨hfree, hfull, haddr⟩
    · rw [hsame] at hsecond
      exact hsecond
    · rcases hsecond with hsecond | ⟨hfree', -⟩
      · rw [hsecond]
        exact .inr ⟨hfree, hfull, haddr⟩
      · exact absurd hfree' hfull

theorem WorksFor.setPeer (h : Handle W N) (p : Fin N) {f : Peer → Peer}
    (hf : (f (h.peers p)).addr = (h.peers p).addr) : WorksFor p h (h.setPeer p f) :=
  ⟨rfl, rfl, rfl, rfl, rfl, rfl, fun _ hq => setPeer_ne h hq f, setPeer_addr h p hf p,
    fun _ => .inl rfl, fun _ => .inl rfl, rfl⟩

theorem WorksFor.setEvents (h : Handle W N) (p : Fin N) {f : Events → Events}
    (htx : (f h.events).txSending = h.events.txSending)
    (hm : (f h.events).hasMarker = h.events.hasMarker) : WorksFor p h (h.setEvents f) :=
  ⟨rfl, rfl, rfl, rfl, htx, hm, fun _ _ => rfl, rfl, fun _ => .inl rfl, fun _ => .inl rfl, rfl⟩

theorem WorksFor.emit (h : Handle W N) (p : Fin N) {e : Event N} (he : framesOut [e] = []) :
    WorksFor p h (h.emit e) := by
  refine ⟨rfl, rfl, rfl, rfl, rfl, rfl, fun _ _ => rfl, rfl, fun _ => .inl rfl, fun _ => .inl rfl, ?_⟩
  show framesOut (h.log ++ [e]) = _
  rw [framesOut_append, he, List.append_nil]

/-! ## The service queue -/

theorem WorksFor.putUSFrame (h : Handle W N) (p : Fin N) {type : QueueType} {cr : Byte}
    (ht : type ≠ .free) (hcr : cr = 0 ∨ cr = crBit) (control : Byte) (payload : List Byte) :
    WorksFor p h (putUSFrame h type (peerToAddressField h p ||| cr) control payload) := by
  have hcases := putUSFrame_cases h type (peerToAddressField h p ||| cr) control payload
  obtain ⟨q, b, he⟩ := putUSFrame_eq h type (peerToAddressField h p ||| cr) control payload
  rw [he] at hcases ⊢
  refine ⟨rfl, rfl, rfl, rfl, rfl, rfl, fun _ _ => rfl, rfl, fun _ => .inl rfl, fun i => ?_, rfl⟩
  rcases hcases with hq | ⟨j, hj, hq⟩
  · exact .inl (congrArg (fun q : Queue 4 => q.frames i) hq)
  · have hq' : q = h.sQueue.setFrame j _ := hq
    show q.frames i = _ ∨ _ ∧ (q.frames i).type ≠ _ ∧ ∃ cr', _ ∧ (q.frames i).address = _
    rw [hq']
    by_cases hij : i = j
    · subst hij
      have hfree := Queue.getNext_some hj
      rw [Slot.fits_free, beq_iff_eq] at hfree
      rw [Queue.setFrame_self]
      exact .inr ⟨hfree, ht, cr, hcr, rfl⟩
    · rw [Queue.setFrame_ne _ hij]
      exact .inl rfl

theorem WorksFor.putSFrame (h : Handle W N) (p : Fin N) {cr : Byte} (hcr : cr = 0 ∨ cr = crBit)
    (type : SType) (poll : Byte) : WorksFor p h (putSFrame h p cr type poll) := by
  have ht : QueueType.sFrame ≠ .free := nofun
  exact .putUSFrame h p ht hcr _ _

theorem WorksFor.putUFrame (h : Handle W N) (p : Fin N) {cr : Byte} (hcr : cr = 0 ∨ cr = crBit)
    (type : UType) : WorksFor p h (putUFrame h p cr type) := by
  have ht : QueueType.uFrame ≠ .free := nofun
  exact .putUSFrame h p ht hcr _ _

/-! ## The I-frame queue -/

theorem sameStation_clear (a b : Byte) : sameStation (a &&& ~~~crBit) b = sameStation a b := by
  have hmask : ∀ a : Byte, a &&& ~~~crBit &&& 0xFC = a &&& 0xFC := by
    decide +kernel
  unfold sameStation
  rw [hmask]

theorem sameStation_addressField {a : Byte} (hs : sameStation (peerToAddressField h p) a) :
    sameStation a (h.peers p).addr := by
  rw [sameStation_comm]
  unfold peerToAddressField at hs
  rwa [sameStation_clear] at hs

theorem WorksFor.freeByHeader (h : Handle W N) {i : Fin W} {nr : Seq}
    (hi : h.iQueue.getNext [.iFrame] (peerToAddressField h p) nr = some i) :
    WorksFor p h { h with iQueue := h.iQueue.freeByHeader i } := by
  refine ⟨rfl, rfl, rfl, rfl, rfl, rfl, fun _ _ => rfl, rfl, fun j => ?_, fun _ => .inl rfl, rfl⟩
  by_cases hji : j = i
  · subst hji
    obtain ⟨-, hst, -⟩ := Slot.fits_iFrame.mp (Queue.getNext_some hi)
    exact .inr ⟨sameStation_addressField hst, Queue.freeByHeader_self ..⟩
  · exact .inl (Queue.freeByHeader_ne _ hji)

theorem onFrameConfirmed_works (h : Handle W N) (p : Fin N) (nr : Seq) :
    WorksFor p h (onFrameConfirmed h p nr) := by
  unfold onFrameConfirmed
  split
  · next i hi =>
    refine WorksFor.trans ?_ (.setPeer _ p rfl)
    have hfree : WorksFor p h { h.emit (.sent p (callbackAddress h p) (h.iQueue.frames i).payload)
        with iQueue := h.iQueue.freeByHeader i } :=
      (WorksFor.emit h p rfl).trans (.freeByHeader _ hi)
    dsimp only
    split
    · exact hfree.trans (.setEvents _ p rfl rfl)
    · exact hfree
  · exact .setPeer h p rfl

theorem confirmOne_works (h : Handle W N) (p : Fin N) : WorksFor p h (confirmOne h p) := by
  unfold confirmOne Handle.setControl
  exact (onFrameConfirmed_works h p _).trans (.setPeer _ p rfl)

theorem confirmSentFrames_works (h : Handle W N) (p : Fin N) (nr : Seq) :
    WorksFor p h (confirmSentFrames h p nr) := by
  have hloop : WorksFor p h (confirmLoop 8 h p nr) := by
    refine confirmLoop_rule (P := fun k => WorksFor p h k) (fun k hk _ _ => ?_) 8 h (.refl p h)
    exact hk.trans (confirmOne_works k p)
  unfold confirmSentFrames
  dsimp only
  split
  · exact hloop.trans (.setPeer _ p rfl)
  · exact hloop

theorem Resends.works (hr : Resends p h h₁) : WorksFor p h h₁ := by
  refine ⟨hr.settings, hr.hdlc, hr.nextPeer, hr.millis, hr.txSending, hr.hasMarker, hr.other,
    (hr.addr p).1, fun i => .inl (by rw [hr.iQueue]), fun i => ?_, by rw [hr.log]⟩
  rcases hr.sQueue with hs | ⟨j, payload, hj, hs⟩
  · exact .inl (by rw [hs])
  · rw [hs]
    by_cases hij : i = j
    · subst hij
      have hfree := Queue.getNext_some hj
      rw [Slot.fits_free, beq_iff_eq] at hfree
      rw [Queue.setFrame_self]
      exact .inr ⟨hfree, nofun, crBit, .inr rfl, rfl⟩
    · exact .inl (Queue.setFrame_ne _ hij _)

theorem Switches.works {connected : Bool} (hs : Switches p connected h h₁) : WorksFor p h h₁ := by
  refine ⟨hs.settings, hs.hdlc, hs.nextPeer, hs.millis, hs.txSending, hs.hasMarker, hs.other,
    hs.addr, fun i => ?_, fun i => .inl (by rw [hs.sQueue]), ?_⟩
  · rw [hs.iQueue]
    cases hst : sameStation (h.iQueue.frames i).address (peerToAddressField h p) with
    | false => exact .inl (Queue.resetFor_other hst)
    | true =>
      rw [sameStation_comm] at hst
      refine .inr ⟨sameStation_addressField hst, Queue.resetFor_same ?_⟩
      rwa [sameStation_comm]
  · obtain ⟨a, hlog⟩ := hs.log
    rw [hlog, framesOut_append]
    exact List.append_nil _

theorem switchToConnectedState_works (h : Handle W N) (p : Fin N) :
    WorksFor p h (switchToConnectedState h p) := by
  by_cases hs : (h.peers p).state ≠ .connected
  · exact (switchToConnectedState_switches h hs).works
  · unfold switchToConnectedState
    rw [if_neg hs]
    exact .refl p h

theorem switchToDisconnectedState_works (h : Handle W N) (p : Fin N) :
    WorksFor p h (switchToDisconnectedState h p) := by
  by_cases hs : (h.peers p).state ≠ .disconnected
  · exact (switchToDisconnectedState_switches h hs).works
  · unfold switchToDisconnectedState
    rw [if_neg hs]
    exact .refl p h

/-! ## Incoming frames -/

theorem checkReceivedFrame_works (h : Handle W N) (p : Fin N) (ns : Seq) :
    WorksFor p h (checkReceivedFrame h p ns).1 := by
  unfold checkReceivedFrame
  split
  · dsimp only
    unfold Handle.setControl
    rw [setPeer_setPeer]
    exact .setPeer h p rfl
  · split
    · exact (WorksFor.setPeer h p rfl).trans (.putSFrame _ p (.inr rfl) .rej 0)
    · exact .refl p h

theorem onIFrameRead_works (h : Handle W N) (p : Fin N) (control : Byte) (payload : List Byte) :
    WorksFor p h (onIFrameRead h p control payload) := by
  have hconf : WorksFor p h
      (confirmSentFrames (checkReceivedFrame h p (nsOf control)).1 p (nrOf control)) :=
    (checkReceivedFrame_works h p _).trans (confirmSentFrames_works _ p _)
  unfold onIFrameRead
  dsimp only
  split
  · refine hconf.trans ?_
    unfold deliver
    dsimp only
    split
    · exact (WorksFor.emit _ p rfl).trans (.putSFrame _ p (.inl rfl) .rr 0)
    · exact .emit _ p rfl
  · exact hconf

theorem resendAllUnconfirmedFrames_works (h : Handle W N) (p : Fin N) (control : Byte) (nr : Seq) :
    WorksFor p h (resendAllUnconfirmedFrames h p control nr) :=
  (resendAllUnconfirmedFrames_resends h p control nr).works

theorem onSFrameRead_works (h : Handle W N) (p : Fin N) (address control : Byte) :
    WorksFor p h (onSFrameRead h p address control) := by
  have hconf := confirmSentFrames_works h p (nrOf control)
  unfold onSFrameRead
  dsimp only
  split
  · exact hconf.trans (resendAllUnconfirmedFrames_works _ p control _)
  · split
    · split
      · exact hconf.trans (.putSFrame _ p (.inl rfl) .rr _)
      · exact hconf
    · split
      · exact hconf
      · exact (hconf.trans (.setPeer _ p rfl)).trans (.setEvents _ p rfl rfl)

theorem onConnectRequest_works (h : Handle W N) (p : Fin N) :
    WorksFor p h (onConnectRequest h p) := by
  have hua : WorksFor p h (putUFrame h p 0 .ua) := .putUFrame h p (.inl rfl) .ua
  unfold onConnectRequest
  dsimp only
  refine WorksFor.trans ?_ (switchToConnectedState_works _ p)
  split
  · exact hua.trans (switchToDisconnectedState_works _ p)
  · exact hua

theorem onFrameReject_works (h : Handle W N) (p : Fin N) : WorksFor p h (onFrameReject h p) := by
  unfold onFrameReject
  dsimp only
  refine (WorksFor.trans ?_ (.putUFrame _ p (.inr rfl) _)).trans (.setPeer _ p rfl)
  split
  · exact switchToDisconnectedState_works h p
  · exact .refl p h

theorem onAcknowledge_works (h : Handle W N) (p : Fin N) : WorksFor p h (onAcknowledge h p) := by
  unfold onAcknowledge
  split
  · exact switchToConnectedState_works h p
  · split
    · exact switchToDisconnectedState_works h p
    · exact .refl p h

theorem onUFrameRead_works (h : Handle W N) (p : Fin N) (address control : Byte)
    (payload : List Byte) : WorksFor p h (onUFrameRead h p address control payload) := by
  unfold onUFrameRead
  dsimp only
  split
  · split
    · exact .putUFrame h p (.inl rfl) .dm
    · exact .refl p h
  · split
    · exact onConnectRequest_works h p
    · split
      · exact (WorksFor.putUFrame h p (.inl rfl) .ua).trans (switchToDisconnectedState_works _ p)
      · split
        · exact (WorksFor.setPeer h p rfl).trans (.putUFrame _ p (.inl rfl) .ua)
        · split
          · exact onFrameReject_works h p
          · split
            · exact onAcknowledge_works h p
            · split
              · exact switchToDisconnectedState_works h p
              · split
                · exact .emit h p rfl
                · exact .refl p h

theorem onPeerFrame_works (h : Handle W N) (p : Fin N) (address control : Byte)
    (payload : List Byte) : WorksFor p h (onPeerFrame h p address control payload) := by
  unfold onPeerFrame
  split
  · exact onUFrameRead_works h p address control payload
  · split
    · exact .putUFrame h p (.inl rfl) .dm
    · split
      · exact onIFrameRead_works h p control payload
      · exact onSFrameRead_works h p address control

/-! ## Sending -/

/-- What accepting a payload for a peer does. -/
structure Stores (p : Fin N) (h h' : Handle W N) : Prop where
  settings : h'.settings = h.settings
  hdlc : h'.hdlc = h.hdlc
  nextPeer : h'.nextPeer = h.nextPeer
  millis : h'.millis = h.millis
  txSending : h'.events.txSending = h.events.txSending
  hasMarker : h'.events.hasMarker = h.events.hasMarker
  sQueue : h'.sQueue = h.sQueue
  other : ∀ q, q ≠ p → h'.peers q = h.peers q
  addr : (h'.peers p).addr = (h.peers p).addr
  /-- At most the first free slot is filled. -/
  iQueue : h'.iQueue = h.iQueue ∨ ∃ i data, h.iQueue.getNext [.free] 0 0 = some i ∧
    h'.iQueue = h.iQueue.setFrame i (newIFrame h p data)
  out : framesOut h'.log = framesOut h.log

theorem Stores.refl (p : Fin N) (h : Handle W N) : Stores p h h :=
  ⟨rfl, rfl, rfl, rfl, rfl, rfl, rfl, fun _ _ => rfl, rfl, .inl rfl, rfl⟩

theorem Stores.setPeer (hs : Stores p h h₁) {f : Peer → Peer}
    (hf : (f (h₁.peers p)).addr = (h₁.peers p).addr) : Stores p h (h₁.setPeer p f) :=
  ⟨hs.settings, hs.hdlc, hs.nextPeer, hs.millis, hs.txSending, hs.hasMarker, hs.sQueue,
    fun q hq => (setPeer_ne h₁ hq f).trans (hs.other q hq), (setPeer_addr h₁ p hf p).trans hs.addr,
    hs.iQueue, hs.out⟩

theorem Stores.setEvents (hs : Stores p h h₁) {f : Events → Events}
    (htx : (f h₁.events).txSending = h₁.events.txSending)
    (hm : (f h₁.events).hasMarker = h₁.events.hasMarker) : Stores p h (h₁.setEvents f) :=
  ⟨hs.settings, hs.hdlc, hs.nextPeer, hs.millis, htx.trans hs.txSending, hm.trans hs.hasMarker,
    hs.sQueue, hs.other, hs.addr, hs.iQueue, hs.out⟩

theorem Stores.putIFrame (hs : Stores p h h₁) (hi : h₁.iQueue = h.iQueue)
    (hc : h₁.control p = h.control p) {data : List Byte} (hput : putIFrame? h₁ p data = some h₂) :
    Stores p h h₂ := by
  obtain ⟨i, hfirst, rfl⟩ := putIFrame_first hput
  have hslot : newIFrame h₁ p data = newIFrame h p data := by
    unfold newIFrame peerToAddressField
    rw [hc, hs.addr]
  refine ⟨hs.settings, hs.hdlc, hs.nextPeer, hs.millis, hs.txSending, hs.hasMarker, hs.sQueue,
    fun q hq => (setPeer_ne _ hq _).trans (hs.other q hq), ?_, .inr ⟨i, data, ?_, ?_⟩, hs.out⟩
  · exact (setPeer_addr _ p rfl p).trans hs.addr
  · rw [← hi]
    exact hfirst
  · rw [← hslot, ← hi]
    rfl

theorem takePacket_stores (hs : Stores p h h₁) (hi : h₁.iQueue = h.iQueue)
    (hc : h₁.control p = h.control p) (data : List Byte) :
    Stores p h (takePacket h₁ p data).1 := by
  unfold takePacket
  cases hput : putIFrame? h₁ p data with
  | none =>
    dsimp only
    split
    · exact hs.setPeer rfl
    · exact hs
  | some k =>
    have hk := hs.putIFrame hi hc hput
    have he : Stores p h (k.emit (.accepted p data)) := by
      refine { hk with out := ?_ }
      rw [← hk.out]
      exact (framesOut_append ..).trans (List.append_nil _)
    have hf : Stores p h ((k.emit (.accepted p data)).setEvents fun e =>
        { e with queueHasFreeSlots := true }) := he.setEvents rfl rfl
    dsimp only
    split
    · split
      · exact hf.setPeer rfl
      · exact hf
    · split
      · exact he.setPeer rfl
      · exact he

theorem sendPacketTo_stores {address : Byte} (hp : addressFieldToPeer h (sendAddress h address) = some p)
    (data : List Byte) : Stores p h (sendPacketTo h address data).1 := by
  unfold sendPacketTo
  rw [hp]
  dsimp only
  split
  · exact .refl p h
  · split
    · split
      · refine takePacket_stores (.setEvents (.setPeer (.refl p h) rfl) rfl rfl) rfl ?_ data
        show (h.setPeer p fun x => { x with canAcceptIFrames := false }).control p = h.control p
        unfold Handle.control
        rw [setPeer_self]
      · exact .refl p h
    · exact .refl p h

/-! ## Between two transmissions -/

/-- What happens to a handle outside of `tiny_fd_get_tx_data`.  A payload is accepted where
`A` allows it. -/
inductive Around (A : Handle W N → Prop) : Handle W N → Handle W N → Prop where
  | same {h h' : Handle W N} (settings : h'.settings = h.settings) (hdlc : h.hdlc.RxOnly h'.hdlc)
      (txSending : h'.events.txSending = h.events.txSending) (iQueue : h'.iQueue = h.iQueue)
      (sQueue : h'.sQueue = h.sQueue) (nextPeer : h'.nextPeer = h.nextPeer)
      (peers : h'.peers = h.peers) (out : framesOut h'.log = framesOut h.log) : Around A h h'
  | works {h h' : Handle W N} {p : Fin N} (hw : WorksFor p h h') : Around A h h'
  | stores {h h' : Handle W N} {p : Fin N} (hp : Live h p) (ha : A h) (hs : Stores p h h') :
      Around A h h'
  | register {h h' : Handle W N} {p : Fin N} {a : Byte} {ts : BitVec 32}
      (hp : (h.peers p).addr = invalidAddr) (ha : a &&& 0x03 = 0x01)
      (hnew : addressFieldToPeer h a = none)
      (hr : h' = h.setPeer p fun x => { x with addr := a, lastReceivedFrameTs := ts }) :
      Around A h h'

variable {A : Handle W N → Prop}

theorem Around.mono {A' : Handle W N → Prop} (hle : ∀ h, A h → A' h) (ha : Around A h h₁) :
    Around A' h h₁ := by
  cases ha with
  | same settings hdlc txSending iQueue sQueue nextPeer peers out =>
    exact .same settings hdlc txSending iQueue sQueue nextPeer peers out
  | works hworks => exact .works hworks
  | stores hp ha hs => exact .stores hp (hle _ ha) hs
  | register hp ha hnew hr => exact .register hp ha hnew hr

theorem WorksFor.addr_eq (hw : WorksFor p h h₁) (q : Fin N) :
    (h₁.peers q).addr = (h.peers q).addr := by
  by_cases hq : q = p
  · rw [hq]
    exact hw.addr
  · rw [hw.other q hq]

theorem Stores.addr_eq (hs : Stores p h h₁) (q : Fin N) :
    (h₁.peers q).addr = (h.peers q).addr := by
  by_cases hq : q = p
  · rw [hq]
    exact hs.addr
  · rw [hs.other q hq]

theorem Addressed.congr (hw : Addressed h) (hset : h₁.settings = h.settings)
    (hnext : h₁.nextPeer = h.nextPeer) (haddr : ∀ q, (h₁.peers q).addr = (h.peers q).addr) :
    Addressed h₁ where
  station := by rw [hset]; exact hw.station
  single hm := by
    rw [Multi.congr hset] at hm
    simp only [haddr, hset, hnext]
    exact hw.single hm
  multi hm := by
    rw [Multi.congr hset] at hm
    simp only [haddr]
    exact hw.multi hm
  distinct hm := by
    rw [Multi.congr hset] at hm
    simp only [haddr]
    exact hw.distinct hm

theorem Addressed.around (hw : Addressed h) (ha : Around A h h₁) : Addressed h₁ := by
  cases ha with
  | same settings hdlc txSending iQueue sQueue nextPeer peers =>
    exact hw.congr settings nextPeer fun q => by rw [peers]
  | works hworks => exact hw.congr hworks.settings hworks.nextPeer hworks.addr_eq
  | stores _ _ hs => exact hw.congr hs.settings hs.nextPeer hs.addr_eq
  | @register p a ts hp ha hnew hr =>
    have hreg := hw.step (.register hp ha hnew)
    refine hreg.congr (by rw [hr]; rfl) (by rw [hr]; rfl) fun q => ?_
    rw [hr]
    by_cases hq : q = p
    · rw [hq, setPeer_self, setPeer_self]
    · rw [setPeer_ne h hq, setPeer_ne h hq]

theorem onFrameRead_around (h : Handle W N) (data : List Byte) :
    ReflTransGen (Around A) h (onFrameRead h data) := by
  unfold onFrameRead
  split
  · next address control payload =>
    dsimp only
    obtain ⟨k, hk⟩ : ∃ k, k = h.emit (.frameIn (address :: control :: payload)) := ⟨_, rfl⟩
    have hemit : Around A h k := by
      rw [hk]
      exact .same rfl (.refl _) rfl rfl rfl rfl rfl
        ((framesOut_append ..).trans (List.append_nil _))
    rw [← hk]
    split
    · exact .single hemit
    · next p _ =>
      have hworks : WorksFor p k (onPeerFrame (noteReceived k p) p address control payload) :=
        (WorksFor.setPeer k p rfl).trans (onPeerFrame_works _ p _ _ _)
      refine (ReflTransGen.single hemit).tail (.works hworks) |>.trans ?_
      unfold captureMarker
      split
      · exact .single (.same rfl (.refl _) rfl rfl rfl rfl rfl rfl)
      · exact .refl
  · exact .refl

theorem sendUiPacketTo_works (h : Handle W N) (address : Byte) (data : List Byte) :
    ∃ p, WorksFor p h (sendUiPacketTo h address data).1 := by
  unfold sendUiPacketTo
  split
  · exact ⟨0, .refl 0 h⟩
  · split
    · exact ⟨0, .refl 0 h⟩
    · next p _ =>
      refine ⟨p, ?_⟩
      cases hput : putUSFrame? h .uFrame (peerToAddressField h p) (uControl .ui) data with
      | none => exact .refl p h
      | some k =>
        have hk := putUSFrame_of_some hput
        rw [← BitVec.or_zero (x := peerToAddressField h p)] at hk
        show WorksFor p h k
        rw [hk]
        have ht : QueueType.uFrame ≠ .free := QueueType.noConfusion
        exact .putUSFrame h p ht (.inl rfl) _ _

theorem disconnect_works (h : Handle W N) : WorksFor 0 h (disconnect h).1 := by
  unfold disconnect
  cases hput : putUSFrame? h .uFrame (peerToAddressField h 0 ||| crBit) (uControl .disc) [] with
  | none => exact .refl 0 h
  | some k =>
    have hk := putUSFrame_of_some hput
    have ht : QueueType.uFrame ≠ .free := nofun
    have hworks : WorksFor 0 h k := by
      rw [hk]
      exact .putUSFrame h 0 ht (.inr rfl) _ _
    exact hworks.trans (@WorksFor.setPeer _ _ _ _ k 0 (fun x => { x with state := .disconnecting }) rfl)

theorem registerPeer_around (h : Handle W N) (address : Byte) :
    ReflTransGen (Around A) h (registerPeer h address).1 := by
  unfold registerPeer
  split
  · exact .refl
  · dsimp only
    split
    · exact .refl
    · split
      · exact .refl
      · next hnew =>
        split
        · exact .refl
        · next p hp =>
          have hinv := List.find?_some hp
          rw [decide_eq_true_eq] at hinv
          rw [Option.not_isSome_iff_eq_none] at hnew
          exact .single (.register hinv (shift_bits address) hnew rfl)

/-- The call of the transmission. -/
def Call.Transmits : Call → Prop
  | .getTxData _ => True
  | _ => False

/-- Every other call is such a sequence. -/
theorem call_around (hw : Addressed h) (c : Call) (hc : ¬c.Transmits)
    (hA : ∀ address data, c = .sendPacketTo address data → A h) :
    ReflTransGen (Around A) h (call h c) := by
  cases c with
  | sendPacketTo address data =>
    cases hp : addressFieldToPeer h (sendAddress h address) with
    | none =>
      have hsame : (sendPacketTo h address data).1 = h := by
        unfold sendPacketTo
        rw [hp]
      show ReflTransGen (Around A) h (sendPacketTo h address data).1
      rw [hsame]
    | some p =>
      exact .single (.stores (hw.live_of_found hp) (hA address data rfl) (sendPacketTo_stores hp data))
  | sendUiPacketTo address data =>
    obtain ⟨p, hworks⟩ := sendUiPacketTo_works h address data
    exact .single (.works hworks)
  | disconnect => exact .single (.works (disconnect_works h))
  | registerPeer address => exact registerPeer_around h address
  | setKaTimeout keepAlive => exact .single (.same rfl (.refl _) rfl rfl rfl rfl rfl rfl)
  | onRxData data =>
    have hll : Around A h { h with hdlc := (onRxData h.hdlc data).1 } :=
      .same rfl (onRxData_rxOnly _ _) rfl rfl rfl rfl rfl rfl
    have hframes : ∀ (frames : List (List Byte)) (k : Handle W N),
        ReflTransGen (Around A) k (frames.foldl onFrameRead k) := by
      intro frames
      induction frames with
      | nil => exact fun k => .refl
      | cons data frames ih => exact fun k => (onFrameRead_around k data).trans (ih _)
    exact (ReflTransGen.single hll).trans (hframes _ _)
  | onFrameRead data => exact onFrameRead_around h data
  | getTxData len => exact absurd trivial hc
  | tick ms => exact .single (.same rfl (.refl _) rfl rfl rfl rfl rfl rfl)

/-- What all of it preserves, the calls preserve. -/
theorem call_rule {P : Handle W N → Prop} (hw : Addressed h) {c : Call} (hc : ¬c.Transmits)
    (hA : ∀ address data, c = .sendPacketTo address data → A h)
    (hstep : ∀ k k', Addressed k → P k → Around A k k' → P k') (hP : P h) : P (call h c) := by
  have hrun := call_around hw c hc hA
  generalize call h c = k at hrun
  have hboth : Addressed k ∧ P k := by
    induction hrun with
    | refl => exact ⟨hw, hP⟩
    | tail _ hs ih => exact ⟨ih.1.around hs, hstep _ _ ih.1 ih.2 hs⟩
  exact hboth.2

end TinyProto.Fd
