import TinyProto.Fd.Effects
import TinyProto.Lib.Runs

/-!
# Elementary steps

Every call on a handle is made of a few kinds of elementary steps (`Step`): a frame is
queued, acknowledged frames are confirmed, a connection is opened or closed, a frame is
chosen for sending, and so on.  Everything else a call does is *quiet*: it touches only
timestamps, flags and the low level.

`call_run` says that every call is a run of elementary steps.  What each elementary step
preserves is therefore preserved by every sequence of calls.
-/

set_option linter.unusedSectionVars false

namespace TinyProto.Fd

open Hdlc Runs

variable {W N : Nat} {h h' : Handle W N} {p : Fin N}

/-! ## Quiet changes -/

/-- A callback that is no part of the exchange of I-frames. -/
def Event.Neutral : Event N → Prop
  | .frameIn _ | .readUi .. | .returnMarker => True
  | _ => False

/-- The peer changed in its timestamps and flags only, and accepts no more than before. -/
structure Peer.Quiet (x y : Peer) : Prop where
  state : y.state = x.state
  addr : y.addr = x.addr
  control : y.iQueueControl = x.iQueueControl
  accepts : y.canAcceptIFrames → x.canAcceptIFrames

/-- The handle changed in its timestamps, flags and the low level only. -/
structure Quiet (h h' : Handle W N) : Prop where
  settings : h'.settings = h.settings
  iQueue : h'.iQueue = h.iQueue
  sQueue : h'.sQueue = h.sQueue
  nextPeer : h'.nextPeer = h.nextPeer
  log : ∃ es, h'.log = h.log ++ es ∧ ∀ e ∈ es, e.Neutral
  peer : ∀ p, (h.peers p).Quiet (h'.peers p)

theorem Peer.Quiet.refl (x : Peer) : x.Quiet x := ⟨rfl, rfl, rfl, id⟩

theorem Quiet.refl (h : Handle W N) : Quiet h h :=
  ⟨rfl, rfl, rfl, rfl, ⟨[], by simp, by simp⟩, fun _ => .refl _⟩

theorem Quiet.control (hq : Quiet h h') (p : Fin N) : h'.control p = h.control p :=
  (hq.peer p).control

theorem Quiet.addressField (hq : Quiet h h') (p : Fin N) :
    peerToAddressField h' p = peerToAddressField h p := by
  unfold peerToAddressField
  rw [(hq.peer p).addr]

/-- A peer changed in its timestamps and flags. -/
theorem Quiet.setPeer (h : Handle W N) (p : Fin N) {f : Peer → Peer}
    (hf : (h.peers p).Quiet (f (h.peers p))) : Quiet h (h.setPeer p f) where
  settings := rfl
  iQueue := rfl
  sQueue := rfl
  nextPeer := rfl
  log := ⟨[], (List.append_nil _).symm, by simp⟩
  peer := setPeer_forall (P := fun q x => (h.peers q).Quiet x) hf fun _ _ => .refl _

theorem Quiet.emit (h : Handle W N) {e : Event N} (he : e.Neutral) : Quiet h (h.emit e) where
  settings := rfl
  iQueue := rfl
  sQueue := rfl
  nextPeer := rfl
  log := ⟨[e], rfl, by simpa using he⟩
  peer _ := .refl _

theorem Quiet.setEvents (h : Handle W N) (f : Events → Events) : Quiet h (h.setEvents f) :=
  ⟨rfl, rfl, rfl, rfl, ⟨[], (List.append_nil _).symm, by simp⟩, fun _ => .refl _⟩

/-! ## Elementary steps -/

variable [NeZero W] [NeZero N]

/-- Frames from the address of the peer are for the peer.  Only then is anything done for
it.  A registered peer of a primary has this, and the first peer of any other station. -/
def Live (h : Handle W N) (p : Fin N) : Prop :=
  addressFieldToPeer h (h.peers p).addr = some p ∧ (h.peers p).addr &&& 0x03 = 0x01

/-- I- and S-frames of the peer are handled. -/
def Linked (h : Handle W N) (p : Fin N) : Prop :=
  (h.peers p).state = .connected ∨ (h.peers p).state = .disconnecting

instance : Decidable (Linked h p) := inferInstanceAs (Decidable (_ ∨ _))

theorem not_linked_iff :
    ¬Linked h p ↔ (h.peers p).state = .disconnected ∨ (h.peers p).state = .connecting := by
  unfold Linked
  cases (h.peers p).state <;> simp

theorem ne_connected (hl : ¬Linked h p) : (h.peers p).state ≠ .connected := fun hs =>
  hl (.inl hs)

theorem Linked.ne_disconnected (hl : Linked h p) : (h.peers p).state ≠ .disconnected := by
  intro hs
  exact not_linked_iff.mpr (.inl hs) hl

/-- The expected I-frame: N(R) moves, the acknowledged frames are confirmed, and the payload
goes to the user. -/
def receiveFrame (h : Handle W N) (p : Fin N) (nr : Seq) (payload : List Byte) : Handle W N :=
  let h := confirmSentFrames (h.setControl p fun c => { c with nextNr := c.nextNr + 1 }) p nr
  h.emit (.read p (callbackAddress h p) payload)

/-- A frame was chosen: it may get P/F, and is logged. -/
def markChosen (h : Handle W N) (p : Fin N) (r : SlotRef W) (poll : Bool) : Handle W N :=
  let h := if poll then h.setSlot r fun s => { s with control := s.control ||| pBit } else h
  h.emit (.frameOut p (h.slot r).bytes)

/-- An I-frame gets the current N(R). -/
def refreshSlot (h : Handle W N) (p : Fin N) (i : Fin W) : Handle W N :=
  h.setSlot (.iSlot i) fun s =>
    { s with control := s.control &&& 0x0F ||| (h.control p).nextNr.setWidth 8 <<< 5 }

/-- The kinds of elementary steps. -/
inductive Act (N : Nat) where
  | quiet
  /-- A peer is registered. -/
  | register (p : Fin N)
  /-- The next peer has its turn. -/
  | turn (p : Fin N)
  /-- An S- or U-frame is queued for the peer. -/
  | put (p : Fin N)
  /-- The slot of an S- or U-frame is freed. -/
  | free (i : Fin 4)
  /-- Acknowledged frames are confirmed up to N(R). -/
  | confirm (p : Fin N) (nr : Seq)
  /-- The same for a REJ, which also asks for the rest again. -/
  | reject (p : Fin N) (nr : Seq)
  /-- The same for the I-frame that was expected. -/
  | receive (p : Fin N) (nr : Seq)
  /-- The unconfirmed frames are sent again after a timeout. -/
  | resend (p : Fin N)
  | connect (p : Fin N)
  | disconnect (p : Fin N)
  /-- RSET. -/
  | reset (p : Fin N)
  /-- A connection was requested. -/
  | request (p : Fin N)
  /-- `tiny_fd_disconnect` was called. -/
  | hangUp (p : Fin N)
  /-- An S- or U-frame is chosen for sending. -/
  | chooseService (p : Fin N) (i : Fin 4)
  /-- An I-frame is chosen for sending. -/
  | chooseIFrame (p : Fin N)
  /-- A payload of the application is queued. -/
  | accept (p : Fin N)
deriving DecidableEq

/-- The elementary steps. -/
inductive Step : Handle W N → Act N → Handle W N → Prop where
  | quiet {h h' : Handle W N} (hq : Quiet h h') : Step h .quiet h'
  | register {h : Handle W N} {p : Fin N} {a : Byte} (hp : (h.peers p).addr = invalidAddr)
      (ha : a &&& 0x03 = 0x01) (hnew : addressFieldToPeer h a = none) :
      Step h (.register p) (h.setPeer p fun x => { x with addr := a })
  | turn {h : Handle W N} {p : Fin N} (hm : h.settings.mode = .nrm ∧ h.isPrimaryStation)
      (hp : (h.peers p).addr ≠ invalidAddr) :
      Step h (.turn p) { h with nextPeer := p }
  | putS {h : Handle W N} {p : Fin N} {cr poll : Byte} (type : SType) (hcr : cr = 0 ∨ cr = crBit)
      (hpoll : poll = 0 ∨ poll = pBit) (hl : Linked h p ∨ h.settings.mode = .nrm) :
      Step h (.put p) (putSFrame h p cr type poll)
  | putU {h : Handle W N} {p : Fin N} {cr : Byte} {type : QueueType} {u : UType}
      {payload : List Byte} (hcr : cr = 0 ∨ cr = crBit)
      (hua : u = .ua → h.control p = IQueueControl.reset)
      (hsabm : u = .sabm ∨ u = .snrm → ¬Linked h p) :
      Step h (.put p) (putUSFrame h type (peerToAddressField h p ||| cr) (uControl u) payload)
  | free {h : Handle W N} {i : Fin 4} :
      Step h (.free i) { h with sQueue := h.sQueue.freeByHeader i }
  | confirm {h : Handle W N} {p : Fin N} {nr : Seq} (hp : Live h p) (hl : Linked h p) :
      Step h (.confirm p nr) (confirmSentFrames h p nr)
  | reject {h : Handle W N} {p : Fin N} {control : Byte} (hp : Live h p) (hl : Linked h p) :
      Step h (.reject p (nrOf control))
        (resendAllUnconfirmedFrames (confirmSentFrames h p (nrOf control)) p control (nrOf control))
  | receive {h : Handle W N} {p : Fin N} {nr : Seq} {payload : List Byte} (hp : Live h p)
      (hl : Linked h p) : Step h (.receive p nr) (receiveFrame h p nr payload)
  | resend {h : Handle W N} {p : Fin N} (hp : Live h p) (hl : Linked h p)
      (hs : (h.control p).allFramesAreSent) :
      Step h (.resend p) (resendAllUnconfirmedFrames h p 0 (h.control p).confirmNs)
  | connect {h : Handle W N} {p : Fin N} (hp : Live h p) (hl : ¬Linked h p) :
      Step h (.connect p) (switchToConnectedState h p)
  | disconnect {h : Handle W N} {p : Fin N} (hp : Live h p)
      (hs : (h.peers p).state ≠ .disconnected) :
      Step h (.disconnect p) (switchToDisconnectedState h p)
  | reset {h : Handle W N} {p : Fin N} (hp : Live h p) :
      Step h (.reset p) (h.setPeer p Peer.resetCounters)
  | request {h : Handle W N} {p : Fin N} (hl : ¬Linked h p) :
      Step h (.request p) (h.setPeer p fun x => { x with state := .connecting })
  | hangUp {h : Handle W N} {p : Fin N} :
      Step h (.hangUp p) (h.setPeer p fun x => { x with state := .disconnecting })
  | chooseService {h : Handle W N} {p : Fin N} {i : Fin 4} (poll : Bool) (hp : Live h p)
      (hi : h.sQueue.getNext [.sFrame, .uFrame] (peerToAddressField h p) 0 = some i) :
      Step h (.chooseService p i) (markChosen h p (.sSlot i) poll)
  | chooseNext {h : Handle W N} {p : Fin N} {i : Fin W} (poll : Bool) (hp : Live h p)
      (hl : Linked h p)
      (hs : h.sQueue.getNext [.sFrame, .uFrame] (peerToAddressField h p) 0 = none)
      (hi : h.iQueue.getNext [.iFrame] (peerToAddressField h p) (h.control p).nextNs = some i) :
      Step h (.chooseIFrame p)
        (markChosen ((refreshSlot h p i).setControl p fun c => { c with nextNs := c.nextNs + 1 }) p
          (.iSlot i) poll)
  | chooseRequested {h : Handle W N} {p : Fin N} {i : Fin W} {ns : Seq} (poll : Bool)
      (hp : Live h p) (hl : Linked h p)
      (hs : h.sQueue.getNext [.sFrame, .uFrame] (peerToAddressField h p) 0 = none)
      (hi : h.iQueue.getNext [.iFrame] (peerToAddressField h p) ns = some i) :
      Step h (.chooseIFrame p) (markChosen (refreshSlot h p i) p (.iSlot i) poll)
  | accept {h h' : Handle W N} {p : Fin N} {data : List Byte} (hp : Live h p)
      (ha : (h.peers p).canAcceptIFrames) (hput : putIFrame? h p data = some h') :
      Step h (.accept p) (h'.emit (.accepted p data))

/-! ## Addresses -/

/-- The handle talks to several stations, which have to be registered. -/
def Multi (h : Handle W N) : Prop := h.isPrimaryStation ∧ h.settings.mode ≠ .abm

instance : Decidable (Multi h) := inferInstanceAs (Decidable (_ ∧ _))

/-- The addresses as `tiny_fd_init` and `tiny_fd_register_peer` make them. -/
structure Addressed (h : Handle W N) : Prop where
  station : h.settings.addr &&& 0x03 = 0x01
  single : ¬Multi h → (∀ p, (h.peers p).addr = h.settings.addr) ∧ h.nextPeer = 0
  multi : Multi h → ∀ p, (h.peers p).addr ≠ invalidAddr → (h.peers p).addr &&& 0x03 = 0x01
  distinct : Multi h → ∀ p q, (h.peers p).addr = (h.peers q).addr →
    (h.peers p).addr ≠ invalidAddr → p = q

/-- An address field of a station: E set, C/R clear. -/
theorem clear_cr {a : Byte} (ha : a &&& 0x03 = 0x01) : a &&& ~~~crBit = a ∧ a &&& eBit ≠ 0 := by
  revert a; decide +kernel

theorem clear_cr_of_eBit {a : Byte} (ha : a &&& ~~~crBit &&& eBit ≠ 0) :
    a &&& ~~~crBit &&& 0x03 = 0x01 := by
  revert a; decide +kernel

theorem invalidAddr_bits : invalidAddr &&& 0x03 ≠ 0x01 := by decide

/-- Stations with the same six address bits have the same address field. -/
theorem eq_of_sameStation {a b : Byte} (ha : a &&& 0x03 = 0x01) (hb : b &&& 0x03 = 0x01)
    (hs : sameStation a b = true) : a = b := by
  have split (c : Byte) : c = (c &&& 0xFC) ||| (c &&& 0x03) := by revert c; decide +kernel
  unfold sameStation at hs
  rw [beq_iff_eq] at hs
  rw [split a, split b, ha, hb, hs]

theorem addressFieldToPeer_eq (h : Handle W N) (a : Byte) :
    addressFieldToPeer h a =
      if a &&& ~~~crBit &&& eBit = 0 then none
      else if ¬Multi h then if a &&& ~~~crBit = h.settings.addr then some 0 else none
      else (List.finRange N).find? fun p => (h.peers p).addr = a &&& ~~~crBit := by
  have hm : (h.isSecondaryStation = true ∨ h.settings.mode = .abm) ↔ ¬Multi h := by
    unfold Multi Handle.isSecondaryStation
    cases h.isPrimaryStation <;> simp
  unfold addressFieldToPeer
  simp only [hm]

/-- The peer that a lookup finds has the address. -/
theorem Addressed.found (hw : Addressed h) {a : Byte} (hf : addressFieldToPeer h a = some p) :
    (h.peers p).addr = a &&& ~~~crBit ∧ (h.peers p).addr &&& 0x03 = 0x01 := by
  rw [addressFieldToPeer_eq] at hf
  split at hf
  · cases hf
  · next he =>
    have hbits := clear_cr_of_eBit he
    split at hf
    · next hm =>
      split at hf
      · next ha =>
        cases hf
        rw [(hw.single hm).1, ha]
        exact ⟨rfl, hw.station⟩
      · cases hf
    · have ha := List.find?_some hf
      rw [decide_eq_true_eq] at ha
      rw [ha]
      exact ⟨rfl, hbits⟩

/-- A peer with an address is the one that is found for it, if it is the only one. -/
theorem Addressed.live_of_unique (hw : Addressed h) (ha : (h.peers p).addr ≠ invalidAddr)
    (hu : ¬Multi h → p = 0) : Live h p := by
  by_cases hm : Multi h
  · have hbits := hw.multi hm p ha
    refine ⟨?_, hbits⟩
    rw [addressFieldToPeer_eq, (clear_cr hbits).1, if_neg (clear_cr hbits).2, if_neg (not_not.mpr hm)]
    cases hf : (List.finRange N).find? fun q => (h.peers q).addr = (h.peers p).addr with
    | none =>
      have := List.find?_eq_none.mp hf p (List.mem_finRange p)
      simp at this
    | some q =>
      have hq := List.find?_some hf
      rw [decide_eq_true_eq] at hq
      rw [hw.distinct hm p q hq.symm ha]
  · have hs := hw.station
    refine ⟨?_, by rw [(hw.single hm).1]; exact hs⟩
    rw [addressFieldToPeer_eq, (hw.single hm).1, (clear_cr hs).1, if_neg (clear_cr hs).2, if_pos hm,
      if_pos rfl, hu hm]

theorem Addressed.live_of_found (hw : Addressed h) {a : Byte}
    (hf : addressFieldToPeer h a = some p) : Live h p := by
  obtain ⟨ha, hbits⟩ := hw.found hf
  refine hw.live_of_unique ?_ ?_
  · intro he
    rw [he] at hbits
    exact invalidAddr_bits hbits
  · intro hm
    rw [addressFieldToPeer_eq, if_pos hm] at hf
    split at hf
    · cases hf
    · split at hf
      · cases hf
        rfl
      · cases hf

theorem Addressed.live_next (hw : Addressed h) (ha : (h.peers h.nextPeer).addr ≠ invalidAddr) :
    Live h h.nextPeer :=
  hw.live_of_unique ha fun hm => (hw.single hm).2

/-- Live peers with the same six address bits are the same. -/
theorem Live.eq_of_sameStation {q : Fin N} (hp : Live h p) (hq : Live h q)
    (hs : sameStation (peerToAddressField h p) (peerToAddressField h q) = true) : p = q := by
  unfold peerToAddressField at hs
  rw [(clear_cr hp.2).1, (clear_cr hq.2).1] at hs
  have ha := TinyProto.Fd.eq_of_sameStation hp.2 hq.2 hs
  have := hp.1
  rw [ha, hq.1] at this
  exact (Option.some.inj this).symm

/-! ## What steps leave alone -/

theorem setPeer_addr (h : Handle W N) (p : Fin N) {f : Peer → Peer}
    (hf : (f (h.peers p)).addr = (h.peers p).addr) (q : Fin N) :
    ((h.setPeer p f).peers q).addr = (h.peers q).addr :=
  setPeer_forall (P := fun q x => x.addr = (h.peers q).addr) hf (fun _ _ => rfl) q

theorem markChosen_eq (h : Handle W N) (p : Fin N) (r : SlotRef W) (poll : Bool) :
    (markChosen h p r poll).settings = h.settings ∧ (markChosen h p r poll).peers = h.peers ∧
      (markChosen h p r poll).nextPeer = h.nextPeer := by
  unfold markChosen
  cases poll with
  | false => exact ⟨rfl, rfl, rfl⟩
  | true => cases r <;> exact ⟨rfl, rfl, rfl⟩

theorem markChosen_log (h : Handle W N) (p : Fin N) (r : SlotRef W) (poll : Bool) :
    ∃ data, (markChosen h p r poll).log = h.log ++ [.frameOut p data] := by
  unfold markChosen
  cases poll with
  | false => exact ⟨_, rfl⟩
  | true => cases r <;> exact ⟨_, rfl⟩

/-- A step changes neither the settings nor the address of a registered peer, and
`next_peer` only by a turn. -/
theorem Step.stations {a : Act N} (hs : Step h a h') :
    h'.settings = h.settings ∧
      (∀ q, (h'.peers q).addr = (h.peers q).addr ∨
        a = .register q ∧ (h.peers q).addr = invalidAddr) ∧
      (h'.nextPeer = h.nextPeer ∨ ∃ p, a = .turn p) := by
  cases hs with
  | quiet hq => exact ⟨hq.settings, fun q => .inl (hq.peer q).addr, .inl hq.nextPeer⟩
  | @register p _ hp =>
    refine ⟨rfl, fun q => ?_, .inl rfl⟩
    by_cases hqp : q = p
    · subst hqp
      exact .inr ⟨rfl, hp⟩
    · left
      rw [setPeer_ne h hqp]
  | turn => exact ⟨rfl, fun q => .inl rfl, .inr ⟨_, rfl⟩⟩
  | putS =>
    unfold putSFrame
    exact ⟨by simp, fun q => .inl (by simp), .inl (by simp)⟩
  | putU => exact ⟨by simp, fun q => .inl (by simp), .inl (by simp)⟩
  | free => exact ⟨rfl, fun q => .inl rfl, .inl rfl⟩
  | @confirm p nr =>
    have hc := confirmSentFrames_confirms h p nr
    exact ⟨hc.settings, fun q => .inl (hc.addr q).1, .inl hc.nextPeer⟩
  | @reject p control =>
    have hc := confirmSentFrames_confirms h p (nrOf control)
    have hr := resendAllUnconfirmedFrames_resends (confirmSentFrames h p (nrOf control)) p control
      (nrOf control)
    exact ⟨hr.settings.trans hc.settings, fun q => .inl ((hr.addr q).1.trans (hc.addr q).1),
      .inl (hr.nextPeer.trans hc.nextPeer)⟩
  | @receive p nr =>
    have hc := confirmSentFrames_confirms
      (h.setControl p fun c => { c with nextNr := c.nextNr + 1 }) p nr
    exact ⟨hc.settings, fun q => .inl ((hc.addr q).1.trans (setPeer_addr h p rfl q)),
      .inl hc.nextPeer⟩
  | @resend p =>
    have hr := resendAllUnconfirmedFrames_resends h p 0 (h.control p).confirmNs
    exact ⟨hr.settings, fun q => .inl (hr.addr q).1, .inl hr.nextPeer⟩
  | connect _ hl =>
    have hw := switchToConnectedState_switches h (ne_connected hl)
    exact ⟨hw.settings, fun q => .inl (hw.addr_eq q), .inl hw.nextPeer⟩
  | disconnect _ hst =>
    have hw := switchToDisconnectedState_switches h hst
    exact ⟨hw.settings, fun q => .inl (hw.addr_eq q), .inl hw.nextPeer⟩
  | reset => exact ⟨rfl, fun q => .inl (setPeer_addr h _ rfl q), .inl rfl⟩
  | request => exact ⟨rfl, fun q => .inl (setPeer_addr h _ rfl q), .inl rfl⟩
  | hangUp => exact ⟨rfl, fun q => .inl (setPeer_addr h _ rfl q), .inl rfl⟩
  | @chooseService p i poll =>
    obtain ⟨hset, hpeers, hnext⟩ := markChosen_eq h p (.sSlot i) poll
    exact ⟨hset, fun q => .inl (by rw [hpeers]), .inl hnext⟩
  | @chooseNext p i poll =>
    obtain ⟨hset, hpeers, hnext⟩ := markChosen_eq
      ((refreshSlot h p i).setControl p fun c => { c with nextNs := c.nextNs + 1 }) p (.iSlot i) poll
    refine ⟨hset, fun q => .inl ?_, .inl hnext⟩
    rw [hpeers]
    exact setPeer_addr (refreshSlot h p i) p rfl q
  | @chooseRequested p i ns poll =>
    obtain ⟨hset, hpeers, hnext⟩ := markChosen_eq (refreshSlot h p i) p (.iSlot i) poll
    exact ⟨hset, fun q => .inl (by rw [hpeers]; rfl), .inl hnext⟩
  | @accept _ p data _ _ hput =>
    obtain ⟨i, -, -, rfl⟩ := putIFrame_some hput
    refine ⟨rfl, fun q => .inl ?_, .inl rfl⟩
    show ((h.setControl p fun c => { c with lastNs := c.lastNs + 1 }).peers q).addr = _
    exact setPeer_addr h p rfl q

theorem setPeer_state (h : Handle W N) (p : Fin N) {f : Peer → Peer}
    (hf : (f (h.peers p)).state = (h.peers p).state) (q : Fin N) :
    ((h.setPeer p f).peers q).state = (h.peers q).state :=
  setPeer_forall (P := fun q x => x.state = (h.peers q).state) hf (fun _ _ => rfl) q

/-- The steps that change the state of a peer. -/
def Act.Switching (q : Fin N) : Act N → Prop
  | .connect p | .disconnect p | .request p | .hangUp p => p = q
  | _ => False

/-- The other steps leave the state of a peer as it is. -/
theorem Step.state {a : Act N} (hs : Step h a h') (q : Fin N) :
    (h'.peers q).state = (h.peers q).state ∨ a.Switching q := by
  have hother : ∀ {p : Fin N}, ¬p = q → q ≠ p := fun hpq => Ne.symm hpq
  cases hs with
  | quiet hq => exact .inl (hq.peer q).state
  | register => exact .inl (setPeer_state h _ rfl q)
  | turn => exact .inl rfl
  | putS =>
    unfold putSFrame
    exact .inl (by simp)
  | putU => exact .inl (by simp)
  | free => exact .inl rfl
  | @confirm p nr => exact .inl ((confirmSentFrames_confirms h p nr).addr q).2
  | @reject p control =>
    have hc := confirmSentFrames_confirms h p (nrOf control)
    have hr := resendAllUnconfirmedFrames_resends (confirmSentFrames h p (nrOf control)) p control
      (nrOf control)
    exact .inl ((hr.addr q).2.trans (hc.addr q).2)
  | @receive p nr =>
    have hc := confirmSentFrames_confirms
      (h.setControl p fun c => { c with nextNr := c.nextNr + 1 }) p nr
    exact .inl ((hc.addr q).2.trans (setPeer_state h p rfl q))
  | @resend p =>
    exact .inl ((resendAllUnconfirmedFrames_resends h p 0 (h.control p).confirmNs).addr q).2
  | @connect p _ hl =>
    by_cases hpq : p = q
    · exact .inr hpq
    · left
      rw [(switchToConnectedState_switches h (ne_connected hl)).other q (hother hpq)]
  | @disconnect p _ hst =>
    by_cases hpq : p = q
    · exact .inr hpq
    · left
      rw [(switchToDisconnectedState_switches h hst).other q (hother hpq)]
  | reset => exact .inl (setPeer_state h _ rfl q)
  | @request p =>
    by_cases hpq : p = q
    · exact .inr hpq
    · left
      rw [setPeer_ne h (hother hpq)]
  | @hangUp p =>
    by_cases hpq : p = q
    · exact .inr hpq
    · left
      rw [setPeer_ne h (hother hpq)]
  | @chooseService p i poll => exact .inl (by rw [(markChosen_eq h p (.sSlot i) poll).2.1])
  | @chooseNext p i poll =>
    left
    rw [(markChosen_eq _ p (.iSlot i) poll).2.1]
    exact setPeer_state (refreshSlot h p i) p rfl q
  | @chooseRequested p i ns poll =>
    left
    rw [(markChosen_eq _ p (.iSlot i) poll).2.1]
    rfl
  | @accept _ p data _ _ hput =>
    obtain ⟨i, -, -, rfl⟩ := putIFrame_some hput
    left
    show ((h.setControl p fun c => { c with lastNs := c.lastNs + 1 }).peers q).state = _
    exact setPeer_state h p rfl q

theorem Multi.congr (hs : h'.settings = h.settings) : Multi h' ↔ Multi h := by
  unfold Multi Handle.isPrimaryStation
  rw [hs]

/-- Steps keep the addresses well formed. -/
theorem Addressed.step {a : Act N} (hw : Addressed h) (hs : Step h a h') : Addressed h' := by
  obtain ⟨hset, haddr, hnext⟩ := hs.stations
  have hm := Multi.congr hset
  -- The only change of an address registers a peer under an address nobody has.
  have hnew : ∀ q, (h'.peers q).addr ≠ (h.peers q).addr →
      Multi h ∧ (h'.peers q).addr &&& 0x03 = 0x01 ∧ (∀ p, (h.peers p).addr ≠ (h'.peers q).addr) ∧
        ∀ p, p ≠ q → (h'.peers p).addr = (h.peers p).addr := by
    intro q hne
    rcases haddr q with he | ⟨rfl, -⟩
    · exact absurd he hne
    · cases hs with
      | register hp ha hfree =>
        rw [setPeer_self]
        by_cases hmulti : Multi h
        · rw [addressFieldToPeer_eq, (clear_cr ha).1, if_neg (clear_cr ha).2,
            if_neg (not_not.mpr hmulti)] at hfree
          refine ⟨hmulti, ha, fun p => ?_, fun p hpq => by rw [setPeer_ne h hpq]⟩
          have := List.find?_eq_none.mp hfree p (List.mem_finRange p)
          simpa using this
        · have hbits := hw.station
          rw [← (hw.single hmulti).1 q, hp] at hbits
          exact absurd hbits invalidAddr_bits
  refine ⟨by rw [hset]; exact hw.station, fun hsingle => ?_, fun hmulti q hq => ?_,
    fun hmulti p q hpq hp => ?_⟩
  · rw [hm] at hsingle
    refine ⟨fun p => ?_, ?_⟩
    · rw [hset, ← (hw.single hsingle).1 p]
      by_contra hne
      exact hsingle (hnew p hne).1
    · rcases hnext with hnext | ⟨p, rfl⟩
      · rw [hnext]
        exact (hw.single hsingle).2
      · cases hs with
        | turn hmode =>
          refine absurd ⟨hmode.2, ?_⟩ hsingle
          rw [hmode.1]
          exact Mode.noConfusion
  · by_cases hne : (h'.peers q).addr = (h.peers q).addr
    · rw [hne] at hq ⊢
      exact hw.multi (hm.mp hmulti) q hq
    · exact (hnew q hne).2.1
  · by_cases hnep : (h'.peers p).addr = (h.peers p).addr
    · by_cases hneq : (h'.peers q).addr = (h.peers q).addr
      · rw [hnep] at hpq hp
        rw [hneq] at hpq
        exact hw.distinct (hm.mp hmulti) p q hpq hp
      · exact absurd (hnep.symm.trans hpq) ((hnew q hneq).2.2.1 p)
    · by_contra hpq'
      have hq := (hnew p hnep).2.2.2 q (Ne.symm hpq')
      exact (hnew p hnep).2.2.1 q (hq.symm.trans hpq.symm)

/-- A peer stays the one that frames from its address are for. -/
theorem Live.step {a : Act N} (hw : Addressed h) (hp : Live h p) (hs : Step h a h') :
    Live h' p ∧ (h'.peers p).addr = (h.peers p).addr := by
  obtain ⟨hset, haddr, -⟩ := hs.stations
  have hvalid : (h.peers p).addr ≠ invalidAddr := by
    intro he
    have hbits := hp.2
    rw [he] at hbits
    exact invalidAddr_bits hbits
  have hsame : (h'.peers p).addr = (h.peers p).addr := by
    rcases haddr p with he | ⟨-, he⟩
    · exact he
    · exact absurd he hvalid
  refine ⟨(hw.step hs).live_of_unique (by rw [hsame]; exact hvalid) fun hm => ?_, hsame⟩
  rw [Multi.congr hset] at hm
  have := hp.1
  rw [addressFieldToPeer_eq, (hw.single hm).1, (clear_cr hw.station).1, if_neg (clear_cr hw.station).2,
    if_pos hm, if_pos rfl] at this
  exact (Option.some.inj this).symm

end TinyProto.Fd
