import TinyProto.Fd.Draining
import TinyProto.Fd.Service

/-!
# The size of frames

No payload is longer than the slots of its queue.  So every frame that is chosen fits a
receiver that has room for the payloads and the two bytes of the header
(`frames_bounded`).
-/

set_option linter.unusedSectionVars false

namespace TinyProto.Fd

open Hdlc Runs

/-! ## Queues -/

section Queue

variable {n : Nat} {q : Queue n}

/-- No payload is longer than the slots. -/
def Queue.Sized (q : Queue n) : Prop := ∀ i, (q.frames i).payload.length ≤ q.mtu.toNat

theorem queueReset_sized [NeZero n] (mtu : Int) : (queueReset n mtu).Sized := fun _ => Nat.zero_le _

theorem Queue.Sized.setFrame (hq : q.Sized) (i : Fin n) {s : Slot}
    (hs : s.payload.length ≤ q.mtu.toNat) : (q.setFrame i s).Sized := by
  intro j
  by_cases hj : j = i
  · subst hj
    rw [Queue.setFrame_self]
    exact hs
  · rw [Queue.setFrame_ne _ hj]
    exact hq j

theorem Queue.Sized.freeByHeader [NeZero n] (hq : q.Sized) (i : Fin n) :
    (q.freeByHeader i).Sized :=
  (hq.setFrame i (hq i) : (q.setFrame i { q.frames i with type := .free }).Sized)

theorem Queue.Sized.resetFor (hq : q.Sized) (address : Byte) : (q.resetFor address).Sized := by
  intro i
  cases hs : sameStation (q.frames i).address address with
  | true =>
    rw [Queue.resetFor_same hs]
    exact hq i
  | false =>
    rw [Queue.resetFor_other hs]
    exact hq i

end Queue

variable {W N : Nat} [NeZero W] [NeZero N] {h h₁ : Handle W N} {p : Fin N}

/-! ## The invariant -/

/-- No frame is chosen. -/
theorem framesOut_concat {e : Event N} (he : framesOut [e] = []) (log : List (Event N)) :
    framesOut (log ++ [e]) = framesOut log := by
  rw [framesOut_append, he, List.append_nil]

theorem framesOut_neutral {es : List (Event N)} (hes : ∀ e ∈ es, e.Neutral) : framesOut es = [] := by
  refine List.filterMap_eq_nil_iff.mpr fun e he => ?_
  have hneutral := hes e he
  cases e with
  | frameOut => exact absurd hneutral id
  | _ => rfl

/-- What a frame has at most. -/
def frameRoom (h : Handle W N) : Nat := max h.iQueue.mtu.toNat h.sQueue.mtu.toNat + 2

/-- The payloads fit their slots, and so did those of the frames that were chosen. -/
structure Sized (room : Nat) (h : Handle W N) : Prop where
  data : h.iQueue.Sized
  service : h.sQueue.Sized
  fits : frameRoom h = room
  sent : ∀ f ∈ framesOut h.log, f.2.length ≤ room

variable {room : Nat}

theorem Sized.slot (hs : Sized room h) (r : SlotRef W) : (h.slot r).bytes.length ≤ room := by
  rw [← hs.fits]
  cases r with
  | iSlot i => exact Nat.add_le_add_right (Nat.le_trans (hs.data i) (Nat.le_max_left _ _)) 2
  | sSlot i => exact Nat.add_le_add_right (Nat.le_trans (hs.service i) (Nat.le_max_right _ _)) 2

/-- No frame is chosen, and the slots have the same size. -/
theorem Sized.congr (hs : Sized room h) (hi : h₁.iQueue.Sized) (him : h₁.iQueue.mtu = h.iQueue.mtu)
    (hq : h₁.sQueue.Sized) (hqm : h₁.sQueue.mtu = h.sQueue.mtu)
    (hout : framesOut h₁.log = framesOut h.log) : Sized room h₁ := by
  refine ⟨hi, hq, ?_, by rw [hout]; exact hs.sent⟩
  rw [← hs.fits]
  unfold frameRoom
  rw [him, hqm]

/-- The queues and the frames are the same. -/
theorem Sized.same (hs : Sized room h) (hi : h₁.iQueue = h.iQueue) (hq : h₁.sQueue = h.sQueue)
    (hout : framesOut h₁.log = framesOut h.log) : Sized room h₁ :=
  hs.congr (hi ▸ hs.data) (congrArg _ hi) (hq ▸ hs.service) (congrArg _ hq) hout

/-! ## Steps -/

/-- A frame is queued if it fits. -/
theorem Sized.putUSFrame (hs : Sized room h) (type : QueueType) (address control : Byte)
    (payload : List Byte) : Sized room (putUSFrame h type address control payload) := by
  unfold Fd.putUSFrame putUSFrame?
  cases ha : h.sQueue.allocate type payload with
  | none => exact hs
  | some r =>
    obtain ⟨q, i⟩ := r
    obtain ⟨hlen, -, rfl⟩ := Queue.allocate_some ha
    have hfit : payload.length ≤ h.sQueue.mtu.toNat := by omega
    have hq : (h.sQueue.setFrame i { h.sQueue.frames i with type := type, payload := payload }).Sized :=
      hs.service.setFrame i hfit
    refine hs.congr hs.data rfl (hq.setFrame i ?_) rfl rfl
    rw [Queue.setFrame_self]
    exact hfit

theorem Sized.confirmOne (hs : Sized room h) (p : Fin N) : Sized room (confirmOne h p) := by
  unfold Fd.confirmOne onFrameConfirmed
  split
  · next i _ =>
    have hfreed : Sized room { (h.emit (.sent p (callbackAddress h p) (h.iQueue.frames i).payload)) with
        iQueue := h.iQueue.freeByHeader i } :=
      hs.congr (hs.data.freeByHeader i) rfl hs.service rfl
        (framesOut_concat rfl h.log)
    dsimp only
    split
    · exact hfreed.same rfl rfl rfl
    · exact hfreed.same rfl rfl rfl
  · exact hs.same rfl rfl rfl

theorem Sized.confirmSentFrames (hs : Sized room h) (p : Fin N) (nr : Seq) :
    Sized room (confirmSentFrames h p nr) := by
  have hloop : Sized room (confirmLoop 8 h p nr) :=
    confirmLoop_rule (fun _ hk _ _ => hk.confirmOne p) 8 h hs
  unfold Fd.confirmSentFrames
  dsimp only
  split
  · exact hloop.same rfl rfl rfl
  · exact hloop

theorem Sized.resendAllUnconfirmedFrames (hs : Sized room h) (p : Fin N) (control : Byte) (nr : Seq) :
    Sized room (resendAllUnconfirmedFrames h p control nr) := by
  have hloop : Sized room (resendLoop 8 h p control nr) :=
    resendLoop_rule (P := Sized room) (fun _ hk _ _ => hk.same rfl rfl rfl) (fun _ hk _ => hk)
      (fun _ hk _ _ => hk.putUSFrame ..) 8 h hs (BitVec.isLt _)
  exact hloop.same rfl rfl rfl

theorem Sized.switches {connected : Bool} (hs : Sized room h) (hw : Switches p connected h h₁) :
    Sized room h₁ := by
  obtain ⟨a, hlog⟩ := hw.log
  refine hs.congr (hw.iQueue ▸ hs.data.resetFor _) (by rw [hw.iQueue]; rfl)
    (hw.sQueue ▸ hs.service) (congrArg _ hw.sQueue) ?_
  rw [hlog]
  exact framesOut_concat rfl h.log

/-- A control field is written. -/
theorem Sized.setSlot (hs : Sized room h) (r : SlotRef W) (f : Byte → Byte) :
    Sized room (h.setSlot r fun s => { s with control := f s.control }) := by
  cases r with
  | iSlot i => exact hs.congr (hs.data.setFrame i (hs.data i)) rfl hs.service rfl rfl
  | sSlot i => exact hs.congr hs.data rfl (hs.service.setFrame i (hs.service i)) rfl rfl

/-- A frame is chosen. -/
theorem Sized.markChosen (hs : Sized room h) (p : Fin N) (r : SlotRef W) (poll : Bool) :
    Sized room (markChosen h p r poll) := by
  have hset : Sized room (if poll then h.setSlot r fun s => { s with control := s.control ||| pBit }
      else h) := by
    split
    · exact hs.setSlot r (· ||| pBit)
    · exact hs
  unfold Fd.markChosen
  dsimp only
  generalize (if poll then h.setSlot r fun s => { s with control := s.control ||| pBit } else h) = k at *
  refine ⟨hset.data, hset.service, hset.fits, fun f hf => ?_⟩
  have hlog : framesOut (k.emit (.frameOut p (k.slot r).bytes)).log =
      framesOut k.log ++ [(p, (k.slot r).bytes)] := framesOut_append k.log _
  rw [hlog, List.mem_append, List.mem_singleton] at hf
  rcases hf with hf | rfl
  · exact hset.sent f hf
  · exact hset.slot r

theorem Sized.step {a : Act N} (hs : Sized room h) (hstep : Step h a h₁) : Sized room h₁ := by
  cases hstep with
  | quiet hq =>
    obtain ⟨es, hlog, hes⟩ := hq.log
    refine hs.same hq.iQueue hq.sQueue ?_
    rw [hlog, framesOut_append, framesOut_neutral hes, List.append_nil]
  | register => exact hs.same rfl rfl rfl
  | turn => exact hs.same rfl rfl rfl
  | putS => exact hs.putUSFrame ..
  | putU => exact hs.putUSFrame ..
  | free => exact hs.congr hs.data rfl (hs.service.freeByHeader _) rfl rfl
  | confirm => exact hs.confirmSentFrames ..
  | reject => exact (hs.confirmSentFrames ..).resendAllUnconfirmedFrames ..
  | @receive p nr payload =>
    have hnext : Sized room (h.setControl p fun c => { c with nextNr := c.nextNr + 1 }) :=
      hs.same rfl rfl rfl
    exact (hnext.confirmSentFrames p nr).same rfl rfl
      (framesOut_concat rfl _)
  | resend => exact hs.resendAllUnconfirmedFrames ..
  | connect _ hl => exact hs.switches (switchToConnectedState_switches h (ne_connected hl))
  | disconnect _ hst => exact hs.switches (switchToDisconnectedState_switches h hst)
  | reset => exact hs.same rfl rfl rfl
  | request => exact hs.same rfl rfl rfl
  | hangUp => exact hs.same rfl rfl rfl
  | chooseService poll => exact hs.markChosen ..
  | @chooseNext p i poll =>
    have hset : Sized room (refreshSlot h p i) :=
      hs.setSlot (.iSlot i) (· &&& 0x0F ||| (h.control p).nextNr.setWidth 8 <<< 5)
    have hnext : Sized room ((refreshSlot h p i).setControl p fun c => { c with nextNs := c.nextNs + 1 }) :=
      hset.same rfl rfl rfl
    exact hnext.markChosen ..
  | @chooseRequested p i _ poll =>
    have hset : Sized room (refreshSlot h p i) :=
      hs.setSlot (.iSlot i) (· &&& 0x0F ||| (h.control p).nextNr.setWidth 8 <<< 5)
    exact hset.markChosen ..
  | @accept _ p data _ _ hput =>
    obtain ⟨i, -, hlen, rfl⟩ := putIFrame_some hput
    have hfit : data.length ≤ h.iQueue.mtu.toNat := by omega
    refine hs.congr (hs.data.setFrame i hfit) rfl hs.service rfl ?_
    exact framesOut_concat rfl h.log

/-! ## Runs -/

/-- What every elementary step preserves holds in every state. -/
theorem Reaches.rule {C : Handle W N → Call → Prop} {P : Handle W N → Prop}
    (hinit : ∀ init hdlc millis, P (initHandle W N init hdlc millis))
    (hstep : ∀ k a k', P k → Step k a k' → P k') (hr : Reaches C h) : P h := by
  have hok : ∀ (k : Handle W N) data, FrameOk AnyAct k data := fun _ _ _ _ _ _ _ _ =>
    ⟨fun _ _ _ _ => trivial, fun _ _ => trivial, fun _ _ _ _ => trivial⟩
  refine (hr.invariant (G := AnyAct) (fun _ _ _ => trivial) (fun _ _ => trivial)
    (fun k c _ => ⟨(callOk_any k c).mono fun k data _ => hok k data, fun _ _ _ _ => trivial⟩) hinit
    fun k a k' _ _ hk _ hs => hstep k a k' hk hs).2.2

theorem initHandle_sized (init : InitParams) (hdlc : HdlcLl (SlotRef W)) (millis : BitVec 32) :
    Sized (frameRoom (initHandle W N init hdlc millis)) (initHandle W N init hdlc millis) :=
  ⟨queueReset_sized _, queueReset_sized _, rfl, nofun⟩

theorem Reaches.sized {C : Handle W N → Call → Prop} (hr : Reaches C h) : Sized (frameRoom h) h := by
  have hsized : ∃ room, Sized room h :=
    hr.rule (P := fun k => ∃ room, Sized room k) (fun _ _ _ => ⟨_, initHandle_sized _ _ _⟩)
      fun _ _ _ ⟨_, hk⟩ hs => ⟨_, hk.step hs⟩
  obtain ⟨_, hs⟩ := hsized
  rw [hs.fits]
  exact hs

theorem Reaches.service_mtu {C : Handle W N → Call → Prop} (hr : Reaches C h) : h.sQueue.mtu = 2 :=
  hr.rule (P := fun k => k.sQueue.mtu = 2) (fun _ _ _ => rfl)
    fun _ _ _ hk hs => hs.service_mtu.trans hk

/-- In every state the payloads fit the slots, and no frame was sent that is longer than the
header and the room of a slot. -/
theorem frames_bounded {C : Handle W N → Call → Prop} (hr : Reaches C h) :
    (∀ i, (h.iQueue.frames i).payload.length ≤ h.iQueue.mtu.toNat) ∧
      (∀ i, (h.sQueue.frames i).payload.length ≤ 2) ∧
        ∀ f ∈ framesOut h.log, f.2.length ≤ max h.iQueue.mtu.toNat 2 + 2 := by
  obtain ⟨hdata, hservice, -, hsent⟩ := hr.sized
  have hmtu : h.sQueue.mtu.toNat = 2 := by rw [hr.service_mtu]; rfl
  refine ⟨hdata, fun i => hmtu ▸ hservice i, fun f hf => ?_⟩
  have hroom := hsent f hf
  unfold frameRoom at hroom
  rwa [hmtu] at hroom

/-- A packet that is too long is refused, and one that just fits is sent. -/
def sendFull : List Call :=
  [.onFrameRead [0x03, 0x3F], .getTxData 64, .sendPacketTo 0 (List.replicate 33 7),
    .sendPacketTo 0 (List.replicate 32 7), .getTxData 64]

theorem frames_bounded_full :
    ∃ h : Handle 2 1, Reaches (fun _ _ => True) h ∧
      (framesOut h.log).map (fun f => f.2.length) = [2, 34] ∧
        (∀ i, (h.iQueue.frames i).payload.length ≤ h.iQueue.mtu.toNat) ∧
          (∀ i, (h.sQueue.frames i).payload.length ≤ 2) ∧
            ∀ f ∈ framesOut h.log, f.2.length ≤ max h.iQueue.mtu.toNat 2 + 2 := by
  have hreach : Reaches (fun _ _ => True) (sendFull.foldl call (smallHandle 2 1 .abm)) :=
    (smallHandle_reaches _ .abm (by decide) (by decide)).calls
      ⟨trivial, trivial, trivial, trivial, trivial, trivial⟩
  exact ⟨_, hreach, by decide +kernel, frames_bounded hreach⟩

end TinyProto.Fd
