import TinyProto.Fd.Outcomes

/-!
# The service queue

The slots of the service queue are made for the two bytes of an FRMR, and stay so
(`Reachable.service_mtu`).  A frame that fits is placed where there is a free slot
(`putUSFrame_placed`).
-/

set_option linter.unusedSectionVars false

namespace TinyProto.Fd

open Hdlc

variable {W N : Nat} [NeZero W] [NeZero N] {h h₁ : Handle W N} {p : Fin N}

/-! ## Room -/

/-- A frame is placed in the first free slot. -/
theorem putUSFrame_placed (hfree : h.sQueue.hasFreeSlots = true) {payload : List Byte}
    (hlen : payload.length ≤ h.sQueue.mtu) (type : QueueType) (address control : Byte) :
    ∃ i, h.sQueue.getNext [.free] 0 0 = some i ∧
      putUSFrame? h type address control payload =
        some (putUSFrame h type address control payload) ∧
      putUSFrame h type address control payload =
        { h with
          sQueue := h.sQueue.setFrame i
            { type := type, address := address, control := control, payload := payload }
          events := { h.events with txDataAvailable := true } } := by
  obtain ⟨i, hi⟩ := Option.isSome_iff_exists.mp hfree
  have hput : putUSFrame? h type address control payload = some
      { h with
        sQueue := h.sQueue.setFrame i
          { type := type, address := address, control := control, payload := payload }
        events := { h.events with txDataAvailable := true } } := by
    unfold putUSFrame? Queue.allocate
    rw [if_pos hlen, hi]
    simp only [Option.map_some, Queue.setFrame, Function.update_self, Function.update_idem]
  refine ⟨i, hi, ?_, ?_⟩
  · rw [hput, putUSFrame_of_some hput]
  · exact (putUSFrame_of_some hput).symm

/-! ## The size of the slots -/

theorem putUSFrame_mtu (h : Handle W N) (type : QueueType) (address control : Byte)
    (payload : List Byte) :
    (putUSFrame h type address control payload).sQueue.mtu = h.sQueue.mtu := by
  rcases putUSFrame_cases h type address control payload with hq | ⟨i, -, hq⟩
  · rw [hq]
  · rw [hq]
    rfl

theorem Resends.service_mtu (hr : Resends p h h₁) : h₁.sQueue.mtu = h.sQueue.mtu := by
  rcases hr.sQueue with hq | ⟨i, payload, -, hq⟩
  · rw [hq]
  · rw [hq]
    rfl

theorem markChosen_mtu (h : Handle W N) (p : Fin N) (r : SlotRef W) (poll : Bool) :
    (markChosen h p r poll).sQueue.mtu = h.sQueue.mtu := by
  unfold markChosen
  cases poll with
  | false => rfl
  | true => cases r <;> rfl

theorem Step.service_mtu {a : Act N} (hs : Step h a h₁) : h₁.sQueue.mtu = h.sQueue.mtu := by
  cases hs with
  | quiet hq => rw [hq.sQueue]
  | register => rfl
  | turn => rfl
  | putS => exact putUSFrame_mtu ..
  | putU => exact putUSFrame_mtu ..
  | free => rfl
  | @confirm p nr => rw [(confirmSentFrames_confirms h p nr).sQueue]
  | @reject p control =>
    rw [(resendAllUnconfirmedFrames_resends (confirmSentFrames h p (nrOf control)) p control
      (nrOf control)).service_mtu, (confirmSentFrames_confirms h p (nrOf control)).sQueue]
  | @receive p nr =>
    exact congrArg Queue.mtu (confirmSentFrames_confirms
      (h.setControl p fun c => { c with nextNr := c.nextNr + 1 }) p nr).sQueue
  | @resend p =>
    exact (resendAllUnconfirmedFrames_resends h p 0 (h.control p).confirmNs).service_mtu
  | connect _ hl => rw [(switchToConnectedState_switches h (ne_connected hl)).sQueue]
  | disconnect _ hst => rw [(switchToDisconnectedState_switches h hst).sQueue]
  | reset => rfl
  | request => rfl
  | hangUp => rfl
  | @chooseService p i poll => exact markChosen_mtu h p (.sSlot i) poll
  | @chooseNext p i poll => exact markChosen_mtu _ p (.iSlot i) poll
  | @chooseRequested p i _ poll => exact markChosen_mtu _ p (.iSlot i) poll
  | accept _ _ hput =>
    obtain ⟨i, -, -, rfl⟩ := putIFrame_some hput
    rfl

/-- What every elementary step preserves holds in every state. -/
theorem Reachable.rule {F : Handle W N → List Byte → Prop} {P : Handle W N → Prop}
    (hinit : ∀ init hdlc millis, P (initHandle W N init hdlc millis))
    (hstep : ∀ k a k', Addressed k → P k → Step k a k' → P k') (hr : Reachable F h) : P h := by
  have hok : ∀ (k : Handle W N) data, FrameOk AnyAct k data := fun _ _ _ _ _ _ _ _ =>
    ⟨fun _ _ _ _ => trivial, fun _ _ => trivial, fun _ _ _ _ => trivial⟩
  refine (hr.invariant (G := AnyAct) (fun _ _ _ => trivial) (fun _ _ => trivial)
    (fun _ _ => trivial) (fun k data _ => hok k data) hinit ?_).2.2
  exact fun k a k' _ hw hk _ hs => hstep k a k' hw hk hs

/-- The service queue takes frames of two bytes, in every state. -/
theorem Reachable.service_mtu {F : Handle W N → List Byte → Prop} (hr : Reachable F h) :
    h.sQueue.mtu = 2 :=
  hr.rule (P := fun k => k.sQueue.mtu = 2) (fun _ _ _ => rfl)
    fun _ _ _ _ hk hs => hs.service_mtu.trans hk

end TinyProto.Fd
