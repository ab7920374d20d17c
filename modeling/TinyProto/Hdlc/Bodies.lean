import TinyProto.Lib.Feeding
import TinyProto.Hdlc.Deframe

/-!
# The frames of a stream

`bodyStep` reads a stream as the receiver does, but has room for every frame and answers it
with its unescaped bytes.  A receiver with room for `phys_mtu` bytes judges the first bytes
of the same frames, at the same places (`stamped_view`).
-/

namespace TinyProto.Hdlc

open Transducer

variable {π : Type} {c : HdlcCrc} {mtu : Int}

/-! ## Without a limit -/

/-- One received byte, for a receiver that has room for every frame. -/
def bodyStep : RxView → Byte → RxView × List (List Byte)
  | .start, byte => (if byte = flagSequence then .data [] false else .start, [])
  | .data body escape, byte =>
      if byte = flagSequence then
        if body = [] then (.data [] false, []) else (.start, [body])
      else if byte = escapeChar then (.data body true, [])
      else (.data (body ++ [if escape then byte ^^^ escapeBit else byte]) false, [])

/-- The unescaped bytes of the frames of a stream. -/
def bodies (stream : List Byte) : List (List Byte) := emits bodyStep .start stream

example : bodies [0x7E, 0x31, 0x7D, 0x5E, 0x7E, 0x32, 0x7E, 0x33, 0x7E] = [[0x31, 0x7E], [0x33]] := by
  decide +kernel

/-- A flag behind a flag closes no frame. -/
theorem bodyStep_ne_nil (view : RxView) (byte : Byte) :
    ∀ body ∈ (bodyStep view byte).2, body ≠ [] := by
  intro body hm
  cases view with
  | start => cases hm
  | data cur escape =>
    simp only [bodyStep] at hm
    split at hm
    · split at hm
      · cases hm
      · next hne => exact List.mem_singleton.mp hm ▸ hne
    · split at hm <;> cases hm

theorem emits_body_ne_nil (view : RxView) (stream : List Byte) :
    ∀ body ∈ emits bodyStep view stream, body ≠ [] := by
  induction stream generalizing view with
  | nil => exact fun body hm => absurd hm List.not_mem_nil
  | cons byte stream ih =>
    intro body hm
    rw [emits_cons] at hm
    exact (List.mem_append.mp hm).elim (bodyStep_ne_nil view byte body) (ih _ body)

/-! ## With a limit -/

/-- What a receiver with room for `room` bytes has of a frame in progress. -/
inductive Cut (room : Nat) : RxView → RxView → Prop where
  | start : Cut room .start .start
  | data {body cut : List Byte} {escape escape' : Bool} (hcut : cut = body.take room)
      (hescape : body.length < room → escape' = escape) :
      Cut room (.data body escape) (.data cut escape')

theorem take_eq_nil_iff {room : Nat} (hroom : 0 < room) (body : List Byte) :
    body.take room = [] ↔ body = [] := by
  rw [List.take_eq_nil_iff]
  exact ⟨fun h => h.resolve_left (Nat.ne_of_gt hroom), Or.inr⟩

theorem viewStep_cut (hmtu : 0 < mtu) {full cut : RxView} (h : Cut mtu.toNat full cut)
    (byte : Byte) :
    Cut mtu.toNat (bodyStep full byte).1 (viewStep c mtu cut byte).1 ∧
      (viewStep c mtu cut byte).2 =
        (bodyStep full byte).2.map fun body => bodyEvent c (body.take mtu.toNat) := by
  have hroom : 0 < mtu.toNat := Int.pos_iff_toNat_pos.mp hmtu
  have hopened : Cut mtu.toNat (.data [] false) (.data [] false) :=
    .data List.take_nil.symm fun _ => rfl
  cases h with
  | start =>
    by_cases hflag : byte = flagSequence
    · simp only [bodyStep, viewStep, if_pos hflag]
      exact ⟨hopened, rfl⟩
    · simp only [bodyStep, viewStep, if_neg hflag]
      exact ⟨.start, rfl⟩
  | @data body cut escape escape' hcut hescape =>
    simp only [bodyStep, viewStep, hcut, take_eq_nil_iff hroom]
    by_cases hflag : byte = flagSequence
    · rw [if_pos hflag, if_pos hflag]
      by_cases hempty : body = []
      · rw [if_pos hempty, if_pos hempty]
        exact ⟨hopened, rfl⟩
      · rw [if_neg hempty, if_neg hempty]
        exact ⟨.start, rfl⟩
    · rw [if_neg hflag, if_neg hflag]
      by_cases hchar : byte = escapeChar
      · rw [if_pos hchar, if_pos hchar]
        exact ⟨.data rfl fun _ => rfl, rfl⟩
      · rw [if_neg hchar, if_neg hchar]
        by_cases hfits : body.length < mtu.toNat
        · have htake : body.take mtu.toNat = body := List.take_of_length_le (Nat.le_of_lt hfits)
          have hlt : (body.length : Int) < mtu := by omega
          rw [htake, if_pos hlt, hescape hfits]
          refine ⟨.data ?_ fun _ => rfl, rfl⟩
          rw [List.take_of_length_le]
          rw [List.length_append]
          exact hfits
        · have hfull : ¬((body.take mtu.toNat).length : Int) < mtu := by
            rw [List.length_take]
            omega
          rw [if_neg hfull]
          refine ⟨.data ?_ fun hlt => absurd hlt ?_, rfl⟩
          · exact (List.take_append_of_le_length (Nat.le_of_not_lt hfits)).symm
          · rw [List.length_append]
            omega

/-- A receiver with no room never has a byte of a frame. -/
theorem viewStep_noRoom (hmtu : ¬0 < mtu) {view : RxView}
    (h : ∀ body escape, view = .data body escape → body = []) (byte : Byte) :
    (∀ body escape, (viewStep c mtu view byte).1 = .data body escape → body = []) ∧
      (viewStep c mtu view byte).2 = [] := by
  cases view with
  | start =>
    refine ⟨fun body escape he => ?_, rfl⟩
    simp only [viewStep] at he
    split at he
    · cases he
      rfl
    · cases he
  | data body escape =>
    have hnil := h body escape rfl
    have hfull : ¬(([] : List Byte).length : Int) < mtu := hmtu
    subst hnil
    simp only [viewStep, if_pos, if_neg hfull]
    split
    · exact ⟨fun _ _ he => by cases he; rfl, rfl⟩
    · split
      · exact ⟨fun _ _ he => by cases he; rfl, rfl⟩
      · exact ⟨fun _ _ he => by cases he; rfl, rfl⟩

/-- The events of a receiver are those of the frames, cut to its room. -/
theorem stamped_view (k : Nat) (stream : List Byte) :
    stamped (viewStep c mtu) k .start stream =
      if 0 < mtu then
        (stamped bodyStep k .start stream).map fun x => (x.1, bodyEvent c (x.2.take mtu.toNat))
      else [] := by
  by_cases hmtu : 0 < mtu
  · rw [if_pos hmtu]
    exact @stamped_map _ _ _ _ _ _ _ (Cut mtu.toNat) _
      (fun _ _ byte h => viewStep_cut hmtu h byte) _ _ .start k stream
  · rw [if_neg hmtu]
    have hsilent := @emits_never _ _ _ (viewStep c mtu)
      (fun view => ∀ body escape, view = .data body escape → body = [])
      (fun _ byte h => viewStep_noRoom hmtu h byte) .start (fun _ _ he => RxView.noConfusion he)
    exact stamped_silent (hsilent stream) k

/-! ## The receiver as a reader -/

/-- A `hdlc_ll_run_rx` call. -/
def hdlcLlRead {ε : Type} (h : HdlcLl π) (data : List Byte) :
    Except ε (Read (HdlcLl π) RxEvent) :=
  let r := hdlcLlRunRx h data
  .ok { state := r.h, used := r.result, outputs := r.events }

theorem hdlcLlRead_consumes {ε : Type} (hc : c.stored = c) :
    Consumes (viewStep c mtu) (Except.ok (ε := ε))
      (fun view (h : HdlcLl π) => h.RxIdle c mtu ∧ h.view = view) hdlcLlRead := by
  rintro _ h data ⟨hi, rfl⟩ hne
  have hacc := hdlcLlRunRx_account hc hi data
  refine ⟨_, _, hacc.pos hne, hacc.le, hacc.silent, ⟨hacc.idle, hacc.view⟩, ?_⟩
  have hok := (@mapM_eq_ok_iff _ _ ε Except.ok id (hdlcLlRunRx h data).events).mpr fun _ _ => rfl
  rw [← hacc.events, hok, List.map_id]
  rfl

end TinyProto.Hdlc
