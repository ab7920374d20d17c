import TinyProto.Hdlc.Detection
import TinyProto.Hdlc.Stream

/-!
# The default check option

`HDLC_CRC_DEFAULT` is documented as a choice the library makes.  `get_crc_field_size` takes it
for the 32-bit option.  `hdlc_ll_init` stores it as it is, its value is zero, and that is what
`HDLC_CRC_OFF` is stored as.  So both state machines run without a check field, and a receiver
delivers what was changed on the way (`default_unprotected`).
-/

namespace TinyProto.Hdlc

variable {π ρ : Type} {payload error wire : List Byte}

/-- The frame of a payload with a check field. -/
def frameOf (payload check : List Byte) : List Byte :=
  flagSequence :: (stuff (payload ++ check) ++ [flagSequence])

/-- What the default option is there for.  The sender appends a check field of the size that is
reserved for it, and what reaches the receiver with an error in the payload is not delivered. -/
structure Protected (wire : List Byte) (receiver : HdlcLl ρ) (payload error : List Byte) : Prop where
  size : ∃ check, wire = frameOf payload check ∧ check.length = getCrcFieldSize .default
  rejected : ∀ check, wire = frameOf payload check →
    .frame (corrupt payload error) ∉
      (onRxData receiver (frameOf (corrupt payload error) check)).2

theorem encodeFrame_default (payload : List Byte) :
    encodeFrame .default payload = frameOf payload [] := rfl

/-- The check field of a frame is what stands behind the payload. -/
theorem frameOf_inj {check check' : List Byte} (h : frameOf payload check = frameOf payload check') :
    stuff check = stuff check' := by
  have hbody := List.append_cancel_right (List.cons.inj h).2
  rw [stuff_append, stuff_append] at hbody
  exact List.append_cancel_left hbody

theorem stuffByte_ne_nil (b : Byte) : stuffByte b ≠ [] := by
  unfold stuffByte
  split <;> exact List.cons_ne_nil _ _

theorem stuff_eq_nil {bs : List Byte} (h : stuff bs = []) : bs = [] := by
  cases bs with
  | nil => rfl
  | cons b bs =>
    rw [stuff_cons, List.append_eq_nil_iff] at h
    exact absurd h.1 (stuffByte_ne_nil b)

/-- A receiver with the default option delivers every frame that fits. -/
theorem default_delivers {mem : ρ → Nat → Byte} {receiver : HdlcLl ρ} (hr : receiver.Reachable mem)
    (hstart : receiver.rx.state = .readStart) (hc : receiver.crcType = .default)
    (hne : payload ≠ []) (hfits : (payload.length : Int) ≤ receiver.physMtu) :
    (onRxData receiver (frameOf payload [])).2 = [.frame payload] := by
  have hev := (onRxData_implements hr.inv.stored).output receiver (frameOf payload []) hr.inv.rxIdle
  have hf : Fits receiver.crcType receiver.physMtu payload := by
    rw [hc]
    exact ⟨hne, hfits⟩
  rw [hev, view_readStart hstart, ← encodeFrame_default, ← hc]
  exact (view_encodeFrame (.inl rfl) hf).2

theorem corrupt_ne (hlen : error.length = payload.length) (hone : OneByte error) :
    corrupt payload error ≠ payload := fun h =>
  sum_corrupt hlen hone (by rw [h])

/-- Two endpoints with the default option protect no frame.  No check field is sent, and a frame
with a changed byte is delivered as it came if it fits the receiver. -/
theorem default_unprotected {mem : π → Nat → Byte} {mem' : ρ → Nat → Byte} {sender sender' : HdlcLl π}
    {receiver : HdlcLl ρ} (hs : sender.Reachable mem) (hidle : sender.tx.originData = none)
    (hsc : sender.crcType = HdlcCrc.default.stored) (hr : receiver.Reachable mem')
    (hstart : receiver.rx.state = .readStart) (hrc : receiver.crcType = HdlcCrc.default.stored)
    {s : Sending π} (hl : 0 < s.len) (hsent : sendFrame mem sender s = some (sender', wire))
    (hlen : error.length = s.len) (hone : OneByte error) :
    ¬Protected wire receiver (s.payload mem) error ∧ wire = frameOf (s.payload mem) [] ∧
      corrupt (s.payload mem) error ≠ s.payload mem ∧
      ((s.len : Int) ≤ receiver.physMtu →
        (onRxData receiver (frameOf (corrupt (s.payload mem) error) [])).2 =
          [.frame (corrupt (s.payload mem) error)]) := by
  obtain ⟨-, -, -, hwire⟩ := sendFrame_spec hs.inv hidle hl hsent
  rw [hsc] at hwire
  have hwire : wire = frameOf (s.payload mem) [] := hwire
  have hpayload : (s.payload mem).length = s.len := by simp [Sending.payload]
  have hcorrupt : (corrupt (s.payload mem) error).length = s.len := by
    rw [length_corrupt (hlen.trans hpayload.symm), hpayload]
  refine ⟨fun hp => ?_, hwire, corrupt_ne (hlen.trans hpayload.symm) hone, fun hfits => ?_⟩
  · obtain ⟨check, hcheck, hsize⟩ := hp.size
    rw [stuff_eq_nil (frameOf_inj (hwire.symm.trans hcheck)).symm] at hsize
    exact absurd hsize (by decide)
  · refine default_delivers hr hstart hrc (List.ne_nil_of_length_pos (by rw [hcorrupt]; exact hl)) ?_
    rw [hcorrupt]
    exact hfits

/-- An endpoint that was initialised with the default option. -/
def defaultHandle : HdlcLl (List Byte) where
  rxBuf := fun _ => 0
  rxBufSize := 24
  crcType := .default
  physMtu := 12
  rx := Rx.idle
  tx := Tx.idle

theorem defaultHandle_reachable {mem : List Byte → Nat → Byte} : defaultHandle.Reachable mem :=
  @HdlcLl.Reachable.init _ _ .linux64 { buf := 4096, bufSize := 160, crcType := .default, mtu := 8 }
    4096 _ rfl

/-- One payload byte. -/
def defaultSending : Sending (List Byte) := { noise := [], data := [0x31], len := 1, sizes := [8] }

theorem oneByte_single : OneByte [0x01] := by
  refine ⟨0, by decide, fun i hi => ?_⟩
  rw [List.getD_eq_getElem?_getD, List.getElem?_eq_none (by simp; omega)]
  rfl

theorem default_unprotected_one :
    ¬Protected [0x7E, 0x31, 0x7E] defaultHandle [0x31] [0x01] ∧
      (onRxData defaultHandle [0x7E, 0x30, 0x7E]).2 = [.frame [0x30]] := by
  have hall := @default_unprotected _ _ [0x01] [0x7E, 0x31, 0x7E] bufferMem bufferMem defaultHandle
    _ defaultHandle defaultHandle_reachable rfl rfl defaultHandle_reachable rfl rfl
    defaultSending (by decide) rfl rfl oneByte_single
  exact ⟨hall.1, hall.2.2.2 (by decide)⟩

/-- The byte `0x31` is sent, and the byte `0x30` is delivered. -/
theorem default_changed : ∃ (sender sender' receiver : HdlcLl (List Byte)) (wire : List Byte),
    sender.Reachable bufferMem ∧ sender.crcType = HdlcCrc.default.stored ∧
      receiver.Reachable bufferMem ∧ receiver.crcType = HdlcCrc.default.stored ∧
      sendFrame bufferMem sender defaultSending = some (sender', wire) ∧ OneByte [0x01] ∧
      ¬Protected wire receiver [0x31] [0x01] ∧
      .frame (corrupt [0x31] [0x01]) ∈ (onRxData receiver [0x7E, 0x30, 0x7E]).2 := by
  refine ⟨defaultHandle, _, defaultHandle, [0x7E, 0x31, 0x7E], defaultHandle_reachable, rfl,
    defaultHandle_reachable, rfl, rfl, oneByte_single, fun hp => ?_, by decide⟩
  exact hp.rejected [] (by decide) (by decide)

end TinyProto.Hdlc
