import TinyProto.Hdlc.Bytewise
import TinyProto.Hdlc.Encode

/-!
# What the receiver computes

The receiver as a transducer on bytes.  Its state `RxView` is what matters of the
handle between two `hdlc_ll_run_rx` calls: whether a flag opened a frame, and the
unescaped body so far.

`onRxData_implements` says that the handle implements this transducer, so
everything about received streams can be proved of `viewStep` one byte at a time,
and the chunks a stream arrives in do not matter.
-/

namespace TinyProto.Hdlc

variable {π : Type}

/-! ## The transducer -/

/-- What matters of a receiver between two calls. -/
inductive RxView where
  /-- No flag was seen since the last frame. -/
  | start
  /-- Inside of a frame: its unescaped bytes, and whether an escape is pending. -/
  | data (body : List Byte) (escape : Bool)
deriving DecidableEq, Repr

/-- A frame body split into payload and check field, if the check field is right. -/
def checkBody (c : HdlcCrc) (body : List Byte) : Except Status (List Byte) :=
  let size := c.value / 8
  if body.length < size then .error .wrongCrc
  else
    let payload := body.take (body.length - size)
    if fcs c payload = body.drop (body.length - size) then .ok payload else .error .wrongCrc

/-- What the user sees of a closed frame. -/
def bodyEvent (c : HdlcCrc) (body : List Byte) : RxEvent :=
  match checkBody c body with
  | .ok payload => .frame payload
  | .error status => .error status

/-- One received byte. -/
def viewStep (c : HdlcCrc) (mtu : Int) : RxView → Byte → RxView × List RxEvent
  | .start, byte => (if byte = flagSequence then .data [] false else .start, [])
  | .data body escape, byte =>
      if byte = flagSequence then
        if body = [] then (.data [] false, []) else (.start, [bodyEvent c body])
      else if byte = escapeChar then (.data body true, [])
      else if body.length < mtu then
        (.data (body ++ [if escape then byte ^^^ escapeBit else byte]) false, [])
      else (.data body escape, [])

@[simp] theorem viewStep_start_flag (c : HdlcCrc) (mtu : Int) :
    viewStep c mtu .start flagSequence = (.data [] false, []) := by
  simp [viewStep]

theorem viewStep_start {c : HdlcCrc} {mtu : Int} {byte : Byte} (h : byte ≠ flagSequence) :
    viewStep c mtu .start byte = (.start, []) := by
  simp [viewStep, h]

@[simp] theorem viewStep_data_empty (c : HdlcCrc) (mtu : Int) (escape : Bool) :
    viewStep c mtu (.data [] escape) flagSequence = (.data [] false, []) := by
  simp [viewStep]

theorem viewStep_data_flag {c : HdlcCrc} {mtu : Int} {body : List Byte} (h : body ≠ [])
    (escape : Bool) :
    viewStep c mtu (.data body escape) flagSequence = (.start, [bodyEvent c body]) := by
  simp [viewStep, h]

/-! ## Check fields -/

theorem and_low_byte (v : BitVec 32) : v &&& 0x00FF#32 = (v.setWidth 8).setWidth 32 := by
  apply BitVec.eq_of_toNat_eq
  have hand : v.toNat &&& 255 = v.toNat % 256 := Nat.and_two_pow_sub_one_eq_mod v.toNat 8
  have hmask : (0x00FF#32).toNat = 255 := rfl
  simp only [BitVec.toNat_and, BitVec.toNat_setWidth, hmask, hand]
  omega

private theorem crc8_bytes (v : BitVec 32) (b : Byte) :
    v &&& 0x00FF#32 = b.setWidth 32 ↔ (v >>> 0).setWidth 8 = b := by
  rw [and_low_byte]
  constructor
  · intro h
    simpa using congrArg (fun x => x.setWidth 8) h
  · rintro rfl
    simp

private theorem crc16_bytes (v : BitVec 16) (b₁ b₂ : Byte) :
    v.setWidth 32 = b₁.setWidth 32 ||| b₂.setWidth 32 <<< 8 ↔
      (v.setWidth 32 >>> 0).setWidth 8 = b₁ ∧ (v.setWidth 32 >>> 8).setWidth 8 = b₂ := by
  constructor
  · intro h
    rw [h]
    constructor
    · ext j hj
      simp
    · ext j hj
      simp
      grind
  · rintro ⟨rfl, rfl⟩
    ext j hj
    simp
    grind

private theorem crc32_bytes (v : BitVec 32) (b₁ b₂ b₃ b₄ : Byte) :
    v = b₁.setWidth 32 ||| b₂.setWidth 32 <<< 8 ||| b₃.setWidth 32 <<< 16 |||
        b₄.setWidth 32 <<< 24 ↔
      (v >>> 0).setWidth 8 = b₁ ∧ (v >>> 8).setWidth 8 = b₂ ∧ (v >>> 16).setWidth 8 = b₃ ∧
        (v >>> 24).setWidth 8 = b₄ := by
  constructor
  · rintro rfl
    refine ⟨?_, ?_, ?_, ?_⟩ <;> ext j hj <;> simp <;> grind
  · rintro ⟨rfl, rfl, rfl, rfl⟩
    ext j hj
    simp
    grind

@[simp] theorem length_rxBytes (h : HdlcLl π) (start : Int) (len : Nat) :
    (h.rxBytes start len).length = len := by
  simp [HdlcLl.rxBytes]

theorem rxBytes_take (h : HdlcLl π) (start : Int) {k len : Nat} (hk : k ≤ len) :
    (h.rxBytes start len).take k = h.rxBytes start k := by
  simp only [HdlcLl.rxBytes, ← List.map_take, List.take_range, Nat.min_eq_left hk]

theorem rxBytes_drop (h : HdlcLl π) (start : Int) (k len : Nat) :
    (h.rxBytes start len).drop k = h.rxBytes (start + k) (len - k) := by
  apply List.ext_getElem
  · simp
  · intro i h1 h2
    simp [HdlcLl.rxBytes, Int.add_assoc]

/-- The comparison of check fields in `hdlc_ll_read_end` compares the last bytes
of the frame with the check field of the others. -/
theorem rxCrc_eq_iff {h : HdlcLl π} {len : Nat} (hc : h.crcType.stored = h.crcType)
    (hp : h.rx.ptr = h.rx.activeFrameBuf + len) (hl : h.crcType.value / 8 ≤ len) :
    (rxCrc h len).1 = (rxCrc h len).2 ↔
      fcs h.crcType (h.rxBytes h.rx.activeFrameBuf (len - h.crcType.value / 8)) =
        (h.rxBytes h.rx.activeFrameBuf len).drop (len - h.crcType.value / 8) := by
  have hsub (k i : Nat) (hk : k ≤ len) (hi : i ≤ k) :
      h.rx.activeFrameBuf + ((len - k : Nat) : Int) + (i : Int) = h.rx.ptr - ((k - i : Nat) : Int) := by
    omega
  have hlen : len - (len - h.crcType.value / 8) = h.crcType.value / 8 := by omega
  rw [rxBytes_drop, hlen]
  cases hct : h.crcType with
  | off => rw [hct] at hc; cases hc
  | default => simp [rxCrc, hct, fcs, checkBytes, HdlcCrc.value, HdlcLl.rxBytes]
  | crc8 =>
      rw [hct] at hl
      have h0 := hsub 1 0 hl (by decide)
      simp only [rxCrc, hct, crc8_bytes]
      simp [fcs, checkBytes, txCrc, HdlcCrc.value, HdlcLl.rxBytes] at h0 ⊢
      rw [h0]
  | crc16 =>
      rw [hct] at hl
      have h0 := hsub 2 0 hl (by decide)
      have h1 := hsub 2 1 hl (by decide)
      simp only [rxCrc, hct, crc16_bytes]
      simp [fcs, checkBytes, txCrc, HdlcCrc.value, HdlcLl.rxBytes, List.range_succ] at h0 h1 ⊢
      rw [h1, h0]
  | crc32 =>
      rw [hct] at hl
      have h0 := hsub 4 0 hl (by decide)
      have h1 := hsub 4 1 hl (by decide)
      have h2 := hsub 4 2 hl (by decide)
      have h3 := hsub 4 3 hl (by decide)
      simp only [rxCrc, hct, crc32_bytes]
      simp [fcs, checkBytes, txCrc, HdlcCrc.value, HdlcLl.rxBytes, List.range_succ] at h0 h1 h2 h3 ⊢
      rw [h3, h2, h1, h0]

/-! ## The handle as a transducer -/

/-- The abstract state of a handle. -/
def HdlcLl.view (h : HdlcLl π) : RxView :=
  match h.rx.state with
  | .readStart => .start
  | _ => .data (h.rxBytes h.rx.activeFrameBuf (h.rx.ptr - h.rx.activeFrameBuf).toNat) h.rx.escape

/-- A handle whose frame buffer holds at most `phys_mtu` bytes. -/
structure HdlcLl.RxOk (c : HdlcCrc) (mtu : Int) (h : HdlcLl π) : Prop where
  crcType : h.crcType = c
  physMtu : h.physMtu = mtu
  ptr : h.rx.state ≠ .readStart → ∃ n : Nat, h.rx.ptr = h.rx.activeFrameBuf + n ∧
    (n = 0 ∨ (n : Int) ≤ mtu)

/-- A handle between two `hdlc_ll_run_rx` calls. -/
structure HdlcLl.RxIdle (c : HdlcCrc) (mtu : Int) (h : HdlcLl π) : Prop where
  ok : h.RxOk c mtu
  state : h.rx.state ≠ .readEnd

/-- The body of the frame in progress. -/
def HdlcLl.body (h : HdlcLl π) : List Byte :=
  h.rxBytes h.rx.activeFrameBuf (h.rx.ptr - h.rx.activeFrameBuf).toNat

theorem view_readStart {h : HdlcLl π} (hs : h.rx.state = .readStart) : h.view = .start := by
  simp [HdlcLl.view, hs]

theorem view_readData {h : HdlcLl π} (hs : h.rx.state = .readData) :
    h.view = .data h.body h.rx.escape := by
  simp [HdlcLl.view, hs, HdlcLl.body]

/-- A byte stored behind the frame in progress. -/
theorem rxBytes_update {h : HdlcLl π} {n : Nat} (start : Int) (byte : Byte) :
    (List.range (n + 1)).map
        (fun (i : Nat) => Function.update h.rxBuf (start + n) byte (start + i)) =
      h.rxBytes start n ++ [byte] := by
  rw [List.range_succ, List.map_append]
  refine congrArg₂ (· ++ ·) (List.map_congr_left fun i hi => ?_) (by simp)
  have hlt := List.mem_range.mp hi
  exact Function.update_of_ne (by omega) _ _

variable {c : HdlcCrc} {mtu : Int}

/-- One byte of a frame body. -/
theorem readDataByte_view {h : HdlcLl π} (ho : h.RxOk c mtu) (hs : h.rx.state = .readData)
    {byte : Byte} (hb : byte ≠ flagSequence) :
    (readDataByte h byte).RxOk c mtu ∧ (readDataByte h byte).rx.state = .readData ∧
      viewStep c mtu h.view byte = ((readDataByte h byte).view, []) := by
  obtain ⟨n, hn, hle⟩ := ho.ptr (by simp [hs])
  have hsub : h.rx.ptr - h.rx.activeFrameBuf = n := by omega
  have hlen : h.body.length = n := by simp [HdlcLl.body, hsub]
  rw [view_readData hs]
  by_cases he : byte = escapeChar
  · have hr : readDataByte h byte = { h with rx := { h.rx with escape := true } } := by
      simp [readDataByte, he]
    rw [hr]
    refine ⟨⟨ho.crcType, ho.physMtu, fun _ => ⟨n, hn, hle⟩⟩, hs, ?_⟩
    rw [view_readData (by exact hs)]
    simp only [viewStep, if_neg hb, if_pos he]
    rfl
  · by_cases hroom : (n : Int) < mtu
    · obtain ⟨v, hv⟩ : ∃ v, (if h.rx.escape then byte ^^^ escapeBit else byte) = v := ⟨_, rfl⟩
      have hr : readDataByte h byte = { h with
          rxBuf := Function.update h.rxBuf h.rx.ptr v
          rx := { h.rx with escape := false, ptr := h.rx.ptr + 1 } } := by
        rw [← hv]
        cases hesc : h.rx.escape <;> simp [readDataByte, he, hsub, ho.physMtu, hroom, hesc]
      rw [hr]
      refine ⟨⟨ho.crcType, ho.physMtu, fun _ => ⟨n + 1, ?_, Or.inr (by omega)⟩⟩, hs, ?_⟩
      · simp only
        omega
      · rw [view_readData (by exact hs)]
        have hn1 : (h.rx.ptr + 1 - h.rx.activeFrameBuf).toNat = n + 1 := by omega
        have hbody := rxBytes_update (h := h) (n := n) h.rx.activeFrameBuf v
        rw [← hn] at hbody
        have hn0 : (h.rx.ptr - h.rx.activeFrameBuf).toNat = n := by omega
        simp only [viewStep, if_neg hb, if_neg he, hlen, if_pos hroom, hv]
        simp only [HdlcLl.body, hn1, hn0, ← hbody]
        rfl
    · have hr : readDataByte h byte = h := by
        simp [readDataByte, he, hsub, ho.physMtu, hroom]
      rw [hr]
      refine ⟨ho, hs, ?_⟩
      simp only [viewStep, if_neg hb, if_neg he, hlen, if_neg hroom, view_readData hs]

/-- The end of an empty frame: the flag opens the next one. -/
theorem readEnd_empty {h : HdlcLl π} (hp : h.rx.ptr = h.rx.activeFrameBuf) :
    readEnd h = { h := { h with rx := { h.rx with escape := false, state := .readData } }
                  result := .ok 0, read := none } := by
  simp [readEnd, hp]

/-- The end of a frame of `n` bytes that fit the buffer. -/
theorem readEnd_eq {h : HdlcLl π} {n : Nat} (hp : h.rx.ptr = h.rx.activeFrameBuf + n)
    (hz : n ≠ 0) (hle : (n : Int) ≤ h.physMtu) :
    readEnd h =
      if n < h.crcType.value / 8 ∨ (rxCrc h n).1 ≠ (rxCrc h n).2 then
        { h := { h with rx := { h.rx with state := .readStart } }
          result := .error .wrongCrc, read := none }
      else
        { h := { h with rx := { h.rx with state := .readStart, activeFrameBuf := nextFrameBuf h } }
          result := .ok 0
          read := some (h.rxBytes h.rx.activeFrameBuf (n - h.crcType.value / 8)) } := by
  have hne : h.rx.ptr ≠ h.rx.activeFrameBuf := by omega
  have hsub : h.rx.ptr - h.rx.activeFrameBuf = n := by omega
  have hle' : ¬(n : Int) > h.physMtu := by omega
  simp only [readEnd, if_neg hne, hsub, if_neg hle', Int.ofNat_lt, Int.toNat_natCast]
  by_cases hs : n < h.crcType.value / 8
  · rw [if_pos hs, if_pos (Or.inl hs)]
  · rw [if_neg hs]
    by_cases hcrc : (rxCrc h n).1 = (rxCrc h n).2
    · exact (if_neg (not_not.mpr hcrc)).trans (if_neg (not_or.mpr ⟨hs, not_not.mpr hcrc⟩)).symm
    · exact (if_pos hcrc).trans (if_pos (Or.inr hcrc)).symm

/-- The comparison of `hdlc_ll_read_end` is the one on the body. -/
theorem checkBody_body {h : HdlcLl π} (hc : h.crcType.stored = h.crcType) {n : Nat}
    (hp : h.rx.ptr = h.rx.activeFrameBuf + n) :
    checkBody h.crcType h.body =
      if n < h.crcType.value / 8 ∨ (rxCrc h n).1 ≠ (rxCrc h n).2 then .error .wrongCrc
      else .ok (h.rxBytes h.rx.activeFrameBuf (n - h.crcType.value / 8)) := by
  have hsub : h.rx.ptr - h.rx.activeFrameBuf = n := by omega
  have hbody : h.body = h.rxBytes h.rx.activeFrameBuf n := by simp [HdlcLl.body, hsub]
  simp only [checkBody, hbody, length_rxBytes, rxBytes_take h _ (Nat.sub_le n _)]
  by_cases hs : n < h.crcType.value / 8
  · rw [if_pos hs, if_pos (Or.inl hs)]
  · have hiff := rxCrc_eq_iff hc hp (by omega)
    by_cases hcrc : (rxCrc h n).1 = (rxCrc h n).2
    · rw [if_neg hs, if_pos (hiff.mp hcrc), if_neg (by simp [hs, hcrc])]
    · rw [if_neg hs, if_neg (fun hf => hcrc (hiff.mpr hf)), if_pos (Or.inr hcrc)]

/-- The end of a frame is what the flag does to the abstract state. -/
theorem readEnd_view {h : HdlcLl π} (hc : c.stored = c) (ho : h.RxOk c mtu)
    (hs : h.rx.state = .readEnd) :
    (readEnd h).h.RxIdle c mtu ∧
      ((readEnd h).result = .ok 0 ∨ (readEnd h).result = .error .wrongCrc) ∧
      viewStep c mtu (.data h.body h.rx.escape) flagSequence =
        ((readEnd h).h.view, (readEnd h).events) := by
  obtain ⟨n, hn, hle⟩ := ho.ptr (by simp [hs])
  have hlen : h.body.length = n := by
    have hsub : h.rx.ptr - h.rx.activeFrameBuf = n := by omega
    simp [HdlcLl.body, hsub]
  by_cases hz : n = 0
  · have hp : h.rx.ptr = h.rx.activeFrameBuf := by omega
    have hbody : h.body = [] := List.eq_nil_of_length_eq_zero (by omega)
    rw [readEnd_empty hp, hbody, viewStep_data_empty]
    refine ⟨⟨⟨ho.crcType, ho.physMtu, fun _ => ⟨n, hn, hle⟩⟩, by simp⟩, Or.inl rfl, ?_⟩
    rw [view_readData rfl]
    simp [HdlcLl.body, hp, HdlcLl.rxBytes, RxStep.events]
  · have hne : h.body ≠ [] := fun hb => hz (by rw [← hlen, hb]; rfl)
    have hct := ho.crcType
    have hcheck := checkBody_body (by rw [hct, hc]) hn
    rw [viewStep_data_flag hne, readEnd_eq hn hz (by rw [ho.physMtu]; omega), bodyEvent, ← hct,
      hcheck]
    split
    · exact ⟨⟨⟨rfl, ho.physMtu, by simp⟩, by simp⟩, Or.inr rfl, rfl⟩
    · exact ⟨⟨⟨rfl, ho.physMtu, by simp⟩, by simp⟩, Or.inl rfl, rfl⟩

/-- A byte between two frames. -/
theorem readStart_view {h : HdlcLl π} (hi : h.RxIdle c mtu) (hs : h.rx.state = .readStart)
    (byte : Byte) (data : List Byte) :
    (readStart h (byte :: data)).h.RxIdle c mtu ∧
      viewStep c mtu h.view byte = ((readStart h (byte :: data)).h.view, []) := by
  rw [view_readStart hs]
  by_cases hb : byte = flagSequence
  · simp only [readStart, hb, ne_eq, not_true_eq_false, if_false]
    refine ⟨⟨⟨hi.ok.crcType, hi.ok.physMtu, fun _ => ⟨0, by simp, Or.inl rfl⟩⟩, by simp⟩, ?_⟩
    simp [view_readData, HdlcLl.body, HdlcLl.rxBytes]
  · simp only [readStart, ne_eq, hb, not_false_eq_true, if_true]
    exact ⟨hi, by rw [viewStep_start hb, view_readStart hs]⟩

/-- A byte is what it is to the transducer. -/
theorem rxByte_view (hc : c.stored = c) {h : HdlcLl π} (hi : h.RxIdle c mtu) (byte : Byte) :
    (rxByte h byte).1.RxIdle c mtu ∧
      viewStep c mtu h.view byte = ((rxByte h byte).1.view, (rxByte h byte).2) := by
  cases hs : h.rx.state with
  | readEnd => exact absurd hs hi.state
  | readStart =>
    rw [rxByte_readStart hs]
    exact readStart_view hi hs byte []
  | readData =>
    by_cases hb : byte = flagSequence
    · have ho : HdlcLl.RxOk c mtu { h with rx := { h.rx with state := .readEnd } } :=
        ⟨hi.ok.crcType, hi.ok.physMtu, fun _ => hi.ok.ptr (by simp [hs])⟩
      obtain ⟨hidle, -, hend⟩ := readEnd_view hc ho rfl
      rw [hb, rxByte_flag hs, view_readData hs]
      exact ⟨hidle, hend⟩
    · obtain ⟨ho, hs', hv⟩ := readDataByte_view hi.ok hs hb
      rw [rxByte_data hs hb]
      exact ⟨⟨ho, by simp [hs']⟩, hv⟩

theorem after_rxByte_view (hc : c.stored = c) {h : HdlcLl π} (hi : h.RxIdle c mtu)
    (data : List Byte) :
    (Transducer.after rxByte h data).RxIdle c mtu ∧
      Transducer.after (viewStep c mtu) h.view data = (Transducer.after rxByte h data).view ∧
      Transducer.emits (viewStep c mtu) h.view data = Transducer.emits rxByte h data :=
  @Transducer.after_view _ _ _ _ (viewStep c mtu) (HdlcLl.RxIdle c mtu) HdlcLl.view rxByte
    (fun _ byte h => rxByte_view hc h byte) h hi data

/-- What a `hdlc_ll_run_rx` call does: it consumes some of the data as the
transducer does. -/
structure RunRx.Spec (c : HdlcCrc) (mtu : Int) (h : HdlcLl π) (data : List Byte)
    (r : RunRx π) : Prop where
  le : r.result ≤ data.length
  pos : data ≠ [] → 0 < r.result
  idle : r.h.RxIdle c mtu
  view : r.h.view = Transducer.after (viewStep c mtu) h.view (data.take r.result)
  events : r.events = Transducer.emits (viewStep c mtu) h.view (data.take r.result)

/-- No byte but the last one consumed is answered. -/
structure RunRx.Account (c : HdlcCrc) (mtu : Int) (h : HdlcLl π) (data : List Byte)
    (r : RunRx π) : Prop extends r.Spec c mtu h data where
  silent : Transducer.emits (viewStep c mtu) h.view (data.take (r.result - 1)) = []

theorem hdlcLlRunRx_account (hc : c.stored = c) {h : HdlcLl π} (hi : h.RxIdle c mtu)
    (data : List Byte) : (hdlcLlRunRx h data).Account c mtu h data := by
  have hcall := hdlcLlRunRx_bytewise hi.state data
  obtain ⟨hidle, hview, hemits⟩ := after_rxByte_view hc hi (data.take (hdlcLlRunRx h data).result)
  obtain ⟨-, -, hsilent⟩ := after_rxByte_view hc hi (data.take ((hdlcLlRunRx h data).result - 1))
  refine ⟨⟨hcall.le, hcall.pos, ?_, ?_, hcall.events.trans hemits.symm⟩, ?_⟩
  · rw [hcall.handle]
    exact hidle
  · rw [hview, hcall.handle]
  · rw [hsilent, hcall.silent]

theorem hdlcLlRunRx_spec (hc : c.stored = c) {h : HdlcLl π} (hi : h.RxIdle c mtu)
    (data : List Byte) : (hdlcLlRunRx h data).Spec c mtu h data :=
  (hdlcLlRunRx_account hc hi data).toSpec

/-- The receiver implements the transducer. -/
theorem onRxData_implements (hc : c.stored = c) :
    Transducer.Implements (viewStep c mtu) (HdlcLl.RxIdle (π := π) c mtu) HdlcLl.view onRxData where
  keeps h data hi := by
    have hall := onRxData_bytewise.state h data hi.state
    rw [show (onRxData h data).1 = _ from hall]
    exact (after_rxByte_view hc hi data).1
  state h data hi := by
    have hall := onRxData_bytewise.state h data hi.state
    rw [show (onRxData h data).1 = _ from hall]
    exact (after_rxByte_view hc hi data).2.1.symm
  output h data hi := by
    rw [onRxData_bytewise.output h data hi.state]
    exact (after_rxByte_view hc hi data).2.2.symm

end TinyProto.Hdlc
