import TinyProto.Hdlc.Deframe

/-!
# Whole streams

What the transmitter emits for a frame, and what the receiver makes of it.

A handle is `Reachable` when it came from `hdlc_ll_init` by calls of the public
functions.  The two halves of a reachable handle keep their invariants
(`Reachable.rxIdle`, `Reachable.txOk`).  `transmit` puts frames one after another,
each drained with its own buffer sizes and with other bytes in front of it.
-/

namespace TinyProto.Hdlc

variable {π : Type}

/-! ## Reachable handles -/

/-- The handles a program can have.  The data behind a pointer does not change
while the transmitter reads it. -/
inductive HdlcLl.Reachable (mem : π → Nat → Byte) : HdlcLl π → Prop where
  | init {sz : StructSizes} {init : HdlcLlInit} {a : Int} {h : HdlcLl π} :
      hdlcLlInit sz init = .ok (a, h) → HdlcLl.Reachable mem h
  | runRx {h : HdlcLl π} (data : List Byte) :
      HdlcLl.Reachable mem h → HdlcLl.Reachable mem (hdlcLlRunRx h data).h
  | runTx {h : HdlcLl π} (len : Nat) :
      HdlcLl.Reachable mem h → HdlcLl.Reachable mem (hdlcLlRunTx mem h len).1
  | putFrame {h : HdlcLl π} (data : π) (len : Nat) :
      HdlcLl.Reachable mem h → HdlcLl.Reachable mem (hdlcLlPutFrame h data len).1
  | reset {h : HdlcLl π} (flags : ResetFlags) :
      HdlcLl.Reachable mem h → HdlcLl.Reachable mem (hdlcLlReset h flags)

theorem stored_stored (c : HdlcCrc) : c.stored.stored = c.stored := by
  cases c <;> rfl

theorem value_mod_of_stored {c : HdlcCrc} (hc : c.stored = c) : c.value % 8 = 0 := by
  cases c with
  | off => cases hc
  | _ => rfl

/-- The part of a handle that belongs to the receiver is all that changed. -/
def HdlcLl.RxOnly (h h' : HdlcLl π) : Prop := ∃ rx buf, h' = { h with rx := rx, rxBuf := buf }

theorem HdlcLl.RxOnly.refl (h : HdlcLl π) : h.RxOnly h := ⟨h.rx, h.rxBuf, rfl⟩

theorem HdlcLl.RxOnly.trans {h h₁ h₂ : HdlcLl π} (h₁₂ : h.RxOnly h₁) (h₂₃ : h₁.RxOnly h₂) :
    h.RxOnly h₂ := by
  obtain ⟨rx, buf, rfl⟩ := h₁₂
  obtain ⟨rx', buf', rfl⟩ := h₂₃
  exact ⟨rx', buf', rfl⟩

theorem readDataLoop_rxOnly (h : HdlcLl π) (data : List Byte) :
    h.RxOnly (readDataLoop h data).1 := by
  induction data generalizing h with
  | nil => exact .refl h
  | cons byte data ih =>
      have hbyte : h.RxOnly (readDataByte h byte) := by
        unfold readDataByte
        repeat' split
        all_goals exact ⟨_, _, rfl⟩
      unfold readDataLoop
      split
      · exact ⟨_, _, rfl⟩
      · exact hbyte.trans (ih _)

theorem rxStateCall_rxOnly (h : HdlcLl π) (data : List Byte) : h.RxOnly (rxStateCall h data).h := by
  unfold rxStateCall
  cases h.rx.state with
  | readStart =>
      simp only [readStart]
      repeat' split
      all_goals exact ⟨_, _, rfl⟩
  | readData => exact readDataLoop_rxOnly h data
  | readEnd =>
      simp only [readEnd]
      repeat' split
      all_goals exact ⟨_, _, rfl⟩

theorem runRxLoop_rxOnly (fuel : Nat) (h : HdlcLl π) (data : List Byte) :
    h.RxOnly (runRxLoop fuel h data).h := by
  induction fuel generalizing h data with
  | zero => exact .refl h
  | succ fuel ih =>
      have hcall := rxStateCall_rxOnly h data
      unfold runRxLoop
      dsimp only
      split
      · split
        · exact hcall
        · exact hcall
        · exact hcall.trans (ih _ _)
      · exact .refl h

theorem onRxData_rxOnly (h : HdlcLl π) (data : List Byte) : h.RxOnly (onRxData h data).1 := by
  have hloop : ∀ (fuel : Nat) (h : HdlcLl π) (data : List Byte),
      h.RxOnly (onRxDataLoop fuel h data).1 := by
    intro fuel
    induction fuel with
    | zero => exact fun h _ => .refl h
    | succ fuel ih =>
        intro h data
        unfold onRxDataLoop
        split
        · exact .refl h
        · exact (runRxLoop_rxOnly _ h data).trans (ih _ _)
  exact hloop _ h data

/-- A handle with another transmitter. -/
def HdlcLl.withTx (h : HdlcLl π) (tx : Tx π) : HdlcLl π := { h with tx := tx }

theorem readDataByte_withTx (h : HdlcLl π) (tx : Tx π) (byte : Byte) :
    readDataByte (h.withTx tx) byte = (readDataByte h byte).withTx tx := by
  have hcond : (h.withTx tx).rx = h.rx ∧ (h.withTx tx).physMtu = h.physMtu := ⟨rfl, rfl⟩
  unfold readDataByte
  rw [hcond.1, hcond.2]
  repeat' split
  all_goals rfl

theorem readDataLoop_withTx (tx : Tx π) : ∀ (data : List Byte) (h : HdlcLl π),
    readDataLoop (h.withTx tx) data =
      ((readDataLoop h data).1.withTx tx, (readDataLoop h data).2)
  | [], _ => rfl
  | byte :: data, h => by
    unfold readDataLoop
    split
    · rfl
    · rw [readDataByte_withTx, readDataLoop_withTx tx data]

theorem readEnd_withTx (tx : Tx π) (h : HdlcLl π) :
    readEnd (h.withTx tx) = { readEnd h with h := (readEnd h).h.withTx tx } := by
  obtain ⟨buf, size, crc, mtu, rx, tx₀⟩ := h
  have hcrc : ∀ rx' n, rxCrc (⟨buf, size, crc, mtu, rx', tx⟩ : HdlcLl π) n =
      rxCrc ⟨buf, size, crc, mtu, rx', tx₀⟩ n := by
    intro rx' n
    cases crc <;> rfl
  show readEnd (⟨buf, size, crc, mtu, rx, tx⟩ : HdlcLl π) = _
  unfold readEnd
  dsimp only
  rw [hcrc]
  repeat' split
  all_goals rfl

theorem rxStateCall_withTx (tx : Tx π) (h : HdlcLl π) (data : List Byte) :
    rxStateCall (h.withTx tx) data =
      { rxStateCall h data with h := (rxStateCall h data).h.withTx tx } := by
  have hstate : (h.withTx tx).rx.state = h.rx.state := rfl
  unfold rxStateCall
  rw [hstate]
  cases h.rx.state with
  | readStart =>
      cases data with
      | nil => rfl
      | cons byte data =>
          simp only [readStart]
          split <;> rfl
  | readData =>
      simp only [readData]
      rw [readDataLoop_withTx]
  | readEnd => exact readEnd_withTx tx h

theorem runRxLoop_withTx (tx : Tx π) : ∀ (fuel : Nat) (h : HdlcLl π) (data : List Byte),
    runRxLoop fuel (h.withTx tx) data =
      { runRxLoop fuel h data with h := (runRxLoop fuel h data).h.withTx tx }
  | 0, _, _ => rfl
  | fuel + 1, h, data => by
    have hstate : (h.withTx tx).rx.state = h.rx.state := rfl
    unfold runRxLoop
    rw [hstate]
    split
    · dsimp only
      rw [rxStateCall_withTx]
      cases hr : (rxStateCall h data).result with
      | error e => rfl
      | ok n =>
        cases n with
        | zero => rfl
        | succ n =>
          have hrest := runRxLoop_withTx tx fuel (rxStateCall h data).h (data.drop (n + 1))
          exact congrArg (fun r : RunRx π => { r with
            result := n + 1 + r.result, read := (rxStateCall h data).read.toList ++ r.read }) hrest
    · rfl

theorem onRxData_withTx (tx : Tx π) (h : HdlcLl π) (data : List Byte) :
    onRxData (h.withTx tx) data = ((onRxData h data).1.withTx tx, (onRxData h data).2) := by
  have hloop : ∀ (fuel : Nat) (h : HdlcLl π) (data : List Byte),
      onRxDataLoop fuel (h.withTx tx) data =
        ((onRxDataLoop fuel h data).1.withTx tx, (onRxDataLoop fuel h data).2) := by
    intro fuel
    induction fuel with
    | zero => exact fun _ _ => rfl
    | succ fuel ih =>
      intro h data
      unfold onRxDataLoop hdlcLlRunRx
      split
      · rfl
      · rw [runRxLoop_withTx]
        dsimp only
        rw [ih]
        rfl
  exact hloop _ h data
/-- The invariant of reachable handles. -/
structure HdlcLl.Inv (mem : π → Nat → Byte) (h : HdlcLl π) : Prop where
  stored : h.crcType.stored = h.crcType
  rxIdle : h.RxIdle h.crcType h.physMtu
  tx : h.tx.Ok h.crcType mem

theorem HdlcLl.Inv.putFrame {mem : π → Nat → Byte} {h : HdlcLl π} (hi : h.Inv mem) (data : π)
    (len : Nat) : (hdlcLlPutFrame h data len).1.Inv mem := by
  unfold hdlcLlPutFrame
  split
  · exact hi
  · split
    · exact hi
    · rename_i hn hl
      have hs : h.tx.state = .sendStart := hi.tx.idle (by simpa using hn)
      refine ⟨hi.stored, ⟨⟨rfl, rfl, hi.rxIdle.ok.ptr⟩, hi.rxIdle.state⟩,
        fun _ => hs, fun _ _ => Nat.pos_of_ne_zero hl, ?_, ?_, ?_, ?_⟩ <;> simp [hs]

theorem HdlcLl.Inv.reset {mem : π → Nat → Byte} {h : HdlcLl π} (hi : h.Inv mem)
    (flags : ResetFlags) : (hdlcLlReset h flags).Inv mem := by
  have htx : h.tx.reset.Ok h.crcType mem := .ofNone rfl rfl
  cases flags with
  | both => exact ⟨hi.stored, ⟨⟨rfl, rfl, by simp [hdlcLlReset]⟩, by simp [hdlcLlReset]⟩, htx⟩
  | rxOnly => exact ⟨hi.stored, ⟨⟨rfl, rfl, by simp [hdlcLlReset]⟩, by simp [hdlcLlReset]⟩, hi.tx⟩
  | txOnly => exact ⟨hi.stored, ⟨⟨rfl, rfl, hi.rxIdle.ok.ptr⟩, hi.rxIdle.state⟩, htx⟩

theorem HdlcLl.Reachable.inv {mem : π → Nat → Byte} {h : HdlcLl π} (hr : h.Reachable mem) :
    h.Inv mem := by
  induction hr with
  | init hi =>
      obtain ⟨hrx, htx, hc⟩ := hdlcLlInit_ok hi
      refine ⟨by rw [hc, stored_stored], ⟨⟨rfl, rfl, ?_⟩, ?_⟩, ?_⟩
      · simp [hrx, Rx.idle]
      · simp [hrx, Rx.idle]
      · rw [htx]
        exact .ofNone rfl rfl
  | runRx data _ ih =>
      have hs := hdlcLlRunRx_spec ih.stored ih.rxIdle data
      have hc := hs.idle.ok.crcType
      refine ⟨by rw [hc, ih.stored], ?_, ?_⟩
      · rw [hc, hs.idle.ok.physMtu]
        exact hs.idle
      · obtain ⟨rx, buf, heq⟩ := runRxLoop_rxOnly (data.length + 1) _ data
        rw [hc, hdlcLlRunRx, heq]
        exact ih.tx
  | runTx len _ ih =>
      obtain ⟨-, -, hok⟩ := runTx_pending ⟨value_mod_of_stored ih.stored, ih.tx⟩ len
      exact ⟨ih.stored, ⟨⟨rfl, rfl, ih.rxIdle.ok.ptr⟩, ih.rxIdle.state⟩, hok.tx⟩
  | putFrame data len _ ih => exact ih.putFrame data len
  | reset flags _ ih => exact ih.reset flags

theorem HdlcLl.Inv.txOk {mem : π → Nat → Byte} {h : HdlcLl π} (hi : h.Inv mem) : h.TxOk mem :=
  ⟨value_mod_of_stored hi.stored, hi.tx⟩

theorem HdlcLl.Inv.runTx {mem : π → Nat → Byte} {h : HdlcLl π} (hi : h.Inv mem) (len : Nat) :
    (hdlcLlRunTx mem h len).1.Inv mem :=
  ⟨hi.stored, ⟨⟨rfl, rfl, hi.rxIdle.ok.ptr⟩, hi.rxIdle.state⟩, (runTx_pending hi.txOk len).2.2.tx⟩

/-! ## Sending frames -/

/-- `hdlc_ll_run_tx` called with one buffer size after another. -/
def drain (mem : π → Nat → Byte) : HdlcLl π → List Nat → HdlcLl π × List Byte
  | h, [] => (h, [])
  | h, len :: sizes =>
      let (h, out, _) := hdlcLlRunTx mem h len
      let (h, rest) := drain mem h sizes
      (h, out ++ rest)

/-- A frame to send, the buffer sizes it is drained with, and the bytes that get
onto the line in front of it. -/
structure Sending (π : Type) where
  noise : List Byte
  data : π
  len : Nat
  sizes : List Nat

/-- The payload behind the pointer. -/
def Sending.payload (mem : π → Nat → Byte) (s : Sending π) : List Byte :=
  (List.range s.len).map (mem s.data)

/-- One frame put and drained.  Fails when the frame is not taken or the sizes do
not drain it. -/
def sendFrame (mem : π → Nat → Byte) (h : HdlcLl π) (s : Sending π) :
    Option (HdlcLl π × List Byte) :=
  let (h, status) := hdlcLlPutFrame h s.data s.len
  if status = .success then
    let (h, out) := drain mem h s.sizes
    if h.tx.originData.isNone then some (h, out) else none
  else none

/-- The bytes on the line when frames are sent one after another. -/
def transmit (mem : π → Nat → Byte) : HdlcLl π → List (Sending π) → Option (List Byte)
  | _, [] => some []
  | h, s :: ss =>
      match sendFrame mem h s with
      | none => none
      | some (h, out) => (transmit mem h ss).map fun rest => s.noise ++ out ++ rest

/-- The room of all buffers together. -/
def room (sizes : List Nat) : Nat := sizes.foldr (fun len n => len + n) 0

@[simp] theorem room_nil : room [] = 0 := rfl

@[simp] theorem room_cons (len : Nat) (sizes : List Nat) :
    room (len :: sizes) = len + room sizes := rfl

theorem length_le_room {sizes : List Nat} (hpos : ∀ len ∈ sizes, 0 < len) :
    sizes.length ≤ room sizes := by
  induction sizes with
  | nil => exact Nat.le_refl 0
  | cons len sizes ih =>
      have h1 := hpos len (List.mem_cons_self ..)
      have h2 := ih fun n hn => hpos n (List.mem_cons_of_mem _ hn)
      rw [List.length_cons, room_cons]
      omega

/-- Draining emits what is pending, as far as the buffers reach. -/
theorem drain_spec {mem : π → Nat → Byte} {h : HdlcLl π} (hi : h.Inv mem) (sizes : List Nat) :
    (drain mem h sizes).1.Inv mem ∧ (drain mem h sizes).1.crcType = h.crcType ∧
      (drain mem h sizes).2 = (h.pending mem).take (room sizes) ∧
      (drain mem h sizes).1.pending mem = (h.pending mem).drop (room sizes) := by
  induction sizes generalizing h with
  | nil => exact ⟨hi, rfl, by simp [drain], by simp [drain]⟩
  | cons len sizes ih =>
      obtain ⟨hout, hrest, -⟩ := runTx_pending hi.txOk len
      obtain ⟨h1, h2, h3, h4⟩ := ih (hi.runTx len)
      rw [hrest] at h3 h4
      refine ⟨h1, h2, ?_, ?_⟩
      · show (hdlcLlRunTx mem h len).2.1 ++ (drain mem (hdlcLlRunTx mem h len).1 sizes).2 = _
        rw [hout, h3, room_cons, List.take_add]
      · show (drain mem (hdlcLlRunTx mem h len).1 sizes).1.pending mem = _
        rw [h4, List.drop_drop, room_cons]

/-- A frame that was just put is pending as a whole. -/
theorem pending_putFrame {mem : π → Nat → Byte} {h : HdlcLl π} (hi : h.Inv mem)
    (hn : h.tx.originData = none) (data : π) {len : Nat} (hl : 0 < len) :
    (hdlcLlPutFrame h data len).2 = .success ∧
      (hdlcLlPutFrame h data len).1.crcType = h.crcType ∧
      (hdlcLlPutFrame h data len).1.pending mem =
        encodeFrame h.crcType ((List.range len).map (mem data)) := by
  have hz : len ≠ 0 := Nat.ne_of_gt hl
  obtain ⟨tx, htx⟩ : ∃ t : Tx π, t = { h.tx with originData := some data, data := 0, len := len } :=
    ⟨_, rfl⟩
  refine ⟨by simp [hdlcLlPutFrame, hn, hz], by simp [hdlcLlPutFrame, hn, hz], ?_⟩
  have hput : (hdlcLlPutFrame h data len).1 = { h with tx := tx } := by
    simp [hdlcLlPutFrame, hn, hz, htx]
  have hnew : tx.pending h.crcType mem = encodeFrame h.crcType ((List.range tx.len).map (mem data)) :=
    Tx.pending_new hi.stored (by rw [htx]; exact hi.tx.idle hn) (by rw [htx]) (by rw [htx])
  rw [hput]
  rw [htx] at hnew ⊢
  exact hnew

/-- A frame that is sent is on the line as its encoding. -/
theorem sendFrame_spec {mem : π → Nat → Byte} {h h' : HdlcLl π} {s : Sending π}
    {out : List Byte} (hi : h.Inv mem) (hn : h.tx.originData = none) (hl : 0 < s.len)
    (hs : sendFrame mem h s = some (h', out)) :
    h'.Inv mem ∧ h'.tx.originData = none ∧ h'.crcType = h.crcType ∧
      out = encodeFrame h.crcType (s.payload mem) := by
  obtain ⟨hok, hc, hpend⟩ := pending_putFrame hi hn s.data hl
  obtain ⟨h1, h2, h3, h4⟩ := drain_spec (hi.putFrame s.data s.len) s.sizes
  simp only [sendFrame, hok, if_true] at hs
  split at hs
  · rename_i hnone
    have hod := Option.isNone_iff_eq_none.mp hnone
    cases hs
    refine ⟨h1, hod, h2.trans hc, ?_⟩
    rw [h3, hpend, List.take_of_length_le]
    · rfl
    · have hnil := h1.tx.pending_nil hod
      have hdrop : ((hdlcLlPutFrame h s.data s.len).1.pending mem).drop (room s.sizes) = [] :=
        h4.symm.trans hnil
      rw [hpend] at hdrop
      exact List.drop_eq_nil_iff.mp hdrop
  · cases hs

/-- As many positive buffer sizes as the frame has bytes drain it. -/
theorem sendFrame_isSome {mem : π → Nat → Byte} {h : HdlcLl π} {s : Sending π} (hi : h.Inv mem)
    (hn : h.tx.originData = none) (hl : 0 < s.len) (hpos : ∀ len ∈ s.sizes, 0 < len)
    (hlen : (encodeFrame h.crcType (s.payload mem)).length ≤ s.sizes.length) :
    (sendFrame mem h s).isSome := by
  obtain ⟨hok, -, hpend⟩ := pending_putFrame hi hn s.data hl
  obtain ⟨h1, -, -, h4⟩ := drain_spec (hi.putFrame s.data s.len) s.sizes
  have hsum := length_le_room hpos
  have hnil : (drain mem (hdlcLlPutFrame h s.data s.len).1 s.sizes).1.pending mem = [] := by
    rw [h4, hpend]
    exact List.drop_eq_nil_of_le (Nat.le_trans hlen hsum)
  have hnone : (drain mem (hdlcLlPutFrame h s.data s.len).1 s.sizes).1.tx.originData = none :=
    by_contra fun hne => Tx.pending_ne_nil _ mem hne hnil
  simp [sendFrame, hok, hnone]

/-- The stream: the noise in front of each frame, and its encoding. -/
theorem transmit_spec {mem : π → Nat → Byte} :
    ∀ {ss : List (Sending π)} {h : HdlcLl π} {stream : List Byte}, h.Inv mem →
      h.tx.originData = none → (∀ s ∈ ss, 0 < s.len) → transmit mem h ss = some stream →
      stream = ss.flatMap fun s => s.noise ++ encodeFrame h.crcType (s.payload mem)
  | [], h, stream, _, _, _, ht => by
      cases ht
      rfl
  | s :: ss, h, stream, hi, hn, hl, ht => by
      simp only [transmit] at ht
      split at ht
      · cases ht
      · rename_i h' out hs
        obtain ⟨hi', hn', hc, hout⟩ := sendFrame_spec hi hn (hl s (List.mem_cons_self ..)) hs
        obtain ⟨rest, hrest, rfl⟩ := Option.map_eq_some_iff.mp ht
        have ih := transmit_spec hi' hn' (fun s hs => hl s (List.mem_cons_of_mem _ hs)) hrest
        rw [hout, ih, hc, List.flatMap_cons]

/-! ## Receiving frames -/

variable {c : HdlcCrc} {mtu : Int}

theorem length_fcs (c : HdlcCrc) (payload : List Byte) : (fcs c payload).length = c.value / 8 := by
  simp [fcs, checkBytes]

/-- The check field of a payload is right. -/
theorem checkBody_fcs (c : HdlcCrc) (payload : List Byte) :
    checkBody c (payload ++ fcs c payload) = .ok payload := by
  have hsub : (payload ++ fcs c payload).length - c.value / 8 = payload.length := by
    rw [List.length_append, length_fcs, Nat.add_sub_cancel]
  have hlt : ¬(payload ++ fcs c payload).length < c.value / 8 := by
    rw [List.length_append, length_fcs]
    omega
  simp only [checkBody, if_neg hlt, hsub]
  simp

/-- An escaped byte string is appended to the body. -/
theorem view_stuff {body : List Byte} (bs : List Byte) (h : (body.length + bs.length : Nat) ≤ mtu) :
    Transducer.after (viewStep c mtu) (.data body false) (stuff bs) = .data (body ++ bs) false ∧
      Transducer.emits (viewStep c mtu) (.data body false) (stuff bs) = [] := by
  induction bs generalizing body with
  | nil => simp
  | cons b bs ih =>
      simp only [List.length_cons] at h
      have hroom : (body.length : Int) < mtu := by omega
      have hlen : ((body ++ [b]).length + bs.length : Nat) ≤ mtu := by
        simp only [List.length_append, List.length_cons, List.length_nil]
        omega
      obtain ⟨ih1, ih2⟩ := ih hlen
      have hbyte : Transducer.after (viewStep c mtu) (.data body false) (stuffByte b) =
            .data (body ++ [b]) false ∧
          Transducer.emits (viewStep c mtu) (.data body false) (stuffByte b) = [] := by
        by_cases hs : Special b
        · have h1 : (escapeChar : Byte) ≠ flagSequence := by decide
          have h2 : b ^^^ escapeBit ≠ flagSequence ∧ b ^^^ escapeBit ≠ escapeChar := by
            rcases hs with rfl | rfl <;> decide
          have h3 : b ^^^ escapeBit ^^^ escapeBit = b := by
            rw [BitVec.xor_assoc, BitVec.xor_self, BitVec.xor_zero]
          rw [stuffByte_special hs]
          simp [viewStep, h1, h2.1, h2.2, h3, hroom]
        · have h1 : b ≠ flagSequence := fun h => hs (Or.inr h)
          have h2 : b ≠ escapeChar := fun h => hs (Or.inl h)
          rw [stuffByte_plain hs]
          simp [viewStep, h1, h2, hroom]
      rw [stuff_cons, Transducer.after_append, Transducer.emits_append, hbyte.1, hbyte.2]
      refine ⟨?_, by simpa using ih2⟩
      simpa using ih1

/-- A payload that fits the receiver. -/
def Fits (c : HdlcCrc) (mtu : Int) (payload : List Byte) : Prop :=
  payload ≠ [] ∧ ((payload.length + c.value / 8 : Nat) : Int) ≤ mtu

theorem fits_payload {mem : π → Nat → Byte} {s : Sending π} (hl : 0 < s.len)
    (hm : ((s.len + c.value / 8 : Nat) : Int) ≤ mtu) : Fits c mtu (s.payload mem) := by
  have hlen : (s.payload mem).length = s.len := by simp [Sending.payload]
  refine ⟨fun h => ?_, by rwa [hlen]⟩
  rw [h, List.length_nil] at hlen
  omega

/-- No flag stands in an escaped byte string. -/
theorem flag_not_mem_stuff (bs : List Byte) : flagSequence ∉ stuff bs := by
  induction bs with
  | nil => simp
  | cons b bs ih =>
      rw [stuff_cons, List.mem_append]
      rintro (hm | hm)
      · by_cases hs : Special b
        · rw [stuffByte_special hs] at hm
          rcases hs with rfl | rfl <;> revert hm <;> decide
        · rw [stuffByte_plain hs, List.mem_singleton] at hm
          exact hs (Or.inr hm.symm)
      · exact ih hm

/-- A receiver that is not inside of a frame. -/
def RxView.Ready (v : RxView) : Prop := v = .start ∨ ∃ escape, v = .data [] escape

/-- A frame that comes when no other is in progress is delivered. -/
theorem view_encodeFrame {v : RxView} (hv : v.Ready) {payload : List Byte}
    (hf : Fits c mtu payload) :
    Transducer.after (viewStep c mtu) v (encodeFrame c payload) = .start ∧
      Transducer.emits (viewStep c mtu) v (encodeFrame c payload) = [.frame payload] := by
  have hopen : viewStep c mtu v flagSequence = (.data [] false, []) := by
    rcases hv with rfl | ⟨escape, rfl⟩
    · exact viewStep_start_flag c mtu
    · exact viewStep_data_empty c mtu escape
  have hlen : ((([] : List Byte).length + (payload ++ fcs c payload).length : Nat) : Int) ≤ mtu := by
    rw [List.length_append, length_fcs, List.length_nil, Nat.zero_add]
    exact hf.2
  obtain ⟨h1, h2⟩ := @view_stuff c mtu [] (payload ++ fcs c payload) hlen
  have hne : payload ++ fcs c payload ≠ [] := by simp [hf.1]
  have hclose := @viewStep_data_flag c mtu _ hne false
  have hev : bodyEvent c (payload ++ fcs c payload) = .frame payload := by
    simp [bodyEvent, checkBody_fcs]
  rw [hev] at hclose
  simp only [encodeFrame, Transducer.after_cons, Transducer.emits_cons, hopen,
    Transducer.after_append, Transducer.emits_append, h1, h2, List.nil_append, hclose,
    Transducer.after_nil, Transducer.emits_nil, List.append_nil, and_self]

/-- Frames in a row are delivered. -/
theorem view_frames {payloads : List (List Byte)} (hf : ∀ payload ∈ payloads, Fits c mtu payload) :
    Transducer.after (viewStep c mtu) .start (payloads.flatMap (encodeFrame c)) = .start ∧
      Transducer.emits (viewStep c mtu) .start (payloads.flatMap (encodeFrame c)) =
        payloads.map .frame := by
  induction payloads with
  | nil => exact ⟨rfl, rfl⟩
  | cons payload payloads ih =>
    obtain ⟨he, hm⟩ := view_encodeFrame (v := .start) (.inl rfl) (hf payload List.mem_cons_self)
    obtain ⟨he', hm'⟩ := ih fun p hp => hf p (List.mem_cons_of_mem _ hp)
    rw [List.flatMap_cons, Transducer.after_append, Transducer.emits_append, he, hm, he', hm']
    exact ⟨rfl, rfl⟩

/-- Bytes that are no flags are skipped between frames. -/
theorem view_noise {noise : List Byte} (h : flagSequence ∉ noise) :
    Transducer.after (viewStep c mtu) .start noise = .start ∧
      Transducer.emits (viewStep c mtu) .start noise = [] := by
  induction noise with
  | nil => exact ⟨rfl, rfl⟩
  | cons b bs ih =>
      have hb : b ≠ flagSequence := fun he => h (he ▸ List.mem_cons_self ..)
      have ih := ih fun hm => h (List.mem_cons_of_mem _ hm)
      rw [Transducer.after_cons, Transducer.emits_cons, viewStep_start hb]
      exact ih

/-- A stream of frames with noise between them. -/
theorem view_stream {mem : π → Nat → Byte} (ss : List (Sending π))
    (hf : ∀ s ∈ ss, Fits c mtu (s.payload mem)) (hn : ∀ s ∈ ss, flagSequence ∉ s.noise) :
    Transducer.after (viewStep c mtu) .start
        (ss.flatMap fun s => s.noise ++ encodeFrame c (s.payload mem)) = .start ∧
      Transducer.emits (viewStep c mtu) .start
        (ss.flatMap fun s => s.noise ++ encodeFrame c (s.payload mem)) =
          ss.map fun s => .frame (s.payload mem) := by
  induction ss with
  | nil => exact ⟨rfl, rfl⟩
  | cons s ss ih =>
      obtain ⟨ih1, ih2⟩ := ih (fun s hs => hf s (List.mem_cons_of_mem _ hs))
        (fun s hs => hn s (List.mem_cons_of_mem _ hs))
      obtain ⟨hn1, hn2⟩ := @view_noise c mtu _ (hn s (List.mem_cons_self ..))
      obtain ⟨he1, he2⟩ := view_encodeFrame (v := .start) (Or.inl rfl) (hf s (List.mem_cons_self ..))
      simp only [List.flatMap_cons, Transducer.after_append, Transducer.emits_append, hn1, hn2,
        he1, he2, ih1, ih2, List.map_cons, List.nil_append, List.singleton_append, and_self]

/-- Frames with nothing between them are delivered to a receiver that is ready. -/
theorem view_ready_stream {mem : π → Nat → Byte} {v : RxView} (hv : v.Ready)
    (ss : List (Sending π)) (hf : ∀ s ∈ ss, Fits c mtu (s.payload mem))
    (hn : ∀ s ∈ ss, s.noise = []) :
    Transducer.emits (viewStep c mtu) v
        (ss.flatMap fun s => s.noise ++ encodeFrame c (s.payload mem)) =
      ss.map fun s => .frame (s.payload mem) := by
  induction ss generalizing v with
  | nil => rfl
  | cons s ss ih =>
      obtain ⟨he1, he2⟩ := view_encodeFrame hv (hf s (List.mem_cons_self ..))
      have ih := ih (v := .start) (Or.inl rfl) (fun s hs => hf s (List.mem_cons_of_mem _ hs))
        (fun s hs => hn s (List.mem_cons_of_mem _ hs))
      rw [List.flatMap_cons, hn s (List.mem_cons_self ..), List.nil_append,
        Transducer.emits_append, he1, he2, ih, List.map_cons, List.singleton_append]

/-- After a whole frame the receiver is ready, whatever it was doing before. -/
theorem view_resync (v : RxView) {payload : List Byte} (hf : Fits c mtu payload) :
    (Transducer.after (viewStep c mtu) v (encodeFrame c payload)).Ready := by
  have hready (hv : v.Ready) :
      (Transducer.after (viewStep c mtu) v (encodeFrame c payload)).Ready :=
    Or.inl (view_encodeFrame hv hf).1
  cases v with
  | start => exact hready (Or.inl rfl)
  | data body escape =>
      by_cases hb : body = []
      · exact hready (Or.inr ⟨escape, by rw [hb]⟩)
      · -- the opening flag closes the frame in progress, so the body is skipped
        have hbody : flagSequence ∉ stuff (payload ++ fcs c payload) := flag_not_mem_stuff _
        obtain ⟨h1, -⟩ := @view_noise c mtu _ hbody
        refine Or.inr ⟨false, ?_⟩
        rw [encodeFrame, Transducer.after_cons, viewStep_data_flag hb, Transducer.after_append, h1,
          Transducer.after_cons, viewStep_start_flag, Transducer.after_nil]

/-! ## Round trip and resynchronisation -/

variable {ρ : Type}

/-- Every stream of frames is received as it was sent, however the frames were
drained and the stream was cut into chunks. -/
theorem stream_round_trip {mem : π → Nat → Byte} {mem' : ρ → Nat → Byte} {sender : HdlcLl π}
    {receiver : HdlcLl ρ} (hs : sender.Reachable mem) (hidle : sender.tx.originData = none)
    (hr : receiver.Reachable mem') (hstart : receiver.rx.state = .readStart)
    (hcrc : sender.crcType = receiver.crcType) {ss : List (Sending π)}
    (hfit : ∀ s ∈ ss, 0 < s.len ∧
      ((s.len + receiver.crcType.value / 8 : Nat) : Int) ≤ receiver.physMtu)
    (hnoise : ∀ s ∈ ss, flagSequence ∉ s.noise) {stream tail : List Byte}
    (htail : flagSequence ∉ tail) (hsent : transmit mem sender ss = some stream)
    {chunks : List (List Byte)} (hchunks : chunks.flatten = stream ++ tail) :
    (Transducer.readBlocks onRxData receiver chunks).2 =
      ss.map fun s => .frame (s.payload mem) := by
  have hstream := transmit_spec hs.inv hidle (fun s hm => (hfit s hm).1) hsent
  obtain ⟨-, -, hev⟩ := (onRxData_implements hr.inv.stored).blocks hr.inv.rxIdle chunks
  have hfits : ∀ s ∈ ss, Fits receiver.crcType receiver.physMtu (s.payload mem) :=
    fun s hm => fits_payload (hfit s hm).1 (hfit s hm).2
  obtain ⟨h1, h2⟩ := view_stream ss hfits hnoise
  obtain ⟨-, ht⟩ := @view_noise receiver.crcType receiver.physMtu _ htail
  rw [hev, hchunks, hstream, hcrc, view_readStart hstart, Transducer.emits_append, h1, h2, ht,
    List.append_nil]

/-- A handle with a 16-bit check field and room for 8 payload bytes. -/
def exampleHandle : HdlcLl (List Byte) where
  rxBuf := fun _ => 0
  rxBufSize := 24
  crcType := .crc16
  physMtu := 10
  rx := Rx.idle
  tx := Tx.idle

theorem exampleHandle_reachable {mem : List Byte → Nat → Byte} : exampleHandle.Reachable mem :=
  @HdlcLl.Reachable.init _ _ .linux64 { buf := 4096, bufSize := 160, crcType := .crc16, mtu := 8 }
    4096 _ rfl

/-- The buffers of a sender whose pointers are the buffers themselves. -/
def bufferMem (data : List Byte) (i : Nat) : Byte := data.getD i 0

/-- Two frames with special bytes, the second one after noise, and each drained
with its own buffer sizes. -/
def exampleSendings : List (Sending (List Byte)) :=
  [{ noise := [], data := [0x7D, 0x01, 0x7E], len := 3, sizes := [1, 2, 3, 20] },
   { noise := [0xFF, 0x7D], data := [0x55], len := 1, sizes := [2, 30] }]

theorem stream_round_trip_two :
    (Transducer.readBlocks onRxData exampleHandle
        [[0x7E, 0x7D, 0x5D, 0x01], [0x7D], [0x5E, 0x4A, 0x3A, 0x7E, 0xFF, 0x7D, 0x7E, 0x55, 0x50],
          [0xF5, 0x7E]]).2 =
      [.frame [0x7D, 0x01, 0x7E], .frame [0x55]] :=
  @stream_round_trip _ _ bufferMem bufferMem exampleHandle exampleHandle exampleHandle_reachable rfl
    exampleHandle_reachable rfl rfl exampleSendings (by decide) (by decide)
    [0x7E, 0x7D, 0x5D, 0x01, 0x7D, 0x5E, 0x4A, 0x3A, 0x7E, 0xFF, 0x7D, 0x7E, 0x55, 0x50, 0xF5, 0x7E]
    [] (by decide) (by decide +kernel) _ rfl

/-- After any garbage at most the first frame is lost. -/
theorem resynchronisation {mem : π → Nat → Byte} {mem' : ρ → Nat → Byte} {sender sender' : HdlcLl π}
    {receiver : HdlcLl ρ} (hs : sender.Reachable mem) (hidle : sender.tx.originData = none)
    (hr : receiver.Reachable mem') (hcrc : sender.crcType = receiver.crcType)
    {first : Sending π} {ss : List (Sending π)}
    (hfit : ∀ s ∈ first :: ss, 0 < s.len ∧
      ((s.len + receiver.crcType.value / 8 : Nat) : Int) ≤ receiver.physMtu)
    (hnoise : ∀ s ∈ ss, s.noise = []) {frame stream : List Byte}
    (hfirst : sendFrame mem sender first = some (sender', frame))
    (hsent : transmit mem sender' ss = some stream) (garbage : List Byte)
    {before chunks : List (List Byte)} (hbefore : before.flatten = garbage ++ frame)
    (hchunks : chunks.flatten = garbage ++ frame ++ stream) :
    (Transducer.readBlocks onRxData receiver chunks).2 =
      (Transducer.readBlocks onRxData receiver before).2 ++
        ss.map fun s => .frame (s.payload mem) := by
  have hlen : ∀ s ∈ first :: ss, 0 < s.len := fun s hm => (hfit s hm).1
  have hfits : ∀ s ∈ first :: ss, Fits receiver.crcType receiver.physMtu (s.payload mem) :=
    fun s hm => fits_payload (hfit s hm).1 (hfit s hm).2
  obtain ⟨hinv, hidle', hc, hframe⟩ :=
    sendFrame_spec hs.inv hidle (hlen first (List.mem_cons_self ..)) hfirst
  have hstream := transmit_spec hinv hidle' (fun s hm => hlen s (List.mem_cons_of_mem _ hm)) hsent
  obtain ⟨-, -, hev⟩ := (onRxData_implements hr.inv.stored).blocks hr.inv.rxIdle chunks
  obtain ⟨-, -, hev'⟩ := (onRxData_implements hr.inv.stored).blocks hr.inv.rxIdle before
  rw [hev, hev', hchunks, hbefore, Transducer.emits_append]
  refine congrArg₂ (· ++ ·) rfl ?_
  rw [Transducer.after_append, hframe, hcrc]
  have hready := view_resync
    (Transducer.after (viewStep receiver.crcType receiver.physMtu) receiver.view garbage)
    (hfits first (List.mem_cons_self ..))
  rw [hstream, hc, hcrc]
  exact view_ready_stream hready ss (fun s hm => hfits s (List.mem_cons_of_mem _ hm)) hnoise

/-- A frame lost to a flag and an escape in front of it, and the next one received. -/
theorem resynchronisation_two :
    (Transducer.readBlocks onRxData exampleHandle
        [[0x7E, 0x7D, 0x11, 0x7E, 0x55, 0x50, 0xF5], [0x7E, 0x7E, 0x56, 0xCB, 0xC7, 0x7E]]).2 =
      (Transducer.readBlocks onRxData exampleHandle
        [[0x7E, 0x7D, 0x11], [0x7E, 0x55, 0x50, 0xF5, 0x7E]]).2 ++ [.frame [0x56]] :=
  @resynchronisation _ _ bufferMem bufferMem exampleHandle
    { exampleHandle with tx := { Tx.idle with
      len := 16, crc := 0xF550, outBuffer := [0x7E, 0x55, 0x50, 0xF5, 0x7E], outBufferLen := 4 } }
    exampleHandle exampleHandle_reachable rfl exampleHandle_reachable rfl
    { noise := [], data := [0x55], len := 1, sizes := [9] }
    [{ noise := [], data := [0x56], len := 1, sizes := [1, 1, 9] }] (by decide) (by decide)
    [0x7E, 0x55, 0x50, 0xF5, 0x7E] [0x7E, 0x56, 0xCB, 0xC7, 0x7E] rfl (by decide +kernel)
    [0x7E, 0x7D, 0x11] _ _ rfl rfl

end TinyProto.Hdlc
