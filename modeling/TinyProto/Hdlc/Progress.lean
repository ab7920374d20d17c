import TinyProto.Hdlc.Stream

/-!
# The frame in progress

What a call of `hdlc_ll_run_tx` does to the frame in progress, whatever is in the memory its
data is read from: the frame stays, or it is reported and the transmitter is idle again.  With
a buffer of one byte the call emits the next byte of the frame (`runTx_one`).
-/

namespace TinyProto.Hdlc

variable {π : Type} {c : HdlcCrc} {mem : π → Nat → Byte} {tx : Tx π} {h : HdlcLl π} {p : π}

/-! ## State calls -/

/-- Without a frame the transmitter is in its start state. -/
def Tx.Rested (tx : Tx π) : Prop := tx.originData = none → tx.state = .sendStart

theorem Tx.Rested.of_some (ho : tx.originData = some p) : tx.Rested := by
  intro hn
  rw [ho] at hn
  cases hn

/-- The frame stays, or it is reported. -/
def Passed (tx tx' : Tx π) (sent : List (π × Nat)) : Prop :=
  sent = [] ∧ tx'.originData = tx.originData ∨
    ∃ r, sent = [r] ∧ tx.originData = some r.1 ∧ tx'.originData = none

theorem sendStart_stays (c : HdlcCrc) (mem : π → Nat → Byte) (tx : Tx π) :
    (sendStart c mem tx).sent = none ∧ (sendStart c mem tx).tx.originData = tx.originData := by
  unfold sendStart
  split
  · exact ⟨rfl, rfl⟩
  · dsimp only
    split
    · exact ⟨rfl, rfl⟩
    · exact ⟨rfl, rfl⟩

theorem sendData_stays (mem : π → Nat → Byte) (tx : Tx π) :
    (sendData mem tx).sent = none ∧ (sendData mem tx).tx.originData = tx.originData := by
  refine ⟨rfl, ?_⟩
  unfold sendData
  dsimp only
  repeat' split
  all_goals rfl

theorem sendCrc_stays (c : HdlcCrc) (tx : Tx π) :
    (sendCrc c tx).sent = none ∧ (sendCrc c tx).tx.originData = tx.originData := by
  unfold sendCrc
  dsimp only
  repeat' split
  all_goals exact ⟨rfl, rfl⟩

theorem sendData_crc (mem : π → Nat → Byte) (tx : Tx π) :
    (sendData mem tx).tx.crc = tx.crc ∧
      ((sendData mem tx).tx.state = tx.state ∨ (sendData mem tx).tx.state = .sendCrc) := by
  unfold sendData
  dsimp only
  repeat' split
  all_goals first | exact ⟨rfl, .inl rfl⟩ | exact ⟨rfl, .inr rfl⟩

theorem sendCrc_crc (c : HdlcCrc) (tx : Tx π) :
    (sendCrc c tx).tx.crc = tx.crc ∧ ((sendCrc c tx).tx.state = tx.state ∨
      (sendCrc c tx).tx.state = .sendEnd ∧ (sendCrc c tx).tx.len = c.value) := by
  unfold sendCrc
  split
  · next hlen => exact ⟨rfl, .inr ⟨rfl, hlen⟩⟩
  · dsimp only
    repeat' split
    all_goals exact ⟨rfl, .inl rfl⟩

/-- The frame goes with its closing flag. -/
theorem sendEnd_passed (ho : tx.originData = some p) :
    (sendEnd tx).tx.Rested ∧ Passed tx (sendEnd tx).tx (sendEnd tx).sent.toList := by
  unfold sendEnd
  dsimp only
  split
  · rw [ho]
    exact ⟨fun _ => rfl, .inr ⟨_, rfl, ho, rfl⟩⟩
  · exact ⟨.of_some ho, .inl ⟨rfl, rfl⟩⟩

theorem txStateCall_idle (hr : tx.Rested) (ho : tx.originData = none) :
    txStateCall c mem tx = { tx := tx, result := 0, sent := none } := by
  unfold txStateCall
  rw [hr ho]
  dsimp only
  unfold sendStart
  rw [ho]
  rfl

theorem txStateCall_passed (c : HdlcCrc) (mem : π → Nat → Byte) (hr : tx.Rested) :
    (txStateCall c mem tx).tx.Rested ∧
      Passed tx (txStateCall c mem tx).tx (txStateCall c mem tx).sent.toList := by
  cases ho : tx.originData with
  | none =>
    rw [txStateCall_idle hr ho]
    exact ⟨hr, .inl ⟨rfl, rfl⟩⟩
  | some p =>
    have hstays : ∀ r : TxStep π, r.sent = none ∧ r.tx.originData = tx.originData →
        r.tx.Rested ∧ Passed tx r.tx r.sent.toList := by
      rintro r ⟨hs, hsame⟩
      rw [hs]
      exact ⟨.of_some (hsame.trans ho), .inl ⟨rfl, hsame⟩⟩
    unfold txStateCall
    cases tx.state with
    | sendStart => exact hstays _ (sendStart_stays c mem tx)
    | sendData => exact hstays _ (sendData_stays mem tx)
    | sendCrc => exact hstays _ (sendCrc_stays c tx)
    | sendEnd => exact sendEnd_passed ho

/-! ## Calls of the driver -/

theorem runTxLoop_passed (c : HdlcCrc) (mem : π → Nat → Byte) :
    ∀ (fuel : Nat) (rep : Bool) (tx : Tx π), tx.Rested →
      (runTxLoop c mem fuel rep tx).1.Rested ∧
        Passed tx (runTxLoop c mem fuel rep tx).1 (runTxLoop c mem fuel rep tx).2
  | 0, _, _, hr => ⟨hr, .inl ⟨rfl, rfl⟩⟩
  | fuel + 1, rep, tx, hr => by
    unfold runTxLoop
    split
    · exact ⟨hr, .inl ⟨rfl, rfl⟩⟩
    · dsimp only
      obtain ⟨hr₁, h₁⟩ := txStateCall_passed c mem hr
      generalize txStateCall c mem tx = r at hr₁ h₁
      split
      · exact ⟨hr₁, h₁⟩
      · obtain ⟨hr₂, h₂⟩ := runTxLoop_passed c mem fuel (decide (r.result = 0)) r.tx hr₁
        generalize runTxLoop c mem fuel (decide (r.result = 0)) r.tx = s at hr₂ h₂
        refine ⟨hr₂, ?_⟩
        rcases h₁ with ⟨hs₁, ho₁⟩ | ⟨x, hs₁, hx, ho₁⟩
        · rw [hs₁, List.nil_append]
          rcases h₂ with ⟨hs₂, ho₂⟩ | ⟨y, hs₂, hy, ho₂⟩
          · exact .inl ⟨hs₂, ho₂.trans ho₁⟩
          · exact .inr ⟨y, hs₂, ho₁ ▸ hy, ho₂⟩
        · rcases h₂ with ⟨hs₂, ho₂⟩ | ⟨y, -, hy, -⟩
          · rw [hs₁, hs₂]
            exact .inr ⟨x, rfl, hx, ho₂.trans ho₁⟩
          · rw [ho₁] at hy
            cases hy

/-- A call of `hdlc_ll_run_tx` reports the frame in progress, or keeps it. -/
theorem runTx_passed (hr : h.tx.Rested) (mem : π → Nat → Byte) (len : Nat) :
    (hdlcLlRunTx mem h len).1.tx.Rested ∧
      Passed h.tx (hdlcLlRunTx mem h len).1.tx (hdlcLlRunTx mem h len).2.2 :=
  runTxLoop_passed h.crcType mem (len + 4) false { h.tx with outBuffer := [], outBufferLen := len } hr

/-- What is true of the transmitter before and after every state call is true after a call. -/
theorem runTxLoop_rule {P : Tx π → Prop}
    (hstep : ∀ tx, 0 < tx.outBufferLen → P tx → P (txStateCall c mem tx).tx) :
    ∀ (fuel : Nat) (rep : Bool) (tx : Tx π), P tx → P (runTxLoop c mem fuel rep tx).1
  | 0, _, _, hP => hP
  | fuel + 1, rep, tx, hP => by
    unfold runTxLoop
    split
    · exact hP
    · next hroom =>
      have hnext := hstep tx (Nat.pos_of_ne_zero hroom) hP
      dsimp only
      split
      · exact hnext
      · exact runTxLoop_rule hstep fuel _ _ hnext

/-- A state call with room emits the opening flag of a new frame. -/
theorem txStateCall_begun (c : HdlcCrc) (mem : π → Nat → Byte)
    (hb : 0 < tx.outBufferLen) (ho : (txStateCall c mem tx).tx.originData ≠ none) :
    (txStateCall c mem tx).tx.state ≠ .sendStart := by
  intro hs
  unfold txStateCall at ho hs
  cases hst : tx.state with
  | sendStart =>
    rw [hst] at ho hs
    have hone := @sendTxInternal_one _ { tx with crc := txCrc c tx.crc (tx.bytes mem) } hb
      flagSequence
    cases hn : tx.originData.isNone with
    | true => exact ho ((sendStart_stays c mem tx).2.trans (Option.isNone_iff_eq_none.mp hn))
    | false =>
      simp only [sendStart, hn, Bool.false_eq_true, if_false, hone, if_true] at hs
      cases hs
  | sendData =>
    rw [hst] at hs
    rcases (sendData_crc mem tx).2 with hsame | hcrc
    · cases hs.symm.trans (hsame.trans hst)
    · cases hs.symm.trans hcrc
  | sendCrc =>
    rw [hst] at hs
    rcases (sendCrc_crc c tx).2 with hsame | ⟨hend, -⟩
    · cases hs.symm.trans (hsame.trans hst)
    · cases hs.symm.trans hend
  | sendEnd =>
    rw [hst] at ho
    unfold sendEnd at ho
    rw [sendTxInternal_one hb] at ho
    exact ho rfl

/-- After a call with room the opening flag of the frame in progress is out. -/
theorem runTx_begun (mem : π → Nat → Byte) (h : HdlcLl π) {len : Nat} (hl : 0 < len)
    (ho : (hdlcLlRunTx mem h len).1.tx.originData ≠ none) :
    (hdlcLlRunTx mem h len).1.tx.state ≠ .sendStart := by
  have hloop : ∀ (fuel : Nat) (rep : Bool) (tx : Tx π), 0 < tx.outBufferLen →
      (runTxLoop h.crcType mem (fuel + 1) rep tx).1.originData ≠ none →
        (runTxLoop h.crcType mem (fuel + 1) rep tx).1.state ≠ .sendStart := by
    intro fuel rep tx hb
    have hfirst := txStateCall_begun h.crcType mem hb
    unfold runTxLoop
    rw [if_neg (Nat.ne_of_gt hb)]
    dsimp only
    split
    · exact hfirst
    · exact @runTxLoop_rule _ h.crcType mem
        (fun tx => tx.originData ≠ none → tx.state ≠ .sendStart)
        (fun tx hb _ => txStateCall_begun h.crcType mem hb) fuel _ _ hfirst
  exact hloop (len + 3) false { h.tx with outBuffer := [], outBufferLen := len } hl ho

/-- Only the memory of the frame in progress is read. -/
theorem txStateCall_congr {mem' : π → Nat → Byte} (c : HdlcCrc)
    (hm : ∀ p, tx.originData = some p → mem' p = mem p) :
    txStateCall c mem' tx = txStateCall c mem tx := by
  have hbyte := Tx.byteAt_congr hm
  have hbytes : tx.bytes mem' = tx.bytes mem := by
    unfold Tx.bytes
    rw [hbyte]
  unfold txStateCall sendStart sendData
  rw [hbyte, hbytes]

theorem runTxLoop_congr {mem' : π → Nat → Byte} (c : HdlcCrc) :
    ∀ (fuel : Nat) (rep : Bool) (tx : Tx π), tx.Rested →
      (∀ p, tx.originData = some p → mem' p = mem p) →
        runTxLoop c mem' fuel rep tx = runTxLoop c mem fuel rep tx
  | 0, _, _, _, _ => rfl
  | fuel + 1, rep, tx, hr, hm => by
    obtain ⟨hrested, hpassed⟩ := txStateCall_passed c mem hr
    unfold runTxLoop
    rw [txStateCall_congr c hm]
    generalize txStateCall c mem tx = r at hrested hpassed
    have hrest : ∀ p, r.tx.originData = some p → mem' p = mem p := by
      intro p hp
      rcases hpassed with ⟨-, ho⟩ | ⟨_, -, -, ho⟩
      · exact hm p (ho ▸ hp)
      · cases ho.symm.trans hp
    dsimp only
    rw [runTxLoop_congr c fuel _ r.tx hrested hrest]

theorem runTx_congr {mem' : π → Nat → Byte} (hr : h.tx.Rested)
    (hm : ∀ p, h.tx.originData = some p → mem' p = mem p) (len : Nat) :
    hdlcLlRunTx mem' h len = hdlcLlRunTx mem h len := by
  have hloop : ∀ tx : Tx π, tx = { h.tx with outBuffer := [], outBufferLen := len } →
      runTxLoop h.crcType mem' (len + 4) false tx = runTxLoop h.crcType mem (len + 4) false tx := by
    rintro tx rfl
    exact runTxLoop_congr h.crcType _ _ _ hr hm
  unfold hdlcLlRunTx
  dsimp only
  rw [hloop _ rfl]

/-- Only the bytes of the frame in progress matter. -/
theorem Tx.Ok.congr_frame {mem' : π → Nat → Byte} (ho : tx.Ok c mem)
    (hm : ∀ p, tx.originData = some p → ∀ i < tx.frameLen, mem' p i = mem p i) :
    tx.Ok c mem' ∧ tx.pending c mem' = tx.pending c mem := by
  have hbyte : tx.frameLen = tx.data + tx.len → ∀ i < tx.len,
      tx.byteAt mem' i = tx.byteAt mem i := by
    intro hlen i hi
    unfold Tx.byteAt
    cases hp : tx.originData with
    | none => rfl
    | some p => exact hm p hp (tx.data + i) (by omega)
  have hbytes : tx.frameLen = tx.data + tx.len → tx.bytes mem' = tx.bytes mem := fun hlen =>
    List.map_congr_left fun i hi => hbyte hlen i (List.mem_range.mp hi)
  have hlen : tx.state = .sendData → tx.frameLen = tx.data + tx.len := by
    intro hs
    unfold Tx.frameLen
    rw [hs]
  refine ⟨{ ho with dataEscape := fun hs he => ?_ }, ?_⟩
  · rw [hbyte (hlen hs) 0 (ho.data hs)]
    exact ho.dataEscape hs he
  · unfold Tx.pending
    cases hs : tx.state with
    | sendStart =>
      have hstart : tx.frameLen = tx.data + tx.len := by
        unfold Tx.frameLen
        rw [hs]
      rw [hbytes hstart]
    | sendData => rw [hbytes (hlen hs)]
    | sendCrc => rfl
    | sendEnd => rfl

/-- With a buffer of one byte the next byte is emitted, and the frame is reported with its
last one. -/
theorem runTx_one (ho : h.TxOk mem) (hp : h.tx.originData = some p) :
    ∃ b rest, h.pending mem = b :: rest ∧ (hdlcLlRunTx mem h 1).2.1 = [b] ∧
      (hdlcLlRunTx mem h 1).1.pending mem = rest ∧ (hdlcLlRunTx mem h 1).1.TxOk mem ∧
      ((hdlcLlRunTx mem h 1).2.2 = [] ∧ (hdlcLlRunTx mem h 1).1.tx.originData = some p ∧
          rest ≠ [] ∨
        (hdlcLlRunTx mem h 1).2.2 ≠ [] ∧ (hdlcLlRunTx mem h 1).1.tx.originData = none ∧
          rest = []) := by
  have hne : h.pending mem ≠ [] :=
    Tx.pending_ne_nil h.crcType mem (by rw [hp]; exact Option.some_ne_none _)
  obtain ⟨b, rest, hb⟩ := List.exists_cons_of_ne_nil hne
  obtain ⟨hout, hrest, hok⟩ := runTx_pending ho 1
  rw [hb] at hout hrest
  refine ⟨b, rest, hb, hout, hrest, hok, ?_⟩
  rcases runTx_sent ho 1 with ⟨hs, hod, -, hlt⟩ | ⟨q, -, hs, hod, hle⟩
  · refine .inl ⟨hs, hod.trans hp, ?_⟩
    have := hlt (by rw [hp]; exact Option.some_ne_none _)
    rw [hb, List.length_cons] at this
    exact List.ne_nil_of_length_pos (by omega)
  · refine .inr ⟨by rw [hs]; exact List.cons_ne_nil _ _, hod, ?_⟩
    rw [hb, List.length_cons] at hle
    exact List.eq_nil_of_length_eq_zero (by omega)

/-! ## New frames -/

theorem putFrame_idle (hn : h.tx.originData = none) (data : π) {len : Nat} (hl : 0 < len) :
    hdlcLlPutFrame h data len =
      ({ h with tx := { h.tx with originData := some data, data := 0, len := len } }, .success) := by
  unfold hdlcLlPutFrame
  rw [hn, if_neg (Nat.ne_of_gt hl)]
  rfl

/-- A new frame is pending as a whole, whatever the transmitter did before. -/
theorem putFrame_pending (hc : h.crcType.stored = h.crcType) (hr : h.tx.Rested)
    (hn : h.tx.originData = none) (mem : π → Nat → Byte) (data : π) {len : Nat} (hl : 0 < len) :
    (hdlcLlPutFrame h data len).1.TxOk mem ∧
      (hdlcLlPutFrame h data len).1.tx.originData = some data ∧
      (hdlcLlPutFrame h data len).1.pending mem =
        encodeFrame h.crcType ((List.range len).map (mem data)) := by
  rw [putFrame_idle hn data hl]
  have hs := hr hn
  obtain ⟨tx, htx⟩ : ∃ t : Tx π, t = { h.tx with originData := some data, data := 0, len := len } :=
    ⟨_, rfl⟩
  have hstate : tx.state = .sendStart := by rw [htx]; exact hs
  have hnew : tx.pending h.crcType mem = encodeFrame h.crcType ((List.range tx.len).map (mem data)) :=
    Tx.pending_new hc hstate (by rw [htx]) (by rw [htx])
  refine ⟨⟨value_mod_of_stored hc, ?_⟩, rfl, ?_⟩
  · exact ⟨fun _ => hs, fun _ _ => hl, fun hd => TxState.noConfusion (hs.symm.trans hd),
      fun hd => TxState.noConfusion (hs.symm.trans hd), fun hd => TxState.noConfusion (hs.symm.trans hd),
      fun hd => TxState.noConfusion (hs.symm.trans hd)⟩
  · rw [htx] at hnew
    exact hnew

end TinyProto.Hdlc
