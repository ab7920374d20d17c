import TinyProto.Hdlc.Tx

/-!
# What the transmitter emits

`encodeFrame` is the framing of one payload: a flag, the payload and its check
field with every special byte escaped, a flag.  `Tx.pending` is what a
transmitter suspended in any state still has to emit.

`runTx_pending` says that `hdlc_ll_run_tx` writes the next bytes of `pending`,
as many as the output buffer takes, and leaves the rest pending.  So the bytes
on the wire do not depend on the sizes of the output buffers.
-/

namespace TinyProto.Hdlc

variable {π : Type}

/-! ## Framing of one payload -/

/-- A byte that may not stand in a frame body as it is. -/
abbrev Special (b : Byte) : Prop := b = escapeChar ∨ b = flagSequence

/-- A byte as it is sent. -/
def stuffByte (b : Byte) : List Byte :=
  if Special b then [escapeChar, b ^^^ escapeBit] else [b]

/-- A byte string as it is sent. -/
def stuff (bs : List Byte) : List Byte := bs.flatMap stuffByte

/-- The bytes of a check field of `bits` bits from bit `pos` on, low byte first. -/
def checkBytes (crc : BitVec 32) (bits pos : Nat) : List Byte :=
  (List.range ((bits - pos) / 8)).map fun i => (crc >>> (pos + 8 * i)).setWidth 8

/-- The check field of a payload.  With no check option the register is not
computed and no byte of it is sent. -/
def fcs (c : HdlcCrc) (payload : List Byte) : List Byte :=
  checkBytes (txCrc c 0 payload) c.value 0

/-- The frame of a payload: a flag, the escaped body, a flag. -/
def encodeFrame (c : HdlcCrc) (payload : List Byte) : List Byte :=
  flagSequence :: (stuff (payload ++ fcs c payload) ++ [flagSequence])

@[simp] theorem stuff_nil : stuff [] = [] := rfl

@[simp] theorem stuff_cons (b : Byte) (bs : List Byte) :
    stuff (b :: bs) = stuffByte b ++ stuff bs := by
  simp [stuff]

@[simp] theorem stuff_append (as bs : List Byte) : stuff (as ++ bs) = stuff as ++ stuff bs := by
  simp [stuff]

theorem stuffByte_special {b : Byte} (h : Special b) :
    stuffByte b = [escapeChar, b ^^^ escapeBit] := if_pos h

theorem stuffByte_plain {b : Byte} (h : ¬Special b) : stuffByte b = [b] := if_neg h

/-- A run of bytes with none to escape is sent as it is. -/
theorem stuff_plain {bs : List Byte} (h : ∀ b ∈ bs, ¬Special b) : stuff bs = bs := by
  induction bs with
  | nil => rfl
  | cons b bs ih =>
      rw [stuff_cons, stuffByte_plain (h b (List.mem_cons_self ..)),
        ih fun x hx => h x (List.mem_cons_of_mem _ hx)]
      rfl

theorem checkBytes_done (crc : BitVec 32) (bits : Nat) : checkBytes crc bits bits = [] := by
  simp [checkBytes]

/-- The check field from one byte on. -/
theorem checkBytes_cons (crc : BitVec 32) {bits pos : Nat} (h : pos + 8 ≤ bits) :
    checkBytes crc bits pos = (crc >>> pos).setWidth 8 :: checkBytes crc bits (pos + 8) := by
  have hd : (bits - pos) / 8 = (bits - (pos + 8)) / 8 + 1 := by omega
  simp only [checkBytes, hd, List.range_succ_eq_map, List.map_cons, List.map_map]
  refine congrArg₂ List.cons (by simp) (List.map_congr_left fun i _ => ?_)
  show (crc >>> (pos + 8 * (i + 1))).setWidth 8 = (crc >>> (pos + 8 + 8 * i)).setWidth 8
  rw [show pos + 8 * (i + 1) = pos + 8 + 8 * i by omega]

/-- Options with a check field do not depend on the old register. -/
theorem checkBytes_txCrc {c : HdlcCrc} (hc : c.stored = c) (old : BitVec 32) (data : List Byte) :
    checkBytes (txCrc c old data) c.value 0 = fcs c data := by
  cases c with
  | default => rfl
  | crc8 => rfl
  | crc16 => rfl
  | crc32 => rfl
  | off => cases hc

/-! ## What a suspended transmitter still has to emit -/

/-- The escaped bytes, less the escape character when that one is already sent. -/
def stuffFrom (escape : Bool) (bs : List Byte) : List Byte :=
  if escape then (stuff bs).tail else stuff bs

/-- What the transmitter still has to emit. -/
def Tx.pending (c : HdlcCrc) (mem : π → Nat → Byte) (tx : Tx π) : List Byte :=
  match tx.state with
  | .sendStart =>
      if tx.originData.isNone then []
      else flagSequence :: (stuff (tx.bytes mem) ++
        (stuff (checkBytes (txCrc c tx.crc (tx.bytes mem)) c.value 0) ++ [flagSequence]))
  | .sendData =>
      stuffFrom tx.escape (tx.bytes mem) ++
        (stuff (checkBytes tx.crc c.value 0) ++ [flagSequence])
  | .sendCrc => stuffFrom tx.escape (checkBytes tx.crc c.value tx.len) ++ [flagSequence]
  | .sendEnd => [flagSequence]

/-- The length of the frame in progress, as `on_frame_send` will report it. -/
def Tx.frameLen (tx : Tx π) : Nat :=
  match tx.state with
  | .sendStart | .sendData => tx.data + tx.len
  | .sendCrc | .sendEnd => tx.data

/-- What holds of a transmitter between two state calls. -/
structure Tx.Ok (c : HdlcCrc) (mem : π → Nat → Byte) (tx : Tx π) : Prop where
  /-- Only the start state has no frame. -/
  idle : tx.originData = none → tx.state = .sendStart
  /-- A frame is not empty. -/
  start : tx.state = .sendStart → tx.originData.isSome → 0 < tx.len
  /-- There is data to send in the data state. -/
  data : tx.state = .sendData → 0 < tx.len
  /-- An escape is pending only in front of a byte that needs it. -/
  dataEscape : tx.state = .sendData → tx.escape = true → Special (tx.byteAt mem 0)
  /-- The check field is sent byte by byte. -/
  crcLen : tx.state = .sendCrc → tx.len ≤ c.value ∧ tx.len % 8 = 0
  crcEscape : tx.state = .sendCrc → tx.escape = true →
    tx.len < c.value ∧ Special ((tx.crc >>> tx.len).setWidth 8)

theorem Tx.Ok.ofNone {c : HdlcCrc} {mem : π → Nat → Byte} {tx : Tx π}
    (ho : tx.originData = none) (hs : tx.state = .sendStart) : tx.Ok c mem where
  idle _ := hs
  start _ h := by simp [ho] at h
  data h := by simp [hs] at h
  dataEscape h := by simp [hs] at h
  crcLen h := by simp [hs] at h
  crcEscape h := by simp [hs] at h

theorem Tx.Ok.ofSendData {c : HdlcCrc} {mem : π → Nat → Byte} {tx : Tx π}
    (ho : tx.originData ≠ none) (hs : tx.state = .sendData) (hl : 0 < tx.len)
    (he : tx.escape = true → Special (tx.byteAt mem 0)) : tx.Ok c mem where
  idle h := absurd h ho
  start h := by simp [hs] at h
  data _ := hl
  dataEscape _ := he
  crcLen h := by simp [hs] at h
  crcEscape h := by simp [hs] at h

theorem Tx.Ok.ofSendCrc {c : HdlcCrc} {mem : π → Nat → Byte} {tx : Tx π}
    (ho : tx.originData ≠ none) (hs : tx.state = .sendCrc) (hl : tx.len ≤ c.value)
    (hm : tx.len % 8 = 0)
    (he : tx.escape = true → tx.len < c.value ∧ Special ((tx.crc >>> tx.len).setWidth 8)) :
    tx.Ok c mem where
  idle h := absurd h ho
  start h := by simp [hs] at h
  data h := by simp [hs] at h
  dataEscape h := by simp [hs] at h
  crcLen _ := ⟨hl, hm⟩
  crcEscape _ := he

theorem Tx.Ok.ofSendEnd {c : HdlcCrc} {mem : π → Nat → Byte} {tx : Tx π}
    (ho : tx.originData ≠ none) (hs : tx.state = .sendEnd) : tx.Ok c mem where
  idle h := absurd h ho
  start h := by simp [hs] at h
  data h := by simp [hs] at h
  dataEscape h := by simp [hs] at h
  crcLen h := by simp [hs] at h
  crcEscape h := by simp [hs] at h

/-- Past the start state a frame is in progress. -/
theorem Tx.Ok.busy {c : HdlcCrc} {mem : π → Nat → Byte} {tx : Tx π} (ho : tx.Ok c mem)
    (hs : tx.state ≠ .sendStart) : tx.originData ≠ none :=
  fun h => hs (ho.idle h)

/-- Only the memory of the frame in progress is read. -/
theorem Tx.byteAt_congr {mem mem' : π → Nat → Byte} {tx : Tx π}
    (hm : ∀ p, tx.originData = some p → mem' p = mem p) : tx.byteAt mem' = tx.byteAt mem := by
  funext i
  unfold Tx.byteAt
  cases ho : tx.originData with
  | none => rfl
  | some p => exact congrFun (hm p ho) _

theorem Tx.pending_congr {c : HdlcCrc} {mem mem' : π → Nat → Byte} {tx : Tx π}
    (hm : ∀ p, tx.originData = some p → mem' p = mem p) : tx.pending c mem' = tx.pending c mem := by
  unfold Tx.pending Tx.bytes
  rw [Tx.byteAt_congr hm]

theorem Tx.Ok.congr {c : HdlcCrc} {mem mem' : π → Nat → Byte} {tx : Tx π} (ho : tx.Ok c mem)
    (hm : ∀ p, tx.originData = some p → mem' p = mem p) : tx.Ok c mem' := by
  refine { ho with dataEscape := ?_ }
  rw [Tx.byteAt_congr hm]
  exact ho.dataEscape

/-- All of a new frame is pending. -/
theorem Tx.pending_new {c : HdlcCrc} {mem : π → Nat → Byte} {tx : Tx π} {p : π}
    (hc : c.stored = c) (hs : tx.state = .sendStart) (ho : tx.originData = some p)
    (hd : tx.data = 0) : tx.pending c mem = encodeFrame c ((List.range tx.len).map (mem p)) := by
  have hbytes : tx.bytes mem = (List.range tx.len).map (mem p) := by
    unfold Tx.bytes Tx.byteAt
    simp only [ho, hd, Nat.zero_add]
  have hbusy : tx.originData.isNone = false := by rw [ho]; rfl
  simp [Tx.pending, hs, hbusy, hbytes, checkBytes_txCrc hc, encodeFrame]

/-! ## One state call -/

/-- What one state call does: it writes the next `n` pending bytes. -/
structure TxStep.Spec (c : HdlcCrc) (mem : π → Nat → Byte) (tx : Tx π) (r : TxStep π)
    (n : Nat) : Prop where
  room : n ≤ tx.outBufferLen
  avail : n ≤ (tx.pending c mem).length
  out : r.tx.outBuffer = tx.outBuffer ++ (tx.pending c mem).take n
  outLen : r.tx.outBufferLen = tx.outBufferLen - n
  rest : r.tx.pending c mem = (tx.pending c mem).drop n
  ok : r.tx.Ok c mem
  /-- A call that writes nothing is the switch to the closing flag, or has no frame. -/
  progress : 0 < n ∧ r.result ≠ 0 ∨
    tx.state = .sendCrc ∧ r.tx.state = .sendEnd ∧ r.result ≠ 0 ∨
    tx.originData = none ∧ r.tx = tx ∧ r.result = 0
  /-- The frame is reported when its last byte is written. -/
  sent : r.sent = none ∧ r.tx.originData = tx.originData ∧ r.tx.frameLen = tx.frameLen ∧
      (tx.originData.isSome → r.tx.state ≠ .sendStart) ∨
    ∃ p, tx.originData = some p ∧ r.sent = some (p, tx.frameLen) ∧ r.tx.originData = none

/-- With room in the output buffer a single byte is written. -/
theorem sendTxInternal_one {tx : Tx π} (h : 0 < tx.outBufferLen) (b : Byte) :
    sendTxInternal tx [b] =
      ({ tx with outBuffer := tx.outBuffer ++ [b], outBufferLen := tx.outBufferLen - 1 }, 1) := by
  have h1 : min 1 tx.outBufferLen = 1 := by omega
  simp [sendTxInternal, h1]

/-- The bytes after the first `n`. -/
theorem Tx.bytes_drop (mem : π → Nat → Byte) (tx : Tx π) (n : Nat) :
    (({ tx with data := tx.data + n, len := tx.len - n } : Tx π)).bytes mem =
      (tx.bytes mem).drop n := by
  apply List.ext_getElem
  · simp [Tx.bytes]
  · intro i h1 h2
    simp only [Tx.bytes, List.getElem_map, List.getElem_range, List.getElem_drop, Tx.byteAt]
    cases tx.originData with
    | none => rfl
    | some p => simp only [Nat.add_assoc]

/-- The first byte, when there is one. -/
theorem Tx.bytes_cons (mem : π → Nat → Byte) (tx : Tx π) (h : 0 < tx.len) :
    tx.bytes mem = tx.byteAt mem 0 :: (tx.bytes mem).drop 1 := by
  obtain ⟨k, hk⟩ : ∃ k, tx.len = k + 1 := ⟨tx.len - 1, by omega⟩
  simp [Tx.bytes, hk, List.range_succ_eq_map]

/-- The scan stops at the first special byte, or at the length. -/
theorem literalRun_spec (rd : Nat → Byte) :
    ∀ k pos, pos ≤ literalRun rd k pos ∧ literalRun rd k pos ≤ pos + k ∧
      (∀ i, pos ≤ i → i < literalRun rd k pos → ¬Special (rd i)) ∧
      (literalRun rd k pos < pos + k → Special (rd (literalRun rd k pos)))
  | 0, pos => by
      have h : literalRun rd 0 pos = pos := by simp [literalRun]
      rw [h]
      exact ⟨Nat.le_refl _, Nat.le_refl _, fun i h1 h2 => absurd h1 (by omega),
        fun h => absurd h (by omega)⟩
  | k + 1, pos => by
      by_cases hb : rd pos ≠ flagSequence ∧ rd pos ≠ escapeChar
      · obtain ⟨h1, h2, h3, h4⟩ := literalRun_spec rd k (pos + 1)
        have h : literalRun rd (k + 1) pos = literalRun rd k (pos + 1) := by
          rw [literalRun, if_pos hb]
        rw [h]
        refine ⟨by omega, by omega, fun i hi hlt => ?_, fun hlt => h4 (by omega)⟩
        rcases Nat.eq_or_lt_of_le hi with he | hgt
        · subst he
          rintro (hs | hs)
          · exact hb.2 hs
          · exact hb.1 hs
        · exact h3 i hgt hlt
      · have h : literalRun rd (k + 1) pos = pos := by rw [literalRun, if_neg hb]
        rw [h]
        refine ⟨Nat.le_refl _, by omega, fun i h1 h2 => absurd h1 (by omega), fun _ => ?_⟩
        by_cases hf : rd pos = flagSequence
        · exact Or.inr hf
        · exact Or.inl (by_contra fun he => hb ⟨hf, he⟩)

theorem sendStart_spec {c : HdlcCrc} {mem : π → Nat → Byte} {tx : Tx π} (ho : tx.Ok c mem)
    (hs : tx.state = .sendStart) (hb : 0 < tx.outBufferLen) :
    ∃ n, (sendStart c mem tx).Spec c mem tx n := by
  cases hp : tx.originData with
  | none =>
      have hr : sendStart c mem tx = { tx := tx, result := 0, sent := none } := by
        simp [sendStart, hp]
      rw [hr]
      refine ⟨0, Nat.zero_le _, Nat.zero_le _, by simp, by simp, by simp, ho, ?_, ?_⟩
      · exact Or.inr (Or.inr ⟨hp, rfl, rfl⟩)
      · exact Or.inl ⟨rfl, rfl, rfl, by simp [hp]⟩
  | some p =>
      have hr : sendStart c mem tx =
          { tx := { tx with
              crc := txCrc c tx.crc (tx.bytes mem), outBuffer := tx.outBuffer ++ [flagSequence]
              outBufferLen := tx.outBufferLen - 1, state := .sendData, escape := false }
            result := 1, sent := none } := by
        have hone := @sendTxInternal_one _ { tx with crc := txCrc c tx.crc (tx.bytes mem) } hb
          flagSequence
        have hn : tx.originData.isNone = false := by simp [hp]
        simp only [sendStart, hn, Bool.false_eq_true, if_false, hone, if_true]
      have hpend : tx.pending c mem = flagSequence :: (stuff (tx.bytes mem) ++
          (stuff (checkBytes (txCrc c tx.crc (tx.bytes mem)) c.value 0) ++ [flagSequence])) := by
        simp [Tx.pending, hs, hp]
      rw [hr]
      refine ⟨1, hb, by simp [hpend], by simp [hpend], rfl, ?_, ?_,
        Or.inl ⟨by decide, Nat.one_ne_zero⟩, ?_⟩
      · rw [hpend]
        simp only [Tx.pending, stuffFrom, Bool.false_eq_true, if_false, List.drop_succ_cons,
          List.drop_zero]
        rfl
      · exact .ofSendData (by simp [hp]) rfl (ho.start hs (by simp [hp])) (fun h => by cases h)
      · exact Or.inl ⟨rfl, rfl, by simp [Tx.frameLen, hs], fun _ => by simp⟩

/-- The literal branch: the run, or what the output buffer takes of it, is written
as it is. -/
theorem sendData_literal {c : HdlcCrc} {mem : π → Nat → Byte} {tx : Tx π} (ho : tx.Ok c mem)
    (hs : tx.state = .sendData) (hb : 0 < tx.outBufferLen)
    (hpos : literalRun (tx.byteAt mem) tx.len 0 ≠ 0) :
    ∃ n, (sendData mem tx).Spec c mem tx n := by
  obtain ⟨-, hle, hplain, -⟩ := literalRun_spec (tx.byteAt mem) tx.len 0
  obtain ⟨pos, hpd⟩ : ∃ pos, literalRun (tx.byteAt mem) tx.len 0 = pos := ⟨_, rfl⟩
  rw [hpd] at hpos hle hplain
  have hbusy : tx.originData ≠ none := ho.busy (by simp [hs])
  have hesc : tx.escape = false := by
    cases he : tx.escape with
    | false => rfl
    | true => exact absurd (ho.dataEscape hs he) (hplain 0 (Nat.le_refl _) (by omega))
  obtain ⟨n, hn⟩ : ∃ n, min pos tx.outBufferLen = n := ⟨_, rfl⟩
  have hlen : (tx.bytes mem).length = tx.len := by simp [Tx.bytes]
  have hmin : min ((tx.bytes mem).take pos).length tx.outBufferLen = n := by
    rw [List.length_take, hlen]
    omega
  have hn0 : 0 < n := by omega
  have htake : ((tx.bytes mem).take pos).take n = (tx.bytes mem).take n := by
    rw [List.take_take, Nat.min_eq_left (by omega)]
  -- the next `n` bytes are sent unescaped
  have hstuff : stuff (tx.bytes mem) = (tx.bytes mem).take n ++ stuff ((tx.bytes mem).drop n) := by
    conv_lhs => rw [← List.take_append_drop n (tx.bytes mem), stuff_append]
    rw [stuff_plain]
    intro b hmem
    obtain ⟨i, hi, rfl⟩ := List.mem_iff_getElem.mp hmem
    rw [List.length_take, hlen] at hi
    simpa [Tx.bytes] using hplain i (Nat.zero_le _) (by omega)
  have hpend : tx.pending c mem = (tx.bytes mem).take n ++ (stuff ((tx.bytes mem).drop n) ++
      (stuff (checkBytes tx.crc c.value 0) ++ [flagSequence])) := by
    simp [Tx.pending, hs, stuffFrom, hesc, hstuff]
  have hlt : ((tx.bytes mem).take n).length = n := by rw [List.length_take, hlen]; omega
  have hdrop := Tx.bytes_drop mem tx n
  obtain ⟨tx₁, htx₁⟩ : ∃ t : Tx π, t = { tx with
      data := tx.data + n, len := tx.len - n
      outBuffer := tx.outBuffer ++ (tx.bytes mem).take n
      outBufferLen := tx.outBufferLen - n } := ⟨_, rfl⟩
  have hr : sendData mem tx =
      { tx := if tx.len - n = 0 then { tx₁ with state := .sendCrc } else tx₁
        result := n, sent := none } := by
    simp only [sendData, hpd, if_pos hpos, sendTxInternal, hmin, htake, htx₁]
  have hbytes : tx₁.bytes mem = (tx.bytes mem).drop n := by rw [htx₁]; exact hdrop
  rw [hr]
  by_cases hz : tx.len - n = 0
  · rw [if_pos hz]
    have hnil : (tx.bytes mem).drop n = [] := List.drop_eq_nil_of_le (by omega)
    refine ⟨n, by omega, by rw [hpend]; simp [hlt], ?_, by simp [htx₁], ?_, ?_,
      Or.inl ⟨hn0, Nat.ne_of_gt hn0⟩, ?_⟩
    · rw [hpend, List.take_append_of_le_length (by omega), List.take_of_length_le (by omega), htx₁]
    · rw [hpend, List.drop_append_of_le_length (by omega), List.drop_of_length_le (by omega), hnil]
      simp [Tx.pending, stuffFrom, htx₁, hesc, hz]
    · exact .ofSendCrc (by simpa [htx₁] using hbusy) rfl (by simp [htx₁, hz]) (by simp [htx₁, hz])
        (by simp [htx₁, hesc])
    · refine Or.inl ⟨rfl, by simp [htx₁], ?_, fun _ => by simp⟩
      simp only [Tx.frameLen, hs, htx₁]
      omega
  · rw [if_neg hz]
    have hst : tx₁.state = .sendData := by simp [htx₁, hs]
    refine ⟨n, by omega, by rw [hpend]; simp [hlt], ?_, by simp [htx₁], ?_, ?_,
      Or.inl ⟨hn0, Nat.ne_of_gt hn0⟩, ?_⟩
    · rw [hpend, List.take_append_of_le_length (by omega), List.take_of_length_le (by omega), htx₁]
    · rw [hpend, List.drop_append_of_le_length (by omega), List.drop_of_length_le (by omega)]
      simp only [Tx.pending, hst, hbytes, stuffFrom, List.nil_append]
      simp [htx₁, hesc]
    · exact .ofSendData (by simpa [htx₁] using hbusy) hst (by simp only [htx₁]; omega)
        (by simp [htx₁, hesc])
    · refine Or.inl ⟨rfl, by simp [htx₁], ?_, fun _ => by simp [hst]⟩
      simp only [Tx.frameLen, hs, htx₁]
      omega

/-- The escape branch: the escape character is written, then the byte it stands for. -/
theorem sendData_escape {c : HdlcCrc} {mem : π → Nat → Byte} {tx : Tx π} (ho : tx.Ok c mem)
    (hs : tx.state = .sendData) (hb : 0 < tx.outBufferLen)
    (hpos : literalRun (tx.byteAt mem) tx.len 0 = 0) :
    ∃ n, (sendData mem tx).Spec c mem tx n := by
  have hl := ho.data hs
  have hbusy : tx.originData ≠ none := ho.busy (by simp [hs])
  have hspec : Special (tx.byteAt mem 0) := by
    obtain ⟨-, -, -, h⟩ := literalRun_spec (tx.byteAt mem) tx.len 0
    rw [hpos] at h
    exact h (by omega)
  have hcons := Tx.bytes_cons mem tx hl
  obtain ⟨rest, hrest⟩ : ∃ rest, (tx.bytes mem).drop 1 = rest := ⟨_, rfl⟩
  rw [hrest] at hcons
  have hstuff : stuff (tx.bytes mem) =
      escapeChar :: (tx.byteAt mem 0 ^^^ escapeBit) :: stuff rest := by
    rw [hcons, stuff_cons, stuffByte_special hspec]
    rfl
  cases he : tx.escape with
  | false =>
      obtain ⟨tx₁, htx₁⟩ : ∃ t : Tx π, t = { tx with
          escape := true, outBuffer := tx.outBuffer ++ [escapeChar]
          outBufferLen := tx.outBufferLen - 1 } := ⟨_, rfl⟩
      have hr : sendData mem tx = { tx := tx₁, result := 1, sent := none } := by
        simp [sendData, hpos, he, sendTxInternal_one hb, Nat.ne_of_gt hl, htx₁]
      have hpend : tx.pending c mem = escapeChar :: (tx.byteAt mem 0 ^^^ escapeBit) :: (stuff rest ++
          (stuff (checkBytes tx.crc c.value 0) ++ [flagSequence])) := by
        simp [Tx.pending, hs, stuffFrom, he, hstuff]
      have hbytes : tx₁.bytes mem = tx.bytes mem := by rw [htx₁]; rfl
      have hst : tx₁.state = .sendData := by simp [htx₁, hs]
      rw [hr]
      refine ⟨1, hb, by simp [hpend], by simp [hpend, htx₁], by simp [htx₁], ?_, ?_,
        Or.inl ⟨by decide, Nat.one_ne_zero⟩, ?_⟩
      · rw [hpend]
        simp only [Tx.pending, hst, hbytes, stuffFrom, hstuff]
        simp [htx₁]
      · exact .ofSendData (by simpa [htx₁] using hbusy) hst (by simpa [htx₁] using hl)
          fun _ => by rw [htx₁]; exact hspec
      · exact Or.inl ⟨rfl, by simp [htx₁], by simp [Tx.frameLen, hs, htx₁], fun _ => by simp [hst]⟩
  | true =>
      obtain ⟨tx₁, htx₁⟩ : ∃ t : Tx π, t = { tx with
          escape := false, data := tx.data + 1, len := tx.len - 1
          outBuffer := tx.outBuffer ++ [tx.byteAt mem 0 ^^^ escapeBit]
          outBufferLen := tx.outBufferLen - 1 } := ⟨_, rfl⟩
      have hr : sendData mem tx =
          { tx := if tx.len - 1 = 0 then { tx₁ with state := .sendCrc } else tx₁
            result := 1, sent := none } := by
        simp [sendData, hpos, he, sendTxInternal_one hb, htx₁]
      have hpend : tx.pending c mem = (tx.byteAt mem 0 ^^^ escapeBit) :: (stuff rest ++
          (stuff (checkBytes tx.crc c.value 0) ++ [flagSequence])) := by
        simp [Tx.pending, hs, stuffFrom, he, hstuff]
      have hbytes : tx₁.bytes mem = rest := by
        rw [htx₁, ← hrest, ← Tx.bytes_drop]
        rfl
      have hst : tx₁.state = .sendData := by simp [htx₁, hs]
      have hrl : rest.length = tx.len - 1 := by simp [← hrest, Tx.bytes]
      rw [hr]
      by_cases hz : tx.len - 1 = 0
      · rw [if_pos hz]
        have hnil : rest = [] := List.eq_nil_of_length_eq_zero (by omega)
        refine ⟨1, hb, by simp [hpend], by simp [hpend, htx₁], by simp [htx₁], ?_, ?_,
          Or.inl ⟨by decide, Nat.one_ne_zero⟩, ?_⟩
        · rw [hpend, hnil]
          simp [Tx.pending, stuffFrom, htx₁, hz]
        · exact .ofSendCrc (by simpa [htx₁] using hbusy) rfl (by simp [htx₁, hz])
            (by simp [htx₁, hz]) (by simp [htx₁])
        · refine Or.inl ⟨rfl, by simp [htx₁], ?_, fun _ => by simp⟩
          simp only [Tx.frameLen, hs, htx₁]
          omega
      · rw [if_neg hz]
        -- an escape is cleared, so whatever comes next starts unescaped
        refine ⟨1, hb, by simp [hpend], by simp [hpend, htx₁], by simp [htx₁], ?_, ?_,
          Or.inl ⟨by decide, Nat.one_ne_zero⟩, ?_⟩
        · rw [hpend]
          simp only [Tx.pending, hst, hbytes, stuffFrom]
          simp [htx₁]
        · exact .ofSendData (by simpa [htx₁] using hbusy) hst (by simp only [htx₁]; omega)
            (by simp [htx₁])
        · refine Or.inl ⟨rfl, by simp [htx₁], ?_, fun _ => by simp [hst]⟩
          simp only [Tx.frameLen, hs, htx₁]
          omega

theorem sendData_spec {c : HdlcCrc} {mem : π → Nat → Byte} {tx : Tx π} (ho : tx.Ok c mem)
    (hs : tx.state = .sendData) (hb : 0 < tx.outBufferLen) :
    ∃ n, (sendData mem tx).Spec c mem tx n := by
  by_cases hpos : literalRun (tx.byteAt mem) tx.len 0 = 0
  · exact sendData_escape ho hs hb hpos
  · exact sendData_literal ho hs hb hpos

theorem sendCrc_spec {c : HdlcCrc} {mem : π → Nat → Byte} {tx : Tx π} (hc : c.value % 8 = 0)
    (ho : tx.Ok c mem) (hs : tx.state = .sendCrc) (hb : 0 < tx.outBufferLen) :
    ∃ n, (sendCrc c tx).Spec c mem tx n := by
  obtain ⟨hle, hmod⟩ := ho.crcLen hs
  have hbusy : tx.originData ≠ none := ho.busy (by simp [hs])
  by_cases hdone : tx.len = c.value
  · have hr : sendCrc c tx = { tx := { tx with state := .sendEnd }, result := 1, sent := none } := by
      simp [sendCrc, hdone]
    have hesc : tx.escape = false := by
      cases he : tx.escape with
      | false => rfl
      | true => exact absurd (ho.crcEscape hs he).1 (by omega)
    rw [hr]
    refine ⟨0, Nat.zero_le _, Nat.zero_le _, by simp, by simp, ?_, .ofSendEnd hbusy rfl,
      Or.inr (Or.inl ⟨hs, rfl, Nat.one_ne_zero⟩), ?_⟩
    · simp [Tx.pending, hs, stuffFrom, hesc, hdone, checkBytes_done]
    · exact Or.inl ⟨rfl, rfl, by simp [Tx.frameLen, hs], fun _ => by simp⟩
  · have hcb := @checkBytes_cons tx.crc c.value tx.len (by omega)
    obtain ⟨byte, hbyte⟩ : ∃ b : Byte, (tx.crc >>> tx.len).setWidth 8 = b := ⟨_, rfl⟩
    rw [hbyte] at hcb
    by_cases hsp : Special byte
    · have hne : ¬(byte ≠ escapeChar ∧ byte ≠ flagSequence) := fun h => hsp.elim h.1 h.2
      cases he : tx.escape with
      | false =>
          have hr : sendCrc c tx =
              { tx := { tx with
                  escape := true, outBuffer := tx.outBuffer ++ [escapeChar]
                  outBufferLen := tx.outBufferLen - 1 }
                result := 1, sent := none } := by
            simp [sendCrc, hdone, hbyte, hne, he, sendTxInternal_one hb]
          have hpend : tx.pending c mem = escapeChar :: (byte ^^^ escapeBit) ::
              (stuff (checkBytes tx.crc c.value (tx.len + 8)) ++ [flagSequence]) := by
            simp [Tx.pending, hs, stuffFrom, he, hcb, stuffByte_special hsp]
          rw [hr]
          refine ⟨1, hb, by simp [hpend], by simp [hpend], rfl, ?_, ?_,
            Or.inl ⟨by decide, Nat.one_ne_zero⟩, ?_⟩
          · rw [hpend]
            simp [Tx.pending, hs, stuffFrom, hcb, stuffByte_special hsp]
          · exact .ofSendCrc hbusy hs hle hmod fun _ => ⟨by simp only; omega, by simpa [hbyte] using hsp⟩
          · exact Or.inl ⟨rfl, rfl, by simp [Tx.frameLen, hs], fun _ => by simp [hs]⟩
      | true =>
          have hr : sendCrc c tx =
              { tx := { tx with
                  escape := false, outBuffer := tx.outBuffer ++ [byte ^^^ escapeBit]
                  outBufferLen := tx.outBufferLen - 1, len := tx.len + 8 }
                result := 1, sent := none } := by
            simp [sendCrc, hdone, hbyte, hne, he, sendTxInternal_one hb]
          have hpend : tx.pending c mem = (byte ^^^ escapeBit) ::
              (stuff (checkBytes tx.crc c.value (tx.len + 8)) ++ [flagSequence]) := by
            simp [Tx.pending, hs, stuffFrom, he, hcb, stuffByte_special hsp]
          rw [hr]
          refine ⟨1, hb, by simp [hpend], by simp [hpend], rfl, ?_, ?_,
            Or.inl ⟨by decide, Nat.one_ne_zero⟩, ?_⟩
          · rw [hpend]
            simp [Tx.pending, hs, stuffFrom]
          · exact .ofSendCrc hbusy hs (by simp only; omega) (by simp only; omega) (by simp)
          · exact Or.inl ⟨rfl, rfl, by simp [Tx.frameLen, hs], fun _ => by simp [hs]⟩
    · have hne : byte ≠ escapeChar ∧ byte ≠ flagSequence :=
        ⟨fun h => hsp (Or.inl h), fun h => hsp (Or.inr h)⟩
      have hesc : tx.escape = false := by
        cases he : tx.escape with
        | false => rfl
        | true => exact absurd (hbyte ▸ (ho.crcEscape hs he).2) hsp
      have hr : sendCrc c tx =
          { tx := { tx with
              outBuffer := tx.outBuffer ++ [byte]
              outBufferLen := tx.outBufferLen - 1, len := tx.len + 8 }
            result := 1, sent := none } := by
        simp [sendCrc, hdone, hbyte, hne, sendTxInternal_one hb]
      have hpend : tx.pending c mem = byte ::
          (stuff (checkBytes tx.crc c.value (tx.len + 8)) ++ [flagSequence]) := by
        simp [Tx.pending, hs, stuffFrom, hesc, hcb, stuffByte_plain hsp]
      rw [hr]
      refine ⟨1, hb, by simp [hpend], by simp [hpend], rfl, ?_, ?_,
        Or.inl ⟨by decide, Nat.one_ne_zero⟩, ?_⟩
      · rw [hpend]
        simp [Tx.pending, hs, stuffFrom, hesc]
      · exact .ofSendCrc hbusy hs (by simp only; omega) (by simp only; omega) (by simp [hesc])
      · exact Or.inl ⟨rfl, rfl, by simp [Tx.frameLen, hs], fun _ => by simp [hs]⟩

theorem sendEnd_spec {c : HdlcCrc} {mem : π → Nat → Byte} {tx : Tx π} (ho : tx.Ok c mem)
    (hs : tx.state = .sendEnd) (hb : 0 < tx.outBufferLen) :
    ∃ n, (sendEnd tx).Spec c mem tx n := by
  obtain ⟨p, hp⟩ := Option.ne_none_iff_exists'.mp (ho.busy (by simp [hs]))
  have hr : sendEnd tx =
      { tx := { tx with
          outBuffer := tx.outBuffer ++ [flagSequence], outBufferLen := tx.outBufferLen - 1
          state := .sendStart, escape := false, originData := none, data := 0 }
        result := 1, sent := some (p, tx.data) } := by
    simp [sendEnd, hp, sendTxInternal_one hb]
  have hpend : tx.pending c mem = [flagSequence] := by simp [Tx.pending, hs]
  rw [hr]
  refine ⟨1, hb, by simp [hpend], by simp [hpend], rfl, by rw [hpend]; rfl,
    .ofNone rfl rfl, Or.inl ⟨by decide, Nat.one_ne_zero⟩, ?_⟩
  exact Or.inr ⟨p, hp, by simp [Tx.frameLen, hs], rfl⟩

/-- Every state call writes the next pending bytes. -/
theorem txStateCall_spec {c : HdlcCrc} {mem : π → Nat → Byte} {tx : Tx π} (hc : c.value % 8 = 0)
    (ho : tx.Ok c mem) (hb : 0 < tx.outBufferLen) :
    ∃ n, (txStateCall c mem tx).Spec c mem tx n := by
  cases hs : tx.state with
  | sendStart =>
      simp only [txStateCall, hs]
      exact sendStart_spec ho hs hb
  | sendData =>
      simp only [txStateCall, hs]
      exact sendData_spec ho hs hb
  | sendCrc =>
      simp only [txStateCall, hs]
      exact sendCrc_spec hc ho hs hb
  | sendEnd =>
      simp only [txStateCall, hs]
      exact sendEnd_spec ho hs hb

/-! ## The driver loop -/

/-- The calls a loop may still make besides those that fill the output buffer:
one to switch to the closing flag, two to see that there is nothing to send. -/
def Tx.slack (tx : Tx π) (repeatedEmptyData : Bool) : Nat :=
  match tx.originData with
  | none => if repeatedEmptyData then 1 else 2
  | some _ => if tx.state = .sendEnd then 3 else 4

theorem Tx.slack_pos (tx : Tx π) (rep : Bool) : 0 < tx.slack rep := by
  unfold Tx.slack
  split <;> split <;> decide

theorem Tx.slack_of_some {tx : Tx π} (h : tx.originData ≠ none) (rep : Bool) :
    tx.slack rep = if tx.state = .sendEnd then 3 else 4 := by
  obtain ⟨p, hp⟩ := Option.ne_none_iff_exists'.mp h
  simp [Tx.slack, hp]

theorem Tx.slack_false_le (tx : Tx π) : tx.slack false ≤ 4 := by
  unfold Tx.slack
  split
  · decide
  · split <;> decide

/-- Nothing is pending without a frame. -/
theorem Tx.Ok.pending_nil {c : HdlcCrc} {mem : π → Nat → Byte} {tx : Tx π} (ho : tx.Ok c mem)
    (h : tx.originData = none) : tx.pending c mem = [] := by
  simp [Tx.pending, ho.idle h, h]

/-- The closing flag is pending as long as there is a frame. -/
theorem Tx.pending_ne_nil (c : HdlcCrc) (mem : π → Nat → Byte) {tx : Tx π}
    (h : tx.originData ≠ none) : tx.pending c mem ≠ [] := by
  cases hs : tx.state <;> simp [Tx.pending, hs, h]

/-- What the loop does: it writes the next pending bytes until the output buffer
is full or nothing is pending, and reports the frame if it was completed. -/
structure Tx.Ran (c : HdlcCrc) (mem : π → Nat → Byte) (tx tx' : Tx π)
    (sent : List (π × Nat)) : Prop where
  out : tx'.outBuffer = tx.outBuffer ++ (tx.pending c mem).take tx.outBufferLen
  rest : tx'.pending c mem = (tx.pending c mem).drop tx.outBufferLen
  ok : tx'.Ok c mem
  sent : sent = [] ∧ tx'.originData = tx.originData ∧ tx'.frameLen = tx.frameLen ∧
      (tx.originData ≠ none → tx.outBufferLen < (tx.pending c mem).length) ∨
    ∃ p, tx.originData = some p ∧ sent = [(p, tx.frameLen)] ∧ tx'.originData = none ∧
      (tx.pending c mem).length ≤ tx.outBufferLen

/-- A state call in front of a loop. -/
theorem Tx.Ran.cons {c : HdlcCrc} {mem : π → Nat → Byte} {tx tx' : Tx π} {r : TxStep π} {n : Nat}
    {sent : List (π × Nat)} (hr : r.Spec c mem tx n) (h : Tx.Ran c mem r.tx tx' sent) :
    Tx.Ran c mem tx tx' (r.sent.toList ++ sent) := by
  have hroom := hr.room
  have havail := hr.avail
  have hlen : (r.tx.pending c mem).length = (tx.pending c mem).length - n := by
    rw [hr.rest, List.length_drop]
  have hsplit : tx.outBufferLen = n + (tx.outBufferLen - n) := by omega
  refine ⟨?_, ?_, h.ok, ?_⟩
  · rw [h.out, hr.out, hr.rest, hr.outLen, List.append_assoc, ← List.take_add, ← hsplit]
  · rw [h.rest, hr.rest, hr.outLen, List.drop_drop, ← hsplit]
  · rcases hr.sent with ⟨hs, hod, hfl, -⟩ | ⟨p, hp, hs, hod⟩
    · rw [hs]
      rcases h.sent with ⟨h1, h2, h3, h4⟩ | ⟨p, h1, h2, h3, h4⟩
      · refine Or.inl ⟨by simp [h1], h2.trans hod, h3.trans hfl, fun hne => ?_⟩
        have hlt := h4 (by rwa [hod])
        rw [hlen, hr.outLen] at hlt
        omega
      · refine Or.inr ⟨p, hod ▸ h1, by simp [h2, hfl], h3, ?_⟩
        rw [hlen, hr.outLen] at h4
        omega
    · have hnil : (r.tx.pending c mem).length = 0 := by rw [hr.ok.pending_nil hod]; rfl
      rcases h.sent with ⟨h1, h2, -, -⟩ | ⟨q, h1, -, -, -⟩
      · exact Or.inr ⟨p, hp, by simp [hs, h1], h2.trans hod, by omega⟩
      · rw [hod] at h1
        cases h1

/-- The measure of the loop drops with every state call that is not the last one. -/
theorem TxStep.Spec.measure {c : HdlcCrc} {mem : π → Nat → Byte} {tx : Tx π} {r : TxStep π}
    {n : Nat} (ho : tx.Ok c mem) (hr : r.Spec c mem tx n) (hres : r.result ≠ 0) (rep : Bool) :
    r.tx.outBufferLen + r.tx.slack false < tx.outBufferLen + tx.slack rep := by
  have hroom := hr.room
  have havail := hr.avail
  have hlen : (r.tx.pending c mem).length = (tx.pending c mem).length - n := by
    rw [hr.rest, List.length_drop]
  rw [hr.outLen]
  rcases hr.progress with ⟨hn, -⟩ | ⟨hs, he, -⟩ | ⟨-, -, h0⟩
  · have hne : tx.originData ≠ none := by
      intro h
      rw [ho.pending_nil h] at havail
      simp only [List.length_nil] at havail
      omega
    rw [Tx.slack_of_some hne]
    rcases hr.sent with ⟨-, hod, -, -⟩ | ⟨p, -, -, hod⟩
    · -- the byte written was not the closing flag
      have hse : tx.state ≠ .sendEnd := by
        intro hse
        have h1 : (tx.pending c mem).length = 1 := by simp [Tx.pending, hse]
        have h2 := List.length_pos_of_ne_nil
          (@Tx.pending_ne_nil _ c mem r.tx (by rwa [hod]))
        omega
      rw [if_neg hse]
      have hle := r.tx.slack_false_le
      omega
    · have h2 : r.tx.slack false = 2 := by simp [Tx.slack, hod]
      split <;> omega
  · have hne : tx.originData ≠ none := ho.busy (by simp [hs])
    have h4 : tx.slack rep = 4 := by rw [Tx.slack_of_some hne]; simp [hs]
    have h3 : r.tx.slack false ≤ 3 := by
      have hne' : r.tx.originData ≠ none := hr.ok.busy (by simp [he])
      exact Nat.le_of_eq ((Tx.slack_of_some hne' false).trans (if_pos he))
    omega
  · exact absurd h0 hres

theorem runTxLoop_spec {c : HdlcCrc} {mem : π → Nat → Byte} (hc : c.value % 8 = 0) :
    ∀ (fuel : Nat) (rep : Bool) (tx : Tx π), tx.Ok c mem →
      tx.outBufferLen + tx.slack rep ≤ fuel →
      Tx.Ran c mem tx (runTxLoop c mem fuel rep tx).1 (runTxLoop c mem fuel rep tx).2
  | 0, rep, tx, _, hf => by
      have h := tx.slack_pos rep
      omega
  | fuel + 1, rep, tx, ho, hf => by
      by_cases hz : tx.outBufferLen = 0
      · have hr : runTxLoop c mem (fuel + 1) rep tx = (tx, []) := by simp [runTxLoop, hz]
        rw [hr]
        refine ⟨by simp [hz], by simp [hz], ho, Or.inl ⟨rfl, rfl, rfl, fun hne => ?_⟩⟩
        rw [hz]
        exact List.length_pos_of_ne_nil (Tx.pending_ne_nil c mem hne)
      · obtain ⟨n, hspec⟩ := txStateCall_spec hc ho (Nat.pos_of_ne_zero hz)
        obtain ⟨r, hrd⟩ : ∃ r, txStateCall c mem tx = r := ⟨_, rfl⟩
        rw [hrd] at hspec
        by_cases hres : r.result = 0
        · -- nothing was written, so there is no frame
          obtain ⟨hod, htx⟩ : tx.originData = none ∧ r.tx = tx := by
            rcases hspec.progress with ⟨-, h⟩ | ⟨-, -, h⟩ | ⟨h1, h2, -⟩
            · exact absurd hres h
            · exact absurd hres h
            · exact ⟨h1, h2⟩
          have hsent : r.sent = none := by
            rcases hspec.sent with ⟨h, -⟩ | ⟨p, hp, -⟩
            · exact h
            · rw [hod] at hp
              cases hp
          have hnil := ho.pending_nil hod
          cases rep with
          | true =>
              have hr : runTxLoop c mem (fuel + 1) true tx = (tx, []) := by
                simp [runTxLoop, hz, hrd, hres, htx, hsent]
              rw [hr]
              exact ⟨by simp [hnil], by simp [hnil], ho, Or.inl ⟨rfl, rfl, rfl, absurd hod⟩⟩
          | false =>
              have hr : runTxLoop c mem (fuel + 1) false tx = runTxLoop c mem fuel true tx := by
                simp [runTxLoop, hz, hrd, hres, htx, hsent]
              have hs2 : tx.slack false = 2 := by simp [Tx.slack, hod]
              have hs1 : tx.slack true = 1 := by simp [Tx.slack, hod]
              rw [hr]
              exact runTxLoop_spec hc fuel true tx ho (by omega)
        · have hr : runTxLoop c mem (fuel + 1) rep tx =
              ((runTxLoop c mem fuel false r.tx).1,
                r.sent.toList ++ (runTxLoop c mem fuel false r.tx).2) := by
            simp [runTxLoop, hz, hrd, hres]
          have hm := hspec.measure ho hres rep
          rw [hr]
          exact Tx.Ran.cons hspec (runTxLoop_spec hc fuel false r.tx hspec.ok (by omega))

/-! ## The driver -/

/-- A handle between two calls of `hdlc_ll_run_tx`. -/
structure HdlcLl.TxOk (mem : π → Nat → Byte) (h : HdlcLl π) : Prop where
  crc : h.crcType.value % 8 = 0
  tx : h.tx.Ok h.crcType mem

/-- What a handle still has to emit. -/
def HdlcLl.pending (mem : π → Nat → Byte) (h : HdlcLl π) : List Byte :=
  h.tx.pending h.crcType mem

/-- `hdlc_ll_run_tx` writes the next pending bytes, as many as the buffer takes. -/
theorem runTx_pending {mem : π → Nat → Byte} {h : HdlcLl π} (ho : h.TxOk mem) (len : Nat) :
    (hdlcLlRunTx mem h len).2.1 = (h.pending mem).take len ∧
      (hdlcLlRunTx mem h len).1.pending mem = (h.pending mem).drop len ∧
      (hdlcLlRunTx mem h len).1.TxOk mem := by
  have ho' : ({ h.tx with outBuffer := [], outBufferLen := len } : Tx π).Ok h.crcType mem :=
    ⟨ho.tx.idle, ho.tx.start, ho.tx.data, ho.tx.dataEscape, ho.tx.crcLen, ho.tx.crcEscape⟩
  have hran := runTxLoop_spec ho.crc (len + 4) false _ ho'
    (Nat.add_le_add_left (Tx.slack_false_le _) len)
  refine ⟨?_, hran.rest, ⟨ho.crc, hran.ok⟩⟩
  have hout := hran.out
  rwa [List.nil_append] at hout

/-- `hdlc_ll_run_tx` reports the frame when the buffer takes the last pending byte. -/
theorem runTx_sent {mem : π → Nat → Byte} {h : HdlcLl π} (ho : h.TxOk mem) (len : Nat) :
    (hdlcLlRunTx mem h len).2.2 = [] ∧
        (hdlcLlRunTx mem h len).1.tx.originData = h.tx.originData ∧
        (hdlcLlRunTx mem h len).1.tx.frameLen = h.tx.frameLen ∧
        (h.tx.originData ≠ none → len < (h.pending mem).length) ∨
      ∃ p, h.tx.originData = some p ∧ (hdlcLlRunTx mem h len).2.2 = [(p, h.tx.frameLen)] ∧
        (hdlcLlRunTx mem h len).1.tx.originData = none ∧ (h.pending mem).length ≤ len := by
  have ho' : ({ h.tx with outBuffer := [], outBufferLen := len } : Tx π).Ok h.crcType mem :=
    ⟨ho.tx.idle, ho.tx.start, ho.tx.data, ho.tx.dataEscape, ho.tx.crcLen, ho.tx.crcEscape⟩
  exact (runTxLoop_spec ho.crc (len + 4) false _ ho'
    (Nat.add_le_add_left (Tx.slack_false_le _) len)).sent

end TinyProto.Hdlc
