import TinyProto.Rust.Encode

/-!
# The Rust transmitter against the C transmitter

Over a sequence of output buffers the Rust transmitter writes what the C transmitter writes
exactly if no buffer but the last ends inside a run of plain bytes and the check is off, or
else if the payload is a single byte and the buffers end before the frame does
(`run_tx_agrees_iff`).
-/

namespace TinyProto.Rust

open Hdlc hiding Tx TxStep sendTxInternal txCrc sendStart sendData sendCrc sendEnd txStateCall
  runTxLoop drain

variable {π : Type} {c : HdlcCrc} {checks : Bool} {mem : π → Nat → Byte} {p : π}
  {payload : List Byte} {n : Nat} {tx : Tx π}

/-! ## The end of the loop -/

/-- The bytes that are written are counted. -/
structure Wrote (tx tx' : Tx π) (result : Nat) : Prop where
  out : ∃ bs, tx'.outBuffer = tx.outBuffer ++ bs ∧ result = bs.length
  room : tx'.outBufferLen + result = tx.outBufferLen

variable {tx' tx'' : Tx π} {result : Nat}

theorem Wrote.none (hout : tx'.outBuffer = tx.outBuffer)
    (hroom : tx'.outBufferLen = tx.outBufferLen) : Wrote tx tx' 0 :=
  ⟨⟨[], by rw [hout, List.append_nil], rfl⟩, hroom⟩

theorem Wrote.congr (hw : Wrote tx tx' result) (hout : tx''.outBuffer = tx'.outBuffer)
    (hroom : tx''.outBufferLen = tx'.outBufferLen) : Wrote tx tx'' result := by
  refine ⟨?_, by rw [hroom]; exact hw.room⟩
  rw [hout]
  exact hw.out

theorem sendTxInternal_wrote (tx : Tx π) (data : List Byte) :
    Wrote tx (sendTxInternal tx data).1 (sendTxInternal tx data).2 := by
  rw [sendTxInternal_eq]
  refine ⟨⟨_, rfl, ?_⟩, ?_⟩
  · rw [List.length_take, Nat.min_comm]
  · dsimp only
    omega

theorem sendStart_wrote {r : TxStep π} (hr : sendStart mem tx = .ok r) :
    Wrote tx r.tx r.result := by
  unfold sendStart at hr
  split at hr
  · cases hr
    exact .none rfl rfl
  · cases hcrc : txCrc tx.crcType tx.crc [tx.byteAt mem 0] tx.len with
    | error e =>
      rw [hcrc] at hr
      cases hr
    | ok crc =>
      rw [hcrc] at hr
      simp only [bind, Except.bind] at hr
      obtain ⟨hout, hroom⟩ := sendTxInternal_wrote { tx with crc := crc } [flagSequence]
      split at hr
      · cases hr
        exact ⟨hout, hroom⟩
      · cases hr
        exact ⟨hout, hroom⟩

theorem sendData_wrote (mem : π → Nat → Byte) (tx : Tx π) :
    Wrote tx (sendData mem tx).tx (sendData mem tx).result := by
  unfold sendData
  by_cases hpos : literalRun (tx.byteAt mem) tx.len 0 > 0
  · have hw := sendTxInternal_wrote tx
      ((List.range (literalRun (tx.byteAt mem) tx.len 0)).map (tx.byteAt mem))
    simp only [if_pos hpos]
    generalize sendTxInternal tx _ = out at hw
    refine hw.congr ?_ ?_
    · split <;> split <;> rfl
    · split <;> split <;> rfl
  · have hw := sendTxInternal_wrote tx
      [if tx.escape then tx.byteAt mem 0 ^^^ escapeBit else escapeChar]
    simp only [if_neg hpos]
    generalize sendTxInternal tx _ = out at hw
    by_cases hres : out.2 > 0
    · simp only [if_pos hres]
      refine hw.congr ?_ ?_
      · split <;> split <;> rfl
      · split <;> split <;> rfl
    · simp only [if_neg hres]
      refine hw.congr ?_ ?_
      · split <;> rfl
      · split <;> rfl

theorem sendCrc_wrote {r : TxStep π} (hr : sendCrc checks tx = .ok r) :
    Wrote tx r.tx r.result := by
  unfold sendCrc at hr
  split at hr
  · cases hr
    exact .none rfl rfl
  · cases hshift : shiftRight checks tx.crc tx.len with
    | error e =>
      rw [hshift] at hr
      cases hr
    | ok crc =>
      rw [hshift] at hr
      simp only [bind, Except.bind] at hr
      split at hr
      · cases hr
        refine (sendTxInternal_wrote tx [crc.setWidth 8]).congr ?_ ?_
        · dsimp only
          split <;> rfl
        · dsimp only
          split <;> rfl
      · have hw := sendTxInternal_wrote tx
          [if tx.escape then crc.setWidth 8 ^^^ escapeBit else escapeChar]
        generalize sendTxInternal tx _ = out at hr hw
        split at hr
        · cases hr
          refine hw.congr ?_ ?_
          · dsimp only
            split <;> rfl
          · dsimp only
            split <;> rfl
        · cases hr
          exact hw

theorem sendEnd_wrote (tx : Tx π) : Wrote tx (sendEnd tx).tx (sendEnd tx).result := by
  have hw := sendTxInternal_wrote tx [flagSequence]
  unfold sendEnd
  generalize sendTxInternal tx [flagSequence] = out at hw
  dsimp only
  split
  · exact hw.congr rfl rfl
  · exact hw

theorem txStateCall_wrote {r : TxStep π} (hr : txStateCall checks mem tx = .ok r) :
    Wrote tx r.tx r.result := by
  unfold txStateCall at hr
  split at hr
  · exact sendStart_wrote hr
  · cases hr
    exact sendData_wrote mem tx
  · exact sendCrc_wrote hr
  · cases hr
    exact sendEnd_wrote tx

/-- More turns than the model allows for change nothing. -/
theorem runTxLoop_stops : ∀ (fuel : Nat) (repeatedEmptyData : Bool) (tx : Tx π),
    2 * tx.outBufferLen + (if repeatedEmptyData then 1 else 2) ≤ fuel →
      runTxLoop checks mem (fuel + 1) repeatedEmptyData tx =
        runTxLoop checks mem fuel repeatedEmptyData tx
  | 0, repeatedEmptyData, _, hf => by
    split at hf <;> omega
  | fuel + 1, repeatedEmptyData, tx, hf => by
    conv_lhs => unfold runTxLoop
    conv_rhs => unfold runTxLoop
    by_cases hfull : tx.outBufferLen = 0
    · rw [if_pos hfull, if_pos hfull]
    · rw [if_neg hfull, if_neg hfull]
      cases hcall : txStateCall checks mem tx with
      | error e => rfl
      | ok r =>
        have hcount := (txStateCall_wrote hcall).room
        show (if r.result = 0 ∧ repeatedEmptyData then _ else _) =
          if r.result = 0 ∧ repeatedEmptyData then _ else _
        by_cases hstop : r.result = 0 ∧ repeatedEmptyData = true
        · rw [if_pos hstop, if_pos hstop]
        · rw [if_neg hstop, if_neg hstop, runTxLoop_stops fuel (r.result = 0) r.tx]
          by_cases hzero : r.result = 0
          · have hrep : repeatedEmptyData = false := eq_false_of_ne_true fun h => hstop ⟨hzero, h⟩
            rw [hrep, if_neg Bool.false_ne_true] at hf
            rw [if_pos (decide_eq_true hzero)]
            omega
          · rw [if_neg (by simpa using hzero)]
            split at hf <;> omega

theorem runTxLoop_panics (hroom : tx.outBufferLen ≠ 0) {e : Panic}
    (hcall : txStateCall checks mem tx = .error e) (fuel : Nat) (repeatedEmptyData : Bool) :
    (runTxLoop checks mem (fuel + 1) repeatedEmptyData tx).map Prod.fst = .error e := by
  unfold runTxLoop
  rw [if_neg hroom, hcall]
  rfl

theorem runTxLoop_turn (hroom : tx.outBufferLen ≠ 0) {r : TxStep π}
    (hcall : txStateCall checks mem tx = .ok r) (fuel : Nat) (repeatedEmptyData : Bool) :
    (runTxLoop checks mem (fuel + 1) repeatedEmptyData tx).map Prod.fst =
      if r.result = 0 ∧ repeatedEmptyData = true then .ok r.tx
      else (runTxLoop checks mem fuel (r.result = 0) r.tx).map Prod.fst := by
  conv_lhs => unfold runTxLoop
  rw [if_neg hroom, hcall]
  simp only [bind, Except.bind]
  split
  · rfl
  · cases runTxLoop checks mem fuel (r.result = 0) r.tx <;> rfl

/-- The loop only appends. -/
theorem runTxLoop_appends : ∀ (fuel : Nat) (repeatedEmptyData : Bool) (tx : Tx π) {tx' : Tx π},
    (runTxLoop checks mem fuel repeatedEmptyData tx).map Prod.fst = .ok tx' →
      ∃ bs, tx'.outBuffer = tx.outBuffer ++ bs
  | 0, _, tx, _, hrun => by
    cases hrun
    exact ⟨[], (List.append_nil _).symm⟩
  | fuel + 1, repeatedEmptyData, tx, tx', hrun => by
    by_cases hroom : tx.outBufferLen = 0
    · unfold runTxLoop at hrun
      rw [if_pos hroom] at hrun
      cases hrun
      exact ⟨[], (List.append_nil _).symm⟩
    · cases hcall : txStateCall checks mem tx with
      | error e =>
        rw [runTxLoop_panics hroom hcall] at hrun
        cases hrun
      | ok r =>
        obtain ⟨bs, hout, -⟩ := (txStateCall_wrote hcall).out
        rw [runTxLoop_turn hroom hcall] at hrun
        split at hrun
        · cases hrun
          exact ⟨bs, hout⟩
        · obtain ⟨rest, hrest⟩ := runTxLoop_appends fuel _ r.tx hrun
          exact ⟨bs ++ rest, by rw [hrest, hout, List.append_assoc]⟩

/-! ## What a call writes -/

/-- The two lists differ at some place. -/
def Differ (as bs : List Byte) : Prop :=
  ∃ front x y rest rest', as = front ++ x :: rest ∧ bs = front ++ y :: rest' ∧ x ≠ y

/-- What is left of a call that has a place of the frame to start from. -/
inductive Ends (c : HdlcCrc) (p : π) (payload : List Byte) (n : Nat) (tx : Tx π) :
    Except Panic (Tx π) → Prop where
  /-- The buffer is filled, or the frame is done. -/
  | fills {tx' : Tx π} (hat : Tx.At c p payload (n + tx.outBufferLen) tx')
      (hout : tx'.outBuffer =
        tx.outBuffer ++ ((encodeFrame c.stored payload).drop n).take tx.outBufferLen) :
      Ends c p payload n tx (.ok tx')
  /-- The buffer ends inside of a run. -/
  | skips {tx' : Tx π} (more : Nat)
      (hat : Tx.At c p payload (n + tx.outBufferLen + more) tx')
      (hout : tx'.outBuffer =
        tx.outBuffer ++ ((encodeFrame c.stored payload).drop n).take tx.outBufferLen)
      (hinside : InsideRun payload (n + tx.outBufferLen))
      (hnext : ∃ b rest, (encodeFrame c.stored payload).drop (n + tx.outBufferLen + more) =
        b :: rest ∧ Special b) : Ends c p payload n tx (.ok tx')
  /-- The buffer reaches beyond the check field. -/
  | derails {res : Except Panic (Tx π)} (hc : c ≠ .off)
      (hlen : ((encodeFrame c.stored payload).drop n).length ≤ tx.outBufferLen)
      (hres : ∀ tx', res = .ok tx' → ∃ bs, tx'.outBuffer = tx.outBuffer ++ bs ∧
        Differ bs ((encodeFrame c.stored payload).drop n)) : Ends c p payload n tx res

theorem Differ.prepend {as bs : List Byte} (hd : Differ as bs) (front : List Byte) :
    Differ (front ++ as) (front ++ bs) := by
  obtain ⟨mid, x, y, rest, rest', rfl, rfl, hne⟩ := hd
  exact ⟨front ++ mid, x, y, rest, rest', by simp, by simp, hne⟩

/-- The two lists have no common continuation. -/
theorem Differ.append_ne {as bs : List Byte} (hd : Differ as bs) (cs : List Byte) :
    as ++ cs ≠ bs := by
  obtain ⟨front, x, y, rest, rest', rfl, rfl, hne⟩ := hd
  intro heq
  rw [List.append_assoc] at heq
  exact hne (List.cons.inj (List.append_cancel_left heq)).1

theorem take_add_append {full bs : List Byte} (n : Nat)
    (hfront : full.drop n = bs ++ full.drop (n + bs.length))
    (k : Nat) : (full.drop n).take (bs.length + k) = bs ++ (full.drop (n + bs.length)).take k := by
  rw [hfront, List.take_length_add_append]

/-- What is written first, and how the rest of the call ends. -/
theorem Ends.cons {r : Tx π} {res : Except Panic (Tx π)} (bs : List Byte)
    (hfront : (encodeFrame c.stored payload).drop n =
      bs ++ (encodeFrame c.stored payload).drop (n + bs.length))
    (hout : r.outBuffer = tx.outBuffer ++ bs) (hroom : r.outBufferLen + bs.length = tx.outBufferLen)
    (hends : Ends c p payload (n + bs.length) r res) : Ends c p payload n tx res := by
  have hsum : tx.outBufferLen = bs.length + r.outBufferLen := by omega
  have hwhere : n + tx.outBufferLen = n + bs.length + r.outBufferLen := by omega
  cases hends with
  | fills hat hrest =>
    refine .fills (by rw [hwhere]; exact hat) ?_
    rw [hrest, hout, hsum, take_add_append n hfront, List.append_assoc]
  | skips more hat hrest hinside hnext =>
    refine .skips more (by rw [hwhere]; exact hat) ?_ (by rw [hwhere]; exact hinside)
      (by rw [hwhere]; exact hnext)
    rw [hrest, hout, hsum, take_add_append n hfront, List.append_assoc]
  | derails hc hlen hres =>
    refine .derails hc ?_ fun tx' htx' => ?_
    · rw [hfront, List.length_append, hsum]
      omega
    · obtain ⟨cs, hcs, hdiffer⟩ := hres tx' htx'
      refine ⟨bs ++ cs, by rw [hcs, hout, List.append_assoc], ?_⟩
      rw [hfront]
      exact hdiffer.prepend bs

theorem runTxLoop_full (hfull : tx.outBufferLen = 0) (fuel : Nat) (repeatedEmptyData : Bool) :
    runTxLoop checks mem fuel repeatedEmptyData tx = .ok (tx, []) := by
  cases fuel with
  | zero => rfl
  | succ fuel =>
    unfold runTxLoop
    rw [if_pos hfull]

/-- Nothing is left of the frame. -/
theorem Tx.At.stays (hat : Tx.At c p payload n tx) (hs : tx.state = .sendStart)
    (hlast : (encodeFrame c.stored payload).drop n = []) (k : Nat) :
    Tx.At c p payload (n + k) tx := by
  cases hat with
  | start => cases hlast
  | done _ hp hc _ hn =>
    refine .done hs hp hc ?_ (Nat.le_add_right_of_le hn)
    rw [← List.drop_drop, hlast, List.drop_nil]
  | data hs' | crc hs' | flag hs' => cases hs.symm.trans hs'

/-- The loop, from a place of the frame. -/
theorem runTxLoop_ends (hpos : 0 < payload.length) (hd : c ≠ .default)
    (hc : c = .off ∨ payload.length = 1) (hm : payload = (List.range payload.length).map (mem p)) :
    ∀ (fuel : Nat) (repeatedEmptyData : Bool) (n : Nat) (tx : Tx π), Tx.At c p payload n tx →
      (repeatedEmptyData = true → tx.state ≠ .sendCrc) →
      2 * tx.outBufferLen + (if repeatedEmptyData then 1 else 2) ≤ fuel →
      Ends c p payload n tx ((runTxLoop checks mem fuel repeatedEmptyData tx).map Prod.fst)
  | 0, repeatedEmptyData, _, _, _, _, hf => by
    split at hf <;> omega
  | fuel + 1, repeatedEmptyData, n, tx, hat, hrep, hf => by
    by_cases hfull : tx.outBufferLen = 0
    · unfold runTxLoop
      rw [if_pos hfull]
      refine .fills (by rw [hfull]; exact hat) ?_
      rw [hfull, List.take_zero, List.append_nil]
    · have hacts : Acts c p payload n tx (txStateCall checks mem tx) :=
        txStateCall_acts hat hpos hd hc hm (Nat.pos_of_ne_zero hfull)
      cases hcall : txStateCall checks mem tx with
      | error e =>
        rw [hcall] at hacts
        rw [runTxLoop_panics hfull hcall]
        cases hacts with
        | derails hc' hlast _ =>
          refine .derails hc' ?_ nofun
          rw [hlast]
          exact Nat.pos_of_ne_zero hfull
      | ok r =>
        rw [hcall] at hacts
        rw [runTxLoop_turn hfull hcall]
        cases hacts with
        | writes bs hat' hfront hout hroom hres hnil =>
          by_cases hnone : bs = []
          · rcases hnil hnone with ⟨hcrc, hend⟩ | ⟨hs, hlast, hsame⟩
            · -- The switch to the closing flag, which counts as a turn without data.
              have hfirst : repeatedEmptyData = false :=
                eq_false_of_ne_true fun hyes => hrep hyes hcrc
              rw [hfirst] at hf ⊢
              rw [if_neg fun hboth => Bool.false_ne_true hboth.2]
              refine .cons bs hfront hout hroom (runTxLoop_ends hpos hd hc hm fuel _ _ r.tx hat'
                (fun _ => by rw [hend]; nofun) ?_)
              rw [if_neg Bool.false_ne_true] at hf
              rw [if_pos (decide_eq_true (hres.mpr hnone))]
              omega
            · rw [hsame]
              split
              · refine .fills (hat.stays hs hlast _) ?_
                rw [hlast, List.take_nil, List.append_nil]
              · next hagain =>
                have hfirst : repeatedEmptyData = false :=
                  eq_false_of_ne_true fun hyes => hagain ⟨hres.mpr hnone, hyes⟩
                refine runTxLoop_ends hpos hd hc hm fuel _ n tx hat (fun _ => by rw [hs]; nofun) ?_
                rw [hfirst, if_neg Bool.false_ne_true] at hf
                rw [if_pos (decide_eq_true (hres.mpr hnone))]
                omega
          · have hsome : r.result ≠ 0 := fun hzero => hnone (hres.mp hzero)
            have hlen := List.length_pos_of_ne_nil hnone
            rw [if_neg fun hboth => hsome hboth.1]
            refine .cons bs hfront hout hroom (runTxLoop_ends hpos hd hc hm fuel _ _ r.tx hat'
              (fun hzero => absurd (of_decide_eq_true hzero) hsome) ?_)
            rw [if_neg fun hzero => hsome (of_decide_eq_true hzero)]
            split at hf <;> omega
        | skips bs more _ hat' hfront hout hroom hlen hres hinside hnext =>
          rw [if_neg fun hboth => hres hboth.1, runTxLoop_full hroom]
          rw [hlen] at hat' hinside hnext
          refine .skips more.length hat' ?_ hinside hnext
          rw [hout, hfront, ← hlen, List.take_left]
        | derails hc' hlast hres =>
          obtain ⟨x, hx, hout, -, hsome⟩ := hres r rfl
          rw [if_neg fun hboth => hsome hboth.1]
          refine .derails hc' ?_ fun tx' htx' => ?_
          · rw [hlast]
            exact Nat.pos_of_ne_zero hfull
          · obtain ⟨bs, hbs⟩ := runTxLoop_appends fuel _ r.tx htx'
            refine ⟨x :: bs, by rw [hbs, hout, List.append_assoc]; rfl, ?_⟩
            rw [hlast]
            exact ⟨[], x, flagSequence, bs, [], rfl, rfl, hx⟩

/-! ## A sequence of buffers -/

/-- The buffers' ends, from `n` bytes on, without the end of the last one: one is inside of a
run. -/
def Splits (payload : List Byte) : Nat → List Nat → Prop
  | _, [] => False
  | n, len :: sizes => (sizes ≠ [] ∧ InsideRun payload (n + len)) ∨ Splits payload (n + len) sizes

instance splitsDecidable (payload : List Byte) : ∀ n sizes, Decidable (Splits payload n sizes)
  | _, [] => inferInstanceAs (Decidable False)
  | n, len :: sizes =>
    have := splitsDecidable payload (n + len) sizes
    inferInstanceAs (Decidable ((sizes ≠ [] ∧ InsideRun payload (n + len)) ∨
      Splits payload (n + len) sizes))

/-- The place does not depend on the output buffer. -/
theorem Tx.At.newBuffer (hat : Tx.At c p payload n tx) (out : List Byte) (len : Nat) :
    Tx.At c p payload n { tx with outBuffer := out, outBufferLen := len } := by
  cases hat with
  | start hs hp hc ho hd hlen => exact .start hs hp hc ho hd hlen
  | data hs hc ho hlen hpos hcrc hesc hmid hn => exact .data hs hc ho hlen hpos hcrc hesc hmid hn
  | crc hs hc hle hmod hesc hrest hn => exact .crc hs hc hle hmod hesc hrest hn
  | flag hs hc hrest hn => exact .flag hs hc hrest hn
  | done hs hp hc hrest hn => exact .done hs hp hc hrest hn

/-- With a check field, the frame is not done. -/
theorem Tx.At.not_done (hat : Tx.At c p payload n tx) :
    c = .off ∨ (encodeFrame c.stored payload).drop n ≠ [] := by
  cases hat with
  | start => exact .inr nofun
  | data hs hc ho hlen hpos hcrc hesc hmid hn =>
    refine .inr fun hnil => ?_
    have hd : tx.data < payload.length := by omega
    have hrest := encodeFrame_drop c.stored payload tx.data
    rw [drop_getD hd, stuff_cons] at hrest
    have htwo : 1 < (stuffByte (payload.getD tx.data 0) ++ stuff (payload.drop (tx.data + 1)) ++
        (stuff (fcs c.stored payload) ++ [flagSequence])).length := by
      have hone : 0 < (stuffByte (payload.getD tx.data 0)).length := by
        unfold stuffByte
        split
        · exact Nat.succ_pos _
        · exact Nat.succ_pos _
      simp only [List.length_append, List.length_singleton]
      omega
    rw [← hrest, List.length_drop] at htwo
    rw [List.drop_eq_nil_iff, hn] at hnil
    split at hnil <;> omega
  | crc _ _ _ _ _ hrest => exact .inr (by rw [hrest]; simp)
  | flag _ hc => exact .inl hc
  | done _ _ hc => exact .inl hc

/-- A cut inside of a run is in front of a plain byte. -/
theorem InsideRun.head (hin : InsideRun payload n) :
    ∃ b rest, (encodeFrame c payload).drop n = b :: rest ∧ ¬Special b := by
  obtain ⟨d, hd, hmid, rfl⟩ := hin
  have hplain := hmid.2
  rw [drop_getD hd, List.head?_cons, Option.any_some, plain_iff] at hplain
  rw [encodeFrame_drop, drop_getD hd, stuff_cons, stuffByte_plain hplain]
  exact ⟨_, _, rfl, hplain⟩

/-- A payload of one byte has no run to cut. -/
theorem not_insideRun_one (hone : payload.length = 1) : ¬InsideRun payload n := by
  rintro ⟨d, hd, hmid, -⟩
  have hzero : d = 0 := by omega
  rw [hzero] at hmid
  cases hmid.1

theorem not_splits_one (hone : payload.length = 1) :
    ∀ (sizes : List Nat) (n : Nat), ¬Splits payload n sizes
  | [], _ => id
  | len :: sizes, n => by
    rintro (⟨-, hin⟩ | hrest)
    · exact not_insideRun_one hone hin
    · exact not_splits_one hone sizes _ hrest

theorem runTx_ends (hpos : 0 < payload.length) (hd : c ≠ .default)
    (hc : c = .off ∨ payload.length = 1) (hm : payload = (List.range payload.length).map (mem p))
    (hat : Tx.At c p payload n tx) (checks : Bool) (len : Nat) :
    ∃ res, Ends c p payload n { tx with outBuffer := [], outBufferLen := len } res ∧
      ∀ sizes, (drain checks mem tx (len :: sizes)).map Prod.snd =
        res.bind fun tx' => ((drain checks mem tx' sizes).map Prod.snd).map (tx'.outBuffer ++ ·) := by
  refine ⟨(runTxLoop checks mem (2 * len + 2) false
    { tx with outBuffer := [], outBufferLen := len }).map Prod.fst,
    runTxLoop_ends hpos hd hc hm (2 * len + 2) false n _ (hat.newBuffer [] len)
      (fun hno => absurd hno Bool.false_ne_true) (Nat.le_refl _), fun sizes => ?_⟩
  have hturn : drain checks mem tx (len :: sizes) = (runTx checks mem tx len).bind fun x =>
      (drain checks mem x.1 sizes).bind fun y => .ok (y.1, x.2.1 ++ y.2) := rfl
  rw [hturn]
  unfold runTx
  cases runTxLoop checks mem (2 * len + 2) false { tx with outBuffer := [], outBufferLen := len } with
  | error e => rfl
  | ok out =>
    show Except.map Prod.snd ((drain checks mem out.1 sizes).bind fun y =>
      .ok (y.1, out.1.outBuffer ++ y.2)) =
        ((drain checks mem out.1 sizes).map Prod.snd).map (out.1.outBuffer ++ ·)
    cases drain checks mem out.1 sizes <;> rfl

theorem map_append_eq_ok {res : Except Panic (List Byte)} {as bs : List Byte} :
    res.map (as ++ ·) = .ok (as ++ bs) ↔ res = .ok bs := by
  cases res with
  | error e => exact ⟨nofun, nofun⟩
  | ok cs =>
    constructor
    · intro heq
      exact congrArg Except.ok (List.append_cancel_left (Except.ok.inj heq))
    · rintro heq
      cases heq
      rfl

/-- Behind a skipped run the wrong byte is next. -/
theorem drain_skipped (hpos : 0 < payload.length) (hd : c ≠ .default)
    (hc : c = .off ∨ payload.length = 1) (hm : payload = (List.range payload.length).map (mem p))
    (hat : Tx.At c p payload n tx) {len : Nat} (hlen : 0 < len) {b : Byte} {rest : List Byte}
    (hnext : (encodeFrame c.stored payload).drop n = b :: rest) (hoff : c = .off)
    (checks : Bool) (sizes : List Nat) {bs : List Byte}
    (hdrain : (drain checks mem tx (len :: sizes)).map Prod.snd = .ok bs) :
    ∃ rest, bs = b :: rest := by
  obtain ⟨res, hends, hcons⟩ := runTx_ends hpos hd hc hm hat checks len
  rw [hcons] at hdrain
  have hfirst : ∀ tx' : Tx π, tx'.outBuffer = [] ++ ((encodeFrame c.stored payload).drop n).take len →
      ((drain checks mem tx' sizes).map Prod.snd).map (tx'.outBuffer ++ ·) = .ok bs →
      ∃ rest, bs = b :: rest := by
    intro tx' hout hmap
    rw [hout, hnext, List.nil_append] at hmap
    obtain ⟨k, rfl⟩ : ∃ k, len = k + 1 := ⟨len - 1, by omega⟩
    cases hrest : (drain checks mem tx' sizes).map Prod.snd with
    | error e =>
      rw [hrest] at hmap
      cases hmap
    | ok cs =>
      rw [hrest] at hmap
      exact ⟨_, (Except.ok.inj hmap).symm⟩
  cases hends with
  | fills hat' hout => exact hfirst _ hout hdrain
  | skips more hat' hout => exact hfirst _ hout hdrain
  | derails hno => exact absurd hoff hno

/-- From a place of the frame on, the next bytes of the frame are written exactly if no run is
cut and the end of the check field is not reached. -/
theorem drain_iff (hpos : 0 < payload.length) (hd : c ≠ .default)
    (hc : c = .off ∨ payload.length = 1) (hm : payload = (List.range payload.length).map (mem p)) :
    ∀ (sizes : List Nat) (n : Nat) (tx : Tx π), Tx.At c p payload n tx → (∀ len ∈ sizes, 0 < len) →
      ((drain checks mem tx sizes).map Prod.snd =
          .ok (((encodeFrame c.stored payload).drop n).take (room sizes)) ↔
        (c = .off ∨ sizes = [] ∨ n + room sizes < (encodeFrame c.stored payload).length) ∧
          ¬Splits payload n sizes)
  | [], n, tx, hat, _ => ⟨fun _ => ⟨.inr (.inl rfl), id⟩, fun _ => rfl⟩
  | len :: sizes, n, tx, hat, hsizes => by
    have hlen : 0 < len := hsizes len (List.mem_cons_self ..)
    have hrest : ∀ l ∈ sizes, 0 < l := fun l hl => hsizes l (List.mem_cons_of_mem _ hl)
    obtain ⟨res, hends, hcons⟩ := runTx_ends hpos hd hc hm hat checks len
    rw [hcons, room_cons, List.take_add, List.drop_drop]
    cases hends with
    | @fills tx' hat' hout =>
      have hout' : tx'.outBuffer = ((encodeFrame c.stored payload).drop n).take len := hout
      have hgo := drain_iff hpos hd hc hm sizes (n + len) tx' hat' hrest
      show Except.map (tx'.outBuffer ++ ·) _ = _ ↔ _
      rw [hout', map_append_eq_ok, hgo, Nat.add_assoc]
      have hnot : ¬InsideRun payload (n + len) := hat'.not_insideRun
      have hmore : c = .off ∨ n + len < (encodeFrame c.stored payload).length := by
        rcases hat'.not_done with hoff | hleft
        · exact .inl hoff
        · exact .inr (Nat.lt_of_not_le fun hle => hleft (List.drop_eq_nil_of_le hle))
      have hends : (c = .off ∨ sizes = [] ∨
          n + (len + room sizes) < (encodeFrame c.stored payload).length) ↔
          (c = .off ∨ len :: sizes = [] ∨
            n + (len + room sizes) < (encodeFrame c.stored payload).length) := by
        constructor
        · rintro (hoff | rfl | hlt)
          · exact .inl hoff
          · exact hmore.imp id fun hlt => .inr hlt
          · exact .inr (.inr hlt)
        · rintro (hoff | hnil | hlt)
          · exact .inl hoff
          · cases hnil
          · exact .inr (.inr hlt)
      have hsplits : Splits payload (n + len) sizes ↔ Splits payload n (len :: sizes) :=
        ⟨.inr, fun h => h.resolve_left fun hin => hnot hin.2⟩
      rw [hends, hsplits]
    | @skips tx' more hat' hout hinside hnext =>
      have hout' : tx'.outBuffer = ((encodeFrame c.stored payload).drop n).take len := hout
      have hinside' : InsideRun payload (n + len) := hinside
      have hoff : c = .off := hc.resolve_right fun hone => not_insideRun_one hone hinside'
      show Except.map (tx'.outBuffer ++ ·) _ = _ ↔ _
      rw [hout', map_append_eq_ok]
      cases sizes with
      | nil => exact ⟨fun _ => ⟨.inl hoff, fun hsplit => hsplit.elim (fun hno => hno.1 rfl) id⟩,
        fun _ => rfl⟩
      | cons next sizes =>
        refine ⟨fun hdrain => ?_, fun hno => absurd (.inl ⟨nofun, hinside'⟩) hno.2⟩
        obtain ⟨b, rest, hdrop, hspec⟩ := hnext
        obtain ⟨b', rest', hplain, hnot⟩ := InsideRun.head (c := c.stored) hinside'
        obtain ⟨tail, htail⟩ := drain_skipped hpos hd hc hm hat' (hrest next (List.mem_cons_self ..))
          hdrop hoff checks sizes hdrain
        obtain ⟨k, hk⟩ : ∃ k, next = k + 1 :=
          ⟨next - 1, by have := hrest next (List.mem_cons_self ..); omega⟩
        rw [hplain, room_cons, hk, Nat.add_right_comm, List.take_succ_cons] at htail
        exact absurd ((List.cons.inj htail).1 ▸ hspec) hnot
    | derails hno hlast hres =>
      have hlast' : ((encodeFrame c.stored payload).drop n).length ≤ len := hlast
      constructor
      · intro hdrain
        cases res with
        | error e => cases hdrain
        | ok tx' =>
          obtain ⟨bs, hout, hdiffer⟩ := hres tx' rfl
          have hout' : tx'.outBuffer = bs := hout
          cases hmap : (drain checks mem tx' sizes).map Prod.snd with
          | error e =>
            rw [show (Except.ok tx').bind _ = Except.map _ _ from rfl, hmap] at hdrain
            cases hdrain
          | ok cs =>
            rw [show (Except.ok tx').bind _ = Except.map _ _ from rfl, hmap] at hdrain
            refine absurd ?_ (hdiffer.append_ne cs)
            rw [← hout']
            have heq := Except.ok.inj hdrain
            rw [List.take_of_length_le hlast', ← List.drop_drop, List.drop_eq_nil_of_le hlast',
              List.take_nil, List.append_nil] at heq
            exact heq
      · rintro ⟨hoff | hnil | hlt, -⟩
        · exact absurd hoff hno
        · cases hnil
        · rw [List.length_drop] at hlast'
          omega

/-! ## Against the C transmitter -/

/-- A transmitter without a frame. -/
def Tx.Idle (tx : Tx π) : Prop := tx.state = .sendStart ∧ tx.sendInProgress = false

/-- The buffers for which both transmitters write the same bytes. -/
def SameBytes (c : HdlcCrc) (payload : List Byte) (sizes : List Nat) : Prop :=
  sizes = [] ∨ (c = .off ∧ ¬Splits payload 0 sizes) ∨
    (payload.length = 1 ∧ room sizes < (encodeFrame c.stored payload).length)

/-- The slice is too short for the payload. -/
theorem drain_panics (hs : tx.state = .sendStart) (hp : tx.sendInProgress = true)
    (hd : tx.crcType ≠ .default) (hoff : tx.crcType ≠ .off) (hlen : 1 < tx.len) {len : Nat}
    (hroom : 0 < len) (sizes : List Nat) :
    drain checks mem tx (len :: sizes) = .error .indexOutOfBounds := by
  have hcrc : ∀ (old : BitVec 32) (b : Byte),
      txCrc tx.crcType old [b] tx.len = .error .indexOutOfBounds := by
    intro old b
    have hshort : [b].length < tx.len := hlen
    cases hc : tx.crcType with
    | default => exact absurd hc hd
    | off => exact absurd hc hoff
    | crc8 => exact congrArg (Except.map _) (sumBytes_panics hshort Crc8.new)
    | crc16 => exact congrArg (Except.map _) (sumBytes_panics hshort Crc16.new)
    | crc32 => exact congrArg (Except.map _) (sumBytes_panics hshort Crc32.new)
  obtain ⟨tx', htx'⟩ : ∃ t : Tx π, t = { tx with outBuffer := [], outBufferLen := len } := ⟨_, rfl⟩
  have hcall : txStateCall checks mem tx' = .error .indexOutOfBounds := by
    rw [htx']
    unfold txStateCall sendStart
    rw [show ({ tx with outBuffer := [], outBufferLen := len } : Tx π).state = .sendStart from hs]
    dsimp only
    rw [if_neg (by rw [hp]; nofun), hcrc]
    rfl
  have hloop : runTxLoop checks mem (2 * len + 2) false tx' = .error .indexOutOfBounds := by
    unfold runTxLoop
    rw [if_neg (by rw [htx']; exact Nat.ne_of_gt hroom), hcall]
    rfl
  unfold drain runTx
  rw [← htx', hloop]
  rfl

/-- A frame that was put is written as the C transmitter writes it in these cases only. -/
theorem drain_put_iff (hidle : tx.Idle) (hd : tx.crcType ≠ .default) (data : π) {len : Nat}
    (hlen : 0 < len) {sizes : List Nat} (hpos : ∀ len ∈ sizes, 0 < len) :
    (drain checks mem (tx.put data len).1 sizes).map Prod.snd = .ok
        ((encodeFrame tx.crcType.stored ((List.range len).map (mem data))).take (room sizes)) ↔
      SameBytes tx.crcType ((List.range len).map (mem data)) sizes := by
  obtain ⟨payload, hpayload⟩ : ∃ payload, (List.range len).map (mem data) = payload := ⟨_, rfl⟩
  have hplen : payload.length = len := by
    rw [← hpayload]
    simp
  have hm : payload = (List.range payload.length).map (mem data) := by
    rw [hplen]
    exact hpayload.symm
  have hput : (tx.put data len).1 =
      { tx with originData := some data, data := 0, len := len, sendInProgress := true } := by
    unfold Tx.put
    rw [if_neg (by rw [hidle.2]; nofun), if_neg (Nat.ne_of_gt hlen)]
  have hat : Tx.At tx.crcType data payload 0 (tx.put data len).1 := by
    rw [hput]
    exact .start hidle.1 rfl rfl rfl rfl hplen.symm
  rw [hpayload]
  unfold SameBytes
  by_cases hc : tx.crcType = .off ∨ payload.length = 1
  · have hiff := @drain_iff _ _ checks _ _ _ (by omega) hd hc hm sizes 0 _ hat hpos
    rw [List.drop_zero, Nat.zero_add] at hiff
    rw [hiff]
    constructor
    · rintro ⟨hoff | hnil | hlt, hsplit⟩
      · exact .inr (.inl ⟨hoff, hsplit⟩)
      · exact .inl hnil
      · rcases hc with hoff | hone
        · exact .inr (.inl ⟨hoff, hsplit⟩)
        · exact .inr (.inr ⟨hone, hlt⟩)
    · rintro (rfl | ⟨hoff, hsplit⟩ | ⟨hone, hlt⟩)
      · exact ⟨.inr (.inl rfl), id⟩
      · exact ⟨.inl hoff, hsplit⟩
      · exact ⟨.inr (.inr hlt), not_splits_one hone sizes 0⟩
  · obtain ⟨hoff, hone⟩ := not_or.mp hc
    cases sizes with
    | nil => exact ⟨fun _ => .inl rfl, fun _ => rfl⟩
    | cons size sizes =>
      have hpanic : drain checks mem (tx.put data len).1 (size :: sizes) =
          .error .indexOutOfBounds := by
        have hstart : (tx.put data len).1.state = .sendStart := by
          rw [hput]
          exact hidle.1
        rw [hput] at hstart ⊢
        exact drain_panics hstart rfl hd hoff (show 1 < len by omega)
          (hpos size (List.mem_cons_self ..)) sizes
      rw [hpanic]
      constructor
      · nofun
      · rintro (hnil | ⟨hyes, -⟩ | ⟨hyes, -⟩)
        · cases hnil
        · exact absurd hyes hoff
        · exact absurd hyes hone

/-- The loop of `Tx::run_tx` ends, and both transmitters write the same bytes into the same
buffers, the Rust one without a panic, in these cases only. -/
theorem run_tx_agrees_iff {h : HdlcLl π} (hr : h.Reachable mem) (hnone : h.tx.originData = none)
    (hidle : tx.Idle) (hd : tx.crcType ≠ .default) (hsame : h.crcType = tx.crcType.stored)
    (checks : Bool) (data : π) {len : Nat} (hlen : 0 < len) {sizes : List Nat}
    (hpos : ∀ len ∈ sizes, 0 < len) :
    (∀ (tx : Tx π) (size fuel : Nat), 2 * size + 2 ≤ fuel →
      runTxLoop checks mem fuel false { tx with outBuffer := [], outBufferLen := size } =
        runTxLoop checks mem (2 * size + 2) false
          { tx with outBuffer := [], outBufferLen := size }) ∧
    ((drain checks mem (tx.put data len).1 sizes).map Prod.snd =
        .ok (Hdlc.drain mem (hdlcLlPutFrame h data len).1 sizes).2 ↔
      SameBytes tx.crcType ((List.range len).map (mem data)) sizes) := by
  constructor
  · intro tx size fuel hf
    induction fuel with
    | zero => omega
    | succ fuel ih =>
      by_cases hlast : 2 * size + 2 = fuel + 1
      · rw [hlast]
      · have hle : 2 * size + 2 ≤ fuel := by omega
        exact (runTxLoop_stops fuel false _ hle).trans (ih hle)
  · have hi := hr.inv
    obtain ⟨-, hcrc, hpend⟩ := pending_putFrame hi hnone data hlen
    obtain ⟨-, -, hout, -⟩ := drain_spec (hi.putFrame data len) sizes
    rw [hout, hpend, hsame]
    exact drain_put_iff hidle hd data hlen hpos

/-- A handle without a check field. -/
def plainHandle : HdlcLl (List Byte) where
  rxBuf := fun _ => 0
  rxBufSize := 24
  crcType := .default
  physMtu := 12
  rx := Hdlc.Rx.idle
  tx := Hdlc.Tx.idle

theorem plainHandle_reachable {mem : List Byte → Nat → Byte} : plainHandle.Reachable mem :=
  @HdlcLl.Reachable.init _ _ .linux64 { buf := 4096, bufSize := 160, crcType := .off, mtu := 8 }
    4096 _ rfl

theorem run_tx_agrees_iff_parts :
    (∀ (tx : Tx (List Byte)) (size fuel : Nat), 2 * size + 2 ≤ fuel →
      runTxLoop true bufferMem fuel false { tx with outBuffer := [], outBufferLen := size } =
        runTxLoop true bufferMem (2 * size + 2) false
          { tx with outBuffer := [], outBufferLen := size }) ∧
    ((drain true bufferMem ((Tx.new .off).put [0x7F, 0x7E, 0x7D, 0x00] 4).1 [5, 5]).map Prod.snd =
        .ok (Hdlc.drain bufferMem (hdlcLlPutFrame plainHandle [0x7F, 0x7E, 0x7D, 0x00] 4).1 [5, 5]).2 ↔
      SameBytes .off ((List.range 4).map (bufferMem [0x7F, 0x7E, 0x7D, 0x00])) [5, 5]) :=
  run_tx_agrees_iff plainHandle_reachable rfl ⟨rfl, rfl⟩ (by decide) rfl true _ (by decide) (by decide)

/-- A run that is cut is not continued, and a payload of two bytes panics where a check field
is asked for. -/
theorem run_tx_disagrees :
    (drain true bufferMem ((Tx.new .off).put [1, 2, 3, 4, 5] 5).1 [3, 5]).map Prod.snd =
        .ok [0x7E, 1, 2, 0x7E] ∧
      (Hdlc.drain bufferMem (hdlcLlPutFrame plainHandle [1, 2, 3, 4, 5] 5).1 [3, 5]).2 =
        [0x7E, 1, 2, 3, 4, 5, 0x7E] ∧
      (drain true bufferMem ((Tx.new .crc16).put [1, 2] 2).1 [16]).map Prod.snd =
        .error .indexOutOfBounds ∧
      (Hdlc.drain bufferMem (hdlcLlPutFrame exampleHandle [1, 2] 2).1 [16]).2 =
        encodeFrame .crc16 [1, 2] := by
  decide +kernel

end TinyProto.Rust
