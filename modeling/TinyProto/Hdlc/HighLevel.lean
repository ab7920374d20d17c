import TinyProto.Hdlc.Progress

/-!
# The high level

The sending half of `proto/hdlc/high_level/hdlc.c` without multithread mode.  The answers of
`send_tx` and the readings of `tiny_millis` come from lists, in the order they are asked for,
and a call that needs one more has not returned yet.

The end of a frame is signalled by `TX_DATA_SENT_BIT`, which the next `hdlc_send` that waits
takes for its own.  A success means that the frame was sent if and only if the bit was clear
when `hdlc_send` was called (`send_success_iff`).
-/

namespace TinyProto.HighLevel

open Hdlc

variable {π : Type}

/-! ## The handle -/

/-- `hdlc_struct_t`, with the event bits of the transmission. -/
structure HdlcStruct (π : Type) where
  handle : HdlcLl π
  /-- `TX_ACCEPT_BIT`. -/
  txAccept : Bool
  /-- `TX_DATA_READY_BIT`. -/
  txDataReady : Bool
  /-- `TX_DATA_SENT_BIT`. -/
  txDataSent : Bool

/-- `hdlc_reset`. -/
def hdlcReset (hdlc : HdlcStruct π) : HdlcStruct π :=
  { handle := hdlcLlReset hdlc.handle .both, txAccept := true, txDataReady := false,
    txDataSent := false }

/-- `hdlc_init`. -/
def hdlcInit (sz : StructSizes) (init : HdlcLlInit) : Except Status (HdlcStruct π) :=
  match hdlcLlInit sz init with
  | .error e => .error e
  | .ok (_, handle) =>
      .ok (hdlcReset { handle := handle, txAccept := true, txDataReady := false,
                       txDataSent := false })

/-- `on_frame_send`, for the frames the low level reports. -/
def onFrameSend (hdlc : HdlcStruct π) (sent : List (π × Nat)) : HdlcStruct π :=
  if sent.isEmpty then hdlc else { hdlc with txDataSent := true, txAccept := true }

/-- `hdlc_send_terminate`. -/
def hdlcSendTerminate (hdlc : HdlcStruct π) : HdlcStruct π :=
  { hdlc with handle := hdlcLlReset hdlc.handle .txOnly, txDataReady := false, txAccept := true }

/-- `hdlc_ll_run_tx` with `on_frame_send` behind it. -/
def runLowLevel (mem : π → Nat → Byte) (hdlc : HdlcStruct π) (len : Nat) :
    HdlcStruct π × List Byte :=
  let (handle, data, sent) := hdlcLlRunTx mem hdlc.handle len
  (onFrameSend { hdlc with handle := handle } sent, data)

/-! ## The callback -/

/-- What `send_tx` and `tiny_millis` are going to answer. -/
structure Answers where
  sendTx : List Int
  millis : List (BitVec 32)

/-- How the loop around `send_tx` ends. -/
structure Offered where
  /-- What is left to send, or the error. -/
  left : Int
  /-- The sum of the answers. -/
  total : Int
  /-- The bytes that were accepted. -/
  accepted : List Byte
  sendTx : List Int

/-- The loop around `send_tx`, which offers the bytes until they are accepted or refused. -/
def offer (buf : List Byte) : List Int → Int → Option Offered
  | [], left =>
      if 0 < left then none else some { left := left, total := 0, accepted := [], sendTx := [] }
  | temp :: sendTx, left =>
      if 0 < left then
        if temp < 0 then some { left := temp, total := 0, accepted := [], sendTx := sendTx }
        else
          (offer buf sendTx (left - temp)).map fun r =>
            { r with total := temp + r.total, accepted := buf.take temp.toNat ++ r.accepted }
      else some { left := left, total := 0, accepted := [], sendTx := temp :: sendTx }

/-! ## Calls -/

/-- What a call leaves when it has returned. -/
structure Returned (π : Type) where
  hdlc : HdlcStruct π
  result : Int
  /-- The bytes that `send_tx` accepted. -/
  accepted : List Byte
  answers : Answers

/-- `hdlc_run_tx`.  The loop ends after its first turn, because nothing is left to send then. -/
def hdlcRunTx (mem : π → Nat → Byte) (hdlc : HdlcStruct π) (answers : Answers) :
    Option (Returned π) :=
  let (hdlc, buf) := runLowLevel mem hdlc 1
  match offer buf answers.sendTx buf.length with
  | none => none
  | some r =>
      some { hdlc := hdlc, result := if r.total = 0 then r.left else r.total,
             accepted := r.accepted, answers := { answers with sendTx := r.sendTx } }

/-- `hdlc_get_tx_data` with a buffer of `len` bytes. -/
def hdlcGetTxData (mem : π → Nat → Byte) (hdlc : HdlcStruct π) (len : Int) :
    HdlcStruct π × Int × List Byte :=
  if len < 0 then (hdlc, Status.invalidData.code, [])
  else
    let (hdlc, data) := runLowLevel mem hdlc len.toNat
    (hdlc, data.length, data)

/-- The loop of `hdlc_run_tx_until_sent`. -/
def runTxUntilSentLoop (mem : π → Nat → Byte) (timeout ts : BitVec 32) (hdlc : HdlcStruct π)
    (sendTx : List Int) (millis : List (BitVec 32)) : Option (Returned π) :=
  let (hdlc, buf) := runLowLevel mem hdlc 1
  match offer buf sendTx buf.length with
  | none => none
  | some r =>
      let answers : Answers := { sendTx := r.sendTx, millis := millis }
      if r.left < 0 then
        some { hdlc := hdlcSendTerminate hdlc, result := r.left, accepted := r.accepted,
               answers := answers }
      else if hdlc.txDataSent then
        some { hdlc := { hdlc with txDataSent := false }, result := Status.success.code,
               accepted := r.accepted, answers := answers }
      else
        match millis with
        | [] => none
        | now :: millis =>
            if now - ts ≥ timeout ∧ timeout ≠ 0xFFFFFFFF then
              some { hdlc := hdlcSendTerminate hdlc, result := Status.timeout.code,
                     accepted := r.accepted, answers := { sendTx := r.sendTx, millis := millis } }
            else
              (runTxUntilSentLoop mem timeout ts hdlc r.sendTx millis).map fun s =>
                { s with accepted := r.accepted ++ s.accepted }

/-- `hdlc_run_tx_until_sent`. -/
def hdlcRunTxUntilSent (mem : π → Nat → Byte) (hdlc : HdlcStruct π) (timeout : BitVec 32)
    (answers : Answers) : Option (Returned π) :=
  match answers.millis with
  | [] => none
  | ts :: millis => runTxUntilSentLoop mem timeout ts hdlc answers.sendTx millis

/-- `hdlc_put`.  Without multithread mode nobody sets the bit it waits for. -/
def hdlcPut (hdlc : HdlcStruct π) (data : π) (len : Int) (timeout : BitVec 32) :
    Option (HdlcStruct π × Status) :=
  if len ≤ 0 then some (hdlc, .invalidData)
  else if hdlc.txAccept then
    some ({ hdlc with
      handle := (hdlcLlPutFrame hdlc.handle data len.toNat).1
      txAccept := false
      txDataReady := true }, .success)
  else if timeout = 0xFFFFFFFF then none
  else some (hdlc, .timeout)

/-- The first half of `hdlc_send`. -/
def putData (hdlc : HdlcStruct π) (data : Option π) (len : Int) (timeout : BitVec 32) :
    Option (HdlcStruct π × Status) :=
  match data with
  | none => some (hdlc, .success)
  | some data =>
      (hdlcPut hdlc data len timeout).map fun (hdlc, status) =>
        (hdlc, if status = .timeout then .busy else status)

/-- `hdlc_send`. -/
def hdlcSend (mem : π → Nat → Byte) (hdlc : HdlcStruct π) (data : Option π) (len : Int)
    (timeout : BitVec 32) (answers : Answers) : Option (Returned π) :=
  if len < 0 then
    some { hdlc := hdlc, result := Status.invalidData.code, accepted := [], answers := answers }
  else
    match putData hdlc data len timeout with
    | none => none
    | some (hdlc, status) =>
        if status.code ≥ 0 ∧ timeout ≠ 0 then hdlcRunTxUntilSent mem hdlc timeout answers
        else some { hdlc := hdlc, result := status.code, accepted := [], answers := answers }

/-- The calls of the sending half. -/
inductive Call (π : Type) where
  | send (data : Option π) (len : Int) (timeout : BitVec 32)
  | runTx
  | getTxData (len : Int)
  | reset

/-- What a call does, with the memory it finds. -/
def call (mem : π → Nat → Byte) (hdlc : HdlcStruct π) (answers : Answers) :
    Call π → Option (Returned π)
  | .send data len timeout => hdlcSend mem hdlc data len timeout answers
  | .runTx => hdlcRunTx mem hdlc answers
  | .getTxData len =>
      let (hdlc, result, _) := hdlcGetTxData mem hdlc len
      some { hdlc := hdlc, result := result, accepted := [], answers := answers }
  | .reset =>
      some { hdlc := hdlcReset hdlc, result := 0, accepted := [], answers := answers }

/-- The handles a program can have.  Between two calls the memory may change, also the one a
frame is read from. -/
inductive Reachable : HdlcStruct π → Prop where
  | init {sz : StructSizes} {init : HdlcLlInit} {hdlc : HdlcStruct π}
      (hi : hdlcInit sz init = .ok hdlc) : Reachable hdlc
  | call {hdlc : HdlcStruct π} (mem : π → Nat → Byte) (answers : Answers) (c : Call π)
      {r : Returned π} (hr : Reachable hdlc) (hret : call mem hdlc answers c = some r) :
      Reachable r.hdlc

variable {mem : π → Nat → Byte} {hdlc : HdlcStruct π} {p : π}

/-! ## The frame in progress -/

/-- What holds between two calls, whatever is in the memory: a frame is accepted only when no
other one is in progress. -/
structure Sound (hdlc : HdlcStruct π) : Prop where
  stored : hdlc.handle.crcType.stored = hdlc.handle.crcType
  rested : hdlc.handle.tx.Rested
  accept : hdlc.txAccept = true → hdlc.handle.tx.originData = none

theorem hdlcReset_sound (hc : hdlc.handle.crcType.stored = hdlc.handle.crcType) :
    Sound (hdlcReset hdlc) := ⟨hc, fun _ => rfl, fun _ => rfl⟩

theorem Sound.terminate (hs : Sound hdlc) : Sound (hdlcSendTerminate hdlc) :=
  ⟨hs.stored, fun _ => rfl, fun _ => rfl⟩

theorem Sound.runLowLevel (hs : Sound hdlc) (mem : π → Nat → Byte) (len : Nat) :
    Sound (runLowLevel mem hdlc len).1 := by
  obtain ⟨hrested, hpassed⟩ := runTx_passed hs.rested mem len
  have hstored := hs.stored
  unfold HighLevel.runLowLevel onFrameSend
  dsimp only
  rcases hpassed with ⟨hsent, ho⟩ | ⟨r, hsent, -, ho⟩
  · rw [hsent]
    exact ⟨hstored, hrested, fun ha => ho.trans (hs.accept ha)⟩
  · rw [hsent]
    exact ⟨hstored, hrested, fun _ => ho⟩

/-- How the loop ends: with an error, with the bit set, or behind another turn. -/
theorem runTxUntilSentLoop_cases {timeout ts : BitVec 32} {sendTx : List Int}
    {millis : List (BitVec 32)} {r : Returned π}
    (hr : runTxUntilSentLoop mem timeout ts hdlc sendTx millis = some r) :
    ∃ o, offer (runLowLevel mem hdlc 1).2 sendTx (runLowLevel mem hdlc 1).2.length = some o ∧
      (r.result < 0 ∧ r.hdlc = hdlcSendTerminate (runLowLevel mem hdlc 1).1 ∨
        0 ≤ o.left ∧ (runLowLevel mem hdlc 1).1.txDataSent = true ∧
          r.hdlc = { (runLowLevel mem hdlc 1).1 with txDataSent := false } ∧
          r.accepted = o.accepted ∨
        0 ≤ o.left ∧ (runLowLevel mem hdlc 1).1.txDataSent = false ∧ ∃ now rest s,
          millis = now :: rest ∧
          runTxUntilSentLoop mem timeout ts (runLowLevel mem hdlc 1).1 o.sendTx rest = some s ∧
          r = { s with accepted := o.accepted ++ s.accepted }) := by
  have hcode : Status.timeout.code < 0 := by decide
  unfold runTxUntilSentLoop at hr
  dsimp only at hr
  split at hr
  · cases hr
  · next o ho =>
    refine ⟨o, ho, ?_⟩
    split at hr
    · next hneg =>
      cases hr
      exact .inl ⟨hneg, rfl⟩
    · next hleft =>
      split at hr
      · next hset =>
        cases hr
        exact .inr (.inl ⟨Int.not_lt.mp hleft, hset, rfl, rfl⟩)
      · next hclear =>
        split at hr
        · cases hr
        · split at hr
          · cases hr
            exact .inl ⟨hcode, rfl⟩
          · obtain ⟨s, hs, rfl⟩ := Option.map_eq_some_iff.mp hr
            exact .inr (.inr ⟨Int.not_lt.mp hleft, eq_false_of_ne_true hclear, _, _, s, rfl, hs,
              rfl⟩)

theorem runTxUntilSentLoop_sound {hdlc : HdlcStruct π} {timeout ts : BitVec 32}
    {sendTx : List Int} {millis : List (BitVec 32)} {r : Returned π} (hs : Sound hdlc)
    (hr : runTxUntilSentLoop mem timeout ts hdlc sendTx millis = some r) : Sound r.hdlc := by
  have hturn := hs.runLowLevel mem 1
  obtain ⟨o, -, ⟨-, he⟩ | ⟨-, -, he, -⟩ | ⟨-, -, now, rest, s, hcons, hrec, rfl⟩⟩ :=
    runTxUntilSentLoop_cases hr
  · rw [he]
    exact hturn.terminate
  · rw [he]
    exact ⟨hturn.stored, hturn.rested, hturn.accept⟩
  · have hlt : rest.length < millis.length := by rw [hcons]; exact Nat.lt_succ_self _
    have hlast : Sound s.hdlc := runTxUntilSentLoop_sound hturn hrec
    exact hlast
termination_by millis.length

theorem Sound.put (hs : Sound hdlc) {data : π} {len : Int} {timeout : BitVec 32}
    {r : HdlcStruct π × Status} (hp : hdlcPut hdlc data len timeout = some r) : Sound r.1 := by
  unfold hdlcPut at hp
  split at hp
  · cases hp
    exact hs
  · next hlen =>
    split at hp
    · next ha =>
      cases hp
      have hpos : 0 < len.toNat := by omega
      rw [putFrame_idle (hs.accept ha) data hpos]
      exact ⟨hs.stored, .of_some rfl, fun hn => Bool.noConfusion hn⟩
    · split at hp
      · cases hp
      · cases hp
        exact hs

theorem Sound.putData (hs : Sound hdlc) {data : Option π} {len : Int} {timeout : BitVec 32}
    {r : HdlcStruct π × Status} (hp : putData hdlc data len timeout = some r) : Sound r.1 := by
  cases data with
  | none =>
    cases hp
    exact hs
  | some data =>
    obtain ⟨⟨k, status⟩, hput, rfl⟩ := Option.map_eq_some_iff.mp hp
    have hk : Sound k := hs.put hput
    exact hk

theorem Sound.send (hs : Sound hdlc) {data : Option π} {len : Int} {timeout : BitVec 32}
    {answers : Answers} {r : Returned π} (hr : hdlcSend mem hdlc data len timeout answers = some r) :
    Sound r.hdlc := by
  unfold hdlcSend at hr
  split at hr
  · cases hr
    exact hs
  · split at hr
    · cases hr
    · next hput =>
      have hs' := hs.putData hput
      split at hr
      · unfold hdlcRunTxUntilSent at hr
        split at hr
        · cases hr
        · exact runTxUntilSentLoop_sound hs' hr
      · cases hr
        exact hs'

theorem Sound.call (hs : Sound hdlc) {answers : Answers} {c : Call π} {r : Returned π}
    (hr : call mem hdlc answers c = some r) : Sound r.hdlc := by
  cases c with
  | send data len timeout => exact hs.send hr
  | runTx =>
    have hturn := hs.runLowLevel mem 1
    unfold HighLevel.call hdlcRunTx at hr
    dsimp only at hr
    split at hr
    · cases hr
    · cases hr
      exact hturn
  | getTxData len =>
    have hturn := hs.runLowLevel mem len.toNat
    have hdata : Sound (hdlcGetTxData mem hdlc len).1 := by
      unfold hdlcGetTxData
      split
      · exact hs
      · exact hturn
    cases hr
    exact hdata
  | reset =>
    cases hr
    exact hdlcReset_sound hs.stored

theorem Reachable.sound (hr : Reachable hdlc) : Sound hdlc := by
  induction hr with
  | init hi =>
    unfold hdlcInit at hi
    split at hi
    · cases hi
    · next hll =>
      cases hi
      refine hdlcReset_sound ?_
      obtain ⟨-, -, hc⟩ := hdlcLlInit_ok hll
      rw [hc, stored_stored]
  | call mem answers c _ hret ih => exact ih.call hret

/-! ## Waiting for the end of a frame -/

/-- A byte that is offered is accepted, or the loop ends with an error. -/
theorem offer_one (b : Byte) : ∀ {sendTx : List Int} {r : Offered},
    offer [b] sendTx 1 = some r → r.left < 0 ∨ r.left = 0 ∧ r.accepted = [b]
  | [], r, hr => by cases hr
  | temp :: sendTx, r, hr => by
    unfold offer at hr
    rw [if_pos Int.one_pos] at hr
    split at hr
    · next hneg =>
      cases hr
      exact .inl hneg
    · next hneg =>
      obtain ⟨s, hs, rfl⟩ := Option.map_eq_some_iff.mp hr
      by_cases hz : temp = 0
      · rw [hz, Int.sub_zero] at hs
        have hrest := offer_one b hs
        rw [hz]
        exact hrest
      · have hrest : ¬(0 : Int) < 1 - temp := by omega
        obtain ⟨k, hk⟩ : ∃ k, temp.toNat = k + 1 := ⟨temp.toNat - 1, by omega⟩
        have hleft : s.left = 1 - temp ∧ s.accepted = [] := by
          cases sendTx with
          | nil =>
            unfold offer at hs
            rw [if_neg hrest] at hs
            cases hs
            exact ⟨rfl, rfl⟩
          | cons =>
            unfold offer at hs
            rw [if_neg hrest] at hs
            cases hs
            exact ⟨rfl, rfl⟩
        dsimp only
        rw [hleft.1, hleft.2, hk]
        by_cases hone : temp = 1
        · exact .inr ⟨by omega, by rw [List.take_succ_cons, List.take_nil, List.append_nil]⟩
        · exact .inl (by omega)

/-- With a frame in progress the next byte of it is emitted, and its last one sets the bit. -/
theorem runLowLevel_one (ho : hdlc.handle.TxOk mem) (hp : hdlc.handle.tx.originData = some p) :
    ∃ k b rest, runLowLevel mem hdlc 1 = (k, [b]) ∧ hdlc.handle.pending mem = b :: rest ∧
      k.handle.pending mem = rest ∧ k.handle.TxOk mem ∧
      (k.txDataSent = hdlc.txDataSent ∧ k.handle.tx.originData = some p ∧ rest ≠ [] ∨
        k.txDataSent = true ∧ rest = []) := by
  obtain ⟨b, rest, hpend, hout, hrest, hok, hsent⟩ := runTx_one ho hp
  refine ⟨(runLowLevel mem hdlc 1).1, b, rest, ?_, hpend, ?_⟩
  · rw [← hout]
    rfl
  · unfold runLowLevel onFrameSend
    dsimp only
    rcases hsent with ⟨hs, hod, hne⟩ | ⟨hs, -, hnil⟩
    · rw [hs]
      exact ⟨hrest, hok, .inl ⟨rfl, hod, hne⟩⟩
    · rw [if_neg (by rw [List.isEmpty_iff]; exact hs)]
      exact ⟨hrest, hok, .inr ⟨rfl, hnil⟩⟩

/-- A loop that finds the bit clear ends with success when the whole frame is accepted. -/
theorem loop_sends {hdlc : HdlcStruct π} {timeout ts : BitVec 32} {sendTx : List Int}
    {millis : List (BitVec 32)} {r : Returned π} (ho : hdlc.handle.TxOk mem)
    (hp : hdlc.handle.tx.originData = some p)
    (hclear : hdlc.txDataSent = false)
    (hr : runTxUntilSentLoop mem timeout ts hdlc sendTx millis = some r) (hres : r.result = 0) :
    r.accepted = hdlc.handle.pending mem := by
  obtain ⟨k, b, rest, hturn, hpend, hrest, hok, hsent⟩ := runLowLevel_one ho hp
  have hcases := runTxUntilSentLoop_cases hr
  rw [hturn] at hcases
  obtain ⟨o, hoff, hcases⟩ := hcases
  rcases hcases with ⟨hneg, -⟩ | ⟨hleft, hset, -, hacc⟩ | ⟨hleft, hnot, _, later, s, hcons, hrec, rfl⟩
  · omega
  · rcases offer_one b hoff with hneg | ⟨-, hb⟩
    · omega
    · rcases hsent with ⟨hsame, -, -⟩ | ⟨-, hnil⟩
      · cases (hset.symm.trans hsame).trans hclear
      · rw [hacc, hb, hpend, hnil]
  · have hlt : later.length < millis.length := by rw [hcons]; exact Nat.lt_succ_self _
    rcases offer_one b hoff with hneg | ⟨-, hb⟩
    · omega
    · rcases hsent with ⟨-, hod, -⟩ | ⟨hset, -⟩
      · show o.accepted ++ s.accepted = _
        rw [hb, loop_sends hok hod hnot hrec hres, hpend, hrest]
        rfl
      · cases hnot.symm.trans hset
termination_by millis.length

/-- A loop that finds it set ends after one byte. -/
theorem loop_stale {timeout ts : BitVec 32} {sendTx : List Int} {millis : List (BitVec 32)}
    {r : Returned π} (ho : hdlc.handle.TxOk mem) (hp : hdlc.handle.tx.originData = some p)
    (hset : hdlc.txDataSent = true)
    (hr : runTxUntilSentLoop mem timeout ts hdlc sendTx millis = some r) (hres : r.result = 0) :
    r.accepted.length = 1 := by
  obtain ⟨k, b, rest, hturn, -, -, -, hsent⟩ := runLowLevel_one ho hp
  have hk : k.txDataSent = true := by
    rcases hsent with ⟨hsame, -, -⟩ | ⟨hk, -⟩
    · exact hsame.trans hset
    · exact hk
  have hcases := runTxUntilSentLoop_cases hr
  rw [hturn] at hcases
  obtain ⟨o, hoff, ⟨hneg, -⟩ | ⟨hleft, -, -, hacc⟩ | ⟨-, hnot, -⟩⟩ := hcases
  · omega
  · rcases offer_one b hoff with hneg | ⟨-, hb⟩
    · omega
    · rw [hacc, hb]
      rfl
  · cases hnot.symm.trans hk

/-- A success with data and a timeout comes from the loop, with the frame put. -/
theorem send_waits {data : π} {len : Int} {timeout : BitVec 32} (ht : timeout ≠ 0)
    {answers : Answers} {r : Returned π}
    (hret : call mem hdlc answers (.send (some data) len timeout) = some r) (hres : r.result = 0) :
    0 < len ∧ hdlc.txAccept = true ∧ ∃ k ts millis,
      k.handle = (hdlcLlPutFrame hdlc.handle data len.toNat).1 ∧
      k.txDataSent = hdlc.txDataSent ∧
      runTxUntilSentLoop mem timeout ts k answers.sendTx millis = some r := by
  have hinvalid : Status.invalidData.code ≠ 0 := by decide
  have hbusy : Status.busy.code ≠ 0 := by decide
  have hgate : Status.success.code ≥ 0 ∧ timeout ≠ 0 := ⟨by decide, ht⟩
  have hnone : ¬(Status.busy.code ≥ 0 ∧ timeout ≠ 0) := fun hn => absurd hn.1 (by decide)
  have hbad : ¬(Status.invalidData.code ≥ 0 ∧ timeout ≠ 0) := fun hn => absurd hn.1 (by decide)
  unfold call hdlcSend at hret
  dsimp only at hret
  split at hret
  · cases hret
    exact absurd hres hinvalid
  · next hlen =>
    unfold putData hdlcPut at hret
    dsimp only at hret
    by_cases hzero : len ≤ 0
    · rw [if_pos hzero] at hret
      simp only [Option.map_some, reduceCtorEq, if_false, if_neg hbad] at hret
      cases hret
      exact absurd hres hinvalid
    · rw [if_neg hzero] at hret
      cases ha : hdlc.txAccept with
      | true =>
        rw [ha] at hret
        simp only [if_true, Option.map_some, reduceCtorEq, if_false, if_pos hgate] at hret
        unfold hdlcRunTxUntilSent at hret
        split at hret
        · cases hret
        · exact ⟨Int.not_le.mp hzero, rfl,
            { hdlc with
              handle := (hdlcLlPutFrame hdlc.handle data len.toNat).1
              txAccept := false
              txDataReady := true }, _, _, rfl, rfl, hret⟩
      | false =>
        rw [ha] at hret
        simp only [Bool.false_eq_true, if_false] at hret
        split at hret
        · cases hret
        · next hput =>
          split at hput
          · cases hput
          · cases hput
            simp only [if_true, if_neg hnone] at hret
            cases hret
            exact absurd hres hbusy

/-- A success of `hdlc_send` with data and a timeout means that the whole frame was accepted if
and only if the bit was clear when it was called. -/
theorem send_success_iff (hr : Reachable hdlc) (mem : π → Nat → Byte) (data : π) (len : Int)
    {timeout : BitVec 32} (ht : timeout ≠ 0) (answers : Answers) {r : Returned π}
    (hret : call mem hdlc answers (.send (some data) len timeout) = some r)
    (hres : r.result = Status.success.code) :
    r.accepted = encodeFrame hdlc.handle.crcType ((List.range len.toNat).map (mem data)) ↔
      hdlc.txDataSent = false := by
  have hs := hr.sound
  obtain ⟨hlen, haccept, k, ts, millis, hhandle, hbit, hloop⟩ := send_waits ht hret hres
  have hpos : 0 < len.toNat := by omega
  obtain ⟨hok, hod, hpend⟩ := putFrame_pending hs.stored hs.rested (hs.accept haccept) mem data hpos
  rw [← hhandle] at hok hod hpend
  rw [← hbit]
  constructor
  · intro hwhole
    by_contra hset
    have hone := loop_stale hok hod (eq_true_of_ne_false hset) hloop hres
    rw [hwhole] at hone
    unfold encodeFrame at hone
    rw [List.length_cons, List.length_append, List.length_singleton] at hone
    omega
  · intro hclear
    rw [loop_sends hok hod hclear hloop hres]
    exact hpend

/-- A handle that was just initialised. -/
def exampleHdlc : HdlcStruct (List Byte) :=
  hdlcReset { handle := exampleHandle, txAccept := true, txDataReady := false, txDataSent := false }

theorem exampleHdlc_reachable : Reachable exampleHdlc :=
  @Reachable.init _ .linux64 { buf := 4096, bufSize := 160, crcType := .crc16, mtu := 8 } _ rfl

/-- A frame that is sent with a timeout, and accepted byte by byte. -/
theorem send_success_first :
    ∃ r, call bufferMem exampleHdlc { sendTx := [1, 0, 1, 1, 1, 1], millis := [7, 7, 8, 8, 9] }
      (.send (some [0x55]) 1 100) = some r ∧ r.accepted = [0x7E, 0x55, 0x50, 0xF5, 0x7E] := by
  have hret : (call bufferMem exampleHdlc
      { sendTx := [1, 0, 1, 1, 1, 1], millis := [7, 7, 8, 8, 9] }
      (.send (some [0x55]) 1 100)).map Returned.result = some 0 := by
    decide +kernel
  obtain ⟨r, hr, hres⟩ := Option.map_eq_some_iff.mp hret
  have ht : (100 : BitVec 32) ≠ 0 := by decide
  refine ⟨r, hr, ?_⟩
  rw [(send_success_iff exampleHdlc_reachable bufferMem [0x55] 1 ht _ hr hres).mpr rfl]
  decide +kernel

/-- A frame is put without waiting, and taken out with `hdlc_get_tx_data`.  The next one is
reported to be sent when its opening flag is. -/
theorem send_success_stale :
    ∃ (hdlc : HdlcStruct (List Byte)) (answers : Answers) (r : Returned (List Byte)),
      Reachable hdlc ∧ call bufferMem hdlc answers (.send (some [0x66]) 1 100) = some r ∧
        r.result = Status.success.code ∧ r.accepted = [0x7E] ∧
        r.accepted ≠ encodeFrame hdlc.handle.crcType ((List.range 1).map (bufferMem [0x66])) := by
  refine ⟨_, { sendTx := [1], millis := [0] }, _,
    .call bufferMem { sendTx := [], millis := [] } (.getTxData 16)
      (.call bufferMem { sendTx := [], millis := [] } (.send (some [0x55]) 1 0)
        exampleHdlc_reachable rfl) rfl, rfl, ?_, ?_, ?_⟩
  · decide +kernel
  · decide +kernel
  · decide +kernel

end TinyProto.HighLevel
