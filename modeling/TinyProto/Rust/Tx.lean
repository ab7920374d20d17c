import TinyProto.Hdlc.Tx
import TinyProto.Rust.LowLevel

/-!
# The Rust transmitter

`Tx::send_start` to `Tx::run_tx`.  A state function returns the transmitter, the number the
Rust function returns and the frame it reported to `on_frame_send`.  None of them returns an
error, but two can panic.  `checks` says whether the build checks arithmetic for overflow.
-/

namespace TinyProto.Rust

open Hdlc (flagSequence escapeChar escapeBit literalRun)

variable {π : Type}

/-! ## State functions -/

/-- The result of a call through `state`. -/
structure TxStep (π : Type) where
  tx : Tx π
  result : Nat
  /-- Pointer and length given to `on_frame_send`. -/
  sent : Option (π × Nat)

/-- The byte `*data.offset(i)`. -/
def Tx.byteAt (mem : π → Nat → Byte) (tx : Tx π) (i : Nat) : Byte :=
  match tx.originData with
  | some p => mem p (tx.data + i)
  | none => 0

/-- `Tx::send_tx_internal`. -/
def sendTxInternal (tx : Tx π) : List Byte → Tx π × Nat
  | [] => (tx, 0)
  | byte :: data =>
      if 0 < tx.outBufferLen then
        let (tx, sent) := sendTxInternal
          { tx with outBuffer := tx.outBuffer ++ [byte], outBufferLen := tx.outBufferLen - 1 } data
        (tx, sent + 1)
      else (tx, 0)

/-- The check field as `Tx::send_start` computes it, over a slice and its stated length. -/
def txCrc (crcType : HdlcCrc) (old : BitVec 32) (data : List Byte) (len : Nat) :
    Except Panic (BitVec 32) :=
  match crcType with
  | .crc8 => (Crc8.sumBytes Crc8.new data len).map fun crc => (Crc8.get crc).setWidth 32
  | .crc16 => (Crc16.sumBytes Crc16.new data len).map fun crc => (Crc16.get crc).setWidth 32
  | .crc32 => (Crc32.sumBytes Crc32.new data len).map fun crc => Crc32.get crc
  | _ => .ok old

/-- `Tx::send_start`.  The slice `&[*self.data]` has one byte. -/
def sendStart (mem : π → Nat → Byte) (tx : Tx π) : Except Panic (TxStep π) :=
  if tx.sendInProgress = false then .ok { tx := tx, result := 0, sent := none }
  else do
    let crc ← txCrc tx.crcType tx.crc [tx.byteAt mem 0] tx.len
    let (tx, result) := sendTxInternal { tx with crc := crc } [flagSequence]
    if result = 1 then
      .ok { tx := { tx with state := .sendData, escape := false }, result := result, sent := none }
    else .ok { tx := tx, result := result, sent := none }

/-- `Tx::send_data`.  The scan is the one of the C function.  The pointer moves by the whole
run, whatever was written of it. -/
def sendData (mem : π → Nat → Byte) (tx : Tx π) : TxStep π :=
  let pos := literalRun (tx.byteAt mem) tx.len 0
  let (tx, result) :=
    if pos > 0 then
      let (tx', result) := sendTxInternal tx ((List.range pos).map (tx.byteAt mem))
      (if result > 0 then { tx' with data := tx'.data + pos, len := tx'.len - pos } else tx', result)
    else
      let byte := if tx.escape then tx.byteAt mem 0 ^^^ escapeBit else escapeChar
      let (tx', result) := sendTxInternal tx [byte]
      if result > 0 then
        let tx' := { tx' with escape := !tx'.escape }
        (if tx'.escape then tx' else { tx' with data := tx'.data + 1, len := tx'.len - 1 }, result)
      else (tx', result)
  { tx := if tx.len = 0 then { tx with state := .sendCrc } else tx, result := result, sent := none }

/-- `x >> n`. -/
def shiftRight (checks : Bool) (x : BitVec 32) (n : Nat) : Except Panic (BitVec 32) :=
  if n < 32 then .ok (x >>> n)
  else if checks then .error .arithmeticOverflow
  else .ok (x >>> (n % 32))

/-- `Tx::send_crc`.  The length counts bits and is compared with a number of bytes. -/
def sendCrc (checks : Bool) (tx : Tx π) : Except Panic (TxStep π) :=
  if tx.len = getCrcFieldSize tx.crcType then
    .ok { tx := { tx with state := .sendEnd }, result := 0, sent := none }
  else do
    let crc ← shiftRight checks tx.crc tx.len
    let byte := crc.setWidth 8
    if byte ≠ escapeChar ∧ byte ≠ flagSequence then
      let (tx', result) := sendTxInternal tx [byte]
      .ok { tx := if result > 0 then { tx' with len := tx'.len + 8 } else tx'
            result := result, sent := none }
    else
      let byte := if tx.escape then byte ^^^ escapeBit else escapeChar
      let (tx', result) := sendTxInternal tx [byte]
      if result > 0 then
        let tx' := { tx' with escape := !tx'.escape }
        .ok { tx := if tx'.escape then tx' else { tx' with len := tx'.len + 8 }
              result := result, sent := none }
      else .ok { tx := tx', result := result, sent := none }

/-- `Tx::send_end`. -/
def sendEnd (tx : Tx π) : TxStep π :=
  let (tx', result) := sendTxInternal tx [flagSequence]
  if result > 0 then
    { tx := { tx' with state := .sendStart, sendInProgress := false, escape := false }
      result := result
      sent := tx.originData.map fun p => (p, tx.data) }
  else { tx := tx', result := result, sent := none }

/-- The call through `state`. -/
def txStateCall (checks : Bool) (mem : π → Nat → Byte) (tx : Tx π) : Except Panic (TxStep π) :=
  match tx.state with
  | .sendStart => sendStart mem tx
  | .sendData => .ok (sendData mem tx)
  | .sendCrc => sendCrc checks tx
  | .sendEnd => .ok (sendEnd tx)

/-! ## The driver -/

/-- The loop of `Tx::run_tx`. -/
def runTxLoop (checks : Bool) (mem : π → Nat → Byte) :
    Nat → Bool → Tx π → Except Panic (Tx π × List (π × Nat))
  | 0, _, tx => .ok (tx, [])
  | fuel + 1, repeatedEmptyData, tx =>
      if tx.outBufferLen = 0 then .ok (tx, [])
      else do
        let r ← txStateCall checks mem tx
        if r.result = 0 ∧ repeatedEmptyData then .ok (r.tx, r.sent.toList)
        else do
          let (tx', sent) ← runTxLoop checks mem fuel (r.result = 0) r.tx
          .ok (tx', r.sent.toList ++ sent)

/-- `Tx::run_tx` with an output buffer of `len` bytes: the transmitter, the bytes written and
the frames reported to `on_frame_send`. -/
def runTx (checks : Bool) (mem : π → Nat → Byte) (tx : Tx π) (len : Nat) :
    Except Panic (Tx π × List Byte × List (π × Nat)) := do
  let (tx, sent) ←
    runTxLoop checks mem (2 * len + 2) false { tx with outBuffer := [], outBufferLen := len }
  .ok (tx, tx.outBuffer, sent)

/-- `Tx::run_tx` called with one buffer size after another. -/
def drain (checks : Bool) (mem : π → Nat → Byte) : Tx π → List Nat →
    Except Panic (Tx π × List Byte)
  | tx, [] => .ok (tx, [])
  | tx, len :: sizes => do
      let (tx, out, _) ← runTx checks mem tx len
      let (tx, rest) ← drain checks mem tx sizes
      .ok (tx, out ++ rest)

end TinyProto.Rust
