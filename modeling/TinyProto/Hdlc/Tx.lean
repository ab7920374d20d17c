import TinyProto.Hdlc.LowLevel

/-!
# The transmitter

`hdlc_ll_send_start` to `hdlc_ll_run_tx`.  A state function returns the handle,
the number the C function returns and the frame it reported to `on_frame_send`,
if it completed one.  None of the state functions returns an error.

The driver loop runs on fuel.  A state call that writes nothing is followed by one
that does or by the end of the loop, so the buffer length and a few calls more
are enough (`runTxLoop_spec`).
-/

namespace TinyProto.Hdlc

variable {π : Type}

/-! ## State functions -/

/-- The result of a `tx.state` call. -/
structure TxStep (π : Type) where
  tx : Tx π
  result : Nat
  /-- Pointer and length given to `on_frame_send`. -/
  sent : Option (π × Nat)

/-- The byte `tx.data[i]`. -/
def Tx.byteAt (mem : π → Nat → Byte) (tx : Tx π) (i : Nat) : Byte :=
  match tx.originData with
  | some p => mem p (tx.data + i)
  | none => 0

/-- The bytes `tx.data[0 .. tx.len)`. -/
def Tx.bytes (mem : π → Nat → Byte) (tx : Tx π) : List Byte :=
  (List.range tx.len).map (tx.byteAt mem)

/-- `hdlc_ll_send_tx_internal`: as many of the bytes as the output buffer takes. -/
def sendTxInternal (tx : Tx π) (data : List Byte) : Tx π × Nat :=
  let sent := min data.length tx.outBufferLen
  ({ tx with
      outBuffer := tx.outBuffer ++ data.take sent
      outBufferLen := tx.outBufferLen - sent }, sent)

/-- The check field over the data, as `hdlc_ll_send_start` computes it. -/
def txCrc (crcType : HdlcCrc) (old : BitVec 32) (data : List Byte) : BitVec 32 :=
  match crcType with
  | .crc16 => (tinyCrc16 pppInitFcs16 data).setWidth 32
  | .crc32 => tinyCrc32 pppInitFcs32 data
  | .crc8 => (tinyChksum initChecksum data).setWidth 32
  | _ => old

/-- `hdlc_ll_send_start`. -/
def sendStart (crcType : HdlcCrc) (mem : π → Nat → Byte) (tx : Tx π) : TxStep π :=
  if tx.originData.isNone then { tx := tx, result := 0, sent := none }
  else
    let tx := { tx with crc := txCrc crcType tx.crc (tx.bytes mem) }
    let (tx, result) := sendTxInternal tx [flagSequence]
    if result = 1 then
      { tx := { tx with state := .sendData, escape := false }, result := result, sent := none }
    else { tx := tx, result := result, sent := none }

/-- The scan of `hdlc_ll_send_data` for the next byte that needs escaping.  The
byte at `pos` is read before `pos` is compared with the length, so the scan of a
run that reaches the end reads one byte past it.  `k` is what is left of the
length. -/
def literalRun (rd : Nat → Byte) (k pos : Nat) : Nat :=
  if rd pos ≠ flagSequence ∧ rd pos ≠ escapeChar then
    match k with
    | 0 => pos
    | k + 1 => literalRun rd k (pos + 1)
  else pos

/-- `hdlc_ll_send_data`. -/
def sendData (mem : π → Nat → Byte) (tx : Tx π) : TxStep π :=
  let pos := literalRun (tx.byteAt mem) tx.len 0
  let (tx, result) :=
    if pos ≠ 0 then
      let (tx', result) := sendTxInternal tx ((tx.bytes mem).take pos)
      ({ tx' with data := tx'.data + result, len := tx'.len - result }, result)
    else
      let byte := if tx.escape then tx.byteAt mem 0 ^^^ escapeBit else escapeChar
      let (tx', result) := sendTxInternal tx [byte]
      if result > 0 then
        let tx' := { tx' with escape := !tx'.escape }
        (if tx'.escape then tx' else { tx' with data := tx'.data + 1, len := tx'.len - 1 }, result)
      else (tx', result)
  { tx := if tx.len = 0 then { tx with state := .sendCrc } else tx, result := result, sent := none }

/-- `hdlc_ll_send_crc`.  While the check field is sent, `tx.len` counts its bits. -/
def sendCrc (crcType : HdlcCrc) (tx : Tx π) : TxStep π :=
  if tx.len = crcType.value then
    { tx := { tx with state := .sendEnd }, result := 1, sent := none }
  else
    let byte := (tx.crc >>> tx.len).setWidth 8
    if byte ≠ escapeChar ∧ byte ≠ flagSequence then
      let (tx', result) := sendTxInternal tx [byte]
      { tx := if result = 1 then { tx' with len := tx'.len + 8 } else tx'
        result := result, sent := none }
    else
      let byte := if tx.escape then byte ^^^ escapeBit else escapeChar
      let (tx', result) := sendTxInternal tx [byte]
      if result = 1 then
        let tx' := { tx' with escape := !tx'.escape }
        { tx := if tx'.escape then tx' else { tx' with len := tx'.len + 8 }
          result := result, sent := none }
      else { tx := tx', result := result, sent := none }

/-- `hdlc_ll_send_end`. -/
def sendEnd (tx : Tx π) : TxStep π :=
  let (tx', result) := sendTxInternal tx [flagSequence]
  if result = 1 then
    { tx := { tx' with state := .sendStart, escape := false, originData := none, data := 0 }
      result := result
      sent := tx.originData.map fun p => (p, tx.data) }
  else { tx := tx', result := result, sent := none }

/-- The call through `tx.state`. -/
def txStateCall (crcType : HdlcCrc) (mem : π → Nat → Byte) (tx : Tx π) : TxStep π :=
  match tx.state with
  | .sendStart => sendStart crcType mem tx
  | .sendData => sendData mem tx
  | .sendCrc => sendCrc crcType tx
  | .sendEnd => sendEnd tx

/-! ## The driver -/

/-- The loop of `hdlc_ll_run_tx`.  `repeatedEmptyData` is set once a state
function has produced nothing. -/
def runTxLoop (crcType : HdlcCrc) (mem : π → Nat → Byte) :
    Nat → Bool → Tx π → Tx π × List (π × Nat)
  | 0, _, tx => (tx, [])
  | fuel + 1, repeatedEmptyData, tx =>
      if tx.outBufferLen = 0 then (tx, [])
      else
        let r := txStateCall crcType mem tx
        if r.result = 0 ∧ repeatedEmptyData then (r.tx, r.sent.toList)
        else
          let (tx', sent) := runTxLoop crcType mem fuel (r.result = 0) r.tx
          (tx', r.sent.toList ++ sent)

/-- `hdlc_ll_run_tx` with an output buffer of `len` bytes: the handle, the bytes
written and the frames reported to `on_frame_send`. -/
def hdlcLlRunTx (mem : π → Nat → Byte) (h : HdlcLl π) (len : Nat) :
    HdlcLl π × List Byte × List (π × Nat) :=
  let tx := { h.tx with outBuffer := [], outBufferLen := len }
  let (tx, sent) := runTxLoop h.crcType mem (len + 4) false tx
  ({ h with tx := tx }, tx.outBuffer, sent)

end TinyProto.Hdlc
