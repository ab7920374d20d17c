import TinyProto.Hdlc.LowLevel

/-!
# The receiver

`hdlc_ll_read_start` to `hdlc_ll_run_rx`, and the loop around it that
`tiny_fd_on_rx_data` runs.  A state function returns the handle, the number the
C function returns (a negative number is an error) and the payload it passed to
`on_frame_read`, if it passed one.
-/

namespace TinyProto.Hdlc

variable {π : Type}

/-! ## State functions -/

/-- The result of a `rx.state` call. -/
structure RxStep (π : Type) where
  h : HdlcLl π
  result : Except Status Nat
  /-- The bytes given to `on_frame_read`. -/
  read : Option (List Byte)

/-- `hdlc_ll_read_start`. -/
def readStart (h : HdlcLl π) (data : List Byte) : RxStep π :=
  match data with
  | [] => { h := h, result := .ok 0, read := none }
  | byte :: _ =>
      if byte ≠ flagSequence then { h := h, result := .ok 1, read := none }
      else
        { h := { h with rx := { h.rx with
            escape := false, ptr := h.rx.activeFrameBuf, state := .readData } }
          result := .ok 1
          read := none }

/-- The loop body of `hdlc_ll_read_data` for a byte that is no flag. -/
def readDataByte (h : HdlcLl π) (byte : Byte) : HdlcLl π :=
  if byte = escapeChar then { h with rx := { h.rx with escape := true } }
  else if h.rx.ptr - h.rx.activeFrameBuf < h.physMtu then
    if h.rx.escape then
      { h with
        rxBuf := Function.update h.rxBuf h.rx.ptr (byte ^^^ escapeBit)
        rx := { h.rx with escape := false, ptr := h.rx.ptr + 1 } }
    else
      { h with
        rxBuf := Function.update h.rxBuf h.rx.ptr byte
        rx := { h.rx with ptr := h.rx.ptr + 1 } }
  else h

/-- The loop of `hdlc_ll_read_data`. -/
def readDataLoop (h : HdlcLl π) : List Byte → HdlcLl π × Nat
  | [] => (h, 0)
  | byte :: data =>
      if byte = flagSequence then ({ h with rx := { h.rx with state := .readEnd } }, 1)
      else
        let (h, result) := readDataLoop (readDataByte h byte) data
        (h, result + 1)

/-- `hdlc_ll_read_data`. -/
def readData (h : HdlcLl π) (data : List Byte) : RxStep π :=
  let (h, result) := readDataLoop h data
  { h := h, result := .ok result, read := none }

/-- The bytes `rx_buf[start .. start + len)`. -/
def HdlcLl.rxBytes (h : HdlcLl π) (start : Int) (len : Nat) : List Byte :=
  (List.range len).map fun (i : Nat) => h.rxBuf (start + i)

/-- The computed and the received check field of a frame of `len` bytes. -/
def rxCrc (h : HdlcLl π) (len : Nat) : BitVec 32 × BitVec 32 :=
  let rd (i : Nat) : BitVec 32 := (h.rxBuf (h.rx.ptr - i)).setWidth 32
  match h.crcType with
  | .crc8 =>
      ((tinyChksum initChecksum (h.rxBytes h.rx.activeFrameBuf (len - 1))).setWidth 32 &&&
        0x00FF#32, rd 1)
  | .crc16 =>
      ((tinyCrc16 pppInitFcs16 (h.rxBytes h.rx.activeFrameBuf (len - 2))).setWidth 32,
        rd 2 ||| rd 1 <<< 8)
  | .crc32 =>
      (tinyCrc32 pppInitFcs32 (h.rxBytes h.rx.activeFrameBuf (len - 4)),
        rd 4 ||| rd 3 <<< 8 ||| rd 2 <<< 16 ||| rd 1 <<< 24)
  | _ => (0, 0)

/-- The step to the next frame buffer of the receive ring. -/
def nextFrameBuf (h : HdlcLl π) : Int :=
  let active := h.rx.activeFrameBuf + h.physMtu
  if active + h.physMtu > h.rxBufSize then 0 else active

/-- `hdlc_ll_read_end`. -/
def readEnd (h : HdlcLl π) : RxStep π :=
  if h.rx.ptr = h.rx.activeFrameBuf then
    { h := { h with rx := { h.rx with escape := false, state := .readData } }
      result := .ok 0
      read := none }
  else
    let h := { h with rx := { h.rx with state := .readStart } }
    let len : Int := h.rx.ptr - h.rx.activeFrameBuf
    if len > h.physMtu then { h := h, result := .error .dataTooLarge, read := none }
    else if len < (h.crcType.value / 8 : Nat) then { h := h, result := .error .wrongCrc, read := none }
    else
      let (calcCrc, readCrc) := rxCrc h len.toNat
      if calcCrc ≠ readCrc then { h := h, result := .error .wrongCrc, read := none }
      else
        { h := { h with rx := { h.rx with activeFrameBuf := nextFrameBuf h } }
          result := .ok 0
          read := some (h.rxBytes h.rx.activeFrameBuf (len.toNat - h.crcType.value / 8)) }

/-- The call through `rx.state`. -/
def rxStateCall (h : HdlcLl π) (data : List Byte) : RxStep π :=
  match h.rx.state with
  | .readStart => readStart h data
  | .readData => readData h data
  | .readEnd => readEnd h

/-! ## The driver -/

/-- What a `hdlc_ll_run_rx` call leaves and reports. -/
structure RunRx (π : Type) where
  h : HdlcLl π
  /-- The number of bytes consumed. -/
  result : Nat
  error : Status
  /-- The payloads given to `on_frame_read`. -/
  read : List (List Byte)

/-- The loop of `hdlc_ll_run_rx`. -/
def runRxLoop : Nat → HdlcLl π → List Byte → RunRx π
  | 0, h, _ => { h := h, result := 0, error := .success, read := [] }
  | fuel + 1, h, data =>
      if data ≠ [] ∨ h.rx.state = .readEnd then
        let r := rxStateCall h data
        match r.result with
        | .error e => { h := r.h, result := 0, error := e, read := r.read.toList }
        | .ok 0 => { h := r.h, result := 0, error := .success, read := r.read.toList }
        | .ok n =>
            let rest := runRxLoop fuel r.h (data.drop n)
            { rest with result := n + rest.result, read := r.read.toList ++ rest.read }
      else { h := h, result := 0, error := .success, read := [] }

/-- `hdlc_ll_run_rx`.  Every turn of the loop but the last consumes a byte. -/
def hdlcLlRunRx (h : HdlcLl π) (data : List Byte) : RunRx π :=
  runRxLoop (data.length + 1) h data

/-- What the user of a receiver sees. -/
inductive RxEvent where
  /-- A payload was given to `on_frame_read`. -/
  | frame (payload : List Byte)
  /-- `hdlc_ll_run_rx` reported an error. -/
  | error (status : Status)
deriving DecidableEq, Repr

/-- The events of one `hdlc_ll_run_rx` call. -/
def RunRx.events (r : RunRx π) : List RxEvent :=
  r.read.map RxEvent.frame ++ if r.error = .success then [] else [RxEvent.error r.error]

/-- The loop that calls `hdlc_ll_run_rx` again with what it left unprocessed, as
`tiny_fd_on_rx_data` does. -/
def onRxDataLoop : Nat → HdlcLl π → List Byte → HdlcLl π × List RxEvent
  | 0, h, _ => (h, [])
  | fuel + 1, h, data =>
      if data = [] then (h, [])
      else
        let r := hdlcLlRunRx h data
        let (h, events) := onRxDataLoop fuel r.h (data.drop r.result)
        (h, r.events ++ events)

/-- One chunk of received bytes. -/
def onRxData (h : HdlcLl π) (data : List Byte) : HdlcLl π × List RxEvent :=
  onRxDataLoop data.length h data

end TinyProto.Hdlc
