import TinyProto.Hdlc.Rx
import TinyProto.Rust.LowLevel

/-!
# The Rust receiver

`Rx::read_start` to `Rx::run_rx`.  A state function returns the receiver, the number and the
result the Rust function returns and the payload it passed to `on_frame_read`.
-/

namespace TinyProto.Rust

open Hdlc (flagSequence escapeChar escapeBit)

/-! ## State functions -/

/-- The result of a call through `state`. -/
structure RxStep where
  rx : Rx
  result : Nat
  error : ResultT
  /-- The bytes given to `on_frame_read`. -/
  read : Option (List Byte)

/-- `Rx::read_start`. -/
def readStart (rx : Rx) (data : List Byte) : RxStep :=
  match data with
  | [] => { rx := rx, result := 0, error := .success, read := none }
  | byte :: _ =>
      if byte ≠ flagSequence then { rx := rx, result := 1, error := .success, read := none }
      else
        { rx := { rx with data := rx.frameBuf, escape := false, state := .readData }
          result := 1
          error := .success
          read := none }

/-- The loop body of `Rx::read_data` for a byte that is no flag. -/
def readDataByte (rx : Rx) (byte : Byte) : Rx :=
  if byte = escapeChar then { rx with escape := true }
  else if rx.data - rx.frameBuf < rx.physMtu then
    if rx.escape then
      { rx with
        escape := false
        rxBuf := Function.update rx.rxBuf rx.data (byte ^^^ escapeBit)
        data := rx.data + 1 }
    else { rx with rxBuf := Function.update rx.rxBuf rx.data byte, data := rx.data + 1 }
  else rx

/-- The loop of `Rx::read_data`. -/
def readDataLoop (rx : Rx) : List Byte → Rx × Nat
  | [] => (rx, 0)
  | byte :: data =>
      if byte = flagSequence then ({ rx with state := .readEnd }, 1)
      else
        let (rx, result) := readDataLoop (readDataByte rx byte) data
        (rx, result + 1)

/-- `Rx::read_data`. -/
def readData (rx : Rx) (data : List Byte) : RxStep :=
  let (rx, result) := readDataLoop rx data
  { rx := rx, result := result, error := .success, read := none }

/-- The bytes from `start` on. -/
def Rx.bytes (rx : Rx) (start : Int) (len : Nat) : List Byte :=
  (List.range len).map fun (i : Nat) => rx.rxBuf (start + i)

/-- `len - n` of `usize` values. -/
def usizeSub (checks : Bool) (len n : Nat) : Except Panic Nat :=
  if n ≤ len then .ok (len - n)
  else if checks then .error .arithmeticOverflow
  else .ok (18446744073709551616 + len - n)

/-- The computed and the received check field of a frame of `len` bytes.  The slice
`&[*self.frame_buf]` has one byte. -/
def rxCrc (checks : Bool) (rx : Rx) (len : Nat) : Except Panic (BitVec 32 × BitVec 32) :=
  let slice := [rx.rxBuf rx.frameBuf]
  let rd (i : Nat) : BitVec 32 := (rx.rxBuf (rx.data - i)).setWidth 32
  match rx.crcType with
  | .crc8 => do
      let crc ← Crc8.sumBytes Crc8.new slice (← usizeSub checks len 1)
      .ok ((Crc8.get crc).setWidth 32, rd 1)
  | .crc16 => do
      let crc ← Crc16.sumBytes Crc16.new slice (← usizeSub checks len 2)
      .ok ((Crc16.get crc).setWidth 32, rd 2 ||| rd 1 <<< 8)
  | .crc32 => do
      let crc ← Crc32.sumBytes Crc32.new slice (← usizeSub checks len 4)
      .ok (Crc32.get crc, rd 4 ||| rd 3 <<< 8 ||| rd 2 <<< 16 ||| rd 1 <<< 24)
  | _ => .ok (0, 0)

/-- The step to the next frame buffer of the receive ring. -/
def nextFrameBuf (rx : Rx) : Int :=
  let frameBuf := rx.frameBuf + rx.physMtu
  if frameBuf + rx.physMtu > rx.rxBufSize then 0 else frameBuf

/-- `Rx::read_end`. -/
def readEnd (checks : Bool) (rx : Rx) : Except Panic RxStep :=
  if rx.data = rx.frameBuf then
    .ok { rx := { rx with escape := false, state := .readData }
          result := 0
          error := .success
          read := none }
  else
    let rx := { rx with state := .readStart }
    let len : Int := rx.data - rx.frameBuf
    if len > rx.physMtu then .ok { rx := rx, result := 0, error := .dataTooLarge, read := none }
    else if len < getCrcFieldSize rx.crcType then
      .ok { rx := rx, result := 0, error := .wrongCrc, read := none }
    else do
      let (calcCrc, readCrc) ← rxCrc checks rx len.toNat
      if calcCrc ≠ readCrc then .ok { rx := rx, result := 0, error := .wrongCrc, read := none }
      else
        .ok { rx := { rx with frameBuf := nextFrameBuf rx }
              result := 0
              error := .success
              read := some (rx.bytes rx.frameBuf (len.toNat - getCrcFieldSize rx.crcType)) }

/-- The call through `state`. -/
def rxStateCall (checks : Bool) (rx : Rx) (data : List Byte) : Except Panic RxStep :=
  match rx.state with
  | .readStart => .ok (readStart rx data)
  | .readData => .ok (readData rx data)
  | .readEnd => readEnd checks rx

/-! ## The driver -/

/-- What a `Rx::run_rx` call leaves and reports. -/
structure RunRx where
  rx : Rx
  /-- The number of bytes consumed. -/
  result : Nat
  error : ResultT
  /-- The payloads given to `on_frame_read`. -/
  read : List (List Byte)

/-- The loop of `Rx::run_rx`. -/
def runRxLoop (checks : Bool) : Nat → Rx → List Byte → Except Panic RunRx
  | 0, rx, _ => .ok { rx := rx, result := 0, error := .success, read := [] }
  | fuel + 1, rx, data =>
      if data ≠ [] ∨ rx.state = .readEnd then do
        let r ← rxStateCall checks rx data
        if r.error ≠ .success then
          .ok { rx := r.rx, result := 0, error := r.error, read := r.read.toList }
        else if r.result = 0 then
          .ok { rx := r.rx, result := 0, error := .success, read := r.read.toList }
        else do
          let rest ← runRxLoop checks fuel r.rx (data.drop r.result)
          .ok { rest with result := r.result + rest.result, read := r.read.toList ++ rest.read }
      else .ok { rx := rx, result := 0, error := .success, read := [] }

/-- `Rx::run_rx`.  Every turn of the loop but the last consumes a byte. -/
def runRx (checks : Bool) (rx : Rx) (data : List Byte) : Except Panic RunRx :=
  runRxLoop checks (data.length + 1) rx data

/-- The events of one `Rx::run_rx` call. -/
def RunRx.events (r : RunRx) : List Hdlc.RxEvent :=
  r.read.map Hdlc.RxEvent.frame ++
    if r.error = .success then [] else [Hdlc.RxEvent.error r.error.status]

end TinyProto.Rust
