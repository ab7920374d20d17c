import TinyProto.Hdlc.LowLevel
import TinyProto.Rust.Crc

/-!
# The Rust low level HDLC

The structures of `proto/hdlc/low_level/mod.rs` with `new`, `reset`, `close` and `put`.  The
state functions have the names they have in C, and so have the framing bytes.  Pointers
become offsets as in the C handle.
-/

namespace TinyProto.Rust

open Hdlc (RxState TxState)

/-- `ResultT`. -/
inductive ResultT where
  | success | invalidData | error | busy | dataTooLarge | wrongCrc
deriving DecidableEq, Repr

/-- The status code of the C library for a result. -/
def ResultT.status : ResultT → Status
  | .success => .success
  | .invalidData => .invalidData
  | .error => .failed
  | .busy => .busy
  | .dataTooLarge => .dataTooLarge
  | .wrongCrc => .wrongCrc

/-- `struct Rx`.  The receive buffer is a memory indexed by the offset from `rx_buf`. -/
structure Rx where
  rxBuf : Int → Byte
  rxBufSize : Int
  crcType : HdlcCrc
  physMtu : Int
  state : RxState
  /-- Offset of the next byte in the frame buffer. -/
  data : Int
  escape : Bool
  /-- Offset of the frame buffer in use. -/
  frameBuf : Int

/-- `Rx::new`. -/
def Rx.new (buf : Int → Byte) (bufSize : Int) (crcType : HdlcCrc) (mtu : Int) : Rx where
  rxBuf := buf
  rxBufSize := bufSize
  crcType := crcType
  physMtu := if mtu = 0 then bufSize else mtu + getCrcFieldSize crcType
  state := .readStart
  data := 0
  escape := false
  frameBuf := 0

/-- `Rx::reset`. -/
def Rx.reset (rx : Rx) : Rx := { rx with state := .readStart, escape := false }

/-- `Rx::close`. -/
def Rx.close (rx : Rx) : Rx := rx.reset

/-- `struct Tx`. -/
structure Tx (π : Type) where
  /-- The bytes written through `out_buffer`, oldest first. -/
  outBuffer : List Byte
  outBufferLen : Nat
  /-- `origin_data`, with `none` for the null pointer. -/
  originData : Option π
  /-- `data`, as an offset from `origin_data`. -/
  data : Nat
  crcType : HdlcCrc
  len : Nat
  crc : BitVec 32
  escape : Bool
  sendInProgress : Bool
  state : TxState

variable {π : Type}

/-- `Tx::new`. -/
def Tx.new (crc : HdlcCrc) : Tx π where
  outBuffer := []
  outBufferLen := 0
  originData := none
  data := 0
  crcType := crc
  len := 0
  crc := 0
  escape := false
  sendInProgress := false
  state := .sendStart

/-- `Tx::reset`. -/
def Tx.reset (tx : Tx π) : Tx π :=
  { tx with escape := false, sendInProgress := false, state := .sendStart }

/-- `Tx::close`: the frame reported to `on_frame_send`, if one is in progress. -/
def Tx.close (tx : Tx π) : Option (π × Nat) :=
  if tx.sendInProgress then tx.originData.map fun p => (p, tx.data) else none

/-- `Tx::put`. -/
def Tx.put (tx : Tx π) (data : π) (len : Nat) : Tx π × ResultT :=
  if tx.sendInProgress then (tx, .busy)
  else if len = 0 then (tx, .success)
  else ({ tx with originData := some data, data := 0, len := len, sendInProgress := true }, .success)

end TinyProto.Rust
