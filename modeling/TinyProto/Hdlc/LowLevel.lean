import TinyProto.Crc

/-!
# The low level HDLC handle

The state of `proto/hdlc/low_level/hdlc.c`, its initialisation, reset and close.
The two state machines follow in `Tx` and `Rx`.

Pointers become offsets.  The receive buffer is a memory indexed by the offset
from `rx_buf`, so `rx.ptr` and `rx.active_frame_buf` are offsets into it.  Bytes
outside `[0, rx_buf_size)` are other memory.  The transmit side holds a pointer
to the data of its user.  The pointer type `π` is a parameter, and the bytes
behind it are read through a memory `π → Nat → Byte` each time the source reads
them.  C `int` values are integers.
-/

namespace TinyProto

/-! ## Status codes -/

/-- The codes of `hal/tiny_types.h`. -/
inductive Status where
  | success | failed | timeout | dataTooLarge | invalidData | busy | outOfSync | again
  | wrongCrc | outOfMemory | unknownPeer | io
deriving DecidableEq, Repr

/-- The `int` a status is returned as. -/
def Status.code : Status → Int
  | .success => 0
  | .failed => -1
  | .timeout => -2
  | .dataTooLarge => -3
  | .invalidData => -4
  | .busy => -5
  | .outOfSync => -6
  | .again => -7
  | .wrongCrc => -8
  | .outOfMemory => -9
  | .unknownPeer => -10
  | .io => -11

/-! ## Alignment and machine integers -/

/-- `TINY_ALIGN_STRUCT_VALUE` on a 64-bit target. -/
def alignStructValue : Int := 8

/-- `TINY_ALIGN_BUFFER`: the next multiple of the alignment. -/
def alignBuffer (address : Int) : Int :=
  (address + alignStructValue - 1) / alignStructValue * alignStructValue

theorem alignBuffer_eq (a : Int) : alignBuffer a = (a + 7) / 8 * 8 := by
  show (a + 8 - 1) / 8 * 8 = (a + 7) / 8 * 8
  omega

theorem alignBuffer_of_mod {a : Int} (h : a % 8 = 0) : alignBuffer a = a := by
  rw [alignBuffer_eq]
  omega

/-- The value an `int` holds after an assignment of `x`. -/
def toInt32 (x : Int) : Int := (x + 2147483648) % 4294967296 - 2147483648

/-- A value in the range of `int` is kept. -/
theorem toInt32_of_range {x : Int} (h : -2147483648 ≤ x) (h' : x < 2147483648) :
    toInt32 x = x := by
  unfold toInt32; omega

/-- The sizes the C compiler gives the structures, with the alignment they have
on a 64-bit target. -/
structure StructSizes where
  /-- `sizeof(tiny_fd_data_t)`. -/
  fdData : Nat
  /-- `sizeof(hdlc_ll_data_t)`. -/
  hdlcData : Nat
  /-- `sizeof(tiny_fd_peer_info_t)`. -/
  peerInfo : Nat
  fdData_mod : fdData % 8 = 0
  hdlcData_mod : hdlcData % 8 = 0
  peerInfo_mod : peerInfo % 8 = 0

/-- The sizes with the mutex and the events of `hal/linux`. -/
def StructSizes.linux64 : StructSizes where
  fdData := 280
  hdlcData := 136
  peerInfo := 128
  fdData_mod := rfl
  hdlcData_mod := rfl
  peerInfo_mod := rfl

namespace Hdlc

/-! ## Framing bytes -/

/-- `FLAG_SEQUENCE`. -/
def flagSequence : Byte := 0x7E

/-- `TINY_ESCAPE_CHAR`. -/
def escapeChar : Byte := 0x7D

/-- `TINY_ESCAPE_BIT`. -/
def escapeBit : Byte := 0x20

/-! ## The handle -/

/-- The `rx.state` function pointer. -/
inductive RxState where
  | readStart | readData | readEnd
deriving DecidableEq, Repr

/-- The `tx.state` function pointer. -/
inductive TxState where
  | sendStart | sendData | sendCrc | sendEnd
deriving DecidableEq, Repr

/-- The `rx` member of `hdlc_ll_data_t`. -/
structure Rx where
  state : RxState
  /-- Offset of the next byte in the frame buffer. -/
  ptr : Int
  escape : Bool
  /-- Offset of the frame buffer in use. -/
  activeFrameBuf : Int

/-- The `tx` member of `hdlc_ll_data_t`. -/
structure Tx (π : Type) where
  state : TxState
  /-- `origin_data`, with `none` for `NULL`. -/
  originData : Option π
  /-- `data`, as an offset from `origin_data`. -/
  data : Nat
  len : Nat
  crc : BitVec 32
  escape : Bool
  /-- The bytes written through `out_buffer`, oldest first. -/
  outBuffer : List Byte
  outBufferLen : Nat

/-- `hdlc_ll_data_t`. -/
structure HdlcLl (π : Type) where
  rxBuf : Int → Byte
  rxBufSize : Int
  crcType : HdlcCrc
  physMtu : Int
  rx : Rx
  tx : Tx π

/-- `hdlc_ll_init_t`, without the callbacks. -/
structure HdlcLlInit where
  /-- The address of the buffer, `0` for `NULL`. -/
  buf : Int
  bufSize : Int
  crcType : HdlcCrc
  mtu : Int

/-- A receiver with no frame in progress. -/
def Rx.idle : Rx := { state := .readStart, ptr := 0, escape := false, activeFrameBuf := 0 }

/-- A transmitter with nothing to send. -/
def Tx.idle {π : Type} : Tx π :=
  { state := .sendStart, originData := none, data := 0, len := 0, crc := 0, escape := false,
    outBuffer := [], outBufferLen := 0 }

/-- What `hdlc_ll_reset` clears of the transmitter. -/
def Tx.reset {π : Type} (tx : Tx π) : Tx π :=
  { tx with data := 0, originData := none, escape := false, state := .sendStart }

/-- The flags of `hdlc_ll_reset`. -/
inductive ResetFlags where
  | both | txOnly | rxOnly
deriving DecidableEq, Repr

/-- `hdlc_ll_reset`. -/
def hdlcLlReset {π : Type} (h : HdlcLl π) (flags : ResetFlags) : HdlcLl π :=
  let h := if flags ≠ .txOnly then { h with rx := { h.rx with state := .readStart } } else h
  if flags ≠ .rxOnly then { h with tx := h.tx.reset } else h

/-- `hdlc_ll_init`: the address of the handle, which sits at the start of the
aligned buffer, and the handle. -/
def hdlcLlInit {π : Type} (sz : StructSizes) (init : HdlcLlInit) :
    Except Status (Int × HdlcLl π) :=
  if init.buf = 0 then .error .invalidData
  else
    let alignedBuf := alignBuffer init.buf
    let offset := alignedBuf - init.buf
    let bufSize := toInt32 (init.bufSize - offset)
    if bufSize < sz.hdlcData then .error .outOfMemory
    else
      let rxBufSize := bufSize - sz.hdlcData
      let crcType := init.crcType.stored
      .ok (alignedBuf, hdlcLlReset
        { rxBuf := fun _ => 0
          rxBufSize := rxBufSize
          crcType := crcType
          physMtu := if init.mtu ≠ 0 then init.mtu + getCrcFieldSize crcType else rxBufSize
          rx := Rx.idle
          tx := Tx.idle } .both)

/-- `hdlc_ll_close`: the frame reported to `on_frame_send`, if one is in progress. -/
def hdlcLlClose {π : Type} (h : HdlcLl π) : Option (π × Nat) :=
  h.tx.originData.map fun p => (p, h.tx.data + h.tx.len)

/-- `hdlc_ll_put_frame` with a non-null handle and data. -/
def hdlcLlPutFrame {π : Type} (h : HdlcLl π) (data : π) (len : Nat) : HdlcLl π × Status :=
  if h.tx.originData.isSome then (h, .busy)
  else if len = 0 then (h, .success)
  else ({ h with tx := { h.tx with originData := some data, data := 0, len := len } }, .success)

/-! ## Initialised handles -/

theorem hdlcLlReset_both {π : Type} (h : HdlcLl π) :
    hdlcLlReset h .both =
      { h with rx := { h.rx with state := .readStart }, tx := h.tx.reset } := rfl

/-- A handle that was just initialised waits for a flag and has nothing to send. -/
theorem hdlcLlInit_ok {π : Type} {sz : StructSizes} {init : HdlcLlInit} {a : Int} {h : HdlcLl π}
    (hi : hdlcLlInit sz init = .ok (a, h)) :
    h.rx = Rx.idle ∧ h.tx = Tx.idle ∧ h.crcType = init.crcType.stored := by
  unfold hdlcLlInit at hi
  split at hi
  · cases hi
  · dsimp only at hi
    split at hi
    · cases hi
    · cases hi
      exact ⟨rfl, rfl, rfl⟩

end Hdlc

end TinyProto
