import TinyProto.Fd.Layout
import TinyProto.Hdlc.Receiver

/-!
# The sizes a user is told to provide

`hdlc_ll_get_buf_size_ex` and `tiny_fd_buffer_size_by_mtu_ex` say how long the buffer
of a low level handle and of a full-duplex handle has to be.  `buf_size_sufficient_iff`
and `fd_buffer_size_sufficient_iff` say when the initialisation gets along with it.
-/

set_option linter.unusedSectionVars false

namespace TinyProto.Fd

open Hdlc

/-! ## The low level buffer -/

section LowLevel

variable {π : Type} {sz : StructSizes} {buf mtu rxWindow : Int}

/-- The init structure with a buffer of the size that was asked for. -/
def sizedInit (sz : StructSizes) (buf mtu : Int) (crcType : HdlcCrc) (rxWindow : Int) :
    HdlcLlInit where
  buf := buf
  bufSize := hdlcLlGetBufSizeEx sz mtu crcType rxWindow
  crcType := crcType
  mtu := mtu

/-- A handle at `a` with room for `rxWindow` frames in its buffer. -/
structure RxRoom (sz : StructSizes) (init : HdlcLlInit) (rxWindow a : Int) (h : HdlcLl π) :
    Prop where
  room : rxWindow * h.physMtu ≤ h.rxBufSize
  inside : a + sz.hdlcData + h.rxBufSize ≤ init.buf + init.bufSize
  slots : rxWindow ≤ h.rxBufSize / h.physMtu
  /-- Whatever is received is stored in the receive buffer. -/
  stores : ∀ calls offset, .store offset ∈ rxCalls h calls → 0 ≤ offset ∧ offset < h.rxBufSize

/-- A handle with room for the window keeps to its buffer. -/
theorem rxRoom_of_room {init : HdlcLlInit} {a : Int} {h : HdlcLl π}
    (hinit : hdlcLlInit sz init = .ok (a, h)) (hpos : 1 ≤ h.physMtu) (hwindow : 1 ≤ rxWindow)
    (hroom : rxWindow * h.physMtu ≤ h.rxBufSize)
    (hinside : a + sz.hdlcData + h.rxBufSize ≤ init.buf + init.bufSize) :
    RxRoom sz init rxWindow a h where
  room := hroom
  inside := hinside
  slots := (Int.le_ediv_iff_mul_le (by omega)).mpr hroom
  stores calls offset hm := by
    have hone := Int.mul_le_mul_of_nonneg_right hwindow (show 0 ≤ h.physMtu by omega)
    obtain ⟨hn, hfits, hplaced⟩ := init_placed hinit hpos (by omega) calls
    exact (hplaced.safe (by omega) hn (Int.natCast_nonneg _) hfits).store offset hm

/-- The size is sufficient exactly when it fits into an `int`, and without check field
for a single frame only, in a buffer that loses at most three bytes to its alignment. -/
theorem buf_size_sufficient_iff (hbuf : buf ≠ 0) (hmtu : 1 ≤ mtu) (hwindow : 1 ≤ rxWindow)
    (crcType : HdlcCrc) :
    (∃ a, ∃ h : HdlcLl π, hdlcLlInit sz (sizedInit sz buf mtu crcType rxWindow) = .ok (a, h) ∧
      RxRoom sz (sizedInit sz buf mtu crcType rxWindow) rxWindow a h) ↔
    (getCrcFieldSize crcType + mtu) * rxWindow + sz.hdlcData + 7 < 2147483648 ∧
      (crcType = .off → rxWindow = 1 ∧ alignBuffer buf - buf ≤ 3) := by
  have hA := alignBuffer_eq buf
  have hfield := getCrcFieldSize_stored crcType
  obtain ⟨p, hp⟩ : ∃ p, (getCrcFieldSize crcType + mtu) * rxWindow = p := ⟨_, rfl⟩
  have hmul : rxWindow * (mtu + getCrcFieldSize crcType.stored) =
      p + rxWindow * (if crcType = .off then 4 else 0) := by
    rw [hfield, ← Int.add_assoc, Int.mul_add, Int.add_comm mtu, Int.mul_comm rxWindow, hp]
  have hpos : 1 ≤ p := by
    have hle := Int.mul_le_mul_of_nonneg_left hwindow
      (show 0 ≤ (getCrcFieldSize crcType : Int) + mtu by omega)
    omega
  constructor
  · rintro ⟨a, h, hinit, hroom⟩
    have hslots := hroom.room
    have hinside := hroom.inside
    simp only [hdlcLlInit, sizedInit, hdlcLlGetBufSizeEx, hp, hbuf, if_false] at hinit hinside
    split at hinit
    · cases hinit
    · cases hinit
      simp only [hdlcLlReset_both, show mtu ≠ 0 by omega, if_true, ne_eq, not_false_eq_true, hmul,
        alignStructValue, toInt32] at *
      split at hslots
      · exact ⟨by omega, fun _ => by omega⟩
      · exact ⟨by omega, fun hoff => by contradiction⟩
  · rintro ⟨hint, hoff⟩
    cases hr : hdlcLlInit (π := π) sz (sizedInit sz buf mtu crcType rxWindow) with
    | error e =>
      simp only [hdlcLlInit, sizedInit, hdlcLlGetBufSizeEx, hp, hbuf, if_false, alignStructValue]
        at hr
      split at hr
      · simp only [toInt32] at *
        omega
      · cases hr
    | ok r =>
      obtain ⟨a, h⟩ := r
      have hinit := hr
      simp only [hdlcLlInit, sizedInit, hdlcLlGetBufSizeEx, hp, hbuf, if_false, alignStructValue]
        at hr
      split at hr
      · cases hr
      · cases hr
        refine ⟨_, _, rfl, rxRoom_of_room hinit ?_ hwindow ?_ ?_⟩
        · simp only [hdlcLlReset_both, show mtu ≠ 0 by omega, if_true, ne_eq, not_false_eq_true]
          omega
        · simp only [hdlcLlReset_both, show mtu ≠ 0 by omega, if_true, ne_eq, not_false_eq_true,
            hmul, toInt32]
          split
          · rename_i hc
            obtain ⟨rfl, hpad⟩ := hoff hc
            omega
          · omega
        · simp only [hdlcLlReset_both, sizedInit, hdlcLlGetBufSizeEx, hp, alignStructValue, toInt32]
          omega

theorem buf_size_sufficient_iff_plain :
    (∃ a, ∃ h : HdlcLl Unit, hdlcLlInit .linux64 (sizedInit .linux64 4097 64 .crc16 3) =
        .ok (a, h) ∧ RxRoom .linux64 (sizedInit .linux64 4097 64 .crc16 3) 3 a h) ↔
      (getCrcFieldSize .crc16 + 64) * 3 + (136 : Nat) + 7 < (2147483648 : Int) ∧
        (HdlcCrc.crc16 = .off → (3 : Int) = 1 ∧ alignBuffer 4097 - 4097 ≤ 3) :=
  buf_size_sufficient_iff (by decide) (by decide) (by decide) .crc16

/-- Two frames without check field do not find room, in an aligned buffer either. -/
theorem off_window_overrun :
    ¬∃ a, ∃ h : HdlcLl Unit, hdlcLlInit .linux64 (sizedInit .linux64 4096 64 .off 2) = .ok (a, h) ∧
      RxRoom .linux64 (sizedInit .linux64 4096 64 .off 2) 2 a h := by
  rintro ⟨a, h, hinit, hroom⟩
  have hslots := hroom.room
  cases hinit
  exact absurd hslots (by decide)

end LowLevel

/-! ## The full-duplex buffer -/

section FullDuplex

variable {sz : StructSizes} {init : FdInit}

/-- Init fields that `tiny_fd_init` accepts, its sizes apart. -/
structure FdInit.Valid (init : FdInit) : Prop where
  onReadCb : init.onReadCb = true
  /-- An address. -/
  buffer : 0 < init.buffer
  bufferSize : init.bufferSize ≠ 0
  window : 2 ≤ init.windowFrames ∧ init.windowFrames ≤ 7
  mtu : 2 ≤ init.mtu
  timeouts : init.retryTimeout ≠ 0 ∨ init.sendTimeout ≠ 0

/-- The bytes of the `i_queue`. -/
def FdInit.iQueueSize (init : FdInit) : Int := init.windowFrames * (init.mtu + 18)

/-- The sum of `tiny_fd_buffer_size_by_mtu_ex` for one received frame, not reduced to an
`int`. -/
def FdInit.requiredSize (sz : StructSizes) (init : FdInit) : Int :=
  sz.fdData + 7 + init.peers * sz.peerInfo +
    (getCrcFieldSize init.crcType + init.mtu + 2 + sz.hdlcData + 7) + init.iQueueSize + 80

/-- What is left for the low level handle, before it is rounded down to the alignment. -/
def FdInit.hdlcRemaining (sz : StructSizes) (init : FdInit) : Int :=
  init.bufferSize - (alignBuffer init.buffer - init.buffer) - sz.fdData - 4 - init.iQueueSize - 80 -
    init.peers * sz.peerInfo

/-- The bytes lost behind the `i_queue` are made up for by the four that are kept back and
those the low level handle loses. -/
def FdInit.QueuesFit (sz : StructSizes) (init : FdInit) : Prop :=
  init.requiredSize sz ≤ init.bufferSize ∧
    alignBuffer init.iQueueSize - init.iQueueSize ≤ 4 + init.hdlcRemaining sz % 8

theorem fdInitValidate_of_valid (hv : init.Valid)
    (henough : bufferSizeByMtuEx sz init.peers init.mtu init.windowFrames init.crcType 1 ≤
      init.bufferSize) : fdInitValidate sz init init.peers = .ok init.mtu := by
  have hmtu := hv.mtu
  have hwindow := hv.window
  have htimeouts := hv.timeouts
  have heff : init.effectiveMtu sz init.peers = init.mtu := if_neg (by omega)
  have hbuffer : init.buffer ≠ 0 := by
    have hpos := hv.buffer
    omega
  simp only [fdInitValidate, heff, hv.onReadCb, hbuffer, hv.bufferSize, seqBitsMask]
  rw [if_neg (by simp), if_neg (by omega), if_neg (by omega), if_neg (by omega), if_neg (by omega),
    if_neg (by omega)]

/-- A queue finds room in as many bytes as it takes. -/
theorem queueInit_of_room (buffer : Int) {maxSize mtu bytes : Int} {n : Nat}
    (hbytes : 8 * (n : Int) + n * (mtu + 10) = bytes) (hlow : 0 ≤ bytes) (hroom : bytes ≤ maxSize)
    (hint : maxSize < 2147483648) : ∃ q, queueInit buffer maxSize n mtu = .ok (q, bytes) := by
  simp only [queueInit, pointerSize, placeFrames_last]
  rw [if_neg (by omega), Int.add_assoc, hbytes, show buffer + bytes - buffer = bytes by omega,
    toInt32_of_range (by omega) (by omega)]
  exact ⟨_, rfl⟩

/-- A layout that was made lost no more bytes behind the `i_queue` than it had. -/
theorem FdLayout.Ok.queuesFit {l : FdLayout} {size : Int} (h : l.Ok sz init init.mtu size)
    (hmtu : 2 ≤ init.mtu) : init.QueuesFit sz := by
  obtain ⟨hsize, hneed, htable⟩ := h.sizes (by omega)
  have hlimit := h.limit
  have henough := h.enough
  have hhdlc := h.hdlc
  have hpeers := h.peersEq
  have hA := alignBuffer_eq init.buffer
  have hfd := sz.fdData_mod
  rw [alignBuffer_eq] at htable hpeers
  rw [Int.mul_comm] at hlimit
  refine ⟨?_, ?_⟩
  · rw [FdInit.requiredSize, FdInit.iQueueSize]
    omega
  · rw [alignBuffer_eq, FdInit.hdlcRemaining, FdInit.iQueueSize]
    omega

/-- Sizes that fit lead to a layout. -/
theorem fdInit_of_queuesFit (hv : init.Valid) (h : init.QueuesFit sz)
    (henough : bufferSizeByMtuEx sz init.peers init.mtu init.windowFrames init.crcType 1 ≤
      init.bufferSize) : ∃ l, fdInit sz init = .ok l := by
  obtain ⟨hrequired, hpad⟩ := h
  have hmtu := hv.mtu
  have hwindow := hv.window
  have hB := init.bufferSize_lt
  have hA := alignBuffer_eq init.buffer
  have hfd := sz.fdData_mod
  have hhd := sz.hdlcData_mod
  have hpeers : (0 : Int) ≤ init.peers * sz.peerInfo :=
    Int.mul_nonneg (Int.natCast_nonneg _) (Int.natCast_nonneg _)
  have hcount : (if init.peersCount = 0 then 1 else init.peersCount) = init.peers := rfl
  have h18 : (init.windowFrames : Int) * (pointerSize + init.mtu + frameInfoSize - payloadSize) =
      init.iQueueSize := by
    rw [FdInit.iQueueSize, show pointerSize + init.mtu + frameInfoSize - payloadSize =
      init.mtu + 18 by simp only [pointerSize, frameInfoSize, payloadSize]; omega]
  simp only [fdInit, hcount, fdInitValidate_of_valid hv henough, Except.mapError, bind, Except.bind,
    h18]
  -- the size of the low level handle, and the start of the queues
  obtain ⟨size, hsize⟩ : ∃ size, size = init.hdlcRemaining sz / 8 * 8 := ⟨_, rfl⟩
  rw [alignBuffer_eq] at hpad
  have hwide : init.mtu + 18 ≤ init.iQueueSize := by
    have hone := Int.mul_le_mul_of_nonneg_right (show (1 : Int) ≤ init.windowFrames by omega)
      (show 0 ≤ init.mtu + 18 by omega)
    rw [FdInit.iQueueSize]
    omega
  have hrest : init.hdlcRemaining sz = init.bufferSize - (alignBuffer init.buffer - init.buffer) -
    sz.fdData - 4 - init.iQueueSize - 80 - init.peers * sz.peerInfo := rfl
  rw [FdInit.requiredSize] at hrequired
  have hlow : toInt32 (init.buffer + init.bufferSize - (alignBuffer init.buffer + sz.fdData) - 4 -
      init.iQueueSize - uQueueMaxSize * (pointerSize + frameInfoSize) -
      init.peers * sz.peerInfo) / alignStructValue * alignStructValue = size := by
    rw [toInt32_of_range] <;> simp only [alignStructValue, uQueueMaxSize, pointerSize, frameInfoSize]
    all_goals omega
  have hptr := alignBuffer_of_mod
    (show (alignBuffer init.buffer + sz.fdData + size) % 8 = 0 by omega)
  simp only [hlow, hptr]
  have hlimit : toInt32 (init.buffer + init.bufferSize -
      (alignBuffer init.buffer + sz.fdData + size)) =
      init.buffer + init.bufferSize - (alignBuffer init.buffer + sz.fdData + size) :=
    toInt32_of_range (by omega) (by omega)
  have hbytes : 8 * (init.windowFrames : Int) + init.windowFrames * (init.mtu + 10) =
      init.iQueueSize := by
    rw [FdInit.iQueueSize, Int.mul_add, Int.mul_add]
    omega
  obtain ⟨iQueue, hi⟩ := queueInit_of_room (alignBuffer init.buffer + sz.fdData + size) hbytes
    (by omega) (show _ ≤ init.buffer + init.bufferSize -
      (alignBuffer init.buffer + sz.fdData + size) by omega) (by omega)
  simp only [hlimit, hi]
  rw [if_neg (by omega)]
  -- the queue of the other frames, behind the padding
  obtain ⟨start, hstart⟩ : ∃ start,
    start = alignBuffer (alignBuffer init.buffer + sz.fdData + size + init.iQueueSize) := ⟨_, rfl⟩
  have hstart' := alignBuffer_eq (alignBuffer init.buffer + sz.fdData + size + init.iQueueSize)
  obtain ⟨sQueue, hs⟩ := queueInit_of_room start (n := uQueueMaxSize)
    (show 8 * (uQueueMaxSize : Int) + uQueueMaxSize * (2 + 10) = 80 from rfl) (by decide)
    (show (80 : Int) ≤ toInt32 (init.buffer + init.bufferSize - start) by
      rw [toInt32_of_range] <;> omega)
    (by rw [toInt32_of_range] <;> omega)
  have hpeersPtr : alignBuffer (start + 80) = start + 80 := alignBuffer_of_mod (by omega)
  simp only [← hstart, hs, hpeersPtr]
  rw [if_neg (by decide), Int.mul_comm (sz.peerInfo : Int), if_neg (by omega)]
  -- the low level handle, which stands at an aligned address
  have haddress := hv.buffer
  have hmod := alignBuffer_of_mod (show (alignBuffer init.buffer + (sz.fdData : Int)) % 8 = 0 by omega)
  simp only [hdlcLlInit, hmod, Int.sub_self, Int.sub_zero]
  rw [if_neg (by omega), toInt32_of_range (by omega) (by omega), if_neg (by omega)]
  exact ⟨_, rfl⟩

/-- A buffer of the size that was asked for is enough exactly when the sum does not exceed
an `int` and the padding behind the `i_queue` finds room. -/
theorem fd_buffer_size_sufficient_iff (hv : init.Valid)
    (henough : bufferSizeByMtuEx sz init.peersCount init.mtu init.windowFrames init.crcType 1 ≤
      init.bufferSize) : (∃ l, fdInit sz init = .ok l) ↔ init.QueuesFit sz := by
  have hcount : bufferSizeByMtuEx sz init.peersCount init.mtu init.windowFrames init.crcType 1 =
      bufferSizeByMtuEx sz init.peers init.mtu init.windowFrames init.crcType 1 := by
    unfold FdInit.peers
    split
    · rename_i hzero
      rw [hzero]
      rfl
    · rfl
  rw [hcount] at henough
  constructor
  · rintro ⟨l, hl⟩
    obtain ⟨mtu, size, hok⟩ := fdInit_ok hl
    have heff : mtu = init.mtu := by
      rw [hok.mtuEq]
      exact if_neg (by have := hv.mtu; omega)
    exact FdLayout.Ok.queuesFit (heff ▸ hok) hv.mtu
  · exact fun h => fdInit_of_queuesFit hv h henough

/-- Two frames of 64 bytes in a buffer of the size that was asked for. -/
theorem fd_buffer_size_sufficient_iff_odd :
    (∃ l, fdInit .linux64 oddInit = .ok l) ↔ oddInit.QueuesFit .linux64 :=
  fd_buffer_size_sufficient_iff
    { onReadCb := rfl, buffer := by decide, bufferSize := by decide, window := by decide
      mtu := by decide, timeouts := by decide } (by decide)

/-- Three frames of seven bytes, in a buffer with three bytes more than asked for. -/
def paddedInit : FdInit where
  onReadCb := true
  buffer := 4096
  bufferSize := 727
  sendTimeout := 0
  retryTimeout := 100
  windowFrames := 3
  mtu := 7
  crcType := .crc16
  peersCount := 1
  bufferSize_lt := by decide

/-- The low level handle takes all but the four bytes that are kept back, and the padding
behind the queue takes five. -/
theorem padded_buffer_fails :
    paddedInit.Valid ∧
      bufferSizeByMtuEx .linux64 paddedInit.peersCount paddedInit.mtu paddedInit.windowFrames
        paddedInit.crcType 1 ≤ paddedInit.bufferSize ∧
      fdInit .linux64 paddedInit = .error Status.outOfMemory.code := by
  refine ⟨?_, by decide, rfl⟩
  exact { onReadCb := rfl, buffer := by decide, bufferSize := by decide, window := by decide
          mtu := by decide, timeouts := by decide }

end FullDuplex

end TinyProto.Fd
