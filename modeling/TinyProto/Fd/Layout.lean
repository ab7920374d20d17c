import TinyProto.Lib.Packing
import TinyProto.Hdlc.LowLevel

/-!
# The memory of a full-duplex handle

`tiny_fd_init` cuts the user buffer into the handle, the low level handle with its
receive buffer, two frame queues and the peers.  Addresses are integers, `0` is
`NULL`.  Where the source assigns to an `int` the value passes through `toInt32`.

`layout_safe_iff` says when the blocks are disjoint and inside of the buffer, and
the receive buffer holds a frame.
-/

namespace TinyProto.Fd

open Packing Hdlc

/-! ## Sizes -/

/-- `sizeof(tiny_fd_frame_info_t)`. -/
def frameInfoSize : Int := 12

/-- `sizeof(((tiny_fd_frame_info_t *)0)->payload)`. -/
def payloadSize : Int := 2

/-- `sizeof(tiny_fd_frame_info_t *)`. -/
def pointerSize : Int := 8

/-- `sizeof(tiny_frame_header_t)`. -/
def frameHeaderSize : Int := 2

/-- `TINY_FD_U_QUEUE_MAX_SIZE`. -/
def uQueueMaxSize : Nat := 4

/-- `seq_bits_mask`. -/
def seqBitsMask : Nat := 7

/-- `tiny_fd_init_t`, as far as the initialisation reads it. -/
structure FdInit where
  /-- Whether `on_read_cb` is set. -/
  onReadCb : Bool
  buffer : Int
  /-- A `uint16_t`. -/
  bufferSize : Nat
  sendTimeout : Nat
  retryTimeout : Nat
  windowFrames : Nat
  mtu : Int
  crcType : HdlcCrc
  peersCount : Nat
  bufferSize_lt : bufferSize < 65536

/-- `hdlc_ll_get_buf_size_ex`. -/
def hdlcLlGetBufSizeEx (sz : StructSizes) (mtu : Int) (crcType : HdlcCrc) (rxWindow : Int) : Int :=
  toInt32 ((getCrcFieldSize crcType + mtu) * rxWindow + sz.hdlcData + alignStructValue - 1)

/-- `tiny_fd_buffer_size_by_mtu_ex`. -/
def bufferSizeByMtuEx (sz : StructSizes) (peersCount : Nat) (mtu : Int) (txWindow : Int)
    (crcType : HdlcCrc) (rxWindow : Int) : Int :=
  let peersCount := if peersCount = 0 then 1 else peersCount
  let headerSize := toInt32 (sz.fdData + alignStructValue - 1 + peersCount * sz.peerInfo)
  let hdlcLevelRxSize := hdlcLlGetBufSizeEx sz (toInt32 (mtu + frameHeaderSize)) crcType rxWindow
  let iFrameTxSize := toInt32 (pointerSize + frameInfoSize + mtu - payloadSize)
  let uSFrameTxSize := toInt32 (pointerSize + frameInfoSize)
  toInt32 (headerSize + hdlcLevelRxSize + iFrameTxSize * txWindow + uSFrameTxSize * uQueueMaxSize)

/-- The mtu in use: the given one, or what `__tiny_fd_init_validate` computes for
zero. -/
def FdInit.effectiveMtu (sz : StructSizes) (init : FdInit) (peersCount : Nat) : Int :=
  if init.mtu = 0 then
    let size := bufferSizeByMtuEx sz peersCount 0 init.windowFrames init.crcType 1
    toInt32 ((init.bufferSize - size).tdiv (init.windowFrames + 1))
  else init.mtu

/-! ## Initialisation -/

/-- `__tiny_fd_init_validate`: the mtu it leaves in the init structure. -/
def fdInitValidate (sz : StructSizes) (init : FdInit) (peersCount : Nat) : Except Status Int :=
  if !init.onReadCb ∨ init.buffer = 0 ∨ init.bufferSize = 0 then .error .invalidData
  else
    let mtu := init.effectiveMtu sz peersCount
    if init.mtu = 0 ∧ mtu < 2 then .error .outOfMemory
    else if init.bufferSize < bufferSizeByMtuEx sz peersCount mtu init.windowFrames init.crcType 1
      then .error .outOfMemory
    else if init.windowFrames < 2 then .error .invalidData
    else if init.windowFrames > seqBitsMask then .error .invalidData
    else if init.retryTimeout = 0 ∧ init.sendTimeout = 0 then .error .invalidData
    else .ok mtu

/-- The memory of a `tiny_fd_queue_t`. -/
structure QueueLayout where
  /-- The table of pointers. -/
  table : Int
  /-- The pointers in it. -/
  frames : List Int
  mtu : Int

/-- The loop of `tiny_fd_queue_init`: the addresses of the slots and the first one
behind them. -/
def placeFrames (mtu : Int) : Nat → Int → List Int × Int
  | 0, ptr => ([], ptr)
  | n + 1, ptr =>
      let (frames, last) := placeFrames mtu n (ptr + (mtu + frameInfoSize - payloadSize))
      (ptr :: frames, last)

/-- `tiny_fd_queue_init`: the queue and the number of bytes it takes. -/
def queueInit (buffer : Int) (maxSize : Int) (maxFrames : Nat) (mtu : Int) :
    Except Status (QueueLayout × Int) :=
  let (frames, ptr) := placeFrames mtu maxFrames (buffer + pointerSize * maxFrames)
  if ptr > buffer + maxSize then .error .invalidData
  else .ok ({ table := buffer, frames := frames, mtu := mtu }, toInt32 (ptr - buffer))

/-- Where everything is. -/
structure FdLayout where
  protocol : Int
  /-- The low level handle and its state. -/
  hdlc : Int × HdlcLl Int
  iQueue : QueueLayout
  sQueue : QueueLayout
  peers : Int
  peersCount : Nat

/-- The layout part of `tiny_fd_init`.  An error is the number the function returns. -/
def fdInit (sz : StructSizes) (init : FdInit) : Except Int FdLayout := do
  let peersCount := if init.peersCount = 0 then 1 else init.peersCount
  let mtu ← (fdInitValidate sz init peersCount).mapError Status.code
  let limit := init.buffer + init.bufferSize
  let protocol := alignBuffer init.buffer
  let hdlcLlPtr := protocol + sz.fdData
  let hdlcLlSize := toInt32 (limit - hdlcLlPtr - 4 -
    init.windowFrames * (pointerSize + mtu + frameInfoSize - payloadSize) -
    uQueueMaxSize * (pointerSize + frameInfoSize) - peersCount * sz.peerInfo)
  let hdlcLlSize := hdlcLlSize / alignStructValue * alignStructValue
  let ptr := alignBuffer (hdlcLlPtr + hdlcLlSize)
  let (iQueue, queueSize) ←
    (queueInit ptr (toInt32 (limit - ptr)) init.windowFrames mtu).mapError Status.code
  if queueSize < 0 then .error queueSize
  else
    let ptr := alignBuffer (ptr + queueSize)
    let (sQueue, queueSize) ←
      (queueInit ptr (toInt32 (limit - ptr)) uQueueMaxSize 2).mapError Status.code
    if queueSize < 0 then .error queueSize
    else
      let peers := alignBuffer (ptr + queueSize)
      let ptr := peers + sz.peerInfo * peersCount
      if ptr > limit then .error Status.outOfMemory.code
      else
        let hdlc ← (hdlcLlInit sz
          { buf := hdlcLlPtr, bufSize := hdlcLlSize, crcType := init.crcType
            mtu := toInt32 (mtu + frameHeaderSize) }).mapError Status.code
        .ok { protocol, hdlc, iQueue, sQueue, peers, peersCount }

/-! ## Blocks -/

/-- The table and the slots of a queue.  Of a slot the header and `mtu` bytes of
payload are used. -/
def QueueLayout.blocks (q : QueueLayout) : List Block :=
  { start := q.table, size := pointerSize * q.frames.length } ::
    q.frames.map fun p => { start := p, size := frameInfoSize - payloadSize + max q.mtu 0 }

/-- Everything `tiny_fd_init` places in the buffer. -/
def FdLayout.blocks (sz : StructSizes) (l : FdLayout) : List Block :=
  { start := l.protocol, size := sz.fdData } ::
    { start := l.hdlc.1, size := sz.hdlcData + l.hdlc.2.rxBufSize } ::
      (l.iQueue.blocks ++ l.sQueue.blocks ++
        [{ start := l.peers, size := sz.peerInfo * l.peersCount }])

/-- A layout that keeps the blocks apart and received frames inside of theirs. -/
structure FdLayout.Safe (sz : StructSizes) (init : FdInit) (l : FdLayout) : Prop where
  disjoint : (l.blocks sz).Pairwise Block.Disjoint
  inside : ∀ b ∈ l.blocks sz, b.Inside init.buffer (init.buffer + init.bufferSize)
  rxBuf : l.hdlc.2.physMtu ≤ l.hdlc.2.rxBufSize

/-- The number of peers in use. -/
def FdInit.peers (init : FdInit) : Nat := if init.peersCount = 0 then 1 else init.peersCount

/-- The longest frame on the line, with the check field the low level handle
reserves: four bytes without check field too. -/
def FdInit.physMtu (sz : StructSizes) (init : FdInit) : Int :=
  init.effectiveMtu sz init.peers + frameHeaderSize + getCrcFieldSize init.crcType.stored

/-- The bytes left to round the longest frame up to the alignment: what the buffer
has more than required and ten bytes, less what its own alignment takes and the
check field that is reserved but was not counted. -/
def FdInit.spare (sz : StructSizes) (init : FdInit) : Int :=
  init.bufferSize - bufferSizeByMtuEx sz init.peers (init.effectiveMtu sz init.peers)
      init.windowFrames init.crcType 1 +
    10 - (alignBuffer init.buffer - init.buffer) - if init.crcType = .off then 4 else 0

/-- When the layout is safe. -/
def FdInit.Fits (sz : StructSizes) (init : FdInit) : Prop :=
  0 < init.effectiveMtu sz init.peers ∧
    alignBuffer (init.physMtu sz) ≤ init.physMtu sz + init.spare sz

/-- Without check field the low level handle reserves the four bytes of the default. -/
theorem getCrcFieldSize_stored (c : HdlcCrc) :
    (getCrcFieldSize c.stored : Int) = getCrcFieldSize c + if c = .off then 4 else 0 := by
  cases c <;> rfl

/-! ## What a successful initialisation did -/

theorem except_bind_ok {ε α β : Type} {x : Except ε α} {f : α → Except ε β} {b : β}
    (h : (x >>= f) = .ok b) : ∃ a, x = .ok a ∧ f a = .ok b := by
  cases x with
  | error e => cases h
  | ok a => exact ⟨a, rfl, h⟩

theorem mapError_ok {ε ε' α : Type} {f : ε → ε'} {x : Except ε α} {a : α}
    (h : x.mapError f = .ok a) : x = .ok a := by
  cases x with
  | error e => cases h
  | ok b =>
      cases h
      rfl

theorem placeFrames_last (mtu : Int) (n : Nat) (ptr : Int) :
    (placeFrames mtu n ptr).2 = ptr + n * (mtu + 10) := by
  induction n generalizing ptr with
  | zero => simp [placeFrames]
  | succ n ih =>
      rw [placeFrames, ih, Int.natCast_succ, Int.add_mul]
      simp only [frameInfoSize, payloadSize]
      omega

theorem placeFrames_length (mtu : Int) (n : Nat) (ptr : Int) :
    (placeFrames mtu n ptr).1.length = n := by
  induction n generalizing ptr with
  | zero => rfl
  | succ n ih => rw [placeFrames, List.length_cons, ih]

/-- With a positive mtu the slots stand one behind the other. -/
theorem placeFrames_packed {mtu : Int} (hm : 0 ≤ mtu) (n : Nat) (ptr : Int) :
    Packed ptr ((placeFrames mtu n ptr).1.map fun p =>
      { start := p, size := frameInfoSize - payloadSize + max mtu 0 }) (placeFrames mtu n ptr).2 := by
  induction n generalizing ptr with
  | zero => exact Int.le_refl ptr
  | succ n ih =>
      have h := ih (ptr + (mtu + frameInfoSize - payloadSize))
      have he : ptr + (frameInfoSize - payloadSize + max mtu 0) =
          ptr + (mtu + frameInfoSize - payloadSize) := by
        rw [Int.max_eq_left hm]
        omega
      refine ⟨Int.le_refl ptr, ?_, ?_⟩
      · simp only [frameInfoSize, payloadSize]
        omega
      · simp only [he]
        exact h

/-- What a successful `tiny_fd_queue_init` did. -/
theorem queueInit_ok {buffer maxSize mtu : Int} {n : Nat} {q : QueueLayout} {size : Int}
    (h : queueInit buffer maxSize n mtu = .ok (q, size)) :
    q = { table := buffer, frames := (placeFrames mtu n (buffer + 8 * n)).1, mtu := mtu } ∧
      8 * n + n * (mtu + 10) ≤ maxSize ∧ size = toInt32 (8 * n + n * (mtu + 10)) := by
  simp only [queueInit, pointerSize, placeFrames_last] at h
  split at h
  · cases h
  · cases h
    refine ⟨rfl, by omega, ?_⟩
    rw [show buffer + 8 * (n : Int) + n * (mtu + 10) - buffer = 8 * n + n * (mtu + 10) by omega]

/-- What a successful `__tiny_fd_init_validate` saw. -/
theorem fdInitValidate_ok {sz : StructSizes} {init : FdInit} {n : Nat} {mtu : Int}
    (h : fdInitValidate sz init n = .ok mtu) :
    mtu = init.effectiveMtu sz n ∧ mtu ≠ 0 ∧ 2 ≤ init.windowFrames ∧
      bufferSizeByMtuEx sz n mtu init.windowFrames init.crcType 1 ≤ init.bufferSize := by
  simp only [fdInitValidate] at h
  split at h
  · cases h
  · split at h
    · cases h
    · rename_i hauto
      split at h
      · cases h
      · split at h
        · cases h
        · split at h
          · cases h
          · split at h
            · cases h
            · cases h
              refine ⟨rfl, fun hz => ?_, by omega, by omega⟩
              by_cases hm : init.mtu = 0
              · exact hauto ⟨hm, by omega⟩
              · rw [FdInit.effectiveMtu, if_neg hm] at hz
                exact hm hz

/-- What a successful `hdlc_ll_init` on an aligned buffer did. -/
theorem hdlcLlInit_aligned {sz : StructSizes} {init : HdlcLlInit} {r : Int × HdlcLl Int}
    (h : hdlcLlInit sz init = .ok r) (ha : init.buf % 8 = 0) :
    r.1 = init.buf ∧ sz.hdlcData ≤ toInt32 init.bufSize ∧
      r.2.rxBufSize = toInt32 init.bufSize - sz.hdlcData ∧
      (init.mtu ≠ 0 → r.2.physMtu = init.mtu + getCrcFieldSize init.crcType.stored) := by
  simp only [hdlcLlInit, alignBuffer_of_mod ha, Int.sub_self, Int.sub_zero] at h
  split at h
  · cases h
  · split at h
    · cases h
    · cases h
      exact ⟨rfl, by omega, rfl, fun hm => if_pos hm⟩

/-- Everything a successful `tiny_fd_init` did, in the numbers of the init structure. -/
structure FdLayout.Ok (sz : StructSizes) (init : FdInit) (l : FdLayout) (mtu size : Int) :
    Prop where
  mtuEq : mtu = init.effectiveMtu sz init.peers
  mtuNe : mtu ≠ 0
  window : 2 ≤ init.windowFrames
  enough : bufferSizeByMtuEx sz init.peers mtu init.windowFrames init.crcType 1 ≤ init.bufferSize
  sizeEq : size = toInt32 (init.buffer + init.bufferSize - (alignBuffer init.buffer + sz.fdData) -
    4 - init.windowFrames * (mtu + 18) - 80 - init.peers * sz.peerInfo) / 8 * 8
  protocol : l.protocol = alignBuffer init.buffer
  hdlc : l.hdlc.1 = alignBuffer init.buffer + sz.fdData
  hdlcSize : sz.hdlcData ≤ size
  rxBuf : l.hdlc.2.rxBufSize = size - sz.hdlcData
  physMtu : toInt32 (mtu + 2) ≠ 0 →
    l.hdlc.2.physMtu = toInt32 (mtu + 2) + getCrcFieldSize init.crcType.stored
  iTable : l.iQueue.table = l.hdlc.1 + size
  iFrames : l.iQueue.frames =
    (placeFrames mtu init.windowFrames (l.hdlc.1 + size + 8 * init.windowFrames)).1
  iMtu : l.iQueue.mtu = mtu
  iRoom : 8 * init.windowFrames + init.windowFrames * (mtu + 10) < 2147483648
  sTable : l.sQueue.table = alignBuffer (l.hdlc.1 + size +
    toInt32 (8 * init.windowFrames + init.windowFrames * (mtu + 10)))
  sFrames : l.sQueue.frames = (placeFrames 2 uQueueMaxSize (l.sQueue.table + 8 * uQueueMaxSize)).1
  sMtu : l.sQueue.mtu = 2
  peersEq : l.peers = alignBuffer (l.sQueue.table + 80)
  peersCount : l.peersCount = init.peers
  limit : l.peers + sz.peerInfo * init.peers ≤ init.buffer + init.bufferSize

theorem fdInit_ok {sz : StructSizes} {init : FdInit} {l : FdLayout}
    (h : fdInit sz init = .ok l) : ∃ mtu size, l.Ok sz init mtu size := by
  obtain ⟨mtu, hmtu, h⟩ := except_bind_ok h
  obtain ⟨h1, h2, h3, h4⟩ := fdInitValidate_ok (mapError_ok hmtu)
  obtain ⟨size, hsize⟩ : ∃ size, size =
      toInt32 (init.buffer + init.bufferSize - (alignBuffer init.buffer + sz.fdData) - 4 -
        init.windowFrames * (pointerSize + mtu + frameInfoSize - payloadSize) -
        uQueueMaxSize * (pointerSize + frameInfoSize) - init.peers * sz.peerInfo) /
          alignStructValue * alignStructValue := ⟨_, rfl⟩
  have hsize' : size = toInt32 (init.buffer + init.bufferSize -
      (alignBuffer init.buffer + sz.fdData) - 4 - init.windowFrames * (mtu + 18) - 80 -
      init.peers * sz.peerInfo) / 8 * 8 := by
    rw [hsize, show pointerSize + mtu + frameInfoSize - payloadSize = mtu + 18 by
      simp only [pointerSize, frameInfoSize, payloadSize]; omega]
    rfl
  have hpeers : (if init.peersCount = 0 then 1 else init.peersCount) = init.peers := rfl
  simp only [hpeers, ← hsize] at h
  obtain ⟨⟨iQueue, iSize⟩, hi, h⟩ := except_bind_ok h
  obtain ⟨hq1, hq2, hq3⟩ := queueInit_ok (mapError_ok hi)
  simp only at h
  split at h
  · cases h
  · obtain ⟨⟨sQueue, sSize⟩, hs, h⟩ := except_bind_ok h
    obtain ⟨hs1, hs2, hs3⟩ := queueInit_ok (mapError_ok hs)
    simp only at h
    split at h
    · cases h
    · split at h
      · cases h
      · rename_i hle
        obtain ⟨hdlc, hh, h⟩ := except_bind_ok h
        cases h
        have hmod : (alignBuffer init.buffer + sz.fdData) % 8 = 0 := by
          have h1 := sz.fdData_mod
          rw [alignBuffer_eq]
          omega
        obtain ⟨hh1, hh2, hh3, hh4⟩ := hdlcLlInit_aligned (mapError_ok hh) hmod
        have hint : toInt32 size = size := by
          rw [hsize']
          unfold toInt32
          omega
        have hptr : alignBuffer (alignBuffer init.buffer + sz.fdData + size) =
            alignBuffer init.buffer + sz.fdData + size := alignBuffer_of_mod (by omega)
        simp only [hint] at hh2 hh3
        rw [hptr] at hq1 hq2 hs1
        subst hq1 hs1 hq3 hs3
        refine ⟨mtu, size, h1, h2, h3, h4, hsize', rfl, hh1, hh2, hh3, hh4, ?_, ?_, rfl, ?_, ?_, rfl,
          rfl, ?_, rfl, ?_⟩
        · exact hh1 ▸ rfl
        · exact hh1 ▸ rfl
        · have hlt : ∀ x, toInt32 x < 2147483648 := fun x => by unfold toInt32; omega
          exact Int.lt_of_le_of_lt hq2 (hlt _)
        · exact hh1 ▸ rfl
        · simp only [hptr]
          rfl
        · exact Int.not_lt.mp hle

/-! ## Safety -/

/-- With a positive mtu everything is in a row. -/
theorem FdLayout.Ok.packed {sz : StructSizes} {init : FdInit} {l : FdLayout} {mtu size : Int}
    (h : l.Ok sz init mtu size) (hm : 0 < mtu) :
    Packed init.buffer (l.blocks sz) (init.buffer + init.bufferSize) := by
  have hA := alignBuffer_eq init.buffer
  have hroom := h.iRoom
  have hw := Int.mul_nonneg (Int.natCast_nonneg init.windowFrames) (show 0 ≤ mtu + 10 by omega)
  have hint : toInt32 (8 * init.windowFrames + init.windowFrames * (mtu + 10)) =
      8 * init.windowFrames + init.windowFrames * (mtu + 10) :=
    toInt32_of_range (by omega) (by omega)
  have hS := h.sTable
  rw [hint, alignBuffer_eq] at hS
  have hP := h.peersEq
  rw [alignBuffer_eq] at hP
  have hlimit := h.limit
  have hsize := h.hdlcSize
  have hrx := h.rxBuf
  have hproto := h.protocol
  have hhdlc := h.hdlc
  have hi : Packed (l.hdlc.1 + size) l.iQueue.blocks
      (l.hdlc.1 + size + 8 * init.windowFrames + init.windowFrames * (mtu + 10)) := by
    have hp := placeFrames_packed (Int.le_of_lt hm) init.windowFrames
      (l.hdlc.1 + size + 8 * init.windowFrames)
    rw [placeFrames_last] at hp
    refine ⟨Int.le_of_eq h.iTable.symm, ?_, ?_⟩
    · exact Int.mul_nonneg (by decide) (Int.natCast_nonneg _)
    · simp only [h.iTable, h.iFrames, h.iMtu, placeFrames_length, pointerSize]
      exact hp
  have hs : Packed l.sQueue.table l.sQueue.blocks (l.sQueue.table + 80) := by
    have hp := placeFrames_packed (show (0 : Int) ≤ 2 by decide) uQueueMaxSize
      (l.sQueue.table + 8 * uQueueMaxSize)
    have hend : l.sQueue.table + 8 * uQueueMaxSize + uQueueMaxSize * (2 + 10) =
        l.sQueue.table + 80 := by
      simp only [uQueueMaxSize]
      omega
    rw [placeFrames_last, hend] at hp
    refine ⟨Int.le_refl _, ?_, ?_⟩
    · exact Int.mul_nonneg (by decide) (Int.natCast_nonneg _)
    · simp only [h.sFrames, h.sMtu, placeFrames_length, pointerSize]
      exact hp
  have hpeers : Packed (l.sQueue.table + 80)
      [{ start := l.peers, size := sz.peerInfo * l.peersCount }]
      (init.buffer + init.bufferSize) := by
    refine ⟨?_, Int.mul_nonneg (Int.natCast_nonneg _) (Int.natCast_nonneg _), ?_⟩
    · simp only
      omega
    · rw [h.peersCount]
      exact hlimit
  have hstart : l.hdlc.1 + (sz.hdlcData + l.hdlc.2.rxBufSize) = l.hdlc.1 + size := by omega
  refine ⟨?_, Int.natCast_nonneg _, ?_, ?_, ?_⟩
  · simp only
    omega
  · simp only
    omega
  · simp only
    omega
  · simp only [hstart]
    exact (hi.append (hs.widen (by omega))).append hpeers

/-- A negative mtu puts the second slot into what stands before it. -/
theorem FdLayout.Ok.not_safe {sz : StructSizes} {init : FdInit} {l : FdLayout} {mtu size : Int}
    (h : l.Ok sz init mtu size) (hm : mtu < 0) : ¬l.Safe sz init := by
  intro hsafe
  obtain ⟨n, hn⟩ : ∃ n, init.windowFrames = n + 2 := ⟨init.windowFrames - 2, by have := h.window; omega⟩
  have hA := alignBuffer_eq init.buffer
  have hsize := h.hdlcSize
  have hproto := h.protocol
  have hhdlc := h.hdlc
  obtain ⟨first, hfirst⟩ : ∃ p, p = l.hdlc.1 + size + 8 * init.windowFrames := ⟨_, rfl⟩
  obtain ⟨second, hsecond⟩ : ∃ p, p = first + (mtu + frameInfoSize - payloadSize) := ⟨_, rfl⟩
  have hframes : ∃ rest, l.iQueue.frames = first :: second :: rest := by
    rw [h.iFrames, ← hfirst, hn, placeFrames, placeFrames, ← hsecond]
    exact ⟨_, rfl⟩
  obtain ⟨rest, hrest⟩ := hframes
  have hmax : max l.iQueue.mtu 0 = 0 := by
    rw [h.iMtu]
    omega
  -- the blocks in front of the second slot, and that slot
  have hblocks : ∃ others, l.blocks sz =
      { start := l.protocol, size := sz.fdData } ::
      { start := l.hdlc.1, size := sz.hdlcData + l.hdlc.2.rxBufSize } ::
      { start := l.iQueue.table, size := pointerSize * l.iQueue.frames.length } ::
      { start := first, size := 10 } :: { start := second, size := 10 } :: others := by
    rw [FdLayout.blocks, QueueLayout.blocks, hrest, List.map_cons, List.map_cons, hmax]
    exact ⟨_, rfl⟩
  obtain ⟨others, hothers⟩ := hblocks
  have hdis := hsafe.disjoint
  have hin := hsafe.inside { start := second, size := 10 } (by simp [hothers])
  rw [hothers] at hdis
  simp only [List.pairwise_cons, List.mem_cons, forall_eq_or_imp] at hdis
  obtain ⟨⟨-, -, -, h1, -⟩, ⟨-, -, h2, -⟩, ⟨-, h3, -⟩, ⟨h4, -⟩, -⟩ := hdis
  have hlen : l.iQueue.frames.length = init.windowFrames := by
    rw [h.iFrames, placeFrames_length]
  have htable := h.iTable
  have hrx := h.rxBuf
  simp only [Block.Disjoint, Block.Inside, hlen, pointerSize, frameInfoSize, payloadSize] at *
  omega

/-- With a positive mtu no size wrapped around. -/
theorem FdLayout.Ok.sizes {sz : StructSizes} {init : FdInit} {l : FdLayout} {mtu size : Int}
    (h : l.Ok sz init mtu size) (hm : 0 < mtu) :
    size = (init.buffer + init.bufferSize - (alignBuffer init.buffer + sz.fdData) - 4 -
        init.windowFrames * (mtu + 18) - 80 - init.peers * sz.peerInfo) / 8 * 8 ∧
      bufferSizeByMtuEx sz init.peers mtu init.windowFrames init.crcType 1 =
        sz.fdData + 7 + init.peers * sz.peerInfo +
          (getCrcFieldSize init.crcType + mtu + 2 + sz.hdlcData + 7) +
          init.windowFrames * (mtu + 18) + 80 ∧
      l.sQueue.table = alignBuffer (l.hdlc.1 + size + init.windowFrames * (mtu + 18)) := by
  have hA := alignBuffer_eq init.buffer
  have hB := init.bufferSize_lt
  have hlimit := h.limit
  have hsize := h.hdlcSize
  have hroom := h.iRoom
  have hS := h.sTable
  have hP := h.peersEq
  have hhdlc := h.hdlc
  have hcount : (if init.peers = 0 then 1 else init.peers) = init.peers := by
    unfold FdInit.peers
    split <;> simp_all
  have hsizeEq := h.sizeEq
  simp only [bufferSizeByMtuEx, hdlcLlGetBufSizeEx, hcount, Int.mul_one]
  -- the products, as the sizes of the queue and of the peers
  obtain ⟨w, hw⟩ : ∃ w, (init.windowFrames : Int) * (mtu + 10) = w := ⟨_, rfl⟩
  obtain ⟨n, hn⟩ : ∃ n, (sz.peerInfo : Int) * init.peers = n := ⟨_, rfl⟩
  have hw18 : (init.windowFrames : Int) * (mtu + 18) = w + 8 * init.windowFrames := by
    rw [← hw, Int.mul_add, Int.mul_add]
    omega
  have hn' : (init.peers : Int) * sz.peerInfo = n := by rw [← hn, Int.mul_comm]
  have hw0 : mtu ≤ w := by
    have h1 := Int.mul_le_mul_of_nonneg_right (show (1 : Int) ≤ init.windowFrames by
      have := h.window; omega) (show 0 ≤ mtu + 10 by omega)
    omega
  have hn0 : 0 ≤ n := hn ▸ Int.mul_nonneg (Int.natCast_nonneg _) (Int.natCast_nonneg _)
  rw [hw, toInt32_of_range (by omega) (by omega)] at hS
  have hS' := alignBuffer_eq (l.hdlc.1 + size + (8 * init.windowFrames + w))
  rw [hn] at hlimit
  rw [alignBuffer_eq] at hP
  rw [hw18, hn'] at hsizeEq
  rw [hw18, hn']
  refine ⟨?_, ?_, ?_⟩
  · rw [hsizeEq, toInt32_of_range]
    · unfold toInt32 at hsizeEq
      omega
    · unfold toInt32 at hsizeEq
      omega
  · have hcrc : (getCrcFieldSize init.crcType : Int) ≤ 4 := by
      cases init.crcType <;> decide
    have h18 : pointerSize + frameInfoSize + mtu - payloadSize = mtu + 18 := by
      simp only [pointerSize, frameInfoSize, payloadSize]
      omega
    have h1 : toInt32 (mtu + frameHeaderSize) = mtu + 2 :=
      toInt32_of_range (by simp only [frameHeaderSize]; omega) (by simp only [frameHeaderSize]; omega)
    have h2 : toInt32 (mtu + 18) = mtu + 18 := toInt32_of_range (by omega) (by omega)
    have h3 : (mtu + 18) * init.windowFrames = w + 8 * init.windowFrames := by
      rw [Int.mul_comm, hw18]
    simp only [h18, h1, h2, h3]
    simp only [alignStructValue, pointerSize, frameInfoSize, uQueueMaxSize, toInt32]
    omega
  · rw [hS, Int.add_comm w]

/-- With a positive mtu the receive buffer holds a frame exactly when the spare
bytes allow its length to be rounded up. -/
theorem FdLayout.Ok.rxBuf_iff {sz : StructSizes} {init : FdInit} {l : FdLayout} {mtu size : Int}
    (h : l.Ok sz init mtu size) (hm : 0 < mtu) :
    l.hdlc.2.physMtu ≤ l.hdlc.2.rxBufSize ↔
      alignBuffer (init.physMtu sz) ≤ init.physMtu sz + init.spare sz := by
  obtain ⟨hsizeEq, hneed, -⟩ := h.sizes hm
  have hA := alignBuffer_eq init.buffer
  have hB := init.bufferSize_lt
  have henough := h.enough
  have hw := Int.mul_le_mul_of_nonneg_right (show (1 : Int) ≤ init.windowFrames by
    have := h.window; omega) (show 0 ≤ mtu + 18 by omega)
  have hn : (0 : Int) ≤ init.peers * sz.peerInfo :=
    Int.mul_nonneg (Int.natCast_nonneg _) (Int.natCast_nonneg _)
  have hphys : l.hdlc.2.physMtu = mtu + 2 + getCrcFieldSize init.crcType.stored := by
    have h1 : toInt32 (mtu + 2) = mtu + 2 := toInt32_of_range (by omega) (by omega)
    have h2 := h.physMtu (by omega)
    rwa [h1] at h2
  have hoff := getCrcFieldSize_stored init.crcType
  have hH := sz.hdlcData_mod
  rw [hphys, h.rxBuf, FdInit.physMtu, FdInit.spare, ← h.mtuEq, hneed, alignBuffer_eq]
  simp only [frameHeaderSize]
  omega

/-- `tiny_fd_init` lays the memory out safely exactly when the mtu is positive and
the longest frame can be rounded up to the alignment. -/
theorem layout_safe_iff {sz : StructSizes} {init : FdInit} {l : FdLayout}
    (h : fdInit sz init = .ok l) :
    l.Safe sz init ↔ init.Fits sz := by
  obtain ⟨mtu, size, hok⟩ := fdInit_ok h
  have hmtu := hok.mtuEq
  constructor
  · intro hsafe
    rcases Int.lt_or_gt_of_ne hok.mtuNe with hneg | hpos
    · exact absurd hsafe (hok.not_safe hneg)
    · exact ⟨by rwa [← hmtu], (hok.rxBuf_iff hpos).mp hsafe.rxBuf⟩
  · rintro ⟨hpos, hfit⟩
    rw [← hmtu] at hpos
    have hpacked := hok.packed hpos
    exact ⟨hpacked.disjoint, hpacked.inside, (hok.rxBuf_iff hpos).mpr hfit⟩

/-- The smallest buffer for two frames of 64 bytes, at an odd address. -/
def oddInit : FdInit where
  onReadCb := true
  buffer := 4097
  bufferSize := 870
  sendTimeout := 0
  retryTimeout := 100
  windowFrames := 2
  mtu := 64
  crcType := .crc16
  peersCount := 1
  bufferSize_lt := by decide

theorem layout_safe_iff_odd :
    ∃ l, fdInit .linux64 oddInit = .ok l ∧ (l.Safe .linux64 oddInit ↔ oddInit.Fits .linux64) :=
  ⟨_, rfl, layout_safe_iff rfl⟩

/-- Its receive buffer is shorter than the longest frame it takes. -/
theorem odd_buffer_overrun :
    ∃ l, fdInit .linux64 oddInit = .ok l ∧ ¬l.Safe .linux64 oddInit := by
  have h : (match fdInit .linux64 oddInit with
      | .ok l => decide (l.hdlc.2.rxBufSize < l.hdlc.2.physMtu)
      | .error _ => false) = true := by decide +kernel
  cases hl : fdInit .linux64 oddInit with
  | error e =>
      rw [hl] at h
      cases h
  | ok l =>
      rw [hl] at h
      have hlt := of_decide_eq_true h
      refine ⟨l, rfl, fun hs => ?_⟩
      have hrx := hs.rxBuf
      omega

/-- In a buffer whose start is a multiple of the alignment every positive mtu is
safe with a check field. -/
theorem fits_of_aligned {sz : StructSizes} {init : FdInit} {l : FdLayout}
    (h : fdInit sz init = .ok l) (ha : init.buffer % 8 = 0) (hc : init.crcType ≠ .off)
    (hm : 0 < init.effectiveMtu sz init.peers) : init.Fits sz := by
  obtain ⟨mtu, size, hok⟩ := fdInit_ok h
  have henough := hok.enough
  rw [hok.mtuEq] at henough
  refine ⟨hm, ?_⟩
  rw [FdInit.spare, alignBuffer_of_mod ha, if_neg hc, alignBuffer_eq]
  omega

end TinyProto.Fd
