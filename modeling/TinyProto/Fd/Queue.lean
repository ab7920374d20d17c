import TinyProto.Crc
import Mathlib.Algebra.Group.Fin.Basic
import Mathlib.Algebra.GroupWithZero.Nat
import Mathlib.Data.List.FinRange
import Mathlib.Data.Fintype.Card
import Mathlib.Logic.Function.Basic

/-!
# The frame queue

`proto/fd/tiny_fd_frames_queue.c`: a table of `n` slots and the index the search
starts from.  A slot is named by its index where the source uses a pointer to it
or to its header.

The search visits every slot once, so `getNext_some` and `getNext_none` describe
it by the slots alone.  Only the choice among several slots that fit depends on
`lookup_index`.
-/

namespace TinyProto.Fd

/-- A sequence number, masked with `seq_bits_mask`. -/
abbrev Seq := BitVec 3

/-! ## Slots -/

/-- `tiny_fd_queue_type_t`. -/
inductive QueueType where
  | free | uFrame | sFrame | iFrame
deriving DecidableEq, Repr

/-- `tiny_fd_frame_info_t`.  The length is that of the payload. -/
structure Slot where
  type : QueueType
  address : Byte
  control : Byte
  payload : List Byte
deriving DecidableEq, Repr

/-- A slot of the cleared buffer. -/
def Slot.empty : Slot := { type := .free, address := 0, control := 0, payload := [] }

/-- The bytes from the header on. -/
def Slot.bytes (s : Slot) : List Byte := s.address :: s.control :: s.payload

/-- The N(S) of a control field. -/
def nsOf (control : Byte) : Seq := (control >>> 1).setWidth 3

/-- The N(R) of a control field. -/
def nrOf (control : Byte) : Seq := (control >>> 5).setWidth 3

/-- Two address fields name the same station. -/
def sameStation (a b : Byte) : Bool := a &&& 0xFC == b &&& 0xFC

/-- The test of `tiny_fd_queue_get_next` for one slot, with the mask of types as a
list. -/
def Slot.fits (s : Slot) (types : List QueueType) (address : Byte) (arg : Seq) : Bool :=
  types.contains s.type &&
    (s.type == .free ||
      (sameStation address s.address && (s.type != .iFrame || nsOf s.control == arg)))

/-! ## The queue -/

/-- `tiny_fd_queue_t`. -/
structure Queue (n : Nat) where
  frames : Fin n → Slot
  /-- First index to start the search from. -/
  lookupIndex : Fin n
  mtu : Int

variable {n : Nat}

/-- The number of slots of the service queue. -/
instance serviceSlots : NeZero 4 := ⟨Nat.succ_ne_zero 3⟩

/-- A queue as `tiny_fd_queue_init` leaves it. -/
def queueReset (n : Nat) [NeZero n] (mtu : Int) : Queue n :=
  { frames := fun _ => Slot.empty, lookupIndex := 0, mtu := mtu }

/-- The slots in the order in which the search visits them. -/
def Queue.order (q : Queue n) : List (Fin n) := (List.finRange n).map (q.lookupIndex + ·)

/-- `tiny_fd_queue_get_next`. -/
def Queue.getNext (q : Queue n) (types : List QueueType) (address : Byte) (arg : Seq) :
    Option (Fin n) :=
  q.order.find? fun i => (q.frames i).fits types address arg

/-- `tiny_fd_queue_has_free_slots`. -/
def Queue.hasFreeSlots (q : Queue n) : Bool := (q.getNext [.free] 0 0).isSome

/-- One slot replaced. -/
def Queue.setFrame (q : Queue n) (i : Fin n) (s : Slot) : Queue n :=
  { q with frames := Function.update q.frames i s }

/-- `tiny_fd_queue_allocate`.  The address and the control field of the slot stay
what they were. -/
def Queue.allocate (q : Queue n) (type : QueueType) (data : List Byte) :
    Option (Queue n × Fin n) :=
  if data.length ≤ q.mtu then
    (q.getNext [.free] 0 0).map fun i =>
      (q.setFrame i { q.frames i with type := type, payload := data }, i)
  else none

/-- `tiny_fd_queue_free_by_header`, with a pointer to slot `i`. -/
def Queue.freeByHeader [NeZero n] (q : Queue n) (i : Fin n) : Queue n :=
  { q.setFrame i { q.frames i with type := .free } with lookupIndex := i + 1 }

/-- `tiny_fd_queue_reset_for`. -/
def Queue.resetFor (q : Queue n) (address : Byte) : Queue n :=
  { q with frames := fun i =>
      if sameStation (q.frames i).address address then { q.frames i with type := .free }
      else q.frames i }

/-! ## Header fields -/

theorem sameStation_comm (a b : Byte) : sameStation a b = sameStation b a := by
  unfold sameStation
  rw [Bool.eq_iff_iff, beq_iff_eq, beq_iff_eq, eq_comm]

@[simp] theorem sameStation_self (a : Byte) : sameStation a a = true := by
  unfold sameStation
  exact beq_self_eq_true _

theorem sameStation_trans {a b c : Byte} (h : sameStation a b) (h' : sameStation b c) :
    sameStation a c := by
  unfold sameStation at *
  rw [beq_iff_eq] at *
  rw [h, h']

/-- The N(S) of a frame put with `last_ns << 1`. -/
@[simp] theorem nsOf_shift (s : Seq) : nsOf (s.setWidth 8 <<< 1) = s := by
  revert s; decide

/-- Refreshing N(R) keeps N(S). -/
theorem nsOf_refresh (c : Byte) (r : Seq) :
    nsOf (c &&& 0x0F ||| r.setWidth 8 <<< 5) = nsOf c := by
  revert c r; decide +kernel

/-- Setting P/F keeps N(S). -/
@[simp] theorem nsOf_poll (c : Byte) : nsOf (c ||| 0x10) = nsOf c := by
  revert c; decide +kernel

/-! ## The search -/

theorem Queue.mem_order [NeZero n] (q : Queue n) (i : Fin n) : i ∈ q.order := by
  unfold Queue.order
  rw [List.mem_map]
  exact ⟨i - q.lookupIndex, List.mem_finRange _, by rw [add_sub_cancel]⟩

/-- What is found fits. -/
theorem Queue.getNext_some {q : Queue n} {types : List QueueType} {address : Byte} {arg : Seq}
    {i : Fin n} (h : q.getNext types address arg = some i) :
    (q.frames i).fits types address arg = true :=
  List.find?_some (p := fun i => (q.frames i).fits types address arg) h

/-- Nothing is found only if nothing fits. -/
theorem Queue.getNext_none [NeZero n] {q : Queue n} {types : List QueueType} {address : Byte} {arg : Seq}
    (h : q.getNext types address arg = none) (i : Fin n) :
    (q.frames i).fits types address arg = false := by
  have := List.find?_eq_none.mp h i (q.mem_order i)
  exact eq_false_of_ne_true this

theorem Queue.getNext_isSome [NeZero n] {q : Queue n} {types : List QueueType} {address : Byte}
    {arg : Seq}
    {i : Fin n} (h : (q.frames i).fits types address arg = true) :
    ∃ j, q.getNext types address arg = some j := by
  cases hj : q.getNext types address arg with
  | some j => exact ⟨j, rfl⟩
  | none =>
    have := Queue.getNext_none hj i
    rw [h] at this
    cases this

@[simp] theorem Slot.fits_free (s : Slot) : s.fits [.free] 0 0 = (s.type == .free) := by
  unfold Slot.fits
  cases s.type <;> rfl

/-- The slots an I-frame search looks for. -/
theorem Slot.fits_iFrame {s : Slot} {address : Byte} {arg : Seq} :
    s.fits [.iFrame] address arg = true ↔
      s.type = .iFrame ∧ sameStation address s.address ∧ nsOf s.control = arg := by
  unfold Slot.fits
  cases s.type <;> simp

/-- The slots a search for S- and U-frames looks for. -/
theorem Slot.fits_sFrame_uFrame {s : Slot} {address : Byte} {arg : Seq} :
    s.fits [.sFrame, .uFrame] address arg = true ↔
      (s.type = .sFrame ∨ s.type = .uFrame) ∧ sameStation address s.address := by
  unfold Slot.fits
  cases s.type <;> simp

/-! ## Updates -/

@[simp] theorem Queue.setFrame_self (q : Queue n) (i : Fin n) (s : Slot) :
    (q.setFrame i s).frames i = s := Function.update_self ..

theorem Queue.setFrame_ne (q : Queue n) {i j : Fin n} (h : j ≠ i) (s : Slot) :
    (q.setFrame i s).frames j = q.frames j := Function.update_of_ne h ..

@[simp] theorem Queue.setFrame_mtu (q : Queue n) (i : Fin n) (s : Slot) :
    (q.setFrame i s).mtu = q.mtu := rfl

@[simp] theorem Queue.setFrame_lookupIndex (q : Queue n) (i : Fin n) (s : Slot) :
    (q.setFrame i s).lookupIndex = q.lookupIndex := rfl

@[simp] theorem Queue.freeByHeader_self [NeZero n] (q : Queue n) (i : Fin n) :
    (q.freeByHeader i).frames i = { q.frames i with type := .free } := Function.update_self ..

theorem Queue.freeByHeader_ne [NeZero n] (q : Queue n) {i j : Fin n} (h : j ≠ i) :
    (q.freeByHeader i).frames j = q.frames j := Function.update_of_ne h ..

@[simp] theorem Queue.freeByHeader_mtu [NeZero n] (q : Queue n) (i : Fin n) :
    (q.freeByHeader i).mtu = q.mtu := rfl

@[simp] theorem Queue.resetFor_mtu (q : Queue n) (a : Byte) : (q.resetFor a).mtu = q.mtu := rfl

@[simp] theorem Queue.resetFor_lookupIndex (q : Queue n) (a : Byte) :
    (q.resetFor a).lookupIndex = q.lookupIndex := rfl

theorem Queue.resetFor_same {q : Queue n} {a : Byte} {i : Fin n}
    (h : sameStation (q.frames i).address a = true) :
    (q.resetFor a).frames i = { q.frames i with type := .free } := if_pos h

theorem Queue.resetFor_other {q : Queue n} {a : Byte} {i : Fin n}
    (h : sameStation (q.frames i).address a = false) :
    (q.resetFor a).frames i = q.frames i :=
  if_neg (by rw [h]; exact Bool.false_ne_true)

@[simp] theorem Queue.resetFor_address (q : Queue n) (a : Byte) (i : Fin n) :
    ((q.resetFor a).frames i).address = (q.frames i).address := by
  unfold Queue.resetFor
  dsimp only
  split <;> rfl

/-- An allocation takes a free slot and the data, if they fit. -/
theorem Queue.allocate_some {q q' : Queue n} {type : QueueType} {data : List Byte} {i : Fin n}
    (h : q.allocate type data = some (q', i)) :
    data.length ≤ q.mtu ∧ (q.frames i).type = .free ∧
      q' = q.setFrame i { q.frames i with type := type, payload := data } := by
  unfold Queue.allocate at h
  split at h
  · next hm =>
    cases hi : q.getNext [.free] 0 0 with
    | none =>
      rw [hi] at h
      cases h
    | some j =>
      rw [hi] at h
      cases h
      have hf := Queue.getNext_some hi
      rw [Slot.fits_free, beq_iff_eq] at hf
      exact ⟨hm, hf, rfl⟩
  · cases h

/-- The slot is the first free one. -/
theorem Queue.allocate_first {q q' : Queue n} {type : QueueType} {data : List Byte} {i : Fin n}
    (h : q.allocate type data = some (q', i)) : q.getNext [.free] 0 0 = some i := by
  unfold Queue.allocate at h
  split at h
  · obtain ⟨j, hj, hij⟩ := Option.map_eq_some_iff.mp h
    rw [hj, (Prod.mk.inj hij).2]
  · cases h

end TinyProto.Fd
