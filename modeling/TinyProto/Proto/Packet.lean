import TinyProto.Crc
import Mathlib.Data.List.TakeWhile

/-!
# Typed packet fields

`IPacket` of `TinyPacket.h`: the `put` overloads write a field behind the last one, and the
`get*` functions read one field after another.  Nothing checks the bounds of the buffer, so
what leaves it is `none` here.

A packet whose fields fit is read back as it was written, unless the last field is an empty
string and its terminator is the last byte of the buffer (`round_trips_iff`).
-/

namespace TinyProto

/-! ## Packets -/

/-- A C string: the bytes in front of its terminator. -/
structure CString where
  bytes : List Byte
  terminated : 0 ∉ bytes
deriving DecidableEq

/-- An `IPacket`.  `m_size` is the length of the buffer. -/
structure IPacket where
  /-- The bytes behind `m_buf`. -/
  buf : List Byte
  /-- `m_len`: the length of the payload. -/
  len : Nat
  /-- `m_p`: where the next field is read. -/
  p : Nat
deriving DecidableEq

namespace IPacket

/-- The conversion of an `int` to `size_t`. -/
def sizeT (n : Int) : Nat := if 0 ≤ n then n.toNat else (n + 0x10000000000000000).toNat

theorem sizeT_natCast (n : Nat) : sizeT n = n := if_pos (Int.natCast_nonneg n)

/-- `maxSize`. -/
def maxSize (pkt : IPacket) : Nat := pkt.buf.length

/-- `size`. -/
def size (pkt : IPacket) : Nat := pkt.len

/-- `availableBytes`. -/
def availableBytes (pkt : IPacket) : Nat := sizeT (pkt.len - pkt.p)

/-- `clear`. -/
def clear (pkt : IPacket) : IPacket := { pkt with len := 0, p := 0 }

/-! ## Writing -/

/-- `put(uint8_t)`. -/
def putByte (pkt : IPacket) (byte : Byte) : Option IPacket :=
  if pkt.len < pkt.maxSize then
    some { pkt with buf := pkt.buf.set pkt.len byte, len := pkt.len + 1 }
  else none

/-- `put(char)`. -/
def putChar (pkt : IPacket) (chr : Int8) : Option IPacket := pkt.putByte chr.toBitVec

/-- `put(uint16_t)`. -/
def putUint16 (pkt : IPacket) (data : BitVec 16) : Option IPacket := do
  let pkt ← pkt.putByte ((data &&& 0x00FF).setWidth 8)
  pkt.putByte ((data >>> 8).setWidth 8)

/-- `put(uint32_t)`. -/
def putUint32 (pkt : IPacket) (data : BitVec 32) : Option IPacket := do
  let pkt ← pkt.putUint16 ((data &&& 0x0000FFFF).setWidth 16)
  pkt.putUint16 ((data >>> 16).setWidth 16)

/-- `put(int16_t)`. -/
def putInt16 (pkt : IPacket) (data : Int16) : Option IPacket := pkt.putUint16 data.toBitVec

/-- `strncpy` to the place behind the payload: the string, cut or filled up with zeros. -/
def strncpy (pkt : IPacket) (str : CString) (n : Nat) : Option IPacket :=
  if pkt.len + n ≤ pkt.maxSize then
    some { pkt with
      buf := pkt.buf.take pkt.len ++
        (str.bytes.take n ++ List.replicate (n - str.bytes.length) 0) ++ pkt.buf.drop (pkt.len + n) }
  else none

/-- `put(const char *)`. -/
def putString (pkt : IPacket) (str : CString) : Option IPacket := do
  let room : Int := pkt.maxSize - pkt.len - 1
  if room = 0 then return pkt
  let strSize : Int := str.bytes.length
  let pkt ← pkt.strncpy str (sizeT room)
  let pkt := { pkt with len := (pkt.len + if strSize < room then strSize else room).toNat }
  pkt.putByte 0

/-! ## Reading -/

/-- `getByte`. -/
def getByte (pkt : IPacket) : Option (Byte × IPacket) := do
  let byte ← pkt.buf[pkt.p]?
  return (byte, { pkt with p := pkt.p + 1 })

/-- `getChar`. -/
def getChar (pkt : IPacket) : Option (Int8 × IPacket) := do
  let (byte, pkt) ← pkt.getByte
  return (Int8.ofBitVec byte, pkt)

/-- `getUint16`. -/
def getUint16 (pkt : IPacket) : Option (BitVec 16 × IPacket) := do
  let (t, pkt) ← pkt.getByte
  let (byte, pkt) ← pkt.getByte
  return (t.setWidth 16 ||| byte.setWidth 16 <<< 8, pkt)

/-- `getInt16`. -/
def getInt16 (pkt : IPacket) : Option (Int16 × IPacket) := do
  let (data, pkt) ← pkt.getUint16
  return (Int16.ofBitVec data, pkt)

/-- `getUint32`.  Which half is read first is left to the compiler; it is the low one here, as
the unit test has it. -/
def getUint32 (pkt : IPacket) : Option (BitVec 32 × IPacket) := do
  let (low, pkt) ← pkt.getUint16
  let (high, pkt) ← pkt.getUint16
  return (low.setWidth 32 ||| high.setWidth 32 <<< 16, pkt)

/-- The string at the front of the bytes. -/
def stringAt (bs : List Byte) : CString where
  bytes := bs.takeWhile (· ≠ 0)
  terminated h := by simpa using List.mem_takeWhile_imp h

/-- `getString`. -/
def getString (pkt : IPacket) : Option (CString × IPacket) :=
  let tail := pkt.buf.drop pkt.p
  if 0 ∈ tail then
    let str := stringAt tail
    some (str, { pkt with p := pkt.p + (str.bytes.length + 1) })
  else none

end IPacket

/-! ## Fields -/

/-- The types a field can have. -/
inductive FieldType where
  | byte | chr | uint16 | uint32 | int16 | string
deriving DecidableEq

/-- A field. -/
inductive Field where
  | byte (byte : Byte)
  | chr (chr : Int8)
  | uint16 (data : BitVec 16)
  | uint32 (data : BitVec 32)
  | int16 (data : Int16)
  | string (str : CString)
deriving DecidableEq

namespace Field

def type : Field → FieldType
  | byte _ => .byte
  | chr _ => .chr
  | uint16 _ => .uint16
  | uint32 _ => .uint32
  | int16 _ => .int16
  | string _ => .string

/-- The bytes of a field in the packet. -/
def size : Field → Nat
  | byte _ | chr _ => 1
  | uint16 _ | int16 _ => 2
  | uint32 _ => 4
  | string str => str.bytes.length + 1

end Field

namespace IPacket

/-- The `put` for the field. -/
def put (pkt : IPacket) : Field → Option IPacket
  | .byte byte => pkt.putByte byte
  | .chr chr => pkt.putChar chr
  | .uint16 data => pkt.putUint16 data
  | .uint32 data => pkt.putUint32 data
  | .int16 data => pkt.putInt16 data
  | .string str => pkt.putString str

/-- The `get*` for the type. -/
def get (pkt : IPacket) : FieldType → Option (Field × IPacket)
  | .byte => pkt.getByte.map fun r => (.byte r.1, r.2)
  | .chr => pkt.getChar.map fun r => (.chr r.1, r.2)
  | .uint16 => pkt.getUint16.map fun r => (.uint16 r.1, r.2)
  | .uint32 => pkt.getUint32.map fun r => (.uint32 r.1, r.2)
  | .int16 => pkt.getInt16.map fun r => (.int16 r.1, r.2)
  | .string => pkt.getString.map fun r => (.string r.1, r.2)

/-- The fields put one after another. -/
def putAll (pkt : IPacket) : List Field → Option IPacket
  | [] => some pkt
  | f :: fs => do
      let pkt ← pkt.put f
      pkt.putAll fs

/-- Fields of these types read one after another. -/
def getAll (pkt : IPacket) : List FieldType → Option (List Field × IPacket)
  | [] => some ([], pkt)
  | t :: ts => do
      let (f, pkt) ← pkt.get t
      let (fs, pkt) ← pkt.getAll ts
      return (f :: fs, pkt)

end IPacket

/-! ## What a field looks like in the packet -/

/-- Two bytes, the low one first. -/
def bytes16 (data : BitVec 16) : List Byte :=
  [(data &&& 0x00FF).setWidth 8, (data >>> 8).setWidth 8]

/-- The bytes of a field. -/
def Field.encode : Field → List Byte
  | byte b => [b]
  | chr c => [c.toBitVec]
  | uint16 data => bytes16 data
  | uint32 data =>
      bytes16 ((data &&& 0x0000FFFF).setWidth 16) ++ bytes16 ((data >>> 16).setWidth 16)
  | int16 data => bytes16 data.toBitVec
  | string str => str.bytes ++ [0]

theorem Field.length_encode (f : Field) : f.encode.length = f.size := by
  cases f <;> simp [encode, size, bytes16]

theorem Field.size_pos (f : Field) : 0 < f.size := by
  cases f <;> simp [size]

namespace IPacket

variable {pkt pkt' pkt'' : IPacket} {bs bs' rest : List Byte}

/-- What was put. -/
def payload (pkt : IPacket) : List Byte := pkt.buf.take pkt.len

/-- What was put and is not read yet. -/
def unread (pkt : IPacket) : List Byte := pkt.payload.drop pkt.p

/-! ## The writers -/

/-- The bytes are put behind the payload. -/
structure Wrote (pkt pkt' : IPacket) (bs : List Byte) : Prop where
  len : pkt'.len = pkt.len + bs.length
  maxSize : pkt'.maxSize = pkt.maxSize
  payload : pkt'.payload = pkt.payload ++ bs
  p : pkt'.p = pkt.p

theorem Wrote.append (h : Wrote pkt pkt' bs) (h' : Wrote pkt' pkt'' bs') :
    Wrote pkt pkt'' (bs ++ bs') where
  len := by rw [h'.len, h.len, List.length_append, Nat.add_assoc]
  maxSize := h'.maxSize.trans h.maxSize
  payload := by rw [h'.payload, h.payload, List.append_assoc]
  p := h'.p.trans h.p

theorem putByte_wrote (hr : pkt.len + 1 ≤ pkt.maxSize) (byte : Byte) :
    ∃ pkt', pkt.putByte byte = some pkt' ∧ Wrote pkt pkt' [byte] := by
  refine ⟨_, if_pos hr, rfl, List.length_set, ?_, rfl⟩
  show (pkt.buf.set pkt.len byte).take (pkt.len + 1) = pkt.buf.take pkt.len ++ [byte]
  rw [List.take_add_one, List.take_set_of_le (Nat.le_refl _), List.getElem?_set_self hr]
  rfl

theorem putUint16_wrote (hr : pkt.len + 2 ≤ pkt.maxSize) (data : BitVec 16) :
    ∃ pkt', pkt.putUint16 data = some pkt' ∧ Wrote pkt pkt' (bytes16 data) := by
  obtain ⟨pkt₁, h₁, hw₁⟩ := putByte_wrote (Nat.le_of_succ_le hr) ((data &&& 0x00FF).setWidth 8)
  have hr₁ : pkt₁.len + 1 ≤ pkt₁.maxSize := by
    rw [hw₁.len, hw₁.maxSize]
    exact hr
  obtain ⟨pkt₂, h₂, hw₂⟩ := putByte_wrote hr₁ ((data >>> 8).setWidth 8)
  refine ⟨pkt₂, ?_, hw₁.append hw₂⟩
  rw [putUint16, h₁]
  exact h₂

theorem putUint32_wrote (hr : pkt.len + 4 ≤ pkt.maxSize) (data : BitVec 32) :
    ∃ pkt', pkt.putUint32 data = some pkt' ∧ Wrote pkt pkt' (Field.uint32 data).encode := by
  obtain ⟨pkt₁, h₁, hw₁⟩ :=
    @putUint16_wrote pkt (by omega) ((data &&& 0x0000FFFF).setWidth 16)
  have hr₁ : pkt₁.len + 2 ≤ pkt₁.maxSize := by
    rw [hw₁.len, hw₁.maxSize]
    exact hr
  obtain ⟨pkt₂, h₂, hw₂⟩ := putUint16_wrote hr₁ ((data >>> 16).setWidth 16)
  refine ⟨pkt₂, ?_, hw₁.append hw₂⟩
  rw [putUint32, h₁]
  exact h₂

/-- A string is put behind the payload when more than its terminator fits. -/
theorem putString_wrote {str : CString} (hr : pkt.len + (str.bytes.length + 1) ≤ pkt.maxSize)
    (hroom : pkt.len + 1 ≠ pkt.maxSize) :
    ∃ pkt', pkt.putString str = some pkt' ∧ Wrote pkt pkt' (Field.string str).encode := by
  obtain ⟨room, hroomd⟩ : ∃ room : Nat, pkt.maxSize = pkt.len + room + 1 :=
    ⟨pkt.maxSize - pkt.len - 1, by omega⟩
  have hint : (pkt.maxSize : Int) - pkt.len - 1 = room := by omega
  have hne : (room : Int) ≠ 0 := by omega
  have hfit : str.bytes.length ≤ room := by omega
  have hmin : ((pkt.len : Int) + if (str.bytes.length : Int) < room then (str.bytes.length : Int)
      else room).toNat = pkt.len + str.bytes.length := by
    split <;> omega
  obtain ⟨pkt₁, hcopy⟩ : ∃ pkt₁ : IPacket, pkt₁ = { pkt with
      buf := pkt.buf.take pkt.len ++ (str.bytes.take room ++
        List.replicate (room - str.bytes.length) 0) ++ pkt.buf.drop (pkt.len + room)
      len := pkt.len + str.bytes.length } := ⟨_, rfl⟩
  have hput : pkt.putString str = pkt₁.putByte 0 := by
    have hle : pkt.len + room ≤ pkt.maxSize := by omega
    simp only [putString, hint, if_neg hne, sizeT_natCast, strncpy, if_pos hle]
    show putByte _ 0 = pkt₁.putByte 0
    rw [hmin, hcopy]
  have hlen : (pkt.buf.take pkt.len).length = pkt.len := by
    rw [List.length_take]
    exact Nat.min_eq_left (by unfold maxSize at hroomd; omega)
  have hbuf : pkt₁.buf = (pkt.payload ++ str.bytes) ++
      (List.replicate (room - str.bytes.length) 0 ++ pkt.buf.drop (pkt.len + room)) := by
    rw [hcopy]
    simp only [payload, List.take_of_length_le hfit, List.append_assoc]
  have hw₁ : Wrote pkt pkt₁ str.bytes := by
    refine ⟨by rw [hcopy], ?_, ?_, by rw [hcopy]⟩
    · unfold maxSize at hroomd ⊢
      rw [hbuf]
      simp only [payload, List.length_append, hlen, List.length_replicate, List.length_drop]
      omega
    · have hpos : pkt₁.len = (pkt.payload ++ str.bytes).length := by
        rw [hcopy, List.length_append, payload, hlen]
      rw [payload, hpos, hbuf, List.take_left]
  have hr₁ : pkt₁.len + 1 ≤ pkt₁.maxSize := by
    rw [hw₁.len, hw₁.maxSize]
    omega
  obtain ⟨pkt₂, h₂, hw₂⟩ := putByte_wrote hr₁ 0
  exact ⟨pkt₂, hput.trans h₂, hw₁.append hw₂⟩

/-- With one byte left no string is put. -/
theorem putString_last (hr : pkt.len + 1 = pkt.maxSize) (str : CString) :
    pkt.putString str = some pkt := by
  have hroom : (pkt.maxSize : Int) - pkt.len - 1 = 0 := by omega
  rw [putString, if_pos hroom]
  rfl

/-- Where a `put` drops its field: a string, with one byte left. -/
def Drops (pkt : IPacket) (f : Field) : Prop := f.type = .string ∧ pkt.len + 1 = pkt.maxSize

theorem put_wrote {f : Field} (hr : pkt.len + f.size ≤ pkt.maxSize) (hd : ¬pkt.Drops f) :
    ∃ pkt', pkt.put f = some pkt' ∧ Wrote pkt pkt' f.encode := by
  cases f with
  | byte byte => exact putByte_wrote hr byte
  | chr chr => exact putByte_wrote hr chr.toBitVec
  | uint16 data => exact putUint16_wrote hr data
  | uint32 data => exact putUint32_wrote hr data
  | int16 data => exact putUint16_wrote hr data.toBitVec
  | string str => exact putString_wrote hr fun h => hd ⟨rfl, h⟩

/-! ## The readers -/

/-- The next bytes are passed over. -/
def skip (pkt : IPacket) (n : Nat) : IPacket := { pkt with p := pkt.p + n }

theorem unread_skip (h : pkt.unread = bs ++ rest) : (pkt.skip bs.length).unread = rest := by
  show pkt.payload.drop (pkt.p + bs.length) = rest
  rw [← List.drop_drop, show pkt.payload.drop pkt.p = bs ++ rest from h, List.drop_left]

/-- The buffer from the next field on. -/
theorem drop_p (h : pkt.unread ≠ []) : pkt.buf.drop pkt.p = pkt.unread ++ pkt.buf.drop pkt.len := by
  have hp : pkt.p ≤ (pkt.buf.take pkt.len).length := by
    by_contra hc
    exact h (List.drop_eq_nil_of_le (Nat.le_of_lt (Nat.not_le.mp hc)))
  have hsplit := List.take_append_drop pkt.len pkt.buf
  calc pkt.buf.drop pkt.p
      = (pkt.buf.take pkt.len ++ pkt.buf.drop pkt.len).drop pkt.p := by rw [hsplit]
    _ = pkt.unread ++ pkt.buf.drop pkt.len := List.drop_append_of_le_length hp

theorem getByte_unread {byte : Byte} (h : pkt.unread = byte :: rest) :
    pkt.getByte = some (byte, pkt.skip 1) := by
  have hne : pkt.unread ≠ [] := by rw [h]; exact List.cons_ne_nil _ _
  have hget : pkt.buf[pkt.p]? = some byte := by
    have hdrop := drop_p hne
    rw [h] at hdrop
    calc pkt.buf[pkt.p]? = (pkt.buf.drop pkt.p)[0]? := by rw [List.getElem?_drop, Nat.add_zero]
      _ = some byte := by rw [hdrop]; rfl
  rw [getByte, hget]
  rfl

/-- A word is its two halves. -/
theorem join_halves {w : Nat} (x : BitVec (w + w)) :
    (x.setWidth w).setWidth (w + w) ||| ((x >>> w).setWidth w).setWidth (w + w) <<< w = x := by
  apply BitVec.eq_of_getLsbD_eq
  intro i hi
  by_cases h : i < w
  · simp [hi, h]
  · have hsum : w + (i - w) = i := by omega
    have hlt : i - w < w := by omega
    simp [hi, h, hsum, hlt]

theorem getUint16_unread {data : BitVec 16} (h : pkt.unread = bytes16 data ++ rest) :
    pkt.getUint16 = some (data, pkt.skip 2) := by
  have hlow : (data &&& 0x00FF).setWidth 8 = data.setWidth 8 := by
    rw [BitVec.setWidth_and]
    exact BitVec.and_allOnes
  have hjoin := @join_halves 8 data
  have h₂ := getByte_unread (@unread_skip pkt [_] _ h)
  simp only [getUint16, getByte_unread h, Option.bind_eq_bind, Option.bind_some]
  rw [List.length_singleton] at h₂
  simp only [h₂, hlow, Option.bind_some]
  rw [hjoin]
  rfl

theorem getUint32_unread {data : BitVec 32} (h : pkt.unread = (Field.uint32 data).encode ++ rest) :
    pkt.getUint32 = some (data, pkt.skip 4) := by
  have hlow : (data &&& 0x0000FFFF).setWidth 16 = data.setWidth 16 := by
    rw [BitVec.setWidth_and]
    exact BitVec.and_allOnes
  have hjoin := @join_halves 16 data
  rw [Field.encode, List.append_assoc] at h
  have h₂ := getUint16_unread (unread_skip h)
  simp only [getUint32, getUint16_unread h, Option.bind_eq_bind, Option.bind_some]
  rw [show (bytes16 ((data &&& 0x0000FFFF).setWidth 16)).length = 2 from rfl] at h₂
  simp only [h₂, hlow, Option.bind_some]
  rw [hjoin]
  rfl

theorem getString_unread {str : CString}
    (h : pkt.unread = (Field.string str).encode ++ rest) :
    pkt.getString = some (str, pkt.skip (str.bytes.length + 1)) := by
  have hne : pkt.unread ≠ [] := by
    rw [h, Field.encode]
    simp
  have hdrop : pkt.buf.drop pkt.p = str.bytes ++ 0 :: (rest ++ pkt.buf.drop pkt.len) := by
    rw [drop_p hne, h, Field.encode]
    simp
  have hstr : stringAt (pkt.buf.drop pkt.p) = str := by
    have htake : (pkt.buf.drop pkt.p).takeWhile (· ≠ 0) = str.bytes := by
      rw [hdrop, List.takeWhile_append_of_pos]
      · simp
      · intro b hb
        exact decide_eq_true fun h => str.terminated (h ▸ hb)
    unfold stringAt
    simp only [htake]
  have hmem : (0 : Byte) ∈ pkt.buf.drop pkt.p := by
    rw [hdrop]
    simp
  simp only [getString, if_pos hmem, hstr]
  rfl

theorem get_unread {f : Field} (h : pkt.unread = f.encode ++ rest) :
    pkt.get f.type = some (f, pkt.skip f.size) := by
  cases f with
  | byte byte => simp [Field.type, get, getByte_unread h, Field.size]
  | chr chr => simp [Field.type, get, getChar, getByte_unread h, Field.size]
  | uint16 data => simp [Field.type, get, getUint16_unread h, Field.size]
  | uint32 data => simp [Field.type, get, getUint32_unread h, Field.size]
  | int16 data => simp [Field.type, get, getInt16, getUint16_unread h, Field.size]
  | string str => simp [Field.type, get, getString_unread h, Field.size]

/-! ## Sequences of fields -/

/-- The bytes of the fields in the packet. -/
def totalSize (fs : List Field) : Nat := fs.foldr (fun f n => f.size + n) 0

@[simp] theorem totalSize_nil : totalSize [] = 0 := rfl

@[simp] theorem totalSize_cons (f : Field) (fs : List Field) :
    totalSize (f :: fs) = f.size + totalSize fs := rfl

theorem totalSize_append (fs gs : List Field) :
    totalSize (fs ++ gs) = totalSize fs + totalSize gs := by
  induction fs with
  | nil => exact (Nat.zero_add _).symm
  | cons f fs ih => rw [List.cons_append, totalSize_cons, totalSize_cons, ih, Nat.add_assoc]

theorem totalSize_eq_zero {fs : List Field} (h : totalSize fs = 0) : fs = [] := by
  cases fs with
  | nil => rfl
  | cons f fs =>
    rw [totalSize_cons] at h
    exact absurd f.size_pos (by omega)

theorem length_flatMap_encode (fs : List Field) :
    (fs.flatMap Field.encode).length = totalSize fs := by
  induction fs with
  | nil => rfl
  | cons f fs ih =>
    rw [List.flatMap_cons, List.length_append, f.length_encode, ih, totalSize_cons]

/-- The empty string. -/
def emptyString : CString := ⟨[], List.not_mem_nil⟩

/-- The last field is an empty string, and its terminator the last byte the fields may take. -/
def LastDropped (room : Nat) (fs : List Field) : Prop :=
  totalSize fs = room ∧ fs.getLast? = some (.string emptyString)

/-- A field that is dropped although it fits is an empty string. -/
theorem Drops.eq_empty {f : Field} (hd : pkt.Drops f) (hr : pkt.len + f.size ≤ pkt.maxSize) :
    f = .string emptyString := by
  obtain ⟨ht, hlast⟩ := hd
  cases f with
  | string str =>
    have hnil : str.bytes = [] := by
      rw [← List.length_eq_zero_iff]
      rw [Field.size] at hr
      omega
    obtain ⟨bytes, hb⟩ := str
    cases hnil
    rfl
  | _ => cases ht

theorem putAll_wrote {fs : List Field} (hr : pkt.len + totalSize fs ≤ pkt.maxSize)
    (hd : ¬LastDropped (pkt.maxSize - pkt.len) fs) :
    ∃ pkt', pkt.putAll fs = some pkt' ∧ Wrote pkt pkt' (fs.flatMap Field.encode) := by
  induction fs generalizing pkt with
  | nil => exact ⟨pkt, rfl, rfl, rfl, (List.append_nil _).symm, rfl⟩
  | cons f fs ih =>
    rw [totalSize_cons] at hr
    have hf : ¬pkt.Drops f := by
      -- The fields behind it would have no place.
      intro hdrop
      have hempty := hdrop.eq_empty (by omega)
      have hlast := hdrop.2
      have hsize : f.size = 1 := by rw [hempty]; rfl
      have hnil := @totalSize_eq_zero fs (by omega)
      refine hd ⟨?_, ?_⟩
      · rw [hnil, totalSize_cons, totalSize_nil]
        omega
      · rw [hnil, hempty]
        rfl
    obtain ⟨pkt₁, h₁, hw₁⟩ := put_wrote (by omega) hf
    have hlen := hw₁.len
    rw [f.length_encode] at hlen
    have hd₁ : ¬LastDropped (pkt₁.maxSize - pkt₁.len) fs := by
      rintro ⟨htotal, hlast⟩
      rw [hw₁.maxSize] at htotal
      refine hd ⟨?_, ?_⟩
      · rw [totalSize_cons]
        omega
      · cases fs with
        | nil => cases hlast
        | cons g gs => rwa [List.getLast?_cons_cons]
    obtain ⟨pkt₂, h₂, hw₂⟩ := @ih pkt₁ (by rw [hw₁.maxSize]; omega) hd₁
    refine ⟨pkt₂, ?_, hw₁.append hw₂⟩
    rw [putAll, h₁]
    exact h₂

theorem putAll_append (fs gs : List Field) :
    pkt.putAll (fs ++ gs) = (pkt.putAll fs).bind (·.putAll gs) := by
  induction fs generalizing pkt with
  | nil => rfl
  | cons f fs ih =>
    show ((pkt.put f).bind fun pkt => pkt.putAll (fs ++ gs)) = _
    simp only [ih]
    exact Option.bind_assoc .. |>.symm

theorem getAll_unread {fs : List Field} (h : pkt.unread = fs.flatMap Field.encode ++ rest) :
    pkt.getAll (fs.map Field.type) = some (fs, pkt.skip (totalSize fs)) := by
  induction fs generalizing pkt with
  | nil => rfl
  | cons f fs ih =>
    rw [List.flatMap_cons, List.append_assoc] at h
    have hrest := unread_skip h
    rw [f.length_encode] at hrest
    have htail := ih hrest
    rw [List.map_cons, getAll, get_unread h]
    simp only [Option.bind_eq_bind, Option.bind_some, htail]
    rw [totalSize_cons]
    simp only [skip, Nat.add_assoc]
    rfl

/-- The fields are put into the cleared packet and read back. -/
def RoundTrips (pkt : IPacket) (fs : List Field) : Prop :=
  ∃ pkt' pkt'', pkt.clear.putAll fs = some pkt' ∧ pkt'.size = totalSize fs ∧
    pkt'.getAll (fs.map Field.type) = some (fs, pkt'') ∧ pkt''.availableBytes = 0

/-- Fields that fit into the packet are read back if and only if the last one is no empty string
in the last byte of the packet. -/
theorem round_trips_iff (pkt : IPacket) {fs : List Field} (hr : totalSize fs ≤ pkt.maxSize) :
    pkt.RoundTrips fs ↔ ¬LastDropped pkt.maxSize fs := by
  constructor
  · rintro ⟨pkt', -, hput, hsize, -⟩ ⟨htotal, hlast⟩
    -- The fields in front of it leave one byte.
    obtain ⟨init, rfl⟩ := List.getLast?_eq_some_iff.mp hlast
    rw [totalSize_append, totalSize_cons, totalSize_nil] at htotal hsize
    have hone : (Field.string emptyString).size = 1 := rfl
    have hd : ¬LastDropped (pkt.clear.maxSize - pkt.clear.len) init := by
      rintro ⟨h, -⟩
      rw [show pkt.clear.maxSize - pkt.clear.len = pkt.maxSize from rfl] at h
      omega
    obtain ⟨pkt₁, h₁, hw₁⟩ := @putAll_wrote pkt.clear init
      (by show 0 + totalSize init ≤ pkt.maxSize; omega) hd
    have hlen := hw₁.len
    rw [length_flatMap_encode, show pkt.clear.len = 0 from rfl] at hlen
    have hlast₁ : pkt₁.len + 1 = pkt₁.maxSize := by
      rw [hw₁.maxSize, show pkt.clear.maxSize = pkt.maxSize from rfl]
      omega
    have hput₁ : pkt.clear.putAll (init ++ [.string emptyString]) = some pkt₁ := by
      rw [putAll_append, h₁]
      show (pkt₁.putString emptyString).bind (·.putAll []) = _
      rw [putString_last hlast₁]
      rfl
    rw [hput₁] at hput
    cases hput
    rw [size] at hsize
    omega
  · intro hd
    obtain ⟨pkt', hput, hw⟩ := @putAll_wrote pkt.clear fs
      (by show 0 + totalSize fs ≤ pkt.maxSize; omega) hd
    have hlen := hw.len
    rw [length_flatMap_encode, show pkt.clear.len = 0 from rfl, Nat.zero_add] at hlen
    have hp : pkt'.p = 0 := hw.p
    have hunread : pkt'.unread = fs.flatMap Field.encode ++ [] := by
      have hnil : pkt.clear.payload = [] := List.take_zero
      rw [unread, hp, List.drop_zero, hw.payload, hnil, List.nil_append, List.append_nil]
    refine ⟨pkt', pkt'.skip (totalSize fs), hput, hlen, getAll_unread hunread, ?_⟩
    rw [availableBytes, skip, hp, hlen, Nat.zero_add, Int.sub_self]
    rfl

/-- The unit test's fields, without its nested packet. -/
theorem round_trips_iff_test :
    RoundTrips ⟨List.replicate 16 0, 0, 0⟩ [.byte 0x32, .chr 65, .uint16 0x24, .uint32 0x1632,
      .int16 (-1), .string ⟨[72, 101, 108, 108, 111], by decide⟩] :=
  (round_trips_iff ⟨List.replicate 16 0, 0, 0⟩ (by decide)).mpr fun h => by
    cases h.2

/-- An empty string as the only field of a packet with one byte. -/
theorem empty_string_dropped :
    ¬∀ (pkt : IPacket) (fs : List Field), totalSize fs ≤ pkt.maxSize → pkt.RoundTrips fs := by
  intro h
  obtain ⟨pkt', -, hput, hsize, -⟩ := h ⟨[0], 0, 0⟩ [.string emptyString] (by decide)
  have hput' : (clear ⟨[0], 0, 0⟩).putAll [.string emptyString] = some ⟨[0], 0, 0⟩ := by
    decide +kernel
  rw [hput'] at hput
  cases hput
  exact absurd hsize (by decide)

end IPacket

end TinyProto
