import TinyProto.Crc

/-!
# The Rust checksums

`proto/crc/mod.rs`.  Code that can panic returns an `Except`.  The options are those of
`HdlcCrc`, and the tables are, number for number, those of the C source.
-/

namespace TinyProto.Rust

/-- Why the code panics. -/
inductive Panic where
  | indexOutOfBounds | arithmeticOverflow
deriving DecidableEq, Repr

/-! ## The registers -/

/-- A `sum_bytes` loop: `data[i]` for `i` in `0..len`. -/
def sumBytes {ρ : Type} (sumByte : ρ → Byte → ρ) : ρ → List Byte → Nat → Except Panic ρ
  | crc, _, 0 => .ok crc
  | _, [], _ + 1 => .error .indexOutOfBounds
  | crc, byte :: data, len + 1 => sumBytes sumByte (sumByte crc byte) data len

/-- `Crc8::new`. -/
def Crc8.new : BitVec 8 := 0x00

/-- `Crc8::sum_byte`. -/
def Crc8.sumByte (crc : BitVec 8) (data : Byte) : BitVec 8 := crc + data

/-- `Crc8::sum_bytes`. -/
def Crc8.sumBytes (crc : BitVec 8) (data : List Byte) (len : Nat) : Except Panic (BitVec 8) :=
  Rust.sumBytes Crc8.sumByte crc data len

/-- `Crc8::get`. -/
def Crc8.get (crc : BitVec 8) : BitVec 8 := 0xff - crc

/-- `Crc16::new`. -/
def Crc16.new : BitVec 16 := pppInitFcs16

/-- `Crc16::sum_byte`. -/
def Crc16.sumByte (crc : BitVec 16) (data : Byte) : BitVec 16 :=
  (crc >>> 8) ^^^ fcstab16.getD ((crc.setWidth 8 ^^^ data) &&& 0xff#8).toNat 0

/-- `Crc16::sum_bytes`. -/
def Crc16.sumBytes (crc : BitVec 16) (data : List Byte) (len : Nat) : Except Panic (BitVec 16) :=
  Rust.sumBytes Crc16.sumByte crc data len

/-- `Crc16::get`. -/
def Crc16.get (crc : BitVec 16) : BitVec 16 := crc ^^^ 0xffff

/-- `Crc32::new`. -/
def Crc32.new : BitVec 32 := pppInitFcs32

/-- `Crc32::sum_byte`. -/
def Crc32.sumByte (crc : BitVec 32) (data : Byte) : BitVec 32 :=
  fcstab32.getD ((crc.setWidth 8 ^^^ data) &&& 0xff#8).toNat 0 ^^^ (crc >>> 8)

/-- `Crc32::sum_bytes`. -/
def Crc32.sumBytes (crc : BitVec 32) (data : List Byte) (len : Nat) : Except Panic (BitVec 32) :=
  Rust.sumBytes Crc32.sumByte crc data len

/-- `Crc32::get`. -/
def Crc32.get (crc : BitVec 32) : BitVec 32 := crc ^^^ 0xffffffff

/-- `get_crc_field_size`. -/
def getCrcFieldSize : HdlcCrc → Nat
  | .off => 0
  | .crc8 => 1
  | .crc16 => 2
  | .crc32 => 3
  | .default => 4

/-! ## Against the C checksums -/

variable {ρ : Type} {sumByte : ρ → Byte → ρ} {data : List Byte} {len : Nat}

theorem sumBytes_ok (h : len ≤ data.length) (crc : ρ) :
    sumBytes sumByte crc data len = .ok ((data.take len).foldl sumByte crc) := by
  induction len generalizing crc data with
  | zero => cases data <;> rfl
  | succ len ih =>
    cases data with
    | nil => cases h
    | cons byte data => exact ih (Nat.le_of_succ_le_succ h) _

/-- A slice that is too short is read past its end. -/
theorem sumBytes_panics (h : data.length < len) (crc : ρ) :
    sumBytes sumByte crc data len = .error .indexOutOfBounds := by
  induction len generalizing crc data with
  | zero => cases h
  | succ len ih =>
    cases data with
    | nil => rfl
    | cons byte data => exact ih (Nat.lt_of_succ_lt_succ h) _

/-- Both languages look at the same place of the table. -/
theorem table_index {w : Nat} (hw : 8 ≤ w) (crc : BitVec w) (data : Byte) :
    ((crc.setWidth 8 ^^^ data) &&& 0xff#8).toNat =
      ((crc ^^^ data.setWidth w) &&& (0xff#8).setWidth w).toNat := by
  have hdata : data.toNat < 2 ^ w :=
    Nat.lt_of_lt_of_le data.isLt (Nat.pow_le_pow_right (by decide) hw)
  have hmask : 255 < 2 ^ w := Nat.lt_of_lt_of_le (by decide) (Nat.pow_le_pow_right (by decide) hw)
  have hlow : (0xff#8).toNat = 255 := rfl
  have hmod : ∀ x : Nat, x &&& 255 = x % 2 ^ 8 := fun x => Nat.and_two_pow_sub_one_eq_mod x 8
  rw [BitVec.toNat_and, BitVec.toNat_and, BitVec.toNat_xor, BitVec.toNat_xor, BitVec.toNat_setWidth,
    BitVec.toNat_setWidth, BitVec.toNat_setWidth, hlow, Nat.mod_eq_of_lt hdata,
    Nat.mod_eq_of_lt hmask, hmod, hmod, Nat.xor_mod_two_pow, Nat.xor_mod_two_pow, Nat.mod_mod]

theorem crc16_sumByte : Crc16.sumByte = crc16Byte := by
  funext crc data
  unfold Crc16.sumByte crc16Byte
  rw [table_index (by decide)]
  rfl

theorem crc32_sumByte : Crc32.sumByte = crc32Byte := by
  funext crc data
  unfold Crc32.sumByte crc32Byte
  rw [table_index (by decide)]
  rfl

theorem crc16_get (data : List Byte) :
    Crc16.get (data.foldl Crc16.sumByte Crc16.new) = tinyCrc16 pppInitFcs16 data := by
  unfold Crc16.get tinyCrc16
  rw [crc16_sumByte]
  exact BitVec.xor_allOnes

theorem crc32_get (data : List Byte) :
    Crc32.get (data.foldl Crc32.sumByte Crc32.new) = tinyCrc32 pppInitFcs32 data := by
  unfold Crc32.get tinyCrc32
  rw [crc32_sumByte]
  exact BitVec.xor_allOnes

/-- The C sum is wider, and only its low byte is sent and compared. -/
theorem crc8_get (data : List Byte) :
    Crc8.get (data.foldl Crc8.sumByte Crc8.new) = (tinyChksum initChecksum data).setWidth 8 :=
  (tinyChksum_low data).symm

end TinyProto.Rust
