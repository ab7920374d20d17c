import TinyProto.Lib.PolynomialDivision
import TinyProto.Hdlc.Detection

/-!
# The FCS is a division

The tables of `tiny_crc.c` are those of the FCS polynomials, so `tiny_crc16` and `tiny_crc32`
divide bit by bit, the lowest bit of the first byte first, and their registers hold the remainder.
A string with its own FCS behind it leaves the same register always, the good final value
(`fcs_divides`).
-/

namespace TinyProto.Hdlc

open ShiftRegister Polynomial

/-- The bytes of a number, the lowest first. -/
def littleEndian {w : Nat} (v : BitVec w) : List Byte :=
  (List.range (w / 8)).map fun i => (v >>> (8 * i)).setWidth 8

/-- `x**0 + x**5 + x**12 + x**16`. -/
noncomputable def fcs16Polynomial : (ZMod 2)[X] := 1 + X ^ 5 + X ^ 12 + X ^ 16

/-- `x**0 + x**1 + x**2 + x**4 + x**5 + x**7 + x**8 + x**10 + x**11 + x**12 + x**16 + x**22 +
x**23 + x**26 + x**32`. -/
noncomputable def fcs32Polynomial : (ZMod 2)[X] :=
  1 + X + X ^ 2 + X ^ 4 + X ^ 5 + X ^ 7 + X ^ 8 + X ^ 10 + X ^ 11 + X ^ 12 + X ^ 16 + X ^ 22 +
    X ^ 23 + X ^ 26 + X ^ 32

/-! ## The generators -/

theorem coefficient_true : coefficient true = 1 := rfl

theorem coefficient_false : coefficient false = 0 := rfl

theorem generator_poly16 : generator poly16 = fcs16Polynomial := by
  have hbits : ∀ i < 16, poly16.getLsbD i = decide (i ∈ [3, 10, 15]) := by decide
  unfold generator toPoly fcs16Polynomial
  rw [Finset.sum_congr rfl fun i hi => by rw [hbits i (Finset.mem_range.mp hi)]]
  simp [Finset.sum_range_succ, coefficient_true, coefficient_false]
  ring

theorem generator_poly32 : generator poly32 = fcs32Polynomial := by
  have hbits : ∀ i < 32, poly32.getLsbD i =
      decide (i ∈ [5, 8, 9, 15, 19, 20, 21, 23, 24, 26, 27, 29, 30, 31]) := by decide
  unfold generator toPoly fcs32Polynomial
  rw [Finset.sum_congr rfl fun i hi => by rw [hbits i (Finset.mem_range.mp hi)]]
  simp [Finset.sum_range_succ, coefficient_true, coefficient_false]
  ring

/-! ## The registers -/

/-- The register of `tiny_crc16` before the final complement. -/
theorem tinyCrc16_drive (crc : BitVec 16) (data : List Byte) :
    ~~~tinyCrc16 crc data = drive poly16 crc (bytesBits data) := by
  rw [tinyCrc16, BitVec.not_not, foldl_drive crc16Byte_drive]

/-- The register of `tiny_crc32` before the final complement. -/
theorem tinyCrc32_drive (crc : BitVec 32) (data : List Byte) :
    ~~~tinyCrc32 crc data = drive poly32 crc (bytesBits data) := by
  rw [tinyCrc32, BitVec.not_not, foldl_drive crc32Byte_drive]

theorem bytesBits_littleEndian16 (v : BitVec 16) : bytesBits (littleEndian v) = bitsOf v := by
  simp [littleEndian, bitsOf, List.range_succ]

theorem bytesBits_littleEndian32 (v : BitVec 32) : bytesBits (littleEndian v) = bitsOf v := by
  simp [littleEndian, bitsOf, List.range_succ]

/-- A string and its FCS leave what all ones leave. -/
theorem good16 (data : List Byte) :
    ~~~tinyCrc16 pppInitFcs16 (data ++ littleEndian (tinyCrc16 pppInitFcs16 data)) =
      pppGoodFcs16 := by
  have hones : (shift poly16)^[16] (BitVec.allOnes 16) = pppGoodFcs16 := by decide +kernel
  rw [tinyCrc16_drive, bytesBits_append, drive_append, ← tinyCrc16_drive pppInitFcs16 data,
    bytesBits_littleEndian16, ← hones, ← drive_complement (~~~tinyCrc16 pppInitFcs16 data),
    BitVec.not_not]

theorem good32 (data : List Byte) :
    ~~~tinyCrc32 pppInitFcs32 (data ++ littleEndian (tinyCrc32 pppInitFcs32 data)) =
      pppGoodFcs32 := by
  have hones : (shift poly32)^[32] (BitVec.allOnes 32) = pppGoodFcs32 := by decide +kernel
  rw [tinyCrc32_drive, bytesBits_append, drive_append, ← tinyCrc32_drive pppInitFcs32 data,
    bytesBits_littleEndian32, ← hones, ← drive_complement (~~~tinyCrc32 pppInitFcs32 data),
    BitVec.not_not]

/-- The registers of `tiny_crc16` and `tiny_crc32` are those of the bit-serial division, and hold
the remainder of it: that of the register at the start in front of the string.  From the initial
value, a string with its FCS leaves the good final value. -/
theorem fcs_divides :
    (∀ crc data, ~~~tinyCrc16 crc data = drive poly16 crc (bytesBits data) ∧
      toPoly (~~~tinyCrc16 crc data) =
        (X ^ (8 * data.length) * toPoly crc + X ^ 16 * message (bytesBits data)) %ₘ
          fcs16Polynomial) ∧
    (∀ crc data, ~~~tinyCrc32 crc data = drive poly32 crc (bytesBits data) ∧
      toPoly (~~~tinyCrc32 crc data) =
        (X ^ (8 * data.length) * toPoly crc + X ^ 32 * message (bytesBits data)) %ₘ
          fcs32Polynomial) ∧
    (∀ data, ~~~tinyCrc16 pppInitFcs16 (data ++ littleEndian (tinyCrc16 pppInitFcs16 data)) =
      pppGoodFcs16) ∧
    ∀ data, ~~~tinyCrc32 pppInitFcs32 (data ++ littleEndian (tinyCrc32 pppInitFcs32 data)) =
      pppGoodFcs32 := by
  refine ⟨fun crc data => ⟨tinyCrc16_drive crc data, ?_⟩,
    fun crc data => ⟨tinyCrc32_drive crc data, ?_⟩, good16, good32⟩
  · rw [tinyCrc16_drive, toPoly_drive (by decide), length_bytesBits, generator_poly16]
  · rw [tinyCrc32_drive, toPoly_drive (by decide), length_bytesBits, generator_poly32]

end TinyProto.Hdlc
