import TinyProto.Lib.ShiftRegister
import Mathlib.Algebra.Polynomial.Div
import Mathlib.Algebra.Field.ZMod

/-!
# Feedback shift registers divide

A register stands for a polynomial over the field with two elements, its lowest bit for the
highest power (`toPoly`).  A step multiplies by `X` and takes the remainder of the division by
the generator (`toPoly_shift`), so a register that was fed with a word holds the remainder of the
word (`toPoly_drive`).
-/

namespace ShiftRegister

open Polynomial

variable {w : Nat} {poly : BitVec w}

/-! ## Polynomials -/

/-- A bit as a coefficient. -/
def coefficient (b : Bool) : ZMod 2 := b.toNat

/-- The polynomial of a register. -/
noncomputable def toPoly (x : BitVec w) : (ZMod 2)[X] :=
  ∑ i ∈ Finset.range w, C (coefficient (x.getLsbD i)) * X ^ (w - 1 - i)

/-- What a register divides by. -/
noncomputable def generator (poly : BitVec w) : (ZMod 2)[X] := X ^ w + toPoly poly

/-- The polynomial of a word, the first bit for the highest power. -/
noncomputable def message : List Bool → (ZMod 2)[X]
  | [] => 0
  | b :: bits => C (coefficient b) * X ^ bits.length + message bits

theorem coefficient_xor (a b : Bool) : coefficient (a ^^ b) = coefficient a + coefficient b := by
  revert a b
  decide

theorem coeff_toPoly (x : BitVec w) (k : Nat) :
    (toPoly x).coeff k = if k < w then coefficient (x.getLsbD (w - 1 - k)) else 0 := by
  unfold toPoly
  rw [finsetSum_coeff]
  simp only [coeff_C_mul, coeff_X_pow]
  split
  · next hk =>
    rw [Finset.sum_eq_single (w - 1 - k)]
    · rw [if_pos (by omega), mul_one]
    · intro i hi hne
      rw [Finset.mem_range] at hi
      rw [if_neg (by omega), mul_zero]
    · intro hout
      rw [Finset.mem_range] at hout
      omega
  · next hk =>
    refine Finset.sum_eq_zero fun i hi => ?_
    rw [Finset.mem_range] at hi
    rw [if_neg (by omega), mul_zero]

theorem degree_toPoly (x : BitVec w) : (toPoly x).degree < w := by
  rw [degree_lt_iff_coeff_zero]
  intro k hk
  rw [coeff_toPoly, if_neg (by omega)]

theorem toPoly_xor (x y : BitVec w) : toPoly (x ^^^ y) = toPoly x + toPoly y := by
  ext k
  rw [coeff_add, coeff_toPoly, coeff_toPoly, coeff_toPoly]
  split
  · rw [BitVec.getLsbD_xor, coefficient_xor]
  · rw [add_zero]

theorem generator_monic (poly : BitVec w) : (generator poly).Monic :=
  monic_X_pow_add (degree_toPoly poly)

theorem degree_generator (poly : BitVec w) : (generator poly).degree = w := by
  unfold generator
  rw [degree_add_eq_left_of_degree_lt (by rw [degree_X_pow]; exact degree_toPoly poly), degree_X_pow]

/-! ## Division -/

/-- A step takes away the generator if the highest power would be too high. -/
theorem toPoly_shift_add (x : BitVec w) :
    toPoly (shift poly x) + generator poly * C (coefficient (x.getLsbD 0)) = X * toPoly x := by
  have hbit : ∀ i, coefficient ((shift poly x).getLsbD i) =
      coefficient (x.getLsbD (1 + i)) + coefficient (poly.getLsbD i) * coefficient (x.getLsbD 0) := by
    intro i
    unfold shift
    cases x.getLsbD 0 with
    | true =>
      rw [if_pos rfl, BitVec.getLsbD_xor, BitVec.getLsbD_ushiftRight, coefficient_xor]
      exact congrArg (_ + ·) (mul_one _).symm
    | false =>
      rw [if_neg Bool.false_ne_true, BitVec.getLsbD_ushiftRight]
      exact (add_zero _).symm.trans (congrArg (_ + ·) (mul_zero _).symm)
  have htwo : ∀ a : ZMod 2, a + a = 0 := by decide
  unfold generator
  ext k
  rw [coeff_add, coeff_mul_C, coeff_add, coeff_X_pow, coeff_toPoly, coeff_toPoly]
  cases k with
  | zero =>
    rw [coeff_X_mul_zero]
    by_cases hw : 0 < w
    · rw [if_pos hw, if_neg (by omega), if_pos hw, hbit, BitVec.getLsbD_of_ge x _ (by omega), zero_add]
      exact (congrArg (· + _) (zero_add _)).trans (htwo _)
    · obtain rfl : w = 0 := by omega
      rw [BitVec.getLsbD_of_ge x 0 (Nat.le_refl 0)]
      rfl
  | succ k =>
    rw [coeff_X_mul, coeff_toPoly]
    rcases Nat.lt_trichotomy (k + 1) w with hk | hk | hk
    · have hpos : 1 + (w - 1 - (k + 1)) = w - 1 - k := by omega
      rw [if_pos hk, if_neg (by omega), if_pos hk, if_pos (by omega), hbit, hpos, zero_add, add_assoc,
        htwo, add_zero]
    · have hpos : w - 1 - k = 0 := by omega
      rw [if_neg (by omega), if_pos hk, if_neg (by omega), if_pos (by omega), hpos, add_zero, zero_add,
        one_mul]
    · rw [if_neg (by omega), if_neg (by omega), if_neg (by omega), if_neg (by omega), add_zero,
        zero_mul, add_zero]

/-- A step multiplies by `X` and divides. -/
theorem toPoly_shift (x : BitVec w) :
    toPoly (shift poly x) = (X * toPoly x) %ₘ generator poly :=
  ((div_modByMonic_unique (C (coefficient (x.getLsbD 0))) (toPoly (shift poly x))
    (generator_monic poly)
    ⟨toPoly_shift_add x, by rw [degree_generator]; exact degree_toPoly _⟩).2).symm

theorem X_mul_toPoly_ofBit (hw : 0 < w) (b : Bool) :
    X * toPoly (ofBit w b) = C (coefficient b) * X ^ w := by
  have hlow : ∀ i, (ofBit w b).getLsbD i = (b && decide (i = 0)) := by
    intro i
    by_cases hi : i = 0
    · subst hi
      simp [ofBit, hw]
    · cases b <;> simp [ofBit, hi]
  ext k
  rw [coeff_C_mul, coeff_X_pow]
  cases k with
  | zero => rw [coeff_X_mul_zero, if_neg (by omega), mul_zero]
  | succ k =>
    rw [coeff_X_mul, coeff_toPoly, hlow]
    by_cases hk : k + 1 = w
    · rw [if_pos (by omega), if_pos hk, decide_eq_true (by omega), Bool.and_true, mul_one]
    · rw [if_neg hk, mul_zero]
      split
      · rw [decide_eq_false (by omega), Bool.and_false]
        rfl
      · rfl

/-- The register holds the remainder of what it held and the word behind it. -/
theorem toPoly_drive (hw : 0 < w) (x : BitVec w) (bits : List Bool) :
    toPoly (drive poly x bits) =
      (X ^ bits.length * toPoly x + X ^ w * message bits) %ₘ generator poly := by
  induction bits generalizing x with
  | nil =>
    rw [drive_nil, List.length_nil, pow_zero, one_mul, message, mul_zero, add_zero]
    refine ((modByMonic_eq_self_iff (generator_monic poly)).mpr ?_).symm
    rw [degree_generator]
    exact degree_toPoly x
  | cons b bits ih =>
    have hstep := @toPoly_shift_add w poly (x ^^^ ofBit w b)
    rw [toPoly_xor, mul_add, X_mul_toPoly_ofBit hw] at hstep
    rw [drive_cons, ih]
    refine modByMonic_eq_of_dvd_sub (generator_monic poly) ?_
    generalize C (coefficient ((x ^^^ ofBit w b).getLsbD 0)) = q at hstep
    generalize toPoly (shift poly (x ^^^ ofBit w b)) = y at hstep
    refine ⟨-(q * X ^ bits.length), ?_⟩
    have hy : y = X * toPoly x + C (coefficient b) * X ^ w - generator poly * q :=
      eq_sub_of_add_eq hstep
    rw [hy, message, List.length_cons]
    ring

end ShiftRegister
