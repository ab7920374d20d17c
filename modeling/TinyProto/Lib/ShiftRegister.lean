import Mathlib.Data.BitVec
import Mathlib.Logic.Function.Iterate

/-!
# Feedback shift registers

A register of `w` bits moves down one place at a time, and the polynomial is added where a
one falls out.  A word of bits is fed in at the low end (`drive`).

The register is linear: two words added bit by bit leave the sum of their registers
(`drive_xor`).  Where the polynomial has its highest bit, no step loses anything
(`shift_injective`), so a burst of at most `w` bits leaves a trace however many zeros follow
(`drive_burst`).
-/

namespace ShiftRegister

variable {w : Nat} {poly : BitVec w}

/-! ## Steps -/

/-- One place down. -/
def shift (poly : BitVec w) (x : BitVec w) : BitVec w :=
  if x.getLsbD 0 then x >>> 1 ^^^ poly else x >>> 1

theorem xor_cancel (a b p : BitVec w) : a ^^^ p ^^^ (b ^^^ p) = a ^^^ b := by
  rw [BitVec.xor_assoc a p, ← BitVec.xor_assoc p b, BitVec.xor_comm p b, BitVec.xor_assoc b p,
    BitVec.xor_self, BitVec.xor_zero]

theorem shift_xor (a b : BitVec w) : shift poly (a ^^^ b) = shift poly a ^^^ shift poly b := by
  unfold shift
  rw [BitVec.getLsbD_xor, BitVec.ushiftRight_xor_distrib]
  cases a.getLsbD 0 <;> cases b.getLsbD 0
  · rfl
  · exact BitVec.xor_assoc _ _ _
  · exact (BitVec.xor_assoc _ _ _).trans
      ((congrArg (_ ^^^ ·) (BitVec.xor_comm _ _)).trans (BitVec.xor_assoc _ _ _).symm)
  · exact (xor_cancel _ _ _).symm

theorem shift_zero : shift poly 0#w = 0#w := by
  simp [shift]

theorem shifts_xor (n : Nat) (a b : BitVec w) :
    (shift poly)^[n] (a ^^^ b) = (shift poly)^[n] a ^^^ (shift poly)^[n] b := by
  induction n generalizing a b with
  | zero => rfl
  | succ n ih => rw [Function.iterate_succ_apply, Function.iterate_succ_apply,
      Function.iterate_succ_apply, shift_xor, ih]

theorem shifts_zero (n : Nat) : (shift poly)^[n] 0#w = 0#w :=
  Function.iterate_fixed shift_zero n

/-- A step forgets nothing, if the polynomial has its highest bit. -/
theorem shift_eq_zero (hpoly : poly.getLsbD (w - 1) = true) {x : BitVec w}
    (h : shift poly x = 0#w) : x = 0#w := by
  have hw : 0 < w := by
    by_contra hw
    rw [BitVec.getLsbD_of_ge _ _ (by omega)] at hpoly
    cases hpoly
  unfold shift at h
  split at h
  · have htop := congrArg (fun v => v.getLsbD (w - 1)) h
    have hout : (x >>> 1).getLsbD (w - 1) = false := by
      rw [BitVec.getLsbD_ushiftRight, BitVec.getLsbD_of_ge _ _ (by omega)]
    rw [BitVec.getLsbD_xor, hout, hpoly, BitVec.getLsbD_zero] at htop
    cases htop
  · next hlow =>
    apply BitVec.eq_of_getLsbD_eq
    intro i _
    cases i with
    | zero => simpa using hlow
    | succ i =>
      have hbit := congrArg (fun v => v.getLsbD i) h
      simpa [BitVec.getLsbD_ushiftRight, Nat.add_comm 1] using hbit

theorem shifts_eq_zero (hpoly : poly.getLsbD (w - 1) = true) (n : Nat) {x : BitVec w}
    (h : (shift poly)^[n] x = 0#w) : x = 0#w := by
  induction n generalizing x with
  | zero => exact h
  | succ n ih => exact shift_eq_zero hpoly (ih h)

/-- Nothing falls out of a register whose lowest bits are clear. -/
theorem shifts_clear (n : Nat) {x : BitVec w} (h : ∀ i, i < n → x.getLsbD i = false) :
    (shift poly)^[n] x = x >>> n := by
  induction n generalizing x with
  | zero => simp
  | succ n ih =>
    have hlow : x.getLsbD 0 = false := h 0 (Nat.succ_pos n)
    have hstep : shift poly x = x >>> 1 := by
      unfold shift
      rw [hlow]
      rfl
    have hrest : ∀ i, i < n → (x >>> 1).getLsbD i = false := by
      intro i hi
      rw [BitVec.getLsbD_ushiftRight]
      exact h (1 + i) (by omega)
    rw [Function.iterate_succ_apply, hstep, ih hrest, ← BitVec.shiftRight_add, Nat.add_comm]

/-- The lowest bits and the others move down apart. -/
theorem shifts_split (n : Nat) (x : BitVec w) :
    (shift poly)^[n] x = x >>> n ^^^ (shift poly)^[n] ((x.setWidth n).setWidth w) := by
  have hsplit : x = x >>> n <<< n ^^^ (x.setWidth n).setWidth w := by
    apply BitVec.eq_of_getLsbD_eq
    intro i hi
    simp only [BitVec.getLsbD_xor, BitVec.getLsbD_shiftLeft, BitVec.getLsbD_ushiftRight,
      BitVec.getLsbD_setWidth]
    by_cases hn : i < n
    · simp [hi, hn]
    · simp [hi, hn, Nat.add_sub_cancel' (Nat.le_of_not_lt hn)]
  have hclear : ∀ i, i < n → (x >>> n <<< n).getLsbD i = false := by
    intro i hi
    simp [hi]
  have hdown : x >>> n <<< n >>> n = x >>> n := by
    apply BitVec.eq_of_getLsbD_eq
    intro i _
    simp only [BitVec.getLsbD_ushiftRight, BitVec.getLsbD_shiftLeft]
    by_cases hn : n + i < w
    · simp [hn]
    · simp [hn, BitVec.getLsbD_of_ge x (n + i) (by omega)]
  conv_lhs => rw [hsplit, shifts_xor, shifts_clear n hclear, hdown]

/-! ## Words -/

/-- A bit at the low end. -/
def ofBit (w : Nat) (b : Bool) : BitVec w := (BitVec.ofBool b).setWidth w

/-- A word of bits fed in. -/
def drive (poly : BitVec w) (x : BitVec w) (bits : List Bool) : BitVec w :=
  bits.foldl (fun x b => shift poly (x ^^^ ofBit w b)) x

@[simp] theorem drive_nil (x : BitVec w) : drive poly x [] = x := rfl

@[simp] theorem drive_cons (x : BitVec w) (b : Bool) (bits : List Bool) :
    drive poly x (b :: bits) = drive poly (shift poly (x ^^^ ofBit w b)) bits := rfl

theorem drive_append (x : BitVec w) (as bs : List Bool) :
    drive poly x (as ++ bs) = drive poly (drive poly x as) bs := List.foldl_append

theorem ofBit_xor (a b : Bool) : ofBit w (a ^^ b) = ofBit w a ^^^ ofBit w b := by
  apply BitVec.eq_of_getLsbD_eq
  intro i hi
  cases a <;> cases b <;> simp [ofBit]

theorem ofBit_false : ofBit w false = 0#w := by
  apply BitVec.eq_of_getLsbD_eq
  intro i hi
  simp [ofBit]

theorem drive_xor (x y : BitVec w) {as bs : List Bool} (h : as.length = bs.length) :
    drive poly (x ^^^ y) (List.zipWith xor as bs) = drive poly x as ^^^ drive poly y bs := by
  induction as generalizing x y bs with
  | nil =>
    cases bs with
    | nil => rfl
    | cons b bs => cases h
  | cons a as ih =>
    cases bs with
    | nil => cases h
    | cons b bs =>
      have hswap : x ^^^ y ^^^ (ofBit w a ^^^ ofBit w b) =
          (x ^^^ ofBit w a) ^^^ (y ^^^ ofBit w b) := by
        rw [BitVec.xor_assoc, BitVec.xor_assoc, ← BitVec.xor_assoc y, ← BitVec.xor_assoc (ofBit w a),
          BitVec.xor_comm y]
      rw [List.zipWith_cons_cons, drive_cons, drive_cons, drive_cons, ofBit_xor, hswap, shift_xor]
      exact ih _ _ (Nat.succ.inj h)

theorem drive_zeros (x : BitVec w) {bits : List Bool} (h : ∀ b ∈ bits, b = false) :
    drive poly x bits = (shift poly)^[bits.length] x := by
  induction bits generalizing x with
  | nil => rfl
  | cons b bits ih =>
    have hb := h b (List.mem_cons_self ..)
    rw [drive_cons, hb, ofBit_false, BitVec.xor_zero,
      ih _ fun b hb => h b (List.mem_cons_of_mem _ hb)]
    rfl

/-- The bits of a word, the first one lowest. -/
def pack (w : Nat) (bits : List Bool) : BitVec w :=
  bits.foldr (fun b x => ofBit w b ^^^ x <<< 1) 0#w

@[simp] theorem pack_nil : pack w [] = 0#w := rfl

@[simp] theorem pack_cons (b : Bool) (bits : List Bool) :
    pack w (b :: bits) = ofBit w b ^^^ pack w bits <<< 1 := rfl

theorem getLsbD_pack {i : Nat} (hi : i < w) (bits : List Bool) :
    (pack w bits).getLsbD i = (bits[i]?).getD false := by
  induction bits generalizing i with
  | nil => simp
  | cons b bits ih =>
    rw [pack_cons, BitVec.getLsbD_xor, BitVec.getLsbD_shiftLeft]
    cases i with
    | zero => simp [ofBit, hi]
    | succ i =>
      have hlow : i < w := by omega
      rw [Nat.add_sub_cancel, ih hlow]
      simp [ofBit, hi]

/-- A word no longer than the register can be added to it at once. -/
theorem drive_pack {bits : List Bool} (h : bits.length ≤ w) (x : BitVec w) :
    drive poly x bits = (shift poly)^[bits.length] (x ^^^ pack w bits) := by
  induction bits generalizing x with
  | nil => simp
  | cons b bits ih =>
    have hlen : bits.length < w := h
    have hup : shift poly (pack w bits <<< 1) = pack w bits := by
      have hclear : ∀ i, i < 1 → (pack w bits <<< 1).getLsbD i = false := by
        intro i hi
        simp [hi]
      have hdown := @shifts_clear _ poly 1 _ hclear
      rw [Function.iterate_one] at hdown
      rw [hdown]
      apply BitVec.eq_of_getLsbD_eq
      intro i hi
      rw [BitVec.getLsbD_ushiftRight, BitVec.getLsbD_shiftLeft, Nat.add_sub_cancel_left]
      by_cases htop : 1 + i < w
      · simp only [htop, decide_true, Bool.true_and, Nat.not_lt.mpr (Nat.le_add_right 1 i),
          decide_false, Bool.not_false]
      · have hbit : bits[i]? = none := List.getElem?_eq_none (by omega)
        rw [getLsbD_pack hi, hbit]
        simp [htop]
    rw [drive_cons, ih (Nat.le_of_lt hlen), List.length_cons, Function.iterate_succ_apply, pack_cons,
      ← BitVec.xor_assoc, shift_xor (x ^^^ ofBit w b), hup]

/-- A word with a one whose ones are at most `w` places apart leaves a trace. -/
theorem drive_burst (hpoly : poly.getLsbD (w - 1) = true) {bits : List Bool} {j k : Nat}
    (hone : bits[j]? = some true) (hburst : ∀ i, bits[i]? = some true → k ≤ i ∧ i < k + w) :
    drive poly 0#w bits ≠ 0#w := by
  obtain ⟨burst, hb⟩ : ∃ burst, (bits.drop k).take w = burst := ⟨_, rfl⟩
  obtain ⟨hkj, hjk⟩ := hburst j hone
  have hlen : burst.length ≤ w := by
    rw [← hb, List.length_take]
    exact Nat.min_le_left _ _
  have hbefore : ∀ b ∈ bits.take k, b = false := by
    intro b hm
    obtain ⟨i, hi⟩ := List.mem_iff_getElem?.mp hm
    rw [List.getElem?_take] at hi
    split at hi
    · cases b with
      | false => rfl
      | true =>
        have hin := hburst i hi
        omega
    · cases hi
  have hbehind : ∀ b ∈ (bits.drop k).drop w, b = false := by
    intro b hm
    obtain ⟨i, hi⟩ := List.mem_iff_getElem?.mp hm
    rw [List.getElem?_drop, List.getElem?_drop] at hi
    cases b with
    | false => rfl
    | true =>
      have hin := hburst _ hi
      omega
  have hsplit : bits = bits.take k ++ (burst ++ (bits.drop k).drop w) := by
    rw [← hb, List.take_append_drop, List.take_append_drop]
  have hpack : pack w burst ≠ 0#w := by
    intro hzero
    have hlow : j - k < w := by omega
    have hbit : burst[j - k]? = some true := by
      rw [← hb, List.getElem?_take_of_lt hlow, List.getElem?_drop, Nat.add_sub_cancel' hkj, hone]
    have hset := getLsbD_pack hlow burst
    rw [hzero, hbit, BitVec.getLsbD_zero] at hset
    cases hset
  rw [hsplit, drive_append, drive_append, drive_zeros _ hbefore, shifts_zero,
    drive_pack hlen, drive_zeros _ hbehind, BitVec.zero_xor]
  intro hzero
  exact hpack (shifts_eq_zero hpoly _ (shifts_eq_zero hpoly _ hzero))

/-! ## Bytes -/

/-- The bits of a number, the lowest first. -/
def bitsOf {n : Nat} (v : BitVec n) : List Bool := (List.range n).map v.getLsbD

@[simp] theorem length_bitsOf {n : Nat} (v : BitVec n) : (bitsOf v).length = n := by
  simp [bitsOf]

theorem getElem?_bitsOf {n i : Nat} (hi : i < n) (v : BitVec n) :
    (bitsOf v)[i]? = some (v.getLsbD i) := by
  simp [bitsOf, hi]

theorem drive_bitsOf {n : Nat} (hn : n ≤ w) (x : BitVec w) (v : BitVec n) :
    drive poly x (bitsOf v) = (shift poly)^[n] (x ^^^ v.setWidth w) := by
  have hpack : pack w (bitsOf v) = v.setWidth w := by
    apply BitVec.eq_of_getLsbD_eq
    intro i hi
    rw [getLsbD_pack hi, BitVec.getLsbD_setWidth]
    by_cases hin : i < n
    · simp [getElem?_bitsOf hin, hi]
    · have hout : (bitsOf v)[i]? = none := List.getElem?_eq_none (by rw [length_bitsOf]; omega)
      rw [hout, BitVec.getLsbD_of_ge _ _ (Nat.le_of_not_lt hin)]
      simp
  rw [drive_pack (by rw [length_bitsOf]; exact hn), hpack, length_bitsOf]

/-- The bits of bytes, the lowest of the first byte first. -/
def bytesBits (bytes : List (BitVec 8)) : List Bool := bytes.flatMap bitsOf

@[simp] theorem bytesBits_nil : bytesBits [] = [] := rfl

@[simp] theorem bytesBits_cons (b : BitVec 8) (bytes : List (BitVec 8)) :
    bytesBits (b :: bytes) = bitsOf b ++ bytesBits bytes := rfl

theorem bytesBits_append (as bs : List (BitVec 8)) :
    bytesBits (as ++ bs) = bytesBits as ++ bytesBits bs := List.flatMap_append

theorem length_bytesBits (bytes : List (BitVec 8)) :
    (bytesBits bytes).length = 8 * bytes.length := by
  induction bytes with
  | nil => rfl
  | cons b bytes ih =>
    rw [bytesBits_cons, List.length_append, length_bitsOf, ih, List.length_cons]
    omega

theorem getElem?_bytesBits (bytes : List (BitVec 8)) (i : Nat) :
    (bytesBits bytes)[i]? = bytes[i / 8]?.map fun b => b.getLsbD (i % 8) := by
  induction bytes generalizing i with
  | nil => simp
  | cons b bytes ih =>
    rw [bytesBits_cons]
    by_cases hi : i < 8
    · have hzero : i / 8 = 0 := Nat.div_eq_of_lt hi
      rw [List.getElem?_append_left (by rw [length_bitsOf]; exact hi), getElem?_bitsOf hi, hzero,
        Nat.mod_eq_of_lt hi]
      rfl
    · have hdiv : i / 8 = (i - 8) / 8 + 1 := by omega
      have hmod : i % 8 = (i - 8) % 8 := by omega
      rw [List.getElem?_append_right (by rw [length_bitsOf]; omega), length_bitsOf, ih, hdiv, hmod,
        List.getElem?_cons_succ]

theorem bytesBits_xor (as bs : List (BitVec 8)) :
    bytesBits (List.zipWith (· ^^^ ·) as bs) = List.zipWith xor (bytesBits as) (bytesBits bs) := by
  apply List.ext_getElem?
  intro i
  rw [getElem?_bytesBits, List.getElem?_zipWith, List.getElem?_zipWith, getElem?_bytesBits,
    getElem?_bytesBits]
  cases as[i / 8]? <;> cases bs[i / 8]? <;> simp

/-- A register that is fed with bytes. -/
theorem foldl_drive {step : BitVec w → BitVec 8 → BitVec w}
    (hstep : ∀ x b, step x b = drive poly x (bitsOf b)) (bytes : List (BitVec 8)) (x : BitVec w) :
    bytes.foldl step x = drive poly x (bytesBits bytes) := by
  induction bytes generalizing x with
  | nil => rfl
  | cons b bytes ih => rw [List.foldl_cons, ih, hstep, bytesBits_cons, drive_append]

/-- A table of what a byte leaves of an empty register does eight steps at once. -/
theorem table_drive (hw : 8 ≤ w) {table : BitVec 8 → BitVec w}
    (htable : ∀ b, table b = (shift poly)^[8] (b.setWidth w)) (x : BitVec w) (b : BitVec 8) :
    x >>> 8 ^^^ table ((x ^^^ b.setWidth w).setWidth 8) = drive poly x (bitsOf b) := by
  have hhigh : (x ^^^ b.setWidth w) >>> 8 = x >>> 8 := by
    apply BitVec.eq_of_getLsbD_eq
    intro i hi
    simp
  rw [drive_bitsOf hw, shifts_split 8 (x ^^^ b.setWidth w), hhigh, htable]

end ShiftRegister
