import TinyProto.Lib.ShiftRegister
import TinyProto.Hdlc.Deframe

/-!
# Errors that the check field detects

Both tables are those of a shift register, so a frame body with its check field leaves the
same residue whatever the payload is (`residue16`, `residue32`).  An error leaves what it
would leave in an empty register, and that is not zero for a burst no longer than the check
field.  The byte sum is treated the same way, for one changed byte.
-/

namespace TinyProto.Hdlc

open ShiftRegister

variable {π : Type} {c : HdlcCrc} {payload body error : List Byte}

/-! ## The registers -/

/-- The FCS-16 polynomial, lowest power first. -/
def poly16 : BitVec 16 := 0x8408

/-- The FCS-32 polynomial, lowest power first. -/
def poly32 : BitVec 32 := 0xEDB88320

theorem fcstab16_shift : ∀ b : Byte,
    fcstab16.getD b.toNat 0 = (shift poly16)^[8] (b.setWidth 16) := by
  decide +kernel

theorem fcstab32_shift : ∀ b : Byte,
    fcstab32.getD b.toNat 0 = (shift poly32)^[8] (b.setWidth 32) := by
  decide +kernel

/-- The mask leaves the low byte. -/
theorem toNat_and_low {w : Nat} (hw : 8 ≤ w) (x : BitVec w) :
    (x &&& (0xff#8).setWidth w).toNat = (x.setWidth 8).toNat := by
  have hmask : 255 < 2 ^ w := Nat.lt_of_lt_of_le (by decide) (Nat.pow_le_pow_right (by decide) hw)
  have hlow : (0xff#8).toNat = 255 := rfl
  have hmod : ∀ x : Nat, x &&& 255 = x % 2 ^ 8 := fun x => Nat.and_two_pow_sub_one_eq_mod x 8
  rw [BitVec.toNat_and, BitVec.toNat_setWidth, BitVec.toNat_setWidth, hlow, Nat.mod_eq_of_lt hmask,
    hmod]

theorem crc16Byte_drive (crc : BitVec 16) (data : Byte) :
    crc16Byte crc data = drive poly16 crc (bitsOf data) := by
  rw [← table_drive (by decide) fcstab16_shift, ← toNat_and_low (by decide)]
  rfl

theorem crc32Byte_drive (crc : BitVec 32) (data : Byte) :
    crc32Byte crc data = drive poly32 crc (bitsOf data) := by
  rw [← table_drive (by decide) fcstab32_shift, ← toNat_and_low (by decide), BitVec.xor_comm]
  rfl

/-! ## Residues -/

/-- A register that is fed with its complement. -/
theorem drive_complement {w : Nat} {poly : BitVec w} (x : BitVec w) :
    drive poly x (bitsOf (~~~x)) = (shift poly)^[w] (BitVec.allOnes w) := by
  have hones : x ^^^ ~~~x = BitVec.allOnes w := by
    apply BitVec.eq_of_getLsbD_eq
    intro i hi
    simp [hi]
  rw [drive_bitsOf (Nat.le_refl w), BitVec.setWidth_eq, hones]

theorem bytesBits_fcs16 (payload : List Byte) :
    bytesBits (fcs .crc16 payload) = bitsOf (tinyCrc16 pppInitFcs16 payload) := by
  simp [fcs, checkBytes, txCrc, HdlcCrc.value, bitsOf, List.range_succ]

theorem bytesBits_fcs32 (payload : List Byte) :
    bytesBits (fcs .crc32 payload) = bitsOf (tinyCrc32 pppInitFcs32 payload) := by
  simp [fcs, checkBytes, txCrc, HdlcCrc.value, bitsOf, List.range_succ]

theorem residue16 (payload : List Byte) :
    drive poly16 pppInitFcs16 (bytesBits (payload ++ fcs .crc16 payload)) =
      (shift poly16)^[16] (BitVec.allOnes 16) := by
  rw [bytesBits_append, drive_append, bytesBits_fcs16, tinyCrc16, foldl_drive crc16Byte_drive,
    drive_complement]

theorem residue32 (payload : List Byte) :
    drive poly32 pppInitFcs32 (bytesBits (payload ++ fcs .crc32 payload)) =
      (shift poly32)^[32] (BitVec.allOnes 32) := by
  rw [bytesBits_append, drive_append, bytesBits_fcs32, tinyCrc32, foldl_drive crc32Byte_drive,
    drive_complement]

/-- The bytes of a body and its check field add up to the same. -/
theorem residue8 (payload : List Byte) :
    (payload ++ fcs .crc8 payload).foldl (· + ·) 0#8 = 0xff#8 := by
  have hfcs : fcs .crc8 payload = [(tinyChksum initChecksum payload).setWidth 8] := by
    simp [fcs, checkBytes, txCrc, HdlcCrc.value, List.range_succ]
  rw [hfcs, tinyChksum_low, List.foldl_append, List.foldl_cons, List.foldl_nil]
  apply BitVec.eq_of_toNat_eq
  simp only [BitVec.toNat_add, BitVec.toNat_sub]
  omega

/-! ## Errors -/

/-- A bit of a body, the lowest of the first byte first. -/
def bitAt (bytes : List Byte) (i : Nat) : Bool := (bytes.getD (i / 8) 0).getLsbD (i % 8)

/-- The ones of an error are some and lie in `n` consecutive places. -/
def Burst (n : Nat) (error : List Byte) : Prop :=
  (∃ i, bitAt error i = true) ∧ ∃ k, ∀ i, bitAt error i = true → k ≤ i ∧ i < k + n

/-- An error that changes one byte. -/
def OneByte (error : List Byte) : Prop :=
  ∃ k, error.getD k 0 ≠ 0 ∧ ∀ i, i ≠ k → error.getD i 0 = 0

/-- The errors that an option is there to detect. -/
def Detected : HdlcCrc → List Byte → Prop
  | .crc8, error => OneByte error
  | .crc16, error => Burst 16 error
  | .crc32, error => Burst 32 error
  | _, _ => False

/-- A body with the bits of an error changed. -/
def corrupt (body error : List Byte) : List Byte := List.zipWith (· ^^^ ·) body error

@[simp] theorem length_corrupt (h : error.length = body.length) :
    (corrupt body error).length = body.length := by
  rw [corrupt, List.length_zipWith, h, Nat.min_self]

theorem getElem?_bits (bytes : List Byte) (i : Nat) :
    (bytesBits bytes)[i]? = some true ↔ bitAt bytes i = true := by
  rw [getElem?_bytesBits, bitAt, List.getD_eq_getElem?_getD]
  cases bytes[i / 8]? with
  | none => simp
  | some b => simp

/-- A burst leaves a trace in the register, whatever was in it. -/
theorem drive_corrupt {w : Nat} {poly : BitVec w} (hpoly : poly.getLsbD (w - 1) = true)
    (hlen : error.length = body.length) (hburst : Burst w error) (x : BitVec w) :
    drive poly x (bytesBits (corrupt body error)) ≠ drive poly x (bytesBits body) := by
  intro h
  obtain ⟨⟨j, hj⟩, k, hk⟩ := hburst
  have hsum : drive poly (x ^^^ 0#w) (bytesBits (corrupt body error)) =
      drive poly x (bytesBits body) ^^^ drive poly 0#w (bytesBits error) := by
    rw [corrupt, bytesBits_xor]
    exact drive_xor x 0#w (by rw [length_bytesBits, length_bytesBits, hlen])
  rw [BitVec.xor_zero, h] at hsum
  have hzero : drive poly 0#w (bytesBits error) = 0#w := by
    have hcancel := congrArg (drive poly x (bytesBits body) ^^^ ·) hsum
    rw [BitVec.xor_self, ← BitVec.xor_assoc, BitVec.xor_self, BitVec.zero_xor] at hcancel
    exact hcancel.symm
  exact drive_burst hpoly ((getElem?_bits error j).mpr hj)
    (fun i hi => hk i ((getElem?_bits error i).mp hi)) hzero

/-- One byte changed changes the sum. -/
theorem sum_corrupt (hlen : error.length = body.length) (hone : OneByte error) :
    (corrupt body error).foldl (· + ·) 0#8 ≠ body.foldl (· + ·) 0#8 := by
  obtain ⟨k, hk, hothers⟩ := hone
  have hlt : k < error.length := by
    by_contra hge
    rw [List.getD_eq_getElem?_getD, List.getElem?_eq_none (by omega)] at hk
    exact hk rfl
  have hlt' : k < body.length := hlen ▸ hlt
  have hset : corrupt body error = body.set k (body[k] ^^^ error[k]) := by
    apply List.ext_getElem?
    intro i
    rw [corrupt, List.getElem?_zipWith, List.getElem?_set]
    by_cases hik : k = i
    · subst hik
      simp [hlt, hlt']
    · have hzero := hothers i (Ne.symm hik)
      rw [List.getD_eq_getElem?_getD] at hzero
      rw [if_neg hik]
      by_cases hi : i < body.length
      · have hi' : i < error.length := hlen ▸ hi
        rw [List.getElem?_eq_getElem hi', Option.getD_some] at hzero
        simp [hi, hi', hzero]
      · simp [List.getElem?_eq_none (Nat.le_of_not_lt hi)]
  have hfold : ∀ (l : List Byte) (x y : Byte),
      l.foldl (· + ·) (x + y) = l.foldl (· + ·) x + y := by
    intro l
    induction l with
    | nil => exact fun _ _ => rfl
    | cons b l ih =>
      intro x y
      rw [List.foldl_cons, List.foldl_cons, ← ih, BitVec.add_assoc, BitVec.add_comm y,
        ← BitVec.add_assoc]
  intro hsum
  rw [hset, List.set_eq_take_append_cons_drop, if_pos hlt'] at hsum
  conv_rhs at hsum => rw [← List.take_append_drop k body, List.drop_eq_getElem_cons hlt']
  rw [List.foldl_append, List.foldl_append, List.foldl_cons, List.foldl_cons, hfold, hfold] at hsum
  have hbyte : body[k] ^^^ error[k] = body[k] := by
    have hleft := congrArg
      (· - (body.drop (k + 1)).foldl (· + ·) ((body.take k).foldl (· + ·) 0#8)) hsum
    simpa [BitVec.add_comm] using hleft
  have hzero : error[k] = 0#8 := by
    have hcancel := congrArg (body[k] ^^^ ·) hbyte
    simp only [← BitVec.xor_assoc, BitVec.xor_self, BitVec.zero_xor] at hcancel
    exact hcancel
  rw [List.getD_eq_getElem?_getD, List.getElem?_eq_getElem hlt, Option.getD_some] at hk
  exact hk hzero

/-- A body that is corrupted so has no right check field. -/
theorem checkBody_corrupt (hdet : Detected c error)
    (hlen : error.length = (payload ++ fcs c payload).length) :
    checkBody c (corrupt (payload ++ fcs c payload) error) = .error .wrongCrc := by
  cases hcheck : checkBody c (corrupt (payload ++ fcs c payload) error) with
  | error status =>
    unfold checkBody at hcheck
    dsimp only at hcheck
    split at hcheck
    · exact hcheck.symm
    · split at hcheck
      · cases hcheck
      · exact hcheck.symm
  | ok other =>
    exfalso
    have hright : corrupt (payload ++ fcs c payload) error = other ++ fcs c other := by
      unfold checkBody at hcheck
      dsimp only at hcheck
      split at hcheck
      · cases hcheck
      · split at hcheck
        · next heq =>
          cases hcheck
          rw [heq, List.take_append_drop]
        · cases hcheck
    cases c with
    | default => exact hdet
    | off => exact hdet
    | crc8 =>
      refine sum_corrupt hlen hdet ?_
      rw [hright, residue8, residue8]
    | crc16 =>
      refine drive_corrupt (show poly16.getLsbD (16 - 1) = true from rfl) hlen hdet pppInitFcs16 ?_
      rw [hright, residue16, residue16]
    | crc32 =>
      refine drive_corrupt (show poly32.getLsbD (32 - 1) = true from rfl) hlen hdet pppInitFcs32 ?_
      rw [hright, residue32, residue32]

/-! ## The receiver -/

theorem Detected.stored (hdet : Detected c error) : c.stored = c := by
  cases c with
  | off => exact absurd hdet id
  | _ => rfl

/-- A frame whose bytes were corrupted on the way is answered with `TINY_ERR_WRONG_CRC`, and
nothing of it reaches the user. -/
theorem corrupted_rejected {h : HdlcLl π} (hdet : Detected h.crcType error)
    (hlen : error.length = (payload ++ fcs h.crcType payload).length)
    (hbody : h.body = corrupt (payload ++ fcs h.crcType payload) error)
    (hfits : (h.body.length : Int) ≤ h.physMtu) :
    (readEnd h).result = .error .wrongCrc ∧ (readEnd h).read = none := by
  have hcheck := checkBody_corrupt hdet hlen
  have hn : h.body.length = (h.rx.ptr - h.rx.activeFrameBuf).toNat := by
    rw [HdlcLl.body, length_rxBytes]
  have hpos : h.body.length ≠ 0 := by
    intro hzero
    have hnil : corrupt (payload ++ fcs h.crcType payload) error = [] := by
      rw [← hbody]
      exact List.eq_nil_of_length_eq_zero hzero
    rw [hbody, length_corrupt hlen] at hzero
    have herror : error = [] := List.eq_nil_of_length_eq_zero (hlen.trans hzero)
    rw [herror] at hdet
    cases hct : h.crcType with
    | default => rw [hct] at hdet; exact hdet
    | off => rw [hct] at hdet; exact hdet
    | crc8 =>
      rw [hct] at hdet
      obtain ⟨k, hk, -⟩ := hdet
      exact hk rfl
    | crc16 =>
      rw [hct] at hdet
      obtain ⟨⟨i, hi⟩, -⟩ := hdet
      simp [bitAt] at hi
    | crc32 =>
      rw [hct] at hdet
      obtain ⟨⟨i, hi⟩, -⟩ := hdet
      simp [bitAt] at hi
  have hp : h.rx.ptr = h.rx.activeFrameBuf + h.body.length := by omega
  rw [← hbody, checkBody_body hdet.stored hp] at hcheck
  rw [readEnd_eq hp hpos hfits]
  split at hcheck
  · next hwrong =>
    rw [if_pos hwrong]
    exact ⟨rfl, rfl⟩
  · cases hcheck

/-- A handle that has read the frame of `"12"` with three bits changed, two of the payload and
one of the check field. -/
def corruptedHandle : HdlcLl (List Byte) where
  rxBuf := fun i => (corrupt [0x31, 0x32, 0xAC, 0xB2] [0x00, 0x81, 0x01, 0x00]).getD i.toNat 0
  rxBufSize := 24
  crcType := .crc16
  physMtu := 10
  rx := { state := .readEnd, ptr := 4, escape := false, activeFrameBuf := 0 }
  tx := Tx.idle

theorem corrupted_rejected_straddling :
    (readEnd corruptedHandle).result = .error .wrongCrc ∧ (readEnd corruptedHandle).read = none := by
  have hburst : Burst 16 [0x00, 0x81, 0x01, 0x00] := by
    refine ⟨⟨8, rfl⟩, 8, fun i hi => ?_⟩
    by_contra hout
    have hbyte : i / 8 = 0 ∨ i / 8 = 3 ∨ 4 ≤ i / 8 := by omega
    rcases hbyte with hz | hz | hz
    · simp [bitAt, hz] at hi
    · simp [bitAt, hz] at hi
    · rw [bitAt, List.getD_eq_getElem?_getD, List.getElem?_eq_none (by exact hz)] at hi
      simp at hi
  exact @corrupted_rejected _ [0x31, 0x32] [0x00, 0x81, 0x01, 0x00] corruptedHandle hburst
    (by decide +kernel) (by decide +kernel) (by decide +kernel)

end TinyProto.Hdlc
