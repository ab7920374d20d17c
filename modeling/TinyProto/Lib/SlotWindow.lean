import Mathlib.Algebra.GroupWithZero.Nat
import Mathlib.Data.Fintype.Card
import Mathlib.Data.List.Basic
import Mathlib.Logic.Function.Basic
import Mathlib.Tactic.Common

/-!
# A window of a sequence in a table of slots

A sender keeps the items it has not been told to forget in a table of slots, in no
particular order.  Each slot in use has a sequence number of `w` bits and an item.  The
items are the list `u`, and the first of them has the number `base`.

`Covers` says that the table has a slot for each number of the window.  `Holds` says that
the slots in use are exactly those of the window, with its items.
-/

namespace SlotWindow

variable {ι α : Type*} {w : Nat} {table : ι → Option (BitVec w × α)} {base : BitVec w}

/-- The number of the item at position `k`. -/
def number (base : BitVec w) (k : Nat) : BitVec w := base + BitVec.ofNat w k

@[simp] theorem number_zero (base : BitVec w) : number base 0 = base := by
  unfold number
  simp

theorem number_succ (base : BitVec w) (k : Nat) : number base (k + 1) = number (base + 1) k := by
  unfold number
  rw [BitVec.add_assoc, Nat.add_comm k 1, BitVec.ofNat_add]
  rfl

/-- The position of a number. -/
theorem number_sub (base : BitVec w) {k : Nat} (hk : k < 2 ^ w) :
    (number base k - base).toNat = k := by
  unfold number
  rw [BitVec.add_comm, BitVec.add_sub_cancel, BitVec.toNat_ofNat, Nat.mod_eq_of_lt hk]

theorem number_of_sub (base s : BitVec w) : number base (s - base).toNat = s := by
  unfold number
  rw [BitVec.ofNat_toNat, BitVec.setWidth_eq, BitVec.add_comm, BitVec.sub_add_cancel]

theorem number_inj {base : BitVec w} {j k : Nat} (hj : j < 2 ^ w) (hk : k < 2 ^ w)
    (h : number base j = number base k) : j = k := by
  rw [← number_sub base hj, h, number_sub base hk]

/-- Only the first position has the first number. -/
theorem number_succ_ne (base : BitVec w) {k : Nat} (hk : k + 1 < 2 ^ w) :
    number base (k + 1) ≠ base := by
  intro he
  have := number_sub base hk
  rw [he, BitVec.sub_self, BitVec.toNat_zero] at this
  omega

/-- Seen from the second number, a number is one position closer. -/
theorem sub_succ {base s : BitVec w} (hne : s ≠ base) :
    (s - (base + 1)).toNat + 1 = (s - base).toNat := by
  have hs := number_of_sub base s
  have hlt := (s - base).isLt
  cases hk : (s - base).toNat with
  | zero =>
    rw [hk, number_zero] at hs
    exact absurd hs.symm hne
  | succ k =>
    rw [hk] at hs hlt
    rw [← hs, number_succ, number_sub _ (Nat.lt_of_succ_lt hlt)]

/-! ## Covering -/

/-- There is a slot for each of the `n` numbers from `base` on. -/
def Covers (table : ι → Option (BitVec w × α)) (base : BitVec w) (n : Nat) : Prop :=
  ∀ k, k < n → ∃ i x, table i = some (number base k, x)

theorem Covers.empty : Covers table base 0 := fun _ hk => absurd hk (Nat.not_lt_zero _)

/-- The window is no longer than the table, and shorter if a slot is free. -/
theorem Covers.lt_card [Fintype ι] {n : Nat} (hc : Covers table base n) (hn : n ≤ 2 ^ w) {i : ι}
    (hi : table i = none) : n < Fintype.card ι := by
  classical
  choose f x hf using fun k : Fin n => hc k k.isLt
  have hinj : Function.Injective f := by
    intro j k hjk
    have := (hf j).symm.trans ((congrArg table hjk).trans (hf k))
    have hnum := (Prod.mk.inj (Option.some.inj this)).1
    exact Fin.ext (number_inj (Nat.lt_of_lt_of_le j.isLt hn) (Nat.lt_of_lt_of_le k.isLt hn) hnum)
  have hsurj : ¬Function.Surjective f := by
    intro hs
    obtain ⟨k, hk⟩ := hs i
    have := hf k
    rw [hk, hi] at this
    cases this
  have := Fintype.card_lt_of_injective_not_surjective f hinj hsurj
  rwa [Fintype.card_fin] at this

/-- A free slot takes the next number. -/
theorem Covers.push [DecidableEq ι] {n : Nat} (hc : Covers table base n) {i : ι}
    (hi : table i = none) (x : α) :
    Covers (Function.update table i (some (number base n, x))) base (n + 1) := by
  intro k hk
  rcases Nat.lt_succ_iff_lt_or_eq.mp hk with hlt | rfl
  · obtain ⟨j, y, hj⟩ := hc k hlt
    refine ⟨j, y, ?_⟩
    rw [Function.update_of_ne, hj]
    intro hji
    rw [hji, hi] at hj
    cases hj
  · exact ⟨i, x, Function.update_self ..⟩

/-- A slot with the first number is freed. -/
theorem Covers.pop [DecidableEq ι] {n : Nat} (hc : Covers table base (n + 1)) (hn : n < 2 ^ w)
    {i : ι} {x : α}
    (hi : table i = some (base, x)) : Covers (Function.update table i none) (base + 1) n := by
  intro k hk
  obtain ⟨j, y, hj⟩ := hc (k + 1) (Nat.succ_lt_succ hk)
  refine ⟨j, y, ?_⟩
  rw [← number_succ, Function.update_of_ne, hj]
  intro hji
  rw [hji, hi] at hj
  exact number_succ_ne base (Nat.lt_of_le_of_lt hk hn) (Prod.mk.inj (Option.some.inj hj)).1.symm

/-! ## Holding -/

/-- The slots in use are those of the window, and carry its items. -/
structure Holds (table : ι → Option (BitVec w × α)) (base : BitVec w) (u : List α) : Prop where
  /-- Each item of the window has a slot. -/
  slot : ∀ k (hk : k < u.length), ∃ i, table i = some (number base k, u[k])
  /-- No slot is outside of the window. -/
  inside : ∀ i s x, table i = some (s, x) → (s - base).toNat < u.length
  /-- No two slots have the same number. -/
  unique : ∀ i j s x y, table i = some (s, x) → table j = some (s, y) → i = j

variable {u : List α}

theorem Holds.covers (hh : Holds table base u) : Covers table base u.length := fun k hk =>
  let ⟨i, hi⟩ := hh.slot k hk
  ⟨i, u[k], hi⟩

theorem Holds.empty (hnone : ∀ i, table i = none) : Holds table base ([] : List α) where
  slot k hk := absurd hk (Nat.not_lt_zero _)
  inside i s x hi := by
    rw [hnone i] at hi
    cases hi
  unique i j s x y hi := by
    rw [hnone i] at hi
    cases hi

theorem Holds.none_of_nil (hh : Holds table base ([] : List α)) (i : ι) : table i = none := by
  cases hi : table i with
  | none => rfl
  | some r => exact absurd (hh.inside i r.1 r.2 hi) (Nat.not_lt_zero _)

/-- A free slot takes the next item. -/
theorem Holds.push [DecidableEq ι] (hh : Holds table base u) (hu : u.length < 2 ^ w) {i : ι}
    (hi : table i = none)
    (x : α) :
    Holds (Function.update table i (some (number base u.length, x))) base (u ++ [x]) where
  slot k hk := by
    rw [List.length_append, List.length_singleton] at hk
    rcases Nat.lt_succ_iff_lt_or_eq.mp hk with hlt | rfl
    · obtain ⟨j, hj⟩ := hh.slot k hlt
      refine ⟨j, ?_⟩
      rw [Function.update_of_ne, hj, List.getElem_append_left hlt]
      intro hji
      rw [hji, hi] at hj
      cases hj
    · refine ⟨i, ?_⟩
      rw [Function.update_self, List.getElem_concat_length rfl]
  inside j s y hj := by
    rw [List.length_append, List.length_singleton]
    by_cases hji : j = i
    · rw [hji, Function.update_self] at hj
      have hs := (Prod.mk.inj (Option.some.inj hj)).1
      rw [← hs, number_sub base hu]
      exact Nat.lt_succ_self _
    · rw [Function.update_of_ne hji] at hj
      exact Nat.lt_succ_of_lt (hh.inside j s y hj)
  unique j k s y z hj hk := by
    -- The new number is outside of the old window.
    have hnew : ∀ j y, table j ≠ some (number base u.length, y) := by
      intro j y hj
      have := hh.inside j _ y hj
      rw [number_sub base hu] at this
      exact absurd this (Nat.lt_irrefl _)
    by_cases hji : j = i <;> by_cases hki : k = i
    · rw [hji, hki]
    · rw [hji, Function.update_self] at hj
      rw [Function.update_of_ne hki, ← (Prod.mk.inj (Option.some.inj hj)).1] at hk
      exact absurd hk (hnew k z)
    · rw [hki, Function.update_self] at hk
      rw [Function.update_of_ne hji, ← (Prod.mk.inj (Option.some.inj hk)).1] at hj
      exact absurd hj (hnew j y)
    · rw [Function.update_of_ne hji] at hj
      rw [Function.update_of_ne hki] at hk
      exact hh.unique j k s y z hj hk

/-- The slot with the first number has the first item. -/
theorem Holds.head {i : ι} {x : α} (hh : Holds table base u) (hi : table i = some (base, x)) :
    u.head? = some x := by
  have hpos : 0 < u.length := Nat.lt_of_le_of_lt (Nat.zero_le _) (hh.inside i base x hi)
  obtain ⟨j, hj⟩ := hh.slot 0 hpos
  rw [number_zero] at hj
  have hij := hh.unique i j base x _ hi hj
  rw [← hij, hi] at hj
  rw [List.head?_eq_getElem?, List.getElem?_eq_getElem hpos]
  exact congrArg some (Prod.mk.inj (Option.some.inj hj)).2.symm

/-- A slot with the first number is freed. -/
theorem Holds.pop [DecidableEq ι] {i : ι} {x y : α} (hh : Holds table base (y :: u))
    (hu : u.length < 2 ^ w)
    (hi : table i = some (base, x)) : Holds (Function.update table i none) (base + 1) u where
  slot k hk := by
    obtain ⟨j, hj⟩ := hh.slot (k + 1) (Nat.succ_lt_succ hk)
    refine ⟨j, ?_⟩
    rw [← number_succ, Function.update_of_ne, hj, List.getElem_cons_succ]
    intro hji
    rw [hji, hi] at hj
    exact number_succ_ne base (Nat.lt_of_le_of_lt hk hu) (Prod.mk.inj (Option.some.inj hj)).1.symm
  inside j s z hj := by
    by_cases hji : j = i
    · rw [hji, Function.update_self] at hj
      cases hj
    · rw [Function.update_of_ne hji] at hj
      have hlt := hh.inside j s z hj
      have hne : s ≠ base := by
        rintro rfl
        exact hji (hh.unique j i s z x hj hi)
      rw [← sub_succ hne, List.length_cons] at hlt
      exact Nat.lt_of_succ_lt_succ hlt
  unique j k s z z' hj hk := by
    by_cases hji : j = i
    · rw [hji, Function.update_self] at hj
      cases hj
    · by_cases hki : k = i
      · rw [hki, Function.update_self] at hk
        cases hk
      · rw [Function.update_of_ne hji] at hj
        rw [Function.update_of_ne hki] at hk
        exact hh.unique j k s z z' hj hk

end SlotWindow
