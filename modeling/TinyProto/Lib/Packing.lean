import Mathlib.Data.List.Basic
import Mathlib.Tactic.Common

/-!
# Blocks laid out in an address space

A `Block` is a start address and a size.  `Packed lo bs hi` says that the blocks
stand one behind the other between two addresses, possibly with gaps.  Packed
blocks are pairwise disjoint and inside of their range (`Packed.disjoint`,
`Packed.inside`).
-/

namespace Packing

/-- The addresses `[start, start + size)`. -/
structure Block where
  start : Int
  size : Int
deriving DecidableEq, Repr

/-- One block ends before the other begins. -/
def Block.Disjoint (a b : Block) : Prop := a.start + a.size ≤ b.start ∨ b.start + b.size ≤ a.start

/-- The block stands between two addresses. -/
def Block.Inside (lo hi : Int) (b : Block) : Prop := lo ≤ b.start ∧ b.start + b.size ≤ hi

instance (a b : Block) : Decidable (a.Disjoint b) := inferInstanceAs (Decidable (_ ∨ _))

instance (lo hi : Int) (b : Block) : Decidable (b.Inside lo hi) :=
  inferInstanceAs (Decidable (_ ∧ _))

/-- Blocks one behind the other. -/
def Packed : Int → List Block → Int → Prop
  | lo, [], hi => lo ≤ hi
  | lo, b :: bs, hi => lo ≤ b.start ∧ 0 ≤ b.size ∧ Packed (b.start + b.size) bs hi

theorem Packed.le : ∀ {lo hi : Int} {bs : List Block}, Packed lo bs hi → lo ≤ hi
  | _, _, [], h => h
  | _, _, _ :: _, ⟨h1, h2, h3⟩ => by
      have h4 := h3.le
      omega

theorem Packed.append : ∀ {lo mid hi : Int} {as bs : List Block},
    Packed lo as mid → Packed mid bs hi → Packed lo (as ++ bs) hi
  | _, _, _, [], [], h, h' => Int.le_trans h h'
  | _, _, _, [], _ :: _, h, ⟨h1, h2, h3⟩ => ⟨Int.le_trans h h1, h2, h3⟩
  | _, _, _, _ :: _, _, ⟨h1, h2, h3⟩, h' => ⟨h1, h2, h3.append h'⟩

/-- A gap in front of the first block. -/
theorem Packed.widen {lo lo' hi : Int} {bs : List Block} (h : Packed lo bs hi) (hle : lo' ≤ lo) :
    Packed lo' bs hi := by
  cases bs with
  | nil => exact Int.le_trans hle h
  | cons b bs => exact ⟨Int.le_trans hle h.1, h.2⟩

theorem Packed.inside : ∀ {lo hi : Int} {bs : List Block}, Packed lo bs hi →
    ∀ b ∈ bs, b.Inside lo hi
  | _, _, [], _, b, hb => by cases hb
  | lo, hi, a :: bs, ⟨h1, h2, h3⟩, b, hb => by
      have hle := h3.le
      cases hb with
      | head => exact ⟨h1, hle⟩
      | tail _ hm =>
          obtain ⟨h4, h5⟩ := h3.inside b hm
          exact ⟨by omega, h5⟩

theorem Packed.disjoint : ∀ {lo hi : Int} {bs : List Block}, Packed lo bs hi →
    bs.Pairwise Block.Disjoint
  | _, _, [], _ => .nil
  | _, _, _ :: _, ⟨_, _, h3⟩ => .cons (fun b hb => Or.inl (h3.inside b hb).1) h3.disjoint

end Packing
