import Mathlib.Data.List.Basic
import Mathlib.Tactic.Common

/-!
# Pieces of a word between separators

`pieces sep w` cuts a word at every `sep`.  A word with no separator is one piece,
and a separator ends a piece (`pieces_of_not_mem`, `pieces_append`).  These two
cover every word (`cut`), which gives the induction `cut_induction`.
-/

namespace Pieces

variable {α : Type} [DecidableEq α] {sep : α}

/-- The pieces of a word between separators. -/
def pieces (sep : α) : List α → List (List α)
  | [] => [[]]
  | a :: w =>
      if a = sep then [] :: pieces sep w
      else
        match pieces sep w with
        | [] => [[a]]
        | p :: ps => (a :: p) :: ps

theorem pieces_ne_nil (sep : α) (w : List α) : pieces sep w ≠ [] := by
  cases w with
  | nil => simp [pieces]
  | cons a w =>
      unfold pieces
      split
      · simp
      · split <;> simp

theorem pieces_of_not_mem {w : List α} (h : sep ∉ w) : pieces sep w = [w] := by
  induction w with
  | nil => rfl
  | cons a w ih =>
      have ha : a ≠ sep := fun he => h (he ▸ List.mem_cons_self ..)
      rw [pieces, if_neg ha, ih fun hm => h (List.mem_cons_of_mem _ hm)]

theorem pieces_append {p : List α} (h : sep ∉ p) (w : List α) :
    pieces sep (p ++ sep :: w) = p :: pieces sep w := by
  induction p with
  | nil => rw [List.nil_append, pieces, if_pos rfl]
  | cons a p ih =>
      have ha : a ≠ sep := fun he => h (he ▸ List.mem_cons_self ..)
      rw [List.cons_append, pieces, if_neg ha, ih fun hm => h (List.mem_cons_of_mem _ hm)]

/-- The pieces that a separator ends. -/
def closed (sep : α) (w : List α) : List (List α) := (pieces sep w).dropLast

theorem closed_of_not_mem {w : List α} (h : sep ∉ w) : closed sep w = [] := by
  rw [closed, pieces_of_not_mem h, List.dropLast_singleton]

theorem closed_append {p : List α} (h : sep ∉ p) (w : List α) :
    closed sep (p ++ sep :: w) = p :: closed sep w := by
  rw [closed, pieces_append h, List.dropLast_cons_of_ne_nil (pieces_ne_nil sep w), closed]

/-- A word has no separator, or a first piece that one ends. -/
theorem cut (sep : α) (w : List α) :
    sep ∉ w ∨ ∃ p w', sep ∉ p ∧ w = p ++ sep :: w' := by
  induction w with
  | nil => exact Or.inl List.not_mem_nil
  | cons a w ih =>
      by_cases ha : a = sep
      · exact Or.inr ⟨[], w, List.not_mem_nil, by rw [ha]; rfl⟩
      · rcases ih with h | ⟨p, w', hp, rfl⟩
        · exact Or.inl (List.not_mem_cons_of_ne_of_not_mem (Ne.symm ha) h)
        · exact Or.inr ⟨a :: p, w', List.not_mem_cons_of_ne_of_not_mem (Ne.symm ha) hp, rfl⟩

/-- Induction over the pieces of a word. -/
theorem cut_induction (sep : α) {P : List α → Prop} (last : ∀ w, sep ∉ w → P w)
    (piece : ∀ p w, sep ∉ p → P w → P (p ++ sep :: w)) (w : List α) : P w := by
  induction hn : w.length using Nat.strongRecOn generalizing w with
  | _ n ih =>
      rcases cut sep w with h | ⟨p, w', hp, rfl⟩
      · exact last w h
      · refine piece p w' hp (ih w'.length ?_ w' rfl)
        rw [← hn, List.length_append, List.length_cons]
        omega

end Pieces
