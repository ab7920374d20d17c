import Mathlib.Data.List.Basic
import Mathlib.Tactic.Common

/-!
# Transducers

A transducer reads its inputs one at a time and answers each with a list of
outputs.  `after` and `emits` are the state and the outputs of a whole word.
Both are homomorphisms on concatenation (`after_append`, `emits_append`), so a
word may be cut anywhere.

A program that reads its input in blocks *implements* a transducer when each
block does to the abstract state what the transducer does with the block's
inputs one by one.  Then how the input is cut into blocks cannot be observed
(`Implements.blocks`).
-/

namespace Transducer

variable {σ ι ο τ : Type}

/-! ## Words -/

/-- The state after a word. -/
def after (step : σ → ι → σ × List ο) (s : σ) (w : List ι) : σ :=
  w.foldl (fun s i => (step s i).1) s

/-- The outputs of a word. -/
def emits (step : σ → ι → σ × List ο) : σ → List ι → List ο
  | _, [] => []
  | s, i :: w => (step s i).2 ++ emits step (step s i).1 w

variable (step : σ → ι → σ × List ο)

@[simp] theorem after_nil (s : σ) : after step s [] = s := rfl

@[simp] theorem after_cons (s : σ) (i : ι) (w : List ι) :
    after step s (i :: w) = after step (step s i).1 w := rfl

@[simp] theorem emits_nil (s : σ) : emits step s [] = [] := rfl

@[simp] theorem emits_cons (s : σ) (i : ι) (w : List ι) :
    emits step s (i :: w) = (step s i).2 ++ emits step (step s i).1 w := rfl

theorem after_append (s : σ) (v w : List ι) :
    after step s (v ++ w) = after step (after step s v) w := by
  simp [after]

theorem emits_append (s : σ) (v w : List ι) :
    emits step s (v ++ w) = emits step s v ++ emits step (after step s v) w := by
  induction v generalizing s with
  | nil => rfl
  | cons i v ih =>
      rw [List.cons_append, emits_cons, emits_cons, ih, after_cons, List.append_assoc]

variable {step} in
theorem emits_take_silent {s : σ} {w : List ι} (h : emits step s w = []) (n : Nat) :
    emits step s (w.take n) = [] := by
  rw [← List.take_append_drop n w, emits_append] at h
  exact (List.append_eq_nil_iff.mp h).1

variable {step} in
/-- A transducer that never answers in the states it can reach is silent. -/
theorem emits_never {P : σ → Prop} (hstep : ∀ s i, P s → P (step s i).1 ∧ (step s i).2 = [])
    {s : σ} (hs : P s) (w : List ι) : emits step s w = [] := by
  induction w generalizing s with
  | nil => rfl
  | cons i w ih => rw [emits_cons, (hstep s i hs).2, ih (hstep s i hs).1, List.nil_append]

/-- A transducer whose states are seen through `view` by another one. -/
theorem after_view {inv : τ → Prop} {view : τ → σ} {step' : τ → ι → τ × List ο}
    (hstep : ∀ t i, inv t → inv (step' t i).1 ∧ step (view t) i = (view (step' t i).1, (step' t i).2))
    {t : τ} (ht : inv t) (w : List ι) :
    inv (after step' t w) ∧ after step (view t) w = view (after step' t w) ∧
      emits step (view t) w = emits step' t w := by
  induction w generalizing t with
  | nil => exact ⟨ht, rfl, rfl⟩
  | cons i w ih =>
    obtain ⟨hinv, heq⟩ := hstep t i ht
    obtain ⟨h1, h2, h3⟩ := ih hinv
    rw [after_cons, after_cons, emits_cons, emits_cons, heq]
    exact ⟨h1, h2, congrArg _ h3⟩

/-! ## Programs that read blocks -/

/-- A block reader with invariant `inv` that implements the transducer under the
abstraction `view`. -/
structure Implements (inv : τ → Prop) (view : τ → σ) (read : τ → List ι → τ × List ο) :
    Prop where
  keeps : ∀ t w, inv t → inv (read t w).1
  state : ∀ t w, inv t → view (read t w).1 = after step (view t) w
  output : ∀ t w, inv t → (read t w).2 = emits step (view t) w

/-- A block reader run on one block after another. -/
def readBlocks (read : τ → List ι → τ × List ο) : τ → List (List ι) → τ × List ο
  | t, [] => (t, [])
  | t, w :: ws =>
      let rest := readBlocks read (read t w).1 ws
      (rest.1, (read t w).2 ++ rest.2)

/-- How a word is cut into blocks cannot be observed. -/
theorem Implements.blocks {step : σ → ι → σ × List ο} {inv : τ → Prop} {view : τ → σ}
    {read : τ → List ι → τ × List ο} (h : Implements step inv view read) {t : τ} (ht : inv t)
    (ws : List (List ι)) :
    inv (readBlocks read t ws).1 ∧
      view (readBlocks read t ws).1 = after step (view t) ws.flatten ∧
      (readBlocks read t ws).2 = emits step (view t) ws.flatten := by
  induction ws generalizing t with
  | nil => exact ⟨ht, rfl, rfl⟩
  | cons w ws ih =>
      obtain ⟨h1, h2, h3⟩ := ih (h.keeps t w ht)
      rw [h.state t w ht] at h2 h3
      refine ⟨h1, ?_, ?_⟩
      · rw [List.flatten_cons, after_append]
        exact h2
      · rw [List.flatten_cons, emits_append, ← h.output t w ht, ← h3]
        rfl

end Transducer
