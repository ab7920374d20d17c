import Mathlib.Tactic.Common

/-!
# Runs of a labelled step relation

A system takes steps `step s a t` under labels.  A *guard* says which labels are
allowed in which state, and a *run* is a sequence of allowed steps.  An assertion
that allowed steps preserve holds along runs (`Run.preserves`).
-/

namespace Runs

variable {σ α : Type*}

/-- Allowed steps one after the other. -/
inductive Run (step : σ → α → σ → Prop) (guard : σ → α → Prop) : σ → σ → Prop where
  | refl {s : σ} : Run step guard s s
  | tail {s t u : σ} {a : α} : Run step guard s t → guard t a → step t a u → Run step guard s u

variable {step : σ → α → σ → Prop} {guard guard' : σ → α → Prop} {s t u : σ}

theorem Run.single {a : α} (hg : guard s a) (hs : step s a t) : Run step guard s t :=
  .tail .refl hg hs

theorem Run.trans (h : Run step guard s t) (h' : Run step guard t u) : Run step guard s u := by
  induction h' with
  | refl => exact h
  | tail _ hg hs ih => exact .tail ih hg hs

/-- A weaker guard allows more runs. -/
theorem Run.mono (hle : ∀ s a, guard s a → guard' s a) (h : Run step guard s t) :
    Run step guard' s t := by
  induction h with
  | refl => exact .refl
  | tail _ hg hs ih => exact .tail ih (hle _ _ hg) hs

/-- What every allowed step preserves, every run preserves. -/
theorem Run.preserves {P : σ → Prop}
    (hstep : ∀ s a t, P s → guard s a → step s a t → P t) (h : Run step guard s t) (hs : P s) :
    P t := by
  induction h with
  | refl => exact hs
  | tail _ hg ha ih => exact hstep _ _ _ ih hg ha

/-- The labels of a list are allowed one after the other, where a label has one outcome. -/
def Allows (f : σ → α → σ) (guard : σ → α → Prop) : σ → List α → Prop
  | _, [] => True
  | s, a :: l => guard s a ∧ Allows f guard (f s a) l

instance Allows.decidable {f : σ → α → σ} [∀ s a, Decidable (guard s a)] :
    ∀ (s : σ) (l : List α), Decidable (Allows f guard s l)
  | _, [] => inferInstanceAs (Decidable True)
  | s, a :: l =>
    have := Allows.decidable (f := f) (f s a) l
    inferInstanceAs (Decidable (_ ∧ _))

theorem Run.foldl {f : σ → α → σ} : ∀ {l : List α} {s : σ}, Allows f guard s l →
    Run (fun s a t => t = f s a) guard s (l.foldl f s)
  | [], _, _ => .refl
  | a :: l, s, h => by
    have hfirst : Run (fun s a t => t = f s a) guard s (f s a) := .single h.1 rfl
    exact hfirst.trans (Run.foldl h.2)

/-- The labels with the states they come in. -/
def trace (f : σ → α → σ) : σ → List α → List (σ × α)
  | _, [] => []
  | s, a :: l => (s, a) :: trace f (f s a) l

theorem Allows.and {f : σ → α → σ} : ∀ {l : List α} {s : σ}, Allows f guard s l →
    Allows f guard' s l → Allows f (fun s a => guard s a ∧ guard' s a) s l
  | [], _, _, _ => trivial
  | _ :: _, _, h, h' => ⟨⟨h.1, h'.1⟩, Allows.and h.2 h'.2⟩

/-- What every allowed label preserves, about the state and the history before it, holds
at every label and at the end. -/
theorem Allows.history {f : σ → α → σ} {P : List (σ × α) → σ → Prop}
    (hstep : ∀ past s a, P past s → guard s a → P (past ++ [(s, a)]) (f s a)) :
    ∀ {l : List α} {s : σ} {past : List (σ × α)}, P past s → Allows f guard s l →
      P (past ++ trace f s l) (l.foldl f s) ∧
        ∀ before t a after, trace f s l = before ++ (t, a) :: after →
          P (past ++ before) t ∧ guard t a
  | [], s, past, hP, _ => by
    refine ⟨by rwa [trace, List.append_nil], fun before t a after he => ?_⟩
    exact absurd he.symm (List.append_ne_nil_of_right_ne_nil _ (List.cons_ne_nil _ _))
  | b :: l, s, past, hP, h => by
    obtain ⟨hlast, hall⟩ := Allows.history hstep (hstep past s b hP h.1) h.2
    rw [trace]
    refine ⟨by rwa [List.append_assoc] at hlast, fun before t a after he => ?_⟩
    cases before with
    | nil =>
      obtain ⟨hhead, -⟩ := List.cons.inj he
      cases hhead
      rw [List.append_nil]
      exact ⟨hP, h.1⟩
    | cons m before =>
      obtain ⟨rfl, htail⟩ := List.cons.inj he
      have hm := hall before t a after htail
      rwa [List.append_assoc] at hm

/-- The same with no history before the first label. -/
theorem Allows.whole {f : σ → α → σ} {P : List (σ × α) → σ → Prop}
    (hstep : ∀ past s a, P past s → guard s a → P (past ++ [(s, a)]) (f s a)) {l : List α} {s : σ}
    (hP : P [] s) (h : Allows f guard s l) :
    P (trace f s l) (l.foldl f s) ∧
      ∀ before t a after, trace f s l = before ++ (t, a) :: after → P before t ∧ guard t a := by
  have hall := Allows.history hstep hP h
  simp only [List.nil_append] at hall
  exact hall

end Runs
