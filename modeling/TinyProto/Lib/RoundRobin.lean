import Mathlib.Algebra.Group.Fin.Basic
import Mathlib.Data.List.Chain
import Mathlib.Data.List.FinRange
import Mathlib.Tactic.Abel
import Mathlib.Tactic.Common

/-!
# Going round

Some of the places of a circle are taken.  `next` goes from a place to the next one that is.
Whoever keeps going to the next place meets every other one exactly once before coming back
(`count_between`).
-/

namespace RoundRobin

variable {N : Nat}

/-- A search finds the first place. -/
theorem find_finRange {P : Fin N → Bool} {k : Fin N} (hf : (List.finRange N).find? P = some k) :
    P k = true ∧ ∀ j, P j = true → k ≤ j := by
  obtain ⟨hk, before, behind, hsplit, hbefore⟩ := List.find?_eq_some_iff_append.mp hf
  refine ⟨hk, fun j hj => ?_⟩
  have hmem := List.mem_finRange j
  have hsorted := List.pairwise_lt_finRange N
  rw [hsplit] at hmem hsorted
  rcases List.mem_append.mp hmem with hin | hin
  · have hno := hbefore j hin
    rw [hj] at hno
    cases hno
  · rcases List.mem_cons.mp hin with rfl | hin
    · exact le_rfl
    · have hrest := (List.pairwise_append.mp hsorted).2.1
      exact le_of_lt ((List.pairwise_cons.mp hrest).1 j hin)

theorem val_sub (u v : Fin N) :
    (v - u).val = if u.val ≤ v.val then v.val - u.val else N + v.val - u.val := by
  have hu := u.isLt
  have hv := v.isLt
  rw [Fin.sub_def]
  show (N - u.val + v.val) % N = _
  split
  · next hle =>
    have hsum : N - u.val + v.val = N + (v.val - u.val) := by omega
    rw [hsum, Nat.add_mod_left, Nat.mod_eq_of_lt (by omega)]
  · next hlt => rw [Nat.mod_eq_of_lt (by omega), Nat.sub_add_comm (by omega)]

variable [NeZero N]

/-- The next place that is taken, the search going once around. -/
def next (live : Fin N → Prop) [DecidablePred live] (p : Fin N) : Fin N :=
  (((List.finRange N).map fun k => p + 1 + k).find? fun q => live q).getD p

variable {live : Fin N → Prop} [DecidablePred live] {p q x : Fin N}

theorem next_congr {live' : Fin N → Prop} [DecidablePred live'] (h : ∀ q, live q ↔ live' q) :
    next live = next live' := by
  have hsame : (fun q => decide (live q)) = fun q => decide (live' q) :=
    funext fun q => decide_eq_decide.mpr (h q)
  funext p
  unfold next
  rw [hsame]

/-- The place that is found is taken, and the others that are taken are not nearer. -/
theorem next_spec (hq : live q) (p : Fin N) :
    live (next live p) ∧ ∀ q, live q → next live p - p - 1 ≤ q - p - 1 := by
  have hback : ∀ q : Fin N, p + 1 + (q - p - 1) = q := fun q => by abel
  have hfwd : ∀ k : Fin N, p + 1 + k - p - 1 = k := fun k => by abel
  unfold next
  rw [List.find?_map]
  cases hf : (List.finRange N).find? ((fun q => decide (live q)) ∘ fun k => p + 1 + k) with
  | none =>
    have hmiss := List.find?_eq_none.mp hf (q - p - 1) (List.mem_finRange _)
    rw [Function.comp_apply, hback] at hmiss
    exact absurd (decide_eq_true hq) hmiss
  | some k =>
    obtain ⟨hk, hfirst⟩ := find_finRange hf
    refine ⟨of_decide_eq_true hk, fun q hq => ?_⟩
    show p + 1 + k - p - 1 ≤ _
    rw [hfwd]
    refine hfirst _ ?_
    rw [Function.comp_apply, hback]
    exact decide_eq_true hq

/-! ## Distances -/

theorem val_sub_one (u : Fin N) : (u - 1).val = if u.val = 0 then N - 1 else u.val - 1 := by
  have hN : 0 < N := Nat.pos_of_ne_zero (NeZero.ne N)
  split
  · next hu =>
    rw [val_sub, Fin.val_one', hu]
    rcases Nat.lt_or_ge 1 N with hlt | hle
    · rw [Nat.mod_eq_of_lt hlt]
      split <;> omega
    · have hone : N = 1 := Nat.le_antisymm hle hN
      have hmod : 1 % N = 0 := by rw [hone]
      rw [hmod]
      split <;> omega
  · next hu =>
    have hne : u ≠ 0 := fun hz => hu (by rw [hz]; rfl)
    exact Fin.val_sub_one_of_ne_zero hne

/-- The way from one place to another, less one step, with the places seen from a third. -/
theorem val_way (p a x : Fin N) : (x - a - 1).val =
    if (a - p).val < (x - p).val then (x - p).val - (a - p).val - 1
    else N + (x - p).val - (a - p).val - 1 := by
  have hsub : x - a = (x - p) - (a - p) := by abel
  rw [val_sub_one, hsub]
  generalize x - p = v
  generalize a - p = u
  have hu := u.isLt
  have hv := v.isLt
  rw [val_sub]
  split <;> split <;> split <;> omega

theorem val_sub_self (p : Fin N) : (p - p).val = 0 := by
  rw [sub_self]
  rfl

/-! ## Rounds -/

/-- On the way back to `p`, the places that are still ahead are met once. -/
theorem count_ahead (hp : live p) : ∀ (mid : List (Fin N)) (a : Fin N),
    List.IsChain (fun a b => b = next live a) (a :: (mid ++ [p])) → p ∉ mid → live q → q ≠ p →
      mid.count q = if (a - p).val < (q - p).val then 1 else 0
  | [], a, hc, _, hq, hne => by
    have hback : p = next live a := by simpa using hc
    have hle := (next_spec hp a).2 q hq
    rw [← hback, Fin.le_def, val_way p a p, val_way p a q, val_sub_self] at hle
    have hqp := (q - p).isLt
    have hap := (a - p).isLt
    rw [List.count_nil, if_neg]
    intro hlt
    rw [if_pos hlt, if_neg (Nat.not_lt_zero _)] at hle
    omega
  | x :: mid, a, hc, hmid, hq, hne => by
    obtain ⟨hx, hrest⟩ := List.isChain_cons_cons.mp hc
    obtain ⟨hxp, hmid⟩ := not_or.mp (fun h => hmid (List.mem_cons.mpr h))
    have ih := count_ahead hp mid x hrest hmid hq hne
    obtain ⟨-, hfirst⟩ := next_spec hp a
    have hlep := hfirst p hp
    have hleq := hfirst q hq
    rw [← hx, Fin.le_def, val_way p a x, val_way p a p, val_sub_self] at hlep
    rw [← hx, Fin.le_def, val_way p a x, val_way p a q] at hleq
    have hx0 : (x - p).val ≠ 0 := fun hz => hxp (sub_eq_zero.mp (Fin.ext hz)).symm
    have hqx : q = x ↔ (q - p).val = (x - p).val := by
      rw [Fin.val_inj, sub_left_inj]
    rw [List.count_cons, ih]
    have hap := (a - p).isLt
    have hxp' := (x - p).isLt
    have hqp := (q - p).isLt
    have hahead : (a - p).val < (x - p).val := by
      by_contra hnot
      rw [if_neg hnot, if_neg (Nat.not_lt_zero _)] at hlep
      omega
    rw [if_pos hahead] at hleq
    by_cases hqa : (a - p).val < (q - p).val
    · rw [if_pos hqa] at hleq ⊢
      by_cases hxq : x = q
      · rw [hxq, if_neg (lt_irrefl _)]
        simp
      · have hne' : (q - p).val ≠ (x - p).val := fun he => hxq (hqx.mpr he).symm
        rw [if_pos (by omega)]
        simp [hxq]
    · have hxq : x ≠ q := by
        rintro rfl
        exact hqa hahead
      rw [if_neg hqa, if_neg (by omega)]
      simp [hxq]

/-- Between two visits to a place, every other one that is taken is visited once. -/
theorem count_between {l : List (Fin N)} (hc : List.IsChain (fun a b => b = next live a) l)
    {front mid back : List (Fin N)} (hl : l = front ++ p :: (mid ++ p :: back)) (hmid : p ∉ mid)
    (hq : live q) (hne : q ≠ p) : mid.count q = 1 := by
  have hround : List.IsChain (fun a b => b = next live a) (p :: (mid ++ [p])) := by
    rw [hl] at hc
    have hcut := (List.isChain_append.mp hc).2.1
    rw [show p :: (mid ++ p :: back) = (p :: (mid ++ [p])) ++ back by simp] at hcut
    exact (List.isChain_append.mp hcut).1
  have hp : live p := by
    obtain ⟨a, ha⟩ : ∃ a, p = next live a := by
      cases List.eq_nil_or_concat mid with
      | inl hnil =>
        rw [hnil] at hround
        exact ⟨p, by simpa using hround⟩
      | inr hlast =>
        obtain ⟨init, a, hmid'⟩ := hlast
        rw [hmid', List.concat_eq_append, List.append_assoc] at hround
        have hend := (List.isChain_append.mp
          (show List.IsChain _ ((p :: init) ++ [a, p]) from hround)).2.1
        exact ⟨a, by simpa using hend⟩
    rw [ha]
    exact (next_spec hq a).1
  have hcount := count_ahead hp mid p hround hmid hq hne
  have hqp : (q - p).val ≠ 0 := fun h => hne (sub_eq_zero.mp (Fin.ext h))
  rw [hcount, val_sub_self, if_pos (Nat.pos_of_ne_zero hqp)]

end RoundRobin
