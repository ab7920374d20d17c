import Mathlib.Algebra.BigOperators.Ring.Finset
import Mathlib.Algebra.Order.BigOperators.Group.Finset
import Mathlib.Data.Fintype.BigOperators

/-!
# Passing a token by messages

Stations hold the token or do not, and messages are on their way to them, in order.  Some
messages bring the token to whoever hears them.  `Exclusive` says that there is at most one
token, held or brought.  It is kept when a station reads a message (`Exclusive.receive`), when
messages get lost (`Exclusive.lose`), and when a station that holds the token sends messages
to all others and gives the token away with the last one (`Exclusive.send`).
-/

namespace TokenPassing

variable {ι μ : Type*}

/-- Who holds the token, and the messages on their way to each station. -/
structure Net (ι μ : Type*) where
  holds : ι → Bool
  mail : ι → List μ

/-- The messages that bring the token to a station. -/
def bringing (heard : ι → μ → Bool) (token : μ → Bool) (i : ι) (ms : List μ) : Nat :=
  ms.countP fun m => heard i m && token m

/-- The tokens at a station. -/
def tokens (heard : ι → μ → Bool) (token : μ → Bool) (n : Net ι μ) (i : ι) : Nat :=
  (n.holds i).toNat + bringing heard token i (n.mail i)

/-- There is at most one token.  A station hears nothing behind it. -/
structure Exclusive [Fintype ι] (heard : ι → μ → Bool) (token : μ → Bool) (n : Net ι μ) :
    Prop where
  single : ∑ i, tokens heard token n i ≤ 1
  last : ∀ i, (n.mail i).Pairwise fun m m' => heard i m → token m → heard i m' = false
  quiet : ∀ i, n.holds i = true → ∀ m ∈ n.mail i, heard i m = false

variable {heard : ι → μ → Bool} {token : μ → Bool} {n n' : Net ι μ} {i : ι} {ms : List μ} {m : μ}

theorem bringing_append (i : ι) (ms ms' : List μ) :
    bringing heard token i (ms ++ ms') =
      bringing heard token i ms + bringing heard token i ms' := List.countP_append

theorem bringing_of_plain (hms : ∀ m ∈ ms, token m = false) (i : ι) :
    bringing heard token i ms = 0 := by
  refine List.countP_eq_zero.mpr fun m hm => ?_
  rw [hms m hm, Bool.and_false]
  exact Bool.false_ne_true

theorem heard_of_bringing (hz : bringing heard token i ms = 0) (hm : m ∈ ms) (hh : heard i m = true) :
    token m = false := by
  have hno := List.countP_eq_zero.mp hz m hm
  rw [hh, Bool.true_and] at hno
  exact Bool.eq_false_iff.mpr hno

variable [Fintype ι]

/-- The others have none. -/
theorem Exclusive.others [DecidableEq ι] (he : Exclusive heard token n) (hi : n.holds i = true)
    {j : ι} (hj : j ≠ i) : n.holds j = false ∧ bringing heard token j (n.mail j) = 0 := by
  have hone : 1 ≤ tokens heard token n i := by
    unfold tokens
    rw [hi]
    exact Nat.le_add_right 1 _
  have hpair : tokens heard token n i + tokens heard token n j ≤ 1 := by
    refine le_trans ?_ he.single
    rw [← Finset.sum_pair hj.symm]
    exact Finset.sum_le_sum_of_subset (Finset.subset_univ _)
  have hzero : (n.holds j).toNat + bringing heard token j (n.mail j) = 0 := by
    have : tokens heard token n j = 0 := by omega
    exact this
  exact ⟨Bool.toNat_eq_zero.mp (Nat.eq_zero_of_add_eq_zero_right hzero),
    Nat.eq_zero_of_add_eq_zero_left hzero⟩

/-- Messages get lost. -/
theorem Exclusive.lose (he : Exclusive heard token n) (hh : n'.holds = n.holds)
    (hm : ∀ i, (n'.mail i).Sublist (n.mail i)) : Exclusive heard token n' where
  single := by
    refine le_trans (Finset.sum_le_sum fun i _ => ?_) he.single
    unfold tokens bringing
    rw [hh]
    exact Nat.add_le_add_left ((hm i).countP_le) _
  last i := (he.last i).sublist (hm i)
  quiet i hi m hmem := he.quiet i (hh ▸ hi) m ((hm i).subset hmem)

/-- A station reads its next message. -/
theorem Exclusive.receive [DecidableEq ι] (he : Exclusive heard token n) (hm : n.mail i = m :: ms)
    (hholds : n'.holds = Function.update n.holds i (n.holds i || heard i m && token m))
    (hself : n'.mail i = ms) (hmail : ∀ j, j ≠ i → n'.mail j = n.mail j) :
    Exclusive heard token n' := by
  have hi : n'.holds i = (n.holds i || heard i m && token m) := by
    rw [hholds, Function.update_self]
  have hother : ∀ j, j ≠ i → n'.holds j = n.holds j := fun j hj => by
    rw [hholds, Function.update_of_ne hj]
  have hlast := he.last i
  rw [hm, List.pairwise_cons] at hlast
  refine ⟨le_trans (Finset.sum_le_sum fun j _ => ?_) he.single, fun j => ?_, fun j hj => ?_⟩
  · unfold tokens
    by_cases hji : j = i
    · have hcount : bringing heard token i (m :: ms) =
          bringing heard token i ms + (heard i m && token m).toNat := by
        unfold bringing
        rw [List.countP_cons]
        cases heard i m && token m <;> rfl
      rw [hji, hi, hself, hm, hcount]
      cases n.holds i <;> cases heard i m && token m <;> simp [Nat.add_comm]
    · rw [hother j hji, hmail j hji]
  · by_cases hji : j = i
    · rw [hji, hself]
      exact hlast.2
    · rw [hmail j hji]
      exact he.last j
  · by_cases hji : j = i
    · rw [hji, hi, Bool.or_eq_true, Bool.and_eq_true] at hj
      rw [hji, hself]
      rcases hj with hheld | ⟨hh, ht⟩
      · exact fun m' hm' => he.quiet i hheld m' (hm ▸ List.mem_cons_of_mem _ hm')
      · exact fun m' hm' => hlast.1 m' hm' hh ht
    · rw [hmail j hji]
      exact he.quiet j (hother j hji ▸ hj)

/-- What a station may send: it holds the token, gives it away with the last message at most,
and that message is heard by one station at most. -/
structure Passes (heard : ι → μ → Bool) (token : μ → Bool) (i : ι) (held kept : Bool)
    (ms : List μ) : Prop where
  sends : ms ≠ [] → held = true
  keeps : kept = true → held = true ∧ ∀ m ∈ ms, token m = false
  last : ms.Pairwise fun m _ => token m = false
  one : ∀ m ∈ ms, ∀ j k, j ≠ i → k ≠ i → heard j m = true → heard k m = true → j = k

theorem Passes.brought [DecidableEq ι] {held kept : Bool} (hp : Passes heard token i held kept ms) :
    ∑ j ∈ Finset.univ.erase i, bringing heard token j ms ≤ 1 := by
  rcases List.eq_nil_or_concat ms with rfl | ⟨init, m, rfl⟩
  · simp [bringing]
  · -- Only the last message counts.
    have hinit : ∀ m' ∈ init, token m' = false := by
      have hpair := hp.last
      rw [List.concat_eq_append, List.pairwise_append] at hpair
      exact fun m' hm' => hpair.2.2 m' hm' m (List.mem_singleton_self m)
    have hcount : ∀ j, bringing heard token j (init.concat m) =
        if (heard j m && token m) = true then 1 else 0 := by
      intro j
      rw [List.concat_eq_append, bringing_append, bringing_of_plain hinit, Nat.zero_add]
      exact List.countP_singleton
    have hmem : m ∈ init.concat m := by
      rw [List.concat_eq_append]
      exact List.mem_append_right _ (List.mem_singleton_self m)
    rw [Finset.sum_congr rfl fun j _ => hcount j, ← Finset.card_filter]
    refine Finset.card_le_one.mpr fun j hj k hk => ?_
    rw [Finset.mem_filter, Finset.mem_erase, Bool.and_eq_true] at hj hk
    exact hp.one m hmem j k hj.1.1 hk.1.1 hj.2.1 hk.2.1

/-- A station sends messages to all others. -/
theorem Exclusive.send [DecidableEq ι] (he : Exclusive heard token n) {kept : Bool}
    (hp : Passes heard token i (n.holds i) kept ms)
    (hholds : n'.holds = Function.update n.holds i kept)
    (hself : n'.mail i = n.mail i) (hmail : ∀ j, j ≠ i → n'.mail j = n.mail j ++ ms) :
    Exclusive heard token n' := by
  have hkept : n'.holds i = kept := by rw [hholds, Function.update_self]
  have hother : ∀ j, j ≠ i → n'.holds j = n.holds j := fun j hj => by
    rw [hholds, Function.update_of_ne hj]
  cases hheld : n.holds i with
  | false =>
    -- Without the token nothing is sent.
    have hnil : ms = [] := by_contra fun hne => Bool.false_ne_true (hheld.symm.trans (hp.sends hne))
    have hno : kept = false := Bool.eq_false_iff.mpr fun hk =>
      Bool.false_ne_true (hheld.symm.trans (hp.keeps hk).1)
    refine he.lose (funext fun j => ?_) fun j => ?_
    · by_cases hj : j = i
      · rw [hj, hkept, hno, hheld]
      · exact hother j hj
    · by_cases hj : j = i
      · rw [hj, hself]
      · rw [hmail j hj, hnil, List.append_nil]
  | true =>
    have hothers := fun j (hj : j ≠ i) => he.others hheld hj
    have hquiet := he.quiet i hheld
    have hi : bringing heard token i (n.mail i) = 0 := by
      refine List.countP_eq_zero.mpr fun m hm => ?_
      rw [hquiet m hm, Bool.false_and]
      exact Bool.false_ne_true
    refine ⟨?_, fun j => ?_, fun j hj => ?_⟩
    · have hrest : ∀ j ∈ Finset.univ.erase i, tokens heard token n' j = bringing heard token j ms := by
        intro j hj
        have hne := (Finset.mem_erase.mp hj).1
        unfold tokens
        rw [hother j hne, (hothers j hne).1, hmail j hne, bringing_append, (hothers j hne).2,
          Nat.zero_add]
        exact Nat.zero_add _
      rw [← Finset.add_sum_erase _ _ (Finset.mem_univ i), Finset.sum_congr rfl hrest]
      unfold tokens
      rw [hkept, hself, hi, Nat.add_zero]
      cases hk : kept with
      | false => exact le_trans (Nat.zero_add _).le hp.brought
      | true =>
        have hplain := (hp.keeps hk).2
        rw [Finset.sum_eq_zero fun j _ => bringing_of_plain hplain j]
        exact le_refl 1
    · by_cases hj : j = i
      · rw [hj, hself]
        exact he.last i
      · rw [hmail j hj, List.pairwise_append]
        refine ⟨he.last j, ?_, fun m hm m' _ hh ht => ?_⟩
        · exact hp.last.imp fun hno _ ht => absurd (hno.symm.trans ht) Bool.false_ne_true
        · have hno := heard_of_bringing (hothers j hj).2 hm hh
          exact absurd (hno.symm.trans ht) Bool.false_ne_true
    · by_cases hji : j = i
      · rw [hji, hself]
        exact hquiet
      · rw [hother j hji, (hothers j hji).1] at hj
        exact absurd hj Bool.false_ne_true

end TokenPassing
