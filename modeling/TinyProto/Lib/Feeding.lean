import TinyProto.Lib.Transducer

/-!
# Readers that leave a remainder

A *reader* takes a block of inputs, uses some of it and is called again with the rest
(`feed`).  It may fail.  Its outputs are stamped with the number of inputs used so far.

A reader *consumes* a transducer when each call uses inputs up to the first one that the
transducer answers, and reports that answer (`Consumes`).  Then the stamps are those of the
transducer, whatever the blocks are (`Consumes.blocks`).
-/

namespace Transducer

variable {σ σ' ι ο ο' τ ε : Type}

/-! ## Stamped outputs -/

/-- The outputs of a word, each with the number of inputs up to it. -/
def stamped (step : σ → ι → σ × List ο) : Nat → σ → List ι → List (Nat × ο)
  | _, _, [] => []
  | k, s, i :: w => (step s i).2.map (Prod.mk (k + 1)) ++ stamped step (k + 1) (step s i).1 w

variable {step : σ → ι → σ × List ο} {step' : σ' → ι → σ' × List ο'}

theorem stamped_append (k : Nat) (s : σ) (v w : List ι) :
    stamped step k s (v ++ w) =
      stamped step k s v ++ stamped step (k + v.length) (after step s v) w := by
  induction v generalizing k s with
  | nil => rfl
  | cons i v ih =>
    rw [List.cons_append, stamped, ih, stamped, List.append_assoc, after_cons, List.length_cons,
      Nat.add_assoc, Nat.add_comm 1]

theorem stamped_snd (k : Nat) (s : σ) (w : List ι) :
    (stamped step k s w).map Prod.snd = emits step s w := by
  induction w generalizing k s with
  | nil => rfl
  | cons i w ih =>
    rw [stamped, emits_cons, List.map_append, ih, List.map_map]
    exact congrArg (· ++ _) (List.map_id _)

theorem stamped_silent {s : σ} {w : List ι} (h : emits step s w = []) (k : Nat) :
    stamped step k s w = [] := by
  have hsnd := @stamped_snd _ _ _ step k s w
  rw [h] at hsnd
  exact List.map_eq_nil_iff.mp hsnd

/-- Outputs of the last input only carry its stamp. -/
theorem stamped_last {s : σ} {w : List ι} {n : Nat} (hpos : 0 < n) (hle : n ≤ w.length)
    (h : emits step s (w.take (n - 1)) = []) (k : Nat) :
    stamped step k s (w.take n) = (emits step s (w.take n)).map (Prod.mk (k + n)) := by
  obtain ⟨m, rfl⟩ : ∃ m, n = m + 1 := ⟨n - 1, by omega⟩
  have hm : m < w.length := hle
  rw [Nat.add_sub_cancel] at h
  rw [List.take_succ_eq_append_getElem hm, stamped_append, emits_append, stamped_silent h, h,
    List.length_take, Nat.min_eq_left (Nat.le_of_lt hm)]
  simp [stamped, Nat.add_assoc]

/-- A transducer that follows another one gives its outputs, translated. -/
theorem stamped_map {R : σ → σ' → Prop} {g : ο → ο'}
    (hstep : ∀ s t i, R s t → R (step s i).1 (step' t i).1 ∧ (step' t i).2 = (step s i).2.map g)
    {s : σ} {t : σ'} (h : R s t) (k : Nat) (w : List ι) :
    stamped step' k t w = (stamped step k s w).map fun x => (x.1, g x.2) := by
  induction w generalizing k s t with
  | nil => rfl
  | cons i w ih =>
    obtain ⟨hnext, hout⟩ := hstep s t i h
    rw [stamped, stamped, hout, ih hnext, List.map_append]
    simp

/-! ## Feeding -/

/-- What a reader leaves and reports. -/
structure Read (τ ο : Type) where
  state : τ
  /-- The number of inputs used. -/
  used : Nat
  outputs : List ο

/-- A reader called again with what it left of a block. -/
def feed (read : τ → List ι → Except ε (Read τ ο)) :
    Nat → Nat → τ → List ι → Except ε (Read τ (Nat × ο))
  | 0, pos, t, _ => .ok { state := t, used := pos, outputs := [] }
  | _ + 1, pos, t, [] => .ok { state := t, used := pos, outputs := [] }
  | fuel + 1, pos, t, i :: w => do
      let r ← read t (i :: w)
      let pos := pos + r.used
      let rest ← feed read fuel pos r.state ((i :: w).drop r.used)
      .ok { rest with outputs := r.outputs.map (Prod.mk pos) ++ rest.outputs }

/-- A reader fed with one block after another. -/
def feedBlocks (read : τ → List ι → Except ε (Read τ ο)) :
    Nat → τ → List (List ι) → Except ε (List (Nat × ο))
  | _, _, [] => .ok []
  | pos, t, w :: ws => do
      let r ← feed read w.length pos t w
      let rest ← feedBlocks read r.used r.state ws
      .ok (r.outputs ++ rest)

/-- A reader that uses its inputs up to the first one that the transducer answers, and reports
the answer or fails with it. -/
def Consumes (step : σ → ι → σ × List ο) (report : ο → Except ε ο') (rel : σ → τ → Prop)
    (read : τ → List ι → Except ε (Read τ ο')) : Prop :=
  ∀ s t w, rel s t → w ≠ [] → ∃ n t', 0 < n ∧ n ≤ w.length ∧ emits step s (w.take (n - 1)) = [] ∧
    rel (after step s (w.take n)) t' ∧
    read t w = ((emits step s (w.take n)).mapM report).map fun outputs =>
      { state := t', used := n, outputs := outputs }

/-- The report of an output with its stamp. -/
def reportAt (report : ο → Except ε ο') (x : Nat × ο) : Except ε (Nat × ο') :=
  (report x.2).map (Prod.mk x.1)

theorem mapM_reportAt (report : ο → Except ε ο') (k : Nat) (l : List ο) :
    (l.map (Prod.mk k)).mapM (reportAt report) = (l.mapM report).map (List.map (Prod.mk k)) := by
  induction l with
  | nil => rfl
  | cons x l ih =>
    rw [List.map_cons, List.mapM_cons, List.mapM_cons, ih]
    cases hx : report x with
    | error e => simp [reportAt, hx, Except.map, bind, Except.bind]
    | ok y =>
      cases hl : l.mapM report with
      | error e => simp [reportAt, hx, Except.map, bind, Except.bind]
      | ok ys => simp [reportAt, hx, Except.map, bind, Except.bind, pure, Except.pure]

/-- Every element is reported as `g` says, or the list is not. -/
theorem mapM_eq_ok_iff {f : ο → Except ε ο'} {g : ο → ο'} {l : List ο} :
    l.mapM f = .ok (l.map g) ↔ ∀ x ∈ l, f x = .ok (g x) := by
  induction l with
  | nil => simp [pure, Except.pure]
  | cons x l ih =>
    rw [List.mapM_cons, List.forall_mem_cons, ← ih]
    cases hx : f x with
    | error e => simp [bind, Except.bind]
    | ok y =>
      cases hl : l.mapM f with
      | error e => simp [bind, Except.bind]
      | ok ys => simp [bind, Except.bind, pure, Except.pure]

variable {report : ο → Except ε ο'} {rel : σ → τ → Prop}
  {read : τ → List ι → Except ε (Read τ ο')}

theorem Consumes.feed (h : Consumes step report rel read) {fuel : Nat} :
    ∀ {s : σ} {t : τ} {w : List ι}, rel s t → w.length ≤ fuel → ∀ pos,
      ∃ t', rel (after step s w) t' ∧
        Transducer.feed read fuel pos t w =
          ((stamped step pos s w).mapM (reportAt report)).map fun outputs =>
            { state := t', used := pos + w.length, outputs := outputs } := by
  induction fuel with
  | zero =>
    intro s t w hr hf pos
    have hw : w = [] := List.eq_nil_of_length_eq_zero (Nat.le_zero.mp hf)
    subst hw
    exact ⟨t, hr, rfl⟩
  | succ fuel ih =>
    intro s t w hr hf pos
    cases w with
    | nil => exact ⟨t, hr, rfl⟩
    | cons i w =>
      obtain ⟨n, t₁, hpos, hle, hsilent, hr₁, hread⟩ := h s t (i :: w) hr (List.cons_ne_nil _ _)
      have hdrop : ((i :: w).drop n).length ≤ fuel := by
        rw [List.length_drop]
        omega
      obtain ⟨t', hr', hrest⟩ := ih hr₁ hdrop (pos + n)
      have hafter : after step s (i :: w) =
          after step (after step s ((i :: w).take n)) ((i :: w).drop n) := by
        rw [← after_append, List.take_append_drop]
      have hstamped : stamped step pos s (i :: w) =
          (emits step s ((i :: w).take n)).map (Prod.mk (pos + n)) ++
            stamped step (pos + n) (after step s ((i :: w).take n)) ((i :: w).drop n) := by
        rw [← stamped_last hpos hle hsilent]
        conv_lhs => rw [← List.take_append_drop n (i :: w), stamped_append]
        rw [List.length_take, Nat.min_eq_left hle]
      have hused : pos + n + ((i :: w).drop n).length = pos + (i :: w).length := by
        rw [List.length_drop]
        omega
      refine ⟨t', hafter ▸ hr', ?_⟩
      rw [Transducer.feed, hread, hstamped, List.mapM_append, mapM_reportAt]
      cases hfirst : (emits step s ((i :: w).take n)).mapM report with
      | error e => rfl
      | ok outputs =>
        simp only [Except.map, bind, Except.bind]
        rw [hrest, hused]
        cases hmore : (stamped step (pos + n) (after step s ((i :: w).take n))
            ((i :: w).drop n)).mapM (reportAt report) with
        | error e => rfl
        | ok rest => rfl

/-- How the inputs are cut into blocks cannot be observed. -/
theorem Consumes.blocks (h : Consumes step report rel read) {s : σ} {t : τ} (hr : rel s t)
    (pos : Nat) (ws : List (List ι)) :
    feedBlocks read pos t ws = (stamped step pos s ws.flatten).mapM (reportAt report) := by
  induction ws generalizing pos s t with
  | nil => rfl
  | cons w ws ih =>
    obtain ⟨t', hr', hfeed⟩ := h.feed hr (Nat.le_refl w.length) pos
    rw [feedBlocks, hfeed, List.flatten_cons, stamped_append, List.mapM_append]
    cases hfirst : (stamped step pos s w).mapM (reportAt report) with
    | error e => rfl
    | ok outputs =>
      simp only [Except.map, bind, Except.bind]
      rw [ih hr']
      rfl

end Transducer
