import TinyProto.Lib.Confirmation

/-!
# Nothing is skipped

While a connection lasts, the other party reads its items one after the other.  So what was
read ends with the first of the items that are not confirmed (`Exchange.Gapless.window`).
-/

namespace GoBackN

open scoped List

variable {w : Nat} {α : Type*} {s r : Party w α} {way back : List (Frame w α)}
  {e e' : Exchange w α}

/-! ## Runs of indices -/

/-- Rising indices with none left out. -/
theorem eq_range' : ∀ {l : List Nat} {low : Nat}, l.Pairwise (· < ·) → (∀ m ∈ l, low ≤ m) →
    (∀ m ∈ l, ∀ g, low ≤ g → g ≤ m → g ∈ l) → l = List.range' low l.length
  | [], _, _, _, _ => rfl
  | a :: l, low, hrising, hlow, hclosed => by
    rw [List.pairwise_cons] at hrising
    have hle := hlow a List.mem_cons_self
    have ha : low = a := by
      rcases List.mem_cons.mp (hclosed a List.mem_cons_self low (Nat.le_refl _) hle) with he | hmem
      · exact he
      · exact absurd (hrising.1 low hmem) (Nat.not_lt.mpr hle)
    subst ha
    rw [List.length_cons, List.range'_succ]
    refine congrArg _ (eq_range' hrising.2 hrising.1 fun m hm g hg hgm => ?_)
    rcases List.mem_cons.mp
      (hclosed m (List.mem_cons_of_mem _ hm) g (Nat.le_of_succ_le hg) hgm) with he | hmem
    · omega
    · exact hmem

/-- The items below an index come first. -/
theorem split_rising {got : List (α × Nat)} (hrising : (got.map Prod.snd).Pairwise (· < ·))
    (low : Nat) : ∃ old new, got = old ++ new ∧ (∀ p ∈ old, p.2 < low) ∧ ∀ p ∈ new, low ≤ p.2 := by
  induction got with
  | nil => exact ⟨[], [], rfl, nofun, nofun⟩
  | cons q got ih =>
    rw [List.map_cons, List.pairwise_cons] at hrising
    by_cases hq : q.2 < low
    · obtain ⟨old, new, rfl, hold, hnew⟩ := ih hrising.2
      exact ⟨q :: old, new, rfl, List.forall_mem_cons.mpr ⟨hq, hold⟩, hnew⟩
    · refine ⟨[], q :: got, rfl, nofun, List.forall_mem_cons.mpr ⟨Nat.not_lt.mp hq, fun p hp => ?_⟩⟩
      have hlt := hrising.1 p.2 (List.mem_map_of_mem hp)
      omega

/-- The items with these indices. -/
theorem items_of_range' {l : List α} : ∀ {got : List (α × Nat)} {low : Nat},
    got.map Prod.snd = List.range' low got.length → (∀ p ∈ got, l[p.2]? = some p.1) →
      got.map Prod.fst = (l.drop low).take got.length
  | [], _, _, _ => rfl
  | (x, m) :: got, low, hindices, hright => by
    rw [List.map_cons, List.length_cons, List.range'_succ] at hindices
    obtain ⟨rfl, hrest⟩ := List.cons.inj hindices
    have hx : l[m]? = some x := hright (x, m) List.mem_cons_self
    have hdrop : l.drop m = x :: l.drop (m + 1) := by
      obtain ⟨hlt, rfl⟩ := List.getElem?_eq_some_iff.mp hx
      exact List.drop_eq_getElem_cons hlt
    have htail := items_of_range' hrest fun p hp => hright p (List.mem_cons_of_mem _ hp)
    rw [List.map_cons, htail, hdrop, List.length_cons, List.take_succ_cons]

/-! ## The invariant -/

/-- Of the connection of the sender, no item was read before another one that comes first. -/
def Gapless (s r : Party w α) : Prop :=
  s.isOpen = true → ∀ p ∈ r.got, ∀ g, s.start ≤ g → g ≤ p.2 → g ∈ r.got.map Prod.snd

/-- The sender stays in its connection, if it has one. -/
theorem Gapless.sender {s' : Party w α} (hg : Gapless s r)
    (hs : s'.isOpen = true → s.isOpen = true ∧ s'.start = s.start) : Gapless s' r := by
  intro ho
  obtain ⟨ho, hstart⟩ := hs ho
  rw [hstart]
  exact hg ho

/-- The receiver reads nothing. -/
theorem Gapless.receiver {r' : Party w α} (hg : Gapless s r) (hgot : r'.got = r.got) :
    Gapless s r' := by
  unfold Gapless
  rw [hgot]
  exact hg

theorem Gapless.senderWorks {s' : Party w α} (hg : Gapless s r) (hs : s.Works s') :
    Gapless s' r := by
  cases hs with
  | accept => exact hg.sender fun ho => ⟨ho, rfl⟩
  | close => exact nofun
  | ack => exact hg.sender fun ho => ⟨ho, rfl⟩
  | fence => exact hg.sender fun ho => ⟨ho, rfl⟩
  | other => exact hg.sender fun ho => ⟨ho, rfl⟩

theorem Gapless.senderSends {s' : Party w α} {f : Frame w α} (hg : Gapless s r)
    (hs : s.Sends f s') : Gapless s' r := by
  cases hs with
  | signal => exact hg.sender fun ho => ⟨ho, rfl⟩
  | data => exact hg

theorem Gapless.senderHears {s' : Party w α} {f : Frame w α} (hg : Gapless s r)
    (hs : s.Hears f s') : Gapless s' r := by
  cases hs with
  | read => exact hg.sender fun ho => ⟨ho, rfl⟩
  | confirm => exact hg.sender fun ho => ⟨ho, rfl⟩
  | ignore => exact hg

/-- What was read is of earlier connections when one begins. -/
theorem Gapless.senderOpens (hd : Delivers s r way) (answer : Bool) :
    Gapless (s.open answer) r := by
  rintro - ⟨y, m⟩ hm g hle hgm
  have hlt : m < s.accepted.length := hd.got_lt hm
  exact absurd hlt (Nat.not_lt.mpr (Nat.le_trans hle hgm))

theorem Gapless.receiverWorks {r' : Party w α} (hg : Gapless s r) (hs : r.Works r') :
    Gapless s r' := by
  cases hs with
  | _ => exact hg.receiver rfl

theorem Gapless.receiverSends {r' : Party w α} {f : Frame w α} (hg : Gapless s r)
    (hs : r.Sends f r') : Gapless s r' := by
  cases hs with
  | _ => exact hg.receiver rfl

/-- The item read is the next one of the connection, and those before it were read. -/
theorem Gapless.receiverHears {f : Frame w α} {rest : List (Frame w α)} {r' : Party w α}
    (hg : Gapless s r) (hc : Confirms s r (f :: rest) back) (hn : Numbered s (f :: rest))
    (hs : r.Hears f r') : Gapless s r' := by
  cases hs with
  | @read m nr x ho =>
    intro hopen p hp g hle hgp
    obtain ⟨n, counts, ha⟩ := hc.aligned hopen
    have hm := ha.index hn ho
    have hgot : ((r.read m x).confirm nr).got.map Prod.snd = r.got.map Prod.snd ++ [m] :=
      List.map_append
    rw [hgot, List.mem_append, List.mem_singleton]
    rcases List.mem_append.mp hp with hp | hp
    · exact .inl (hg hopen p hp g hle hgp)
    · cases List.mem_singleton.mp hp
      rcases Nat.lt_or_eq_of_le hgp with hlt | he
      · exact .inl (ha.read g hle (hm ▸ hlt))
      · exact .inr he
  | confirm => exact hg.receiver rfl
  | ignore => exact hg

/-! ## Both directions -/

/-- Nothing is skipped in either direction. -/
def Exchange.Gapless (e : Exchange w α) : Prop :=
  ∀ i, GoBackN.Gapless (e.party i) (e.party (!i))

theorem Exchange.Gapless.inward (hg : e.Gapless) (i : Bool) :
    GoBackN.Gapless (e.party (!i)) (e.party i) := by
  have hin := hg (!i)
  rwa [Bool.not_not] at hin

/-- The direction from a party, and the one to it. -/
theorem Exchange.Gapless.of_ends (i : Bool)
    (hout : GoBackN.Gapless (e.party i) (e.party (!i)))
    (hin : GoBackN.Gapless (e.party (!i)) (e.party i)) : e.Gapless := by
  intro j
  cases i <;> cases j <;> assumption

theorem Exchange.Gapless.step (hg : e.Gapless) (hc : e.Confirming)
    (hs : e.Step Exchange.fresh e') : e'.Gapless := by
  have hin := hg.inward
  cases hs with
  | works i hs =>
    refine .of_ends i ?_ ?_
    · simpa using (hg i).senderWorks hs
    · simpa using (hin i).receiverWorks hs
  | sends i hs =>
    refine .of_ends i ?_ ?_
    · simpa using (hg i).senderSends hs
    · simpa using (hin i).receiverSends hs
  | hears i hway hs =>
    refine .of_ends i ?_ ?_
    · simpa using (hg i).senderHears hs
    · have hn := (hway ▸ (hc.delivering i).toNumbered : Numbered (e.party (!i)) _)
      simpa using (hin i).receiverHears (hway ▸ hc.inward i) hn hs
  | opens i answer hway _ =>
    refine .of_ends i ?_ ?_
    · simpa using Gapless.senderOpens (hc.delivering.outward i) answer
    · have hkept : GoBackN.Gapless (e.party (!i)) ((e.party i).open answer) := (hin i).receiver rfl
      simpa using hkept
  | loses i hr => exact hg

/-- The rule for runs in which connections begin afresh. -/
theorem Exchange.Gapless.run (hg : e.Gapless) (hc : e.Confirming)
    (hr : Relation.ReflTransGen (Exchange.Step Exchange.fresh) e e') : e'.Gapless := by
  induction hr with
  | refl => exact hg
  | tail hr hs ih => exact ih.step (hc.run hr) hs

/-- What was read ends with the first items of the window, and what was read before that is
none of the window. -/
theorem Exchange.Gapless.window (hg : e.Gapless) (hc : e.Confirming) {i : Bool}
    (ho : (e.party i).isOpen = true) :
    ∃ old k, (e.party (!i)).got.map Prod.fst =
        old ++ ((e.party i).accepted.drop (e.party i).low).take k ∧
      old <+ (e.party i).accepted.take (e.party i).low ∧
        (e.party i).confirmed.map Prod.fst <+ old := by
  have hd := hc.delivering.outward i
  have hconf := hc.confirms i
  have hgap := hg i
  generalize e.party i = s at *
  generalize e.party (!i) = r at *
  have hlow := hd.low
  obtain ⟨old, new, hgot, hold, hnew⟩ := split_rising hd.rising s.low
  have hrising := hd.rising
  rw [hgot, List.map_append, List.pairwise_append] at hrising
  have hindices : new.map Prod.snd = List.range' s.low new.length := by
    rw [← List.length_map Prod.snd]
    refine eq_range' hrising.2.1 (List.forall_mem_map.mpr hnew) ?_
    -- Nothing of the window is missing below an item that was read.
    intro m hm g hle hgm
    obtain ⟨p, hp, rfl⟩ := List.mem_map.mp hm
    have hmem := hgap ho p (hgot ▸ List.mem_append_right _ hp) g (Nat.le_trans hlow hle) hgm
    rw [hgot, List.map_append, List.mem_append] at hmem
    refine hmem.resolve_left fun hbefore => ?_
    obtain ⟨q, hq, rfl⟩ := List.mem_map.mp hbefore
    exact absurd (hold q hq) (Nat.not_lt.mpr hle)
  have hright : ∀ p ∈ r.got, s.accepted[p.2]? = some p.1 := fun _ hp => hd.right hp
  rw [hgot, List.forall_mem_append] at hright
  refine ⟨old.map Prod.fst, new.length, ?_, ?_, ?_⟩
  · rw [hgot, List.map_append, items_of_range' hindices hright.2]
  · refine sublist_of_indices hrising.1 fun {y m} hm => ?_
    have hlt : m < s.low := hold (y, m) hm
    rw [List.getElem?_take_of_lt hlt]
    exact hright.1 (y, m) hm
  · refine (sublist_of_rising hconf.rising hrising.1 fun p hp => ?_).map Prod.fst
    have hmem := hconf.read p hp
    rw [hgot, List.mem_append] at hmem
    exact hmem.resolve_right fun hp' => absurd (hconf.below p hp) (Nat.not_lt.mpr (hnew p hp'))

end GoBackN
