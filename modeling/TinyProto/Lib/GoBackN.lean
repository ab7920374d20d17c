import TinyProto.Lib.SlotWindow
import Mathlib.Logic.Relation
import Mathlib.Data.List.Sublists

/-!
# Numbered frames between two parties

Two parties send each other items in frames with sequence numbers of `w` bits, and each tells
the other with every frame which number it expects.  The numbers start anew with every
connection.  A *fence* is a frame that opens a connection at the party that reads it, if that
party takes it so.  A party sends what waits in its queue before any item, and queues a fence
only without a connection or when it opens one.

A frame carries the index of its item among all items accepted.  No party looks at it.

The frames on the way arrive in order, or not at all.  What a party reads are then items the
other one accepted, in order and once each (`Exchange.Delivering.got_sublist`).
-/

namespace GoBackN

open scoped List

variable {w : Nat} {α : Type*}

/-! ## Parties -/

/-- A frame without an item. -/
inductive Signal (w : Nat) where
  | ack (nr : BitVec w)
  | fence
  | other
deriving DecidableEq

/-- A frame.  `ns` is its number, `nr` the one its sender expects. -/
inductive Frame (w : Nat) (α : Type*) where
  | signal (c : Signal w)
  | data (index : Nat) (ns nr : BitVec w) (item : α)

/-- One end. -/
structure Party (w : Nat) (α : Type*) where
  isOpen : Bool
  /-- The items of the application, of all connections. -/
  accepted : List α
  /-- Where this connection begins. -/
  start : Nat
  /-- The first item that is not confirmed. -/
  low : Nat
  /-- The number expected. -/
  next : BitVec w
  /-- What is sent before any item. -/
  queue : List (Signal w)
  /-- The items read, with their indices. -/
  got : List (α × Nat)
  /-- The items confirmed, with their indices. -/
  confirmed : List (α × Nat)

/-- How many items a number confirms: those before it, or all if it is not in the window. -/
def Party.reach (s : Party w α) (nr : BitVec w) : Nat :=
  min (nr - BitVec.ofNat w (s.low - s.start)).toNat (s.accepted.length - s.low)

/-- The next items are confirmed. -/
def Party.release (s : Party w α) (n : Nat) : Party w α :=
  { s with
    low := s.low + n
    confirmed := s.confirmed ++ ((s.accepted.drop s.low).take n).zipIdx s.low }

/-- The other party expects this number. -/
def Party.confirm (s : Party w α) (nr : BitVec w) : Party w α := s.release (s.reach nr)

/-- The connection ends.  The items that are not confirmed are given up. -/
def Party.close (s : Party w α) : Party w α :=
  { s with isOpen := false, start := s.accepted.length, low := s.accepted.length }

/-- A connection begins, and the fence is answered or not. -/
def Party.open (s : Party w α) (answer : Bool) : Party w α :=
  { s with
    isOpen := true
    start := s.accepted.length
    low := s.accepted.length
    next := 0
    queue := if answer then s.queue ++ [.fence] else s.queue }

/-- A signal is queued. -/
def Party.put (s : Party w α) (c : Signal w) : Party w α := { s with queue := s.queue ++ [c] }

/-- The item with the expected number is read. -/
def Party.read (s : Party w α) (index : Nat) (item : α) : Party w α :=
  { s with next := s.next + 1, got := s.got ++ [(item, index)] }

/-- What a party does by itself. -/
inductive Party.Works : Party w α → Party w α → Prop where
  | accept {s : Party w α} (x : α) (ho : s.isOpen = true)
      (hroom : s.accepted.length + 1 < s.low + 2 ^ w) :
      Works s { s with accepted := s.accepted ++ [x] }
  | close {s : Party w α} : Works s s.close
  | ack {s : Party w α} (ho : s.isOpen = true) : Works s (s.put (.ack s.next))
  | fence {s : Party w α} (ho : s.isOpen = false) : Works s (s.put .fence)
  | other {s : Party w α} : Works s (s.put .other)

/-- What a party sends. -/
inductive Party.Sends : Party w α → Frame w α → Party w α → Prop where
  | signal {s : Party w α} {c : Signal w} {rest : List (Signal w)} (hq : s.queue = c :: rest) :
      Sends s (.signal c) { s with queue := rest }
  | data {s : Party w α} {g : Nat} {x : α} (hq : s.queue = []) (ho : s.isOpen = true)
      (hlow : s.low ≤ g) (hx : s.accepted[g]? = some x) :
      Sends s (.data g (BitVec.ofNat w (g - s.start)) s.next x) s

/-- The number a signal says its sender expects. -/
def Signal.expects : Signal w → Option (BitVec w)
  | .ack nr => some nr
  | _ => none

/-- The number a frame says its sender expects. -/
def Frame.expects : Frame w α → Option (BitVec w)
  | .signal c => c.expects
  | .data _ _ nr _ => some nr

/-- What a frame does that opens no connection. -/
inductive Party.Hears : Party w α → Frame w α → Party w α → Prop where
  | read {s : Party w α} {g : Nat} {nr : BitVec w} {x : α} (ho : s.isOpen = true) :
      Hears s (.data g s.next nr x) ((s.read g x).confirm nr)
  | confirm {s : Party w α} {f : Frame w α} {nr : BitVec w} (ho : s.isOpen = true)
      (hf : f.expects = some nr) : Hears s f (s.confirm nr)
  | ignore {s : Party w α} {f : Frame w α} : Hears s f s

theorem Party.Sends.accepted {s s' : Party w α} {f : Frame w α} (hs : s.Sends f s') :
    s'.accepted = s.accepted := by
  cases hs with
  | signal => rfl
  | data => rfl

theorem Party.Hears.accepted {s s' : Party w α} {f : Frame w α} (hs : s.Hears f s') :
    s'.accepted = s.accepted := by
  cases hs with
  | read => rfl
  | confirm => rfl
  | ignore => rfl

/-- What a party does by itself and sends meanwhile. -/
inductive Party.Emits : Party w α → List (Frame w α) → Party w α → Prop where
  | refl {s : Party w α} : Emits s [] s
  | works {s s₁ s₂ : Party w α} {fs : List (Frame w α)} (he : Emits s fs s₁) (hs : s₁.Works s₂) :
      Emits s fs s₂
  | sends {s s₁ s₂ : Party w α} {fs : List (Frame w α)} {f : Frame w α} (he : Emits s fs s₁)
      (hs : s₁.Sends f s₂) : Emits s (fs ++ [f]) s₂

/-- What a party does about a frame. -/
inductive Party.Answers : Party w α → Frame w α → Party w α → Prop where
  | intro {s s₁ s₂ s₃ : Party w α} {f : Frame w α} (hbefore : s.Emits [] s₁)
      (hf : s₁.Hears f s₂) (hbehind : s₂.Emits [] s₃) : Answers s f s₃

/-! ## Two parties -/

/-- Two parties, and the frames on the way to each. -/
structure Exchange (w : Nat) (α : Type*) where
  party : Bool → Party w α
  way : Bool → List (Frame w α)

/-- The exchange goes on.  A guard says where a connection may be opened: at the party, with
the frame taken from the way. -/
inductive Exchange.Step (guard : Exchange w α → Bool → Prop) :
    Exchange w α → Exchange w α → Prop where
  | works {e : Exchange w α} (i : Bool) {s : Party w α} (hs : (e.party i).Works s) :
      Step guard e { e with party := Function.update e.party i s }
  | sends {e : Exchange w α} (i : Bool) {f : Frame w α} {s : Party w α}
      (hs : (e.party i).Sends f s) :
      Step guard e
        { party := Function.update e.party i s
          way := Function.update e.way (!i) (e.way (!i) ++ [f]) }
  | hears {e : Exchange w α} (i : Bool) {f : Frame w α} {rest : List (Frame w α)} {s : Party w α}
      (hway : e.way i = f :: rest) (hs : (e.party i).Hears f s) :
      Step guard e
        { party := Function.update e.party i s, way := Function.update e.way i rest }
  | opens {e : Exchange w α} (i answer : Bool) {rest : List (Frame w α)}
      (hway : e.way i = .signal .fence :: rest)
      (hg : guard { e with way := Function.update e.way i rest } i) :
      Step guard e
        { party := Function.update e.party i ((e.party i).open answer)
          way := Function.update e.way i rest }
  | loses {e : Exchange w α} (i : Bool) {rest : List (Frame w α)} (hr : rest <+ e.way i) :
      Step guard e { e with way := Function.update e.way i rest }

variable {guard : Exchange w α → Bool → Prop}

@[simp] theorem update_not {β : Bool → Type*} (f : ∀ i, β i) (i : Bool) (v : β i) :
    Function.update f i v (!i) = f (!i) :=
  Function.update_of_ne (Bool.not_ne_self i) v f

@[simp] theorem update_at_not {β : Type*} (f : Bool → β) (i : Bool) (v : β) :
    Function.update f (!i) v i = f i :=
  Function.update_of_ne (Bool.not_ne_self i).symm v f

theorem Party.Emits.trans {s s₁ s₂ : Party w α} {fs fs' : List (Frame w α)} (he : s.Emits fs s₁)
    (he' : s₁.Emits fs' s₂) : s.Emits (fs ++ fs') s₂ := by
  induction he' with
  | refl => rwa [List.append_nil]
  | works _ hs ih => exact .works ih hs
  | sends _ hs ih =>
    rw [← List.append_assoc]
    exact .sends ih hs

/-- What a party sends is on the way to the other one. -/
theorem Party.Emits.steps {e : Exchange w α} {i : Bool} {s : Party w α} {fs : List (Frame w α)}
    (he : (e.party i).Emits fs s) :
    Relation.ReflTransGen (Exchange.Step guard) e
      { party := Function.update e.party i s
        way := Function.update e.way (!i) (e.way (!i) ++ fs) } := by
  induction he with
  | refl => rw [List.append_nil, Function.update_eq_self, Function.update_eq_self]
  | @works s₁ s₂ fs _ hs ih =>
    have hs' : (Function.update e.party i s₁ i).Works s₂ := by rwa [Function.update_self]
    have hstep : Exchange.Step guard
        { party := Function.update e.party i s₁
          way := Function.update e.way (!i) (e.way (!i) ++ fs) } _ := .works i hs'
    dsimp only at hstep
    rw [Function.update_idem] at hstep
    exact ih.tail hstep
  | @sends s₁ s₂ fs f _ hs ih =>
    have hs' : (Function.update e.party i s₁ i).Sends f s₂ := by rwa [Function.update_self]
    have hstep : Exchange.Step guard
        { party := Function.update e.party i s₁
          way := Function.update e.way (!i) (e.way (!i) ++ fs) } _ := .sends i hs'
    dsimp only at hstep
    rw [Function.update_idem, Function.update_idem, Function.update_self, List.append_assoc] at hstep
    exact ih.tail hstep

/-- A party works, and sends nothing. -/
theorem Party.Emits.silent {e : Exchange w α} {i : Bool} {s : Party w α}
    (he : (e.party i).Emits [] s) :
    Relation.ReflTransGen (Exchange.Step guard) e
      { e with party := Function.update e.party i s } := by
  have hsteps : Relation.ReflTransGen (Exchange.Step guard) e _ := he.steps
  rwa [List.append_nil, Function.update_eq_self] at hsteps

/-- The first frame on the way is answered. -/
theorem Party.Answers.steps {e : Exchange w α} {i : Bool} {f : Frame w α}
    {rest : List (Frame w α)} {s : Party w α} (ha : (e.party i).Answers f s)
    (hway : e.way i = f :: rest) :
    Relation.ReflTransGen (Exchange.Step guard) e
      { party := Function.update e.party i s, way := Function.update e.way i rest } := by
  cases ha with
  | @intro s₁ s₂ _ _ hbefore hf hbehind =>
    have hf' : (Function.update e.party i s₁ i).Hears f s₂ := by rwa [Function.update_self]
    have hhears : Exchange.Step guard { e with party := Function.update e.party i s₁ } _ :=
      .hears i hway hf'
    have hbehind' : (Function.update e.party i s₂ i).Emits [] s := by rwa [Function.update_self]
    have hlast : Relation.ReflTransGen (Exchange.Step guard)
        { party := Function.update e.party i s₂, way := Function.update e.way i rest } _ :=
      Party.Emits.silent hbehind'
    dsimp only at hhears hlast
    rw [Function.update_idem] at hhears hlast
    exact (hbefore.silent.tail hhears).trans hlast

/-- The parties at the beginning. -/
def Party.new : Party w α :=
  { isOpen := false
    accepted := []
    start := 0
    low := 0
    next := 0
    queue := []
    got := []
    confirmed := [] }

/-- The beginning. -/
def Exchange.new : Exchange w α := { party := fun _ => .new, way := fun _ => [] }

/-! ## What is on the way -/

/-- A short list at the end of which a frame was put. -/
theorem sublist_concat {l way : List (Frame w α)} {c f : Frame w α} (h : l ++ [c] <+ way ++ [f]) :
    l ++ [c] <+ way ∨ l <+ way ∧ c = f := by
  obtain ⟨l₁, l₂, he, h₁, h₂⟩ := List.sublist_append_iff.mp h
  rcases List.eq_nil_or_concat l₂ with rfl | ⟨l₂', c', rfl⟩
  · rw [List.append_nil] at he
    exact .inl (he ▸ h₁)
  · right
    rw [List.concat_eq_append, ← List.append_assoc] at he
    obtain ⟨rfl, hc⟩ := List.append_inj' he rfl
    rw [List.concat_eq_append] at h₂
    have hlen := h₂.length_le
    rw [List.length_append, List.length_singleton, List.length_singleton] at hlen
    have hnil : l₂' = [] := List.length_eq_zero_iff.mp (by omega)
    subst hnil
    rw [List.append_nil]
    exact ⟨h₁, (List.singleton_inj.mp hc).trans (List.singleton_sublist.mp h₂ |> List.mem_singleton.mp)⟩

/-- Two items on the way, the numbers of the first and the second. -/
def InOrder (w : Nat) (g : Nat) (ns : BitVec w) (g' : Nat) (ns' : BitVec w) : Prop :=
  g < g' ∨ g' ≤ g ∧ g + 1 < g' + 2 ^ w ∧ ns - ns' = BitVec.ofNat w (g - g')

/-- What a party sends is numbered. -/
structure Numbered (s : Party w α) (way : List (Frame w α)) : Prop where
  low : s.start ≤ s.low
  top : s.low ≤ s.accepted.length
  window : s.accepted.length < s.low + 2 ^ w
  shut : s.isOpen = false → s.start = s.accepted.length
  item : ∀ {g ns nr x}, .data g ns nr x ∈ way → s.accepted[g]? = some x
  number : ∀ {g ns nr x}, .data g ns nr x ∈ way → s.start ≤ g → ns = BitVec.ofNat w (g - s.start)
  /-- An item comes before the next, or is sent again with others of the window. -/
  ordered : ∀ {g ns nr x g' ns' nr' x'}, [.data g ns nr x, .data g' ns' nr' x'] <+ way →
    InOrder w g ns g' ns'
  /-- Nothing is sent again behind a fence. -/
  parted : ∀ {g ns nr x g' ns' nr' x'},
    [.data g ns nr x, .signal .fence, .data g' ns' nr' x'] <+ way → g < g'
  fenced : ∀ {g ns nr x}, [.data g ns nr x, .signal .fence] <+ way → g < s.start
  /-- Nothing of an earlier connection is behind something of this one. -/
  onward : ∀ {g ns nr x g' ns' nr' x'}, [.data g ns nr x, .data g' ns' nr' x'] <+ way →
    s.start ≤ g → s.start ≤ g'
  waiting : .fence ∈ s.queue → ∀ {g ns nr x}, .data g ns nr x ∈ way → g < s.start

variable {s r : Party w α} {way : List (Frame w α)}

theorem Numbered.lt_top (hn : Numbered s way) {g : Nat} {ns nr : BitVec w} {x : α}
    (hg : .data g ns nr x ∈ way) : g < s.accepted.length :=
  (List.getElem?_eq_some_iff.mp (hn.item hg)).1

/-- Frames get lost or are read. -/
theorem Numbered.sublist (hn : Numbered s way) {rest : List (Frame w α)} (hr : rest <+ way) :
    Numbered s rest where
  low := hn.low
  top := hn.top
  window := hn.window
  shut := hn.shut
  item hg := hn.item (hr.subset hg)
  number hg := hn.number (hr.subset hg)
  ordered hg := hn.ordered (hg.trans hr)
  parted hg := hn.parted (hg.trans hr)
  fenced hg := hn.fenced (hg.trans hr)
  onward hg := hn.onward (hg.trans hr)
  waiting hf _ _ _ _ hg := hn.waiting hf (hr.subset hg)

/-- Nothing of the connection changes but what was confirmed. -/
theorem Numbered.congr {s' : Party w α} (hn : Numbered s way) (ho : s'.isOpen = s.isOpen)
    (ha : s'.accepted = s.accepted) (hs : s'.start = s.start) (hq : s'.queue = s.queue)
    (hlow : s.low ≤ s'.low) (htop : s'.low ≤ s.accepted.length) : Numbered s' way where
  low := hs ▸ hn.low.trans hlow
  top := by rwa [ha]
  window := by
    have := hn.window
    rw [ha]
    omega
  shut := by
    rw [ho, ha, hs]
    exact hn.shut
  item := by
    rw [ha]
    exact hn.item
  number := by
    rw [hs]
    exact hn.number
  ordered := hn.ordered
  parted := hn.parted
  fenced := by
    rw [hs]
    exact hn.fenced
  onward := by
    rw [hs]
    exact hn.onward
  waiting := by
    rw [hq, hs]
    exact hn.waiting

theorem Numbered.confirm (hn : Numbered s way) (nr : BitVec w) : Numbered (s.confirm nr) way := by
  refine hn.congr rfl rfl rfl rfl (Nat.le_add_right _ _) ?_
  have hle : s.reach nr ≤ s.accepted.length - s.low := Nat.min_le_right _ _
  have htop := hn.top
  show s.low + s.reach nr ≤ _
  omega

theorem Numbered.read (hn : Numbered s way) (g : Nat) (x : α) : Numbered (s.read g x) way :=
  hn.congr rfl rfl rfl rfl (Nat.le_refl _) hn.top

/-- The connection ends or begins. -/
theorem Numbered.restart {s' : Party w α} (hn : Numbered s way)
    (ha : s'.accepted = s.accepted) (hs : s'.start = s.accepted.length)
    (hl : s'.low = s.accepted.length) : Numbered s' way where
  low := Nat.le_of_eq (hs.trans hl.symm)
  top := Nat.le_of_eq (hl.trans (congrArg _ ha.symm))
  window := by
    rw [ha, hl]
    exact Nat.lt_add_of_pos_right (Nat.two_pow_pos w)
  shut _ := hs.trans (congrArg _ ha.symm)
  item := by
    rw [ha]
    exact hn.item
  number hg hle := absurd (hn.lt_top hg) (Nat.not_lt.mpr (hs ▸ hle))
  ordered := hn.ordered
  parted := hn.parted
  fenced hg := hs ▸ hn.lt_top (hg.subset List.mem_cons_self)
  onward hg hle :=
    absurd (hn.lt_top (hg.subset List.mem_cons_self)) (Nat.not_lt.mpr (hs ▸ hle))
  waiting _ _ _ _ _ hg := hs ▸ hn.lt_top hg

theorem Numbered.put (hn : Numbered s way) {c : Signal w} (hc : c = .fence → s.isOpen = false) :
    Numbered (s.put c) way where
  low := hn.low
  top := hn.top
  window := hn.window
  shut := hn.shut
  item := hn.item
  number := hn.number
  ordered := hn.ordered
  parted := hn.parted
  fenced := hn.fenced
  onward := hn.onward
  waiting hf _ _ _ _ hg := by
    rcases List.mem_append.mp hf with hf | hf
    · exact hn.waiting hf hg
    · have hshut := hn.shut (hc (List.mem_singleton.mp hf).symm)
      exact Nat.lt_of_lt_of_eq (hn.lt_top hg) hshut.symm

theorem Numbered.accept (hn : Numbered s way) (ho : s.isOpen = true)
    (hroom : s.accepted.length + 1 < s.low + 2 ^ w) (x : α) :
    Numbered { s with accepted := s.accepted ++ [x] } way where
  low := hn.low
  top := by
    rw [List.length_append]
    exact Nat.le_add_right_of_le hn.top
  window := by
    rw [List.length_append]
    exact hroom
  shut hs := absurd (ho.symm.trans hs) Bool.noConfusion
  item hg := by
    rw [List.getElem?_append_left (hn.lt_top hg)]
    exact hn.item hg
  number := hn.number
  ordered := hn.ordered
  parted := hn.parted
  fenced := hn.fenced
  onward := hn.onward
  waiting := hn.waiting

theorem Numbered.works {s' : Party w α} (hn : Numbered s way) (hs : s.Works s') :
    Numbered s' way := by
  cases hs with
  | accept x ho hroom => exact hn.accept ho hroom x
  | close => exact hn.restart rfl rfl rfl
  | ack _ => exact hn.put nofun
  | fence ho => exact hn.put fun _ => ho
  | other => exact hn.put nofun

theorem Numbered.hears {s' : Party w α} (hn : Numbered s way) {f : Frame w α} (hs : s.Hears f s') :
    Numbered s' way := by
  cases hs with
  | read _ => exact (hn.read _ _).confirm _
  | confirm _ _ => exact hn.confirm _
  | ignore => exact hn

theorem ofNat_sub {m n : Nat} (h : n ≤ m) :
    BitVec.ofNat w m - BitVec.ofNat w n = BitVec.ofNat w (m - n) := by
  have hm : m = m - n + n := by omega
  conv_lhs => rw [hm, BitVec.ofNat_add]
  rw [BitVec.add_sub_cancel]

/-- Close indices with the same number are the same. -/
theorem eq_of_ofNat {m n : Nat} (he : BitVec.ofNat w m = BitVec.ofNat w n) (hm : m < n + 2 ^ w)
    (hn : n < m + 2 ^ w) : m = n := by
  have hzero : ∀ {m n : Nat}, BitVec.ofNat w m = BitVec.ofNat w n → n ≤ m → m < n + 2 ^ w →
      m ≤ n := by
    intro m n he hle hlt
    have hval := ofNat_sub (w := w) hle
    rw [he, BitVec.sub_self] at hval
    have hmod : (BitVec.ofNat w (m - n)).toNat = m - n := by
      rw [BitVec.toNat_ofNat, Nat.mod_eq_of_lt (by omega)]
    rw [← hval, BitVec.toNat_zero] at hmod
    exact Nat.le_of_sub_eq_zero hmod.symm
  rcases Nat.le_total n m with hle | hle
  · exact Nat.le_antisymm (hzero he hle hm) hle
  · exact Nat.le_antisymm hle (hzero he.symm hle hn)

/-- An item of the window, behind one that was sent before. -/
theorem Numbered.inOrder (hn : Numbered s way) {m g : Nat} {ns : BitVec w}
    (hm : m < s.accepted.length) (hlow : s.low ≤ g)
    (hnum : s.start ≤ m → ns = BitVec.ofNat w (m - s.start)) :
    InOrder w m ns g (BitVec.ofNat w (g - s.start)) := by
  have hstart := hn.low
  have hwin := hn.window
  by_cases hlt : m < g
  · exact .inl hlt
  · refine .inr ⟨Nat.not_lt.mp hlt, by omega, ?_⟩
    rw [hnum (by omega), ofNat_sub (by omega)]
    congr 1
    omega

/-- An item is sent. -/
theorem Numbered.sendsData (hn : Numbered s way) (hq : s.queue = []) {g : Nat} {x : α}
    (hlow : s.low ≤ g) (hx : s.accepted[g]? = some x) (nr : BitVec w) :
    Numbered s (way ++ [.data g (BitVec.ofNat w (g - s.start)) nr x]) where
  low := hn.low
  top := hn.top
  window := hn.window
  shut := hn.shut
  item hg := by
    rcases List.mem_append.mp hg with hg | hg
    · exact hn.item hg
    · cases List.mem_singleton.mp hg
      exact hx
  number hg hle := by
    rcases List.mem_append.mp hg with hg | hg
    · exact hn.number hg hle
    · cases List.mem_singleton.mp hg
      rfl
  ordered := by
    intro g₀ ns₀ nr₀ x₀ g' ns' nr' x' h
    rcases sublist_concat (l := [_]) h with h | ⟨hin, he⟩
    · exact hn.ordered h
    · cases he
      have hmem := List.singleton_sublist.mp hin
      exact hn.inOrder (hn.lt_top hmem) hlow (hn.number hmem)
  parted := by
    intro g₀ ns₀ nr₀ x₀ g' ns' nr' x' h
    rcases sublist_concat (l := [_, _]) h with h | ⟨hin, he⟩
    · exact hn.parted h
    · cases he
      exact (hn.fenced hin).trans_le (hn.low.trans hlow)
  fenced := by
    intro g₀ ns₀ nr₀ x₀ h
    rcases sublist_concat (l := [_]) h with h | ⟨hin, he⟩
    · exact hn.fenced h
    · cases he
  onward := by
    intro g₀ ns₀ nr₀ x₀ g' ns' nr' x' h hle
    rcases sublist_concat (l := [_]) h with h | ⟨-, he⟩
    · exact hn.onward h hle
    · cases he
      exact hn.low.trans hlow
  waiting hf := by
    rw [hq] at hf
    cases hf

/-- A signal is sent. -/
theorem Numbered.sendsSignal (hn : Numbered s way) {c : Signal w} {rest : List (Signal w)}
    (hq : s.queue = c :: rest) : Numbered { s with queue := rest } (way ++ [.signal c]) where
  low := hn.low
  top := hn.top
  window := hn.window
  shut := hn.shut
  item hg := by
    rcases List.mem_append.mp hg with hg | hg
    · exact hn.item hg
    · cases List.mem_singleton.mp hg
  number hg := by
    rcases List.mem_append.mp hg with hg | hg
    · exact hn.number hg
    · cases List.mem_singleton.mp hg
  ordered := by
    intro g₀ ns₀ nr₀ x₀ g' ns' nr' x' h
    rcases sublist_concat (l := [_]) h with h | ⟨hin, he⟩
    · exact hn.ordered h
    · cases he
  parted := by
    intro g₀ ns₀ nr₀ x₀ g' ns' nr' x' h
    rcases sublist_concat (l := [_, _]) h with h | ⟨hin, he⟩
    · exact hn.parted h
    · cases he
  fenced := by
    intro g₀ ns₀ nr₀ x₀ h
    rcases sublist_concat (l := [_]) h with h | ⟨hin, he⟩
    · exact hn.fenced h
    · cases he
      exact hn.waiting (by rw [hq]; exact List.mem_cons_self) (List.singleton_sublist.mp hin)
  onward := by
    intro g₀ ns₀ nr₀ x₀ g' ns' nr' x' h hle
    rcases sublist_concat (l := [_]) h with h | ⟨-, he⟩
    · exact hn.onward h hle
    · cases he
  waiting hf _ _ _ _ hg := by
    rcases List.mem_append.mp hg with hg | hg
    · exact hn.waiting (by rw [hq]; exact List.mem_cons_of_mem _ hf) hg
    · cases List.mem_singleton.mp hg

theorem Numbered.sends {s' : Party w α} (hn : Numbered s way) {f : Frame w α} (hs : s.Sends f s') :
    Numbered s' (way ++ [f]) := by
  cases hs with
  | signal hq => exact hn.sendsSignal hq
  | data hq _ hlow hx => exact hn.sendsData hq hlow hx _

/-! ## What is read -/

/-- What one party reads is what the other one accepted, in order. -/
structure Delivers (s r : Party w α) (way : List (Frame w α)) : Prop extends Numbered s way where
  rising : (r.got.map Prod.snd).Pairwise (· < ·)
  right : ∀ {y m}, (y, m) ∈ r.got → s.accepted[m]? = some y
  /-- With a fence on the way, all that was read is of an earlier connection. -/
  renewed : .signal .fence ∈ way ∨ .fence ∈ s.queue → ∀ {y m}, (y, m) ∈ r.got → m < s.start
  ahead : ∀ {g ns nr x}, [.signal .fence, .data g ns nr x] <+ way →
    ∀ {y m}, (y, m) ∈ r.got → m < g
  /-- The item read last was sent before those on the way. -/
  expected : r.isOpen = true → ∀ {y m}, r.got.getLast? = some (y, m) →
    ∀ {g ns nr x}, .data g ns nr x ∈ way → InOrder w m (r.next - 1) g ns
  aligned : r.isOpen = true → ∀ {y m}, r.got.getLast? = some (y, m) → s.start ≤ m →
    r.next - 1 = BitVec.ofNat w (m - s.start)

theorem Delivers.got_lt (hd : Delivers s r way) {y : α} {m : Nat} (hm : (y, m) ∈ r.got) :
    m < s.accepted.length := (List.getElem?_eq_some_iff.mp (hd.right hm)).1

theorem Delivers.sublist (hd : Delivers s r way) {rest : List (Frame w α)} (hr : rest <+ way) :
    Delivers s r rest where
  toNumbered := hd.toNumbered.sublist hr
  rising := hd.rising
  right := hd.right
  renewed hf := hd.renewed (hf.imp_left fun hf => hr.subset hf)
  ahead hg := hd.ahead (hg.trans hr)
  expected ho _ _ hm _ _ _ _ hg := hd.expected ho hm (hr.subset hg)
  aligned := hd.aligned

/-- The sender changes nothing but its window and what it waits for. -/
theorem Delivers.sender {s' : Party w α} (hd : Delivers s r way) (hn : Numbered s' way)
    (ha : s.accepted <+: s'.accepted) (hs : s'.start = s.start)
    (hq : .fence ∈ s'.queue → .fence ∈ s.queue) : Delivers s' r way where
  toNumbered := hn
  rising := hd.rising
  right hm := by
    obtain ⟨l, hl⟩ := ha
    rw [← hl, List.getElem?_append_left (hd.got_lt hm)]
    exact hd.right hm
  renewed hf := by
    rw [hs]
    exact hd.renewed (hf.imp_right hq)
  ahead := hd.ahead
  expected := hd.expected
  aligned := by
    rw [hs]
    exact hd.aligned

/-- The connection of the sender ends or begins. -/
theorem Delivers.restart {s' : Party w α} (hd : Delivers s r way) (ha : s'.accepted = s.accepted)
    (hs : s'.start = s.accepted.length) (hl : s'.low = s.accepted.length) : Delivers s' r way where
  toNumbered := hd.toNumbered.restart ha hs hl
  rising := hd.rising
  right := by
    rw [ha]
    exact hd.right
  renewed _ _ _ hm := hs ▸ hd.got_lt hm
  ahead := hd.ahead
  expected := hd.expected
  aligned _ _ _ hm hle :=
    absurd (hd.got_lt (List.mem_of_mem_getLast? hm)) (Nat.not_lt.mpr (hs ▸ hle))

theorem Delivers.senderWorks {s' : Party w α} (hd : Delivers s r way) (hs : s.Works s') :
    Delivers s' r way := by
  have hn := hd.toNumbered.works hs
  cases hs with
  | accept x _ _ => exact hd.sender hn (List.prefix_append _ _) rfl id
  | close => exact hd.restart rfl rfl rfl
  | ack _ => exact hd.sender hn (List.prefix_refl _) rfl fun hf => by simpa [Party.put] using hf
  | fence ho =>
    have hstart := hd.shut ho
    refine ⟨hn, hd.rising, hd.right, fun _ _ _ hm => ?_, hd.ahead, hd.expected, hd.aligned⟩
    exact Nat.lt_of_lt_of_eq (hd.got_lt hm) hstart.symm
  | other => exact hd.sender hn (List.prefix_refl _) rfl fun hf => by simpa [Party.put] using hf

theorem Delivers.senderHears {s' : Party w α} (hd : Delivers s r way) {f : Frame w α}
    (hs : s.Hears f s') : Delivers s' r way := by
  have hn := hd.toNumbered.hears hs
  cases hs with
  | read _ => exact hd.sender hn (List.prefix_refl _) rfl id
  | confirm _ _ => exact hd.sender hn (List.prefix_refl _) rfl id
  | ignore => exact hd

theorem Delivers.senderOpens (hd : Delivers s r way) (answer : Bool) :
    Delivers (s.open answer) r way := hd.restart rfl rfl rfl

theorem Delivers.senderSends {s' : Party w α} (hd : Delivers s r way) {f : Frame w α}
    (hs : s.Sends f s') : Delivers s' r (way ++ [f]) := by
  have hn := hd.toNumbered.sends hs
  cases hs with
  | @signal c rest hq =>
    have hmem : ∀ {c' : Signal w}, c' ∈ rest → c' ∈ s.queue := fun hc => by
      rw [hq]
      exact List.mem_cons_of_mem _ hc
    refine ⟨hn, hd.rising, hd.right, fun hf => ?_, fun hg => ?_, fun ho _ _ hm _ _ _ _ hg => ?_,
      hd.aligned⟩
    · refine hd.renewed ?_
      rcases hf with hf | hf
      · rcases List.mem_append.mp hf with hf | hf
        · exact .inl hf
        · cases List.mem_singleton.mp hf
          exact .inr (by rw [hq]; exact List.mem_cons_self)
      · exact .inr (hmem hf)
    · rcases sublist_concat (l := [_]) hg with hg | ⟨-, he⟩
      · exact hd.ahead hg
      · cases he
    · rcases List.mem_append.mp hg with hg | hg
      · exact hd.expected ho hm hg
      · cases List.mem_singleton.mp hg
  | @data g x hq ho hlow hx =>
    refine ⟨hn, hd.rising, hd.right, fun hf => ?_, fun hg => ?_,
      fun ho _ _ hm _ _ _ _ hg => ?_, hd.aligned⟩
    · refine hd.renewed (hf.imp_left fun hf => ?_)
      rcases List.mem_append.mp hf with hf | hf
      · exact hf
      · cases List.mem_singleton.mp hf
    · rcases sublist_concat (l := [_]) hg with hg | ⟨hin, he⟩
      · exact hd.ahead hg
      · cases he
        intro y m hm
        have hlt := hd.renewed (.inl (List.singleton_sublist.mp hin)) hm
        exact hlt.trans_le (hd.low.trans hlow)
    · rcases List.mem_append.mp hg with hg | hg
      · exact hd.expected ho hm hg
      · cases List.mem_singleton.mp hg
        exact hd.inOrder (hd.got_lt (List.mem_of_mem_getLast? hm)) hlow (hd.aligned ho hm)

/-- The receiver reads nothing. -/
theorem Delivers.receiver {r' : Party w α} (hd : Delivers s r way) (hg : r'.got = r.got)
    (ho : r'.isOpen = true → r.isOpen = true ∧ r'.next = r.next) : Delivers s r' way where
  toNumbered := hd.toNumbered
  rising := by
    rw [hg]
    exact hd.rising
  right := by
    rw [hg]
    exact hd.right
  renewed := by
    rw [hg]
    exact hd.renewed
  ahead := by
    rw [hg]
    exact hd.ahead
  expected h := by
    obtain ⟨h', hn⟩ := ho h
    rw [hg, hn]
    exact hd.expected h'
  aligned h := by
    obtain ⟨h', hn⟩ := ho h
    rw [hg, hn]
    exact hd.aligned h'

theorem Delivers.receiverWorks {r' : Party w α} (hd : Delivers s r way) (hs : r.Works r') :
    Delivers s r' way := by
  cases hs with
  | close => exact hd.receiver rfl nofun
  | _ => exact hd.receiver rfl fun ho => ⟨ho, rfl⟩

theorem Delivers.receiverSends {r' : Party w α} (hd : Delivers s r way) {f : Frame w α}
    (hs : r.Sends f r') : Delivers s r' way := by
  cases hs with
  | _ => exact hd.receiver rfl fun ho => ⟨ho, rfl⟩

/-- The number after the last one is that of no frame sent before. -/
theorem not_inOrder {m g : Nat} {ns : BitVec w} (ho : InOrder w m (ns - 1) g ns) : m < g := by
  rcases ho with hlt | ⟨hle, hwin, he⟩
  · exact hlt
  · exfalso
    have hzero : BitVec.ofNat w (m - g + 1) = 0 := by
      have hminus : ns - 1 - ns + 1 = 0 := by grind
      rw [BitVec.ofNat_add, ← he]
      exact hminus
    have hval := congrArg BitVec.toNat hzero
    rw [BitVec.toNat_ofNat, Nat.mod_eq_of_lt (by omega)] at hval
    exact Nat.succ_ne_zero _ (hval.trans BitVec.toNat_zero)

/-- Everything read before is before the item with the expected number. -/
theorem Delivers.got_before (hd : Delivers s r way) (ho : r.isOpen = true) {g : Nat}
    {nr : BitVec w} {x : α} (hg : .data g r.next nr x ∈ way) {y : α} {m : Nat}
    (hm : (y, m) ∈ r.got) : m < g := by
  rcases List.eq_nil_or_concat r.got with hnil | ⟨init, ⟨y', m'⟩, hgot⟩
  · rw [hnil] at hm
    cases hm
  · rw [List.concat_eq_append] at hgot
    have hlast : r.got.getLast? = some (y', m') := by rw [hgot, List.getLast?_concat]
    have hlt : m' < g := not_inOrder (hd.expected ho hlast hg)
    have hrising := hd.rising
    rw [hgot, List.map_append, List.pairwise_append] at hrising
    rw [hgot] at hm
    rcases List.mem_append.mp hm with hm | hm
    · refine lt_trans (hrising.2.2 m ?_ m' (List.mem_singleton_self _)) hlt
      exact List.mem_map_of_mem (f := Prod.snd) hm
    · cases List.mem_singleton.mp hm
      exact hlt

/-- The expected item is read. -/
theorem Delivers.reads {rest : List (Frame w α)} {g : Nat} {nr : BitVec w} {x : α}
    (hd : Delivers s r (.data g r.next nr x :: rest)) (ho : r.isOpen = true) {r' : Party w α}
    (hgot : r'.got = r.got ++ [(x, g)]) (hnext : r'.next = r.next + 1) : Delivers s r' rest := by
  have hrest := hd.sublist (List.sublist_cons_self _ rest)
  have hmem : .data g r.next nr x ∈ Frame.data g r.next nr x :: rest := List.mem_cons_self
  have hbehind : ∀ {l : List (Frame w α)}, l <+ rest →
      .data g r.next nr x :: l <+ .data g r.next nr x :: rest := fun hl => hl.cons_cons _
  have hback : r'.next - 1 = r.next := by rw [hnext, BitVec.add_sub_cancel]
  have hlast : ∀ {y m}, r'.got.getLast? = some (y, m) → m = g := by
    intro y m hm
    rw [hgot, List.getLast?_concat] at hm
    cases hm
    rfl
  -- What held of the items read before holds of this one too.
  have hall : ∀ {P : Nat → Prop}, (∀ {y m}, (y, m) ∈ r.got → P m) → P g →
      ∀ {y m}, (y, m) ∈ r'.got → P m := by
    intro P hP hg y m hm
    rw [hgot] at hm
    rcases List.mem_append.mp hm with hm | hm
    · exact hP hm
    · cases List.mem_singleton.mp hm
      exact hg
  refine ⟨hrest.toNumbered, ?_, ?_, fun hf => ?_, fun hf => ?_, fun _ _ _ hm _ _ _ _ hg => ?_,
    fun _ _ _ hm hle => ?_⟩
  · rw [hgot, List.map_append, List.pairwise_append]
    refine ⟨hd.rising, List.pairwise_singleton _ _, fun m hm m' hm' => ?_⟩
    obtain ⟨⟨y, _⟩, hy, rfl⟩ := List.mem_map.mp hm
    cases List.mem_singleton.mp hm'
    exact hd.got_before ho hmem hy
  · intro y m hm
    rw [hgot] at hm
    rcases List.mem_append.mp hm with hm | hm
    · exact hd.right hm
    · cases List.mem_singleton.mp hm
      exact hd.item hmem
  · refine hall (fun hm => hd.renewed (hf.imp_left (List.mem_cons_of_mem _)) hm) ?_
    rcases hf with hf | hf
    · exact hd.fenced (hbehind (List.singleton_sublist.mpr hf))
    · exact hd.waiting hf hmem
  · exact hall (fun hm => hrest.ahead hf hm) (hd.parted (hbehind hf))
  · rw [hlast hm, hback]
    exact hd.ordered (hbehind (List.singleton_sublist.mpr hg))
  · rw [hlast hm] at hle ⊢
    rw [hback]
    exact hd.number hmem hle

theorem Delivers.receiverHears {f : Frame w α} {rest : List (Frame w α)} {r' : Party w α}
    (hd : Delivers s r (f :: rest)) (hs : r.Hears f r') : Delivers s r' rest := by
  cases hs with
  | read ho => exact hd.reads ho rfl rfl
  | confirm _ _ =>
    exact (hd.sublist (List.sublist_cons_self _ rest)).receiver rfl fun ho => ⟨ho, rfl⟩
  | ignore => exact hd.sublist (List.sublist_cons_self _ rest)

/-- A fence opens a connection. -/
theorem Delivers.receiverOpens {rest : List (Frame w α)}
    (hd : Delivers s r (.signal .fence :: rest)) (answer : Bool) :
    Delivers s (r.open answer) rest := by
  have hrest := hd.sublist (List.sublist_cons_self _ rest)
  refine ⟨hrest.toNumbered, hd.rising, hd.right, hrest.renewed, hrest.ahead,
    fun _ _ _ hm _ _ _ _ hg => ?_, fun _ _ _ hm hle => ?_⟩
  · have hbehind := (List.singleton_sublist.mpr hg).cons_cons (.signal .fence)
    exact .inl (hd.ahead hbehind (List.mem_of_mem_getLast? hm))
  · have hlt := hd.renewed (.inl List.mem_cons_self) (List.mem_of_mem_getLast? hm)
    exact absurd hlt (Nat.not_lt.mpr hle)

/-- Both directions. -/
def Exchange.Delivering (e : Exchange w α) : Prop :=
  ∀ i, Delivers (e.party (!i)) (e.party i) (e.way i)

variable {guard : Exchange w α → Bool → Prop} {e e' : Exchange w α}

theorem Exchange.Delivering.outward (hd : e.Delivering) (i : Bool) :
    Delivers (e.party i) (e.party (!i)) (e.way (!i)) := by
  have hout := hd (!i)
  rwa [Bool.not_not] at hout

/-- The direction to a party, and the one from it. -/
theorem Exchange.Delivering.of_ends (i : Bool)
    (hin : Delivers (e.party (!i)) (e.party i) (e.way i))
    (hout : Delivers (e.party i) (e.party (!i)) (e.way (!i))) : e.Delivering := by
  intro j
  cases i <;> cases j <;> assumption

theorem Exchange.Delivering.step (hd : e.Delivering) (hs : e.Step guard e') : e'.Delivering := by
  have hin := hd
  have hout := hd.outward
  cases hs with
  | works i hs =>
    refine .of_ends i ?_ ?_
    · simpa using (hin i).receiverWorks hs
    · simpa using (hout i).senderWorks hs
  | sends i hs =>
    refine .of_ends i ?_ ?_
    · simpa using (hin i).receiverSends hs
    · simpa using (hout i).senderSends hs
  | hears i hway hs =>
    refine .of_ends i ?_ ?_
    · simpa using (hway ▸ hin i).receiverHears hs
    · simpa using (hout i).senderHears hs
  | opens i answer hway _ =>
    refine .of_ends i ?_ ?_
    · simpa using (hway ▸ hin i).receiverOpens answer
    · simpa using (hout i).senderOpens answer
  | loses i hr =>
    refine .of_ends i ?_ ?_
    · simpa using (hin i).sublist hr
    · simpa using hout i

theorem Party.new_numbered : Numbered (.new : Party w α) [] where
  low := Nat.le_refl _
  top := Nat.le_refl _
  window := Nat.lt_of_lt_of_eq (Nat.two_pow_pos w) (Nat.zero_add _).symm
  shut _ := rfl
  item hg := absurd hg List.not_mem_nil
  number hg := absurd hg List.not_mem_nil
  ordered hg := absurd (hg.subset List.mem_cons_self) List.not_mem_nil
  parted hg := absurd (hg.subset List.mem_cons_self) List.not_mem_nil
  fenced hg := absurd (hg.subset List.mem_cons_self) List.not_mem_nil
  onward hg := absurd (hg.subset List.mem_cons_self) List.not_mem_nil
  waiting hf := absurd hf List.not_mem_nil

theorem Exchange.new_delivering : (Exchange.new : Exchange w α).Delivering := by
  intro i
  refine ⟨Party.new_numbered, .nil, fun hm => ?_, fun _ _ _ hm => ?_, fun _ _ _ hm => ?_, nofun,
    nofun⟩
  all_goals exact absurd hm List.not_mem_nil

theorem Exchange.Delivering.run (hd : e.Delivering)
    (hr : Relation.ReflTransGen (Exchange.Step guard) e e') : e'.Delivering := by
  induction hr with
  | refl => exact hd
  | tail _ hs ih => exact ih.step hs

/-- Items with rising indices are items of the list, in order. -/
theorem sublist_of_indices {l : List α} : ∀ {got : List (α × Nat)},
    (got.map Prod.snd).Pairwise (· < ·) → (∀ {y m}, (y, m) ∈ got → l[m]? = some y) →
    got.map Prod.fst <+ l := by
  intro got hrising hright
  have hlt : ∀ p ∈ got, p.2 < l.length := fun p hp =>
    (List.getElem?_eq_some_iff.mp (hright hp)).1
  have hindices : (got.pmap (fun p hp => (⟨p.2, hp⟩ : Fin l.length)) hlt).Pairwise (· < ·) :=
    (List.pairwise_map.mp hrising).pmap hlt fun _ _ _ _ h => h
  have hsub := List.map_getElem_sublist hindices
  rw [List.map_pmap] at hsub
  have hsame : got.pmap (fun p hp => l[(⟨p.2, hp⟩ : Fin l.length)]) hlt = got.map Prod.fst := by
    rw [← List.pmap_eq_map hlt]
    refine List.pmap_congr_left _ fun p hp h _ => ?_
    have hget := List.getElem?_eq_some_iff.mp (hright hp)
    exact hget.2
  rwa [hsame] at hsub

/-- What a party read is what the other one accepted, in order. -/
theorem Exchange.Delivering.got_sublist (hd : e.Delivering) (i : Bool) :
    (e.party i).got.map Prod.fst <+ (e.party (!i)).accepted :=
  sublist_of_indices (hd i).rising (hd i).right

end GoBackN
