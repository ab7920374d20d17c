import TinyProto.Lib.GoBackN
import Mathlib.Data.List.Sort

/-!
# Items that are confirmed

A party takes an item for confirmed once the other one expects a later number.  It was read
then (`Exchange.Confirming.confirmed_sublist`), if no connection opens while something of an
earlier one is left that could be taken for something of the new one (`Fresh`).
-/

namespace GoBackN

open scoped List

variable {w : Nat} {α : Type*} {s r : Party w α} {way : List (Frame w α)}
  {guard : Exchange w α → Bool → Prop} {e e' : Exchange w α}

/-! ## Nothing left of a connection -/

def Signal.isFence : Signal w → Bool
  | .fence => true
  | _ => false

/-- A party that expects the number 0 in a connection, or finds a fence first, reads an item. -/
def Takes : Bool → List (Frame w α) → Prop
  | _, [] => False
  | b, .data _ ns _ _ :: rest => b = true ∧ ns = 0 ∨ Takes b rest
  | b, .signal c :: rest => Takes (b || c.isFence) rest

/-- The frame is none of the connection that begins with this item. -/
def Frame.before (start : Nat) : Frame w α → Bool
  | .signal _ => true
  | .data g _ _ _ => decide (g < start)

/-- The numbers on the way from a party, and those that wait there. -/
def Party.pending (r : Party w α) (back : List (Frame w α)) : List (BitVec w) :=
  back.filterMap Frame.expects ++ r.queue.filterMap Signal.expects

/-- Nothing is left that could be taken for something of a new connection. -/
structure Fresh (r : Party w α) (way back : List (Frame w α)) : Prop where
  next : r.isOpen = true → r.next = 0
  pending : ∀ nr ∈ r.pending back, nr = 0
  items : ¬Takes r.isOpen way

/-- The receiver read `n` items of the connection of the sender, and the numbers on the way
back count some of them. -/
structure Aligned (s r : Party w α) (way back : List (Frame w α)) (n : Nat) (counts : List Nat) :
    Prop where
  read : ∀ g, s.start ≤ g → g < s.start + n → g ∈ r.got.map Prod.snd
  low : s.low ≤ s.start + n
  top : s.start + n ≤ s.accepted.length
  next : r.isOpen = true → r.next = BitVec.ofNat w n
  numbers : r.pending back = counts.map (BitVec.ofNat w)
  rising : (counts ++ [n]).Pairwise (· ≤ ·)
  above : ∀ c ∈ counts, s.low ≤ s.start + c
  begun : 0 < n → .signal .fence ∉ way ∧ .fence ∉ s.queue ∧
    ∀ {g ns nr x}, .data g ns nr x ∈ way → s.start ≤ g
  near : ∀ {g ns nr x}, .data g ns nr x ∈ way → s.start ≤ g →
    s.start + n < g + 2 ^ w ∧ g < s.start + n + 2 ^ w
  stale : ¬Takes r.isOpen (way.filter (Frame.before s.start))

theorem Takes.mono : ∀ {l : List (Frame w α)} {b b' : Bool}, Takes b l → (b = true → b' = true) →
    Takes b' l
  | [], _, _, ht, _ => ht
  | .data _ _ _ _ :: _, _, _, ht, hb => ht.imp (fun h => ⟨hb h.1, h.2⟩) fun h => h.mono hb
  | .signal c :: rest, b, b', ht, hb => by
    have hrest : Takes (b || c.isFence) rest := ht
    refine hrest.mono fun h => ?_
    rw [Bool.or_eq_true] at h ⊢
    exact h.imp_left hb

/-- More frames do not keep a party from reading an item. -/
theorem Takes.sublist {l l' : List (Frame w α)} (hl : l <+ l') : ∀ {b : Bool}, Takes b l →
    Takes b l' := by
  induction hl with
  | slnil => exact id
  | @cons l l' f _ ih =>
    intro b ht
    cases f with
    | signal c =>
      refine (ih ht).mono fun h => ?_
      rw [h, Bool.true_or]
    | data => exact .inr (ih ht)
  | @cons_cons l l' f _ ih =>
    intro b ht
    cases f with
    | signal c =>
      have hrest : Takes (b || c.isFence) l := ht
      exact ih hrest
    | data => exact ht.imp_right ih

/-- A signal at the end does not matter. -/
theorem takes_concat {c : Signal w} : ∀ {l : List (Frame w α)} {b : Bool},
    Takes b (l ++ [.signal c]) → Takes b l
  | [], _, ht => ht
  | .data _ _ _ _ :: _, _, ht => ht.imp_right takes_concat
  | .signal c' :: rest, b, ht => by
    have hrest : Takes (b || c'.isFence) (rest ++ [.signal c]) := ht
    have hgone : Takes (b || c'.isFence) rest := takes_concat hrest
    exact hgone

variable {back : List (Frame w α)} {n : Nat} {counts : List Nat}

/-- The counts of some of the numbers. -/
theorem Aligned.fewer (ha : Aligned s r way back n counts) {back' : List (Frame w α)}
    (hb : r.pending back' <+ r.pending back) : ∃ counts', counts' <+ counts ∧
      Aligned s r way back' n counts' := by
  rw [ha.numbers] at hb
  obtain ⟨counts', hc, he⟩ := List.sublist_map_iff.mp hb
  exact ⟨counts', hc, ha.read, ha.low, ha.top, ha.next, he,
    ha.rising.sublist (hc.append_right _), fun c hm => ha.above c (hc.subset hm), ha.begun, ha.near,
    ha.stale⟩

/-- Frames to the receiver get lost, or are read without a consequence. -/
theorem Aligned.sublist (ha : Aligned s r way back n counts) {rest : List (Frame w α)}
    (hr : rest <+ way) : Aligned s r rest back n counts where
  read := ha.read
  low := ha.low
  top := ha.top
  next := ha.next
  numbers := ha.numbers
  rising := ha.rising
  above := ha.above
  begun hn :=
    have ⟨hf, hq, hg⟩ := ha.begun hn
    ⟨fun h => hf (hr.subset h), hq, fun h => hg (hr.subset h)⟩
  near hg := ha.near (hr.subset hg)
  stale ht := ha.stale (ht.sublist (hr.filter _))

/-- The sender changes neither its connection nor its window, and queues no fence. -/
theorem Aligned.sender {s' : Party w α} (ha : Aligned s r way back n counts)
    (hs : s'.start = s.start) (hacc : s.accepted.length ≤ s'.accepted.length)
    (hlow : s'.low ≤ s.start + n) (habove : ∀ c ∈ counts, s'.low ≤ s.start + c)
    (hq : .fence ∈ s'.queue → .fence ∈ s.queue) : Aligned s' r way back n counts where
  read := by
    rw [hs]
    exact ha.read
  low := by rwa [hs]
  top := by
    rw [hs]
    exact ha.top.trans hacc
  next := ha.next
  numbers := ha.numbers
  rising := ha.rising
  above := by rwa [hs]
  begun hn := by
    obtain ⟨hf, hq', hg⟩ := ha.begun hn
    rw [hs]
    exact ⟨hf, fun h => hq' (hq h), hg⟩
  near := by
    rw [hs]
    exact ha.near
  stale := by
    rw [hs]
    exact ha.stale

theorem Aligned.sendsSignal {c : Signal w} {rest : List (Signal w)}
    (ha : Aligned s r way back n counts) (hq : s.queue = c :: rest) :
    Aligned { s with queue := rest } r (way ++ [.signal c]) back n counts where
  read := ha.read
  low := ha.low
  top := ha.top
  next := ha.next
  numbers := ha.numbers
  rising := ha.rising
  above := ha.above
  begun hn := by
    obtain ⟨hf, hq', hg⟩ := ha.begun hn
    rw [hq, List.mem_cons, not_or] at hq'
    refine ⟨fun h => ?_, hq'.2, fun h => ?_⟩
    · rcases List.mem_append.mp h with h | h
      · exact hf h
      · cases List.mem_singleton.mp h
        exact hq'.1 rfl
    · rcases List.mem_append.mp h with h | h
      · exact hg h
      · cases List.mem_singleton.mp h
  near hg := by
    rcases List.mem_append.mp hg with hg | hg
    · exact ha.near hg
    · cases List.mem_singleton.mp hg
  stale ht := by
    rw [List.filter_append] at ht
    exact ha.stale (takes_concat ht)

theorem Aligned.sendsData (ha : Aligned s r way back n counts) (hd : Numbered s way) {g : Nat}
    (hlow : s.low ≤ g) (hg : g < s.accepted.length) (ns nr : BitVec w) (x : α) :
    Aligned s r (way ++ [.data g ns nr x]) back n counts where
  read := ha.read
  low := ha.low
  top := ha.top
  next := ha.next
  numbers := ha.numbers
  rising := ha.rising
  above := ha.above
  begun hn := by
    obtain ⟨hf, hq, hg⟩ := ha.begun hn
    refine ⟨fun h => ?_, hq, fun h => ?_⟩
    · rcases List.mem_append.mp h with h | h
      · exact hf h
      · cases List.mem_singleton.mp h
    · rcases List.mem_append.mp h with h | h
      · exact hg h
      · cases List.mem_singleton.mp h
        exact hd.low.trans hlow
  near h hle := by
    rcases List.mem_append.mp h with h | h
    · exact ha.near h hle
    · cases List.mem_singleton.mp h
      have hwin := hd.window
      have htop := ha.top
      have hreach := ha.low
      exact ⟨by omega, by omega⟩
  stale ht := by
    have hnot : ¬g < s.start := Nat.not_lt.mpr (hd.low.trans hlow)
    rw [List.filter_append, List.filter_singleton, Frame.before, decide_eq_false hnot] at ht
    exact ha.stale (by simpa using ht)

theorem Aligned.senderSends {s' : Party w α} (ha : Aligned s r way back n counts)
    (hd : Numbered s way) {f : Frame w α} (hs : s.Sends f s') :
    Aligned s' r (way ++ [f]) back n counts := by
  cases hs with
  | signal hq => exact ha.sendsSignal hq
  | data _ _ hlow hx =>
    exact ha.sendsData hd hlow (List.getElem?_eq_some_iff.mp hx).1 _ _ _

/-- The number that a frame brings is a count, which those behind it do not fall short of. -/
theorem Aligned.hear {f : Frame w α} {rest : List (Frame w α)}
    (ha : Aligned s r way (f :: rest) n counts) {nr : BitVec w} (hf : f.expects = some nr) :
    ∃ c counts', counts = c :: counts' ∧ nr = BitVec.ofNat w c ∧ c ≤ n ∧
      (∀ c' ∈ counts', c ≤ c') ∧ s.low ≤ s.start + c ∧ Aligned s r way rest n counts' := by
  have hnum := ha.numbers
  unfold Party.pending at hnum
  rw [List.filterMap_cons, hf] at hnum
  cases counts with
  | nil => cases hnum
  | cons c counts' =>
    obtain ⟨hc, hrest⟩ := List.cons.inj hnum
    have hrising := ha.rising
    rw [List.cons_append, List.pairwise_cons] at hrising
    refine ⟨c, counts', rfl, hc, hrising.1 n (by simp), fun c' hc' => ?_,
      ha.above c List.mem_cons_self, ?_⟩
    · exact hrising.1 c' (List.mem_append_left _ hc')
    · exact ⟨ha.read, ha.low, ha.top, ha.next, hrest, hrising.2,
        fun c' hc' => ha.above c' (List.mem_cons_of_mem _ hc'), ha.begun, ha.near, ha.stale⟩

/-- A count in the window is reached. -/
theorem Numbered.reach (hn : Numbered s way) {c : Nat} (hlow : s.low ≤ s.start + c)
    (htop : s.start + c ≤ s.accepted.length) :
    s.low + s.reach (BitVec.ofNat w c) = s.start + c := by
  have hstart := hn.low
  have hwin := hn.window
  unfold Party.reach
  rw [ofNat_sub (by omega), BitVec.toNat_ofNat, Nat.mod_eq_of_lt (by omega)]
  omega

/-- The sender hears a number. -/
theorem Aligned.confirm {f : Frame w α} {rest : List (Frame w α)}
    (ha : Aligned s r way (f :: rest) n counts) (hn : Numbered s way) {nr : BitVec w}
    (hf : f.expects = some nr) : s.low + s.reach nr ≤ s.start + n ∧
      ∃ counts', Aligned (s.confirm nr) r way rest n counts' := by
  obtain ⟨c, counts', -, rfl, hcn, hc, hlow, hrest⟩ := ha.hear hf
  have htop := ha.top
  have hreach : s.low + s.reach (BitVec.ofNat w c) = s.start + c := hn.reach hlow (by omega)
  refine ⟨by omega, counts', hrest.sender rfl (Nat.le_refl _) ?_ (fun c' hc' => ?_) id⟩
  · show s.low + s.reach _ ≤ _
    omega
  · have hle := hc c' hc'
    show s.low + s.reach _ ≤ _
    omega

/-- The receiver changes nothing that the other party could notice. -/
theorem Aligned.receiver {r' : Party w α} {back' : List (Frame w α)}
    (ha : Aligned s r way back n counts) (hg : r'.got = r.got)
    (ho : r'.isOpen = true → r.isOpen = true ∧ r'.next = r.next)
    (hp : r'.pending back' = r.pending back) : Aligned s r' way back' n counts where
  read := by
    rw [hg]
    exact ha.read
  low := ha.low
  top := ha.top
  next h := by
    obtain ⟨h', hn⟩ := ho h
    rw [hn, ha.next h']
  numbers := hp.trans ha.numbers
  rising := ha.rising
  above := ha.above
  begun := ha.begun
  near := ha.near
  stale ht := ha.stale (ht.mono fun h => (ho h).1)

/-- The number expected is on its way. -/
theorem Aligned.tells {r' : Party w α} (ha : Aligned s r way back n counts) (ho : r.isOpen = true)
    (hg : r'.got = r.got) (ho' : r'.isOpen = r.isOpen) (hn : r'.next = r.next)
    {back' : List (Frame w α)} (hp : r'.pending back' = r.pending back ++ [r.next]) :
    Aligned s r' way back' n (counts ++ [n]) where
  read := by
    rw [hg]
    exact ha.read
  low := ha.low
  top := ha.top
  next _ := hn.trans (ha.next ho)
  numbers := by
    rw [hp, ha.numbers, ha.next ho, List.map_append, List.map_singleton]
  rising := by
    refine List.pairwise_append.mpr ⟨ha.rising, List.pairwise_singleton _ _, fun c hc m hm => ?_⟩
    rw [List.mem_singleton.mp hm]
    rcases List.mem_append.mp hc with hc | hc
    · exact (List.pairwise_append.mp ha.rising).2.2 c hc n (List.mem_singleton_self n)
    · exact Nat.le_of_eq (List.mem_singleton.mp hc)
  above c hc := by
    rcases List.mem_append.mp hc with hc | hc
    · exact ha.above c hc
    · rw [List.mem_singleton.mp hc]
      exact ha.low
  begun := ha.begun
  near := ha.near
  stale := by
    rw [ho']
    exact ha.stale

theorem Aligned.receiverWorks {r' : Party w α} (ha : Aligned s r way back n counts)
    (hs : r.Works r') : ∃ counts', Aligned s r' way back n counts' := by
  have hput : ∀ {c : Signal w}, c.expects = none →
      (r.put c).pending back = r.pending back := by
    intro c hc
    unfold Party.pending Party.put
    rw [List.filterMap_append, List.filterMap_cons, hc, List.filterMap_nil, List.append_nil]
  cases hs with
  | accept => exact ⟨counts, ha.receiver rfl (fun ho => ⟨ho, rfl⟩) rfl⟩
  | close => exact ⟨counts, ha.receiver rfl nofun rfl⟩
  | ack ho =>
    refine ⟨counts ++ [n], ha.tells ho ?_ ?_ ?_ ?_⟩
    · rfl
    · rfl
    · rfl
    · unfold Party.pending Party.put
      rw [List.filterMap_append, List.append_assoc]
      rfl
  | fence _ => exact ⟨counts, ha.receiver rfl (fun ho => ⟨ho, rfl⟩) (hput rfl)⟩
  | other => exact ⟨counts, ha.receiver rfl (fun ho => ⟨ho, rfl⟩) (hput rfl)⟩

theorem Aligned.receiverSends {r' : Party w α} {f : Frame w α}
    (ha : Aligned s r way back n counts) (hs : r.Sends f r') :
    ∃ counts', Aligned s r' way (back ++ [f]) n counts' := by
  cases hs with
  | @signal c rest hq =>
    refine ⟨counts, ha.receiver rfl (fun ho => ⟨ho, rfl⟩) ?_⟩
    unfold Party.pending
    rw [hq, List.filterMap_append, List.append_assoc, List.filterMap_cons, List.filterMap_cons]
    have hsame : (Frame.signal c : Frame w α).expects = c.expects := rfl
    rw [hsame]
    cases c.expects <;> rfl
  | @data g x hq ho _ _ =>
    refine ⟨counts ++ [n], ha.tells ho ?_ ?_ ?_ ?_⟩
    · rfl
    · rfl
    · rfl
    · unfold Party.pending
      rw [hq, List.filterMap_append, List.filterMap_nil, List.append_nil, List.append_nil]
      rfl

/-- A frame that is read without a consequence. -/
theorem Aligned.skip {f : Frame w α} {rest : List (Frame w α)} {r' : Party w α}
    (ha : Aligned s r (f :: rest) back n counts) (hg : r'.got = r.got)
    (ho : r'.isOpen = r.isOpen) (hn : r'.next = r.next) (hq : r'.queue = r.queue) :
    Aligned s r' rest back n counts := by
  refine (ha.sublist (List.sublist_cons_self f rest)).receiver hg (fun h => ⟨ho ▸ h, hn⟩) ?_
  unfold Party.pending
  rw [hq]

/-- The item read is the next one of the connection. -/
theorem Aligned.index {rest : List (Frame w α)} {g : Nat} {nr : BitVec w} {x : α}
    (ha : Aligned s r (.data g r.next nr x :: rest) back n counts)
    (hd : Numbered s (.data g r.next nr x :: rest)) (ho : r.isOpen = true) : g = s.start + n := by
  have hmem : .data g r.next nr x ∈ Frame.data g r.next nr x :: rest := List.mem_cons_self
  have hle : s.start ≤ g := by
    by_contra hlt
    rcases Nat.eq_zero_or_pos n with rfl | hpos
    · -- An item of an earlier connection has no number that is expected.
      refine ha.stale ?_
      have hbefore : Frame.before s.start (.data g r.next nr x) = true :=
        decide_eq_true (Nat.not_le.mp hlt)
      rw [List.filter_cons_of_pos hbefore]
      exact .inl ⟨ho, ha.next ho⟩
    · exact hlt ((ha.begun hpos).2.2 hmem)
  have hnear := ha.near hmem hle
  have hnum : BitVec.ofNat w (g - s.start) = BitVec.ofNat w n := by
    rw [← hd.number hmem hle, ha.next ho]
  have hsame := eq_of_ofNat hnum (by omega) (by omega)
  omega

/-- The next item is read. -/
theorem Aligned.reads {rest : List (Frame w α)} {g : Nat} {nr : BitVec w} {x : α}
    (ha : Aligned s r (.data g r.next nr x :: rest) back n counts)
    (hd : Numbered s (.data g r.next nr x :: rest)) (ho : r.isOpen = true) {r' : Party w α}
    (hgot : r'.got = r.got ++ [(x, g)]) (hnext : r'.next = r.next + 1)
    (ho' : r'.isOpen = r.isOpen) (hq : r'.queue = r.queue) :
    Aligned s r' rest back (n + 1) counts := by
  have hg := ha.index hd ho
  have hle : s.start ≤ g := hg ▸ Nat.le_add_right _ _
  have hmem : .data g r.next nr x ∈ Frame.data g r.next nr x :: rest := List.mem_cons_self
  have hbehind : ∀ {f : Frame w α}, f ∈ rest →
      [.data g r.next nr x, f] <+ .data g r.next nr x :: rest := fun hf =>
    (List.singleton_sublist.mpr hf).cons_cons _
  have hrest : Aligned s r rest back _ counts := ha.skip rfl rfl rfl rfl
  have hlow := ha.low
  refine
    { read := fun m hm hlt => ?_
      low := by omega
      top := ?_
      next := fun _ => ?_
      numbers := ?_
      rising := ?_
      above := hrest.above
      begun := fun _ => ⟨fun hf => ?_, fun hf => ?_, fun hf => ?_⟩
      near := fun hm hlem => ?_
      stale := ?_ }
  · rw [hgot, List.map_append, List.mem_append]
    by_cases hmg : m = g
    · exact .inr (List.mem_singleton.mpr hmg)
    · exact .inl (ha.read m hm (by omega))
  · have htop := hd.lt_top hmem
    omega
  · rw [hnext, ha.next ho, BitVec.ofNat_add]
    rfl
  · rw [← hrest.numbers]
    unfold Party.pending
    rw [hq]
  · have hrising := List.pairwise_append.mp ha.rising
    refine List.pairwise_append.mpr ⟨hrising.1, List.pairwise_singleton _ _, fun c hc m hm => ?_⟩
    rw [List.mem_singleton.mp hm]
    exact Nat.le_succ_of_le (hrising.2.2 c hc n (List.mem_singleton_self n))
  · exact absurd (hd.fenced (hbehind hf)) (Nat.not_lt.mpr hle)
  · exact absurd (hd.waiting hf hmem) (Nat.not_lt.mpr hle)
  · exact hd.onward (hbehind hf) hle
  · have hnear := hrest.near hm hlem
    rcases hd.ordered (hbehind hm) with hlt | ⟨hge, hwin, -⟩
    · exact ⟨by omega, by omega⟩
    · exact ⟨by omega, by omega⟩
  · rw [ho']
    exact hrest.stale

/-- A fence opens a connection at the receiver, which read nothing of this one yet. -/
theorem Aligned.receiverOpens {rest : List (Frame w α)}
    (ha : Aligned s r (.signal .fence :: rest) back n counts) (answer : Bool) :
    Aligned s (r.open answer) rest back n counts := by
  have hzero : n = 0 := by
    by_contra hne
    exact (ha.begun (Nat.pos_of_ne_zero hne)).1 List.mem_cons_self
  subst hzero
  have hrest : Aligned s r rest back _ counts := ha.skip rfl rfl rfl rfl
  have hpending : (r.open answer).pending back = r.pending back := by
    unfold Party.pending Party.open
    cases answer with
    | false => rfl
    | true =>
      dsimp only
      rw [if_pos rfl, List.filterMap_append]
      exact congrArg _ (List.append_nil _)
  refine ⟨hrest.read, hrest.low, hrest.top, fun _ => rfl, hpending.trans hrest.numbers,
    hrest.rising, hrest.above, hrest.begun, hrest.near, fun ht => ha.stale ?_⟩
  have hfence : Frame.before s.start (.signal .fence : Frame w α) = true := rfl
  rw [List.filter_cons_of_pos hfence]
  have hopen : Takes (r.isOpen || Signal.isFence (.fence : Signal w))
      (rest.filter (Frame.before s.start)) := by
    unfold Signal.isFence
    rw [Bool.or_true]
    exact ht
  exact hopen

theorem Aligned.receiverHears {f : Frame w α} {rest : List (Frame w α)} {r' : Party w α}
    (ha : Aligned s r (f :: rest) back n counts) (hd : Numbered s (f :: rest))
    (hs : r.Hears f r') : ∃ n', Aligned s r' rest back n' counts := by
  cases hs with
  | read ho => exact ⟨n + 1, ha.reads hd ho rfl rfl rfl rfl⟩
  | confirm => exact ⟨n, ha.skip rfl rfl rfl rfl⟩
  | ignore => exact ⟨n, ha.skip rfl rfl rfl rfl⟩

/-- A connection begins at the sender, with nothing left of the one before. -/
theorem Fresh.aligned (hf : Fresh r way back) (hd : Numbered s way) (answer : Bool) :
    Aligned (s.open answer) r way back 0 (List.replicate (r.pending back).length 0) where
  read g hle hlt := absurd hlt (Nat.not_lt.mpr hle)
  low := Nat.le_refl _
  top := Nat.le_refl _
  next := hf.next
  numbers := by
    rw [List.map_replicate, List.eq_replicate_iff]
    exact ⟨rfl, hf.pending⟩
  rising := by
    refine List.pairwise_of_forall_mem_list fun c hc m _ => ?_
    rcases List.mem_append.mp hc with hc | hc
    · rw [List.eq_of_mem_replicate hc]
      exact Nat.zero_le m
    · rw [List.mem_singleton.mp hc]
      exact Nat.zero_le m
  above c _ := Nat.le_add_right _ _
  begun hn := absurd hn (Nat.lt_irrefl 0)
  near hg hle := absurd (hd.lt_top hg) (Nat.not_lt.mpr hle)
  stale ht := hf.items (ht.sublist List.filter_sublist)

/-- What the sender takes for confirmed was read. -/
structure Confirms (s r : Party w α) (way back : List (Frame w α)) : Prop where
  aligned : s.isOpen = true → ∃ n counts, Aligned s r way back n counts
  read : ∀ p ∈ s.confirmed, p ∈ r.got
  rising : (s.confirmed.map Prod.snd).Pairwise (· < ·)
  below : ∀ p ∈ s.confirmed, p.2 < s.low

/-- The sender confirms nothing. -/
theorem Confirms.sender {s' : Party w α} {way' : List (Frame w α)} (hc : Confirms s r way back)
    (hk : s'.confirmed = s.confirmed) (hlow : s.low ≤ s'.low)
    (ha : s'.isOpen = true → ∃ n counts, Aligned s' r way' back n counts) :
    Confirms s' r way' back where
  aligned := ha
  read := by
    rw [hk]
    exact hc.read
  rising := by
    rw [hk]
    exact hc.rising
  below p hp := (hc.below p (hk ▸ hp)).trans_le hlow

/-- The receiver reads no less. -/
theorem Confirms.receiver {r' : Party w α} {way' back' : List (Frame w α)}
    (hc : Confirms s r way back) (hg : r.got ⊆ r'.got)
    (ha : s.isOpen = true → ∃ n counts, Aligned s r' way' back' n counts) :
    Confirms s r' way' back' where
  aligned := ha
  read p hp := hg (hc.read p hp)
  rising := hc.rising
  below := hc.below

theorem Confirms.senderWorks {s' : Party w α} (hc : Confirms s r way back) (hn : Numbered s way)
    (hs : s.Works s') : Confirms s' r way back := by
  have hput : ∀ {c : Signal w}, c ≠ .fence → s.isOpen = true →
      ∃ n counts, Aligned (s.put c) r way back n counts := by
    intro c hne ho
    obtain ⟨n, counts, ha⟩ := hc.aligned ho
    refine ⟨n, counts, ha.sender rfl (Nat.le_refl _) ha.low ha.above fun hf => ?_⟩
    rcases List.mem_append.mp hf with hf | hf
    · exact hf
    · exact absurd (List.mem_singleton.mp hf).symm hne
  cases hs with
  | accept x ho _ =>
    refine hc.sender rfl (Nat.le_refl _) fun _ => ?_
    obtain ⟨n, counts, ha⟩ := hc.aligned ho
    refine ⟨n, counts, ha.sender rfl ?_ ha.low ha.above id⟩
    rw [List.length_append]
    exact Nat.le_add_right _ _
  | close => exact hc.sender rfl hn.top nofun
  | ack _ => exact hc.sender rfl (Nat.le_refl _) (hput nofun)
  | fence ho => exact hc.sender rfl (Nat.le_refl _) fun ho' => absurd (ho.symm.trans ho') nofun
  | other => exact hc.sender rfl (Nat.le_refl _) (hput nofun)

theorem Confirms.senderSends {s' : Party w α} {f : Frame w α} (hc : Confirms s r way back)
    (hn : Numbered s way) (hs : s.Sends f s') : Confirms s' r (way ++ [f]) back := by
  have ha : s.isOpen = true → ∃ n counts, Aligned s' r (way ++ [f]) back n counts := fun ho =>
    have ⟨n, counts, ha⟩ := hc.aligned ho
    ⟨n, counts, ha.senderSends hn hs⟩
  cases hs with
  | signal _ => exact hc.sender rfl (Nat.le_refl _) ha
  | data _ _ _ _ => exact hc.sender rfl (Nat.le_refl _) ha

/-- The items that a number confirms. -/
theorem mem_reach {nr : BitVec w} {p : α × Nat}
    (hp : p ∈ ((s.accepted.drop s.low).take (s.reach nr)).zipIdx s.low) :
    s.low ≤ p.2 ∧ p.2 < s.low + s.reach nr ∧ s.accepted[p.2]? = some p.1 := by
  obtain ⟨hle, hget⟩ := List.mem_zipIdx_iff_le_and_getElem?_sub.mp hp
  have hlt := (List.getElem?_eq_some_iff.mp hget).1
  rw [List.length_take] at hlt
  rw [List.getElem?_take_of_lt (by omega), List.getElem?_drop, Nat.add_sub_cancel' hle] at hget
  exact ⟨hle, by omega, hget⟩

/-- The sender hears a number that the receiver expected. -/
theorem Confirms.confirm {f : Frame w α} {rest : List (Frame w α)}
    (hc : Confirms s r way (f :: rest)) (hd : Delivers s r way) (ho : s.isOpen = true)
    {nr : BitVec w} (hf : f.expects = some nr) : Confirms (s.confirm nr) r way rest := by
  obtain ⟨n, counts, ha⟩ := hc.aligned ho
  obtain ⟨hreach, counts', ha'⟩ := ha.confirm hd.toNumbered hf
  refine ⟨fun _ => ⟨n, counts', ha'⟩, fun p hp => ?_, ?_, fun p hp => ?_⟩
  · rcases List.mem_append.mp hp with hp | hp
    · exact hc.read p hp
    · obtain ⟨hle, hlt, hget⟩ := mem_reach hp
      have hstart := hd.low
      obtain ⟨⟨y, m⟩, hy, hm⟩ := List.mem_map.mp (ha.read p.2 (by omega) (by omega))
      have hsame := hd.right hy
      rw [show m = p.2 from hm, hget] at hsame
      have hp : p = (y, m) := Prod.ext (Option.some.inj hsame) hm.symm
      rwa [hp]
  · show ((s.confirmed ++ _).map Prod.snd).Pairwise (· < ·)
    rw [List.map_append, List.zipIdx_map_snd]
    refine List.pairwise_append.mpr ⟨hc.rising, List.pairwise_lt_range', fun m hm m' hm' => ?_⟩
    obtain ⟨p, hp, rfl⟩ := List.mem_map.mp hm
    exact (hc.below p hp).trans_le (List.left_le_of_mem_range' hm')
  · rcases List.mem_append.mp hp with hp | hp
    · exact Nat.lt_add_right _ (hc.below p hp)
    · exact (mem_reach hp).2.1

theorem Confirms.fewer (hc : Confirms s r way back) {back' : List (Frame w α)}
    (hb : back' <+ back) : Confirms s r way back' := by
  refine hc.receiver (List.Subset.refl _) fun ho => ?_
  obtain ⟨n, counts, ha⟩ := hc.aligned ho
  obtain ⟨counts', -, ha'⟩ := ha.fewer ((hb.filterMap _).append_right _)
  exact ⟨n, counts', ha'⟩

theorem Confirms.senderHears {s' : Party w α} {f : Frame w α} {rest : List (Frame w α)}
    (hc : Confirms s r way (f :: rest)) (hd : Delivers s r way) (hs : s.Hears f s') :
    Confirms s' r way rest := by
  cases hs with
  | @read g nr x ho =>
    have hconf : Confirms (s.confirm nr) r way rest := hc.confirm hd ho rfl
    refine hconf.sender rfl (Nat.le_refl _) fun ho' => ?_
    obtain ⟨n, counts, ha⟩ := hconf.aligned ho'
    exact ⟨n, counts, ha.sender rfl (Nat.le_refl _) ha.low ha.above id⟩
  | confirm ho hf => exact hc.confirm hd ho hf
  | ignore => exact hc.fewer (List.sublist_cons_self _ rest)

theorem Confirms.senderOpens (hc : Confirms s r way back) (hn : Numbered s way)
    (hf : Fresh r way back) (answer : Bool) : Confirms (s.open answer) r way back :=
  hc.sender rfl hn.top fun _ => ⟨0, _, hf.aligned hn answer⟩

theorem Confirms.receiverWorks {r' : Party w α} (hc : Confirms s r way back) (hs : r.Works r') :
    Confirms s r' way back := by
  have ha : s.isOpen = true → ∃ n counts, Aligned s r' way back n counts := fun ho =>
    have ⟨n, _, ha⟩ := hc.aligned ho
    ⟨n, ha.receiverWorks hs⟩
  cases hs with
  | _ => exact hc.receiver (List.Subset.refl _) ha

theorem Confirms.receiverSends {r' : Party w α} {f : Frame w α} (hc : Confirms s r way back)
    (hs : r.Sends f r') : Confirms s r' way (back ++ [f]) := by
  have ha : s.isOpen = true → ∃ n counts, Aligned s r' way (back ++ [f]) n counts := fun ho =>
    have ⟨n, _, ha⟩ := hc.aligned ho
    ⟨n, ha.receiverSends hs⟩
  cases hs with
  | _ => exact hc.receiver (List.Subset.refl _) ha

theorem Confirms.receiverHears {r' : Party w α} {f : Frame w α} {rest : List (Frame w α)}
    (hc : Confirms s r (f :: rest) back) (hn : Numbered s (f :: rest)) (hs : r.Hears f r') :
    Confirms s r' rest back := by
  have ha : s.isOpen = true → ∃ n counts, Aligned s r' rest back n counts := fun ho =>
    have ⟨_, counts, ha⟩ := hc.aligned ho
    have ⟨n', ha'⟩ := ha.receiverHears hn hs
    ⟨n', counts, ha'⟩
  cases hs with
  | read _ => exact hc.receiver (List.subset_append_left _ _) ha
  | confirm _ _ => exact hc.receiver (List.Subset.refl _) ha
  | ignore => exact hc.receiver (List.Subset.refl _) ha

theorem Confirms.receiverOpens {rest : List (Frame w α)}
    (hc : Confirms s r (.signal .fence :: rest) back) (answer : Bool) :
    Confirms s (r.open answer) rest back :=
  hc.receiver (List.Subset.refl _) fun ho =>
    have ⟨n, counts, ha⟩ := hc.aligned ho
    ⟨n, counts, ha.receiverOpens answer⟩

theorem Confirms.sublist (hc : Confirms s r way back) {rest : List (Frame w α)}
    (hr : rest <+ way) : Confirms s r rest back :=
  hc.receiver (List.Subset.refl _) fun ho =>
    have ⟨n, counts, ha⟩ := hc.aligned ho
    ⟨n, counts, ha.sublist hr⟩

/-- A connection is opened at this party with nothing left at the other one. -/
def Exchange.fresh (e : Exchange w α) (i : Bool) : Prop :=
  Fresh (e.party (!i)) (e.way (!i)) (e.way i)

/-- Both directions. -/
structure Exchange.Confirming (e : Exchange w α) : Prop where
  delivering : e.Delivering
  confirms : ∀ i, Confirms (e.party i) (e.party (!i)) (e.way (!i)) (e.way i)

theorem Exchange.Confirming.inward (hc : e.Confirming) (i : Bool) :
    Confirms (e.party (!i)) (e.party i) (e.way i) (e.way (!i)) := by
  have hin := hc.confirms (!i)
  rwa [Bool.not_not] at hin

/-- The direction from a party, and the one to it. -/
theorem Exchange.Confirming.of_ends (hd : e.Delivering) (i : Bool)
    (hout : Confirms (e.party i) (e.party (!i)) (e.way (!i)) (e.way i))
    (hin : Confirms (e.party (!i)) (e.party i) (e.way i) (e.way (!i))) : e.Confirming := by
  refine ⟨hd, fun j => ?_⟩
  cases i <;> cases j <;> assumption

theorem Exchange.Confirming.step (hc : e.Confirming) (hs : e.Step Exchange.fresh e') :
    e'.Confirming := by
  have hd := hc.delivering
  have hd' := hd.step hs
  have hout := hc.confirms
  have hin := hc.inward
  cases hs with
  | works i hs =>
    refine .of_ends hd' i ?_ ?_
    · simpa using (hout i).senderWorks (hd.outward i).toNumbered hs
    · simpa using (hin i).receiverWorks hs
  | sends i hs =>
    refine .of_ends hd' i ?_ ?_
    · simpa using (hout i).senderSends (hd.outward i).toNumbered hs
    · simpa using (hin i).receiverSends hs
  | hears i hway hs =>
    refine .of_ends hd' i ?_ ?_
    · simpa using (hway ▸ hout i).senderHears (hd.outward i) hs
    · simpa using (hway ▸ hin i).receiverHears (hway ▸ (hd i).toNumbered) hs
  | @opens i answer rest hway hg =>
    refine .of_ends hd' i ?_ ?_
    · have hfewer := (hway ▸ hout i).fewer (List.sublist_cons_self _ _)
      have hfresh : Fresh (e.party (!i)) (e.way (!i)) rest := by simpa [Exchange.fresh] using hg
      simpa using hfewer.senderOpens (hd.outward i).toNumbered hfresh answer
    · simpa using (hway ▸ hin i).receiverOpens answer
  | loses i hr =>
    refine .of_ends hd' i ?_ ?_
    · simpa using (hout i).fewer hr
    · simpa using (hin i).sublist hr

theorem Exchange.new_confirming : (Exchange.new : Exchange w α).Confirming where
  delivering := Exchange.new_delivering
  confirms _ := ⟨nofun, nofun, .nil, nofun⟩

theorem Exchange.Confirming.run (hc : e.Confirming)
    (hr : Relation.ReflTransGen (Exchange.Step Exchange.fresh) e e') : e'.Confirming := by
  induction hr with
  | refl => exact hc
  | tail _ hs ih => exact ih.step hs

/-- Items with rising indices that are among others with rising indices are so in order. -/
theorem sublist_of_rising {l l' : List (α × Nat)} (hl : (l.map Prod.snd).Pairwise (· < ·))
    (hl' : (l'.map Prod.snd).Pairwise (· < ·)) (hmem : ∀ p ∈ l, p ∈ l') : l <+ l' := by
  rw [List.pairwise_map] at hl hl'
  have hnodup : l.Nodup := by
    refine hl.imp ?_
    rintro p q hlt rfl
    exact Nat.lt_irrefl _ hlt
  exact List.sublist_of_subperm_of_pairwise (List.subperm_of_subset hnodup hmem) hl hl'

/-- What a party takes for confirmed was read by the other one, in order. -/
theorem Exchange.Confirming.confirmed_sublist (hc : e.Confirming) (i : Bool) :
    (e.party i).confirmed.map Prod.fst <+ (e.party (!i)).got.map Prod.fst := by
  have hconf := hc.confirms i
  have hread := sublist_of_rising hconf.rising (hc.delivering (!i)).rising hconf.read
  exact hread.map Prod.fst

end GoBackN
