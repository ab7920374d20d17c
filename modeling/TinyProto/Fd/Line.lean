import TinyProto.Fd.Bus
import TinyProto.Fd.Carrying
import TinyProto.Lib.Gapless

/-!
# Two stations on a line

Two stations in ABM are joined by a line.  A frame that a station completes is on its way to
the other one, which reads the frames in the order in which they were sent.  Frames get lost.
The applications never call `tiny_fd_disconnect`.

The line is an exchange of numbered frames (`Line.Mirrored`).
-/

set_option linter.unusedSectionVars false

namespace TinyProto.Fd

open Hdlc Runs GoBackN

open scoped List

variable {W N : Bool → Nat} [∀ i, NeZero (W i)] [∀ i, NeZero (N i)]

/-! ## The line -/

/-- The stations, the frames on the way to each, and the payloads that each accepted. -/
structure Line (W N : Bool → Nat) where
  station : ∀ i, Handle (W i) (N i)
  inbox : Bool → List (List Byte)
  taken : Bool → List (List Byte)

/-- What happens on the line. -/
inductive LineAct where
  | call (i : Bool) (c : Call)
  /-- `tiny_fd_get_tx_data`. -/
  | transmit (i : Bool) (len : Nat)
  /-- `tiny_fd_on_rx_data`. -/
  | receive (i : Bool) (data : List Byte)
  /-- The frames that are left. -/
  | lose (i : Bool) (rest : List (List Byte))

/-- The frames that the low level of the station finds. -/
def Line.found (b : Line W N) (i : Bool) (data : List Byte) : List (List Byte) :=
  framesOf (onRxData (b.station i).hdlc data).2

/-- A call of an application that does not disconnect. -/
def Call.Stays : Call → Prop
  | .disconnect => False
  | c => c.Local

instance Call.stays_decidable : (c : Call) → Decidable c.Stays
  | .sendPacketTo _ _ | .sendUiPacketTo _ _ | .registerPeer _ | .setKaTimeout _ | .tick _ =>
    isTrue trivial
  | .disconnect | .onRxData _ | .onFrameRead _ | .getTxData _ => isFalse id

/-- Whole frames are sent, and one is read at a time, if any. -/
def Line.Possible (b : Line W N) : LineAct → Prop
  | .call _ c => c.Stays
  | .transmit i len => (getTxData (b.station i) len).h.events.txSending = false
  | .receive i data => (b.found i data).length ≤ 1 ∧ b.found i data <+: b.inbox i
  | .lose i rest => rest <+ b.inbox i

instance Line.possible_decidable (b : Line W N) : (a : LineAct) → Decidable (b.Possible a)
  | .call _ c => inferInstanceAs (Decidable c.Stays)
  | .transmit i len =>
    inferInstanceAs (Decidable ((getTxData (b.station i) len).h.events.txSending = false))
  | .receive i data =>
    inferInstanceAs (Decidable ((b.found i data).length ≤ 1 ∧ b.found i data <+: b.inbox i))
  | .lose i rest => inferInstanceAs (Decidable (rest <+ b.inbox i))

/-- The payload that `tiny_fd_send_packet_to` accepts. -/
def acceptedBy {W N : Nat} [NeZero W] [NeZero N] (h : Handle W N) : Call → List (List Byte)
  | .sendPacketTo address data => if (sendPacketTo h address data).2 = .success then [data] else []
  | _ => []

/-- The line afterwards. -/
def Line.act (b : Line W N) : LineAct → Line W N
  | .call i c =>
    { b with
      station := Function.update b.station i (Fd.call (b.station i) c)
      taken := Function.update b.taken i (b.taken i ++ acceptedBy (b.station i) c) }
  | .transmit i len =>
    { b with
      station := Function.update b.station i (getTxData (b.station i) len).h
      inbox := Function.update b.inbox (!i) (b.inbox (!i) ++ (getTxData (b.station i) len).sent) }
  | .receive i data =>
    { b with
      station := Function.update b.station i (fdOnRxData (b.station i) data)
      inbox := Function.update b.inbox i ((b.inbox i).drop (b.found i data).length) }
  | .lose i rest => { b with inbox := Function.update b.inbox i rest }

/-- Two stations in ABM before anything happened. -/
inductive Line.Starts : Line W N → Prop where
  | intro {init : Bool → InitParams} {hdlc : ∀ i, HdlcLl (SlotRef (W i))}
      {millis : Bool → BitVec 32} (hmin : ∀ i, 2 ≤ W i) (hmax : ∀ i, W i ≤ 7)
      (hll : ∀ i, Started (hdlc i)) (habm : ∀ i, (init i).mode = .abm) :
      Starts
        { station := fun i => initHandle (W i) (N i) (init i) (hdlc i) (millis i)
          inbox := fun _ => []
          taken := fun _ => [] }

/-- What comes of them while each step meets a condition. -/
def Line.Reaches (G : Line W N → LineAct → Prop) (b : Line W N) : Prop :=
  ∃ b₀ : Line W N, b₀.Starts ∧ Run (fun b a b' => b.Possible a ∧ b' = b.act a) G b₀ b

section Station

variable {W N : Nat} [NeZero W] [NeZero N] {init : InitParams} {hdlc : HdlcLl (SlotRef W)}
  {h : Handle W N} {s : Party 3 (List Byte)}

/-! ## The beginning -/

theorem initHandle_inAbm (millis : BitVec 32) (hmax : W ≤ 7) (hll : Started hdlc)
    (habm : init.mode = .abm) : InAbm (initHandle W N init hdlc millis) where
  max := hmax
  ordered := ⟨initHandle_addressed _ _ _, initHandle_inStep _ _ hll⟩
  agreement := initHandle_inAgreement init hdlc millis
  abm := habm
  numbers _ ht := absurd rfl ht

theorem initHandle_mirrors (millis : BitVec 32) :
    Mirrors (initHandle W N init hdlc millis) [] Party.new where
  queue := by
    refine ⟨[], ⟨⟨(initHandle W N init hdlc millis).sQueue.slots, rfl, fun t ht => ?_⟩, nofun,
      nofun⟩, rfl⟩
    obtain ⟨i, -, rfl⟩ := List.mem_map.mp ht
    rfl
  isOpen := ⟨Bool.noConfusion, fun hl => hl.elim PeerState.noConfusion PeerState.noConfusion⟩
  accepted := rfl
  got := rfl
  confirmed := rfl
  unconfirmed := rfl
  low := Nat.le_refl 0
  top := Nat.le_refl 0
  confirmNs := rfl
  nextNr hl := hl.elim PeerState.noConfusion PeerState.noConfusion
  accepts := Bool.noConfusion

/-! ## What a station does -/

/-- The application calls. -/
theorem Mirrors.call (hm : Mirrors h [] s) (hi : InAbm h) {c : Call} (hc : c.Stays) :
    InAbm (Fd.call h c) ∧ (Fd.call h c).events.txSending = h.events.txSending ∧
      ∃ s', s.Emits [] s' ∧ s'.accepted = s.accepted ++ acceptedBy h c ∧
        Mirrors (Fd.call h c) [] s' := by
  have hquiet : ∀ {k : Handle W N}, Follows k s →
      ∃ s', s.Emits [] s' ∧ s'.accepted = s.accepted ++ [] ∧ Mirrors k [] s' := by
    rintro k ⟨s', hs, ha, hm'⟩
    exact ⟨s', hs, by rw [ha, List.append_nil], hm'⟩
  cases c with
  | sendPacketTo address data =>
    refine ⟨hi.operate (o := .sendPacketTo address data) trivial nofun,
      (operate_marker (o := .sendPacketTo address data) trivial).1, ?_⟩
    dsimp only [acceptedBy]
    rcases hm.sends hi address data with ⟨hst, hs, hm'⟩ | ⟨hst, hm'⟩
    · rw [if_pos hst]
      exact ⟨_, .works .refl hs, rfl, hm'⟩
    · rw [if_neg hst]
      exact hquiet hm'.follows
  | sendUiPacketTo address data =>
    exact ⟨hi.operate (o := .sendUiPacketTo address data) trivial nofun,
      (operate_marker (o := .sendUiPacketTo address data) trivial).1,
      hquiet (hm.sendUiPacketTo hi address data)⟩
  | registerPeer address =>
    show InAbm (registerPeer h address).1 ∧ (registerPeer h address).1.events.txSending = _ ∧
      ∃ s', s.Emits [] s' ∧ s'.accepted = s.accepted ++ [] ∧ Mirrors (registerPeer h address).1 [] s'
    rw [hi.registerPeer address]
    exact ⟨hi, rfl, hquiet hm.follows⟩
  | setKaTimeout keepAlive =>
    have hu : Unnoticed h (setKaTimeout h keepAlive) := .of_peers rfl (.refl 0 h.log)
    exact ⟨hi.operate (o := .setKaTimeout keepAlive) trivial nofun, rfl,
      hquiet (hm.unnoticed hu rfl).follows⟩
  | tick ms =>
    have hu : Unnoticed h { h with millis := h.millis + ms } := .of_peers rfl (.refl 0 h.log)
    exact ⟨hi.operate (o := .tick ms) trivial nofun, rfl, hquiet (hm.unnoticed hu rfl).follows⟩
  | _ => exact absurd hc id

/-- The low level does not find a whole frame. -/
theorem Mirrors.listens (hm : Mirrors h [] s) (hi : InAbm h) (data : List Byte) :
    InAbm { h with hdlc := (onRxData h.hdlc data).1 } ∧
      Mirrors { h with hdlc := (onRxData h.hdlc data).1 } [] s :=
  ⟨hi.operate (opsOf_inOrder hi.ordered (.onRxData data)).1.2 nofun,
    hm.unnoticed (.of_peers rfl (.refl 0 h.log)) rfl⟩

end Station

/-! ## The line as an exchange -/

/-- Each station is a party of the exchange, and the frames on the way are its frames. -/
structure Line.Mirrored (b : Line W N) (e : Exchange 3 (List Byte)) : Prop where
  abm : ∀ i, InAbm (b.station i)
  idle : ∀ i, (b.station i).events.txSending = false
  party : ∀ i, Mirrors (b.station i) [] (e.party i)
  way : ∀ i, List.Forall₂ IsFrame (e.way i) (b.inbox i)
  taken : ∀ i, acceptedFor 0 (b.station i).log = b.taken i

variable {b b' : Line W N} {e : Exchange 3 (List Byte)} {a : LineAct} {i : Bool}

theorem Line.Starts.mirrored (hs : b.Starts) : b.Mirrored Exchange.new := by
  obtain ⟨-, hmax, hll, habm⟩ := hs
  exact
    { abm := fun i => initHandle_inAbm _ (hmax i) (hll i) (habm i)
      idle := fun _ => rfl
      party := fun i => initHandle_mirrors _
      way := fun _ => .nil
      taken := fun _ => rfl }

/-- One station changed, with its party. -/
theorem Line.Mirrored.update (hm : b.Mirrored e) {h : Handle (W i) (N i)}
    {s : Party 3 (List Byte)} (hi : InAbm h) (ht : h.events.txSending = false)
    (hs : Mirrors h [] s) {inbox : Bool → List (List Byte)} {way : Bool → List (Frame 3 (List Byte))}
    (hway : ∀ j, List.Forall₂ IsFrame (way j) (inbox j)) {taken : Bool → List (List Byte)}
    (htaken : acceptedFor 0 h.log = taken i) (hother : ∀ j, j ≠ i → taken j = b.taken j) :
    Line.Mirrored { station := Function.update b.station i h, inbox := inbox, taken := taken }
      { party := Function.update e.party i s, way := way } := by
  refine ⟨?_, ?_, fun j => ?_, hway, ?_⟩
  · exact (Function.forall_update_iff _ fun j (k : Handle (W j) (N j)) => InAbm k).mpr
      ⟨hi, fun j _ => hm.abm j⟩
  · exact (Function.forall_update_iff _ fun j (k : Handle (W j) (N j)) =>
      k.events.txSending = false).mpr ⟨ht, fun j _ => hm.idle j⟩
  · by_cases hj : j = i
    · subst hj
      dsimp only
      rw [Function.update_self, Function.update_self]
      exact hs
    · dsimp only
      rw [Function.update_of_ne hj, Function.update_of_ne hj]
      exact hm.party j
  · exact (Function.forall_update_iff _ fun j (k : Handle (W j) (N j)) =>
      acceptedFor 0 k.log = taken j).mpr ⟨htaken, fun j hj => (hm.taken j).trans (hother j hj).symm⟩

/-! ## Steps -/

/-- A frame is read that opens a connection. -/
def Line.OpensBy (b : Line W N) (i : Bool) (data : List Byte) : Prop :=
  ∃ f ∈ b.found i data, OpensAt (b.station i) f

instance Line.opensBy_decidable (b : Line W N) (i : Bool) (data : List Byte) :
    Decidable (b.OpensBy i data) :=
  inferInstanceAs (Decidable (∃ f ∈ b.found i data, _))

variable {G : Exchange 3 (List Byte) → Bool → Prop}

/-- The exchange does what the line does. -/
abbrev Line.Matches (G : Exchange 3 (List Byte) → Bool → Prop) (e : Exchange 3 (List Byte))
    (b : Line W N) : Prop :=
  ∃ e', Relation.ReflTransGen (Exchange.Step G) e e' ∧ b.Mirrored e'

theorem Line.Mirrored.call (hm : b.Mirrored e) {c : Call} (hc : c.Stays) :
    Line.Matches G e (b.act (.call i c)) := by
  obtain ⟨hi, ht, s', hs, ha, hm'⟩ := (hm.party i).call (hm.abm i) hc
  refine ⟨_, hs.silent, hm.update hi (ht.trans (hm.idle i)) hm' hm.way ?_ fun j hj =>
    Function.update_of_ne hj ..⟩
  rw [Function.update_self, hm'.accepted, ha, ← (hm.party i).accepted, hm.taken i]

/-- The frames that were sent are on the way. -/
theorem Line.Mirrored.sent (hm : b.Mirrored e) {Fs : List (Frame 3 (List Byte))}
    {fs : List (List Byte)} (hf : List.Forall₂ IsFrame Fs fs) (j : Bool) :
    List.Forall₂ IsFrame (Function.update e.way (!i) (e.way (!i) ++ Fs) j)
      (Function.update b.inbox (!i) (b.inbox (!i) ++ fs) j) := by
  by_cases hj : j = !i
  · rw [hj, Function.update_self, Function.update_self]
    exact List.rel_append (hm.way (!i)) hf
  · rw [Function.update_of_ne hj, Function.update_of_ne hj]
    exact hm.way j

theorem Line.Mirrored.transmit (hm : b.Mirrored e) {len : Nat}
    (hdone : (getTxData (b.station i) len).h.events.txSending = false) :
    Line.Matches G e (b.act (.transmit i len)) := by
  obtain ⟨hi, Fs, s', hs, ha, hf, hm'⟩ := (hm.party i).getTxData (hm.abm i) (hm.idle i) len hdone
  refine ⟨_, hs.steps, hm.update hi hdone hm' (hm.sent hf) ?_ fun _ _ => rfl⟩
  rw [hm'.accepted, ha, ← (hm.party i).accepted, hm.taken i]

/-- Some frames are left. -/
theorem forall₂_left {α β : Type} {R : α → β → Prop} {l : List α} {l' rest' : List β}
    (hl : List.Forall₂ R l l') (hr : rest' <+ l') : ∃ rest, rest <+ l ∧ List.Forall₂ R rest rest' := by
  induction hl generalizing rest' with
  | nil => exact ⟨[], .slnil, by rw [List.sublist_nil.mp hr]; exact .nil⟩
  | @cons a b l l' hab _ ih =>
    cases hr with
    | cons _ hr =>
      obtain ⟨rest, hrest, hall⟩ := ih hr
      exact ⟨rest, hrest.cons a, hall⟩
    | cons_cons _ hr =>
      obtain ⟨rest, hrest, hall⟩ := ih hr
      exact ⟨a :: rest, hrest.cons_cons a, .cons hab hall⟩

theorem Line.Mirrored.lose (hm : b.Mirrored e) {rest : List (List Byte)} (hr : rest <+ b.inbox i) :
    Line.Matches G e (b.act (.lose i rest)) := by
  obtain ⟨frames, hframes, hall⟩ := forall₂_left (hm.way i) hr
  refine ⟨_, .single (.loses i hframes), hm.abm, hm.idle, hm.party, fun j => ?_, hm.taken⟩
  show List.Forall₂ IsFrame (Function.update e.way i frames j) (Function.update b.inbox i rest j)
  by_cases hj : j = i
  · rw [hj, Function.update_self, Function.update_self]
    exact hall
  · rw [Function.update_of_ne hj, Function.update_of_ne hj]
    exact hm.way j

/-- The rest is on the way once the first frame is read. -/
theorem Line.Mirrored.rest (hm : b.Mirrored e) {F : Frame 3 (List Byte)}
    {Fs : List (Frame 3 (List Byte))} {f : List Byte} {fs : List (List Byte)}
    (hway : e.way i = F :: Fs) (hin : b.inbox i = f :: fs) (j : Bool) :
    List.Forall₂ IsFrame (Function.update e.way i Fs j) (Function.update b.inbox i fs j) := by
  by_cases hj : j = i
  · subst hj
    have hall := hm.way j
    rw [hway, hin, List.forall₂_cons] at hall
    rw [Function.update_self, Function.update_self]
    exact hall.2
  · rw [Function.update_of_ne hj, Function.update_of_ne hj]
    exact hm.way j

theorem Line.Mirrored.receive (hm : b.Mirrored e) {data : List Byte}
    (hp : b.Possible (.receive i data))
    (hg : b.OpensBy i data → ∀ {F Fs}, e.way i = F :: Fs →
      G { e with way := Function.update e.way i Fs } i) :
    Line.Matches G e (b.act (.receive i data)) := by
  obtain ⟨hone, hprefix⟩ := hp
  obtain ⟨hi, hmi⟩ := (hm.party i).listens (hm.abm i) data
  have hact : fdOnRxData (b.station i) data =
      (b.found i data).foldl onFrameRead { b.station i with hdlc := (onRxData (b.station i).hdlc data).1 } :=
    rfl
  unfold Line.act
  dsimp only
  rw [hact]
  cases hfound : b.found i data with
  | nil =>
    rw [List.foldl_nil, List.length_nil, List.drop_zero, Function.update_eq_self]
    have hnew := hm.update hi (hm.idle i) hmi hm.way (hm.taken i) fun _ _ => rfl
    rw [Function.update_eq_self] at hnew
    exact ⟨e, .refl, hnew⟩
  | cons f fs =>
    rw [hfound] at hone hprefix
    obtain rfl : fs = [] := List.length_eq_zero_iff.mp (Nat.le_zero.mp (Nat.le_of_succ_le_succ hone))
    obtain ⟨rest, hin⟩ := hprefix
    have hway := hm.way i
    rw [← hin] at hway
    obtain ⟨F, Fs, ⟨⟨g, rfl⟩, hreset⟩, -, hF⟩ := List.forall₂_cons_right_iff.mp hway
    have hleft : (b.inbox i).drop [f].length = rest := by
      rw [← hin]
      rfl
    have hi' : InAbm (onFrameRead { b.station i with hdlc := (onRxData (b.station i).hdlc data).1 } f) :=
      hi.operate (o := .frame f) trivial (by rintro _ ⟨⟩; exact hreset)
    have ht' := (onFrameRead_marker
      { b.station i with hdlc := (onRxData (b.station i).hdlc data).1 } f).1.trans (hm.idle i)
    rw [hleft, List.foldl_cons, List.foldl_nil]
    by_cases ho : OpensAt (b.station i) f
    · obtain ⟨hfence, answer, hnew⟩ := hmi.opens hi ho g
      have hopens : b.OpensBy i data := ⟨f, by rw [hfound]; exact List.mem_cons_self, ho⟩
      have hstep : Exchange.Step G e _ := .opens i answer (hfence ▸ hF) (hg hopens hF)
      refine ⟨_, .single hstep, hm.update hi' ht' hnew (hm.rest hF hin.symm) ?_ fun _ _ => rfl⟩
      rw [hnew.accepted, ← hm.taken i]
      exact (hm.party i).accepted.symm
    · obtain ⟨s', hs, ha, hnew⟩ := hmi.hears hi hreset ho g
      refine ⟨_, hs.steps hF, hm.update hi' ht' hnew (hm.rest hF hin.symm) ?_ fun _ _ => rfl⟩
      rw [hnew.accepted, ha, ← (hm.party i).accepted, hm.taken i]

/-- The exchange follows the line. -/
theorem Line.Mirrored.act (hm : b.Mirrored e) (hp : b.Possible a)
    (hg : ∀ {i data F Fs}, a = .receive i data → b.OpensBy i data → e.way i = F :: Fs →
      G { e with way := Function.update e.way i Fs } i) :
    Line.Matches G e (b.act a) := by
  cases a with
  | call i c => exact hm.call hp
  | transmit i len => exact hm.transmit hp
  | receive i data => exact hm.receive hp fun ho _ _ hF => hg rfl ho hF
  | lose i rest => exact hm.lose hp

/-! ## Runs -/

variable {C : Line W N → LineAct → Prop}

/-- The rule for runs of the line: they are runs of the exchange, if the condition on the line
says that connections open where the guard allows it. -/
theorem Line.Reaches.matched (hr : b.Reaches C)
    (hC : ∀ {b : Line W N} {e i data F Fs}, b.Mirrored e → b.Possible (.receive i data) →
      C b (.receive i data) → b.OpensBy i data → e.way i = F :: Fs →
        G { e with way := Function.update e.way i Fs } i) :
    Line.Matches G Exchange.new b := by
  obtain ⟨b₀, hs, hrun⟩ := hr
  refine hrun.preserves (P := Line.Matches G Exchange.new) (fun b a b' hm hok hstep => ?_)
    ⟨_, .refl, hs.mirrored⟩
  obtain ⟨e, hreach, hm⟩ := hm
  obtain ⟨hp, rfl⟩ := hstep
  obtain ⟨e', hreach', hm'⟩ := hm.act hp fun ha ho hF => by
    subst ha
    exact hC hm hp hok ho hF
  exact ⟨e', hreach.trans hreach', hm'⟩

/-- No condition. -/
def Line.AnyAct (_ : Line W N) (_ : LineAct) : Prop := True

instance Line.anyAct_decidable (b : Line W N) (a : LineAct) : Decidable (b.AnyAct a) :=
  isTrue trivial

/-- Acts one after the other. -/
theorem Line.Starts.acts (hs : b.Starts) {acts : List LineAct}
    (hok : Runs.Allows Line.act (fun b a => C b a ∧ b.Possible a) b acts) :
    (acts.foldl Line.act b).Reaches C := by
  refine ⟨b, hs, ?_⟩
  have hrun := Run.foldl hok
  generalize acts.foldl Line.act b = b' at hrun
  induction hrun with
  | refl => exact .refl
  | tail _ hg ha ih => exact .tail ih hg.1 ⟨hg.2, ha⟩

/-- What a station hands to its user is a part of what the other one accepted, in order and
once each. -/
theorem delivered_in_order (hr : b.Reaches Line.AnyAct) (i : Bool) :
    readFrom 0 (b.station i).log <+ b.taken (!i) := by
  obtain ⟨e, hreach, hm⟩ := hr.matched (G := fun _ _ => True) fun _ _ _ _ _ => trivial
  have hdelivering := Exchange.new_delivering.run hreach
  rw [(hm.party i).got, ← hm.taken (!i), (hm.party (!i)).accepted]
  exact hdelivering.got_sublist i

/-- Two stations of the same kind. -/
def smallLine (W N : Nat) [NeZero W] [NeZero N] : Line (fun _ => W) (fun _ => N) where
  station _ := smallHandle W N .abm
  inbox _ := []
  taken _ := []

theorem smallLine_starts {W N : Nat} [NeZero W] [NeZero N] (hmin : 2 ≤ W) (hmax : W ≤ 7) :
    (smallLine W N).Starts :=
  .intro (fun _ => hmin) (fun _ => hmax) (fun _ => smallLl_started W) fun _ => rfl

/-- A frame as the line carries it. -/
def onWire (f : List Byte) : List Byte := encodeFrame .crc16 f

/-- Two payloads are sent.  The frame of the first one is lost, the other one is rejected, and
both are sent again. -/
def resendOnLine : List LineAct :=
  [.call false (.tick 100), .transmit false 64, .receive true (onWire [0x03, 0x3F]),
    .transmit true 64, .receive false (onWire [0x01, 0x73]),
    .call false (.sendPacketTo 0 [1]), .transmit false 64, .lose true [],
    .call false (.sendPacketTo 0 [2]), .transmit false 64, .receive true (onWire [0x01, 0x02, 2]),
    .transmit true 64, .receive false (onWire [0x03, 0x09]), .transmit false 64, .transmit false 64,
    .receive true (onWire [0x01, 0x00, 1]), .receive true (onWire [0x01, 0x02, 2]),
    .transmit true 64, .receive false (onWire [0x01, 0x21]), .transmit true 64,
    .receive false (onWire [0x01, 0x41])]

theorem delivered_in_order_resend : ∃ b : Line (fun _ => 2) (fun _ => 1), b.Reaches Line.AnyAct ∧
    readFrom 0 (b.station true).log = [[1], [2]] ∧
      readFrom 0 (b.station true).log <+ b.taken false := by
  have hreach : (resendOnLine.foldl Line.act (smallLine 2 1)).Reaches Line.AnyAct :=
    (smallLine_starts (by decide) (by decide)).acts (by decide +kernel)
  exact ⟨_, hreach, by decide +kernel, delivered_in_order hreach true⟩

/-! ## Connections that begin afresh -/

/-- The N(R) of an I- or S-frame. -/
def expectedBy : List Byte → Option Seq
  | _ :: control :: _ => if isUFrame control then none else some (nrOf control)
  | _ => none

/-- The frame is an I-frame with number 0. -/
def isFirst : List Byte → Bool
  | _ :: control :: _ => isIFrame control && nsOf control == 0
  | _ => false

/-- The frame is one that may open a connection. -/
def isFence : List Byte → Bool
  | _ :: control :: _ => isUFrame control && decide (Fences control)
  | _ => false

/-- A station reads one of the frames as the first of a connection, if it expects the number 0
now or since it found a frame that may open a connection. -/
def ReadsFirst : Bool → List (List Byte) → Prop
  | _, [] => False
  | b, f :: rest => b = true ∧ isFirst f = true ∨ ReadsFirst (b || isFence f) rest

instance readsFirst_decidable : ∀ (b : Bool) (fs : List (List Byte)), Decidable (ReadsFirst b fs)
  | _, [] => inferInstanceAs (Decidable False)
  | b, f :: rest =>
    have := readsFirst_decidable (b || isFence f) rest
    inferInstanceAs (Decidable (_ ∨ _))

/-- Nothing that the other station sent before, or would read, could be taken for something of
the connection that the frame opens which station `i` reads next. -/
structure Line.Afresh (b : Line W N) (i : Bool) : Prop where
  next : Linked (b.station (!i)) 0 → ((b.station (!i)).control 0).nextNr = 0
  /-- The frames behind. -/
  numbers : ∀ f ∈ (b.inbox i).tail, ∀ nr ∈ expectedBy f, nr = 0
  /-- Those that wait. -/
  waiting : ∀ k, ((b.station (!i)).sQueue.frames k).type ≠ .free →
    isUFrame ((b.station (!i)).sQueue.frames k).control = false →
      nrOf ((b.station (!i)).sQueue.frames k).control = 0
  items : ¬ReadsFirst (decide (Linked (b.station (!i)) 0)) (b.inbox (!i))

instance Line.afresh_decidable (b : Line W N) (i : Bool) : Decidable (b.Afresh i) :=
  decidable_of_iff
    ((Linked (b.station (!i)) 0 → ((b.station (!i)).control 0).nextNr = 0) ∧
      (∀ f ∈ (b.inbox i).tail, ∀ nr ∈ expectedBy f, nr = 0) ∧
      (∀ k, ((b.station (!i)).sQueue.frames k).type ≠ .free →
        isUFrame ((b.station (!i)).sQueue.frames k).control = false →
          nrOf ((b.station (!i)).sQueue.frames k).control = 0) ∧
      ¬ReadsFirst (decide (Linked (b.station (!i)) 0)) (b.inbox (!i)))
    ⟨fun h => ⟨h.1, h.2.1, h.2.2.1, h.2.2.2⟩, fun h => ⟨h.next, h.numbers, h.waiting, h.items⟩⟩

/-- A connection begins afresh. -/
def Line.OpensAfresh (b : Line W N) : LineAct → Prop
  | .receive i data => b.OpensBy i data → b.Afresh i
  | _ => True

instance Line.opensAfresh_decidable (b : Line W N) : (a : LineAct) → Decidable (b.OpensAfresh a)
  | .receive i data => inferInstanceAs (Decidable (b.OpensBy i data → b.Afresh i))
  | .call _ _ | .transmit _ _ | .lose _ _ => isTrue trivial

/-- The N(R) is the number that the frame says its sender expects. -/
theorem frameOf_expects (g : Nat) : ∀ f : List Byte, (frameOf g f).expects = expectedBy f
  | [] => rfl
  | [_] => rfl
  | _ :: control :: _ => by
    unfold frameOf expectedBy
    dsimp only
    by_cases hi : isIFrame control = true
    · rw [if_pos hi, isUFrame_of_isIFrame hi, if_neg Bool.false_ne_true]
      rfl
    · rw [if_neg hi]
      unfold signalOf
      split
      · split <;> rfl
      · rfl

theorem takes_signal {c : Signal 3} {f : List Byte} {Fs : List (Frame 3 (List Byte))} {b : Bool}
    (hfirst : isFirst f = false) (hfence : c.isFence = isFence f) :
    GoBackN.Takes b (.signal c :: Fs) ↔
      b = true ∧ isFirst f = true ∨ GoBackN.Takes (b || isFence f) Fs := by
  rw [hfirst, ← hfence]
  exact ⟨.inr, fun h => h.resolve_left fun hb => Bool.noConfusion hb.2⟩

theorem takes_frameOf (g : Nat) {Fs : List (Frame 3 (List Byte))} {b : Bool} : ∀ f : List Byte,
    GoBackN.Takes b (frameOf g f :: Fs) ↔
      b = true ∧ isFirst f = true ∨ GoBackN.Takes (b || isFence f) Fs
  | [] => takes_signal rfl rfl
  | [_] => takes_signal rfl rfl
  | address :: control :: payload => by
    by_cases hi : isIFrame control = true
    · unfold frameOf isFirst isFence
      dsimp only
      rw [if_pos hi, isUFrame_of_isIFrame hi, hi, Bool.true_and, beq_iff_eq, Bool.false_and,
        Bool.or_false]
      exact Iff.rfl
    · have hn := eq_false_of_ne_true hi
      have hframe : frameOf g (address :: control :: payload) = .signal (signalOf control) :=
        if_neg hi
      rw [hframe]
      refine takes_signal ?_ ?_
      · unfold isFirst
        dsimp only
        rw [hn, Bool.false_and]
      · unfold isFence signalOf
        dsimp only
        split
        · next hu =>
          rw [hu, Bool.true_and]
          split
          · next hfence => exact (decide_eq_true hfence).symm
          · next hfence => exact (decide_eq_false hfence).symm
        · next hu =>
          rw [eq_false_of_ne_true hu, Bool.false_and]
          rfl

/-- The frames on the way are taken for those of a new connection as in the exchange. -/
theorem takes_iff {Fs : List (Frame 3 (List Byte))} {fs : List (List Byte)}
    (hf : List.Forall₂ IsFrame Fs fs) : ∀ {b : Bool}, GoBackN.Takes b Fs ↔ ReadsFirst b fs := by
  induction hf with
  | nil => exact Iff.rfl
  | @cons F f Fs fs hF _ ih =>
    intro b
    obtain ⟨⟨g, rfl⟩, -⟩ := hF
    rw [takes_frameOf, ih]
    exact Iff.rfl

/-- So are the numbers that they carry. -/
theorem expects_way {Fs : List (Frame 3 (List Byte))} {fs : List (List Byte)}
    (hf : List.Forall₂ IsFrame Fs fs) : Fs.filterMap Frame.expects = fs.filterMap expectedBy := by
  induction hf with
  | nil => rfl
  | cons hF _ ih =>
    obtain ⟨⟨g, rfl⟩, -⟩ := hF
    rw [List.filterMap_cons, List.filterMap_cons, frameOf_expects, ih]

/-- A number that waits is one of an S-frame in the service queue. -/
theorem Mirrors.waiting {W N : Nat} [NeZero W] [NeZero N] {h : Handle W N}
    {s : Party 3 (List Byte)} (hm : Mirrors h [] s) {nr : Seq}
    (hn : nr ∈ s.queue.filterMap Signal.expects) :
    ∃ k, (h.sQueue.frames k).type ≠ .free ∧ isUFrame (h.sQueue.frames k).control = false ∧
      nrOf (h.sQueue.frames k).control = nr := by
  obtain ⟨l, hq, hsq⟩ := hm.queue
  obtain ⟨free, hslots, -⟩ := hq.slots
  rw [hsq] at hn
  obtain ⟨c, hc, he⟩ := List.mem_filterMap.mp hn
  obtain ⟨t, ht, rfl⟩ := List.mem_map.mp hc
  have hmem : t ∈ h.sQueue.slots := by
    rw [hslots]
    exact List.mem_append_left _ ht
  obtain ⟨k, -, rfl⟩ := List.mem_map.mp hmem
  refine ⟨k, (hq.serves _ ht).not_free, ?_⟩
  unfold signalOf at he
  split at he
  · split at he <;> cases he
  · next hu => exact ⟨eq_false_of_ne_true hu, Option.some.inj he⟩

/-- A connection that begins afresh begins so in the exchange. -/
theorem Line.Mirrored.fresh (hm : b.Mirrored e) (ha : b.Afresh i) {F : Frame 3 (List Byte)}
    {Fs : List (Frame 3 (List Byte))} (hF : e.way i = F :: Fs) :
    Exchange.fresh { e with way := Function.update e.way i Fs } i := by
  have hparty := hm.party (!i)
  have hopen : (e.party (!i)).isOpen = decide (Linked (b.station (!i)) 0) := by
    rw [Bool.eq_iff_iff, decide_eq_true_iff]
    exact hparty.isOpen
  refine ⟨fun ho => ?_, fun nr hnr => ?_, ?_⟩
  · have hl := hparty.isOpen.mp ho
    exact (hparty.nextNr hl).symm.trans (ha.next hl)
  · have hin := hm.way i
    rw [hF] at hin
    obtain ⟨f, fs, -, hway, hinbox⟩ := List.forall₂_cons_left_iff.mp hin
    have hback : (Function.update e.way i Fs i).filterMap Frame.expects =
        fs.filterMap expectedBy := by
      rw [Function.update_self]
      exact expects_way hway
    rcases List.mem_append.mp hnr with hnr | hnr
    · rw [hback] at hnr
      obtain ⟨f', hf', he⟩ := List.mem_filterMap.mp hnr
      refine ha.numbers f' ?_ nr he
      rwa [hinbox]
    · obtain ⟨k, ht, hu, hk⟩ := hparty.waiting hnr
      exact hk.symm.trans (ha.waiting k ht hu)
  · show ¬GoBackN.Takes (e.party (!i)).isOpen (Function.update e.way i Fs (!i))
    rw [Function.update_of_ne (Bool.not_ne_self i), hopen, takes_iff (hm.way (!i))]
    exact ha.items

/-- If every connection begins afresh, a payload that a station reports as confirmed was handed
over by the other one before, in order. -/
theorem confirmed_was_read (hr : b.Reaches Line.OpensAfresh) (i : Bool) :
    confirmedBy 0 (b.station i).log <+ readFrom 0 (b.station (!i)).log := by
  obtain ⟨e, hreach, hm⟩ := hr.matched (G := Exchange.fresh)
    fun hm _ hc ho hF => hm.fresh (hc ho) hF
  have hconfirming := Exchange.new_confirming.run hreach
  rw [(hm.party i).confirmed, (hm.party (!i)).got]
  exact hconfirming.confirmed_sublist i

/-- Both payloads are read and confirmed. -/
theorem confirmed_was_read_resend : ∃ b : Line (fun _ => 2) (fun _ => 1),
    b.Reaches Line.OpensAfresh ∧ confirmedBy 0 (b.station false).log = [[1], [2]] ∧
      confirmedBy 0 (b.station false).log <+ readFrom 0 (b.station true).log := by
  have hreach : (resendOnLine.foldl Line.act (smallLine 2 1)).Reaches Line.OpensAfresh :=
    (smallLine_starts (by decide) (by decide)).acts (by decide +kernel)
  exact ⟨_, hreach, by decide +kernel, confirmed_was_read hreach false⟩

/-- The connection is requested twice.  The first answer opens it on the one side, the second
request opens it anew on the other one, after a payload was sent. -/
def requestTwice : List LineAct :=
  [.call false (.tick 100), .transmit false 64, .call false (.tick 100), .transmit false 64,
    .receive true (onWire [0x03, 0x3F]), .transmit true 64,
    .call true (.sendPacketTo 0 [0xAA]), .transmit true 64,
    .receive true (onWire [0x03, 0x3F]), .call true (.sendPacketTo 0 [0xBB]),
    .receive false (onWire [0x01, 0x73]), .receive false (onWire [0x01, 0x00, 0xAA]),
    .transmit false 64, .receive true (onWire [0x01, 0x21])]

/-- The acknowledgement of the payload of the first connection confirms one of the second. -/
theorem confirmed_unread : ∃ b : Line (fun _ => 2) (fun _ => 1), b.Reaches Line.AnyAct ∧
    confirmedBy 0 (b.station true).log = [[0xBB]] ∧ readFrom 0 (b.station false).log = [[0xAA]] ∧
      ¬∀ i, confirmedBy 0 (b.station i).log <+ readFrom 0 (b.station (!i)).log := by
  have hreach : (requestTwice.foldl Line.act (smallLine 2 1)).Reaches Line.AnyAct :=
    (smallLine_starts (by decide) (by decide)).acts (by decide +kernel)
  exact ⟨_, hreach, by decide +kernel, by decide +kernel, by decide +kernel⟩

end TinyProto.Fd
