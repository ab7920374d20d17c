import TinyProto.Fd.Layout
import TinyProto.Fd.Line
import TinyProto.Fd.Spelling

/-!
# Two stations on a cable

The line as it is: bytes.  A station reads out its frames with buffers of any size, and the
other one gets the bytes in pieces of any size.  What was sent in a row may be lost, and bytes
that are no flags get in between.

The cable does what the line does (`Cable.Joined.act`), with the frames on the way that are
found in the bytes.
-/

set_option linter.unusedSectionVars false

namespace TinyProto.Fd

open Hdlc Runs GoBackN

open scoped List

/-! ## Bytes on the way -/

section Hears

variable {π : Type} {c : HdlcCrc} {mtu : Int} {ll : HdlcLl π} {wire : List Byte}

/-- The frames that the low level will find in the bytes. -/
def heard (ll : HdlcLl π) (wire : List Byte) : List (List Byte) := framesOf (onRxData ll wire).2

/-- The bytes end with a frame, and there is nothing in them but frames. -/
structure Hears (c : HdlcCrc) (mtu : Int) (ll : HdlcLl π) (wire : List Byte) : Prop where
  idle : ll.RxIdle c mtu
  ends : Transducer.after (viewStep c mtu) ll.view wire = .start
  finds : Transducer.emits (viewStep c mtu) ll.view wire = (heard ll wire).map .frame

theorem framesOf_frames (fs : List (List Byte)) : framesOf (fs.map .frame) = fs := by
  unfold framesOf
  rw [List.filterMap_map]
  exact List.filterMap_some

/-- These are the frames, if they are found. -/
theorem heard_eq (hc : c.stored = c) (hi : ll.RxIdle c mtu) {fs : List (List Byte)}
    (hf : Transducer.emits (viewStep c mtu) ll.view wire = fs.map .frame) : heard ll wire = fs := by
  unfold heard
  rw [(onRxData_implements hc).output ll wire hi, hf, framesOf_frames]

theorem Hears.of_finds (hc : c.stored = c) (hi : ll.RxIdle c mtu) {fs : List (List Byte)}
    (he : Transducer.after (viewStep c mtu) ll.view wire = .start)
    (hf : Transducer.emits (viewStep c mtu) ll.view wire = fs.map .frame) :
    Hears c mtu ll wire ∧ heard ll wire = fs := by
  have heq := heard_eq hc hi hf
  exact ⟨⟨hi, he, by rw [heq]; exact hf⟩, heq⟩

/-- The receiver alone decides. -/
theorem Hears.withTx (hh : Hears c mtu ll wire) (tx : Tx π) :
    Hears c mtu (ll.withTx tx) wire ∧ heard (ll.withTx tx) wire = heard ll wire := by
  have hsame : heard (ll.withTx tx) wire = heard ll wire := by
    unfold heard
    rw [onRxData_withTx]
  refine ⟨⟨⟨⟨hh.idle.ok.crcType, hh.idle.ok.physMtu, hh.idle.ok.ptr⟩, hh.idle.state⟩, hh.ends, ?_⟩,
    hsame⟩
  rw [hsame]
  exact hh.finds

/-- Frames that fit are found behind those that were on the way. -/
theorem Hears.sends (hc : c.stored = c) (hh : Hears c mtu ll wire) :
    ∀ {fs : List (List Byte)}, (∀ f ∈ fs, Fits c mtu f) →
      Hears c mtu ll (wire ++ fs.flatMap (encodeFrame c)) ∧
        heard ll (wire ++ fs.flatMap (encodeFrame c)) = heard ll wire ++ fs := by
  intro fs hfits
  obtain ⟨he, hf⟩ := view_frames hfits
  refine Hears.of_finds hc hh.idle ?_ ?_
  · rw [Transducer.after_append, hh.ends, he]
  · rw [Transducer.emits_append, hh.ends, hh.finds, hf, List.map_append]

/-- Bytes that are no flags are not noticed there. -/
theorem Hears.disturbed (hc : c.stored = c) (hh : Hears c mtu ll wire) {noise : List Byte}
    (hn : flagSequence ∉ noise) :
    Hears c mtu ll (wire ++ noise) ∧ heard ll (wire ++ noise) = heard ll wire := by
  obtain ⟨he, hf⟩ := @view_noise c mtu noise hn
  refine Hears.of_finds hc hh.idle ?_ ?_
  · rw [Transducer.after_append, hh.ends, he]
  · rw [Transducer.emits_append, hh.ends, hh.finds, hf, List.append_nil]

/-- A part of the bytes is read. -/
theorem Hears.reads {rest : List Byte} (hc : c.stored = c) (hh : Hears c mtu ll (wire ++ rest)) :
    Hears c mtu (onRxData ll wire).1 rest ∧
      heard ll (wire ++ rest) = heard ll wire ++ heard (onRxData ll wire).1 rest := by
  have himp : Transducer.Implements (viewStep c mtu) (HdlcLl.RxIdle (π := π) c mtu) HdlcLl.view
      onRxData := onRxData_implements hc
  have hview := himp.state ll wire hh.idle
  have hends := hh.ends
  have hfinds := hh.finds
  rw [Transducer.after_append, ← hview] at hends
  rw [Transducer.emits_append, ← hview] at hfinds
  obtain ⟨fs, fs', hsplit, hfirst, hrest⟩ := List.map_eq_append_iff.mp hfinds.symm
  obtain ⟨hhears, hheard⟩ := Hears.of_finds hc (himp.keeps ll wire hh.idle) hends hrest.symm
  rw [hsplit, heard_eq hc hh.idle hfirst.symm, hheard]
  exact ⟨hhears, rfl⟩

end Hears

variable {W N : Bool → Nat} [∀ i, NeZero (W i)] [∀ i, NeZero (N i)]

/-! ## The cable -/

/-- The stations, the bytes on the way to each, and the payloads that each accepted. -/
structure Cable (W N : Bool → Nat) where
  station : ∀ i, Handle (W i) (N i)
  wire : Bool → List Byte
  taken : Bool → List (List Byte)

/-- What happens on the cable. -/
inductive CableAct where
  | call (i : Bool) (c : Call)
  /-- `tiny_fd_get_tx_data` with one buffer after the other. -/
  | transmit (i : Bool) (sizes : List Nat) (lost : Bool)
  /-- `tiny_fd_on_rx_data` with the next bytes. -/
  | receive (i : Bool) (n : Nat)
  /-- Other bytes get onto the cable. -/
  | disturb (i : Bool) (noise : List Byte)

/-- The last frame is read out before anything else happens, and no flag is made up. -/
def Cable.Possible (b : Cable W N) : CableAct → Prop
  | .call _ c => c.Stays
  | .transmit i sizes _ => (drainTx (b.station i) sizes).1.events.txSending = false
  | .receive _ _ => True
  | .disturb _ noise => flagSequence ∉ noise

instance Cable.possible_decidable (b : Cable W N) : (a : CableAct) → Decidable (b.Possible a)
  | .call _ c => inferInstanceAs (Decidable c.Stays)
  | .transmit i sizes _ =>
    inferInstanceAs (Decidable ((drainTx (b.station i) sizes).1.events.txSending = false))
  | .receive _ _ => isTrue trivial
  | .disturb _ noise => inferInstanceAs (Decidable (flagSequence ∉ noise))

/-- The cable afterwards. -/
def Cable.act (b : Cable W N) : CableAct → Cable W N
  | .call i c =>
    { b with
      station := Function.update b.station i (Fd.call (b.station i) c)
      taken := Function.update b.taken i (b.taken i ++ acceptedBy (b.station i) c) }
  | .transmit i sizes lost =>
    { b with
      station := Function.update b.station i (drainTx (b.station i) sizes).1
      wire := Function.update b.wire (!i)
        (b.wire (!i) ++ if lost then [] else (drainTx (b.station i) sizes).2.2) }
  | .receive i n =>
    { b with
      station := Function.update b.station i (fdOnRxData (b.station i) ((b.wire i).take n))
      wire := Function.update b.wire i ((b.wire i).drop n) }
  | .disturb i noise => { b with wire := Function.update b.wire i (b.wire i ++ noise) }

/-- Two stations in ABM that `tiny_fd_init` made with the same MTU and check field, before
anything happened. -/
inductive Cable.Starts (c : HdlcCrc) (mtu : Nat) : Cable W N → Prop where
  | intro {init : Bool → InitParams} {hdlc : ∀ i, HdlcLl (SlotRef (W i))}
      {millis : Bool → BitVec 32} (hmin : ∀ i, 2 ≤ W i) (hmax : ∀ i, W i ≤ 7)
      (hll : ∀ i, ∃ sz buf size a, hdlcLlInit sz
        { buf := buf, bufSize := size, crcType := c, mtu := mtu + frameHeaderSize } =
          .ok (a, hdlc i))
      (habm : ∀ i, (init i).mode = .abm) (hmtu : ∀ i, (init i).mtu = mtu) (hroom : 2 ≤ mtu) :
      Starts c mtu
        { station := fun i => initHandle (W i) (N i) (init i) (hdlc i) (millis i)
          wire := fun _ => []
          taken := fun _ => [] }

/-- What comes of them. -/
def Cable.Reaches (c : HdlcCrc) (mtu : Nat) (b : Cable W N) : Prop :=
  ∃ b₀ : Cable W N, b₀.Starts c mtu ∧
    Run (fun b a b' => b.Possible a ∧ b' = b.act a) (fun _ _ => True) b₀ b

/-- The line with the frames that will be found in the bytes. -/
def Cable.line (b : Cable W N) : Line W N where
  station := b.station
  inbox i := heard (b.station i).hdlc (b.wire i)
  taken := b.taken

/-! ## The cable as a line -/

/-- The room of a frame. -/
abbrev roomFor (mtu : Nat) : Nat := mtu + 2

/-- The room of a frame with its check field. -/
abbrev physRoom (c : HdlcCrc) (mtu : Nat) : Int := ((roomFor mtu + getCrcFieldSize c : Nat) : Int)

variable {b b' : Cable W N} {e : Exchange 3 (List Byte)} {a : CableAct} {i : Bool} {c : HdlcCrc}
  {mtu : Nat}

/-- It is enough for the frames that are sent. -/
theorem checkField_le (hc : c.stored = c) : c.value / 8 ≤ getCrcFieldSize c := by
  cases c with
  | off => cases hc
  | _ => decide

/-- The line follows an exchange, the frames fit, and the receivers find them. -/
structure Cable.Joined (c : HdlcCrc) (mtu : Nat) (b : Cable W N) (e : Exchange 3 (List Byte)) :
    Prop where
  stored : c.stored = c
  line : b.line.Mirrored e
  sized : ∀ i, Sized (roomFor mtu) (b.station i)
  hears : ∀ i, Hears c (physRoom c mtu) (b.station i).hdlc (b.wire i)

/-- The exchange does what the cable does. -/
abbrev Cable.Matches (c : HdlcCrc) (mtu : Nat) (e : Exchange 3 (List Byte)) (b : Cable W N) :
    Prop :=
  ∃ e', Relation.ReflTransGen (Exchange.Step fun _ _ => True) e e' ∧ b.Joined c mtu e'

/-- One station changed. -/
theorem Cable.Joined.update (hj : b.Joined c mtu e) {h : Handle (W i) (N i)}
    {wire : Bool → List Byte} {inbox taken : Bool → List (List Byte)} {e' : Exchange 3 (List Byte)}
    (hs : Sized (roomFor mtu) h)
    (hown : Hears c (physRoom c mtu) h.hdlc (wire i) ∧ heard h.hdlc (wire i) = inbox i)
    (hother : ∀ j, j ≠ i → Hears c (physRoom c mtu) (b.station j).hdlc (wire j) ∧
      heard (b.station j).hdlc (wire j) = inbox j)
    (hm : Line.Mirrored
      { station := Function.update b.station i h, inbox := inbox, taken := taken } e') :
    Cable.Joined c mtu
      { station := Function.update b.station i h, wire := wire, taken := taken } e' := by
  have hhears := (Function.forall_update_iff b.station (a := i) (b := h)
    fun j (k : Handle (W j) (N j)) => Hears c (physRoom c mtu) k.hdlc (wire j) ∧
      heard k.hdlc (wire j) = inbox j).mpr ⟨hown, hother⟩
  have hinbox : inbox = fun j => heard (Function.update b.station i h j).hdlc (wire j) :=
    funext fun j => (hhears j).2.symm
  rw [hinbox] at hm
  exact ⟨hj.stored, hm, (Function.forall_update_iff _ fun j (k : Handle (W j) (N j)) =>
    Sized (roomFor mtu) k).mpr ⟨hs, fun j _ => hj.sized j⟩, fun j => (hhears j).1⟩

/-! ## Steps -/

section Station

variable {W N : Nat} [NeZero W] [NeZero N] {h : Handle W N} {s : Party 3 (List Byte)}

theorem onFrameRead_hdlc (h : Handle W N) (data : List Byte) :
    (onFrameRead h data).hdlc = h.hdlc := by
  unfold onFrameRead
  split
  · dsimp only
    split
    · rfl
    · next p _ =>
      have hcapture : ∀ (k : Handle W N) (control : Byte), (captureMarker k control).hdlc = k.hdlc := by
        intro k control
        unfold captureMarker
        split <;> rfl
      rw [hcapture, (onPeerFrame_works _ p _ _ _).hdlc]
      rfl
  · rfl

theorem foldl_onFrameRead_hdlc : ∀ (fs : List (List Byte)) (h : Handle W N),
    (fs.foldl onFrameRead h).hdlc = h.hdlc
  | [], _ => rfl
  | f :: fs, h => (foldl_onFrameRead_hdlc fs (onFrameRead h f)).trans (onFrameRead_hdlc h f)

theorem call_hdlc (h : Handle W N) {c : Call} (hc : c.Stays) : (Fd.call h c).hdlc = h.hdlc := by
  cases c with
  | sendPacketTo address data =>
    show (sendPacketTo h address data).1.hdlc = h.hdlc
    rcases sendPacketTo_sent h address data with hsame | ⟨p, hp, -⟩
    · rw [hsame]
    · exact (sendPacketTo_stores hp data).hdlc
  | sendUiPacketTo address data => exact (sendUiPacketTo_works h address data).elim fun _ hw => hw.hdlc
  | registerPeer address =>
    show (registerPeer h address).1.hdlc = h.hdlc
    rcases registerPeer_cases h address with hsame | ⟨p, a, ts, -, -, -, hset⟩
    · rw [hsame]
    · rw [hset]
      rfl
  | setKaTimeout | tick => rfl
  | _ => exact absurd hc id

theorem Sized.call {room : Nat} (hs : Sized room h) (ho : Ordered h) (c : Call) :
    Sized room (Fd.call h c) :=
  (call_preserves ho c (fun _ _ hk ho hd => hk.operate ho hd) hs).1

/-- What the party does while the calls are made. -/
theorem passing_stepwise (s : Party 3 (List Byte)) :
    Stepwise (W := W) (N := N) fun k fs _ => InAbm k ∧ Passing s k fs where
  step {_ _ _ _} hk _ hd ho :=
    ⟨hk.1.operate hd (by rintro data rfl; exact absurd ho id), hk.2.operate hk.1 hd ho⟩

/-- Calls that end with no frame on its way complete what the party sent. -/
theorem Mirrors.drainTx (hm : Mirrors h [] s) (hi : InAbm h) (ht : h.events.txSending = false)
    {sizes : List Nat} (hdone : (Fd.drainTx h sizes).1.events.txSending = false) :
    InAbm (Fd.drainTx h sizes).1 ∧ ∃ Fs s', s.Emits Fs s' ∧ s'.accepted = s.accepted ∧
      List.Forall₂ IsFrame Fs (Fd.drainTx h sizes).2.1 ∧ Mirrors (Fd.drainTx h sizes).1 [] s' := by
  obtain ⟨-, hi', hpassing⟩ := (passing_stepwise s).drain sizes [] [] hi.ordered
    ⟨hi, .idle ht .refl rfl .nil hm⟩
  rw [List.nil_append] at hpassing
  refine ⟨hi', ?_⟩
  cases hpassing with
  | idle _ he ha hf hm' => exact ⟨_, _, he, ha, hf, hm'⟩
  | busy ht' => exact absurd (ht'.symm.trans hdone) Bool.noConfusion

end Station

theorem Cable.Joined.call (hj : b.Joined c mtu e) {x : Call} (hx : x.Stays) :
    Cable.Matches c mtu e (b.act (.call i x)) := by
  obtain ⟨e', hsteps, hm⟩ := hj.line.call (i := i) (G := fun _ _ => True) hx
  have hll := call_hdlc (b.station i) hx
  refine ⟨e', hsteps, hj.update ((hj.sized i).call (hj.line.abm i).ordered x)
    ?_ (fun j _ => ⟨hj.hears j, rfl⟩) hm⟩
  rw [hll]
  exact ⟨hj.hears i, rfl⟩

theorem Cable.Joined.disturb (hj : b.Joined c mtu e) {noise : List Byte}
    (hn : flagSequence ∉ noise) : (b.act (.disturb i noise)).Joined c mtu e := by
  have hhears : ∀ j, Hears c (physRoom c mtu) (b.station j).hdlc
        (Function.update b.wire i (b.wire i ++ noise) j) ∧
      heard (b.station j).hdlc (Function.update b.wire i (b.wire i ++ noise) j) =
        heard (b.station j).hdlc (b.wire j) := by
    intro j
    by_cases hji : j = i
    · rw [hji, Function.update_self]
      exact (hj.hears i).disturbed hj.stored hn
    · rw [Function.update_of_ne hji]
      exact ⟨hj.hears j, rfl⟩
  have hinbox : (b.act (.disturb i noise)).line = b.line :=
    congrArg (fun inbox => ({ b.line with inbox := inbox } : Line W N))
      (funext fun j => (hhears j).2)
  exact ⟨hj.stored, hinbox ▸ hj.line, hj.sized, fun j => (hhears j).1⟩

theorem Cable.Joined.transmit (hj : b.Joined c mtu e) {sizes : List Nat} (lost : Bool)
    (hdone : (drainTx (b.station i) sizes).1.events.txSending = false) :
    Cable.Matches c mtu e (b.act (.transmit i sizes lost)) := by
  have hidle : (b.station i).events.txSending = false := hj.line.idle i
  have hinabm : InAbm (b.station i) := hj.line.abm i
  have hparty : Mirrors (b.station i) [] (e.party i) := hj.line.party i
  obtain ⟨hi, Fs, s', hs, ha, hf, hm'⟩ := hparty.drainTx hinabm hidle hdone
  have hcrc : (b.station i).hdlc.crcType = c := (hj.hears i).idle.ok.crcType
  obtain ⟨hspeaks, hbytes⟩ := drainTx_speaks hinabm.ordered (hj.sized i)
    (by rw [hcrc]; exact hj.stored) hidle hdone
  rw [hcrc] at hbytes
  -- The line, with the frames on the way.
  have hsent : Line.Mirrored
      { station := Function.update b.station i (drainTx (b.station i) sizes).1
        inbox := Function.update b.line.inbox (!i) (b.line.inbox (!i) ++ (drainTx (b.station i) sizes).2.1)
        taken := b.taken } _ :=
    hj.line.update hi hdone hm' (hj.line.sent hf) (by
      rw [hm'.accepted, ha, ← hparty.accepted]
      exact hj.line.taken i) fun _ _ => rfl
  -- The receiver of the station is the same.
  have hown : Hears c (physRoom c mtu) (drainTx (b.station i) sizes).1.hdlc (b.wire i) ∧
      heard (drainTx (b.station i) sizes).1.hdlc (b.wire i) = b.line.inbox i := by
    rw [hspeaks.listens]
    exact (hj.hears i).withTx _
  have hne : i ≠ !i := (Bool.not_ne_self i).symm
  cases lost with
  | true =>
    have hrest : b.line.inbox (!i) <+ Function.update b.line.inbox (!i)
        (b.line.inbox (!i) ++ (drainTx (b.station i) sizes).2.1) (!i) := by
      rw [Function.update_self]
      exact List.sublist_append_left _ _
    obtain ⟨e', hsteps, hm⟩ := hsent.lose (G := fun _ _ => True) hrest
    unfold Line.act at hm
    dsimp only at hm
    rw [Function.update_idem, Function.update_eq_self] at hm
    refine ⟨e', hs.steps.trans hsteps, hj.update hspeaks.sized ?_ (fun j _ => ?_) hm⟩
    · rw [Function.update_of_ne hne]
      exact hown
    · rw [if_pos rfl, List.append_nil, Function.update_eq_self]
      exact ⟨hj.hears j, rfl⟩
  | false =>
    refine ⟨_, hs.steps, hj.update hspeaks.sized ?_ ?_ hsent⟩
    · rw [Function.update_of_ne hne, Function.update_of_ne hne]
      exact hown
    · intro j hji
      obtain rfl : j = !i := Bool.eq_not_of_ne hji
      rw [Function.update_self, Function.update_self]
      show _ ∧ heard _ (_ ++ (drainTx (b.station i) sizes).2.2) = _
      rw [hbytes]
      refine (hj.hears (!i)).sends hj.stored fun f hf' => ⟨(hspeaks.fits f hf').1, ?_⟩
      exact Int.ofNat_le.mpr (Nat.add_le_add (hspeaks.fits f hf').2 (checkField_le hj.stored))

/-- A frame is handled. -/
theorem Line.Mirrored.reads {b : Line W N} (hm : b.Mirrored e) {f : List Byte}
    {fs : List (List Byte)} (hin : b.inbox i = f :: fs) :
    Line.Matches (fun _ _ => True) e
      { b with
        station := Function.update b.station i (onFrameRead (b.station i) f)
        inbox := Function.update b.inbox i fs } := by
  have hway := hm.way i
  rw [hin] at hway
  obtain ⟨F, Fs, ⟨⟨g, rfl⟩, hreset⟩, -, hF⟩ := List.forall₂_cons_right_iff.mp hway
  have hi : InAbm (onFrameRead (b.station i) f) :=
    (hm.abm i).operate (o := .frame f) trivial (by rintro _ ⟨⟩; exact hreset)
  have ht := (onFrameRead_marker (b.station i) f).1.trans (hm.idle i)
  by_cases ho : OpensAt (b.station i) f
  · obtain ⟨hfence, answer, hnew⟩ := (hm.party i).opens (hm.abm i) ho g
    refine ⟨_, .single (.opens i answer (hfence ▸ hF) trivial),
      hm.update hi ht hnew (hm.rest hF hin) ?_ fun _ _ => rfl⟩
    rw [hnew.accepted, ← hm.taken i]
    exact (hm.party i).accepted.symm
  · obtain ⟨s', hs, ha, hnew⟩ := (hm.party i).hears (hm.abm i) hreset ho g
    refine ⟨_, hs.steps hF, hm.update hi ht hnew (hm.rest hF hin) ?_ fun _ _ => rfl⟩
    rw [hnew.accepted, ha, ← (hm.party i).accepted, hm.taken i]

/-- So are several. -/
theorem Line.Mirrored.readsAll : ∀ {fs rest : List (List Byte)} {b : Line W N}
    {e : Exchange 3 (List Byte)}, b.Mirrored e → b.inbox i = fs ++ rest →
      Line.Matches (fun _ _ => True) e
        { b with
          station := Function.update b.station i (fs.foldl onFrameRead (b.station i))
          inbox := Function.update b.inbox i rest }
  | [], rest, b, e, hm, hin => by
    have hsame : Function.update b.inbox i rest = b.inbox := by
      rw [← List.nil_append rest, ← hin, Function.update_eq_self]
    rw [List.foldl_nil, Function.update_eq_self, hsame]
    exact ⟨e, .refl, hm⟩
  | f :: fs, rest, b, e, hm, hin => by
    obtain ⟨e₁, hsteps, hm₁⟩ := hm.reads hin
    have hin₁ : Function.update b.inbox i (fs ++ rest) i = fs ++ rest := Function.update_self ..
    obtain ⟨e₂, hsteps₂, hm₂⟩ := Line.Mirrored.readsAll hm₁ hin₁
    dsimp only at hm₂
    rw [Function.update_self, Function.update_idem, Function.update_idem] at hm₂
    exact ⟨e₂, hsteps.trans hsteps₂, hm₂⟩

theorem Cable.Joined.receive (hj : b.Joined c mtu e) (n : Nat) :
    Cable.Matches c mtu e (b.act (.receive i n)) := by
  have hwire := List.take_append_drop n (b.wire i)
  have hhears := hj.hears i
  rw [← hwire] at hhears
  obtain ⟨hafter, hsplit⟩ := hhears.reads hj.stored
  rw [hwire] at hsplit
  have hparty : Mirrors (b.station i) [] (e.party i) := hj.line.party i
  have hinabm : InAbm (b.station i) := hj.line.abm i
  obtain ⟨hi, hmi⟩ := hparty.listens hinabm ((b.wire i).take n)
  generalize hll : (onRxData (b.station i).hdlc ((b.wire i).take n)).1 = ll at hi hmi hafter hsplit
  -- First the low level goes on, then its frames are handled.
  have hlistens := hj.line.update hi (hj.line.idle i) hmi hj.line.way (hj.line.taken i)
    fun _ _ => rfl
  rw [Function.update_eq_self] at hlistens
  obtain ⟨e', hsteps, hm⟩ := Line.Mirrored.readsAll hlistens hsplit
  dsimp only at hm
  rw [Function.update_self, Function.update_idem] at hm
  have hread : fdOnRxData (b.station i) ((b.wire i).take n) =
      (heard (b.station i).hdlc ((b.wire i).take n)).foldl onFrameRead
        { b.station i with hdlc := ll } := by
    rw [← hll]
    rfl
  have hown : (fdOnRxData (b.station i) ((b.wire i).take n)).hdlc = ll := by
    rw [hread, foldl_onFrameRead_hdlc]
  rw [← hread] at hm
  refine ⟨e', hsteps, hj.update ?_ ?_ ?_ hm⟩
  · exact (hj.sized i).call hinabm.ordered (.onRxData ((b.wire i).take n))
  · rw [hown, Function.update_self, Function.update_self]
    exact ⟨hafter, rfl⟩
  · intro j hji
    rw [Function.update_of_ne hji, Function.update_of_ne hji]
    exact ⟨hj.hears j, rfl⟩

/-- The exchange follows the cable. -/
theorem Cable.Joined.act (hj : b.Joined c mtu e) (hp : b.Possible a) :
    Cable.Matches c mtu e (b.act a) := by
  cases a with
  | call i x => exact hj.call hp
  | transmit i sizes lost => exact hj.transmit lost hp
  | receive i n => exact hj.receive n
  | disturb i noise => exact ⟨e, .refl, hj.disturb hp⟩

/-! ## Runs -/

theorem hdlcLlInit_physMtu {π : Type} {sz : StructSizes} {buf size a : Int} {ll : HdlcLl π}
    (hok : hdlcLlInit sz
      { buf := buf, bufSize := size, crcType := c, mtu := mtu + frameHeaderSize } = .ok (a, ll)) :
    ll.physMtu = physRoom c.stored mtu := by
  unfold hdlcLlInit at hok
  split at hok
  · cases hok
  · dsimp only at hok
    split at hok
    · cases hok
    · cases hok
      rw [hdlcLlReset_both]
      dsimp only
      unfold frameHeaderSize physRoom roomFor
      omega

theorem initHandle_hears {W : Nat} {sz : StructSizes} {buf size a : Int} {ll : HdlcLl (SlotRef W)}
    (hok : hdlcLlInit sz
      { buf := buf, bufSize := size, crcType := c, mtu := mtu + frameHeaderSize } = .ok (a, ll)) :
    Hears c.stored (physRoom c.stored mtu) ll [] := by
  obtain ⟨hrx, -, hcrc⟩ := hdlcLlInit_ok hok
  have hstate : ll.rx.state = .readStart := by
    rw [hrx]
    rfl
  refine ⟨⟨⟨hcrc, hdlcLlInit_physMtu hok, fun hs => absurd hstate hs⟩, ?_⟩, view_readStart hstate,
    rfl⟩
  rw [hstate]
  nofun

theorem Cable.Starts.joined (hs : b.Starts c mtu) : b.Joined c.stored mtu Exchange.new := by
  cases hs with
  | @intro init hdlc millis hmin hmax hll habm hmtu hroom =>
  refine ⟨stored_stored c, ?_, fun i => ?_, fun i => ?_⟩
  · refine (Line.Starts.intro hmin hmax (fun i => ?_) habm).mirrored
    obtain ⟨sz, _, _, a, hok⟩ := hll i
    exact ⟨sz, _, a, hok⟩
  · have hsized := initHandle_sized (N := N i) (init i) (hdlc i) (millis i)
    have hfits : frameRoom (initHandle (W i) (N i) (init i) (hdlc i) (millis i)) = roomFor mtu := by
      show max (init i).mtu.toNat 2 + 2 = mtu + 2
      rw [hmtu i, Int.toNat_natCast, Nat.max_eq_left hroom]
    rwa [hfits] at hsized
  · obtain ⟨_, _, _, _, hok⟩ := hll i
    exact initHandle_hears hok

/-- The rule for runs of the cable: they are runs of the exchange. -/
theorem Cable.Reaches.matched (hr : b.Reaches c mtu) :
    Cable.Matches c.stored mtu Exchange.new b := by
  obtain ⟨b₀, hs, hrun⟩ := hr
  refine hrun.preserves (P := Cable.Matches c.stored mtu Exchange.new) (fun b a b' hm _ hstep => ?_)
    ⟨_, .refl, hs.joined⟩
  obtain ⟨e, hreach, hj⟩ := hm
  obtain ⟨hp, rfl⟩ := hstep
  obtain ⟨e', hreach', hj'⟩ := hj.act hp
  exact ⟨e', hreach.trans hreach', hj'⟩

theorem Cable.Starts.acts (hs : b.Starts c mtu) {acts : List CableAct}
    (hok : Runs.Allows Cable.act Cable.Possible b acts) : (acts.foldl Cable.act b).Reaches c mtu := by
  refine ⟨b, hs, ?_⟩
  have hrun := Run.foldl hok
  generalize acts.foldl Cable.act b = b' at hrun
  induction hrun with
  | refl => exact .refl
  | tail _ hg ha ih => exact .tail ih trivial ⟨hg, ha⟩

end TinyProto.Fd
