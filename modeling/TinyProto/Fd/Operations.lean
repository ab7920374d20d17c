import TinyProto.Fd.Sending

/-!
# The operations calls are made of

A call is a sequence of operations: a frame is handled, the timeouts of a peer are checked,
a frame is looked for, a frame is completed, and so on.  The sequence is a function of the
state and the call (`opsOf`, `call_ops`), so that a condition on the operations of a run is
a condition on the run (`Meets`).

`Lives` are the runs with their history, and `Lives.rule` is the rule to prove invariants
of them: what every operation preserves that meets the condition holds all the time.
-/

set_option linter.unusedSectionVars false

namespace TinyProto.Fd

open Hdlc Runs Relation

variable {W N : Nat} [NeZero W] [NeZero N] {h h₁ : Handle W N} {p : Fin N}

/-! ## Operations -/

/-- What a call does at a time. -/
inductive Op (W N : Nat) where
  /-- `on_frame_read`. -/
  | frame (data : List Byte)
  /-- The timeout check of `tiny_fd_get_tx_data`. -/
  | check (p : Fin N)
  /-- The part behind its wait point. -/
  | attempt (p : Fin N)
  /-- `hdlc_ll_run_tx` with `on_frame_send` behind it. -/
  | run (len : Nat)
  /-- The receiver of the low level went on. -/
  | lowLevel (hdlc : HdlcLl (SlotRef W))
  | sendPacketTo (address : Byte) (data : List Byte)
  | sendUiPacketTo (address : Byte) (data : List Byte)
  | disconnect
  | registerPeer (address : Byte)
  | setKaTimeout (keepAlive : Nat)
  | tick (ms : BitVec 32)

/-- The state after an operation. -/
def operate (h : Handle W N) : Op W N → Handle W N
  | .frame data => onFrameRead h data
  | .check p => checkIdleTimeout h p
  | .attempt p => (tryToSend h p).handle
  | .run len => (runTx h len).1
  | .lowLevel hdlc => { h with hdlc := hdlc }
  | .sendPacketTo address data => (sendPacketTo h address data).1
  | .sendUiPacketTo address data => (sendUiPacketTo h address data).1
  | .disconnect => (disconnect h).1
  | .registerPeer address => (registerPeer h address).1
  | .setKaTimeout keepAlive => setKaTimeout h keepAlive
  | .tick ms => { h with millis := h.millis + ms }

/-- The operations of the loop of `tiny_fd_get_tx_data`. -/
def txOps (len : Nat) (p : Fin N) :
    Nat → Bool → Bool → Handle W N → List Byte → List (Op W N)
  | 0, _, _, _, _ => []
  | fuel + 1, again, waitPointPassed, h, data =>
      if len ≤ data.length then []
      else if h.events.txSending then
        let (k, generated, _) := runTx h (len - data.length)
        .run (len - data.length) ::
          if generated = [] ∧ !again then []
          else txOps len p fuel (generated ≠ []) waitPointPassed k (data ++ generated)
      else if (h.peers p).addr = invalidAddr then []
      else
        .check p ::
          if waitPointPassed then []
          else
            .attempt p ::
              match tryToSend (checkIdleTimeout h p) p with
              | .stop _ => []
              | .chosen k => txOps len p fuel again true k data
              | .nothing k => if !again then [] else txOps len p fuel false true k data

/-- The operations of a call. -/
def opsOf (h : Handle W N) : Call → List (Op W N)
  | .sendPacketTo address data => [.sendPacketTo address data]
  | .sendUiPacketTo address data => [.sendUiPacketTo address data]
  | .disconnect => [.disconnect]
  | .registerPeer address => [.registerPeer address]
  | .setKaTimeout keepAlive => [.setKaTimeout keepAlive]
  | .onRxData data =>
      .lowLevel (onRxData h.hdlc data).1 :: (framesOf (onRxData h.hdlc data).2).map .frame
  | .onFrameRead data => [.frame data]
  | .getTxData len => txOps len h.nextPeer (2 * len + 3) true false h []
  | .tick ms => [.tick ms]

theorem txLoop_ops (len : Nat) (p : Fin N) :
    ∀ (fuel : Nat) (again waitPointPassed : Bool) (h : Handle W N) (data : List Byte),
      (getTxDataLoop len p fuel again waitPointPassed h data).h =
        (txOps len p fuel again waitPointPassed h data).foldl operate h
  | 0, _, _, _, _ => rfl
  | fuel + 1, again, waitPointPassed, h, data => by
    unfold getTxDataLoop txOps
    split
    · rfl
    · split
      · dsimp only
        rw [List.foldl_cons]
        split
        · rfl
        · exact txLoop_ops len p fuel _ _ _ _
      · split
        · rfl
        · dsimp only
          rw [List.foldl_cons]
          split
          · rfl
          · rw [List.foldl_cons]
            have htry : operate (operate h (.check p)) (.attempt p) =
                (tryToSend (checkIdleTimeout h p) p).handle := rfl
            rw [htry]
            cases tryToSend (checkIdleTimeout h p) p with
            | stop k => rfl
            | chosen k => exact txLoop_ops len p fuel _ _ _ _
            | nothing k =>
              dsimp only
              split
              · rfl
              · exact txLoop_ops len p fuel _ _ _ _

/-- A call does its operations one after the other. -/
theorem call_ops (h : Handle W N) (c : Call) : call h c = (opsOf h c).foldl operate h := by
  cases c with
  | onRxData data =>
    show fdOnRxData h data = _
    unfold fdOnRxData opsOf
    dsimp only
    rw [List.foldl_cons, List.foldl_map]
    rfl
  | getTxData len => exact txLoop_ops len h.nextPeer _ _ _ h _
  | _ => rfl

/-! ## When operations come -/

/-- What is known of the state an operation comes in. -/
def Due (h : Handle W N) : Op W N → Prop
  | .check p | .attempt p =>
      Live h p ∧ (h.peers h.nextPeer).addr ≠ invalidAddr ∧ h.events.txSending = false
  | .run _ => h.events.txSending = true
  | .lowLevel hdlc => h.hdlc.RxOnly hdlc
  | _ => True

/-- Well-formed addresses, and a low level in step with the handle. -/
structure Ordered (h : Handle W N) : Prop where
  addressed : Addressed h
  inStep : InStep h

theorem Ordered.around (ho : Ordered h) (ha : ReflTransGen (Around fun _ => True) h h₁) :
    Ordered h₁ := by
  induction ha with
  | refl => exact ho
  | tail _ hs ih => exact ⟨ih.addressed.around hs, ih.inStep.around ih.addressed hs⟩

/-- A call that does not transmit. -/
theorem Ordered.call (ho : Ordered h) (c : Call) (hc : ¬c.Transmits) : Ordered (call h c) :=
  ho.around (call_around ho.addressed c hc fun _ _ _ => trivial)

theorem Ordered.checks (ho : Ordered h) (p : Fin N) : Ordered (checkIdleTimeout h p) :=
  ho.around (.single (.works (checkIdleTimeout_works h p)))

theorem Ordered.runTx (ho : Ordered h) (ht : h.events.txSending = true) (len : Nat) :
    Ordered (runTx h len).1 where
  addressed := run_addressed (runTx_run (h := h) (G := AnyAct) (fun _ _ _ => trivial)
    (fun _ _ => trivial) len) ho.addressed
  inStep := (runTx_runsOn ho.inStep ht len).inStep

/-- Operations keep the order. -/
theorem Ordered.operate (ho : Ordered h) {o : Op W N} (hd : Due h o) : Ordered (operate h o) := by
  cases o with
  | frame data => exact ho.call (.onFrameRead data) id
  | check p => exact ho.checks p
  | attempt p =>
    obtain ⟨hp, hnext, ht⟩ := hd
    have htried := tryToSend_tried ho.inStep ho.addressed ht hp hnext
    exact ⟨ho.addressed.congr htried.settings htried.nextPeer htried.addr, htried.inStep⟩
  | run len => exact ho.runTx hd len
  | lowLevel hdlc => exact ho.around (.single (.same rfl hd rfl rfl rfl rfl rfl rfl))
  | sendPacketTo address data => exact ho.call (.sendPacketTo address data) id
  | sendUiPacketTo address data => exact ho.call (.sendUiPacketTo address data) id
  | disconnect => exact ho.call .disconnect id
  | registerPeer address => exact ho.call (.registerPeer address) id
  | setKaTimeout keepAlive => exact ho.call (.setKaTimeout keepAlive) id
  | tick ms => exact ho.call (.tick ms) id

theorem Around.settings {A : Handle W N → Prop} (ha : Around A h h₁) :
    h₁.settings = h.settings := by
  cases ha with
  | same settings => exact settings
  | works hworks => exact hworks.settings
  | stores _ _ hs => exact hs.settings
  | register _ _ _ hr =>
    rw [hr]
    rfl

/-- No operation touches the settings. -/
theorem operate_settings (ho : Ordered h) {o : Op W N} (hd : Due h o) :
    (operate h o).settings = h.settings := by
  have hcall : ∀ c : Call, ¬c.Transmits → (call h c).settings = h.settings := by
    intro c hc
    have ha := call_around (A := fun _ => True) ho.addressed c hc fun _ _ _ => trivial
    generalize call h c = k at ha
    induction ha with
    | refl => rfl
    | tail _ hs ih => exact hs.settings.trans ih
  cases o with
  | frame data => exact hcall (.onFrameRead data) id
  | check p => exact (checkIdleTimeout_works h p).settings
  | attempt p =>
    obtain ⟨hp, hnext, ht⟩ := hd
    exact (tryToSend_tried ho.inStep ho.addressed ht hp hnext).settings
  | run len => exact (runTx_runsOn ho.inStep hd len).settings
  | lowLevel hdlc => rfl
  | sendPacketTo address data => exact hcall (.sendPacketTo address data) id
  | sendUiPacketTo address data => exact hcall (.sendUiPacketTo address data) id
  | disconnect => exact hcall .disconnect id
  | registerPeer address => exact hcall (.registerPeer address) id
  | setKaTimeout keepAlive => rfl
  | tick ms => rfl

/-- An operation is a run of elementary steps. -/
theorem operate_run {o : Op W N} (ho : Ordered h) (hd : Due h o) :
    Run Step AnyAct h (operate h o) := by
  have hfair : Fair (AnyAct (W := W) (N := N)) := fun _ _ _ => trivial
  have hcall : ∀ c : Call, Run Step AnyAct h (Fd.call h c) := fun c =>
    call_run hfair (fun _ _ => trivial) ho.addressed c
      ⟨(callOk_any h c).mono fun _ _ _ _ _ _ _ _ _ =>
        ⟨fun _ _ _ _ => trivial, fun _ _ => trivial, fun _ _ _ _ => trivial⟩,
          fun _ _ _ _ => trivial⟩
  cases o with
  | frame data => exact hcall (.onFrameRead data)
  | check p => exact checkIdleTimeout_run hfair ho.addressed hd.1
  | attempt p => exact tryToSend_run hfair ho.addressed hd.1
  | run len => exact runTx_run hfair (fun _ _ => trivial) len
  | lowLevel hdlc =>
    exact quiet_run hfair ⟨rfl, rfl, rfl, rfl, ⟨[], (List.append_nil _).symm, by simp⟩,
      fun _ => .refl _⟩
  | sendPacketTo address data => exact hcall (.sendPacketTo address data)
  | sendUiPacketTo address data => exact hcall (.sendUiPacketTo address data)
  | disconnect => exact hcall .disconnect
  | registerPeer address => exact hcall (.registerPeer address)
  | setKaTimeout keepAlive => exact hcall (.setKaTimeout keepAlive)
  | tick ms => exact hcall (.tick ms)

/-- The condition that the operations of a call are due. -/
abbrev InDue (h : Handle W N) (o : Op W N) : Prop := Ordered h ∧ Due h o

theorem txOps_inOrder (len : Nat) (p : Fin N) :
    ∀ (fuel : Nat) (again waitPointPassed : Bool) (h : Handle W N) (data : List Byte),
      Ordered h → (¬Multi h → p = 0) →
        ((h.peers p).addr ≠ invalidAddr → (h.peers h.nextPeer).addr ≠ invalidAddr) →
          Runs.Allows operate InDue h (txOps len p fuel again waitPointPassed h data)
  | 0, _, _, _, _, _, _, _ => trivial
  | fuel + 1, again, waitPointPassed, h, data, ho, hu, hnext => by
    unfold txOps
    split
    · trivial
    · split
      · next ht =>
        have hruns := runTx_runsOn ho.inStep ht (len - data.length)
        refine ⟨⟨ho, ht⟩, ?_⟩
        split
        · trivial
        · refine txOps_inOrder len p fuel _ _ _ _ (ho.runTx ht _) ?_ ?_
          · show ¬Multi (Fd.runTx h (len - data.length)).1 → p = 0
            rw [Multi.congr hruns.settings]
            exact hu
          · intro ha
            exact hruns.registered (hnext (hruns.peers ▸ ha))
      · next ht =>
        split
        · trivial
        · next ha =>
          have hp := ho.addressed.live_of_unique ha hu
          have ht := eq_false_of_ne_true ht
          refine ⟨⟨ho, hp, hnext ha, ht⟩, ?_⟩
          have hworks := checkIdleTimeout_works h p
          have hoc := ho.checks p
          have hpc := hoc.addressed.live_of_unique (p := p) (by rwa [hworks.addr_eq])
            (by rwa [Multi.congr hworks.settings])
          have hnc : ((checkIdleTimeout h p).peers (checkIdleTimeout h p).nextPeer).addr ≠
              invalidAddr := by
            rw [hworks.nextPeer, hworks.addr_eq]
            exact hnext ha
          have htc := hworks.txSending.trans ht
          split
          · trivial
          · refine ⟨⟨hoc, hpc, hnc, htc⟩, ?_⟩
            have htried := tryToSend_tried hoc.inStep hoc.addressed htc hpc hnc
            have hot := hoc.operate (o := .attempt p) ⟨hpc, hnc, htc⟩
            have hrest : ∀ (k : Handle W N) (again : Bool),
                (tryToSend (checkIdleTimeout h p) p).handle = k →
                  Runs.Allows operate InDue k (txOps len p fuel again true k data) := by
              rintro k again rfl
              refine txOps_inOrder len p fuel _ _ _ _ hot ?_ ?_
              · rw [Multi.congr htried.settings, Multi.congr hworks.settings]
                exact hu
              · rw [htried.nextPeer, htried.addr, htried.addr]
                exact fun _ => hnc
            show Runs.Allows operate InDue (tryToSend (checkIdleTimeout h p) p).handle _
            cases hturn : tryToSend (checkIdleTimeout h p) p with
            | stop k => trivial
            | chosen k => exact hrest k again (by rw [hturn]; rfl)
            | nothing k =>
              dsimp only
              split
              · trivial
              · exact hrest k false (by rw [hturn]; rfl)

theorem frames_inOrder : ∀ (frames : List (List Byte)) (h : Handle W N), Ordered h →
    Runs.Allows operate InDue h (frames.map .frame)
  | [], _, _ => trivial
  | data :: frames, _, ho =>
    ⟨⟨ho, trivial⟩, frames_inOrder frames _ (ho.call (.onFrameRead data) id)⟩

/-- The operations of a call are due. -/
theorem opsOf_inOrder (ho : Ordered h) (c : Call) : Runs.Allows operate InDue h (opsOf h c) := by
  cases c with
  | onRxData data =>
    have hll : Due h (.lowLevel (onRxData h.hdlc data).1) := onRxData_rxOnly _ _
    exact ⟨⟨ho, hll⟩, frames_inOrder _ _ (ho.operate hll)⟩
  | getTxData len =>
    exact txOps_inOrder len h.nextPeer _ _ _ h _ ho (fun hm => (ho.addressed.single hm).2) id
  | _ => exact ⟨⟨ho, trivial⟩, trivial⟩

/-! ## Runs with their history -/

/-- The operations so far, with the states they came in. -/
abbrev History (W N : Nat) := List (Handle W N × Op W N)

/-- A condition on operations holds for those of a call. -/
def Meets (G : Handle W N → Op W N → Prop) (h : Handle W N) (c : Call) : Prop :=
  Runs.Allows operate G h (opsOf h c)

instance Meets.decidable {G : Handle W N → Op W N → Prop} [∀ h o, Decidable (G h o)]
    (h : Handle W N) (c : Call) : Decidable (Meets G h c) :=
  inferInstanceAs (Decidable (Runs.Allows _ _ _ _))

instance callsMeet_decidable {C : Handle W N → Call → Prop} [∀ h c, Decidable (C h c)] :
    ∀ (h : Handle W N) (calls : List Call), Decidable (CallsMeet C h calls)
  | _, [] => inferInstanceAs (Decidable True)
  | h, c :: calls =>
    have := callsMeet_decidable (C := C) (call h c) calls
    inferInstanceAs (Decidable (_ ∧ _))

/-- The states that come of calls whose operations meet a condition, with the operations. -/
inductive Lives (G : Handle W N → Op W N → Prop) : Handle W N → History W N → Prop where
  | init {init : InitParams} {hdlc : HdlcLl (SlotRef W)} {millis : BitVec 32} (hmin : 2 ≤ W)
      (hmax : W ≤ 7) (hll : Started hdlc) : Lives G (initHandle W N init hdlc millis) []
  | call {h : Handle W N} {past : History W N} (c : Call) (hl : Lives G h past)
      (hok : Meets G h c) : Lives G (call h c) (past ++ trace operate h (opsOf h c))

variable {G : Handle W N → Op W N → Prop} {past : History W N}

/-- The operations of several calls. -/
def history (h : Handle W N) : List Call → History W N
  | [] => []
  | c :: calls => trace operate h (opsOf h c) ++ history (call h c) calls

theorem Lives.calls : ∀ {calls : List Call} {h : Handle W N} {past : History W N}, Lives G h past →
    CallsMeet (Meets G) h calls → Lives G (calls.foldl Fd.call h) (past ++ history h calls)
  | [], _, past, hl, _ => by rwa [show history _ [] = [] from rfl, List.append_nil]
  | c :: calls, h, past, hl, hok => by
    have hrest := (hl.call c hok.1).calls hok.2
    rw [List.append_assoc] at hrest
    exact hrest

theorem smallHandle_lives {mode : Mode} (hmin : 2 ≤ W) (hmax : W ≤ 7) {calls : List Call}
    (hok : CallsMeet (Meets G) (smallHandle W N mode) calls) :
    Lives G (calls.foldl Fd.call (smallHandle W N mode)) (history (smallHandle W N mode) calls) :=
  (Lives.init hmin hmax (smallLl_started W)).calls hok

theorem Reaches.lives (hr : Reaches (Meets G) h) : ∃ past, Lives G h past := by
  induction hr with
  | init hmin hmax hll => exact ⟨[], .init hmin hmax hll⟩
  | call c _ hok ih =>
    obtain ⟨past, hl⟩ := ih
    exact ⟨_, hl.call c hok⟩

/-- The operation of the run, the state it comes in and what was before. -/
def Happens (past before : History W N) (k : Handle W N) (o : Op W N) : Prop :=
  ∃ after, past = before ++ (k, o) :: after

theorem happens_get (past : History W N) (i : Fin past.length) :
    Happens past (past.take i) (past.get i).1 (past.get i).2 := by
  refine ⟨past.drop (i + 1), ?_⟩
  rw [List.get_eq_getElem, ← List.drop_eq_getElem_cons i.isLt, List.take_append_drop]

/-- The rule for invariants about the state and the history: what the operations preserve
that meet the condition holds in every state and before every operation. -/
theorem Lives.rule {P : History W N → Handle W N → Prop}
    (hinit : ∀ init hdlc millis, 2 ≤ W → W ≤ 7 → P [] (initHandle W N init hdlc millis))
    (hstep : ∀ past k o, Ordered k → Due k o → G k o → P past k →
    P (past ++ [(k, o)]) (operate k o))
    (hl : Lives G h past) :
    Ordered h ∧ P past h ∧ ∀ before k o, Happens past before k o →
      Ordered k ∧ Due k o ∧ G k o ∧ P before k := by
  induction hl with
  | @init init hdlc millis hmin hmax hll =>
    refine ⟨⟨initHandle_addressed _ _ _, initHandle_inStep _ _ hll⟩, hinit _ _ _ hmin hmax, ?_⟩
    rintro before k o ⟨after, he⟩
    exact absurd he.symm (List.append_ne_nil_of_right_ne_nil _ (List.cons_ne_nil _ _))
  | @call h past c _ hok ih =>
    obtain ⟨ho, hP, hbefore⟩ := ih
    have hboth : Runs.Allows operate (fun k o => InDue k o ∧ G k o) h (opsOf h c) :=
      (opsOf_inOrder ho c).and hok
    obtain ⟨hlast, hall⟩ := hboth.history (P := fun past k => Ordered k ∧ P past k)
      (fun past k o hk hg => ⟨hk.1.operate hg.1.2, hstep past k o hk.1 hg.1.2 hg.2 hk.2⟩) ⟨ho, hP⟩
    rw [← call_ops] at hlast
    refine ⟨hlast.1, hlast.2, ?_⟩
    rintro before k o ⟨after, he⟩
    rcases List.append_eq_append_iff.mp he with ⟨mid, rfl, hmid⟩ | ⟨mid, hpast, hmid⟩
    · obtain ⟨hk, hg⟩ := hall mid k o after hmid
      exact ⟨hk.1, hg.1.2, hg.2, hk.2⟩
    · cases mid with
      | nil =>
        obtain ⟨hk, hg⟩ := hall [] k o after hmid.symm
        rw [List.append_nil] at hk hpast
        rw [← hpast]
        exact ⟨hk.1, hg.1.2, hg.2, hk.2⟩
      | cons m mid =>
        obtain ⟨rfl, -⟩ := List.cons.inj hmid
        exact hbefore before k o ⟨mid, hpast⟩

/-- The operations met the condition. -/
theorem Lives.met (hl : Lives G h past) : ∀ m ∈ past, G m.1 m.2 := by
  obtain ⟨-, -, hall⟩ := hl.rule (P := fun _ _ => True) (fun _ _ _ _ _ => trivial)
    fun _ _ _ _ _ _ _ => trivial
  intro m hm
  obtain ⟨before, after, he⟩ := List.append_of_mem hm
  exact (hall before m.1 m.2 ⟨after, he⟩).2.2.1

/-- No condition on operations. -/
def AnyOp (_ : Handle W N) (_ : Op W N) : Prop := True

theorem meets_any (h : Handle W N) (c : Call) : Meets AnyOp h c := by
  unfold Meets
  generalize opsOf h c = ops
  induction ops generalizing h with
  | nil => trivial
  | cons o ops ih => exact ⟨trivial, ih _⟩

theorem callsMeet_any : ∀ (calls : List Call) (h : Handle W N), CallsMeet (Meets AnyOp) h calls
  | [], _ => trivial
  | c :: calls, h => ⟨meets_any h c, callsMeet_any calls _⟩

/-- A state of the run, before one of its operations or at its end. -/
def Visits (past : History W N) (h k : Handle W N) : Prop := k = h ∨ ∃ o, (k, o) ∈ past

/-- The rule for invariants about the state alone. -/
theorem Lives.invariant {P : Handle W N → Prop}
    (hinit : ∀ init hdlc millis, 2 ≤ W → W ≤ 7 → P (initHandle W N init hdlc millis))
    (hstep : ∀ k o, Ordered k → Due k o → G k o → P k → P (operate k o)) (hl : Lives G h past) :
    ∀ k, Visits past h k → P k := by
  obtain ⟨-, hP, hbefore⟩ := hl.rule (P := fun _ k => P k) hinit fun _ k o ho hd hg hP =>
    hstep k o ho hd hg hP
  rintro k (rfl | ⟨o, ho⟩)
  · exact hP
  · obtain ⟨before, after, he⟩ := List.append_of_mem ho
    exact (hbefore before k o ⟨after, he⟩).2.2.2

/-- A state of the run, with the operations before it. -/
def Stands (past : History W N) (h : Handle W N) (before : History W N) (k : Handle W N) : Prop :=
  before = past ∧ k = h ∨ ∃ o, Happens past before k o

theorem Happens.extend {before : History W N} {k : Handle W N} {o : Op W N}
    {m : Handle W N × Op W N}
    (hh : Happens past before k o) : Happens (past ++ [m]) before k o := by
  obtain ⟨after, rfl⟩ := hh
  exact ⟨after ++ [m], by rw [List.append_assoc, List.cons_append]⟩

/-- The last operation is the last one, or one of those before. -/
theorem Happens.cases_last {before : History W N} {k : Handle W N} {o : Op W N}
    {m : Handle W N × Op W N} (hh : Happens (past ++ [m]) before k o) :
    before = past ∧ (k, o) = m ∨ Happens past before k o := by
  obtain ⟨after, he⟩ := hh
  rcases List.eq_nil_or_concat after with rfl | ⟨after', x, rfl⟩
  · obtain ⟨hpast, hm⟩ := List.append_inj' he rfl
    exact .inl ⟨hpast.symm, (List.singleton_inj.mp hm).symm⟩
  · rw [List.concat_eq_append, ← List.cons_append, ← List.append_assoc] at he
    exact .inr ⟨after', (List.append_inj' he rfl).1⟩

/-- An operation leads to the next state of the run. -/
theorem Lives.stands_next (hl : Lives G h past)
    {before : History W N} {k : Handle W N} {o : Op W N} (hh : Happens past before k o) :
    Stands past h (before ++ [(k, o)]) (operate k o) := by
  refine (hl.rule (P := fun past h => ∀ before k o, Happens past before k o →
    Stands past h (before ++ [(k, o)]) (operate k o)) ?_ ?_).2.1 before k o hh
  · rintro init hdlc millis - - before k o ⟨after, he⟩
    exact absurd he.symm (List.append_ne_nil_of_right_ne_nil _ (List.cons_ne_nil _ _))
  · intro past h o _ _ _ hP before k o' hh
    rcases hh.cases_last with ⟨rfl, he⟩ | hh
    · cases he
      exact .inl ⟨rfl, rfl⟩
    · right
      rcases hP before k o' hh with ⟨hpast, hk⟩ | ⟨o'', hh''⟩
      · exact ⟨o, [], by rw [hpast, hk]⟩
      · exact ⟨o'', hh''.extend⟩

/-- The state behind an operation of the run is the one before the next operation. -/
theorem Lives.next (hl : Lives G h past) {c c' : Fin past.length} (hc : c'.val = c.val + 1) :
    (past.get c').1 = operate (past.get c).1 (past.get c).2 := by
  rcases hl.stands_next (happens_get past c) with ⟨hall, -⟩ | ⟨o, after, he⟩
  · have hlen := congrArg List.length hall
    rw [List.length_append, List.length_take, List.length_singleton] at hlen
    have hlast := c'.isLt
    omega
  · have hbefore : (past.take c ++ [past.get c]).length = c'.val := by
      rw [List.length_append, List.length_take, List.length_singleton, hc]
      omega
    have hget := congrArg (fun past : History W N => past[c'.val]?) he
    rw [List.getElem?_append_right (Nat.le_of_eq hbefore), hbefore, Nat.sub_self,
      List.getElem?_eq_getElem c'.isLt] at hget
    exact congrArg Prod.fst (Option.some.inj hget)

end TinyProto.Fd
