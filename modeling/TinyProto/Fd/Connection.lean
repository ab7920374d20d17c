import TinyProto.Fd.Calls

/-!
# Connections

What the application sees of the connection with a peer: the calls of
`on_connect_event_cb` alternate (`connections_alternate`), and `on_read_cb` is called only
inside a connection (`reads_inside`).

Both need that `tiny_fd_disconnect` is called on an open connection only.  It puts any peer
into the state DISCONNECTING, which counts as connected and is left with a second or an
undue notification (`undue_disconnect`, `read_outside`).
-/

set_option linter.unusedSectionVars false

namespace TinyProto.Fd

open Hdlc Runs

variable {W N : Nat} [NeZero W] [NeZero N] {h h' : Handle W N} {p : Fin N}

/-! ## Histories -/

/-- The notifications about a peer. -/
def connections (p : Fin N) (log : List (Event N)) : List Bool :=
  log.filterMap fun e => match e with
    | .connect q _ connected => if q = p then some connected else none
    | _ => none

/-- The last notification was a connection. -/
def isOpen (p : Fin N) (log : List (Event N)) : Bool := (connections p log).getLastD false

/-- The values change each time, and start with the given one. -/
def Alternates : Bool → List Bool → Prop
  | _, [] => True
  | b, c :: cs => c = b ∧ Alternates (!b) cs

/-- Every I-frame is passed to the user inside a connection. -/
def ReadsInside (p : Fin N) (log : List (Event N)) : Prop :=
  ∀ before after a x, log = before ++ Event.read p a x :: after → isOpen p before = true

/-- Neither a notification nor an I-frame for the user. -/
def Event.Still : Event N → Prop
  | .connect .. | .read .. => False
  | _ => True

theorem connections_append (p : Fin N) (log es : List (Event N)) :
    connections p (log ++ es) = connections p log ++ connections p es :=
  List.filterMap_append

theorem connections_still {es : List (Event N)} (hes : ∀ e ∈ es, e.Still) :
    connections p es = [] := by
  unfold connections
  rw [List.filterMap_eq_nil_iff]
  intro e he
  have hstill := hes e he
  cases e with
  | connect => exact absurd hstill id
  | _ => rfl

theorem Alternates.concat : ∀ {b c : Bool} {cs : List Bool}, Alternates b cs →
    c = !(cs.getLastD (!b)) → Alternates b (cs ++ [c])
  | b, c, [], _, hc => ⟨by rw [hc]; exact Bool.not_not b, trivial⟩
  | b, c, d :: cs, ha, hc => by
    refine ⟨ha.1, ha.2.concat ?_⟩
    rw [hc, ha.1, Bool.not_not, List.getLastD_cons]

theorem ReadsInside.append {log es : List (Event N)} (hr : ReadsInside p log)
    (hes : ∀ before after a x, es = before ++ Event.read p a x :: after →
      isOpen p (log ++ before) = true) : ReadsInside p (log ++ es) := by
  intro before after a x he
  rcases List.append_eq_append_iff.mp he with ⟨mid, rfl, hmid⟩ | ⟨mid, hlog, hmid⟩
  · exact hes mid after a x hmid
  · cases mid with
    | nil =>
      rw [List.append_nil] at hlog
      subst hlog
      have := hes [] after a x hmid.symm
      rwa [List.append_nil] at this
    | cons e mid =>
      obtain ⟨rfl, -⟩ := List.cons.inj hmid
      exact hr before mid a x hlog

/-! ## Steps -/

/-- The notifications a step gives. -/
def Act.notices (p : Fin N) : Act N → List Bool
  | .connect q => if q = p then [true] else []
  | .disconnect q => if q = p then [false] else []
  | _ => []

/-- What a step adds to the history. -/
structure Adds (a : Act N) (h : Handle W N) (es : List (Event N)) : Prop where
  connections : ∀ p, connections p es = a.notices p
  /-- Only I-frames of linked peers are passed to the user, and before any notification. -/
  reads : ∀ before after p x y, es = before ++ Event.read p x y :: after →
    Linked h p ∧ ∀ e ∈ before, e.Still

theorem Adds.still {a : Act N} {es : List (Event N)} (ha : ∀ p, a.notices p = [])
    (hes : ∀ e ∈ es, e.Still) : Adds a h es where
  connections p := by rw [connections_still hes, ha]
  reads before after p x y he := by
    have := hes (.read p x y) (by rw [he]; simp)
    exact absurd this id

theorem Adds.notice {a : Act N} {p : Fin N} {addr : Byte} {connected : Bool}
    (ha : ∀ q, a.notices q = if p = q then [connected] else []) :
    Adds a h [.connect p addr connected] where
  connections q := by
    rw [ha]
    unfold TinyProto.Fd.connections
    split
    · next hq =>
      subst hq
      simp
    · next hq => simp [hq]
  reads before after q x y he := by
    have hmem : Event.read q x y ∈ [Event.connect p addr connected] := by
      rw [he]
      simp
    simp at hmem

theorem Event.Neutral.still {e : Event N} (he : e.Neutral) : e.Still := by
  cases e with
  | connect => exact he
  | read => exact he
  | _ => trivial

theorem Confirms.still (hc : Confirms p h h') :
    ∃ es, h'.log = h.log ++ es ∧ ∀ e ∈ es, e.Still := by
  obtain ⟨es, hlog, hsent⟩ := hc.log
  refine ⟨es, hlog, fun e he => ?_⟩
  obtain ⟨a, x, rfl⟩ := hsent e he
  trivial

theorem Adds.of_eq {a : Act N} (ha : ∀ p, a.notices p = []) (hl : h'.log = h.log) :
    ∃ es, h'.log = h.log ++ es ∧ Adds a h es :=
  ⟨[], by rw [hl, List.append_nil], .still ha (by simp)⟩

theorem Step.log {a : Act N} (hs : Step h a h') :
    ∃ es, h'.log = h.log ++ es ∧ Adds a h es := by
  cases hs with
  | quiet hq =>
    obtain ⟨es, hlog, hes⟩ := hq.log
    exact ⟨es, hlog, .still (fun p => rfl) fun e he => (hes e he).still⟩
  | register => exact Adds.of_eq (fun p => rfl) rfl
  | turn => exact Adds.of_eq (fun p => rfl) rfl
  | putS => exact Adds.of_eq (fun p => rfl) (putUSFrame_log ..)
  | putU => exact Adds.of_eq (fun p => rfl) (putUSFrame_log ..)
  | free => exact Adds.of_eq (fun p => rfl) rfl
  | @confirm p nr =>
    obtain ⟨es, hlog, hes⟩ := (confirmSentFrames_confirms h p nr).still
    exact ⟨es, hlog, .still (fun p => rfl) hes⟩
  | @reject p control =>
    obtain ⟨es, hlog, hes⟩ := (confirmSentFrames_confirms h p (nrOf control)).still
    have hr := resendAllUnconfirmedFrames_resends (confirmSentFrames h p (nrOf control)) p control
      (nrOf control)
    exact ⟨es, hr.log.trans hlog, .still (fun p => rfl) hes⟩
  | @receive p nr payload hp hl =>
    obtain ⟨es, hlog, hes⟩ := (confirmSentFrames_confirms
      (h.setControl p fun c => { c with nextNr := c.nextNr + 1 }) p nr).still
    unfold receiveFrame Handle.emit
    dsimp only
    rw [hlog, List.append_assoc]
    refine ⟨_, rfl, fun q => ?_, fun before after q x y he => ?_⟩
    · rw [connections_append, connections_still hes]
      rfl
    · -- The frame is the last event.
      rcases List.append_eq_append_iff.mp he with ⟨mid, rfl, hmid⟩ | ⟨mid, hes', hmid⟩
      · cases mid with
        | nil =>
          cases hmid
          rw [List.append_nil]
          exact ⟨hl, hes⟩
        | cons e mid =>
          obtain ⟨-, hnil⟩ := List.cons.inj hmid
          have := congrArg List.length hnil
          simp at this
      · cases mid with
        | nil =>
          rw [List.append_nil] at hes'
          subst hes'
          cases hmid
          exact ⟨hl, hes⟩
        | cons e mid =>
          obtain ⟨rfl, -⟩ := List.cons.inj hmid
          have := hes (.read q x y) (by rw [hes']; simp)
          exact absurd this id
  | resend => exact Adds.of_eq (fun p => rfl) (resendAllUnconfirmedFrames_resends h _ _ _).log
  | @connect p _ hl =>
    obtain ⟨x, hlog⟩ := (switchToConnectedState_switches h (ne_connected hl)).log
    exact ⟨_, hlog, .notice fun q => rfl⟩
  | @disconnect p _ hst =>
    obtain ⟨x, hlog⟩ := (switchToDisconnectedState_switches h hst).log
    exact ⟨_, hlog, .notice fun q => rfl⟩
  | reset => exact Adds.of_eq (fun p => rfl) rfl
  | request => exact Adds.of_eq (fun p => rfl) rfl
  | hangUp => exact Adds.of_eq (fun p => rfl) rfl
  | @chooseService p i poll =>
    obtain ⟨data, hlog⟩ := markChosen_log h p (.sSlot i) poll
    exact ⟨_, hlog, .still (fun p => rfl) (by simp [Event.Still])⟩
  | @chooseNext p i poll =>
    obtain ⟨data, hlog⟩ := markChosen_log
      ((refreshSlot h p i).setControl p fun c => { c with nextNs := c.nextNs + 1 }) p (.iSlot i) poll
    exact ⟨_, hlog, .still (fun p => rfl) (by simp [Event.Still])⟩
  | @chooseRequested p i ns poll =>
    obtain ⟨data, hlog⟩ := markChosen_log (refreshSlot h p i) p (.iSlot i) poll
    exact ⟨_, hlog, .still (fun p => rfl) (by simp [Event.Still])⟩
  | @accept k p data _ _ hput =>
    have hlog : k.log = h.log := by
      obtain ⟨i, -, -, rfl⟩ := putIFrame_some hput
      rfl
    exact ⟨[.accepted p data], by rw [← hlog]; rfl, .still (fun p => rfl) (by simp [Event.Still])⟩

/-- A connection is open as long as the state of the peer says so. -/
def OpenAgrees (h : Handle W N) : Prop := ∀ p, Linked h p ↔ isOpen p h.log = true

theorem isOpen_append (log : List (Event N)) {a : Act N} {es : List (Event N)}
    (hes : Adds a h es) (p : Fin N) :
    isOpen p (log ++ es) = (a.notices p).getLastD (isOpen p log) := by
  unfold isOpen
  rw [connections_append, hes.connections]
  cases hn : a.notices p with
  | nil => rw [List.append_nil, List.getLastD_nil]
  | cons b bs =>
    rw [List.getLastD_eq_getLast?, List.getLast?_append_of_ne_nil _ (by simp),
      List.getLastD_cons, List.getLastD_eq_getLast?, List.getLast?_cons]
    simp

theorem Act.notices_of_not_switching {a : Act N} (ha : ¬a.Switching p) : a.notices p = [] := by
  cases a with
  | connect => exact if_neg ha
  | disconnect => exact if_neg ha
  | _ => rfl

/-- The state of a peer follows the notifications, if only open connections are hung up. -/
theorem Step.linked {a : Act N} (hs : Step h a h') (hhang : a = .hangUp p → Linked h p)
    {b : Bool} (hb : Linked h p ↔ b = true) :
    Linked h' p ↔ (a.notices p).getLastD b = true := by
  by_cases hsw : a.Switching p
  · cases a with
    | connect q =>
      obtain rfl : q = p := hsw
      cases hs with
      | connect _ hl =>
        have hst : ((switchToConnectedState h q).peers q).state = .connected := by
          rw [switchToConnectedState_peer h (ne_connected hl)]
        have hn : (Act.connect q).notices q = [true] := if_pos rfl
        rw [hn]
        exact ⟨fun _ => rfl, fun _ => .inl hst⟩
    | disconnect q =>
      obtain rfl : q = p := hsw
      cases hs with
      | disconnect =>
        have hn : (Act.disconnect q).notices q = [false] := if_pos rfl
        rw [hn]
        exact ⟨fun hl => absurd hl (not_linked_of_disconnected (disconnected_state h q)), nofun⟩
    | request q =>
      obtain rfl : q = p := hsw
      cases hs with
      | request hl =>
        refine ⟨fun hl' => ?_, fun hb' => absurd (hb.mpr hb') hl⟩
        have hst : ((h.setPeer q fun x => { x with state := .connecting }).peers q).state =
            .connecting := by
          rw [setPeer_self]
        exact absurd hl' (not_linked_iff.mpr (.inr hst))
    | hangUp q =>
      obtain rfl : q = p := hsw
      cases hs with
      | hangUp =>
        refine ⟨fun _ => hb.mp (hhang rfl), fun _ => .inr ?_⟩
        rw [setPeer_self]
    | _ => exact absurd hsw id
  · have hst : (h'.peers p).state = (h.peers p).state := by
      rcases hs.state p with hst | hsw'
      · exact hst
      · exact absurd hsw' hsw
    rw [Act.notices_of_not_switching hsw]
    unfold Linked at hb ⊢
    rw [hst]
    exact hb

theorem OpenAgrees.step {a : Act N} (ho : OpenAgrees h) (hs : Step h a h')
    (hhang : ∀ p, a = .hangUp p → Linked h p) : OpenAgrees h' := by
  obtain ⟨es, hlog, hes⟩ := hs.log
  intro p
  rw [hlog, isOpen_append h.log hes p]
  exact hs.linked (hhang p) (ho p)

theorem OpenAgrees.init (init : InitParams) (hdlc : HdlcLl (SlotRef W)) (millis : BitVec 32) :
    OpenAgrees (initHandle W N init hdlc millis) := by
  intro p
  constructor
  · intro hl
    exact absurd hl (not_linked_of_disconnected rfl)
  · intro ho
    cases ho

/-! ## Data inside a connection -/

/-- Only open connections are hung up. -/
def HangUpGuard (h : Handle W N) (a : Act N) : Prop := ∀ p, a = .hangUp p → Linked h p

/-- `tiny_fd_disconnect` is called on an open connection only, unless there is no room for
the DISC. -/
def HangsUpOpen (h : Handle W N) (c : Call) : Prop :=
  c = .disconnect → h.sQueue.hasFreeSlots → Linked h 0

theorem hangUpGuard_fair : Fair (HangUpGuard : Handle W N → Act N → Prop) := by
  rintro h a ha p rfl
  exact not_not.mp ha

theorem linked_congr (hst : (h'.peers p).state = (h.peers p).state) : Linked h' p ↔ Linked h p := by
  unfold Linked
  rw [hst]

theorem frameAct_ne_hangUp {control : Byte} {a : Act N} (ha : frameAct h p control = some a)
    (q : Fin N) : a ≠ .hangUp q ∧ a ≠ .disconnect q := by
  unfold frameAct at ha
  split at ha
  · split at ha
    · cases ha
      exact ⟨nofun, nofun⟩
    · cases ha
  · split at ha
    · cases ha
      split
      · exact ⟨nofun, nofun⟩
      · exact ⟨nofun, nofun⟩
    · split at ha
      · cases ha
        exact ⟨nofun, nofun⟩
      · cases ha
        exact ⟨nofun, nofun⟩

theorem hangUpGuard_frames (h : Handle W N) (data : List Byte) : FrameOk HangUpGuard h data := by
  rintro address control payload p - -
  exact ⟨fun h₁ a _ hact q ha => absurd ha (frameAct_ne_hangUp hact q).1, fun _ _ _ => nofun,
    fun _ _ _ _ _ => nofun⟩

theorem hangUpGuard_allows {c : Call} (hok : HangsUpOpen h c) : CallAllowed HangUpGuard h c := by
  refine ⟨(callOk_any h c).mono fun k data _ => hangUpGuard_frames k data, ?_⟩
  rintro rfl k hst hroom p hp
  cases hp
  exact (linked_congr hst).mpr (hok rfl hroom)

theorem ReadsInside.step {a : Act N} (hr : ReadsInside p h.log) (ho : OpenAgrees h)
    (hs : Step h a h') : ReadsInside p h'.log := by
  obtain ⟨es, hlog, hes⟩ := hs.log
  rw [hlog]
  refine hr.append fun before after x y he => ?_
  obtain ⟨hl, hstill⟩ := hes.reads before after p x y he
  unfold isOpen
  rw [connections_append, connections_still hstill, List.append_nil]
  exact (ho p).mp hl

/-- If only open connections are hung up, every I-frame is passed to the user inside a
connection. -/
theorem reads_inside (hr : Reaches HangsUpOpen h) (p : Fin N) : ReadsInside p h.log := by
  have hinv := hr.invariant (P := fun k => OpenAgrees k ∧ ReadsInside p k.log) hangUpGuard_fair
    (fun _ _ _ => nofun) (fun _ _ => hangUpGuard_allows) ?_ ?_
  · exact hinv.2.2.2
  · intro init hdlc millis
    refine ⟨.init init hdlc millis, fun before after a x he => ?_⟩
    have := congrArg List.length he
    simp [initHandle] at this
  · rintro k a k' - - ⟨ho, hk⟩ hg hs
    exact ⟨ho.step hs hg, hk.step ho hs⟩

/-- A connection that delivers a frame. -/
def openAndReceive : List Call := [.onFrameRead [0x03, 0x2F], .onFrameRead [0x03, 0x00, 0xAA]]

theorem reads_inside_openAndReceive :
    ReadsInside 0 (openAndReceive.foldl call (smallHandle 2 1 .abm)).log := by
  refine reads_inside ((smallHandle_reaches _ .abm (by decide) (by decide)).calls ?_) 0
  exact ⟨nofun, nofun, trivial⟩

/-- An I-frame after `tiny_fd_disconnect` without a connection. -/
def hangUpAndReceive : List Call := [.disconnect, .onFrameRead [0x03, 0x00, 0xAA]]

/-- Without a connection `tiny_fd_disconnect` makes the handle take I-frames. -/
theorem read_outside : ∃ h : Handle 2 1, Reachable AnyFrame h ∧ ¬ReadsInside 0 h.log := by
  refine ⟨hangUpAndReceive.foldl call (smallHandle 2 1 .abm),
    (smallHandle_reachable _ .abm (by decide) (by decide)).calls (callsOk_any _ _), fun hr => ?_⟩
  have hlog : (hangUpAndReceive.foldl call (smallHandle 2 1 .abm) : Handle 2 1).log =
      [.frameIn [0x03, 0x00, 0xAA]] ++ .read 0 0 [0xAA] :: [] := by
    decide +kernel
  exact absurd (hr _ _ _ _ hlog) (by decide)

/-! ## Alternation -/

/-- Only open connections are hung up or closed. -/
def CloseGuard (h : Handle W N) (a : Act N) : Prop :=
  ∀ p, a = .hangUp p ∨ a = .disconnect p → Linked h p

/-- The frame closes no connection that was requested and not established. -/
def NotConnecting (h : Handle W N) (data : List Byte) : Prop :=
  ∀ address control payload p, data = address :: control :: payload →
    addressFieldToPeer h address = some p → Closing control → (h.peers p).state ≠ .connecting

/-- Besides, DISC, DM and FRMR do not come while a connection is requested. -/
def Orderly (h : Handle W N) (c : Call) : Prop := HangsUpOpen h c ∧ CallOk NotConnecting h c

theorem closeGuard_fair : Fair (CloseGuard : Handle W N → Act N → Prop) := by
  rintro h a ha p (rfl | rfl)
  · exact not_not.mp ha
  · exact not_not.mp ha

theorem closeGuard_frames {data : List Byte} (hn : NotConnecting h data) :
    FrameOk CloseGuard h data := by
  rintro address control payload p hdata hp
  refine ⟨fun h₁ a _ hact q ha => ?_, fun _ _ q hq => ?_, fun h₁ hst hne hc q hq => ?_⟩
  · obtain ⟨hhang, hclose⟩ := frameAct_ne_hangUp hact q
    exact absurd ha (not_or.mpr ⟨hhang, hclose⟩)
  · rcases hq with hq | hq
    · cases hq
    · cases hq
  · rcases hq with hq | hq
    · cases hq
    · cases hq
      have hnc := hn address control payload p hdata hp hc
      refine (linked_congr hst).mpr (not_not.mp fun hl => ?_)
      rcases not_linked_iff.mp hl with hd | hd
      · exact hne hd
      · exact hnc hd

theorem closeGuard_allows {c : Call} (hok : Orderly h c) : CallAllowed CloseGuard h c := by
  refine ⟨hok.2.mono fun k data => closeGuard_frames, ?_⟩
  rintro rfl k hst hroom p hp
  rcases hp with hp | hp
  · cases hp
    exact (linked_congr hst).mpr (hok.1 rfl hroom)
  · cases hp

theorem Alternates.step {a : Act N} (ha : Alternates true (connections p h.log))
    (ho : OpenAgrees h) (hg : CloseGuard h a) (hs : Step h a h') :
    Alternates true (connections p h'.log) := by
  obtain ⟨es, hlog, hes⟩ := hs.log
  rw [hlog, connections_append, hes.connections]
  by_cases hsw : a.Switching p
  · cases a with
    | connect q =>
      obtain rfl : q = p := hsw
      cases hs with
      | connect _ hl =>
        have hclosed : isOpen q h.log = false := eq_false_of_ne_true (mt (ho q).mpr hl)
        have hn : (Act.connect q).notices q = [true] := if_pos rfl
        rw [hn]
        exact ha.concat (congrArg not hclosed).symm
    | disconnect q =>
      obtain rfl : q = p := hsw
      have hopen : isOpen q h.log = true := (ho q).mp (hg q (.inr rfl))
      have hn : (Act.disconnect q).notices q = [false] := if_pos rfl
      rw [hn]
      exact ha.concat (congrArg not hopen).symm
    | request =>
      unfold Act.notices
      rw [List.append_nil]
      exact ha
    | hangUp =>
      unfold Act.notices
      rw [List.append_nil]
      exact ha
    | _ => exact absurd hsw id
  · rw [Act.notices_of_not_switching hsw, List.append_nil]
    exact ha

/-- If only open connections are hung up, and a request for a connection is not answered by
DISC, DM or FRMR, the notifications alternate. -/
theorem connections_alternate (hr : Reaches Orderly h) (p : Fin N) :
    Alternates true (connections p h.log) := by
  have hinv := hr.invariant (P := fun k => OpenAgrees k ∧ Alternates true (connections p k.log))
    closeGuard_fair ?_ (fun _ _ => closeGuard_allows) ?_ ?_
  · exact hinv.2.2.2
  · rintro k i q (hq | hq)
    · cases hq
    · cases hq
  · intro init hdlc millis
    exact ⟨.init init hdlc millis, trivial⟩
  · rintro k a k' - - ⟨ho, hk⟩ hg hs
    exact ⟨ho.step hs fun q hq => hg q (.inl hq), hk.step ho hg hs⟩

/-- A connection that the peer closes. -/
def openAndClose : List Call := [.onFrameRead [0x03, 0x2F], .onFrameRead [0x03, 0x43]]

theorem connections_alternate_openAndClose :
    Alternates true (connections 0 (openAndClose.foldl call (smallHandle 2 1 .abm)).log) := by
  refine connections_alternate ((smallHandle_reaches _ .abm (by decide) (by decide)).calls ?_) 0
  refine ⟨⟨nofun, ?_⟩, ⟨nofun, ?_⟩, trivial⟩
  · rintro address control payload p - - - hp
    revert p
    decide +kernel
  · rintro address control payload p - - - hp
    revert p
    decide +kernel

/-- SABM after a while, and DM in answer. -/
def requestAndRefuse : List Call := [.tick 1000, .getTxData 16, .onFrameRead [0x01, 0x0F]]

/-- A refused request is reported as a lost connection. -/
theorem undue_disconnect : ∃ h : Handle 2 1, Reachable AnyFrame h ∧
    ¬Alternates true (connections 0 h.log) := by
  refine ⟨requestAndRefuse.foldl call (smallHandle 2 1 .abm),
    (smallHandle_reachable _ .abm (by decide) (by decide)).calls (callsOk_any _ _), fun ha => ?_⟩
  have hc : connections 0 (requestAndRefuse.foldl call (smallHandle 2 1 .abm) : Handle 2 1).log =
      [false] := by
    decide +kernel
  rw [hc] at ha
  exact absurd ha.1 (by decide)

end TinyProto.Fd
