import TinyProto.Fd.Mirror
import TinyProto.Fd.Requests

/-!
# Calls of a party

A station in ABM that handles frames other than RSET, checks its timeouts, takes payloads and
sends whole frames is a party of the numbered exchange all the time.
-/

set_option linter.unusedSectionVars false

namespace TinyProto.Fd

open Hdlc Runs Relation SlotWindow GoBackN

variable {W N : Nat} [NeZero W] [NeZero N] {h h₁ : Handle W N} {p : Fin N}
  {s : Party 3 (List Byte)}

/-! ## Stations -/

/-- The slots of the I-frames hold I-frames. -/
def Numbers (h : Handle W N) : Prop :=
  ∀ i, (h.iQueue.frames i).type ≠ .free → isIFrame (h.iQueue.frames i).control = true

theorem Numbers.around {A : Handle W N → Prop} (hn : Numbers h) (ha : Around A h h₁) :
    Numbers h₁ := by
  cases ha with
  | same _ _ _ hq => 
    intro i
    rw [hq]
    exact hn i
  | works hw =>
    intro i ht
    rcases hw.iQueue i with hsame | ⟨-, hfree⟩
    · rw [hsame] at ht ⊢
      exact hn i ht
    · rw [hfree] at ht
      exact absurd rfl ht
  | stores _ _ hs =>
    rcases hs.iQueue with hsame | ⟨j, data, -, hset⟩
    · intro i
      rw [hsame]
      exact hn i
    · intro i ht
      have hnumber : ∀ ns : Seq, isIFrame (ns.setWidth 8 <<< 1) = true := by decide
      rw [hset] at ht ⊢
      by_cases hij : i = j
      · rw [hij, Queue.setFrame_self]
        exact hnumber _
      · rw [Queue.setFrame_ne _ hij] at ht ⊢
        exact hn i ht
  | register _ _ _ hr =>
    intro i
    rw [hr]
    exact hn i

theorem Numbers.call (hn : Numbers h) (ho : Ordered h) (c : Call) (hc : ¬c.Transmits) :
    Numbers (call h c) :=
  call_rule (A := fun _ => True) ho.addressed hc (fun _ _ _ => trivial)
    (fun _ _ _ hk ha => hk.around ha) hn

theorem Numbers.attempt (hn : Numbers h) : Numbers (tryToSend h p).handle := by
  have hsel := tryToSend_selects h p
  have ha := tryToSend_attempted h p
  generalize (tryToSend h p).handle = k at hsel ha
  have htype : ∀ i, (k.iQueue.frames i).type = (h.iQueue.frames i).type := fun i => (hsel.slots i).1
  cases ha with
  | started _ hc =>
    intro i ht
    exact (chosen_kinds hc i).trans (hn i (htype i ▸ ht))
  | empty _ _ hc =>
    intro i ht
    exact (chosen_kinds hc i).trans (hn i (htype i ▸ ht))
  | rested => exact hn
  | returned => exact hn

theorem Numbers.operate (hn : Numbers h) {o : Op W N} (ho : Ordered h) (hd : Due h o) :
    Numbers (operate h o) := by
  cases o with
  | frame data => exact hn.call ho (.onFrameRead data) id
  | check p => exact hn.around (A := fun _ => True) (.works (checkIdleTimeout_works h p))
  | attempt p => exact hn.attempt
  | run len =>
    obtain ⟨ll, q, next, marker, sending, he, -⟩ := runTx_form ho.inStep len
    show Numbers (runTx h len).1
    rw [he]
    exact hn
  | lowLevel hdlc => exact hn
  | sendPacketTo address data => exact hn.call ho (.sendPacketTo address data) id
  | sendUiPacketTo address data => exact hn.call ho (.sendUiPacketTo address data) id
  | disconnect => exact hn.call ho .disconnect id
  | registerPeer address => exact hn.call ho (.registerPeer address) id
  | setKaTimeout keepAlive => exact hn
  | tick ms => exact hn

/-- A station in ABM. -/
structure InAbm (h : Handle W N) : Prop where
  max : W ≤ 7
  ordered : Ordered h
  agreement : InAgreement h
  abm : h.settings.mode = .abm
  numbers : Numbers h

theorem InAbm.not_multi (hi : InAbm h) : ¬Multi h := fun hm => hm.2 hi.abm

theorem InAbm.nextPeer (hi : InAbm h) : h.nextPeer = 0 :=
  (hi.ordered.addressed.single hi.not_multi).2

theorem InAbm.registered (hi : InAbm h) (p : Fin N) : (h.peers p).addr ≠ invalidAddr := by
  rw [(hi.ordered.addressed.single hi.not_multi).1 p]
  intro hinv
  have hbits := hi.ordered.addressed.station
  rw [hinv] at hbits
  exact invalidAddr_bits hbits

theorem InAbm.live (hi : InAbm h) : Live h 0 :=
  hi.ordered.addressed.live_of_unique (hi.registered 0) fun _ => rfl

/-- There is one peer. -/
theorem InAbm.found (hi : InAbm h) {a : Byte} (hf : addressFieldToPeer h a = some p) : p = 0 := by
  rw [addressFieldToPeer_eq, if_pos hi.not_multi] at hf
  split at hf
  · cases hf
  · split at hf
    · exact (Option.some.inj hf).symm
    · cases hf

theorem InAbm.agrees (hi : InAbm h) : Agrees h 0 := hi.agreement.agrees 0 hi.live

/-- The frame is not an RSET. -/
def NoReset : List Byte → Prop
  | _ :: control :: _ => isUFrame control = true → uTypeOf control ≠ UType.rset.bits
  | _ => True

theorem NoReset.idle {data : List Byte} (hn : NoReset data) : ResetIdle h data := by
  unfold ResetIdle
  split
  · exact fun _ _ hu hr => absurd hr (hn hu)
  · trivial

/-- Operations without RSET are steps without it. -/
theorem operate_unreset {o : Op W N} (ho : Ordered h) (hd : Due h o)
    (hok : ∀ data, o = .frame data → NoReset data) : Run Step ResetGuard h (operate h o) := by
  have hfair := resetGuard_fair (W := W) (N := N)
  have hw := ho.addressed
  have hquiet : ∀ {k : Handle W N}, k.settings = h.settings → k.iQueue = h.iQueue →
      k.sQueue = h.sQueue → k.nextPeer = h.nextPeer → k.log = h.log → k.peers = h.peers →
        Run Step ResetGuard h k := by
    intro k hset hiq hsq hnext hlog hp
    refine quiet_run hfair ⟨hset, hiq, hsq, hnext, ⟨[], by rw [hlog, List.append_nil], by simp⟩, ?_⟩
    intro q
    rw [hp]
    exact .refl _
  cases o with
  | frame data => exact onFrameRead_run hfair hw (hok data rfl).idle.frameOk
  | check p => exact checkIdleTimeout_run hfair hw hd.1
  | attempt p => exact tryToSend_run hfair hw hd.1
  | run len => exact runTx_run hfair (fun _ _ => trivial) len
  | lowLevel hdlc => exact hquiet rfl rfl rfl rfl rfl rfl
  | sendPacketTo address data => exact sendPacketTo_run hfair hw address data
  | sendUiPacketTo address data => exact sendUiPacketTo_run hfair address data
  | disconnect => exact disconnect_call_run hfair fun _ _ _ => trivial
  | registerPeer address => exact registerPeer_run hfair address
  | setKaTimeout keepAlive => exact hquiet rfl rfl rfl rfl rfl rfl
  | tick ms => exact hquiet rfl rfl rfl rfl rfl rfl

theorem InAbm.operate (hi : InAbm h) {o : Op W N} (hd : Due h o)
    (hok : ∀ data, o = .frame data → NoReset data) : InAbm (operate h o) where
  max := hi.max
  ordered := hi.ordered.operate hd
  agreement := by
    have hrun := operate_unreset hi.ordered hd hok
    have hstep : ∀ (k : Handle W N) (a : Act N) (k' : Handle W N), Addressed k ∧ InAgreement k →
        ResetGuard k a → Step k a k' → Addressed k' ∧ InAgreement k' :=
      fun k a k' hk hg hs => ⟨hk.1.step hs, hk.2.step hi.max hk.1 hg hs⟩
    exact (hrun.preserves hstep ⟨hi.ordered.addressed, hi.agreement⟩).2
  abm := by
    rw [operate_settings hi.ordered hd]
    exact hi.abm
  numbers := hi.numbers.operate hi.ordered hd

/-! ## Payloads -/

/-- A payload is taken, and its number is free. -/
theorem Mirrors.store (hm : Mirrors h [] s) (ha : (h.peers 0).canAcceptIFrames = true)
    {i : Fin W} {data : List Byte} (hi₁ : InAbm (h.store 0 i data)) :
    s.Works { s with accepted := s.accepted ++ [data] } ∧
      Mirrors (h.store 0 i data) [] { s with accepted := s.accepted ++ [data] } := by
  have hl := hm.accepts ha
  have hlog : (h.store 0 i data).log = h.log ++ [.accepted 0 data] := rfl
  have htop := hm.top
  have hu : Fd.unconfirmed 0 (h.store 0 i data).log = (s.accepted ++ [data]).drop s.low := by
    rw [hlog, unconfirmed_accepted, hm.unconfirmed, List.drop_append_of_le_length htop]
  have hpeer : (h.store 0 i data).peers 0 = { h.peers 0 with
      iQueueControl := (h.control 0).extend
      canAcceptIFrames := !(h.control 0).extend.txFull } := setPeer_self ..
  have hlinked : Linked (h.store 0 i data) 0 ↔ Linked h 0 := by
    unfold Linked
    rw [hpeer]
  obtain ⟨l, hq, hsq⟩ := hm.queue
  refine ⟨.accept data (hm.isOpen.mpr hl) ?_, ?_⟩
  · have hshort := hi₁.agrees.length_lt
    rw [hu, List.length_drop, List.length_append, List.length_singleton] at hshort
    omega
  · refine
      { queue := ⟨l, hq.congr rfl (by rw [hpeer]), hsq⟩
        isOpen := hm.isOpen.trans hlinked.symm
        accepted := ?_
        got := (filterMap_concat_none rfl _).trans hm.got
        confirmed := (filterMap_concat_none rfl _).trans hm.confirmed
        unconfirmed := hu
        low := hm.low
        top := ?_
        confirmNs := ?_
        nextNr := fun _ => ?_
        accepts := fun _ => hlinked.mpr hl }
    · rw [hlog, acceptedFor_concat, hm.accepted]
    · rw [List.length_append]
      exact Nat.le_add_right_of_le htop
    · unfold Handle.control
      rw [hpeer]
      exact hm.confirmNs
    · unfold Handle.control
      rw [hpeer]
      exact hm.nextNr hl

theorem holdFlags_unnoticed (h : Handle W N) : Unnoticed h (holdFlags h 0) := by
  exact (Unnoticed.setEvents h fun e => { e with queueHasFreeSlots := false }).trans (.setPeer _ rfl Iff.rfl rfl rfl fun ha => absurd ha Bool.false_ne_true)

/-- What becomes of a payload. -/
theorem Mirrors.sends (hm : Mirrors h [] s) (hi : InAbm h) (address : Byte) (data : List Byte) :
    (sendPacketTo h address data).2 = .success ∧
        s.Works { s with accepted := s.accepted ++ [data] } ∧
        Mirrors (sendPacketTo h address data).1 [] { s with accepted := s.accepted ++ [data] } ∨
      (sendPacketTo h address data).2 ≠ .success ∧ Mirrors (sendPacketTo h address data).1 [] s := by
  have hnext : InAbm (sendPacketTo h address data).1 :=
    hi.operate (o := .sendPacketTo address data) trivial nofun
  revert hnext
  unfold sendPacketTo
  cases hp : addressFieldToPeer h (sendAddress h address) with
  | none => exact fun _ => .inr ⟨Status.noConfusion, hm⟩
  | some p =>
    obtain rfl := hi.found hp
    dsimp only
    split
    · exact fun _ => .inr ⟨Status.noConfusion, hm⟩
    · split
      · next ha =>
        split
        · intro hnext
          cases hput : putIFrame? (holdFlags h 0) 0 data with
          | none =>
            right
            have hput' : putIFrame? ((h.setPeer 0 fun x =>
              { x with canAcceptIFrames := false }).setEvents fun e =>
                { e with queueHasFreeSlots := false }) 0 data = none := hput
            have hheld : Mirrors (holdFlags h 0) [] s :=
              hm.unnoticed (holdFlags_unnoticed h) rfl
            unfold takePacket
            rw [hput']
            refine ⟨Status.noConfusion, ?_⟩
            dsimp only
            split
            · exact hheld.unnoticed (.setPeer (holdFlags h 0) rfl Iff.rfl rfl rfl
                fun _ => .inr (hheld.isOpen.mp (hm.isOpen.mpr (hm.accepts ha)))) rfl
            · exact hheld
          | some m =>
            obtain ⟨i, hi', he⟩ := takePacket_stored hput
            have he' : takePacket ((h.setPeer 0 fun x =>
              { x with canAcceptIFrames := false }).setEvents fun e =>
                { e with queueHasFreeSlots := false }) 0 data = (h.store 0 i data, .success) := he
            rw [he'] at hnext ⊢
            exact .inl ⟨rfl, hm.store ha hnext⟩
        · exact fun _ => .inr ⟨Status.noConfusion, hm⟩
      · exact fun _ => .inr ⟨Status.noConfusion, hm⟩

/-! ## Frames with a number -/

/-- What confirmations rely on. -/
structure Windowed (h : Handle W N) : Prop where
  owned : Owned h
  live : Live h 0
  agrees : Agrees h 0

theorem InAbm.windowed (hi : InAbm h) : Windowed h := ⟨hi.agreement.owned, hi.live, hi.agrees⟩

theorem Windowed.congr (hw : Windowed h) (hset : h₁.settings = h.settings)
    (hq : h₁.iQueue = h.iQueue) (ha : ∀ q, (h₁.peers q).addr = (h.peers q).addr)
    (hlast : (h₁.control 0).lastNs = (h.control 0).lastNs)
    (hconfirm : (h₁.control 0).confirmNs = (h.control 0).confirmNs)
    (hu : unconfirmed 0 h₁.log = unconfirmed 0 h.log) : Windowed h₁ := by
  have hst := sameStations_of_addr hset ha
  refine ⟨hw.owned.keep hst fun i hi => ?_, (hst 0 hw.live).1, hw.agrees.congr ?_ hlast hconfirm hu⟩
  · rw [hq] at hi ⊢
    exact ⟨hi, rfl⟩
  · unfold Handle.window
    rw [hq, ha]

theorem Windowed.setPeer (hw : Windowed h) {f : Peer → Peer}
    (ha : (f (h.peers 0)).addr = (h.peers 0).addr)
    (hlast : (f (h.peers 0)).iQueueControl.lastNs = (h.control 0).lastNs)
    (hconfirm : (f (h.peers 0)).iQueueControl.confirmNs = (h.control 0).confirmNs) :
    Windowed (h.setPeer 0 f) := by
  refine hw.congr rfl rfl (setPeer_addr h 0 ha) ?_ ?_ rfl
  · rw [setPeer_control, hlast]
  · rw [setPeer_control, hconfirm]

theorem Windowed.putUSFrame (hw : Windowed h) (type : QueueType) (address control : Byte)
    (payload : List Byte) : Windowed (putUSFrame h type address control payload) := by
  obtain ⟨q, b, he⟩ := putUSFrame_eq h type address control payload
  rw [he]
  exact hw.congr rfl rfl (fun _ => rfl) rfl rfl rfl

/-- The handle is what the party makes of itself about a frame. -/
def Replies (h : Handle W N) (s : Party 3 (List Byte)) (f : Frame 3 (List Byte)) : Prop :=
  ∃ s', s.Answers f s' ∧ s'.accepted = s.accepted ∧ Mirrors h [] s'

theorem Follows.replies {s₁ s₂ : Party 3 (List Byte)} {f : Frame 3 (List Byte)}
    (hf : Follows h s₂) (hbefore : s.Emits [] s₁) (ha : s₁.accepted = s.accepted)
    (hh : s₁.Hears f s₂) : Replies h s f := by
  obtain ⟨s', hs, ha', hm⟩ := hf
  exact ⟨s', .intro hbefore hh hs, (ha'.trans hh.accepted).trans ha, hm⟩

/-- The frame tells the party nothing. -/
theorem Follows.ignores (hf : Follows h s) (f : Frame 3 (List Byte)) : Replies h s f :=
  hf.replies .refl rfl .ignore

theorem Mirrors.confirms (hm : Mirrors h [] s) (hw : Windowed h) (hl : Linked h 0) (nr : Seq) :
    Mirrors (confirmSentFrames h 0 nr) [] (s.confirm nr) ∧
      Linked (confirmSentFrames h 0 nr) 0 := by
  have hnew := hm.confirm hw.owned hw.live hw.agrees hl nr
  exact ⟨hnew, hnew.isOpen.mp (hm.isOpen.mpr hl)⟩

/-- N(R) is looked at once something is queued, and something may be queued then. -/
theorem Follows.confirms {k : Handle W N} {f : Frame 3 (List Byte)} {nr : Seq} (hf : Follows h s)
    (hw : Windowed h) (hl : Linked h 0) (hn : f.expects = some nr)
    (hk : ∀ s', Mirrors (confirmSentFrames h 0 nr) [] s' → Linked (confirmSentFrames h 0 nr) 0 →
      Follows k s') : Replies k s f := by
  obtain ⟨s', hs, ha, hm⟩ := hf
  obtain ⟨hnew, hl'⟩ := hm.confirms hw hl nr
  exact (hk _ hnew hl').replies hs ha (.confirm (hm.isOpen.mpr hl) hn)

/-- An I-frame is read, or confirms something at least. -/
theorem Mirrors.onIFrameRead (hm : Mirrors h [] s) (hw : Windowed h) (hl : Linked h 0)
    (control : Byte) (payload : List Byte) (g : Nat) :
    Replies (Fd.onIFrameRead h 0 control payload) s
      (.data g (nsOf control) (nrOf control) payload) := by
  have ho := hm.isOpen.mpr hl
  unfold Fd.onIFrameRead checkReceivedFrame
  by_cases hns : nsOf control = (h.control 0).nextNr
  · rw [if_pos hns]
    have hw' : Windowed (Fd.advance h 0) :=
      (hw.setPeer rfl rfl rfl).setPeer rfl (by rw [setPeer_control]; rfl) (by rw [setPeer_control]; rfl)
    have hadv := hm.advance
    obtain ⟨hconf, hl'⟩ := hadv.confirms hw' (hadv.isOpen.mp ho) (nrOf control)
    have hread := hconf.emitRead (callbackAddress (confirmSentFrames (Fd.advance h 0) 0
      (nrOf control)) 0) g payload
    have hhears : s.Hears (.data g (nsOf control) (nrOf control) payload)
        ((s.read g payload).confirm (nrOf control)) := by
      rw [hns, hm.nextNr hl]
      exact .read ho
    refine Follows.replies ?_ .refl rfl hhears
    show Follows (deliver (confirmSentFrames (Fd.advance h 0) 0 (nrOf control)) 0 payload) _
    unfold deliver
    dsimp only
    split
    · exact hread.putS (hread.isOpen.mp ho) .rr (.inl rfl) (.inl rfl)
    · exact hread.follows
  · rw [if_neg hns]
    split
    · next hrej =>
      split at hrej
      · cases hrej
        -- The REJ is queued before N(R) is looked at.
        have hmarked : Mirrors (h.setPeer 0 fun x => { x with sentReject := true }) [] s :=
          hm.unnoticed (.setPeer h rfl Iff.rfl rfl rfl .inl) rfl
        have hput : Follows (putSFrame (h.setPeer 0 fun x => { x with sentReject := true }) 0 crBit
            .rej 0) s :=
          hmarked.putS (linked_setPeer rfl hl) .rej (.inr rfl) (.inl rfl)
        have hw' : Windowed (putSFrame (h.setPeer 0 fun x => { x with sentReject := true }) 0 crBit
            .rej 0) := (hw.setPeer rfl rfl rfl).putUSFrame ..
        refine hput.confirms hw' ?_ rfl fun s' hs' _ => hs'.follows
        exact (Unnoticed.putUSFrame ..).linked.mpr (linked_setPeer rfl hl)
      · cases hrej
        exact hm.follows.confirms hw hl rfl fun s' hs' _ => hs'.follows

/-- An S-frame confirms something. -/
theorem Mirrors.onSFrameRead (hm : Mirrors h [] s) (hw : Windowed h) (hl : Linked h 0)
    (address control : Byte) :
    Replies (Fd.onSFrameRead h 0 address control) s (.signal (.ack (nrOf control))) := by
  have hconf : ∀ {k : Handle W N}, (∀ s', Mirrors (confirmSentFrames h 0 (nrOf control)) [] s' →
      Linked (confirmSentFrames h 0 (nrOf control)) 0 → Follows k s') →
        Replies k s (.signal (.ack (nrOf control))) :=
    fun hk => hm.follows.confirms hw hl rfl hk
  unfold Fd.onSFrameRead
  dsimp only
  split
  · exact hconf fun s' hs' _ => hs'.resend (resendAllUnconfirmedFrames_resends _ 0 _ _)
  · split
    · split
      · exact hconf fun s' hs' hl' => hs'.putS hl' .rr (.inl rfl) (poll_cases control)
      · exact hconf fun s' hs' _ => hs'.follows
    · split
      · exact hconf fun s' hs' _ => hs'.follows
      · refine hconf fun s' hs' _ => ?_
        generalize confirmSentFrames h 0 (nrOf control) = k at hs'
        have hmask : Unnoticed k (k.setPeer 0 fun x =>
          { x with srejReqMask := x.srejReqMask ||| 1#8 <<< (nrOf control).toNat }) :=
          .setPeer k rfl Iff.rfl rfl rfl .inl
        exact (hs'.unnoticed (hmask.trans (.setEvents ..)) rfl).follows

/-! ## U-frames -/

/-- A connection is requested, without one. -/
theorem Mirrors.request (hm : Mirrors h [] s) (hl : ¬Linked h 0) (k : Handle W N) :
    Follows (putUFrame h 0 crBit (connectType k)) s := by
  have ht : connectType k ≠ .rset := by
    unfold connectType
    split
    · exact UType.noConfusion
    · exact UType.noConfusion
  exact hm.putU (.inr rfl) ht (fun _ => hl) []

/-- The peer waits for the answer. -/
theorem Unnoticed.connecting (hl : ¬Linked h 0) {f : Peer → Peer}
    (hf : ∀ x, (f x).state = .connecting ∧ (f x).addr = x.addr ∧
      (f x).iQueueControl = x.iQueueControl ∧ (f x).canAcceptIFrames = x.canAcceptIFrames) :
    Unnoticed h (h.setPeer 0 f) := by
  obtain ⟨hst, haddr, hcontrol, haccept⟩ := hf (h.peers 0)
  refine .setPeer h haddr ⟨fun hlink => ?_, fun hlink => absurd hlink hl⟩ ?_ ?_ fun ha => ?_
  · rw [hst] at hlink
    exact absurd hlink (by decide)
  · rw [hcontrol]
    rfl
  · rw [hcontrol]
    rfl
  · rw [haccept] at ha
    exact .inl ha

/-- A connection is closed, before or after UA was queued. -/
theorem Mirrors.closes (hm : Mirrors h [] s) (hst : (h.peers 0).state ≠ .disconnected)
    {k : Handle W N} (hk : k = h ∨ k = putUFrame h 0 0 .ua) :
    Follows (switchToDisconnectedState k 0) s := by
  have hclosed : Follows (switchToDisconnectedState h 0) s := (hm.close hst).works .close rfl
  rcases hk with rfl | rfl
  · exact hclosed
  · unfold putUFrame
    have hfield : peerToAddressField (switchToDisconnectedState h 0) 0 = peerToAddressField h 0 := by
      unfold peerToAddressField
      rw [(switchToDisconnectedState_switches h hst).addr]
    have hua : UType.ua ≠ .rset := UType.noConfusion
    rw [disconnect_put_comm, ← hfield]
    refine hclosed.and_then fun s' hm' => hm'.putU (.inl rfl) hua (fun _ => ?_) []
    exact not_linked_of_disconnected (disconnected_state h 0)

/-- A U-frame that opens no connection. -/
theorem Mirrors.onUFrameRead (hm : Mirrors h [] s) {control : Byte} (hu : isUFrame control = true)
    (hr : uTypeOf control ≠ UType.rset.bits) (hno : ¬Opens h 0 control) (address : Byte)
    (payload : List Byte) (f : Frame 3 (List Byte)) :
    Replies (Fd.onUFrameRead h 0 address control payload) s f := by
  suffices hf : Follows (Fd.onUFrameRead h 0 address control payload) s from hf.ignores f
  have hh := onUFrameRead_handled (h := h) (p := 0) hu address payload
  have hcontra : ¬isUFrame control = false := by
    rw [hu]
    exact Bool.noConfusion
  generalize Fd.onUFrameRead h 0 address control payload = k at hh ⊢
  cases hh with
  | ignored => exact hm.follows
  | passed _ payload => exact
    (hm.unnoticed (.emit h (e := .readUi 0 (callbackAddress h 0) payload) trivial) rfl).follows
  | refused => exact hm.putU (.inl rfl) UType.noConfusion (fun hf => absurd hf (by decide)) []
  | opened ho => exact absurd ho hno
  | closed hc hk => exact hm.closes hc.2.1 hk
  | rejected hrej =>
    have hclosed : Follows (switchToDisconnectedState h 0) s := (hm.close hrej.2.1).works .close rfl
    have hl := not_linked_of_disconnected (disconnected_state h 0)
    refine (hclosed.and_then fun s' hm' => hm'.request hl h).unnoticed ?_ rfl
    exact .connecting (fun hl' => hl ((Unnoticed.putUSFrame ..).linked.mp hl'))
      fun _ => ⟨rfl, rfl, rfl, rfl⟩
  | reset hres => exact absurd hres.2.2 hr
  | expected _ hn => exact absurd hn hcontra
  | confirmed _ hn => exact absurd hn hcontra
  | answered _ hn => exact absurd hn hcontra
  | rewound _ hn => exact absurd hn hcontra
  | requested _ hn => exact absurd hn hcontra

/-- A U-frame that opens a connection. -/
theorem Mirrors.onUFrameRead_opens (hm : Mirrors h [] s) {control : Byte} (ho : Opens h 0 control)
    (address : Byte) (payload : List Byte) :
    ∃ answer, Mirrors (Fd.onUFrameRead h 0 address control payload) [] (s.open answer) := by
  unfold Fd.onUFrameRead
  dsimp only
  by_cases hrequest : uTypeOf control = UType.sabm.bits ∨ uTypeOf control = UType.snrm.bits
  · rw [if_neg fun hd => hrequest.elim hd.2.1 hd.2.2.1, if_pos hrequest]
    exact hm.answer
  · have hua : uTypeOf control = UType.ua.bits ∧ (h.peers 0).state = .connecting := by
      rcases ho.2 with ht | ht | ht
      · exact absurd (.inl ht) hrequest
      · exact absurd (.inr ht) hrequest
      · exact ht
    obtain ⟨ht, hst⟩ := hua
    rw [if_neg (by rw [hst]; exact fun hd => PeerState.noConfusion hd.1), if_neg hrequest, ht,
      if_neg (by decide), if_neg (by decide), if_neg (by decide), if_pos rfl]
    unfold onAcknowledge
    rw [if_pos hst]
    exact ⟨false, hm.connect (not_linked_iff.mpr (.inr hst))⟩

/-! ## All frames -/

theorem Unnoticed.heardFrom (h : Handle W N) (data : List Byte) :
    Unnoticed h (heardFrom h 0 data) := by
  unfold Fd.heardFrom noteReceived
  exact (Unnoticed.emit h (e := .frameIn data) trivial).trans (.setPeer _ rfl Iff.rfl rfl rfl .inl)

theorem Unnoticed.captureMarker (h : Handle W N) (control : Byte) :
    Unnoticed h (captureMarker h control) := by
  obtain ⟨b, he⟩ := captureMarker_form h control
  rw [he]
  exact .setEvents ..

theorem Mirrors.captured (hm : Mirrors h [] s) (control : Byte) :
    Mirrors (captureMarker h control) [] s := by
  obtain ⟨b, he⟩ := captureMarker_form h control
  exact hm.unnoticed (.captureMarker h control) (by rw [he]; rfl)

/-- The frame opens a connection at the station. -/
def OpensAt (h : Handle W N) (data : List Byte) : Prop :=
  ∃ m ∈ sender h data, Opens h m.1 m.2

instance opensAt_decidable (h : Handle W N) (data : List Byte) : Decidable (OpensAt h data) :=
  inferInstanceAs (Decidable (∃ m ∈ sender h data, _))

theorem opens_heardFrom {control : Byte} {data : List Byte} :
    Opens (heardFrom h 0 data) 0 control ↔ Opens h 0 control := by
  unfold Opens
  rw [heardFrom_peer]

/-- There is one peer. -/
theorem InAbm.sender_zero (hi : InAbm h) {data : List Byte} {control : Byte}
    (hs : sender h data = some (p, control)) : p = 0 := by
  unfold sender at hs
  split at hs
  · obtain ⟨q, hq, he⟩ := Option.map_eq_some_iff.mp hs
    rw [← (Prod.mk.inj he).1]
    exact hi.found hq
  · cases hs

/-- U-frames are no I-frames. -/
theorem frameOf_uFrame (g : Nat) (address : Byte) {control : Byte} (hu : isUFrame control = true)
    (payload : List Byte) :
    frameOf g (address :: control :: payload) = .signal (signalOf control) := by
  unfold frameOf
  dsimp only
  split
  · next hi =>
    rw [isUFrame_of_isIFrame hi] at hu
    cases hu
  · rfl

theorem Opens.signal {control : Byte} (ho : Opens h p control) : signalOf control = .fence := by
  have hfence : Fences control := ho.2.imp_right fun ht => ht.imp_right And.left
  unfold signalOf
  rw [if_pos ho.1, if_pos hfence]

/-- A frame that opens a connection. -/
theorem Mirrors.opens (hm : Mirrors h [] s) (hi : InAbm h) {data : List Byte}
    (ho : OpensAt h data) (g : Nat) :
    frameOf g data = .signal .fence ∧
      ∃ answer, Mirrors (Fd.onFrameRead h data) [] (s.open answer) := by
  obtain ⟨⟨p, control⟩, hs, ho⟩ := ho
  obtain rfl : p = 0 := hi.sender_zero hs
  obtain ⟨address, payload, rfl, hread⟩ := onFrameRead_of_sender hs
  dsimp only at ho
  refine ⟨?_, ?_⟩
  · rw [frameOf_uFrame g address ho.1, ho.signal]
  · have hk := hm.unnoticed (.heardFrom h (address :: control :: payload)) rfl
    obtain ⟨answer, hnew⟩ := hk.onUFrameRead_opens (opens_heardFrom.mpr ho) address payload
    rw [hread]
    unfold onPeerFrame
    rw [if_pos ho.1]
    exact ⟨answer, hnew.captured control⟩

theorem Replies.captured {f : Frame 3 (List Byte)} (hr : Replies h s f) (control : Byte) :
    Replies (captureMarker h control) s f := by
  obtain ⟨s', hs, ha, hm⟩ := hr
  exact ⟨s', hs, ha, hm.captured control⟩

/-- Any other frame. -/
theorem Mirrors.hears (hm : Mirrors h [] s) (hi : InAbm h) {data : List Byte}
    (hr : NoReset data) (ho : ¬OpensAt h data) (g : Nat) :
    Replies (Fd.onFrameRead h data) s (frameOf g data) := by
  cases hs : sender h data with
  | none =>
    have hread := onFrameRead_read h data
    generalize Fd.onFrameRead h data = k at hread
    cases hread with
    | unknown _ hk =>
      rcases hk with rfl | rfl
      · exact hm.follows.ignores _
      · exact (hm.unnoticed (.emit h (e := .frameIn data) trivial) rfl).follows.ignores _
    | handled hsome =>
      rw [hs] at hsome
      cases hsome
  | some m =>
    obtain ⟨p, control⟩ := m
    obtain rfl := hi.sender_zero hs
    obtain ⟨address, payload, rfl, hread⟩ := onFrameRead_of_sender hs
    have hno : ¬Opens h 0 control := fun ho' => ho ⟨_, hs, ho'⟩
    have hk : Mirrors (Fd.heardFrom h 0 (address :: control :: payload)) [] s :=
      hm.unnoticed (.heardFrom h (address :: control :: payload)) rfl
    have hw : Windowed (Fd.heardFrom h 0 (address :: control :: payload)) := by
      have hlogged : Windowed (h.emit (.frameIn (address :: control :: payload))) :=
        hi.windowed.congr rfl rfl (fun _ => rfl) rfl rfl (unconfirmed_concat 0 h.log _)
      unfold Fd.heardFrom noteReceived
      exact hlogged.setPeer rfl rfl rfl
    have hno' : ¬Opens (Fd.heardFrom h 0 (address :: control :: payload)) 0 control :=
      fun ho' => hno (opens_heardFrom.mp ho')
    rw [hread]
    generalize Fd.heardFrom h 0 (address :: control :: payload) = k at hk hw hno'
    refine Replies.captured ?_ control
    unfold onPeerFrame
    split
    · next hu => exact hk.onUFrameRead hu (hr hu) hno' address payload _
    · next hu =>
      split
      · -- Without a connection the answer is DM.
        exact (hk.putU (.inl rfl) UType.noConfusion (fun hf => absurd hf (by decide)) []).ignores _
      · next hst =>
        have hl : Linked k 0 := by
          rw [not_and_or, not_not, not_not] at hst
          exact hst
        unfold frameOf
        dsimp only
        split
        · exact hk.onIFrameRead hw hl control payload g
        · have hack : signalOf control = .ack (nrOf control) := if_neg hu
          rw [hack]
          exact hk.onSFrameRead hw hl address control

/-! ## Timeouts and other calls -/

theorem Mirrors.checkIdleTimeout (hm : Mirrors h [] s) : Follows (Fd.checkIdleTimeout h 0) s := by
  have hc := checkIdleTimeout_checked h 0
  generalize Fd.checkIdleTimeout h 0 = k at hc
  cases hc with
  | retried =>
    have hless : Mirrors (h.setPeer 0 fun x => { x with retries := x.retries - 1 }) [] s :=
      hm.unnoticed (.setPeer h rfl Iff.rfl rfl rfl .inl) rfl
    exact hless.resend (resendAllUnconfirmedFrames_resends ..)
  | gaveUp hl => exact (hm.close hl.ne_disconnected).works .close rfl
  | lost hl => exact (hm.close hl.ne_disconnected).works .close rfl
  | disarmed => exact hm.follows
  | keptAlive hl =>
    have hasked : Mirrors (h.setPeer 0 fun x => { x with kaConfirmed := false }) [] s :=
      hm.unnoticed (.setPeer h rfl Iff.rfl rfl rfl .inl) rfl
    have hput : Follows (putSFrame (h.setPeer 0 fun x => { x with kaConfirmed := false }) 0 0 .rr
        pBit) s :=
      hasked.putS (linked_setPeer rfl hl) .rr (.inl rfl) (.inr rfl)
    exact hput.unnoticed (.setPeer _ rfl Iff.rfl rfl rfl .inl) rfl
  | rested => exact hm.follows
  | requested hl =>
    refine (hm.request hl h).unnoticed (.connecting ?_ fun _ => ⟨rfl, rfl, rfl, rfl⟩) rfl
    exact fun hl' => hl ((Unnoticed.putUSFrame ..).linked.mp hl')
  | waited => exact hm.follows

theorem Mirrors.sendUiPacketTo (hm : Mirrors h [] s) (hi : InAbm h) (address : Byte)
    (data : List Byte) : Follows (Fd.sendUiPacketTo h address data).1 s := by
  rcases sendUiPacketTo_cases h address data with he | ⟨p, hp, he⟩
  · rw [he]
    exact hm.follows
  · obtain rfl := hi.found hp
    rw [he, ← BitVec.or_zero (x := peerToAddressField h 0)]
    exact hm.putU (.inl rfl) UType.noConfusion (fun hf => absurd hf (by decide)) data

/-- All peers are registered. -/
theorem InAbm.registerPeer (hi : InAbm h) (address : Byte) : (Fd.registerPeer h address).1 = h := by
  rcases registerPeer_cases h address with he | ⟨p, a, ts, hinv, -⟩
  · exact he
  · exact absurd hinv (hi.registered p)

end TinyProto.Fd
