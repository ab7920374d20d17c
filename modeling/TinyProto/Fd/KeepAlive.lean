import TinyProto.Fd.Operations
import TinyProto.Fd.Outcomes

/-!
# The keep alive watchdog

A connected peer that is silent for twice the keep alive timeout is disconnected, if a keep
alive was sent since the last frame came from it.  Otherwise no branch of
`tiny_fd_connected_check_idle_timeout` acts, now and later (`watchdog_disarmed`).
`watchdog_armed` says which passing of time avoids that.
-/

set_option linter.unusedSectionVars false

namespace TinyProto.Fd

open Hdlc Runs

variable {W N : Nat} [NeZero W] [NeZero N] {h h₁ h₂ : Handle W N} {p : Fin N}

/-! ## What is watched -/

/-- The peer was heard of at the time, or is no better off than before. -/
structure Peer.Watched (now : BitVec 32) (x y : Peer) : Prop where
  addr : y.addr = x.addr
  connected : y.state = .connected → x.state = .connected ∨ x.addr ≠ invalidAddr
  heard : y.lastReceivedFrameTs = now ∨
    y.lastReceivedFrameTs = x.lastReceivedFrameTs ∧
      (y.state = .connected → x.state = .connected) ∧ (y.kaConfirmed = true → x.kaConfirmed = true)

/-- The clock stands still, and no peer is better off without having been heard of. -/
structure Watches (h h' : Handle W N) : Prop where
  millis : h'.millis = h.millis
  kaTimeout : h'.kaTimeout = h.kaTimeout
  peer : ∀ q, (h.peers q).Watched h.millis (h'.peers q)

theorem Peer.Watched.refl (now : BitVec 32) (x : Peer) : x.Watched now x :=
  ⟨rfl, .inl, .inr ⟨rfl, id, id⟩⟩

theorem Peer.Watched.trans {now : BitVec 32} {x y z : Peer} (h : x.Watched now y)
    (h' : y.Watched now z) : x.Watched now z where
  addr := h'.addr.trans h.addr
  connected hz := by
    rcases h'.connected hz with hy | hy
    · exact h.connected hy
    · rw [h.addr] at hy
      exact .inr hy
  heard := by
    rcases h'.heard with hz | ⟨hts, hstate, hka⟩
    · exact .inl hz
    · rcases h.heard with hy | ⟨hts', hstate', hka'⟩
      · exact .inl (hts.trans hy)
      · exact .inr ⟨hts.trans hts', fun hz => hstate' (hstate hz), fun hz => hka' (hka hz)⟩

theorem Watches.refl (h : Handle W N) : Watches h h := ⟨rfl, rfl, fun _ => .refl _ _⟩

theorem Watches.trans (hw : Watches h h₁) (hw' : Watches h₁ h₂) : Watches h h₂ where
  millis := hw'.millis.trans hw.millis
  kaTimeout := hw'.kaTimeout.trans hw.kaTimeout
  peer q := (hw.peer q).trans (hw.millis ▸ hw'.peer q)

/-- The peers did not change. -/
theorem Watches.of_peers (hm : h₁.millis = h.millis) (hk : h₁.kaTimeout = h.kaTimeout)
    (hp : h₁.peers = h.peers) : Watches h h₁ := by
  refine ⟨hm, hk, fun q => ?_⟩
  rw [hp]
  exact .refl _ _

/-- One of them did. -/
theorem Watches.of_update {x : Peer} (hm : h₁.millis = h.millis) (hk : h₁.kaTimeout = h.kaTimeout)
    (hp : h₁.peers = Function.update h.peers p x) (hx : (h.peers p).Watched h.millis x) :
    Watches h h₁ := by
  refine ⟨hm, hk, ?_⟩
  rw [hp]
  exact (Function.forall_update_iff _ fun q y => (h.peers q).Watched h.millis y).mpr
    ⟨hx, fun _ _ => .refl _ _⟩

/-- What the watchdog looks at stays. -/
theorem Peer.Watched.of_eq {now : BitVec 32} {x y : Peer} (ha : y.addr = x.addr)
    (hs : y.state = x.state) (ht : y.lastReceivedFrameTs = x.lastReceivedFrameTs)
    (hk : y.kaConfirmed = x.kaConfirmed) : x.Watched now y := by
  refine ⟨ha, fun hc => .inl (hs ▸ hc), .inr ⟨ht, fun hc => hs ▸ hc, fun hc => hk ▸ hc⟩⟩

/-- The peer is not connected, or no longer. -/
theorem Peer.Watched.of_ne {now : BitVec 32} {x y : Peer} (ha : y.addr = x.addr)
    (hs : y.state ≠ .connected) (ht : y.lastReceivedFrameTs = x.lastReceivedFrameTs)
    (hk : y.kaConfirmed = x.kaConfirmed) : x.Watched now y :=
  ⟨ha, fun hc => absurd hc hs, .inr ⟨ht, fun hc => absurd hc hs, fun hc => hk ▸ hc⟩⟩

theorem Watches.putUSFrame (h : Handle W N) (type : QueueType) (address control : Byte)
    (payload : List Byte) : Watches h (putUSFrame h type address control payload) := by
  obtain ⟨q, b, he⟩ := putUSFrame_eq h type address control payload
  rw [he]
  exact .of_peers rfl rfl rfl

theorem confirmSentFrames_watches (h : Handle W N) (p : Fin N) (nr : Seq) :
    Watches h (confirmSentFrames h p nr) := by
  obtain ⟨q, free, log, c, r, b, he⟩ := confirmSentFrames_form h p nr
  rw [he]
  exact .of_update rfl rfl rfl (.of_eq rfl rfl rfl rfl)

theorem resendAllUnconfirmedFrames_watches (h : Handle W N) (p : Fin N) (control : Byte)
    (nr : Seq) :
    Watches h (resendAllUnconfirmedFrames h p control nr) := by
  obtain ⟨q, c, he⟩ := resendAllUnconfirmedFrames_form h p control nr
  rw [he]
  exact .of_update rfl rfl rfl (.of_eq rfl rfl rfl rfl)

theorem switchToConnectedState_watches (ha : (h.peers p).addr ≠ invalidAddr) :
    Watches h (switchToConnectedState h p) := by
  by_cases hs : (h.peers p).state = .connected
  · rw [switchToConnectedState_of hs]
    exact .refl h
  · obtain ⟨log, he⟩ := switchToConnectedState_form hs
    rw [he]
    exact .of_update rfl rfl rfl ⟨rfl, fun _ => .inr ha, .inl rfl⟩

theorem switchToDisconnectedState_watches (h : Handle W N) (p : Fin N) :
    Watches h (switchToDisconnectedState h p) := by
  by_cases hs : (h.peers p).state = .disconnected
  · rw [switchToDisconnectedState_of hs]
    exact .refl h
  · obtain ⟨log, he⟩ := switchToDisconnectedState_form hs
    rw [he]
    exact .of_update rfl rfl rfl (.of_ne rfl PeerState.noConfusion rfl rfl)

theorem Selects.watches (hs : Selects p h h₁) : Watches h h₁ := by
  refine ⟨hs.millis, hs.kaTimeout, fun q => ?_⟩
  by_cases hq : q = p
  · obtain ⟨_, _, _, _, _, hp⟩ := hs.peer
    rw [hq, hp]
    exact ⟨rfl, .inl, .inr ⟨rfl, id, id⟩⟩
  · rw [hs.other q hq]
    exact .refl _ _

/-! ## Operations -/

theorem Handled.watches {control : Byte} (ha : (h.peers p).addr ≠ invalidAddr)
    (hh : Handled h p control h₁) : Watches h h₁ := by
  have hua : ∀ {k : Handle W N}, k = h ∨ k = putUFrame h p 0 .ua → Watches h k := by
    rintro k (rfl | rfl)
    · exact .refl k
    · exact .putUSFrame h _ _ _ _
  cases hh with
  | ignored => exact .refl h
  | passed => exact .of_peers rfl rfl rfl
  | refused => exact .putUSFrame h _ _ _ _
  | @opened k _ hk =>
    have hd : Watches k (if Linked k p then switchToDisconnectedState k p else k) := by
      split
      · exact switchToDisconnectedState_watches k p
      · exact .refl k
    have hkd := (hua hk).trans hd
    exact hkd.trans (switchToConnectedState_watches (by rw [(hkd.peer p).addr]; exact ha))
  | closed _ hk => exact (hua hk).trans (switchToDisconnectedState_watches _ p)
  | rejected =>
    exact ((switchToDisconnectedState_watches h p).trans (.putUSFrame _ _ _ _ _)).trans
      (.of_update rfl rfl rfl (.of_ne rfl PeerState.noConfusion rfl rfl))
  | reset =>
    have hclear : Watches h (h.setPeer p Peer.resetCounters) :=
      .of_update rfl rfl rfl (.of_eq rfl rfl rfl rfl)
    exact hclear.trans (.putUSFrame _ _ _ _ _)
  | expected _ _ payload =>
    have hadv : Watches h (advance h p) := by
      unfold advance Handle.setControl
      rw [setPeer_setPeer]
      exact .of_update rfl rfl rfl (.of_eq rfl rfl rfl rfl)
    have hread : Watches (confirmSentFrames (advance h p) p (nrOf control))
        (deliver (confirmSentFrames (advance h p) p (nrOf control)) p payload) := by
      have hemit : ∀ (k : Handle W N) e, Watches k (k.emit e) := fun k e => .of_peers rfl rfl rfl
      unfold deliver
      dsimp only
      split
      · exact (hemit _ _).trans (.putUSFrame _ _ _ _ _)
      · exact hemit _ _
    exact (hadv.trans (confirmSentFrames_watches _ p _)).trans hread
  | @confirmed k _ _ hk =>
    have hrej : Watches h k := by
      rcases hk with rfl | rfl
      · exact .refl k
      · have hmark : Watches h (h.setPeer p fun x => { x with sentReject := true }) :=
          .of_update rfl rfl rfl (.of_eq rfl rfl rfl rfl)
        exact hmark.trans (.putUSFrame _ _ _ _ _)
    exact hrej.trans (confirmSentFrames_watches k p _)
  | answered => exact (confirmSentFrames_watches h p _).trans (.putUSFrame _ _ _ _ _)
  | rewound =>
    exact (confirmSentFrames_watches h p _).trans (resendAllUnconfirmedFrames_watches _ p _ _)
  | requested =>
    have hconf := confirmSentFrames_watches h p (nrOf control)
    generalize confirmSentFrames h p (nrOf control) = k at hconf
    exact hconf.trans (.of_update rfl rfl rfl (.of_eq rfl rfl rfl rfl))

theorem onFrameRead_watches (hw : Addressed h) (data : List Byte) :
    Watches h (onFrameRead h data) := by
  have hr := onFrameRead_read h data
  generalize onFrameRead h data = k at hr
  cases hr with
  | unknown _ hk =>
    rcases hk with rfl | rfl
    · exact .refl k
    · exact .of_peers rfl rfl rfl
  | @handled p control k hs hk =>
    have hnote : Watches h (heardFrom h p data) := .of_update rfl rfl rfl ⟨rfl, .inl, .inl rfl⟩
    have hreg : (h.peers p).addr ≠ invalidAddr := by
      intro hinv
      have hbits := (hw.live_sender hs).2
      rw [hinv] at hbits
      exact invalidAddr_bits hbits
    obtain ⟨b, hb⟩ := captureMarker_form k control
    rw [hb]
    have hall := hnote.trans (hk.watches (by rw [(hnote.peer p).addr]; exact hreg))
    exact hall.trans (.of_peers rfl rfl rfl)

theorem Checked.watches (hc : Checked h p h₁) : Watches h h₁ := by
  cases hc with
  | retried =>
    have htaken : Watches h (h.setPeer p fun x => { x with retries := x.retries - 1 }) :=
      .of_update rfl rfl rfl (.of_eq rfl rfl rfl rfl)
    exact htaken.trans (resendAllUnconfirmedFrames_watches _ p 0 _)
  | gaveUp => exact switchToDisconnectedState_watches h p
  | lost => exact switchToDisconnectedState_watches h p
  | disarmed => exact .refl h
  | keptAlive =>
    have hclear : Watches h (h.setPeer p fun x => { x with kaConfirmed := false }) :=
      .of_update rfl rfl rfl ⟨rfl, .inl, .inr ⟨rfl, id, fun hk => by cases hk⟩⟩
    exact (hclear.trans (.putUSFrame _ _ _ _ _)).trans
      (.of_update rfl rfl rfl (.of_eq rfl rfl rfl rfl))
  | rested => exact .refl h
  | requested =>
    have hput : Watches h (putUFrame h p crBit (connectType h)) := .putUSFrame h _ _ _ _
    refine hput.trans (.of_update rfl rfl rfl ⟨rfl, fun hs => (by cases hs), .inl ?_⟩)
    exact hput.millis.symm
  | waited => exact .refl h

theorem Sent.watches {data : List Byte} (hs : Sent h p data h₁) : Watches h h₁ := by
  cases hs with
  | refused => exact .refl h
  | full => exact .of_update rfl rfl rfl (.of_eq rfl rfl rfl rfl)
  | stored =>
    exact .of_update rfl rfl rfl (.of_eq rfl rfl rfl rfl)

/-- The station of the peer is known before it is connected, and a peer that confirmed the
keep alive was heard of lately. -/
structure OnWatch (h : Handle W N) : Prop where
  timeout : 0 < h.kaTimeout
  registered : ∀ p, (h.peers p).state = .connected → (h.peers p).addr ≠ invalidAddr
  heard : ∀ p, (h.peers p).state = .connected → (h.peers p).kaConfirmed = true → ¬Unheard h p

theorem Watches.onWatch (hw : Watches h h₁) (ho : OnWatch h) : OnWatch h₁ where
  timeout := by
    rw [hw.kaTimeout]
    exact ho.timeout
  registered p hs := by
    rw [(hw.peer p).addr]
    rcases (hw.peer p).connected hs with hs | ha
    · exact ho.registered p hs
    · exact ha
  heard p hs hk := by
    unfold Unheard Handle.elapsed
    rw [hw.millis, hw.kaTimeout]
    rcases (hw.peer p).heard with hnow | ⟨hts, hstate, hka⟩
    · have hpos := ho.timeout
      rw [hnow, BitVec.sub_self]
      show ¬0 ≥ h.kaTimeout * 2
      omega
    · rw [hts]
      exact ho.heard p (hstate hs) (hka hk)

/-- No keep alive that was confirmed is older than twice the timeout once the clock or the
timeout was set. -/
def KeepsWatch (h : Handle W N) (o : Op W N) : Prop :=
  match o with
  | .tick _ => ∀ p, ((operate h o).peers p).state = .connected →
      ((operate h o).peers p).kaConfirmed = true → ¬Unheard (operate h o) p
  | .setKaTimeout _ => 0 < (operate h o).kaTimeout ∧
      ∀ p, ((operate h o).peers p).state = .connected →
        ((operate h o).peers p).kaConfirmed = true → ¬Unheard (operate h o) p
  | _ => True

instance keepsWatch_decidable : (o : Op W N) → Decidable (KeepsWatch h o)
  | .tick _ => inferInstanceAs (Decidable (∀ _, _))
  | .setKaTimeout _ => inferInstanceAs (Decidable (_ ∧ _))
  | .frame _ | .check _ | .attempt _ | .run _ | .lowLevel _ | .sendPacketTo _ _
  | .sendUiPacketTo _ _ | .disconnect | .registerPeer _ =>
    isTrue trivial

theorem registerPeer_onWatch (ho : OnWatch h) (address : Byte) :
    OnWatch (registerPeer h address).1 := by
  rcases registerPeer_cases h address with he | ⟨p, a, ts, hinv, -, -, he⟩
  · rw [he]
    exact ho
  · rw [he]
    -- The peer that is registered was not connected.
    have hne : (h.peers p).state ≠ .connected := fun hs => ho.registered p hs hinv
    refine ⟨ho.timeout, fun q hs => ?_, fun q hs hk => ?_⟩
    · by_cases hq : q = p
      · rw [hq, setPeer_self] at hs
        exact absurd hs hne
      · rw [setPeer_ne h hq] at hs ⊢
        exact ho.registered q hs
    · by_cases hq : q = p
      · rw [hq, setPeer_self] at hs
        exact absurd hs hne
      · rw [setPeer_ne h hq] at hs hk
        unfold Unheard
        rw [setPeer_ne h hq]
        exact ho.heard q hs hk

theorem OnWatch.operate {o : Op W N} (hord : Ordered h) (hd : Due h o) (hg : KeepsWatch h o)
    (ho : OnWatch h) : OnWatch (operate h o) := by
  cases o with
  | frame data => exact (onFrameRead_watches hord.addressed data).onWatch ho
  | check p => exact (checkIdleTimeout_checked h p).watches.onWatch ho
  | attempt p => exact (tryToSend_selects h p).watches.onWatch ho
  | run len =>
    obtain ⟨ll, q, next, marker, sending, he, -⟩ := runTx_form hord.inStep len
    refine Watches.onWatch (.of_peers ?_ ?_ ?_) ho
    all_goals
      show _ = _
      unfold Fd.operate
      dsimp only
      rw [he]
  | lowLevel hdlc => exact ⟨ho.timeout, ho.registered, ho.heard⟩
  | sendPacketTo address data =>
    rcases sendPacketTo_sent h address data with he | ⟨p, -, hs⟩
    · show OnWatch (sendPacketTo h address data).1
      rw [he]
      exact ho
    · exact hs.watches.onWatch ho
  | sendUiPacketTo address data =>
    rcases sendUiPacketTo_cases h address data with he | ⟨p, -, he⟩
    · show OnWatch (sendUiPacketTo h address data).1
      rw [he]
      exact ho
    · show OnWatch (sendUiPacketTo h address data).1
      rw [he]
      exact (Watches.putUSFrame h _ _ _ _).onWatch ho
  | disconnect =>
    rcases disconnect_cases h with he | ⟨-, he⟩
    · show OnWatch (disconnect h).1
      rw [he]
      exact ho
    · show OnWatch (disconnect h).1
      rw [he]
      have hput : Watches h (putUFrame h 0 crBit .disc) := .putUSFrame h _ _ _ _
      have hleave : Watches (putUFrame h 0 crBit .disc)
          ((putUFrame h 0 crBit .disc).setPeer 0 fun x => { x with state := .disconnecting }) :=
        .of_update rfl rfl rfl (.of_ne rfl (fun hs => (by cases hs)) rfl rfl)
      exact (hput.trans hleave).onWatch ho
  | registerPeer address => exact registerPeer_onWatch ho address
  | setKaTimeout keepAlive => exact ⟨hg.1, ho.registered, hg.2⟩
  | tick ms => exact ⟨ho.timeout, ho.registered, hg⟩

theorem initHandle_onWatch (init : InitParams) (hdlc : HdlcLl (SlotRef W)) (millis : BitVec 32) :
    OnWatch (initHandle W N init hdlc millis) :=
  ⟨Nat.succ_pos _, fun _ hs => (by cases hs), fun _ hs => (by cases hs)⟩

/-! ## The watchdog -/

/-- An RR with P for the peer waits. -/
def KeepAliveQueued (h : Handle W N) (p : Fin N) : Prop :=
  ∃ i, (h.sQueue.frames i).type = .sFrame ∧ (h.sQueue.frames i).address = peerToAddressField h p ∧
    isSFrame (h.sQueue.frames i).control = true ∧
    sTypeOf (h.sQueue.frames i).control = SType.rr.bits ∧ (h.sQueue.frames i).control &&& pBit ≠ 0

/-- What the watchdog leaves of a silent peer. -/
def Guards (h : Handle W N) (p : Fin N) : Prop :=
  ((connectedCheckIdleTimeout h p).peers p).state = .disconnected ∨
    ((connectedCheckIdleTimeout h p).peers p).kaConfirmed = false ∧
      KeepAliveQueued (connectedCheckIdleTimeout h p) p

/-- The peer is connected and silent for twice the keep alive timeout, and no I-frame of it
timed out. -/
structure SilentPeer (h : Handle W N) (p : Fin N) : Prop where
  connected : (h.peers p).state = .connected
  notTimedOut : ¬TimedOut h p
  unheard : Unheard h p

/-- No branch acts if the peer confirmed the keep alive. -/
theorem guards_iff (hs : SilentPeer h p) : Guards h p ↔ (h.peers p).kaConfirmed = false := by
  have hc := connectedCheckIdleTimeout_checked (.inl hs.connected)
  unfold Guards
  generalize connectedCheckIdleTimeout h p = k at hc
  cases hc with
  | retried _ ht => exact absurd ht hs.notTimedOut
  | gaveUp _ ht => exact absurd ht hs.notTimedOut
  | lost _ _ _ hk => exact ⟨fun _ => hk, fun _ => .inl (disconnected_state h p)⟩
  | disarmed _ _ _ hk =>
    constructor
    · rintro (hd | ⟨hf, -⟩)
      · exact absurd (hs.connected.symm.trans hd) PeerState.noConfusion
      · exact hf
    · intro hf
      exact absurd (hk.symm.trans hf) Bool.noConfusion
  | keptAlive _ _ hu => exact absurd hs.unheard hu
  | rested _ _ hu => exact absurd hs.unheard hu
  | requested hl => exact absurd (.inl hs.connected) hl
  | waited hl => exact absurd (.inl hs.connected) hl

theorem OnWatch.guards (ho : OnWatch h) (hs : SilentPeer h p) : Guards h p := by
  refine (guards_iff hs).mpr (eq_false_of_ne_true fun hk => ?_)
  exact ho.heard p hs.connected hk hs.unheard

/-- The watchdog acts exactly where the keep alive is not confirmed, and it does all the time
if the clock never passes the timeout of a peer that confirmed the last keep alive. -/
theorem watchdog_guards_iff :
    (∀ (h : Handle W N) p, SilentPeer h p → (Guards h p ↔ (h.peers p).kaConfirmed = false)) ∧
    ∀ {past : History W N} {h : Handle W N}, Lives KeepsWatch h past → ∀ k, Visits past h k →
      ∀ p, SilentPeer k p → Guards k p := by
  refine ⟨fun h p hs => guards_iff hs, fun hl k hk p hs => OnWatch.guards ?_ hs⟩
  exact hl.invariant (fun init hdlc millis _ _ => initHandle_onWatch init hdlc millis)
    (fun k o hord hd hg ho => ho.operate hord hd hg) k hk

/-- A connection, a keep alive after a while, and no answer to it. -/
def keepAliveUnanswered : List Call :=
  [.onFrameRead [0x03, 0x3F], .getTxData 16, .tick 6000, .getTxData 0, .getTxData 16, .tick 5000]

/-- The run ends in a state the watchdog acts in. -/
theorem watchdog_guards_keepAliveUnanswered :
    Guards (keepAliveUnanswered.foldl call (smallHandle 2 1 .abm)) 0 := by
  have hreach : Reaches (Meets KeepsWatch)
    (keepAliveUnanswered.foldl call (smallHandle 2 1 .abm)) :=
    (smallHandle_reaches _ .abm (by decide) (by decide)).calls (by decide +kernel)
  obtain ⟨past, hl⟩ := hreach.lives
  refine watchdog_guards_iff.2 hl _ (.inl rfl) 0 ⟨?_, ?_, ?_⟩
  · decide +kernel
  · decide +kernel
  · decide +kernel

/-- A connection, and a UI frame every four seconds. -/
def talkToSilence : List Call :=
  [.onFrameRead [0x03, 0x3F], .getTxData 16, .tick 4000, .sendUiPacketTo 0 [1], .getTxData 16,
    .tick 4000, .sendUiPacketTo 0 [2], .getTxData 16, .tick 4000]

/-- Nothing was received for twelve seconds, and what is sent keeps the keep alive away, now
and later. -/
theorem watchdog_disarmed : ∃ h : Handle 2 1, Reachable AnyFrame h ∧ SilentPeer h 0 ∧ ¬Guards h 0 ∧
    ¬Guards ([.sendUiPacketTo 0 [3], .getTxData 16, .tick 4000, .getTxData 16].foldl call h) 0 := by
  refine ⟨talkToSilence.foldl call (smallHandle 2 1 .abm),
    (smallHandle_reachable _ .abm (by decide) (by decide)).calls (callsOk_any _ _), ?_, ?_, ?_⟩
  · refine ⟨?_, ?_, ?_⟩
    · decide +kernel
    · decide +kernel
    · decide +kernel
  · rw [guards_iff ⟨by decide +kernel, by decide +kernel, by decide +kernel⟩]
    decide +kernel
  · rw [guards_iff ⟨by decide +kernel, by decide +kernel, by decide +kernel⟩]
    decide +kernel

end TinyProto.Fd
