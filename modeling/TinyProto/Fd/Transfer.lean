import TinyProto.Fd.Addressing
import TinyProto.Fd.Connection
import TinyProto.Fd.Line

/-!
# Bytes in one connection

`tiny_fd_send` cuts its data into packets, and returns how many bytes it queued.  As long as
a station reports no lost connection, what the other one hands to its user is a prefix of the
bytes that were queued, and what is missing of them fits into the window (`bytes_in_order`).
-/

set_option linter.unusedSectionVars false

namespace TinyProto.Fd

open Hdlc Runs GoBackN

variable {W N : Nat} [NeZero W] [NeZero N] {h h₁ : Handle W N} {p q : Fin N}

/-! ## Histories without a lost connection -/

/-- No connection of the peer was reported as lost. -/
def Unbroken (p : Fin N) (log : List (Event N)) : Prop := false ∉ connections p log

instance unbroken_decidable (p : Fin N) (log : List (Event N)) : Decidable (Unbroken p log) :=
  inferInstanceAs (Decidable (false ∉ connections p log))

theorem Unbroken.before {log es : List (Event N)} (hu : Unbroken p (log ++ es)) :
    Unbroken p log := by
  intro hm
  refine hu ?_
  rw [connections_append]
  exact List.mem_append_left _ hm

/-- The event says nothing about the payloads for the peer. -/
structure Event.Apart (p : Fin N) (e : Event N) : Prop where
  accepted : e.acceptedFor p = none
  confirmed : e.confirmedBy p = none
  unconfirmed : ∀ u, unconfirmedStep p u e = u

theorem Event.Neutral.apart {e : Event N} (he : e.Neutral) : e.Apart p := by
  cases e with
  | frameIn | readUi | returnMarker => exact ⟨rfl, rfl, fun _ => rfl⟩
  | _ => exact absurd he id

theorem Event.apart_read (q : Fin N) (a : Byte) (x : List Byte) : (Event.read q a x).Apart p :=
  ⟨rfl, rfl, fun _ => rfl⟩

theorem Event.apart_frameOut (q : Fin N) (x : List Byte) : (Event.frameOut q x).Apart p :=
  ⟨rfl, rfl, fun _ => rfl⟩

theorem Event.apart_sent (hne : q ≠ p) (a : Byte) (x : List Byte) : (Event.sent q a x).Apart p :=
  ⟨rfl, if_neg hne, fun _ => if_neg hne⟩

theorem Event.apart_connect (hne : q ≠ p) (a : Byte) (connected : Bool) :
    (Event.connect q a connected).Apart p :=
  ⟨rfl, rfl, fun _ => if_neg hne⟩

theorem Event.apart_accepted (hne : q ≠ p) (x : List Byte) : (Event.accepted q x).Apart p :=
  ⟨if_neg hne, rfl, fun _ => if_neg hne⟩

/-- As long as no connection was lost, what was accepted is confirmed or waits, and nothing
waits without a connection. -/
structure Tallied (p : Fin N) (h : Handle W N) : Prop where
  accepts : (h.peers p).canAcceptIFrames = true → Linked h p
  shut : Unbroken p h.log → ¬Linked h p → unconfirmed p h.log = []
  counts : Unbroken p h.log → acceptedFor p h.log = confirmedBy p h.log ++ unconfirmed p h.log

theorem Tallied.of_linked (hl : Linked h p)
    (hc : Unbroken p h.log → acceptedFor p h.log = confirmedBy p h.log ++ unconfirmed p h.log) :
    Tallied p h :=
  ⟨fun _ => hl, fun _ hn => absurd hl hn, hc⟩

/-- The step is not about the payloads for the peer, and closes no connection. -/
theorem Tallied.apart (ht : Tallied p h)
    (hlog : ∃ es, h₁.log = h.log ++ es ∧ ∀ e ∈ es, e.Apart p)
    (hl : Linked h p → Linked h₁ p)
    (ha : (h₁.peers p).canAcceptIFrames = true → (h.peers p).canAcceptIFrames = true) :
    Tallied p h₁ := by
  obtain ⟨es, hlog, hes⟩ := hlog
  have haccepted : acceptedFor p h₁.log = acceptedFor p h.log := by
    unfold acceptedFor
    rw [hlog, List.filterMap_append, List.filterMap_eq_nil_iff.mpr fun e he => (hes e he).accepted,
      List.append_nil]
  have hconfirmed : confirmedBy p h₁.log = confirmedBy p h.log := by
    unfold confirmedBy
    rw [hlog, List.filterMap_append, List.filterMap_eq_nil_iff.mpr fun e he => (hes e he).confirmed,
      List.append_nil]
  have hwaiting : unconfirmed p h₁.log = unconfirmed p h.log := by
    rw [hlog]
    exact unconfirmed_silent fun e he => (hes e he).unconfirmed
  have hbefore : Unbroken p h₁.log → Unbroken p h.log := fun hu => Unbroken.before (hlog ▸ hu)
  refine ⟨fun h₁a => hl (ht.accepts (ha h₁a)), fun hu hn => ?_, fun hu => ?_⟩
  · rw [hwaiting]
    exact ht.shut (hbefore hu) (mt hl hn)
  · rw [haccepted, hconfirmed, hwaiting]
    exact ht.counts (hbefore hu)

/-- Nothing changed that counts. -/
theorem Tallied.same (ht : Tallied p h) (hlog : h₁.log = h.log)
    (hl : Linked h p → Linked h₁ p)
    (ha : (h₁.peers p).canAcceptIFrames = true → (h.peers p).canAcceptIFrames = true) :
    Tallied p h₁ :=
  ht.apart ⟨[], by rw [hlog, List.append_nil], nofun⟩ hl ha

theorem Tallied.setPeer (ht : Tallied p h) {f : Peer → Peer}
    (hs : (f (h.peers q)).state = (h.peers q).state ∨
      (f (h.peers q)).state = .disconnecting ∨ ¬Linked h q)
    (ha : (f (h.peers q)).canAcceptIFrames = (h.peers q).canAcceptIFrames) :
    Tallied p (h.setPeer q f) := by
  by_cases hpq : p = q
  · subst hpq
    refine ht.same rfl (fun hl => ?_) fun h₁a => ?_
    · rcases hs with hs | hs | hs
      · exact linked_setPeer hs hl
      · refine .inr ?_
        rw [setPeer_self]
        exact hs
      · exact absurd hl hs
    · rwa [setPeer_self, ha] at h₁a
  · refine ht.same rfl (fun hl => ?_) fun h₁a => ?_
    · unfold Linked at hl ⊢
      rwa [setPeer_ne h hpq]
    · rwa [setPeer_ne h hpq] at h₁a

theorem Tallied.putUSFrame (ht : Tallied p h) (type : QueueType) (address control : Byte)
    (payload : List Byte) : Tallied p (putUSFrame h type address control payload) := by
  refine ht.same (putUSFrame_log ..) (fun hl => ?_) fun h₁a => ?_
  · unfold Linked at hl ⊢
    rwa [putUSFrame_peers]
  · rwa [putUSFrame_peers] at h₁a

/-- A confirmation moves the first payload that waits. -/
theorem Tallied.confirmOne (ht : Tallied p h) (ho : Owned h) (hp : Live h p) (ha : Agrees h p)
    (hl : Linked h p) (hne : (h.control p).confirmNs ≠ (h.control p).lastNs) :
    Tallied p (Fd.confirmOne h p) := by
  obtain ⟨a, x, u, hu, hlog⟩ := ha.confirmOne_log ho hp hne
  refine .of_linked (linked_of_confirms (confirmOne_confirms h p) hl) fun hub => ?_
  rw [hlog] at hub
  have hcounts := ht.counts hub.before
  rw [hu] at hcounts
  have haccepted : acceptedFor p (h.log ++ [.sent p a x]) = acceptedFor p h.log :=
    filterMap_concat_none rfl h.log
  rw [hlog, haccepted, confirmedBy_concat, unconfirmed_sent, hu, hcounts, List.tail_cons,
    List.append_assoc]
  rfl

theorem Tallied.confirm (ht : Tallied p h) (ho : Owned h) (hp : Live h q) (ha : Agrees h q)
    (hl : Linked h q) (nr : Seq) : Tallied p (confirmSentFrames h q nr) := by
  by_cases hpq : p = q
  · subst hpq
    refine (confirmSentFrames_rule (P := fun k => Agrees k p ∧ Linked k p ∧ Tallied p k) ho hp
      ?_ ?_ ⟨ha, hl, ht⟩).2.2
    · rintro k hok hpk ⟨hak, hlk, htk⟩ - hne
      exact ⟨hak.confirmOne hok hpk hne, linked_of_confirms (confirmOne_confirms k p) hlk,
        htk.confirmOne hok hpk hak hlk hne⟩
    · rintro k ⟨hak, hlk, htk⟩
      exact ⟨hak.setPeer ⟨rfl, rfl⟩ rfl, linked_setPeer rfl hlk,
        .of_linked (linked_setPeer rfl hlk) htk.counts⟩
  · have hc := confirmSentFrames_confirms h q nr
    obtain ⟨es, hlog, hes⟩ := hc.log
    refine ht.apart ⟨es, hlog, fun e he => ?_⟩ (fun hlp => ?_) fun h₁a => ?_
    · obtain ⟨a, x, rfl⟩ := hes e he
      exact Event.apart_sent (Ne.symm hpq) a x
    · unfold Linked at hlp ⊢
      rwa [hc.other p hpq]
    · rwa [hc.other p hpq] at h₁a

theorem Tallied.resend (ht : Tallied p h) (hr : Resends q h h₁) : Tallied p h₁ := by
  have hpeer : (h₁.peers p).state = (h.peers p).state ∧
      (h₁.peers p).canAcceptIFrames = (h.peers p).canAcceptIFrames := by
    by_cases hpq : p = q
    · subst hpq
      obtain ⟨c, hc⟩ := hr.peer
      rw [hc]
      exact ⟨rfl, rfl⟩
    · rw [hr.other p hpq]
      exact ⟨rfl, rfl⟩
  refine ht.same hr.log (fun hl => ?_) fun h₁a => ?_
  · unfold Linked at hl ⊢
    rwa [hpeer.1]
  · rwa [hpeer.2] at h₁a

/-- A connection begins, or is lost. -/
theorem Tallied.switch {connected : Bool} (ht : Tallied p h) (hs : Switches q connected h h₁)
    (hl : connected = true → ¬Linked h q ∧ Linked h₁ q)
    (ha : connected = false → (h₁.peers q).canAcceptIFrames = false) : Tallied p h₁ := by
  obtain ⟨a, hlog⟩ := hs.log
  by_cases hpq : p = q
  · subst hpq
    cases connected with
    | false =>
      have hlost : ¬Unbroken p h₁.log := by
        rw [hlog]
        refine fun hu => hu ?_
        rw [connections_append]
        exact List.mem_append_right _
          (List.mem_filterMap.mpr ⟨_, List.mem_singleton_self _, if_pos rfl⟩)
      refine ⟨fun h₁a => ?_, fun hu => absurd hu hlost, fun hu => absurd hu hlost⟩
      rw [ha rfl] at h₁a
      cases h₁a
    | true =>
      obtain ⟨hn, hl₁⟩ := hl rfl
      refine .of_linked hl₁ fun hu => ?_
      rw [hlog] at hu
      have hcounts := ht.counts hu.before
      rw [ht.shut hu.before hn] at hcounts
      have haccepted : acceptedFor p (h.log ++ [.connect p a true]) = acceptedFor p h.log :=
        filterMap_concat_none rfl h.log
      have hconfirmed : confirmedBy p (h.log ++ [.connect p a true]) = confirmedBy p h.log :=
        filterMap_concat_none rfl h.log
      rw [hlog, haccepted, hconfirmed, unconfirmed_connect, hcounts]
  · refine ht.apart ⟨_, hlog, fun e he => ?_⟩ (fun hlp => ?_) fun h₁a => ?_
    · rw [List.mem_singleton.mp he]
      exact Event.apart_connect (Ne.symm hpq) a connected
    · unfold Linked at hlp ⊢
      rwa [hs.other p hpq]
    · rwa [hs.other p hpq] at h₁a

theorem Tallied.markChosen (ht : Tallied p h) (r : SlotRef W) (poll : Bool) :
    Tallied p (markChosen h q r poll) := by
  obtain ⟨-, hpeers, -⟩ := markChosen_eq h q r poll
  obtain ⟨data, hlog⟩ := markChosen_log h q r poll
  refine ht.apart ⟨_, hlog, fun e he => ?_⟩ (fun hl => ?_) fun h₁a => ?_
  · rw [List.mem_singleton.mp he]
    exact Event.apart_frameOut q data
  · unfold Linked at hl ⊢
    rwa [hpeers]
  · rwa [hpeers] at h₁a

/-- A payload is accepted. -/
theorem Tallied.accept (ht : Tallied p h) (ha : (h.peers q).canAcceptIFrames = true)
    (data : List Byte) : Tallied p (h.emit (.accepted q data)) := by
  by_cases hpq : p = q
  · subst hpq
    refine .of_linked (ht.accepts ha) fun hu => ?_
    have hcounts := ht.counts hu.before
    have hconfirmed : confirmedBy p (h.log ++ [.accepted p data]) = confirmedBy p h.log :=
      filterMap_concat_none rfl h.log
    show acceptedFor p (h.log ++ [.accepted p data]) =
      confirmedBy p (h.log ++ [.accepted p data]) ++ unconfirmed p (h.log ++ [.accepted p data])
    rw [acceptedFor_concat, hconfirmed, unconfirmed_accepted, hcounts, List.append_assoc]
  · refine ht.apart ⟨[.accepted q data], rfl, fun e he => ?_⟩ id id
    rw [List.mem_singleton.mp he]
    exact Event.apart_accepted (Ne.symm hpq) data

theorem Tallied.step {a : Act N} (ht : Tallied p h) (hi : InAgreement h) (hs : Step h a h₁) :
    Tallied p h₁ := by
  cases hs with
  | quiet hq =>
    obtain ⟨es, hlog, hes⟩ := hq.log
    refine ht.apart ⟨es, hlog, fun e he => (hes e he).apart⟩ (fun hl => ?_) (hq.peer p).accepts
    unfold Linked at hl ⊢
    rwa [(hq.peer p).state]
  | register => exact ht.setPeer (.inl rfl) rfl
  | turn => exact ht.same rfl id id
  | putS => exact ht.putUSFrame ..
  | putU => exact ht.putUSFrame ..
  | free => exact ht.same rfl id id
  | @confirm q nr hp hl => exact ht.confirm hi.owned hp (hi.agrees q hp) hl nr
  | @reject q control hp hl =>
    exact (ht.confirm hi.owned hp (hi.agrees q hp) hl (nrOf control)).resend
      (resendAllUnconfirmedFrames_resends ..)
  | @receive q nr payload hp hl =>
    have hst : SameStations h (h.setControl q fun c => { c with nextNr := c.nextNr + 1 }) :=
      setPeer_sameStations h q rfl
    have hnr : Agrees (h.setControl q fun c => { c with nextNr := c.nextNr + 1 }) q :=
      (hi.agrees q hp).setPeer ⟨rfl, rfl⟩ rfl
    have hnext : Tallied p (h.setControl q fun c => { c with nextNr := c.nextNr + 1 }) :=
      ht.setPeer (.inl rfl) rfl
    have hconf := hnext.confirm (hi.owned.keep hst fun i hi => ⟨hi, rfl⟩) (hst q hp).1 hnr
      (linked_setControl hl) nr
    refine hconf.apart ⟨_, rfl, fun e he => ?_⟩ id id
    rw [List.mem_singleton.mp he]
    exact Event.apart_read _ _ _
  | resend => exact ht.resend (resendAllUnconfirmedFrames_resends ..)
  | @connect q _ hl =>
    refine ht.switch (switchToConnectedState_switches h (ne_connected hl)) (fun _ => ⟨hl, .inl ?_⟩)
      nofun
    rw [switchToConnectedState_peer h (ne_connected hl)]
  | @disconnect q _ hst =>
    refine ht.switch (switchToDisconnectedState_switches h hst) nofun fun _ => ?_
    rw [switchToDisconnectedState_peer h hst]
  | reset => exact ht.setPeer (.inl rfl) rfl
  | request hl => exact ht.setPeer (.inr (.inr hl)) rfl
  | hangUp => exact ht.setPeer (.inr (.inl rfl)) rfl
  | chooseService poll => exact ht.markChosen _ poll
  | @chooseNext q i poll =>
    have hset : Tallied p (refreshSlot h q i) := ht.same rfl id id
    have hnext : Tallied p ((refreshSlot h q i).setControl q fun c =>
        { c with nextNs := c.nextNs + 1 }) := hset.setPeer (.inl rfl) rfl
    exact hnext.markChosen _ poll
  | @chooseRequested q i _ poll =>
    have hset : Tallied p (refreshSlot h q i) := ht.same rfl id id
    exact hset.markChosen _ poll
  | @accept _ q data _ ha hput =>
    obtain ⟨i, -, -, rfl⟩ := putIFrame_some hput
    have hput : Tallied p ({ h with
        iQueue := h.iQueue.setFrame i (newIFrame h q data)
        events := { h.events with txDataAvailable := true } } : Handle W N) := ht.same rfl id id
    refine (hput.setPeer (.inl rfl) rfl).accept ?_ data
    rw [setPeer_self]
    exact ha

/-- The calls of the loop of `tiny_fd_send_to`. -/
def sendCalls : Nat → Handle W N → Byte → List Byte → List Call
  | 0, _, _, _ => []
  | fuel + 1, h, address, data =>
      if data = [] then []
      else
        let size := min data.length h.iQueue.mtu.toNat
        .sendPacketTo address (data.take size) ::
          match sendPacketTo h address (data.take size) with
          | (h, .success) => sendCalls fuel h address (data.drop size)
          | _ => []

/-- The payloads that several calls accept. -/
def acceptedByAll (h : Handle W N) : List Call → List (List Byte)
  | [] => []
  | c :: calls => acceptedBy h c ++ acceptedByAll (call h c) calls

/-- The packets are the first bytes of the data, and their number is reported. -/
theorem sendToLoop_calls (address : Byte) : ∀ (fuel : Nat) (h : Handle W N) (data : List Byte),
    (sendToLoop fuel h address data).1 = (sendCalls fuel h address data).foldl call h ∧
      (acceptedByAll h (sendCalls fuel h address data)).flatten =
        data.take (sendToLoop fuel h address data).2
  | 0, _, _ => ⟨rfl, rfl⟩
  | fuel + 1, h, data => by
    unfold sendToLoop sendCalls
    by_cases hd : data = []
    · rw [if_pos hd, if_pos hd]
      exact ⟨rfl, rfl⟩
    rw [if_neg hd, if_neg hd]
    dsimp only
    rw [List.foldl_cons]
    unfold acceptedByAll
    generalize min data.length h.iQueue.mtu.toNat = size
    have hcall : call h (.sendPacketTo address (data.take size)) =
        (sendPacketTo h address (data.take size)).1 := rfl
    have htaken : acceptedBy h (.sendPacketTo address (data.take size)) =
        if (sendPacketTo h address (data.take size)).2 = .success then [data.take size] else [] := rfl
    rw [hcall, htaken]
    obtain ⟨k, status⟩ := sendPacketTo h address (data.take size)
    cases status with
    | success =>
      obtain ⟨hstate, hbytes⟩ := sendToLoop_calls address fuel k (data.drop size)
      dsimp only
      refine ⟨hstate, ?_⟩
      rw [if_pos rfl, List.flatten_append, hbytes, List.flatten_singleton, List.take_add]
    | _ => exact ⟨rfl, rfl⟩

theorem sendCalls_stay (address : Byte) : ∀ (fuel : Nat) (h : Handle W N) (data : List Byte),
    ∀ c ∈ sendCalls fuel h address data, c.Stays
  | 0, _, _, _, hc => nomatch hc
  | fuel + 1, h, data, c, hc => by
    unfold sendCalls at hc
    split at hc
    · cases hc
    · rcases List.mem_cons.mp hc with rfl | hc
      · trivial
      · split at hc
        · exact sendCalls_stay address fuel _ _ c hc
        · cases hc

section Line

variable {W N : Bool → Nat} [∀ i, NeZero (W i)] [∀ i, NeZero (N i)] {b : Line W N}
  {queued : Bool → List Byte}

/-- Several calls of one application. -/
def Line.calls (b : Line W N) (i : Bool) (calls : List Call) : Line W N :=
  calls.foldl (fun b c => b.act (.call i c)) b

theorem Line.calls_taken (i : Bool) : ∀ (calls : List Call) (b : Line W N),
    (b.calls i calls).station i = calls.foldl call (b.station i) ∧
      (b.calls i calls).taken =
        Function.update b.taken i (b.taken i ++ acceptedByAll (b.station i) calls)
  | [], b => by
    refine ⟨rfl, ?_⟩
    rw [show acceptedByAll (b.station i) [] = [] from rfl, List.append_nil, Function.update_eq_self]
    rfl
  | c :: calls, b => by
    obtain ⟨hstation, htaken⟩ := Line.calls_taken i calls (b.act (.call i c))
    have hfirst : (b.act (.call i c)).station i = call (b.station i) c := Function.update_self ..
    have htook : (b.act (.call i c)).taken i = b.taken i ++ acceptedBy (b.station i) c :=
      Function.update_self ..
    rw [hfirst] at hstation htaken
    refine ⟨hstation, htaken.trans ?_⟩
    rw [htook, List.append_assoc]
    exact Function.update_idem ..

/-- `tiny_fd_send`. -/
def Line.send (b : Line W N) (i : Bool) (data : List Byte) : Line W N :=
  b.calls i (sendCalls data.length (b.station i) 0 data)

/-- The act is not a packet of the application. -/
def LineAct.Silent : LineAct → Prop
  | .call _ (.sendPacketTo _ _) => False
  | _ => True

instance lineAct_silent_decidable : (a : LineAct) → Decidable a.Silent
  | .call _ (.sendPacketTo _ _) => isFalse id
  | .call _ (.sendUiPacketTo _ _) | .call _ .disconnect | .call _ (.registerPeer _)
  | .call _ (.setKaTimeout _) | .call _ (.onRxData _) | .call _ (.onFrameRead _)
  | .call _ (.getTxData _) | .call _ (.tick _) | .transmit _ _ | .receive _ _ | .lose _ _ =>
    isTrue trivial

/-- The applications send with `tiny_fd_send`, and every connection begins afresh.  The bytes are
those that the calls report as queued. -/
inductive Line.Talks : Line W N → (Bool → List Byte) → Prop where
  | start {b : Line W N} (hs : b.Starts) : Talks b fun _ => []
  | act {b : Line W N} {queued : Bool → List Byte} (ht : Talks b queued) (a : LineAct)
      (hp : b.Possible a) (ho : b.OpensAfresh a) (hq : a.Silent) : Talks (b.act a) queued
  | send {b : Line W N} {queued : Bool → List Byte} (ht : Talks b queued) (i : Bool)
      (data : List Byte) :
      Talks (b.send i data)
        (Function.update queued i (queued i ++ data.take (fdSend (b.station i) data).2))

theorem LineAct.Silent.taken {a : LineAct} (hq : a.Silent) (b : Line W N) :
    (b.act a).taken = b.taken := by
  cases a with
  | call i c =>
    cases c with
    | sendPacketTo => exact absurd hq id
    | _ =>
      show Function.update b.taken i (b.taken i ++ []) = b.taken
      rw [List.append_nil, Function.update_eq_self]
  | _ => rfl

theorem Line.Reaches.calls (i : Bool) : ∀ {calls : List Call} {b : Line W N},
    b.Reaches Line.OpensAfresh → (∀ c ∈ calls, c.Stays) → (b.calls i calls).Reaches Line.OpensAfresh
  | [], _, hr, _ => hr
  | c :: calls, b, ⟨b₀, hs, hrun⟩, hc =>
    have hfirst : Run (fun b a b' => b.Possible a ∧ b' = b.act a) Line.OpensAfresh b₀ _ :=
      hrun.tail (a := .call i c) trivial ⟨hc c List.mem_cons_self, rfl⟩
    have hall : ((b.act (.call i c)).calls i calls).Reaches Line.OpensAfresh :=
      Line.Reaches.calls i ⟨b₀, hs, hfirst⟩ fun c hm => hc c (List.mem_cons_of_mem _ hm)
    hall

/-- What is sent is accepted packet by packet. -/
theorem Line.Talks.sent (ht : b.Talks queued) :
    b.Reaches Line.OpensAfresh ∧ ∀ i, (b.taken i).flatten = queued i := by
  induction ht with
  | start hs =>
    refine ⟨⟨_, hs, .refl⟩, fun i => ?_⟩
    obtain ⟨-, -, -, -⟩ := hs
    rfl
  | @act b queued _ a hp ho hq ih =>
    obtain ⟨⟨b₀, hs, hrun⟩, htaken⟩ := ih
    refine ⟨⟨b₀, hs, hrun.tail ho ⟨hp, rfl⟩⟩, fun i => ?_⟩
    rw [hq.taken b]
    exact htaken i
  | @send b queued _ i data ih =>
    obtain ⟨hr, htaken⟩ := ih
    obtain ⟨-, hcalls⟩ := b.calls_taken i (sendCalls data.length (b.station i) 0 data)
    refine ⟨hr.calls i (sendCalls_stay 0 _ _ _), fun j => ?_⟩
    unfold Line.send
    rw [hcalls]
    by_cases hj : j = i
    · subst hj
      rw [Function.update_self, Function.update_self, List.flatten_append, htaken j,
        (sendToLoop_calls ..).2]
      rfl
    · rw [Function.update_of_ne hj, Function.update_of_ne hj]
      exact htaken j

/-- No RSET is on the way. -/
theorem Line.Mirrored.unreset {e : Exchange 3 (List Byte)} {i : Bool} (hm : b.Mirrored e)
    {data : List Byte} (hp : b.Possible (.receive i data)) :
    CallOk ResetIdle (b.station i) (.onRxData data) := by
  obtain ⟨hone, hprefix⟩ := hp
  show FramesOk ResetIdle _ (b.found i data)
  cases hfound : b.found i data with
  | nil => trivial
  | cons f fs =>
    rw [hfound] at hone hprefix
    obtain rfl : fs = [] :=
      List.length_eq_zero_iff.mp (Nat.le_zero.mp (Nat.le_of_succ_le_succ hone))
    obtain ⟨rest, hin⟩ := hprefix
    have hway := hm.way i
    rw [← hin] at hway
    obtain ⟨F, Fs, hframe, -, -⟩ := List.forall₂_cons_right_iff.mp hway
    exact ⟨hframe.noReset.idle, trivial⟩

/-- Each station is a handle without an RSET. -/
theorem Line.Reaches.station {C : Line W N → LineAct → Prop} (hr : b.Reaches C) (i : Bool) :
    Reachable ResetIdle (b.station i) := by
  obtain ⟨b₀, hs, hrun⟩ := hr
  refine (hrun.preserves (P := fun b => Line.Matches (fun _ _ => True) Exchange.new b ∧
    ∀ i, Reachable ResetIdle (b.station i)) (fun b a b' hb _ hstep => ?_)
    ⟨⟨_, .refl, hs.mirrored⟩, fun i => ?_⟩).2 i
  · obtain ⟨⟨e, hreach, hm⟩, hreachable⟩ := hb
    obtain ⟨hp, rfl⟩ := hstep
    obtain ⟨e', hreach', hm'⟩ := hm.act (G := fun _ _ => True) hp fun _ _ _ => trivial
    have hcall : ∀ j c, CallOk ResetIdle (b.station j) c → ∀ k,
        Reachable ResetIdle (Function.update b.station j (call (b.station j) c) k) := by
      intro j c hok k
      by_cases hk : k = j
      · subst hk
        rw [Function.update_self]
        exact (hreachable k).call c hok
      · rw [Function.update_of_ne hk]
        exact hreachable k
    refine ⟨⟨e', hreach.trans hreach', hm'⟩, ?_⟩
    cases a with
    | call j c =>
      refine hcall j c ?_
      cases c with
      | disconnect | onRxData | onFrameRead | getTxData => exact absurd hp id
      | _ => trivial
    | transmit j len => exact hcall j (.getTxData len) trivial
    | receive j data => exact hcall j (.onRxData data) (hm.unreset hp)
    | lose => exact hreachable
  · obtain ⟨hmin, hmax, hll, -⟩ := hs
    exact .init (hmin i) (hmax i) (hll i)

/-- Acts that are no packets of the application, one after the other. -/
theorem Line.Talks.acts : ∀ {acts : List LineAct} {b : Line W N}, b.Talks queued →
    Runs.Allows Line.act (fun b a => (b.Possible a ∧ b.OpensAfresh a) ∧ a.Silent) b acts →
      (acts.foldl Line.act b).Talks queued
  | [], _, ht, _ => ht
  | a :: acts, b, ht, hok => by
    have hfirst : (b.act a).Talks queued := ht.act a hok.1.1.1 hok.1.1.2 hok.1.2
    exact hfirst.acts hok.2

end Line

end TinyProto.Fd
