import TinyProto.Fd.Draining
import TinyProto.Lib.RoundRobin

/-!
# Polling

A primary station in NRM polls its peers in turn.  `tiny_fd_get_tx_data` looks up the peer to
serve when it is called, and `on_frame_send` moves on to the next one when a frame with P is
done, possibly in the same call.  While the call then waits for the marker, another thread may
receive the answer (`getTxDataWaiting`).  Where that does not happen, every peer gets its turn
(`polling_fair`).
-/

set_option linter.unusedSectionVars false

namespace TinyProto.Fd

open Hdlc Runs

variable {W N : Nat} [NeZero W] [NeZero N] {h h₁ h₂ : Handle W N} {p q : Fin N}

/-! ## Waiting for events -/

/-- What comes in while a call waits: bytes for `tiny_fd_on_rx_data`, each time after some
milliseconds. -/
abbrev Incoming := List (BitVec 32 × List Byte)

/-- `tiny_events_wait`, which leaves the flag.  Another thread receives until the flag is
there or the time is over. -/
def waitEvents (flag : Events → Bool) (timeout : Nat) (incoming : Incoming) (h : Handle W N) :
    Handle W N :=
  if flag h.events ∨ timeout = 0 then h
  else incoming.foldl (fun h x => fdOnRxData { h with millis := h.millis + x.1 } x.2) h

/-- The waits of a `tiny_fd_get_tx_data` call. -/
structure Waits where
  timeout : Nat
  /-- What comes in while it waits for `FD_EVENT_HAS_MARKER`. -/
  marker : Incoming
  /-- What comes in while it waits for `FD_EVENT_TX_DATA_AVAILABLE`. -/
  data : Incoming

/-- The part of the loop behind the wait point, with its waits. -/
def tryToSendWaiting (w : Waits) (h : Handle W N) (p : Fin N) : Turn W N :=
  let h := waitEvents Events.hasMarker w.timeout w.marker h
  if h.events.hasMarker then
    tryToSend (waitEvents Events.txDataAvailable w.timeout w.data h) p
  else tryToSend h p

/-- `tiny_fd_get_tx_data` with its waits. -/
def getTxDataWaiting (h : Handle W N) (len : Nat) (w : Waits) : TxData W N :=
  getTxDataLoopWith (fun k => tryToSendWaiting w k h.nextPeer) len h.nextPeer (2 * len + 3) true
    false h []

/-- Without a timeout nothing comes in. -/
theorem getTxDataWaiting_zero (h : Handle W N) (len : Nat) {w : Waits} (hw : w.timeout = 0) :
    getTxDataWaiting h len w = getTxData h len := by
  have htry : ∀ k : Handle W N, tryToSendWaiting w k h.nextPeer = tryToSend k h.nextPeer := by
    intro k
    unfold tryToSendWaiting waitEvents
    simp only [hw, or_true, if_true, ite_self]
  unfold getTxDataWaiting getTxData
  rw [getTxDataLoop_eq]
  simp only [htry]

/-- What can happen to a handle, with waits. -/
inductive Activity where
  | call (c : Call)
  | getTxData (len : Nat) (w : Waits)

/-- The state after an activity. -/
def act (h : Handle W N) : Activity → Handle W N
  | .call c => call h c
  | .getTxData len w => (getTxDataWaiting h len w).h

/-! ## Polls -/

/-- The frame has P/F set. -/
def Polled (data : List Byte) : Bool := data.getD 1 0 &&& pBit ≠ 0

/-- The peers that were sent a frame with P, in this order. -/
def polls (log : List (Event N)) : List (Fin N) :=
  ((framesOut log).filter fun f => Polled f.2).map Prod.fst

/-- A frame with P is on its way. -/
def OnPoll (h : Handle W N) : Prop :=
  ∃ r, h.hdlc.tx.originData = some r ∧ (h.slot r).control &&& pBit ≠ 0

/-- The peer is registered. -/
def Registered (h : Handle W N) (p : Fin N) : Prop := (h.peers p).addr ≠ invalidAddr

instance registeredDecidable : DecidablePred (Registered h) := fun p =>
  inferInstanceAs (Decidable ((h.peers p).addr ≠ invalidAddr))

/-- The peer after this one. -/
def following (h : Handle W N) (p : Fin N) : Fin N := RoundRobin.next (Registered h) p

theorem following_congr (haddr : ∀ q, (h₁.peers q).addr = (h.peers q).addr) :
    following h₁ = following h := by
  have hsame : ∀ q, Registered h₁ q ↔ Registered h q := by
    intro q
    unfold Registered
    rw [haddr]
  exact funext fun p => congrFun (RoundRobin.next_congr hsame) p

theorem polled_slot (s : Slot) : Polled s.bytes = true ↔ s.control &&& pBit ≠ 0 := by
  unfold Polled Slot.bytes
  simp

/-! ## In turn -/

/-- Since the polls `before`, the peers were polled one after the other, and the next one to
serve is the one that is polled or the one after the last. -/
structure InTurn (before : List (Fin N)) (h : Handle W N) : Prop where
  turns : ∃ new, polls h.log = before ++ new ∧
    List.IsChain (fun a b => b = following h a) new ∧
    ∀ q, new.getLast? = some q →
      (OnPoll h → h.nextPeer = q) ∧ (¬OnPoll h → h.nextPeer = following h q)

variable {before : List (Fin N)}

theorem InTurn.congr (ht : InTurn before h) (hout : framesOut h₁.log = framesOut h.log)
    (hpoll : OnPoll h₁ ↔ OnPoll h) (hnext : h₁.nextPeer = h.nextPeer)
    (haddr : ∀ q, (h₁.peers q).addr = (h.peers q).addr) : InTurn before h₁ := by
  obtain ⟨new, hnew, hchain, hlast⟩ := ht.turns
  have hpolls : polls h₁.log = polls h.log := by
    unfold polls
    rw [hout]
  refine ⟨new, hpolls.trans hnew, ?_, fun q hq => ?_⟩
  · rw [following_congr haddr]
    exact hchain
  · rw [hpoll, hnext, following_congr haddr]
    exact hlast q hq

/-- The frame on its way is the last one that was chosen. -/
theorem onPoll_iff (hk : SlotKept h) : OnPoll h ↔ h.hdlc.tx.originData ≠ none ∧
    ∃ f, (framesOut h.log).getLast? = some f ∧ Polled f.2 = true := by
  constructor
  · rintro ⟨r, hr, hpoll⟩
    obtain ⟨p, hp⟩ := hk r hr
    exact ⟨by rw [hr]; exact Option.some_ne_none r, _, hp, (polled_slot _).mpr hpoll⟩
  · rintro ⟨hbusy, f, hf, hpoll⟩
    obtain ⟨r, hr⟩ := Option.ne_none_iff_exists'.mp hbusy
    obtain ⟨p, hp⟩ := hk r hr
    cases hf.symm.trans hp
    exact ⟨r, hr, (polled_slot _).mp hpoll⟩

/-- Without a transmission the same frame is on its way. -/
structure SameTurn (h h' : Handle W N) : Prop where
  settings : h'.settings = h.settings
  tx : h'.hdlc.tx = h.hdlc.tx
  out : framesOut h'.log = framesOut h.log
  nextPeer : h'.nextPeer = h.nextPeer
  txSending : h'.events.txSending = h.events.txSending

theorem SameTurn.refl (h : Handle W N) : SameTurn h h := ⟨rfl, rfl, rfl, rfl, rfl⟩

theorem SameTurn.trans (hs : SameTurn h h₁) (hs' : SameTurn h₁ h₂) : SameTurn h h₂ :=
  ⟨hs'.settings.trans hs.settings, hs'.tx.trans hs.tx, hs'.out.trans hs.out,
    hs'.nextPeer.trans hs.nextPeer, hs'.txSending.trans hs.txSending⟩

theorem SameTurn.onPoll (hs : SameTurn h h₁) (hk : SlotKept h) (hk₁ : SlotKept h₁) :
    OnPoll h₁ ↔ OnPoll h := by
  rw [onPoll_iff hk, onPoll_iff hk₁, hs.tx, hs.out]

theorem WorksFor.sameTurn (hw : WorksFor p h h₁) : SameTurn h h₁ :=
  ⟨hw.settings, by rw [hw.hdlc], hw.out, hw.nextPeer, hw.txSending⟩

theorem Around.sameTurn {A : Handle W N → Prop} (ha : Around A h h₁) : SameTurn h h₁ := by
  have htx := ha.tx
  cases ha with
  | same settings _ txSending _ _ nextPeer _ out => exact ⟨settings, htx, out, nextPeer, txSending⟩
  | works hworks => exact hworks.sameTurn
  | stores _ _ hs => exact ⟨hs.settings, htx, hs.out, hs.nextPeer, hs.txSending⟩
  | register _ _ _ hr => exact ⟨by rw [hr]; rfl, htx, by rw [hr]; rfl, by rw [hr]; rfl, by rw [hr]; rfl⟩

/-! ## What is received -/

/-- The frame hands the marker over. -/
def Hands (h : Handle W N) (data : List Byte) : Prop :=
  ∃ address control payload, data = address :: control :: payload ∧
    addressFieldToPeer h address ≠ none ∧ control &&& pBit ≠ 0

/-- The frames that come in. -/
def framesIn (hdlc : HdlcLl (SlotRef W)) : Incoming → List (List Byte)
  | [] => []
  | x :: incoming => framesOf (onRxData hdlc x.2).2 ++ framesIn (onRxData hdlc x.2).1 incoming

/-- One of the frames that come in hands the marker over. -/
def Answers (h : Handle W N) (incoming : Incoming) : Prop :=
  ∃ data ∈ framesIn h.hdlc incoming, Hands h data

theorem addressFieldToPeer_congr (hset : h₁.settings = h.settings)
    (haddr : ∀ q, (h₁.peers q).addr = (h.peers q).addr) (a : Byte) :
    addressFieldToPeer h₁ a = addressFieldToPeer h a := by
  rw [addressFieldToPeer_eq, addressFieldToPeer_eq]
  simp only [haddr, hset, Multi.congr hset]

/-- What a frame leaves alone, and the marker if the frame does not hand it over. -/
structure Receives (h h' : Handle W N) (quiet : Prop) : Prop where
  settings : h'.settings = h.settings
  addr : ∀ q, (h'.peers q).addr = (h.peers q).addr
  hdlc : h'.hdlc = h.hdlc
  marker : quiet → h'.events.hasMarker = h.events.hasMarker

theorem onFrameRead_receives (h : Handle W N) (data : List Byte) :
    Receives h (onFrameRead h data) (¬Hands h data) := by
  unfold onFrameRead
  split
  · next address control payload =>
    dsimp only
    obtain ⟨k, hk⟩ : ∃ k, k = h.emit (.frameIn (address :: control :: payload)) := ⟨_, rfl⟩
    have hsame : Receives h k (¬Hands h (address :: control :: payload)) := by
      rw [hk]
      exact ⟨rfl, fun _ => rfl, rfl, fun _ => rfl⟩
    rw [← hk]
    split
    · exact hsame
    · next p hp =>
      have hworks : WorksFor p k (onPeerFrame (noteReceived k p) p address control payload) :=
        (WorksFor.setPeer k p rfl).trans (onPeerFrame_works _ p _ _ _)
      have hfound : addressFieldToPeer h address ≠ none := by
        rw [← addressFieldToPeer_congr hsame.settings hsame.addr, hp]
        exact Option.some_ne_none p
      unfold captureMarker
      split
      · next hmark =>
        refine ⟨hworks.settings.trans hsame.settings,
          fun q => (hworks.addr_eq q).trans (hsame.addr q), hworks.hdlc.trans hsame.hdlc,
          fun hquiet => absurd ⟨address, control, payload, rfl, hfound, hmark.2⟩ hquiet⟩
      · exact ⟨hworks.settings.trans hsame.settings,
          fun q => (hworks.addr_eq q).trans (hsame.addr q), hworks.hdlc.trans hsame.hdlc,
          fun hquiet => hworks.hasMarker.trans (hsame.marker hquiet)⟩
  · exact ⟨rfl, fun _ => rfl, rfl, fun _ => rfl⟩

theorem Hands.congr (hset : h₁.settings = h.settings)
    (haddr : ∀ q, (h₁.peers q).addr = (h.peers q).addr) (data : List Byte) :
    Hands h₁ data ↔ Hands h data := by
  unfold Hands
  simp only [addressFieldToPeer_congr hset haddr]

theorem frames_receive : ∀ (frames : List (List Byte)) (h : Handle W N),
    Receives h (frames.foldl onFrameRead h) (∀ data ∈ frames, ¬Hands h data)
  | [], _ => ⟨rfl, fun _ => rfl, rfl, fun _ => rfl⟩
  | data :: frames, h => by
    have hfirst := onFrameRead_receives h data
    have hrest := frames_receive frames (onFrameRead h data)
    refine ⟨hrest.settings.trans hfirst.settings, fun q => (hrest.addr q).trans (hfirst.addr q),
      hrest.hdlc.trans hfirst.hdlc, fun hquiet => ?_⟩
    refine (hrest.marker fun d hd => ?_).trans (hfirst.marker (hquiet data (List.mem_cons_self ..)))
    rw [Hands.congr hfirst.settings hfirst.addr]
    exact hquiet d (List.mem_cons_of_mem _ hd)

theorem incoming_receives : ∀ (incoming : Incoming) (h : Handle W N),
    ∃ k, incoming.foldl (fun h x => fdOnRxData { h with millis := h.millis + x.1 } x.2) h = k ∧
      k.settings = h.settings ∧ (∀ q, (k.peers q).addr = (h.peers q).addr) ∧
      (¬Answers h incoming → k.events.hasMarker = h.events.hasMarker)
  | [], h => ⟨h, rfl, rfl, fun _ => rfl, fun _ => rfl⟩
  | x :: incoming, h => by
    obtain ⟨m, hm⟩ : ∃ m : Handle W N, m = { h with
      millis := h.millis + x.1, hdlc := (onRxData h.hdlc x.2).1 } := ⟨_, rfl⟩
    have hframes := frames_receive (framesOf (onRxData h.hdlc x.2).2) m
    obtain ⟨n, hn⟩ : ∃ n, n = (framesOf (onRxData h.hdlc x.2).2).foldl onFrameRead m := ⟨_, rfl⟩
    have hfirst : fdOnRxData { h with millis := h.millis + x.1 } x.2 = n := by
      rw [hn, hm]
      rfl
    rw [← hn] at hframes
    have hset : n.settings = h.settings := by
      rw [hframes.settings, hm]
    have haddr : ∀ q, (n.peers q).addr = (h.peers q).addr := by
      intro q
      rw [hframes.addr, hm]
    obtain ⟨k, hk, hkset, hkaddr, hkmark⟩ := incoming_receives incoming n
    refine ⟨k, ?_, hkset.trans hset, fun q => (hkaddr q).trans (haddr q), fun hno => ?_⟩
    · rw [List.foldl_cons, hfirst]
      exact hk
    · have hno₁ : ∀ data ∈ framesOf (onRxData h.hdlc x.2).2, ¬Hands m data := by
        intro data hd hhands
        have hm' : Hands h data := by
          rw [hm] at hhands
          exact hhands
        exact hno ⟨data, List.mem_append_left _ hd, hm'⟩
      have hno₂ : ¬Answers n incoming := by
        rintro ⟨data, hd, hhands⟩
        rw [Hands.congr hset haddr] at hhands
        rw [hframes.hdlc, hm] at hd
        exact hno ⟨data, List.mem_append_right _ hd, hhands⟩
      rw [hkmark hno₂, hframes.marker hno₁, hm]

theorem waitEvents_receives (flag : Events → Bool) (timeout : Nat) (incoming : Incoming)
    (h : Handle W N) : ∃ k, waitEvents flag timeout incoming h = k ∧ k.settings = h.settings ∧
      (∀ q, (k.peers q).addr = (h.peers q).addr) ∧
      (¬Answers h incoming → k.events.hasMarker = h.events.hasMarker) := by
  unfold waitEvents
  split
  · exact ⟨h, rfl, rfl, fun _ => rfl, fun _ => rfl⟩
  · exact incoming_receives incoming h

/-- What the other thread preserves, waiting preserves. -/
theorem waitEvents_rule {P : Handle W N → Prop} (hw : Addressed h)
    (hstep : ∀ k k', Addressed k → P k → Around (fun _ => False) k k' → P k') (hP : P h)
    (flag : Events → Bool) (timeout : Nat) (incoming : Incoming) :
    P (waitEvents flag timeout incoming h) := by
  have hcall : ∀ (c : Call) (k : Handle W N), ¬c.Transmits → (∀ a d, c ≠ .sendPacketTo a d) →
      Addressed k ∧ P k → Addressed (call k c) ∧ P (call k c) := by
    intro c k hc hno hk
    exact call_rule (A := fun _ => False) (P := fun k => Addressed k ∧ P k) hk.1 hc
      (fun a d heq => absurd heq (hno a d))
      (fun k k' hwk hPk ha => ⟨hwk.around ha, hstep k k' hwk hPk.2 ha⟩) hk
  have hall : ∀ (incoming : Incoming) (k : Handle W N), Addressed k ∧ P k →
      P (incoming.foldl (fun h x => fdOnRxData { h with millis := h.millis + x.1 } x.2) k) := by
    intro incoming
    induction incoming with
    | nil => exact fun k hk => hk.2
    | cons x incoming ih =>
      intro k hk
      have htick := hcall (.tick x.1) k id (fun _ _ => nofun) hk
      exact ih _ (hcall (.onRxData x.2) _ id (fun _ _ => nofun) htick)
  unfold waitEvents
  split
  · exact hP
  · exact hall incoming h ⟨hw, hP⟩

/-! ## In a transmission -/

/-- A primary station in NRM. -/
def PollsPeers (h : Handle W N) : Prop := h.settings.mode = .nrm ∧ h.isPrimaryStation = true

theorem PollsPeers.congr (hm : PollsPeers h) (hset : h₁.settings = h.settings) :
    PollsPeers h₁ := by
  unfold PollsPeers Handle.isPrimaryStation
  rw [hset]
  exact hm

/-- With P the marker goes, and it is the next peer's turn. -/
theorem onFrameSend_turn {r : SlotRef W} (hr : Resolves h (h.slot r).address)
    (hm : PollsPeers h) :
    ((h.slot r).control &&& pBit ≠ 0 → (onFrameSend h r).nextPeer = following h h.nextPeer ∧
      (onFrameSend h r).events.hasMarker = false) ∧
    ((h.slot r).control &&& pBit = 0 → (onFrameSend h r).nextPeer = h.nextPeer) := by
  unfold onFrameSend
  dsimp only
  split
  · next hnone => exact absurd hnone hr
  · obtain ⟨q, hq, -⟩ := freed_eq h r (h.slot r).control
    rw [hq]
    have hprim : ({ h with sQueue := q } : Handle W N).isPrimaryStation = true := hm.2
    unfold releaseMarker
    constructor
    · intro hpoll
      rw [if_pos ⟨hm.1, hpoll⟩]
      dsimp only
      rw [if_pos hprim]
      exact ⟨rfl, rfl⟩
    · intro hpoll
      rw [if_neg fun hc => hc.2 hpoll]
      rfl

theorem InTurn.runTx (ht : InTurn before h) (hi : InStep h) (hm : PollsPeers h) (len : Nat) :
    InTurn before (runTx h len).1 := by
  have hran := runTx_ran hi len
  generalize (Fd.runTx h len).1 = k at hran
  generalize (Fd.runTx h len).2.1 = bs at hran
  cases hran with
  | @filled ll _ _ hod _ =>
    have hpoll : OnPoll { h with hdlc := ll } ↔ OnPoll h := by
      unfold OnPoll
      simp only [slot_ll]
      rw [show ({ h with hdlc := ll } : Handle W N).hdlc.tx.originData = h.hdlc.tx.originData from hod]
    exact ht.congr rfl hpoll rfl fun _ => rfl
  | @completed ll _ r _ hrun hod hnone _ =>
    have hres := hi.resolves_ll hod ll
    have hc := onFrameSend_completes hres
    have hturn := onFrameSend_turn hres (hm.congr rfl)
    rw [slot_ll] at hturn
    obtain ⟨new, hnew, hchain, hlast⟩ := ht.turns
    have hidle : ¬OnPoll (onFrameSend { h with hdlc := ll } r) := by
      rintro ⟨r', hr', -⟩
      rw [hc.hdlc] at hr'
      cases hnone.symm.trans hr'
    have haddr : ∀ q, ((onFrameSend { h with hdlc := ll } r).peers q).addr = (h.peers q).addr := by
      intro q
      rw [hc.peers]
    refine ⟨new, by rw [hc.log]; exact hnew, by rw [following_congr haddr]; exact hchain,
      fun q hq => ⟨fun hpoll => absurd hpoll hidle, fun _ => ?_⟩⟩
    rw [following_congr haddr]
    obtain ⟨hon, hoff⟩ := hlast q hq
    by_cases hpoll : (h.slot r).control &&& pBit = 0
    · have hnot : ¬OnPoll h := by
        rintro ⟨r', hr', hp'⟩
        cases hod.symm.trans hr'
        exact hp' hpoll
      exact (hturn.2 hpoll).trans (hoff hnot)
    · have hnext := (hturn.1 hpoll).1
      have hsame : following ({ h with hdlc := ll } : Handle W N) = following h := rfl
      rw [hnext, hsame]
      exact congrArg (following h) (hon ⟨r, hod, hpoll⟩)

/-- A frame is chosen for the peer whose turn it is. -/
theorem InTurn.tries (ht : InTurn before h) (hi : InStep h) (hs : h.events.txSending = false)
    {t : Turn W N} (htries : Tries h p t) (hp : t.isChosen = true → h.nextPeer = p) :
    InTurn before t.handle := by
  have hnone := hi.idle hs
  have hidle : ¬OnPoll h := by
    rintro ⟨r, hr, -⟩
    cases hnone.symm.trans hr
  cases htries with
  | @chosen m r _ hprep hf hlog =>
    have htx := @startFrame_tx _ _ _ _ m r (by rw [hprep.hdlc]; exact hnone)
    obtain ⟨new, hnew, hchain, hlast⟩ := ht.turns
    have hnext := hp rfl
    have hslot : (startFrame m r).slot r = m.slot r := by cases r <;> rfl
    have hpoll : OnPoll (startFrame m r) ↔ Polled (m.slot r).bytes = true := by
      rw [polled_slot]
      constructor
      · rintro ⟨r', hr', hp'⟩
        rw [htx] at hr'
        cases hr'
        rwa [hslot] at hp'
      · intro hp'
        exact ⟨r, by rw [htx], by rwa [hslot]⟩
    have haddr : ∀ q, ((startFrame m r).peers q).addr = (h.peers q).addr := hprep.addr
    have hpolls : polls (startFrame m r).log =
        before ++ new ++ (if Polled (m.slot r).bytes = true then [p] else []) := by
      show polls m.log = _
      rw [← hnew, hlog]
      unfold polls
      rw [framesOut_append, List.filter_append, List.map_append]
      congr 1
      show ((([(p, (m.slot r).bytes)] : List (Fin N × List Byte))).filter _).map _ = _
      by_cases hb : Polled (m.slot r).bytes = true
      · simp [hb]
      · simp [hb]
    show InTurn before (startFrame m r)
    by_cases hb : Polled (m.slot r).bytes = true
    · rw [if_pos hb, List.append_assoc] at hpolls
      refine ⟨new ++ [p], hpolls, ?_, fun q hq => ?_⟩
      · rw [following_congr haddr]
        refine List.isChain_append.mpr ⟨hchain, List.isChain_singleton p, fun a ha b hb => ?_⟩
        cases hb
        rw [← hnext]
        exact (hlast a ha).2 hidle
      · rw [List.getLast?_concat] at hq
        cases hq
        exact ⟨fun _ => (show m.nextPeer = p from hprep.nextPeer.trans hnext),
          fun hno => absurd (hpoll.mpr hb) hno⟩
    · rw [if_neg hb, List.append_nil] at hpolls
      refine ⟨new, hpolls, by rw [following_congr haddr]; exact hchain, fun q hq => ?_⟩
      refine ⟨fun hno => absurd (hpoll.mp hno) hb, fun _ => ?_⟩
      rw [following_congr haddr]
      exact (show m.nextPeer = _ from hprep.nextPeer.trans ((hlast q hq).2 hidle))
  | none hnot hprep hlog =>
    refine ht.congr (by rw [hlog]) ⟨?_, fun hno => absurd hno hidle⟩ hprep.nextPeer hprep.addr
    rintro ⟨r, hr, -⟩
    rw [hprep.hdlc] at hr
    cases hnone.symm.trans hr
  | returned _ _ _ =>
    refine ht.congr ((framesOut_append ..).trans (List.append_nil _))
      ⟨?_, fun hno => absurd hno hidle⟩ rfl fun _ => rfl
    rintro ⟨r, hr, -⟩
    cases hnone.symm.trans hr

/-! ## Overtaking -/

/-- A frame with P is on its way and will be done in this call with room left in the buffer,
there is another peer, and an answer comes in while the call waits for the marker. -/
def Overtakes (h : Handle W N) (len : Nat) (w : Waits) : Prop :=
  OnPoll h ∧ (h.hdlc.pending h.mem).length < len ∧ following h h.nextPeer ≠ h.nextPeer ∧
    w.timeout ≠ 0 ∧ Answers h w.marker

/-- No marker comes in at the wait point. -/
def Unanswered (w : Waits) (h : Handle W N) : Prop :=
  h.events.hasMarker = false ∧ (w.timeout = 0 ∨ ¬Answers h w.marker)

theorem framesIn_withTx (tx : Tx (SlotRef W)) : ∀ (incoming : Incoming) (hdlc : HdlcLl (SlotRef W)),
    framesIn (hdlc.withTx tx) incoming = framesIn hdlc incoming
  | [], _ => rfl
  | x :: incoming, hdlc => by
    unfold framesIn
    rw [onRxData_withTx]
    dsimp only
    rw [framesIn_withTx tx incoming]

theorem Answers.congr (hset : h₁.settings = h.settings)
    (haddr : ∀ q, (h₁.peers q).addr = (h.peers q).addr)
    (hll : h₁.hdlc = h.hdlc.withTx h₁.hdlc.tx) (incoming : Incoming) :
    Answers h₁ incoming ↔ Answers h incoming := by
  unfold Answers
  rw [hll, framesIn_withTx]
  simp only [Hands.congr hset haddr]

/-- What a wait leaves alone. -/
theorem waitEvents_sameTurn (hw : Addressed h) (hi : InStep h) (flag : Events → Bool)
    (timeout : Nat) (incoming : Incoming) :
    Addressed (waitEvents flag timeout incoming h) ∧ InStep (waitEvents flag timeout incoming h) ∧
      SameTurn h (waitEvents flag timeout incoming h) ∧
      ∀ wire, Kept h wire → Kept (waitEvents flag timeout incoming h) wire := by
  refine waitEvents_rule
    (P := fun k => Addressed k ∧ InStep k ∧ SameTurn h k ∧ ∀ wire, Kept h wire → Kept k wire)
    hw (fun k k' hwk hP ha => ?_) ⟨hw, hi, .refl h, fun _ hk => hk⟩ flag timeout incoming
  obtain ⟨-, hik, hs, hkeep⟩ := hP
  exact ⟨hwk.around ha, hik.around hwk ha, hs.trans ha.sameTurn,
    fun wire hk => (hkeep wire hk).around hik (ha.mono fun _ hf => hf.elim)⟩

/-- The part behind the wait point is a try to send after the waits. -/
theorem tryToSendWaiting_after (hw : Addressed h) (hi : InStep h) (w : Waits) (p : Fin N) :
    ∃ k, tryToSendWaiting w h p = tryToSend k p ∧ Addressed k ∧ InStep k ∧ SameTurn h k ∧
      (∀ wire, Kept h wire → Kept k wire) ∧ (∀ q, (k.peers q).addr = (h.peers q).addr) ∧
      (Unanswered w h → k.events.hasMarker = false) := by
  obtain ⟨hw₁, hi₁, hs₁, hk₁⟩ := waitEvents_sameTurn hw hi Events.hasMarker w.timeout w.marker
  obtain ⟨k₁, he₁, -, haddr₁, hquiet⟩ :=
    waitEvents_receives Events.hasMarker w.timeout w.marker h
  unfold tryToSendWaiting
  dsimp only
  rw [he₁] at hw₁ hi₁ hk₁ hs₁ ⊢
  have hsilent : Unanswered w h → k₁.events.hasMarker = false := by
    rintro ⟨hno, hzero | hnone⟩
    · have hsame : k₁ = h := by
        rw [← he₁]
        exact if_pos (.inr hzero)
      rw [hsame]
      exact hno
    · exact (hquiet hnone).trans hno
  split
  · next hmark =>
    obtain ⟨hw₂, hi₂, hs₂, hk₂⟩ :=
      waitEvents_sameTurn hw₁ hi₁ Events.txDataAvailable w.timeout w.data
    obtain ⟨k₂, he₂, -, haddr₂, -⟩ :=
      waitEvents_receives Events.txDataAvailable w.timeout w.data k₁
    rw [he₂] at hw₂ hi₂ hk₂ hs₂ ⊢
    refine ⟨k₂, rfl, hw₂, hi₂, hs₁.trans hs₂, fun wire hk => hk₂ wire (hk₁ wire hk),
      fun q => (haddr₂ q).trans (haddr₁ q), fun hsil => ?_⟩
    cases hmark.symm.trans (hsilent hsil)
  · exact ⟨k₁, rfl, hw₁, hi₁, hs₁, hk₁, haddr₁, hsilent⟩

/-- More turns of the loop than the model allows for change nothing, also with waits. -/
theorem getTxDataWaiting_stops (hw : Addressed h) (hi : InStep h) (hreg : Registered h h.nextPeer)
    (len : Nat) (w : Waits) {fuel : Nat} (hf : 2 * len + 3 ≤ fuel) :
    getTxDataLoopWith (fun k => tryToSendWaiting w k h.nextPeer) len h.nextPeer fuel true false h [] =
      getTxDataWaiting h len w := by
  have htried : ∀ k : Handle W N, InStep k → Addressed k → k.events.txSending = false →
      Live k h.nextPeer → (k.peers k.nextPeer).addr ≠ invalidAddr →
      Tried k (tryToSendWaiting w k h.nextPeer) := by
    intro k hik hwk ht hlive hnext
    obtain ⟨m, htry, hwm, him, hsame, -, haddr, -⟩ := tryToSendWaiting_after hwk hik w h.nextPeer
    have hlivem : Live m h.nextPeer := by
      refine ⟨?_, by rw [haddr]; exact hlive.2⟩
      rw [addressFieldToPeer_congr hsame.settings haddr, haddr]
      exact hlive.1
    have htried := tryToSend_tried him hwm (hsame.txSending.trans ht) hlivem
      (by rw [hsame.nextPeer, haddr]; exact hnext)
    rw [htry]
    refine ⟨htried.inStep, htried.settings.trans hsame.settings,
      fun q => (htried.addr q).trans (haddr q), htried.nextPeer.trans hsame.nextPeer,
      htried.inside.trans ?_, htried.sending, ?_⟩
    · rw [hsame.tx]
    · have hwait : Grows k m 0 := .of_eq hsame.out
      have hg := hwait.trans htried.grows
      rwa [Nat.zero_add] at hg
  have hu : ¬Multi h → h.nextPeer = 0 := fun hm => (hw.single hm).2
  have hcont := fun fuel => (getTxDataLoopWith_continues _ htried len fuel true false h [] hw hi
    hu hreg hreg (Nat.zero_le len)).2
  induction fuel with
  | zero => omega
  | succ fuel ih =>
    by_cases hlast : 2 * len + 3 = fuel + 1
    · rw [← hlast]
      rfl
    · rw [hcont fuel (by simp; omega)]
      exact ih (by omega)

/-! ## A call -/

/-- What every turn of the loop that serves `p` keeps.  `h₀` is the state before the call. -/
structure Steady (h₀ : Handle W N) (p : Fin N) (h : Handle W N) : Prop where
  addressed : Addressed h
  inStep : InStep h
  kept : ∃ wire, Kept h wire
  settings : h.settings = h₀.settings
  addr : ∀ q, (h.peers q).addr = (h₀.peers q).addr
  single : ¬Multi h₀ → p = 0
  next : Registered h p → Registered h h.nextPeer

variable {h₀ : Handle W N}

theorem Steady.runTx (hs : Steady h₀ p h) (ht : h.events.txSending = true) (len : Nat) :
    Steady h₀ p (runTx h len).1 := by
  have hruns := runTx_runsOn hs.inStep ht len
  obtain ⟨wire, hk⟩ := hs.kept
  refine ⟨?_, hruns.inStep, ⟨_, hk.runTx hs.inStep len⟩, hruns.settings.trans hs.settings, ?_,
    hs.single, ?_⟩
  · exact run_addressed (runTx_run (h := h) (G := AnyAct) (fun _ _ _ => trivial)
      (fun _ _ => trivial) len) hs.addressed
  · rw [hruns.peers]
    exact hs.addr
  · unfold Registered
    rw [hruns.peers]
    exact fun hreg => hruns.peers ▸ hruns.registered (hs.next hreg)

theorem Steady.idle (hs : Steady h₀ p h) : Steady h₀ p (checkIdleTimeout h p) := by
  have hworks := checkIdleTimeout_works h p
  obtain ⟨wire, hk⟩ := hs.kept
  refine ⟨hs.addressed.congr hworks.settings hworks.nextPeer hworks.addr_eq,
    hs.inStep.works hs.addressed hworks, ⟨wire, hk.works hs.inStep hworks⟩,
    hworks.settings.trans hs.settings, fun q => (hworks.addr_eq q).trans (hs.addr q), hs.single, ?_⟩
  unfold Registered
  rw [hworks.nextPeer, hworks.addr_eq, hworks.addr_eq]
  exact hs.next

/-- The waits, and then the try to send. -/
theorem Steady.waits (hs : Steady h₀ p h) (w : Waits) :
    ∃ k, tryToSendWaiting w h p = tryToSend k p ∧ Steady h₀ p k ∧ SameTurn h k ∧
      (Unanswered w h → k.events.hasMarker = false) := by
  obtain ⟨k, htry, hwk, hik, hsame, hkeep, haddr, hsilent⟩ :=
    tryToSendWaiting_after hs.addressed hs.inStep w p
  obtain ⟨wire, hk⟩ := hs.kept
  refine ⟨k, htry, ⟨hwk, hik, ⟨wire, hkeep wire hk⟩, hsame.settings.trans hs.settings,
    fun q => (haddr q).trans (hs.addr q), hs.single, ?_⟩, hsame, hsilent⟩
  unfold Registered
  rw [hsame.nextPeer, haddr, haddr]
  exact hs.next

theorem Steady.tries (hs : Steady h₀ p h) (ht : h.events.txSending = false)
    (hreg : Registered h p) : Steady h₀ p (tryToSend h p).handle := by
  have hu : ¬Multi h → p = 0 := by
    rw [Multi.congr hs.settings]
    exact hs.single
  have htried := tryToSend_tried hs.inStep hs.addressed ht (hs.addressed.live_of_unique hreg hu)
    (hs.next hreg)
  obtain ⟨wire, hk⟩ := hs.kept
  refine ⟨hs.addressed.congr htried.settings htried.nextPeer htried.addr, htried.inStep,
    ⟨wire, hk.tries hs.inStep ht (tryToSend_tries h p)⟩, htried.settings.trans hs.settings,
    fun q => (htried.addr q).trans (hs.addr q), hs.single, ?_⟩
  unfold Registered
  rw [htried.nextPeer, htried.addr, htried.addr]
  exact hs.next

/-- What holds at every turn besides, if the stations are polled. -/
structure Serving (before : List (Fin N)) (h₀ : Handle W N) (p : Fin N) (len : Nat) (w : Waits)
    (waitPointPassed : Bool) (h : Handle W N) (data : List Byte) : Prop where
  steady : Steady h₀ p h
  inTurn : InTurn before h
  /-- In front of the wait point it is the peer's turn, or there will be no marker. -/
  phase : waitPointPassed = false → len ≤ data.length ∨
    (h = h₀ ∧ data = [] ∧ h₀.events.txSending = true) ∨
    h.events.txSending = false ∧ (h.nextPeer = p ∨ Unanswered w h)

theorem Serving.runTx {len : Nat} {w : Waits} {b : Bool} {data : List Byte} (hm : PollsPeers h₀)
    (hs : Serving before h₀ p len w b h data) (ht : h.events.txSending = true)
    (hlt : data.length < len) (hno : ¬Overtakes h₀ len w) (hp : h₀.nextPeer = p) :
    Serving before h₀ p len w b (runTx h (len - data.length)).1
      (data ++ (runTx h (len - data.length)).2.1) := by
  have hi := hs.steady.inStep
  have hm := hm.congr hs.steady.settings
  refine ⟨hs.steady.runTx ht _, hs.inTurn.runTx hi hm _, fun hb => ?_⟩
  rcases hs.phase hb with hfull | ⟨rfl, rfl, -⟩ | ⟨hidle, -⟩
  · omega
  · -- The frame that was on its way when the call began.
    obtain ⟨wire, hk⟩ := hs.steady.kept
    have hok : h.hdlc.TxOk h.mem := ⟨hi.crc, hk.ok⟩
    have hout := (runTx_pending hok len).1
    have hran := runTx_ran hi len
    have hbusy : h.hdlc.tx.originData ≠ none := by
      have hb := hi.busy
      rw [ht] at hb
      exact Option.isSome_iff_ne_none.mp hb.symm
    simp only [List.length_nil, Nat.sub_zero, List.nil_append] at *
    generalize (Fd.runTx h len).1 = k at *
    generalize (Fd.runTx h len).2.1 = bs at *
    cases hran with
    | filled hrun hod hfull => exact .inl (Nat.le_of_eq (hfull hbusy).symm)
    | @completed ll _ r n hrun hod hnone hne =>
      rw [hrun] at hout
      have hres := hi.resolves_ll hod ll
      have hc := onFrameSend_completes hres
      have hsend := onFrameSend_turn hres (hm.congr rfl)
      rw [slot_ll] at hsend
      by_cases hpoll : (h.slot r).control &&& pBit = 0
      · exact .inr (.inr ⟨hc.txSending, .inl ((hsend.2 hpoll).trans hp)⟩)
      · by_cases hroom : (h.hdlc.pending h.mem).length < len
        · refine .inr (.inr ⟨hc.txSending, ?_⟩)
          obtain ⟨hnext, hmark⟩ := hsend.1 hpoll
          by_cases hother : following h h.nextPeer = h.nextPeer
          · exact .inl (hnext.trans (hother.trans hp))
          · refine .inr ⟨hmark, ?_⟩
            by_cases hzero : w.timeout = 0
            · exact .inl hzero
            · refine .inr fun hans => hno ⟨⟨r, hod, hpoll⟩, hroom, hother, hzero, ?_⟩
              have hll : ll = h.hdlc.withTx ll.tx := by
                have hfst := congrArg Prod.fst hrun
                rw [← show (hdlcLlRunTx h.mem h.hdlc len).1 = ll from hfst]
                rfl
              have hset : (onFrameSend { h with hdlc := ll } r).settings = h.settings :=
                hc.settings
              have haddr : ∀ q, ((onFrameSend { h with hdlc := ll } r).peers q).addr =
                  (h.peers q).addr := by
                intro q
                rw [hc.peers]
              refine (Answers.congr hset haddr ?_ _).mp hans
              rw [hc.hdlc]
              exact hll
        · refine .inl ?_
          rw [show bs = _ from hout, List.length_take]
          omega
  · cases hidle.symm.trans ht

theorem Serving.idle {len : Nat} {w : Waits} {b : Bool} {data : List Byte}
    (hs : Serving before h₀ p len w b h data) (ht : h.events.txSending = false)
    (hlt : data.length < len) : Serving before h₀ p len w b (checkIdleTimeout h p) data := by
  have hworks := checkIdleTimeout_works h p
  have hsteady := hs.steady.idle
  obtain ⟨_, hk⟩ := hs.steady.kept
  obtain ⟨_, hk'⟩ := hsteady.kept
  generalize checkIdleTimeout h p = k at hworks hsteady hk'
  refine ⟨hsteady, hs.inTurn.congr hworks.out (hworks.sameTurn.onPoll hk.slot hk'.slot)
    hworks.nextPeer hworks.addr_eq, fun hb => ?_⟩
  rcases hs.phase hb with hfull | ⟨rfl, -, hsend⟩ | ⟨-, hturn⟩
  · omega
  · cases ht.symm.trans hsend
  · refine .inr (.inr ⟨hworks.txSending.trans ht, ?_⟩)
    rcases hturn with hnext | ⟨hmark, hsilent⟩
    · exact .inl (hworks.nextPeer.trans hnext)
    · refine .inr ⟨hworks.hasMarker.trans hmark, ?_⟩
      rwa [Answers.congr hworks.settings hworks.addr_eq (by rw [hworks.hdlc]; rfl)]

theorem Serving.try {len : Nat} {w : Waits} {data : List Byte}
    (hs : Serving before h₀ p len w false h data) (ht : h.events.txSending = false)
    (hlt : data.length < len) (hreg : Registered h p) :
    Serving before h₀ p len w true (tryToSendWaiting w h p).handle data := by
  obtain ⟨k, htry, hk, hsame, hsilent⟩ := hs.steady.waits w
  have haddr : ∀ q, (k.peers q).addr = (h.peers q).addr :=
    fun q => (hk.addr q).trans (hs.steady.addr q).symm
  have htk := hsame.txSending.trans ht
  have hregk : Registered k p := by
    unfold Registered
    rw [haddr]
    exact hreg
  obtain ⟨_, hkept⟩ := hs.steady.kept
  obtain ⟨_, hkeptk⟩ := hk.kept
  have hturn := hs.inTurn.congr hsame.out (hsame.onPoll hkept.slot hkeptk.slot) hsame.nextPeer haddr
  have htries := tryToSend_tries k p
  have hchosen : (tryToSend k p).isChosen = true → k.nextPeer = p := by
    intro hc
    rcases hs.phase rfl with hfull | ⟨rfl, -, hsend⟩ | ⟨-, hnext | hsil⟩
    · omega
    · cases ht.symm.trans hsend
    · exact hsame.nextPeer.trans hnext
    · generalize tryToSend k p = t at htries hc
      cases htries with
      | chosen hmark => cases hmark.symm.trans (hsilent hsil)
      | none hnot => cases hnot.symm.trans hc
      | returned => cases hc
  rw [htry]
  exact ⟨hk.tries htk hregk, hturn.tries hk.inStep htk htries hchosen, nofun⟩

/-! ## Runs -/

/-- What holds between two activities. -/
structure Settled (h : Handle W N) : Prop where
  addressed : Addressed h
  inStep : InStep h
  kept : ∃ wire, Kept h wire

theorem Settled.steady (hi : Settled h) : Steady h h.nextPeer h :=
  ⟨hi.addressed, hi.inStep, hi.kept, rfl, fun _ => rfl, fun hm => (hi.addressed.single hm).2, id⟩

theorem Steady.settled (hs : Steady h₀ p h) : Settled h := ⟨hs.addressed, hs.inStep, hs.kept⟩

/-- A packet is not stored in the slot that is being drained. -/
def SparesSlot (h : Handle W N) : Activity → Prop
  | .call c => KeepsSlot h c
  | .getTxData _ _ => True

/-- A call that does not transmit leaves the turn. -/
theorem Settled.call (hi : Settled h) {c : Call} (hc : ¬c.Transmits) (hspare : KeepsSlot h c) :
    Settled (call h c) ∧ SameTurn h (Fd.call h c) := by
  by_cases hadmits : ∃ address data, c = .sendPacketTo address data ∧ ¬Admits h address data
  · obtain ⟨address, data, rfl, hno⟩ := hadmits
    have hsame : Fd.call h (.sendPacketTo address data) = h := sendPacketTo_refused hno
    rw [hsame]
    exact ⟨hi, .refl h⟩
  · have hspares : ∀ address data, c = .sendPacketTo address data → Spares h :=
      fun address data heq => hspare address data heq
        (by_contra fun hno => hadmits ⟨address, data, heq, hno⟩)
    refine call_rule (P := fun k => Settled k ∧ SameTurn h k) hi.addressed hc hspares
      (fun k k' hwk hP ha => ?_) ⟨hi, .refl h⟩
    obtain ⟨⟨_, hik, wire, hk⟩, hs⟩ := hP
    exact ⟨⟨hwk.around ha, hik.around hwk ha, wire, hk.around hik ha⟩, hs.trans ha.sameTurn⟩

theorem Settled.getTxDataWaiting (hi : Settled h) (len : Nat) (w : Waits) :
    Settled (getTxDataWaiting h len w).h ∧
      (Fd.getTxDataWaiting h len w).h.settings = h.settings := by
  obtain ⟨_, _, hs, -⟩ := getTxDataLoopWith_rule (fun k => tryToSendWaiting w k h.nextPeer) len
    h.nextPeer (P := fun _ k _ => Steady h h.nextPeer k)
    (fun _ k data hk ht _ => hk.runTx ht _) (fun _ k _ hk _ _ _ => hk.idle)
    (fun k _ hk ht _ hp => by
      obtain ⟨m, htry, hm, hsame, -⟩ := hk.waits w
      rw [htry]
      refine hm.tries (hsame.txSending.trans ht) ?_
      unfold Registered
      rw [hm.addr, ← hk.addr]
      exact hp)
    (2 * len + 3) true false h [] hi.steady
  exact ⟨hs.settled, hs.settings⟩

/-- A handle that has been in use, also by two threads. -/
inductive Active : Handle W N → Prop where
  | init {init : InitParams} {hdlc : HdlcLl (SlotRef W)} {millis : BitVec 32} (hmin : 2 ≤ W)
      (hmax : W ≤ 7) (hll : Started hdlc) : Active (initHandle W N init hdlc millis)
  | act {h : Handle W N} (a : Activity) (ha : Active h) (hspare : SparesSlot h a) : Active (act h a)

theorem Settled.act (hi : Settled h) {a : Activity} (hspare : SparesSlot h a) :
    Settled (act h a) ∧ (Fd.act h a).settings = h.settings := by
  cases a with
  | call c =>
    by_cases hc : c.Transmits
    · cases c with
      | getTxData len =>
        have hwait := hi.getTxDataWaiting len ⟨0, [], []⟩
        rw [getTxDataWaiting_zero h len rfl] at hwait
        exact hwait
      | _ => exact absurd hc id
    · have hkeep := hi.call hc hspare
      exact ⟨hkeep.1, hkeep.2.settings⟩
  | getTxData len w => exact hi.getTxDataWaiting len w

theorem Active.settled (ha : Active h) : Settled h := by
  induction ha with
  | init hmin hmax hll =>
    exact ⟨(Produces.init (C := AnyCall) hmin hmax hll).reaches.addressed,
      initHandle_inStep _ _ hll, _, initHandle_kept _ _ hll⟩
  | act a _ hspare ih => exact (ih.act hspare).1

/-- The registered peers stay the same. -/
def SamePeers (h : Handle W N) (a : Activity) : Prop :=
  ∀ q, ((act h a).peers q).addr = (h.peers q).addr

/-- No answer overtakes, no packet is stored in the slot that is being drained, and the
registered peers stay the same. -/
structure Punctual (h : Handle W N) (a : Activity) : Prop where
  spares : SparesSlot h a
  samePeers : SamePeers h a
  inTime : ∀ len w, a = .getTxData len w → ¬Overtakes h len w

/-- The polls since `h₀` that are between two polls of one peer visit every other one once. -/
def Rounds (h₀ h : Handle W N) : Prop :=
  ∀ front mid back p q, polls h.log = polls h₀.log ++ (front ++ p :: (mid ++ p :: back)) →
    p ∉ mid → Registered h₀ q → q ≠ p → mid.count q = 1

theorem InTurn.getTxDataWaiting (ht : InTurn before h) (hi : Settled h) (hm : PollsPeers h)
    (len : Nat) (w : Waits) (hno : ¬Overtakes h len w) :
    InTurn before (getTxDataWaiting h len w).h := by
  have hstart : Serving before h h.nextPeer len w false h [] := by
    refine ⟨hi.steady, ht, fun _ => ?_⟩
    cases hs : h.events.txSending with
    | true => exact .inr (.inl ⟨rfl, rfl, rfl⟩)
    | false => exact .inr (.inr ⟨rfl, .inl rfl⟩)
  obtain ⟨_, _, hs, -⟩ := getTxDataLoopWith_rule (fun k => tryToSendWaiting w k h.nextPeer) len
    h.nextPeer (P := Serving before h h.nextPeer len w)
    (fun _ k data hk ht hlt => hk.runTx hm ht hlt hno rfl)
    (fun _ k data hk ht hlt _ => hk.idle ht hlt)
    (fun k data hk ht hlt hp => hk.try ht hlt hp)
    (2 * len + 3) true false h [] hstart
  exact hs.inTurn

theorem InTurn.act (ht : InTurn before h) (hi : Settled h) (hm : PollsPeers h) {a : Activity}
    (hok : Punctual h a) : InTurn before (act h a) := by
  cases a with
  | call c =>
    by_cases hc : c.Transmits
    · cases c with
      | getTxData len =>
        have hwait := ht.getTxDataWaiting hi hm len ⟨0, [], []⟩ fun hover => hover.2.2.2.1 rfl
        rw [getTxDataWaiting_zero h len rfl] at hwait
        exact hwait
      | _ => exact absurd hc id
    · obtain ⟨⟨_, _, _, hk⟩, hsame⟩ := hi.call hc hok.spares
      obtain ⟨_, hkept⟩ := hi.kept
      exact ht.congr hsame.out (hsame.onPoll hkept.slot hk.slot) hsame.nextPeer hok.samePeers
  | getTxData len w => exact ht.getTxDataWaiting hi hm len w (hok.inTime len w rfl)

/-- While no answer overtakes, every registered peer gets its turn. -/
theorem polling_fair {h₀ : Handle W N} (ha : Active h₀) (hm : PollsPeers h₀)
    (hr : Run (fun h a h' => h' = act h a) Punctual h₀ h) : Rounds h₀ h := by
  have hrun : Settled h ∧ PollsPeers h ∧ InTurn (polls h₀.log) h ∧
      ∀ q, (h.peers q).addr = (h₀.peers q).addr := by
    induction hr with
    | refl => exact ⟨ha.settled, hm, ⟨[], (List.append_nil _).symm, .nil, nofun⟩, fun _ => rfl⟩
    | @tail k _ a _ hok hs ih =>
      obtain ⟨hi, hpolls, hturn, haddr⟩ := ih
      obtain ⟨hi', hset⟩ := hi.act hok.spares
      rw [hs]
      exact ⟨hi', hpolls.congr hset, hturn.act hi hpolls hok,
        fun q => (hok.samePeers q).trans (haddr q)⟩
  obtain ⟨-, -, ⟨new, hnew, hchain, -⟩, haddr⟩ := hrun
  rw [following_congr haddr] at hchain
  intro front mid back p q hpolls hmid hq hne
  exact RoundRobin.count_between hchain (List.append_cancel_left (hnew.symm.trans hpolls)) hmid hq hne

/-- A primary station with two peers. -/
def polledPeers : Handle 2 2 :=
  call (call (smallHandle 2 2 .nrm) (.registerPeer 1)) (.registerPeer 2)

theorem polledPeers_active : Active polledPeers := by
  refine .act (.call (.registerPeer 2)) (.act (.call (.registerPeer 1))
    (.init (by decide) (by decide) (smallLl_started 2)) ?_) ?_
  · exact fun _ _ heq => nomatch heq
  · exact fun _ _ heq => nomatch heq

/-- A frame comes in while a call waits for the marker. -/
def answered (frame : List Byte) : Waits :=
  ⟨100, [(1, encodeFrame .crc16 frame)], []⟩

/-- Both peers are polled, and then the first one again. -/
def pollInTurn : List Activity :=
  [.getTxData 64 ⟨100, [], []⟩, .getTxData 64 (answered [0x05, 0x73]),
    .getTxData 64 (answered [0x09, 0x73])]

theorem polling_fair_pollInTurn : Rounds polledPeers (pollInTurn.foldl act polledPeers) := by
  have hidle : ∀ k : Handle 2 2, k.hdlc.tx.originData = none → ¬OnPoll k := by
    rintro k hnone ⟨r, hr, -⟩
    cases hnone.symm.trans hr
  have hok : ∀ (k : Handle 2 2) (len : Nat) (w : Waits), k.hdlc.tx.originData = none →
      (∀ q, ((act k (.getTxData len w)).peers q).addr = (k.peers q).addr) →
      Punctual k (.getTxData len w) := by
    intro k len w hnone haddr
    exact ⟨trivial, haddr, fun _ _ _ hover => hidle k hnone hover.1⟩
  refine polling_fair polledPeers_active ⟨rfl, rfl⟩ (Run.foldl ⟨?_, ?_, ?_, trivial⟩)
  · exact hok _ _ _ (by decide +kernel) (by decide +kernel)
  · exact hok _ _ _ (by decide +kernel) (by decide +kernel)
  · exact hok _ _ _ (by decide +kernel) (by decide +kernel)

example : polls (pollInTurn.foldl act polledPeers).log = [0, 1, 0] := by decide +kernel

/-- The SNRM is started in a small buffer.  The next call completes it, and waits. -/
def pollOvertaken : List Activity :=
  [.getTxData 4 ⟨100, [], []⟩, .getTxData 64 (answered [0x05, 0x73])]

/-- The first peer is polled twice in a row. -/
theorem poll_overtaken : Active polledPeers ∧ PollsPeers polledPeers ∧
    Run (fun h a h' => h' = act h a) SamePeers polledPeers (pollOvertaken.foldl act polledPeers) ∧
    ¬Rounds polledPeers (pollOvertaken.foldl act polledPeers) := by
  refine ⟨polledPeers_active, ⟨rfl, rfl⟩, Run.foldl ⟨?_, ?_, trivial⟩, fun hrounds => ?_⟩
  · unfold SamePeers
    decide +kernel
  · unfold SamePeers
    decide +kernel
  · have hcount := hrounds [] [] [] 0 1 (by decide +kernel) (by decide) (by decide +kernel) (by decide)
    exact absurd hcount (by decide)

end TinyProto.Fd
