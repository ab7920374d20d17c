import TinyProto.Fd.Marker
import TinyProto.Lib.TokenPassing

/-!
# Stations on a bus

One primary station and any number of secondary ones share a bus.  A frame that a station
completes is on its way to all others, which read the frames in the order in which they were
sent.  Frames get lost.

As long as the primary station does not take the marker back, there is one marker: a station
has it, or a frame with P/F set brings it (`marker_exclusive`).
-/

set_option linter.unusedSectionVars false

namespace TinyProto.Fd

open Hdlc Runs TokenPassing

variable {ι : Type} [Fintype ι] [DecidableEq ι] {W N : ι → Nat} [∀ i, NeZero (W i)]
  [∀ i, NeZero (N i)]

/-! ## The bus -/

/-- The stations, and the frames that each of them has not read yet. -/
structure Bus (W N : ι → Nat) where
  station : ∀ i, Handle (W i) (N i)
  inbox : ι → List (List Byte)

/-- A call of the application. -/
def Call.Local : Call → Prop
  | .onRxData _ | .onFrameRead _ | .getTxData _ => False
  | _ => True

/-- What happens on the bus. -/
inductive Bus.Step : Bus W N → Bus W N → Prop where
  | call {b : Bus W N} (i : ι) (c : Call) (hc : c.Local) :
      Step b { b with station := Function.update b.station i (Fd.call (b.station i) c) }
  /-- `tiny_fd_get_tx_data`.  The frames it completes are sent to the others. -/
  | transmit {b : Bus W N} (i : ι) (len : Nat) :
      Step b
        { station := Function.update b.station i (getTxData (b.station i) len).h
          inbox := fun j =>
            if j = i then b.inbox j else b.inbox j ++ (getTxData (b.station i) len).sent }
  /-- `tiny_fd_on_rx_data`, with data in which the low level finds the next frames. -/
  | receive {b : Bus W N} (i : ι) (data : List Byte) (rest : List (List Byte))
      (hin : b.inbox i = framesOf (onRxData (b.station i).hdlc data).2 ++ rest) :
      Step b
        { station := Function.update b.station i (fdOnRxData (b.station i) data)
          inbox := Function.update b.inbox i rest }
  /-- A station misses a frame. -/
  | lose {b : Bus W N} (i : ι) (before after : List (List Byte)) (f : List Byte)
      (hin : b.inbox i = before ++ f :: after) :
      Step b { b with inbox := Function.update b.inbox i (before ++ after) }

/-- What comes of stations in NRM with different addresses. -/
inductive Bus.Reachable : Bus W N → Prop where
  | start {init : ι → InitParams} {hdlc : ∀ i, HdlcLl (SlotRef (W i))} {millis : ι → BitVec 32}
      (hmin : ∀ i, 2 ≤ W i) (hmax : ∀ i, W i ≤ 7) (hll : ∀ i, Started (hdlc i))
      (hnrm : ∀ i, (init i).mode = .nrm)
      (hdistinct : Function.Injective fun i => (init i).addressField) :
      Reachable
        { station := fun i => initHandle (W i) (N i) (init i) (hdlc i) (millis i)
          inbox := fun _ => [] }
  | step {b b' : Bus W N} (hr : Reachable b) (hs : b.Step b') : Reachable b'

/-- The markers and the frames, as tokens and messages. -/
def Bus.net (b : Bus W N) : Net ι (List Byte) where
  holds i := (b.station i).events.hasMarker
  mail := b.inbox

/-- Every station has its place, and the marker is in one place. -/
structure Bus.Orderly (addr : ι → Byte) (b : Bus W N) : Prop where
  mannered : ∀ i, Mannered (b.station i)
  address : ∀ i, (b.station i).settings.addr = addr i
  marker : (∃ i, TookBack (b.station i)) ∨ Exclusive (fun i => hears (addr i)) hasPollBit b.net

variable {b b' : Bus W N} {addr : ι → Byte} {i : ι}

/-! ## Addresses -/

theorem isPrimaryAddress_iff {a : Byte} (ha : a &&& 0x03 = 0x01) :
    isPrimaryAddress a = true ↔ a = eBit := by
  unfold isPrimaryAddress
  rw [(clear_cr ha).1, beq_iff_eq]

/-- A frame is for one station besides the sender at most. -/
theorem hears_one (hb : ∀ i, addr i &&& 0x03 = 0x01) (hd : Function.Injective addr)
    {f : List Byte} (hown : f ≠ [] → hears (addr i) f = true) {j k : ι} (hj : j ≠ i) (hk : k ≠ i)
    (hhj : hears (addr j) f = true) (hhk : hears (addr k) f = true) : j = k := by
  have hprim : ∀ {j k}, isPrimaryAddress (addr j) = true → isPrimaryAddress (addr k) = true →
      j = k := fun {j k} hj hk =>
    hd (((isPrimaryAddress_iff (hb j)).mp hj).trans ((isPrimaryAddress_iff (hb k)).mp hk).symm)
  cases f with
  | nil =>
    unfold hears at hhj hhk
    rw [Bool.or_false] at hhj hhk
    exact hprim hhj hhk
  | cons a rest =>
    have hi := hown (List.cons_ne_nil _ _)
    unfold hears at hhj hhk hi
    rw [Bool.or_eq_true, beq_iff_eq] at hhj hhk hi
    rcases hhj with hpj | haj
    · rcases hhk with hpk | hak
      · exact hprim hpj hpk
      · rcases hi with hpi | hai
        · exact absurd (hprim hpj hpi) hj
        · exact absurd (hd (hak.symm.trans hai)) hk
    · rcases hhk with hpk | hak
      · rcases hi with hpi | hai
        · exact absurd (hprim hpk hpi) hk
        · exact absurd (hd (haj.symm.trans hai)) hj
      · exact hd (haj.symm.trans hak)

/-! ## Steps -/

/-- A call of one station. -/
theorem Bus.Orderly.update (ho : b.Orderly addr) {k : Handle (W i) (N i)}
    (hk : ∃ c, k = Fd.call (b.station i) c) :
    (∀ j, Mannered (Function.update b.station i k j)) ∧
      (∀ j, (Function.update b.station i k j).settings.addr = addr j) ∧
      ((∃ j, TookBack (b.station j)) → ∃ j, TookBack (Function.update b.station i k j)) := by
  obtain ⟨c, rfl⟩ := hk
  have hm := ho.mannered i
  refine ⟨?_, ?_, fun ⟨j, hj⟩ => ⟨j, ?_⟩⟩
  · exact (Function.forall_update_iff _ fun j k => Mannered k).mpr
      ⟨hm.call c, fun j _ => ho.mannered j⟩
  · refine (Function.forall_update_iff _ fun j (k : Handle (W j) (N j)) =>
      k.settings.addr = addr j).mpr ⟨?_, fun j _ => ho.address j⟩
    rw [call_settings hm.ordered]
    exact ho.address i
  · by_cases hji : j = i
    · subst hji
      rw [Function.update_self]
      exact hj.call hm.ordered c
    · rwa [Function.update_of_ne hji]

theorem Bus.net_holds (b : Bus W N) (k : Handle (W i) (N i)) :
    (fun j => (Function.update b.station i k j).events.hasMarker) =
      Function.update b.net.holds i k.events.hasMarker :=
  funext fun j =>
    Function.apply_update (fun _ (h : Handle _ _) => h.events.hasMarker) b.station i k j

theorem local_marker {W N : Nat} [NeZero W] [NeZero N] {h : Handle W N} {c : Call}
    (hc : c.Local) : (Fd.call h c).events.hasMarker = h.events.hasMarker := by
  cases c with
  | sendPacketTo address data =>
    exact (operate_marker (o := .sendPacketTo address data) trivial).2
  | sendUiPacketTo address data =>
    exact (operate_marker (o := .sendUiPacketTo address data) trivial).2
  | disconnect => exact (operate_marker (o := .disconnect) trivial).2
  | registerPeer address => exact (operate_marker (o := .registerPeer address) trivial).2
  | setKaTimeout => rfl
  | tick => rfl
  | _ => exact absurd hc id

/-- A station reads frames. -/
theorem reads_exclusive {heard : ι → List Byte → Bool} {rest : List (List Byte)} :
    ∀ {fs : List (List Byte)} {h : Handle (W i) (N i)} {n n' : Net ι (List Byte)}, Ordered h →
      heard i = hears h.settings.addr → n.holds i = h.events.hasMarker → n.mail i = fs ++ rest →
      Exclusive heard hasPollBit n →
      n'.holds = Function.update n.holds i (fs.foldl onFrameRead h).events.hasMarker →
      n'.mail i = rest → (∀ j, j ≠ i → n'.mail j = n.mail j) → Exclusive heard hasPollBit n'
  | [], h, n, n', _, _, hheld, hmail, he, hholds, hself, hother => by
    refine he.lose ?_ fun j => ?_
    · rw [hholds, List.foldl_nil, ← hheld, Function.update_eq_self]
    · by_cases hj : j = i
      · rw [hj, hself, hmail]
        exact .refl _
      · rw [hother j hj]
  | f :: fs, h, n, n', hord, hheard, hheld, hmail, he, hholds, hself, hother => by
    have hset := operate_settings (o := .frame f) hord trivial
    obtain ⟨m, hm⟩ : ∃ m : Net ι (List Byte), m =
        { holds := Function.update n.holds i (onFrameRead h f).events.hasMarker
          mail := Function.update n.mail i (fs ++ rest) } := ⟨_, rfl⟩
    have hmi : m.mail i = fs ++ rest := by rw [hm]; exact Function.update_self ..
    have hmj : ∀ j, j ≠ i → m.mail j = n.mail j := fun j hj => by
      rw [hm]
      exact Function.update_of_ne hj ..
    have hmheld : m.holds = Function.update n.holds i (onFrameRead h f).events.hasMarker := by
      rw [hm]
    have hex : Exclusive heard hasPollBit m := by
      rcases (onFrameRead_marker h f).2 with hsame | hread
      · -- The frame is read, and does not bring the marker.
        refine he.lose ?_ fun j => ?_
        · rw [hmheld, hsame, ← hheld, Function.update_eq_self]
        · by_cases hj : j = i
          · rw [hj, hmi, hmail]
            exact List.sublist_cons_self _ _
          · rw [hmj j hj]
      · refine he.receive (m := f) hmail ?_ hmi hmj
        rw [hmheld, hread, hheard, hheld]
    refine reads_exclusive (hord.operate (o := .frame f) trivial) ?_ ?_ hmi hex ?_ hself
      fun j hj => (hother j hj).trans (hmj j hj).symm
    · rw [hheard, hset]
    · rw [hmheld, Function.update_self]
      rfl
    · rw [hholds, hmheld, Function.update_idem, List.foldl_cons]
      rfl

/-- What happens on the bus keeps the order. -/
theorem Bus.Orderly.step (ho : b.Orderly addr) (hd : Function.Injective addr) (hs : b.Step b') :
    b'.Orderly addr := by
  have hbits : ∀ i, addr i &&& 0x03 = 0x01 := fun i =>
    ho.address i ▸ (ho.mannered i).ordered.addressed.station
  cases hs with
  | call i c hc =>
    obtain ⟨hmannered, haddr, hback⟩ := ho.update (i := i) ⟨c, rfl⟩
    refine ⟨hmannered, haddr, ho.marker.imp hback fun he => he.lose ?_ fun j => .refl _⟩
    refine (b.net_holds _).trans ?_
    rw [local_marker hc]
    exact Function.update_eq_self ..
  | transmit i len =>
    obtain ⟨hmannered, haddr, hback⟩ := ho.update (i := i) ⟨.getTxData len, rfl⟩
    refine ⟨hmannered, haddr, ?_⟩
    by_cases htook : TookBack (getTxData (b.station i) len).h
    · refine .inl ⟨i, ?_⟩
      show TookBack (Function.update b.station i (getTxData (b.station i) len).h i)
      rwa [Function.update_self]
    · refine ho.marker.imp hback fun he => ?_
      have hhands := getTxData_passesOn (ho.mannered i) len htook
      have hset := call_settings (ho.mannered i).ordered (.getTxData len)
      have hpass : Passes (fun j => hears (addr j)) hasPollBit i (b.net.holds i)
          (getTxData (b.station i) len).h.events.hasMarker (getTxData (b.station i) len).sent := by
        refine ⟨hhands.sends, hhands.keeps, hhands.last, fun f hf j k hj hk => ?_⟩
        refine hears_one hbits hd (fun hne => ?_) hj hk
        rw [← ho.address i, ← hset]
        exact hhands.own f hf hne
      exact he.send hpass (b.net_holds _) (if_pos rfl) fun j hj => if_neg hj
  | receive i data rest hin =>
    obtain ⟨hmannered, haddr, hback⟩ := ho.update (i := i) ⟨.onRxData data, rfl⟩
    refine ⟨hmannered, haddr, ho.marker.imp hback fun he => ?_⟩
    have hord : Ordered { b.station i with hdlc := (onRxData (b.station i).hdlc data).1 } := by
      have hdue := opsOf_inOrder (ho.mannered i).ordered (.onRxData data)
      exact (ho.mannered i).ordered.operate hdue.1.2
    refine reads_exclusive hord ?_ rfl hin he (b.net_holds _) (Function.update_self ..)
      fun j hj => Function.update_of_ne hj ..
    rw [← ho.address i]
  | lose i before after f hin =>
    refine ⟨ho.mannered, ho.address, ho.marker.imp id fun he => he.lose rfl fun j => ?_⟩
    show (Function.update b.inbox i (before ++ after) j).Sublist (b.inbox j)
    by_cases hj : j = i
    · subst hj
      rw [Function.update_self, hin]
      exact (List.Sublist.refl before).append (List.sublist_cons_self f after)
    · rw [Function.update_of_ne hj]

theorem start_orderly {init : ι → InitParams} {hdlc : ∀ i, HdlcLl (SlotRef (W i))}
    {millis : ι → BitVec 32} (hll : ∀ i, Started (hdlc i)) (hnrm : ∀ i, (init i).mode = .nrm)
    (hd : Function.Injective fun i => (init i).addressField) :
    Bus.Orderly (fun i => (init i).addressField)
      { station := fun i => initHandle (W i) (N i) (init i) (hdlc i) (millis i)
        inbox := fun _ => [] } := by
  refine ⟨fun i => ⟨⟨initHandle_addressed _ _ _, initHandle_inStep _ _ (hll i)⟩, hnrm i,
    fun ht => Bool.noConfusion ht⟩, fun _ => rfl, .inr ⟨?_, fun _ => .nil, fun _ _ _ hm =>
      absurd hm List.not_mem_nil⟩⟩
  -- Only the primary station has the marker.
  have hcount : ∀ i, tokens (fun i => hears (init i).addressField) hasPollBit (Bus.net
      { station := fun i => initHandle (W i) (N i) (init i) (hdlc i) (millis i)
        inbox := fun _ => [] }) i =
      if isPrimaryAddress (init i).addressField = true then 1 else 0 := by
    intro i
    show (isPrimaryAddress (init i).addressField).toNat + 0 = _
    cases isPrimaryAddress (init i).addressField <;> rfl
  rw [Finset.sum_congr rfl fun i _ => hcount i, ← Finset.card_filter]
  refine Finset.card_le_one.mpr fun j hj k hk => hd ?_
  rw [Finset.mem_filter, isPrimaryAddress_iff (addressField_bits _)] at hj hk
  exact hj.2.trans hk.2.symm

theorem Bus.Reachable.orderly (hr : b.Reachable) :
    ∃ addr, Function.Injective addr ∧ b.Orderly addr := by
  induction hr with
  | start _ _ hll hnrm hd => exact ⟨_, hd, start_orderly hll hnrm hd⟩
  | step _ hs ih =>
    obtain ⟨addr, hd, ho⟩ := ih
    exact ⟨addr, hd, ho.step hd hs⟩

/-! ## One marker -/

/-- As long as the primary station does not take the marker back, the stations that have the
marker and the frames with P/F set that their station has not read yet are one at most.  A
station has the marker when it begins to send a frame, and until it has sent it. -/
theorem marker_exclusive (hr : b.Reachable) (hret : ∀ i, ¬TookBack (b.station i)) :
    (Finset.univ.filter fun i => (b.station i).events.hasMarker = true).card +
        ∑ i, (b.inbox i).countP (fun f => hears (b.station i).settings.addr f && hasPollBit f) ≤ 1 ∧
      (∀ i, (b.station i).events.txSending = true → (b.station i).events.hasMarker = true) ∧
      ∀ i c, ∀ m ∈ trace operate (b.station i) (opsOf (b.station i) c),
        m.1.events.txSending = false → (operate m.1 m.2).events.txSending = true →
          m.1.events.hasMarker = true := by
  obtain ⟨addr, -, ho⟩ := hr.orderly
  have he := ho.marker.resolve_left fun ⟨i, hi⟩ => hret i hi
  refine ⟨?_, fun i => (ho.mannered i).sending, fun i c m hm => ?_⟩
  · rw [Finset.card_filter, ← Finset.sum_add_distrib]
    refine le_trans (Finset.sum_le_sum fun i _ => ?_) he.single
    rw [ho.address i]
    refine Nat.add_le_add_right ?_ _
    show _ ≤ (b.station i).events.hasMarker.toNat
    cases (b.station i).events.hasMarker <;> simp
  · exact (ho.mannered i).call_begins c hm

/-- A primary station, and a secondary one with address 1. -/
def twoStations : Bus (fun _ : Fin 2 => 3) (fun _ => 1) where
  station i := initHandle 3 1
    { mode := .nrm, addr := i.val, sendTimeout := 1000, retryTimeout := 100, retries := 2,
      mtu := 32 } (smallLl 3) 0
  inbox _ := []

theorem twoStations_reachable : twoStations.Reachable :=
  .start (fun _ => by decide) (fun _ => by decide) (fun _ => smallLl_started 3) (fun _ => rfl)
    (by decide)

/-- The primary station asks the other one to connect, and that one answers. -/
theorem marker_exclusive_poll : ∃ b : Bus (fun _ : Fin 2 => 3) (fun _ => 1),
    b.Reachable ∧ (b.station 1).events.hasMarker = true ∧
      (Finset.univ.filter fun i => (b.station i).events.hasMarker = true).card +
        ∑ i, (b.inbox i).countP (fun f => hears (b.station i).settings.addr f && hasPollBit f) ≤ 1 := by
  have hreach := ((twoStations_reachable.step (.call 0 (.registerPeer 1) trivial)).step
    (.transmit 0 16)).step (.receive 1 (encodeFrame .crc16 [0x07, 0x93]) [] (by decide +kernel))
  exact ⟨_, hreach, by decide +kernel, (marker_exclusive hreach (by decide +kernel)).1⟩

end TinyProto.Fd
