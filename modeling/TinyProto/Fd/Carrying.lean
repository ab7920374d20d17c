import TinyProto.Fd.Acks
import TinyProto.Fd.Draining
import TinyProto.Fd.Following
import TinyProto.Fd.Marker
import Mathlib.Data.List.Forall2

/-!
# What a party sends

The search of a station in ABM hands the frame to the low level that the party sends, and a
call of `tiny_fd_get_tx_data` completes the frames that the party sent meanwhile.
-/

set_option linter.unusedSectionVars false

namespace TinyProto.Fd

open Hdlc Runs SlotWindow GoBackN

variable {W N : Nat} [NeZero W] [NeZero N] {h h₁ : Handle W N} {p : Fin N}
  {s : Party 3 (List Byte)} {r : SlotRef W}

/-! ## The frame on its way -/

/-- The slot of the service queue that the frame occupies. -/
def held (h : Handle W N) : SlotRef W → List Slot
  | .iSlot _ => []
  | .sSlot i => [h.sQueue.frames i]

/-- The frame in the slot is the one to send. -/
structure Leads (h : Handle W N) (r : SlotRef W) : Prop where
  noReset : NoReset (h.slot r).bytes
  numbered : ∀ i, r = .iSlot i → isIFrame (h.slot r).control = true
  /-- A service frame is the first one. -/
  first : ∀ i, r = .sSlot i → ∃ after, h.sQueue.order = i :: after

/-- The frame in the slot is on its way. -/
structure Carries (h : Handle W N) (r : SlotRef W) : Prop where
  leads : Leads h r
  origin : h.hdlc.tx.originData = some r
  ok : h.hdlc.tx.Ok h.hdlc.crcType h.mem
  whole : h.hdlc.tx.frameLen = (h.slot r).bytes.length

theorem Leads.ll (hl : Leads h r) (ll : HdlcLl (SlotRef W)) :
    Leads { h with hdlc := ll } r := by
  have hslot := slot_ll h ll r
  refine ⟨?_, ?_, hl.first⟩
  · rw [hslot]
    exact hl.noReset
  · rw [hslot]
    exact hl.numbered

/-- What is freed at the end of a frame. -/
theorem onFrameSend_sQueue (hr : Resolves h (h.slot r).address) :
    (onFrameSend h r).sQueue =
      (if isIFrame (h.slot r).control then h else freeService h r).sQueue := by
  unfold onFrameSend
  dsimp only
  obtain ⟨q, hq⟩ := Option.ne_none_iff_exists'.mp hr
  rw [hq]
  obtain ⟨next, marker, he, -⟩ := releaseMarker_fields
    (if isIFrame (h.slot r).control then h else freeService h r) (h.slot r).control
  dsimp only
  rw [he]
  rfl

/-- The party does not notice that its frame is completed. -/
theorem Mirrors.completes (hm : Mirrors h (held h r) s) (hc : Leads h r)
    (hr : Resolves h (h.slot r).address) : Mirrors (onFrameSend h r) [] s := by
  have hdone := onFrameSend_completes hr
  have hu : Unnoticed h (onFrameSend h r) := by
    refine .of_peers hdone.peers ?_
    rw [hdone.log]
    exact .refl 0 h.log
  have hq := onFrameSend_sQueue hr
  cases r with
  | iSlot i =>
    rw [if_pos (hc.numbered i rfl)] at hq
    exact hm.unnoticed hu hq
  | sSlot i =>
    obtain ⟨after, horder⟩ := hc.first i rfl
    have hfirst : h.sQueue.order = [] ++ i :: after := horder
    obtain ⟨l, hqueued, hsq⟩ := hm.queue
    have hplain : Plain (h.slot (.sSlot i)).control :=
      hqueued.plain _ List.mem_cons_self
    rw [hplain.1, if_neg Bool.false_ne_true] at hq
    have hnodup := h.sQueue.order_nodup
    rw [horder, List.nodup_cons] at hnodup
    have hfreed := Queue.slots_freeByHeader hfirst List.not_mem_nil hnodup.1
    obtain ⟨free, hslots, hfree⟩ := hqueued.slots
    have hhead := Queue.slots_eq hfirst
    have hafter : after.map h.sQueue.frames = l ++ free := by
      have hcons : h.sQueue.frames i :: after.map h.sQueue.frames =
          h.sQueue.frames i :: (l ++ free) := hhead.symm.trans hslots
      exact (List.cons.inj hcons).2
    have hfield : peerToAddressField (onFrameSend h (.sSlot i)) 0 = peerToAddressField h 0 := by
      unfold peerToAddressField
      rw [hu.addr]
    have hleft : Queued (onFrameSend h (.sSlot i)) ([] ++ l) := by
      refine ⟨⟨free ++ [{ h.sQueue.frames i with type := .free }], ?_, fun t ht => ?_⟩, ?_,
        fun t ht => hqueued.plain t (List.mem_cons_of_mem _ ht)⟩
      · have hq' : (onFrameSend h (.sSlot i)).sQueue = h.sQueue.freeByHeader i := hq
        rw [hq', hfreed, hafter, List.map_nil, List.nil_append, List.nil_append, List.append_assoc]
      · rcases List.mem_append.mp ht with ht | ht
        · exact hfree t ht
        · rw [List.mem_singleton.mp ht]
      · rw [hfield]
        exact fun t ht => hqueued.serves t (List.mem_cons_of_mem _ ht)
    have hnew := hm.requeue hu hleft
    rwa [← hsq] at hnew

/-- The low level is no part of the party. -/
theorem Mirrors.runs (hm : Mirrors h (held h r) s) (ll : HdlcLl (SlotRef W)) :
    Mirrors { h with hdlc := ll } (held { h with hdlc := ll } r) s := by
  have hheld : held { h with hdlc := ll } r = held h r := by
    cases r <;> rfl
  rw [hheld]
  exact hm.unnoticed (.of_peers rfl (.refl 0 h.log)) rfl

/-- The low level goes on with the frame, or completes it. -/
theorem Mirrors.runTx (hm : Mirrors h (held h r) s) (hc : Carries h r) (hi : InStep h)
    (len : Nat) :
    (Fd.runTx h len).2.2 = [] ∧ Carries (Fd.runTx h len).1 r ∧
        Mirrors (Fd.runTx h len).1 (held (Fd.runTx h len).1 r) s ∧
        ((Fd.runTx h len).1.slot r).bytes = (h.slot r).bytes ∨
      (Fd.runTx h len).2.2 = [(h.slot r).bytes] ∧ Mirrors (Fd.runTx h len).1 [] s ∧
        (Fd.runTx h len).1.events.txSending = false := by
  have hok : h.hdlc.TxOk h.mem := ⟨hi.crc, hc.ok⟩
  have hsent := runTx_sent hok len
  have hok' := (runTx_pending hok len).2.2.tx
  unfold Fd.runTx
  generalize hdlcLlRunTx h.mem h.hdlc len = out at hsent hok'
  obtain ⟨ll, bs, done⟩ := out
  dsimp only at hsent hok' ⊢
  rcases hsent with ⟨rfl, hod, hlen, -⟩ | ⟨r', hod, rfl, -, -⟩
  · left
    have hslot : ({ h with hdlc := ll } : Handle W N).slot r = h.slot r := slot_ll h ll r
    have hmem : ({ h with hdlc := ll } : Handle W N).mem = h.mem :=
      funext fun r' => mem_of_bytes (by rw [slot_ll])
    refine ⟨rfl, ⟨hc.leads.ll ll, hod.trans hc.origin, ?_, ?_⟩, hm.runs ll,
      congrArg Slot.bytes hslot⟩
    · show ll.tx.Ok ll.crcType ({ h with hdlc := ll } : Handle W N).mem
      rw [hmem]
      exact hok'
    · show ll.tx.frameLen = (({ h with hdlc := ll } : Handle W N).slot r).bytes.length
      rw [hslot]
      exact hlen.trans hc.whole
  · right
    obtain rfl : r = r' := Option.some.inj (hc.origin.symm.trans hod)
    have hresolves := hi.resolves_ll hod ll
    refine ⟨?_, (hm.runs ll).completes (hc.leads.ll ll) hresolves,
      (onFrameSend_completes hresolves).txSending⟩
    rw [List.map_singleton, hc.whole, bytes_range]

/-! ## Service frames -/

/-- The frame that is found may get P/F. -/
structure Picks (h h₁ : Handle W N) (i : Fin 4) : Prop where
  unnoticed : Unnoticed h h₁
  control : ∃ c, (c = (h.sQueue.frames i).control ∨ c = (h.sQueue.frames i).control ||| pBit) ∧
    h₁.sQueue = h.sQueue.setFrame i { h.sQueue.frames i with control := c }

/-- A signal is sent. -/
theorem Mirrors.picks (hm : Mirrors h [] s) {i : Fin 4} (hi : firstService h 0 = some i)
    (hp : Picks h h₁ i) (g : Nat) :
    ∃ s', s.Sends (frameOf g (h₁.slot (.sSlot i)).bytes) s' ∧
      Mirrors h₁ (held h₁ (.sSlot i)) s' ∧ Leads h₁ (.sSlot i) := by
  obtain ⟨l, hq, hsq⟩ := hm.queue
  obtain ⟨l', after, rfl, horder⟩ := hq.first hi
  obtain ⟨c, hc, hset⟩ := hp.control
  obtain ⟨free, hslots, hfree⟩ := hq.slots
  obtain ⟨t, ht⟩ : ∃ t, t = h.sQueue.frames i := ⟨_, rfl⟩
  rw [← ht] at hc hset hslots hsq
  have hplain : Plain t.control := hq.plain t (ht ▸ List.mem_cons_self)
  have hserves : t.Serves (peerToAddressField h 0) := hq.serves t (ht ▸ List.mem_cons_self)
  have hcontrol : Plain c ∧ signalOf c = signalOf t.control := by
    rcases hc with rfl | rfl
    · exact ⟨hplain, rfl⟩
    · exact ⟨hplain.poll, signalOf_poll t.control⟩
  have hself : h₁.sQueue.frames i = { t with control := c } := by
    rw [hset, Queue.setFrame_self]
  have hfield : peerToAddressField h₁ 0 = peerToAddressField h 0 := by
    unfold peerToAddressField
    rw [hp.unnoticed.addr]
  have hnodup := h.sQueue.order_nodup
  rw [horder, List.nodup_cons] at hnodup
  have hfirst : h.sQueue.order = [] ++ i :: after := horder
  have hslots' : h₁.sQueue.slots = { t with control := c } :: (l' ++ free) := by
    have hhead := Queue.slots_eq hfirst
    have hrest := List.cons.inj (hhead.symm.trans hslots)
    rw [hset, Queue.slots_setFrame hfirst List.not_mem_nil hnodup.1, List.map_nil,
      List.nil_append, hrest.2]
    rfl
  have hheld : held h₁ (.sSlot i) = [{ t with control := c }] := congrArg (fun u => [u]) hself
  have hqueued : Queued h₁ (held h₁ (.sSlot i) ++ l') := by
    rw [hheld]
    refine ⟨⟨free, hslots', hfree⟩, fun u hu => ?_, fun u hu => ?_⟩
    · rw [hfield]
      rcases List.mem_cons.mp hu with rfl | hu
      · exact hserves
      · exact hq.serves u (List.mem_cons_of_mem _ hu)
    · rcases List.mem_cons.mp hu with rfl | hu
      · exact hcontrol.1
      · exact hq.plain u (List.mem_cons_of_mem _ hu)
  have hbytes : (h₁.slot (.sSlot i)).bytes = t.address :: c :: t.payload := congrArg Slot.bytes hself
  refine ⟨_, ?_, hm.requeue hp.unnoticed hqueued, ?_, nofun, fun j hj => ?_⟩
  · rw [hbytes]
    unfold frameOf
    dsimp only
    rw [hcontrol.1.1, if_neg Bool.false_ne_true, hcontrol.2]
    exact .signal hsq
  · rw [hbytes]
    exact hcontrol.1.2
  · obtain rfl := SlotRef.sSlot.inj hj
    refine ⟨after, ?_⟩
    rw [hset]
    exact horder

theorem Unnoticed.setSlot (h : Handle W N) (r : SlotRef W) (f : Slot → Slot) :
    Unnoticed h (h.setSlot r f) := by
  obtain ⟨-, -, -, -, hpeers, hlog⟩ := setSlot_fields h r f
  refine .of_peers hpeers ?_
  rw [hlog]
  exact .refl 0 h.log

theorem Unnoticed.finishFrame (h : Handle W N) (r : SlotRef W) :
    Unnoticed h (finishFrame h 0 r) := by
  have hrest : ∀ k : Handle W N, Unnoticed k ((({ k with lastMarkerTs := k.millis } :
      Handle W N).setPeer 0 fun x => { x with lastSentFrameTs := k.millis }).emit
        (.frameOut 0 (k.slot r).bytes)) := by
    intro k
    have hmarked : Unnoticed k { k with lastMarkerTs := k.millis } := .of_peers rfl (.refl 0 k.log)
    exact (hmarked.trans (.setPeer _ rfl Iff.rfl rfl rfl .inl)).trans (.emit _ trivial)
  unfold Fd.finishFrame
  split
  · exact (Unnoticed.setSlot ..).trans (hrest _)
  · exact hrest h

theorem Unnoticed.getNextSUFrame (h : Handle W N) : Unnoticed h (getNextSUFrame h 0).1 := by
  unfold Fd.getNextSUFrame
  split
  · exact .refl h
  · dsimp only
    split
    · exact .setPeer h rfl Iff.rfl rfl rfl .inl
    · exact .refl h

theorem Unnoticed.startFrame (h : Handle W N) (r : SlotRef W) : Unnoticed h (startFrame h r) :=
  .of_peers rfl (.refl 0 h.log)

/-- The frame of the search. -/
theorem service_picks (h : Handle W N) (i : Fin 4) :
    Picks h (startFrame (finishFrame (getNextSUFrame h 0).1 0 (.sSlot i)) (.sSlot i)) i := by
  have hfound := Unnoticed.getNextSUFrame h
  have hq := getNextSUFrame_sQueue h 0
  generalize (getNextSUFrame h 0).1 = k at hfound hq
  refine ⟨(hfound.trans (.finishFrame k (.sSlot i))).trans (.startFrame ..), ?_⟩
  rw [← hq]
  have hstart : (startFrame (finishFrame k 0 (.sSlot i)) (.sSlot i)).sQueue =
      (if getsPoll k 0 (k.slot (.sSlot i)).control then
        k.setSlot (.sSlot i) fun s => { s with control := s.control ||| pBit } else k).sQueue := rfl
  rw [hstart]
  split
  · exact ⟨_, .inr rfl, rfl⟩
  · refine ⟨_, .inl rfl, ?_⟩
    unfold Queue.setFrame
    rw [Function.update_eq_self]

/-! ## I-frames -/

/-- The I-frame that is found is one of the window, and carries the number expected. -/
structure Finds (h h₁ : Handle W N) (i : Fin W) : Prop where
  unnoticed : Unnoticed h h₁
  sQueue : h₁.sQueue = h.sQueue
  linked : Linked h 0
  window : ∃ ns, h.window 0 i = some (ns, (h.iQueue.frames i).payload)
  slot : h₁.slot (.iSlot i) = { h.iQueue.frames i with
    control := (h.iQueue.frames i).control &&& 0x0F ||| (h.control 0).nextNr.setWidth 8 <<< 5 }

theorem refreshIFrame_finds (hl : Linked h 0) {i : Fin W} {ns : Seq}
    (hi : h.window 0 i = some (ns, (h.iQueue.frames i).payload)) :
    Finds h (refreshIFrame h 0 i) i := by
  have hset : (h.setSlot (.iSlot i) fun s => { s with
      control := s.control &&& 0x0F ||| (h.control 0).nextNr.setWidth 8 <<< 5 }).slot (.iSlot i) =
        { h.iQueue.frames i with
          control := (h.iQueue.frames i).control &&& 0x0F ||| (h.control 0).nextNr.setWidth 8 <<< 5 } :=
    slot_setSlot_self h (.iSlot i) _
  refine ⟨?_, rfl, hl, ⟨ns, hi⟩, hset⟩
  unfold refreshIFrame
  exact (Unnoticed.setSlot h (.iSlot i) _).trans (.setPeer _ rfl Iff.rfl rfl rfl .inl)

theorem Finds.behind {k : Handle W N} {i : Fin W} (hf : Finds h k i) (hu : Unnoticed k h₁)
    (hq : h₁.sQueue = k.sQueue) (hs : h₁.slot (.iSlot i) = k.slot (.iSlot i)) : Finds h h₁ i :=
  ⟨hf.unnoticed.trans hu, hq.trans hf.sQueue, hf.linked, hf.window, hs.trans hf.slot⟩

theorem Finds.ahead {k : Handle W N} {i : Fin W} (hf : Finds h₁ k i) (hu : Unnoticed h h₁)
    (hs : h₁.sQueue = h.sQueue) (hi : h₁.iQueue = h.iQueue) : Finds h k i := by
  obtain ⟨ns, hns⟩ := hf.window
  refine ⟨hu.trans hf.unnoticed, hf.sQueue.trans hs, hu.linked.mp hf.linked, ⟨ns, ?_⟩, ?_⟩
  · unfold Handle.window at hns ⊢
    rwa [hi, hu.addr] at hns
  · rw [hf.slot, hi, hu.nextNr]

theorem getNextIFrame_finds (hw : Windowed h) {k : Handle W N} {i : Fin W}
    (hg : getNextIFrame h 0 = (k, some i)) : Finds h k i := by
  unfold getNextIFrame at hg
  dsimp only at hg
  split at hg
  · cases hg
  · next hst =>
    have hl : Linked h 0 := not_not.mp fun hn => hst (not_linked_iff.mp hn)
    split at hg
    · next ns _ =>
      split at hg
      · next j hj =>
        obtain ⟨rfl, hji⟩ := Prod.mk.inj hg
        obtain rfl := Option.some.inj hji
        have hmask : Unnoticed h (h.setPeer 0 fun x =>
            { x with srejReqMask := x.srejReqMask &&& ~~~(1#8 <<< ns.val) }) :=
          .setPeer h rfl Iff.rfl rfl rfl .inl
        have hq : (h.setPeer 0 fun x =>
            { x with srejReqMask := x.srejReqMask &&& ~~~(1#8 <<< ns.val) }).iQueue = h.iQueue := rfl
        have hs : (h.setPeer 0 fun x =>
            { x with srejReqMask := x.srejReqMask &&& ~~~(1#8 <<< ns.val) }).sQueue = h.sQueue := rfl
        generalize (h.setPeer 0 fun x =>
            { x with srejReqMask := x.srejReqMask &&& ~~~(1#8 <<< ns.val) }) = m at hmask hq hs
        have hwin : m.window 0 j = some (BitVec.ofFin ns, (m.iQueue.frames j).payload) := by
          unfold Handle.window
          rw [hq, hmask.addr]
          exact window_of_getNext hw.owned hw.live hj
        exact (refreshIFrame_finds (hmask.linked.mpr hl) hwin).ahead hmask hs hq
      · cases hg
    · split at hg
      · next j hj =>
        obtain ⟨rfl, hji⟩ := Prod.mk.inj hg
        obtain rfl := Option.some.inj hji
        have hfound := refreshIFrame_finds hl (window_of_getNext hw.owned hw.live hj)
        exact hfound.behind (.setPeer _ rfl Iff.rfl rfl rfl .inl) rfl rfl
      · cases hg

/-- An item of the window is sent. -/
theorem Mirrors.finds (hm : Mirrors h [] s) (hw : Windowed h) (hn : Numbers h)
    (hs : firstService h 0 = none) {i : Fin W} (hf : Finds h h₁ i) :
    (∃ g, s.Sends (frameOf g (h₁.slot (.iSlot i)).bytes) s) ∧
      Mirrors h₁ (held h₁ (.iSlot i)) s ∧ Leads h₁ (.iSlot i) := by
  obtain ⟨l, hq, hsq⟩ := hm.queue
  obtain rfl : l = [] := hq.empty hs
  obtain ⟨ns, hns⟩ := hf.window
  obtain ⟨htype, -, hnum, -⟩ := Slot.entry_some.mp hns
  have hiframe : isIFrame (h.iQueue.frames i).control = true :=
    hn i (by rw [htype]; exact QueueType.noConfusion)
  obtain ⟨c, hc⟩ : ∃ c, c = (h.iQueue.frames i).control &&& 0x0F |||
    (h.control 0).nextNr.setWidth 8 <<< 5 := ⟨_, rfl⟩
  have hci : isIFrame c = true := by
    rw [hc, isIFrame_refresh]
    exact hiframe
  have hcs : nsOf c = ns := by
    rw [hc, nsOf_refresh]
    exact hnum
  have hcr : nrOf c = s.next := by
    rw [hc, nrOf_refresh]
    exact hm.nextNr hf.linked
  have hslot := hf.slot
  rw [← hc] at hslot
  have hbytes : (h₁.slot (.iSlot i)).bytes =
      (h.iQueue.frames i).address :: c :: (h.iQueue.frames i).payload := congrArg Slot.bytes hslot
  refine ⟨?_, hm.unnoticed hf.unnoticed hf.sQueue, ?_, fun j _ => ?_, nofun⟩
  · -- The number says which item of the window it is.
    have hholds := hw.agrees.holds
    have hinside := hholds.inside i ns _ hns
    obtain ⟨j, hj⟩ := hholds.slot _ hinside
    rw [number_of_sub] at hj
    obtain rfl := hholds.unique i j ns _ _ hns hj
    obtain ⟨k, hk⟩ : ∃ k, k = (ns - (h.control 0).confirmNs).toNat := ⟨_, rfl⟩
    have hitem : s.accepted[s.low + k]? = some (h.iQueue.frames i).payload := by
      rw [← List.getElem?_drop, ← hm.unconfirmed, hk, List.getElem?_eq_getElem hinside]
      exact congrArg some (Prod.mk.inj (Option.some.inj (hj.symm.trans hns))).2
    have hlow := hm.low
    have hposition : BitVec.ofNat 3 (s.low + k - s.start) = ns := by
      have hsum : s.low + k - s.start = s.low - s.start + k := by omega
      have hnumber : number (h.control 0).confirmNs k = ns := hk ▸ number_of_sub _ _
      rw [hsum, BitVec.ofNat_add, ← hm.confirmNs]
      exact hnumber
    refine ⟨s.low + k, ?_⟩
    have hsends := Party.Sends.data hsq (hm.isOpen.mpr hf.linked) (Nat.le_add_right s.low k) hitem
    rw [hposition] at hsends
    rw [hbytes]
    unfold frameOf
    dsimp only
    rw [if_pos hci, hcs, hcr]
    exact hsends
  · rw [hbytes]
    intro hu
    rw [isUFrame_of_isIFrame hci] at hu
    cases hu
  · rw [hslot]
    exact hci

/-! ## The search -/

/-- The low level takes the frame. -/
theorem Leads.carries {m : Handle W N} (hl : Leads (startFrame m r) r)
    (hnone : m.hdlc.tx.originData = none) (hstart : m.hdlc.tx.state = .sendStart) :
    Carries (startFrame m r) r := by
  have htx := @startFrame_tx _ _ _ _ m r hnone
  have hslot : (startFrame m r).slot r = m.slot r := by
    cases r <;> rfl
  have hstate : (startFrame m r).hdlc.tx.state = .sendStart := by
    rw [htx]
    exact hstart
  refine ⟨hl, by rw [htx], ⟨fun hn => ?_, fun _ _ => ?_, fun hs => ?_, fun hs => ?_, fun hs => ?_,
    fun hs => ?_⟩, ?_⟩
  · rw [htx] at hn
    cases hn
  · rw [htx]
    exact Nat.succ_pos _
  · cases hstate.symm.trans hs
  · cases hstate.symm.trans hs
  · cases hstate.symm.trans hs
  · cases hstate.symm.trans hs
  · unfold Tx.frameLen
    rw [hstate, hslot, htx]
    exact Nat.zero_add _

/-- In ABM an I-frame goes without P/F. -/
theorem finishFrame_plain {m : Handle W N} {i : Fin W} (hm : m.settings.mode = .abm)
    (hi : isIFrame (m.slot (.iSlot i)).control = true) :
    (startFrame (finishFrame m 0 (.iSlot i)) (.iSlot i)).slot (.iSlot i) = m.slot (.iSlot i) := by
  have hno : getsPoll m 0 (m.slot (.iSlot i)).control = false := by
    unfold getsPoll
    rw [hm, if_neg Mode.noConfusion]
    exact isUFrame_of_isIFrame hi
  have hslot : (startFrame (finishFrame m 0 (.iSlot i)) (.iSlot i)).slot (.iSlot i) =
      (if getsPoll m 0 (m.slot (.iSlot i)).control then
        m.setSlot (.iSlot i) fun s => { s with control := s.control ||| pBit } else m).slot
          (.iSlot i) := rfl
  rw [hslot, hno, if_neg Bool.false_ne_true]

/-- What the party does while the station looks for a frame. -/
inductive Searches (h : Handle W N) (s : Party 3 (List Byte)) : Prop where
  | rests (ht : h.events.txSending = false) (hm : Mirrors h [] s)
  | sends {r : SlotRef W} {g : Nat} {s' : Party 3 (List Byte)} (ht : h.events.txSending = true)
      (hs : s.Sends (frameOf g (h.slot r).bytes) s') (hc : Carries h r)
      (hm : Mirrors h (held h r) s')

theorem Mirrors.searches (hm : Mirrors h [] s) (hi : InAbm h) (ht : h.events.txSending = false) :
    Searches (tryToSend h 0).handle s := by
  have ha := tryToSend_attempted h 0
  generalize (tryToSend h 0).handle = k at ha
  have hm' : Mirrors (h.setEvents fun e => { e with txDataAvailable := false }) [] s :=
    hm.unnoticed (.setEvents h _) rfl
  have hw' : Windowed (h.setEvents fun e => { e with txDataAvailable := false }) :=
    hi.windowed.congr rfl rfl (fun _ => rfl) rfl rfl rfl
  have habm : (h.setEvents fun e => { e with txDataAvailable := false }).settings.mode = .abm := hi.abm
  have hnumbers : Numbers (h.setEvents fun e => { e with txDataAvailable := false }) := hi.numbers
  have hidle := hi.ordered.inStep.idle ht
  have hstart := hi.ordered.inStep.sound.idle hidle
  cases ha with
  | @started m r _ hc hprep hf =>
    have hnone : m.hdlc.tx.originData = none := by
      rw [hprep.hdlc]
      exact hidle
    have hstate : m.hdlc.tx.state = .sendStart := by
      rw [hprep.hdlc]
      exact hstart
    generalize (h.setEvents fun e => { e with txDataAvailable := false }) = h' at hm' hw' hc habm hnumbers
    cases hc with
    | service hs =>
      obtain ⟨s', hsends, hnew, hleads⟩ := hm'.picks hs (service_picks h' _) 0
      exact .sends rfl hsends (hleads.carries hnone hstate) hnew
    | @iFrame k' i hs hg =>
      have hfound := getNextIFrame_finds hw' hg
      have habm' : k'.settings.mode = .abm := by
        have hset := getNextIFrame_settings h' 0
        rw [hg] at hset
        exact (congrArg Settings.mode hset).trans habm
      have hiframe : isIFrame (k'.slot (.iSlot i)).control = true := by
        obtain ⟨ns, hns⟩ := hfound.window
        have htype := (Slot.entry_some.mp hns).1
        rw [hfound.slot]
        dsimp only
        rw [isIFrame_refresh]
        exact hnumbers i (by rw [htype]; exact QueueType.noConfusion)
      have hsq : (startFrame (finishFrame k' 0 (.iSlot i)) (.iSlot i)).sQueue = k'.sQueue := by
        unfold startFrame finishFrame
        dsimp only
        split <;> rfl
      have hsent := hfound.behind ((Unnoticed.finishFrame k' (.iSlot i)).trans (.startFrame ..)) hsq
        (finishFrame_plain habm' hiframe)
      obtain ⟨⟨g, hsends⟩, hnew, hleads⟩ := hm'.finds hw' hnumbers hs hsent
      exact .sends rfl hsends (hleads.carries hnone hstate) hnew
    | idle _ _ hnrm => exact absurd (hnrm.symm.trans habm) Mode.noConfusion
  | empty _ _ hc =>
    cases hc with
    | noRoom _ _ hnrm => exact absurd (hnrm.symm.trans habm) Mode.noConfusion
    | nothing _ hg =>
      obtain ⟨mask, rfl⟩ := getNextIFrame_misses hg
      exact .rests ht (hm'.unnoticed (.setPeer _ rfl Iff.rfl rfl rfl .inl) rfl)
  | rested => exact .rests ht hm
  | returned =>
    refine .rests ht (hm.unnoticed ?_ rfl)
    exact (Unnoticed.setEvents h _).trans (.emit _ (e := .returnMarker) trivial)

/-! ## A call -/

/-- The bytes of a frame of the exchange. -/
structure IsFrame (F : Frame 3 (List Byte)) (f : List Byte) : Prop where
  index : ∃ g, F = frameOf g f
  noReset : NoReset f

/-- What the party sent since the call began, with the frames completed. -/
inductive Passing (s : Party 3 (List Byte)) (h : Handle W N) (fs : List (List Byte)) : Prop
  | idle {Fs : List (Frame 3 (List Byte))} {s' : Party 3 (List Byte)}
      (ht : h.events.txSending = false) (he : s.Emits Fs s') (ha : s'.accepted = s.accepted)
      (hf : List.Forall₂ IsFrame Fs fs) (hm : Mirrors h [] s')
  | busy {Fs : List (Frame 3 (List Byte))} {s' : Party 3 (List Byte)} {r : SlotRef W}
      (ht : h.events.txSending = true) (he : s.Emits Fs s') (ha : s'.accepted = s.accepted)
      (hf : List.Forall₂ IsFrame Fs (fs ++ [(h.slot r).bytes])) (hc : Carries h r)
      (hm : Mirrors h (held h r) s')

theorem InAbm.due_zero (hi : InAbm h) (hp : Live h p) : p = 0 := hi.found hp.1

theorem Passing.operate {fs : List (List Byte)} {o : Op W N} (hp : Passing s h fs) (hi : InAbm h)
    (hd : Due h o) (ho : o.Transmits) :
    Passing s (Fd.operate h o) (fs ++ completed h o) := by
  have hi' : InAbm (Fd.operate h o) := hi.operate hd (by rintro data rfl; exact absurd ho id)
  have hbusy := hi'.ordered.inStep.busy
  cases o with
  | check p =>
    obtain rfl := hi.due_zero hd.1
    have ht' : (Fd.operate h (.check 0)).events.txSending = false :=
      (operate_marker (o := .check 0) trivial).1.trans hd.2.2
    cases hp with
    | idle ht he ha hf hm =>
      obtain ⟨s', hs, ha', hm'⟩ := hm.checkIdleTimeout
      have hall := he.trans hs
      rw [List.append_nil] at hall
      rw [show completed h (.check 0) = [] from rfl, List.append_nil]
      exact .idle ht' hall (ha'.trans ha) hf hm'
    | busy ht => exact absurd (ht.symm.trans hd.2.2) Bool.noConfusion
  | attempt p =>
    obtain rfl := hi.due_zero hd.1
    rw [show completed h (.attempt 0) = [] from rfl, List.append_nil]
    cases hp with
    | idle ht he ha hf hm =>
      have hsearch := hm.searches hi ht
      show Passing s (tryToSend h 0).handle fs
      generalize (tryToSend h 0).handle = k at hsearch
      cases hsearch with
      | rests ht' hm' => exact .idle ht' he ha hf hm'
      | @sends r g s' ht' hs hc hm' =>
        exact .busy ht' (.sends he hs) (hs.accepted.trans ha) (List.rel_append hf (.cons ⟨⟨g, rfl⟩, hc.leads.noReset⟩ .nil)) hc hm'
    | busy ht => exact absurd (ht.symm.trans hd.2.2) Bool.noConfusion
  | run len =>
    cases hp with
    | idle ht => exact absurd (ht.symm.trans hd) Bool.noConfusion
    | @busy Fs s' r ht he ha hf hc hm =>
      show Passing s (Fd.runTx h len).1 (fs ++ (Fd.runTx h len).2.2)
      rcases hm.runTx hc hi.ordered.inStep len with ⟨hnone, hc', hm', hbytes⟩ | ⟨hdone, hm', ht'⟩
      · rw [hnone, List.append_nil]
        refine .busy ?_ he ha (hbytes ▸ hf) hc' hm'
        have hbusy' : (Fd.runTx h len).1.events.txSending =
          (Fd.runTx h len).1.hdlc.tx.originData.isSome := hbusy
        rw [hbusy', hc'.origin]
        rfl
      · rw [hdone]
        exact .idle ht' he ha hf hm'
  | _ => exact absurd ho id

/-- A call that ends with no frame on its way completes what the party sent. -/
theorem Mirrors.getTxData (hm : Mirrors h [] s) (hi : InAbm h)
    (ht : h.events.txSending = false) (len : Nat)
    (hdone : (Fd.getTxData h len).h.events.txSending = false) :
    InAbm (Fd.getTxData h len).h ∧ ∃ Fs s', s.Emits Fs s' ∧ s'.accepted = s.accepted ∧
      List.Forall₂ IsFrame Fs (Fd.getTxData h len).sent ∧ Mirrors (Fd.getTxData h len).h [] s' := by
  have hallows := (opsOf_inOrder hi.ordered (.getTxData len)).and
    (txOps_transmit len h.nextPeer (2 * len + 3) true false h [])
  have hend := (hallows.whole (P := fun past k => InAbm k ∧
    Passing s k (past.flatMap fun m => completed m.1 m.2)) ?_ ⟨hi, .idle ht .refl rfl .nil hm⟩).1
  · rw [← call_ops h (.getTxData len)] at hend
    have hsent : (Fd.getTxData h len).sent = _ := txLoop_sent len h.nextPeer _ _ _ h []
    rw [hsent]
    refine ⟨hend.1, ?_⟩
    have hk : (Fd.call h (.getTxData len)).events.txSending = false := hdone
    cases hend.2 with
    | idle _ he ha hf hm' => exact ⟨_, _, he, ha, hf, hm'⟩
    | busy ht' => exact absurd (ht'.symm.trans hk) Bool.noConfusion
  · rintro past k o ⟨hik, hpk⟩ ⟨⟨hord, hd⟩, ho⟩
    refine ⟨hik.operate hd (by rintro data rfl; exact absurd ho id), ?_⟩
    rw [List.flatMap_append, List.flatMap_singleton]
    exact hpk.operate hik hd ho

end TinyProto.Fd
