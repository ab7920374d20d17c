import TinyProto.Fd.Sending

/-!
# The slot being drained

The low level reads a frame out of its slot while it sends it, over as many calls as the
output buffers take.  The slot may be freed meanwhile.  As long as no packet is stored in it,
its bytes stay what they were when the frame was chosen, and the wire carries the frames
chosen so far (`frame_kept`).
-/

set_option linter.unusedSectionVars false

namespace TinyProto.Fd

open Hdlc

variable {W N : Nat} [NeZero W] [NeZero N] {h h₁ : Handle W N} {p : Fin N} {wire : List Byte}

/-! ## What is kept -/

/-- The slot of the frame on its way holds the bytes that the frame was chosen with. -/
def SlotKept (h : Handle W N) : Prop :=
  ∀ r, h.hdlc.tx.originData = some r →
    ∃ p, (framesOut h.log).getLast? = some (p, (h.slot r).bytes)

/-- The wire, with what is still pending, carries the frames that were chosen. -/
def WireKept (h : Handle W N) (wire : List Byte) : Prop :=
  wire ++ h.hdlc.pending h.mem =
    (framesOut h.log).flatMap fun f => encodeFrame h.hdlc.crcType f.2

/-- The account of the frame on its way. -/
structure Kept (h : Handle W N) (wire : List Byte) : Prop where
  stored : h.hdlc.crcType.stored = h.hdlc.crcType
  ok : h.hdlc.tx.Ok h.hdlc.crcType h.mem
  slot : SlotKept h
  wire : WireKept h wire

theorem mem_of_bytes {r : SlotRef W} (hb : (h₁.slot r).bytes = (h.slot r).bytes) :
    h₁.mem r = h.mem r := by
  unfold Handle.mem
  rw [hb]

/-- The account reads nothing but the slot of the frame. -/
theorem Kept.congr (hk : Kept h wire) (htx : h₁.hdlc.tx = h.hdlc.tx)
    (hcrc : h₁.hdlc.crcType = h.hdlc.crcType) (hout : framesOut h₁.log = framesOut h.log)
    (hslot : ∀ r, h.hdlc.tx.originData = some r → (h₁.slot r).bytes = (h.slot r).bytes) :
    Kept h₁ wire := by
  have hmem : ∀ r, h.hdlc.tx.originData = some r → h₁.mem r = h.mem r :=
    fun r hr => mem_of_bytes (hslot r hr)
  refine ⟨by rw [hcrc]; exact hk.stored, ?_, fun r hr => ?_, ?_⟩
  · rw [htx, hcrc]
    exact hk.ok.congr hmem
  · rw [htx] at hr
    rw [hout, hslot r hr]
    exact hk.slot r hr
  · have hpend : h₁.hdlc.pending h₁.mem = h.hdlc.pending h.mem := by
      unfold HdlcLl.pending
      rw [htx, hcrc]
      exact Tx.pending_congr hmem
    unfold WireKept
    rw [hpend, hout, hcrc]
    exact hk.wire

/-! ## Outside of a transmission -/

/-- Freeing a slot leaves its bytes. -/
theorem Kept.works (hk : Kept h wire) (hi : InStep h) (hworks : WorksFor p h h₁) :
    Kept h₁ wire := by
  refine hk.congr (by rw [hworks.hdlc]) (by rw [hworks.hdlc]) hworks.out fun r hr => ?_
  cases r with
  | iSlot i =>
    rcases hworks.iQueue i with hsame | ⟨-, hfree⟩
    · exact congrArg Slot.bytes hsame
    · have hslot : h₁.slot (.iSlot i) = { h.iQueue.frames i with type := .free } := hfree
      rw [hslot]
      rfl
  | sSlot i =>
    rcases hworks.sQueue i with hsame | ⟨hfree, -⟩
    · exact congrArg Slot.bytes hsame
    · exact absurd hfree (hi.taken i hr)

/-- The first free slot is not the one being drained. -/
def Spares (h : Handle W N) : Prop :=
  ∀ i, h.iQueue.getNext [.free] 0 0 = some i → h.hdlc.tx.originData ≠ some (.iSlot i)

theorem Kept.stores (hk : Kept h wire) (ha : Spares h) (hs : Stores p h h₁) : Kept h₁ wire := by
  refine hk.congr (by rw [hs.hdlc]) (by rw [hs.hdlc]) hs.out fun r hr => ?_
  cases r with
  | sSlot i => exact congrArg (fun q : Queue 4 => (q.frames i).bytes) hs.sQueue
  | iSlot i =>
    rcases hs.iQueue with hsame | ⟨j, data, hj, hset⟩
    · exact congrArg (fun q : Queue W => (q.frames i).bytes) hsame
    · have hij : i ≠ j := by
        rintro rfl
        exact ha i hj hr
      have hslot : h₁.slot (.iSlot i) = (h.iQueue.setFrame j (newIFrame h p data)).frames i :=
        congrArg (fun q : Queue W => q.frames i) hset
      rw [hslot, Queue.setFrame_ne _ hij]
      rfl

theorem Kept.around (hk : Kept h wire) (hi : InStep h) (ha : Around Spares h h₁) :
    Kept h₁ wire := by
  cases ha with
  | same _ hdlc _ iQueue sQueue _ _ out =>
    obtain ⟨rx, buf, hll⟩ := hdlc
    refine hk.congr (by rw [hll]) (by rw [hll]) out fun r _ => ?_
    cases r with
    | iSlot i => exact congrArg (fun q : Queue W => (q.frames i).bytes) iQueue
    | sSlot i => exact congrArg (fun q : Queue 4 => (q.frames i).bytes) sQueue
  | works hworks => exact hk.works hi hworks
  | stores _ ha hs => exact hk.stores ha hs
  | register _ _ _ hr =>
    refine hk.congr (by rw [hr]; rfl) (by rw [hr]; rfl) (by rw [hr]; rfl) fun r _ => ?_
    rw [hr]
    cases r <;> rfl

/-! ## In a transmission -/

/-- The low level writes what is pending. -/
theorem Kept.runLl (hk : Kept h wire) (hi : InStep h) (len : Nat) :
    Kept { h with hdlc := (hdlcLlRunTx h.mem h.hdlc len).1 }
      (wire ++ (hdlcLlRunTx h.mem h.hdlc len).2.1) := by
  have hok : h.hdlc.TxOk h.mem := ⟨hi.crc, hk.ok⟩
  obtain ⟨hout, hrest, hok'⟩ := runTx_pending hok len
  have hsent := runTx_sent hok len
  have hcrc := (hdlcLlRunTx_runs h.mem hi.crc hi.sound len).crcType
  generalize hdlcLlRunTx h.mem h.hdlc len = out at hout hrest hok' hsent hcrc
  obtain ⟨ll, bs, done⟩ := out
  dsimp only at hout hrest hok' hsent hcrc ⊢
  obtain ⟨m, hm⟩ : ∃ m : Handle W N, m = { h with hdlc := ll } := ⟨_, rfl⟩
  have hmll : m.hdlc = ll := by rw [hm]
  have hlog : m.log = h.log := by rw [hm]
  have hslot : ∀ r, m.slot r = h.slot r := by
    intro r
    rw [hm]
    cases r <;> rfl
  have hmem : m.mem = h.mem := funext fun r => mem_of_bytes (by rw [hslot])
  rw [← hm]
  refine ⟨by rw [hmll, hcrc]; exact hk.stored, by rw [hmll, hmem]; exact hok'.tx, fun r hr => ?_, ?_⟩
  · rw [hmll] at hr
    rcases hsent with ⟨-, hod, -⟩ | ⟨r', -, -, hnone, -⟩
    · rw [hslot, hlog]
      exact hk.slot r (hod.symm.trans hr)
    · cases hnone.symm.trans hr
  · unfold WireKept
    rw [hmll, hmem, hcrc, hlog, hout, hrest, List.append_assoc, List.take_append_drop]
    exact hk.wire

theorem Kept.runTx (hk : Kept h wire) (hi : InStep h) (len : Nat) :
    Kept (runTx h len).1 (wire ++ (runTx h len).2.1) := by
  have hll := hk.runLl hi len
  have hran := runTx_ran hi len
  generalize (Fd.runTx h len).1 = k at hran
  generalize (Fd.runTx h len).2.1 = bs at hran
  cases hran with
  | filled hrun _ _ =>
    rw [hrun] at hll
    exact hll
  | @completed ll bs r n hrun hod hnone _ =>
    -- The frame is done, and its slot is no longer read.
    rw [hrun] at hll
    have hc := onFrameSend_completes (hi.resolves_ll hod ll)
    refine hll.congr (by rw [hc.hdlc]) (by rw [hc.hdlc]) (by rw [hc.log]) fun r' hr' => ?_
    cases hnone.symm.trans hr'

theorem bytes_range (h : Handle W N) (r : SlotRef W) :
    (List.range (h.slot r).bytes.length).map (h.mem r) = (h.slot r).bytes := by
  refine List.ext_getElem (by simp) fun i hi hi' => ?_
  simp [Handle.mem, List.getElem?_eq_getElem hi']

/-- The choice of a frame, with none on its way. -/
theorem Kept.tries (hk : Kept h wire) (hi : InStep h) (ht : h.events.txSending = false)
    {t : Turn W N} (htries : Tries h p t) : Kept t.handle wire := by
  have hnone := hi.idle ht
  have hnew : ∀ k : Handle W N, k.hdlc = h.hdlc → framesOut k.log = framesOut h.log → Kept k wire := by
    intro k hll hout
    refine hk.congr (by rw [hll]) (by rw [hll]) hout fun r hr => ?_
    cases hnone.symm.trans hr
  cases htries with
  | @chosen m r _ hprep hf hlog =>
    have hmnone : m.hdlc.tx.originData = none := by
      rw [hprep.hdlc]
      exact hnone
    have htx := @startFrame_tx _ _ _ _ m r hmnone
    obtain ⟨k, hkeq⟩ : ∃ k, k = startFrame m r := ⟨_, rfl⟩
    have hslot : k.slot r = m.slot r := by
      rw [hkeq]
      cases r <;> rfl
    have hout : framesOut k.log = framesOut h.log ++ [(p, (m.slot r).bytes)] := by
      have hklog : k.log = m.log := by rw [hkeq]; rfl
      rw [hklog, hlog, framesOut_append]
      rfl
    rw [← hkeq, hprep.hdlc] at htx
    show Kept (startFrame m r) wire
    rw [← hkeq]
    have hcrc : k.hdlc.crcType = h.hdlc.crcType := by rw [htx]
    have hstate : k.hdlc.tx.state = .sendStart := by
      rw [htx]
      exact hk.ok.idle hnone
    have hod : k.hdlc.tx.originData = some r := by rw [htx]
    have hpend : k.hdlc.pending k.mem = encodeFrame h.hdlc.crcType (m.slot r).bytes := by
      unfold HdlcLl.pending
      rw [Tx.pending_new (by rw [hcrc]; exact hk.stored) hstate hod (by rw [htx]), hcrc, ← hslot,
        ← bytes_range k r, hslot]
      rw [htx]
      rfl
    refine ⟨by rw [hcrc]; exact hk.stored, ⟨fun hn => ?_, fun _ _ => ?_, fun hs => ?_, fun hs => ?_,
      fun hs => ?_, fun hs => ?_⟩, fun r' hr' => ⟨p, ?_⟩, ?_⟩
    · rw [hod] at hn
      cases hn
    · rw [htx]
      exact Nat.succ_pos _
    · cases hstate.symm.trans hs
    · cases hstate.symm.trans hs
    · cases hstate.symm.trans hs
    · cases hstate.symm.trans hs
    · cases hod.symm.trans hr'
      rw [hout, List.getLast?_concat, hslot]
    · have hwire := hk.wire
      unfold WireKept HdlcLl.pending at hwire
      rw [hk.ok.pending_nil hnone, List.append_nil] at hwire
      unfold WireKept
      rw [hpend, hout, hcrc, List.flatMap_append, hwire]
      simp
  | none _ hprep hlog => exact hnew _ hprep.hdlc (by rw [hlog])
  | returned _ _ _ => exact hnew _ rfl ((framesOut_append ..).trans (List.append_nil _))

/-! ## Runs -/

/-- What holds at every turn of the loop. -/
structure Drains (p : Fin N) (wire : List Byte) (h : Handle W N) (data : List Byte) : Prop where
  addressed : Addressed h
  inStep : InStep h
  kept : Kept h (wire ++ data)
  single : ¬Multi h → p = 0
  next : (h.peers p).addr ≠ invalidAddr → (h.peers h.nextPeer).addr ≠ invalidAddr

theorem getTxDataLoop_drains (hd : Drains p wire h []) (len fuel : Nat) :
    ∃ bs, Drains p wire (getTxDataLoop len p fuel true false h []).h bs ∧
      ((getTxDataLoop len p fuel true false h []).result = .ok bs ∨
        (getTxDataLoop len p fuel true false h []).result = .error .unknownPeer) := by
  rw [getTxDataLoop_eq]
  refine (getTxDataLoopWith_rule (fun k => tryToSend k p) len p (P := fun _ => Drains p wire)
    (fun _ k data hk ht _ => ?_) (fun _ k data hk ht _ _ => ?_) (fun k data hk ht _ hp => ?_) fuel
    true false h [] hd).elim fun _ hbs => hbs
  · have hruns := runTx_runsOn hk.inStep ht (len - data.length)
    refine ⟨?_, hruns.inStep, ?_, ?_, ?_⟩
    · exact run_addressed (runTx_run (h := k) (G := AnyAct) (fun _ _ _ => trivial)
        (fun _ _ => trivial) _) hk.addressed
    · rw [← List.append_assoc]
      exact hk.kept.runTx hk.inStep _
    · rw [Multi.congr hruns.settings]
      exact hk.single
    · rw [hruns.peers]
      exact fun hp => hruns.peers ▸ hruns.registered (hk.next hp)
  · have hworks := checkIdleTimeout_works k p
    refine ⟨hk.addressed.congr hworks.settings hworks.nextPeer hworks.addr_eq,
      hk.inStep.works hk.addressed hworks, hk.kept.works hk.inStep hworks, ?_, ?_⟩
    · rw [Multi.congr hworks.settings]
      exact hk.single
    · rw [hworks.nextPeer, hworks.addr_eq, hworks.addr_eq]
      exact hk.next
  · have htried := tryToSend_tried hk.inStep hk.addressed ht
      (hk.addressed.live_of_unique hp hk.single) (hk.next hp)
    refine ⟨hk.addressed.congr htried.settings htried.nextPeer htried.addr, htried.inStep,
      hk.kept.tries hk.inStep ht (tryToSend_tries k p), ?_, ?_⟩
    · rw [Multi.congr htried.settings]
      exact hk.single
    · rw [htried.nextPeer, htried.addr, htried.addr]
      exact hk.next

/-- `tiny_fd_send_packet_to` gets as far as taking a slot. -/
def Admits (h : Handle W N) (address : Byte) (data : List Byte) : Prop :=
  ∃ p, addressFieldToPeer h (sendAddress h address) = some p ∧ data.length ≤ h.iQueue.mtu ∧
    (h.peers p).canAcceptIFrames = true ∧ h.events.queueHasFreeSlots = true

/-- A packet is not stored in the slot that is being drained. -/
def KeepsSlot (h : Handle W N) (c : Call) : Prop :=
  ∀ address data, c = .sendPacketTo address data → Admits h address data → Spares h

theorem sendPacketTo_refused {address : Byte} {data : List Byte} (hno : ¬Admits h address data) :
    (sendPacketTo h address data).1 = h := by
  unfold sendPacketTo
  split
  · rfl
  · next p hp =>
    split
    · rfl
    · next hlen =>
      split
      · next haccept =>
        split
        · next hslots => exact absurd ⟨p, hp, Int.not_lt.mp hlen, haccept, hslots⟩ hno
        · rfl
      · rfl

theorem initHandle_kept (init : InitParams) {hdlc : HdlcLl (SlotRef W)} (millis : BitVec 32)
    (hll : Started hdlc) : Kept (initHandle W N init hdlc millis) [] := by
  obtain ⟨sz, llInit, a, hok⟩ := hll
  obtain ⟨-, htx, hcrc⟩ := hdlcLlInit_ok hok
  have hnone : hdlc.tx.originData = none := by rw [htx]; rfl
  have htxok : hdlc.tx.Ok hdlc.crcType (initHandle W N init hdlc millis).mem :=
    .ofNone hnone (by rw [htx]; rfl)
  refine ⟨?_, htxok, fun r hr => ?_, ?_⟩
  · show hdlc.crcType.stored = hdlc.crcType
    rw [hcrc, stored_stored]
  · cases hnone.symm.trans hr
  · exact htxok.pending_nil hnone

theorem Produces.kept (hp : Produces KeepsSlot h wire) : Kept h wire := by
  induction hp with
  | init _ _ hll => exact initHandle_kept _ _ hll
  | @call h wire c hp hok ih =>
    have hi := hp.inStep.1
    have hw := hp.reaches.addressed
    by_cases hc : c.Transmits
    · cases c with
      | getTxData len =>
        have hd : Drains h.nextPeer wire h [] :=
          ⟨hw, hi, by rw [List.append_nil]; exact ih, fun hm => (hw.single hm).2, id⟩
        obtain ⟨bs, hdrains, hres⟩ := getTxDataLoop_drains hd len (2 * len + 3)
        rcases (getTxData_call hi hw len).2.1.result with ⟨bs', hok', -⟩ | ⟨herr, hsame⟩
        · have hbs : bs' = bs := by
            rcases hres with hres | hres
            · exact Except.ok.inj (hok'.symm.trans hres)
            · cases hok'.symm.trans hres
          rw [output_ok hok', hbs]
          exact hdrains.kept
        · rw [output_error herr, List.append_nil]
          show Kept (getTxData h len).h wire
          rw [hsame]
          exact ih
      | _ => exact absurd hc id
    · have hnone : output h c = [] := by
        cases c with
        | getTxData len => exact absurd trivial hc
        | _ => rfl
      rw [hnone, List.append_nil]
      by_cases hadmits : ∃ address data, c = .sendPacketTo address data ∧ ¬Admits h address data
      · obtain ⟨address, data, rfl, hno⟩ := hadmits
        show Kept (sendPacketTo h address data).1 wire
        rw [sendPacketTo_refused hno]
        exact ih
      · have hspares : ∀ address data, c = .sendPacketTo address data → Spares h :=
          fun address data heq => hok address data heq
            (by_contra fun hno => hadmits ⟨address, data, heq, hno⟩)
        exact (call_rule (P := fun k => InStep k ∧ Kept k wire) hw hc hspares
          (fun k k' hwk hP ha => ⟨hP.1.around hwk ha, hP.2.around hP.1 ha⟩) ⟨hi, ih⟩).2

/-- While no packet is stored in the slot being drained, its bytes stay, at every turn of every
call, and the wire carries the frames that were chosen. -/
theorem frame_kept (hp : Produces KeepsSlot h wire) :
    (∀ len turns, SlotKept (getTxDataLoop len h.nextPeer turns true false h []).h) ∧
      SlotKept h ∧ WireKept h wire := by
  have hk := hp.kept
  have hd : Drains h.nextPeer wire h [] :=
    ⟨hp.reaches.addressed, hp.inStep.1, by rw [List.append_nil]; exact hk,
      fun hm => (hp.reaches.addressed.single hm).2, id⟩
  refine ⟨fun len turns => ?_, hk.slot, hk.wire⟩
  obtain ⟨_, hdrains, -⟩ := getTxDataLoop_drains hd len turns
  exact hdrains.kept.slot

theorem frame_kept_sendInParts :
    (∀ len turns, SlotKept (getTxDataLoop len (sendInParts.foldl call (smallHandle 2 1 .abm)).nextPeer
        turns true false (sendInParts.foldl call (smallHandle 2 1 .abm)) []).h) ∧
      SlotKept (sendInParts.foldl call (smallHandle 2 1 .abm)) ∧
      WireKept (sendInParts.foldl call (smallHandle 2 1 .abm))
        ([] ++ outputs (smallHandle 2 1 .abm) sendInParts) := by
  refine frame_kept (.calls (.init (by decide) (by decide) (smallLl_started 2))
    ⟨nofun, nofun, nofun, ?_, nofun, trivial⟩)
  intro address data _ _ i _ hi
  revert hi
  revert i
  decide +kernel

/-- A packet is sent and sent again, the second time with a small buffer.  Meanwhile the
acknowledgement arrives, and two more packets are accepted. -/
def acknowledgeInParts : List Call :=
  [.onFrameRead [0x03, 0x3F], .getTxData 64, .sendPacketTo 0 [1, 2, 3, 4], .getTxData 64,
    .tick 1000, .getTxData 4, .onFrameRead [0x01, 0x21], .sendPacketTo 0 [5, 5, 5, 5],
    .sendPacketTo 0 [9, 9, 9, 9]]

/-- The rest of the first frame comes from the third one, with the check field of the first. -/
theorem slot_overwritten :
    Reachable AnyFrame (acknowledgeInParts.foldl call (smallHandle 2 1 .abm)) ∧
      ¬SlotKept (acknowledgeInParts.foldl call (smallHandle 2 1 .abm)) ∧
      outputs (smallHandle 2 1 .abm) (acknowledgeInParts ++ [.getTxData 6]) =
        encodeFrame .crc16 [0x01, 0x73] ++ encodeFrame .crc16 [0x01, 0x00, 1, 2, 3, 4] ++
          [flagSequence, 0x01, 0x00, 1, 9, 9, 9] ++ fcs .crc16 [0x01, 0x00, 1, 2, 3, 4] ++
            [flagSequence] := by
  refine ⟨(smallHandle_reachable _ .abm (by decide) (by decide)).calls (callsOk_any _ _),
    fun hkept => ?_, by decide +kernel⟩
  obtain ⟨p, hp⟩ := hkept (.iSlot 0) (by decide +kernel)
  revert hp
  revert p
  decide +kernel

end TinyProto.Fd
