import TinyProto.Fd.Carrying
import TinyProto.Fd.Sizes

/-!
# What a call writes

A frame may be read out of its slot with several calls of `tiny_fd_get_tx_data`.  The bytes
that such calls write, until no frame is on its way, are the frames that they complete, each
one as `hdlc_ll` encodes it (`drainTx_speaks`).
-/

set_option linter.unusedSectionVars false

namespace TinyProto.Fd

open Hdlc Runs GoBackN

variable {W N : Nat} [NeZero W] [NeZero N] {h h₁ : Handle W N} {p : Fin N}

/-! ## The bytes of a call -/

/-- The bytes that an operation writes. -/
def written (h : Handle W N) : Op W N → List Byte
  | .run len => (runTx h len).2.1
  | _ => []

/-- The loop of `tiny_fd_get_tx_data` returns what its operations wrote, if it succeeds. -/
theorem txLoop_written (len : Nat) (p : Fin N) :
    ∀ (fuel : Nat) (again waitPointPassed : Bool) (h : Handle W N) (data bs : List Byte),
      (getTxDataLoop len p fuel again waitPointPassed h data).result = .ok bs →
        bs = data ++ (trace operate h (txOps len p fuel again waitPointPassed h data)).flatMap
          fun m => written m.1 m.2
  | 0, _, _, _, data, bs, hok => by
    cases hok
    exact (List.append_nil data).symm
  | fuel + 1, again, waitPointPassed, h, data, bs, hok => by
    unfold getTxDataLoop at hok
    unfold txOps
    split at hok
    · next hlen =>
      rw [if_pos hlen]
      cases hok
      exact (List.append_nil data).symm
    · next hlen =>
      rw [if_neg hlen]
      split at hok
      · next ht =>
        rw [if_pos ht]
        dsimp only at hok ⊢
        rw [trace, List.flatMap_cons]
        split at hok
        · next hnone =>
          rw [if_pos hnone]
          cases hok
          have hempty : written h (.run (len - data.length)) = [] := hnone.1
          rw [hempty]
          exact (List.append_nil data).symm
        · next hsome =>
          rw [if_neg hsome, ← List.append_assoc]
          exact txLoop_written len p fuel _ _ _ _ bs hok
      · next ht =>
        rw [if_neg ht]
        split at hok
        · cases hok
        · next hp =>
          rw [if_neg hp]
          dsimp only at hok ⊢
          rw [trace, List.flatMap_cons]
          split at hok
          · next hpassed =>
            rw [if_pos hpassed]
            cases hok
            exact (List.append_nil data).symm
          · next hpassed =>
            rw [if_neg hpassed, trace, List.flatMap_cons]
            show bs = data ++ ([] ++ ([] ++ _))
            have htry : operate (operate h (.check p)) (.attempt p) =
                (tryToSend (checkIdleTimeout h p) p).handle := rfl
            rw [htry]
            rw [List.nil_append, List.nil_append]
            cases hturn : tryToSend (checkIdleTimeout h p) p with
            | stop k =>
              rw [hturn] at hok
              cases hok
              exact (List.append_nil data).symm
            | chosen k =>
              rw [hturn] at hok
              exact txLoop_written len p fuel _ _ _ _ bs hok
            | nothing k =>
              rw [hturn] at hok
              dsimp only at hok ⊢
              split at hok
              · next hlast =>
                rw [if_pos hlast]
                cases hok
                exact (List.append_nil data).symm
              · next hmore =>
                rw [if_neg hmore]
                exact txLoop_written len p fuel _ _ _ _ bs hok

/-- A peer that is not registered is not served. -/
theorem txOps_unknown (hi : InStep h) (hp : (h.peers h.nextPeer).addr = invalidAddr) (len : Nat) :
    opsOf h (.getTxData len) = [] := by
  have ht : h.events.txSending = false := by
    rw [hi.busy]
    cases ho : h.hdlc.tx.originData with
    | none => rfl
    | some r => exact absurd hp (hi.next (by rw [ho]; nofun))
  show txOps len h.nextPeer (2 * len + 2 + 1) true false h [] = []
  unfold txOps
  rw [ht, if_pos hp, if_neg Bool.false_ne_true, ite_self]

/-- The output of a call is what its operations wrote. -/
theorem output_written (ho : Ordered h) (len : Nat) :
    output h (.getTxData len) =
      (trace operate h (opsOf h (.getTxData len))).flatMap fun m => written m.1 m.2 := by
  by_cases hp : (h.peers h.nextPeer).addr = invalidAddr
  · have hloop := getTxDataLoop_unknown ho.inStep hp len (2 * len + 2)
    have hcall : getTxData h len = _ := hloop
    have hnone : output h (.getTxData len) = [] := by
      by_cases hlen : len = 0
      · exact output_ok (by rw [hcall, if_pos hlen])
      · exact output_error (by rw [hcall, if_neg hlen])
    rw [hnone, txOps_unknown ho.inStep hp len]
    rfl
  · have hu : ¬Multi h → h.nextPeer = 0 := fun hm => (ho.addressed.single hm).2
    obtain ⟨⟨new, hc, -⟩, -⟩ := getTxDataLoopWith_continues (fun k => tryToSend k h.nextPeer)
      (fun _ => tryToSend_tried) len (2 * len + 3) true false h [] ho.addressed ho.inStep hu hp hp
      (Nat.zero_le len)
    rw [← getTxDataLoop_eq] at hc
    have hresult : (getTxData h len).result = .ok new := hc.result
    rw [output_ok hresult]
    have hwrote := txLoop_written len h.nextPeer _ _ _ h [] new hresult
    rwa [List.nil_append] at hwrote

/-! ## Calls one after the other -/

/-- `tiny_fd_get_tx_data` with one buffer after the other: the handle, the frames that were
completed and the bytes that were written. -/
def drainTx : Handle W N → List Nat → Handle W N × List (List Byte) × List Byte
  | h, [] => (h, [], [])
  | h, len :: sizes =>
      let rest := drainTx (getTxData h len).h sizes
      (rest.1, (getTxData h len).sent ++ rest.2.1, output h (.getTxData len) ++ rest.2.2)

/-- Every operation preserves what holds of the frames and bytes so far. -/
structure Stepwise (P : Handle W N → List (List Byte) → List Byte → Prop) : Prop where
  step : ∀ {k fs ws o}, P k fs ws → Ordered k → Due k o → o.Transmits →
    P (operate k o) (fs ++ completed k o) (ws ++ written k o)

variable {P : Handle W N → List (List Byte) → List Byte → Prop} {fs : List (List Byte)}
  {ws : List Byte}

/-- It holds after every call, -/
theorem Stepwise.call (ht : Stepwise P) (ho : Ordered h) (hP : P h fs ws) (len : Nat) :
    Ordered (getTxData h len).h ∧
      P (getTxData h len).h (fs ++ (getTxData h len).sent) (ws ++ output h (.getTxData len)) := by
  have hallows := (opsOf_inOrder ho (.getTxData len)).and
    (txOps_transmit len h.nextPeer (2 * len + 3) true false h [])
  have hsent : (getTxData h len).sent = _ := txLoop_sent len h.nextPeer _ _ _ h []
  have hend := (hallows.whole (P := fun past k => Ordered k ∧
    P k (fs ++ past.flatMap fun m => completed m.1 m.2) (ws ++ past.flatMap fun m => written m.1 m.2))
      ?_ ⟨ho, by simpa using hP⟩).1
  · rw [← call_ops h (.getTxData len)] at hend
    rw [hsent, output_written ho]
    exact hend
  · rintro past k o ⟨hok, hPk⟩ ⟨⟨-, hd⟩, hot⟩
    refine ⟨hok.operate hd, ?_⟩
    rw [List.flatMap_append, List.flatMap_append, List.flatMap_singleton, List.flatMap_singleton,
      ← List.append_assoc, ← List.append_assoc]
    exact ht.step hPk hok hd hot

/-- and after several. -/
theorem Stepwise.drain (ht : Stepwise P) : ∀ (sizes : List Nat) {h : Handle W N}
    (fs : List (List Byte)) (ws : List Byte), Ordered h → P h fs ws →
      Ordered (drainTx h sizes).1 ∧
        P (drainTx h sizes).1 (fs ++ (drainTx h sizes).2.1) (ws ++ (drainTx h sizes).2.2)
  | [], h, fs, ws, ho, hP => by
    show Ordered h ∧ P h (fs ++ []) (ws ++ [])
    rw [List.append_nil, List.append_nil]
    exact ⟨ho, hP⟩
  | len :: sizes, h, fs, ws, ho, hP => by
    obtain ⟨ho', hP'⟩ := ht.call ho hP len
    have hrest := ht.drain sizes _ _ ho' hP'
    rwa [List.append_assoc, List.append_assoc] at hrest

/-! ## What the bytes spell -/

/-- The bytes spell the frames completed, and with what is pending the one on its way. -/
inductive Spells (h : Handle W N) (fs : List (List Byte)) (ws : List Byte) : Prop where
  | idle (ht : h.events.txSending = false) (hw : ws = fs.flatMap (encodeFrame h.hdlc.crcType))
  | busy {r : SlotRef W} (hr : h.hdlc.tx.originData = some r)
      (hok : h.hdlc.tx.Ok h.hdlc.crcType h.mem)
      (hwhole : h.hdlc.tx.frameLen = (h.slot r).bytes.length)
      (hw : ws ++ h.hdlc.pending h.mem =
        (fs ++ [(h.slot r).bytes]).flatMap (encodeFrame h.hdlc.crcType))

/-- A frame that the low level took is pending as a whole. -/
theorem Spells.start {m : Handle W N} (hnone : m.hdlc.tx.originData = none)
    (hstart : m.hdlc.tx.state = .sendStart) (hstored : m.hdlc.crcType.stored = m.hdlc.crcType)
    (hw : ws = fs.flatMap (encodeFrame m.hdlc.crcType)) (r : SlotRef W) :
    Spells (startFrame m r) fs ws := by
  have htx := @startFrame_tx _ _ _ _ m r hnone
  have hslot : (startFrame m r).slot r = m.slot r := by
    cases r <;> rfl
  have hcrc : (startFrame m r).hdlc.crcType = m.hdlc.crcType := by rw [htx]
  have hstate : (startFrame m r).hdlc.tx.state = .sendStart := by
    rw [htx]
    exact hstart
  have horigin : (startFrame m r).hdlc.tx.originData = some r := by rw [htx]
  have hpend : (startFrame m r).hdlc.pending (startFrame m r).mem =
      encodeFrame m.hdlc.crcType (m.slot r).bytes := by
    unfold HdlcLl.pending
    rw [Tx.pending_new (by rw [hcrc]; exact hstored) hstate horigin (by rw [htx]), hcrc, ← hslot,
      ← bytes_range (startFrame m r) r, hslot, htx]
    rfl
  refine .busy horigin ⟨fun hn => ?_, fun _ _ => ?_, fun hs => ?_, fun hs => ?_, fun hs => ?_,
    fun hs => ?_⟩ ?_ ?_
  · cases horigin.symm.trans hn
  · rw [htx]
    exact Nat.succ_pos _
  · cases hstate.symm.trans hs
  · cases hstate.symm.trans hs
  · cases hstate.symm.trans hs
  · cases hstate.symm.trans hs
  · unfold Tx.frameLen
    rw [hstate, hslot, htx]
    exact Nat.zero_add _
  · rw [hpend, hslot, hcrc, List.flatMap_append, List.flatMap_singleton, hw]

/-- The low level goes on with the frame, or completes it. -/
theorem Spells.runTx (hs : Spells h fs ws) (hi : InStep h) (ht : h.events.txSending = true)
    (len : Nat) :
    Spells (Fd.runTx h len).1 (fs ++ (Fd.runTx h len).2.2) (ws ++ (Fd.runTx h len).2.1) ∧
      ∀ f ∈ (Fd.runTx h len).2.2, ∃ r, f = (h.slot r).bytes := by
  cases hs with
  | idle hidle => cases hidle.symm.trans ht
  | @busy r hr hok hwhole hw =>
    have htx : h.hdlc.TxOk h.mem := ⟨hi.crc, hok⟩
    obtain ⟨hout, hrest, hok'⟩ := runTx_pending htx len
    have hsent := runTx_sent htx len
    have hcrc := (hdlcLlRunTx_runs h.mem hi.crc hi.sound len).crcType
    unfold Fd.runTx
    generalize hdlcLlRunTx h.mem h.hdlc len = out at hout hrest hok' hsent hcrc
    obtain ⟨ll, bs, done⟩ := out
    dsimp only at hout hrest hok' hsent hcrc ⊢
    have hslot := slot_ll h ll r
    have hmem : ({ h with hdlc := ll } : Handle W N).mem = h.mem :=
      funext fun r' => mem_of_bytes (by rw [slot_ll])
    have hgone : bs ++ ll.pending h.mem = h.hdlc.pending h.mem := by
      rw [hout, hrest, List.take_append_drop]
    rcases hsent with ⟨rfl, hod, hlen, -⟩ | ⟨r', hod, rfl, hnone, -⟩
    · refine ⟨.busy (hod.trans hr) ?_ ?_ ?_, nofun⟩
      · show ll.tx.Ok ll.crcType ({ h with hdlc := ll } : Handle W N).mem
        rw [hmem]
        exact hok'.tx
      · show ll.tx.frameLen = (({ h with hdlc := ll } : Handle W N).slot r).bytes.length
        rw [hslot]
        exact hlen.trans hwhole
      · show ws ++ bs ++ ll.pending ({ h with hdlc := ll } : Handle W N).mem =
          (fs ++ [] ++ [(({ h with hdlc := ll } : Handle W N).slot r).bytes]).flatMap
            (encodeFrame ll.crcType)
        rw [hslot, hmem, hcrc, List.append_assoc, hgone, List.append_nil]
        exact hw
    · obtain rfl : r = r' := Option.some.inj (hr.symm.trans hod)
      have hdone := onFrameSend_completes (hi.resolves_ll hod ll)
      have hbytes : (List.range h.hdlc.tx.frameLen).map (h.mem r) = (h.slot r).bytes := by
        rw [hwhole, bytes_range]
      refine ⟨.idle hdone.txSending ?_, fun f hf => ⟨r, ?_⟩⟩
      · show ws ++ bs = (fs ++ [(List.range h.hdlc.tx.frameLen).map (h.mem r)]).flatMap
          (encodeFrame (onFrameSend { h with hdlc := ll } r).hdlc.crcType)
        rw [hbytes, hdone.hdlc]
        show _ = List.flatMap (encodeFrame ll.crcType) _
        rw [hcrc, ← hw, ← hgone]
        have hnil : ll.pending h.mem = [] := hok'.tx.pending_nil hnone
        rw [hnil, List.append_nil]
      · rw [List.map_singleton, List.mem_singleton, hbytes] at hf
        exact hf

/-- The receiver of the low level is left alone. -/
theorem runTx_listens (hi : InStep h) (len : Nat) :
    (runTx h len).1.hdlc = h.hdlc.withTx (runTx h len).1.hdlc.tx := by
  have hran := runTx_ran hi len
  generalize (runTx h len).1 = k at hran
  generalize (runTx h len).2.1 = bs at hran
  cases hran with
  | filled hrun =>
    obtain ⟨rfl, -⟩ := Prod.mk.inj hrun
    rfl
  | @completed _ _ r _ hrun hod =>
    obtain ⟨rfl, -⟩ := Prod.mk.inj hrun
    rw [(onFrameSend_completes (hi.resolves_ll hod _)).hdlc]
    rfl

/-- Between the calls that a station makes to send: its low level listens as before, and the
frames have room where the receiver has. -/
structure Speaks (room : Nat) (ll : HdlcLl (SlotRef W)) (h : Handle W N) (fs : List (List Byte))
    (ws : List Byte) : Prop where
  sized : Sized room h
  stored : h.hdlc.crcType.stored = h.hdlc.crcType
  listens : h.hdlc = ll.withTx h.hdlc.tx
  fits : ∀ f ∈ fs, f ≠ [] ∧ f.length ≤ room
  spells : Spells h fs ws

theorem Sized.operate {room : Nat} (hs : Sized room h) (ho : Ordered h) {o : Op W N}
    (hd : Due h o) : Sized room (Fd.operate h o) :=
  (operate_run ho hd).preserves (fun _ _ _ hk _ hstep => hk.step hstep) hs

theorem Slot.bytes_ne_nil (s : Slot) : s.bytes ≠ [] := List.cons_ne_nil _ _

/-- The frame on its way is the only thing that changes. -/
theorem speaks_stepwise (room : Nat) (ll : HdlcLl (SlotRef W)) :
    Stepwise (W := W) (N := N) (Speaks room ll) where
  step {k fs ws o} hk ho hd ht := by
    have hsized := hk.sized.operate ho hd
    cases o with
    | check p =>
      have hworks := checkIdleTimeout_works k p
      show Speaks room ll (checkIdleTimeout k p) (fs ++ []) (ws ++ [])
      rw [List.append_nil, List.append_nil]
      refine ⟨hsized, by rw [hworks.hdlc]; exact hk.stored, by rw [hworks.hdlc]; exact hk.listens,
        hk.fits, .idle (hworks.txSending.trans hd.2.2) ?_⟩
      cases hk.spells with
      | idle _ hw =>
        rw [hworks.hdlc]
        exact hw
      | busy hr => cases (ho.inStep.idle hd.2.2).symm.trans hr
    | attempt p =>
      have hnone := ho.inStep.idle hd.2.2
      have hstart := ho.inStep.sound.idle hnone
      have hw : ws = fs.flatMap (encodeFrame k.hdlc.crcType) := by
        cases hk.spells with
        | idle _ hw => exact hw
        | busy hr => cases hnone.symm.trans hr
      show Speaks room ll (tryToSend k p).handle (fs ++ []) (ws ++ [])
      rw [List.append_nil, List.append_nil]
      have hsized' : Sized room (tryToSend k p).handle := hsized
      have htries := tryToSend_tries k p
      generalize tryToSend k p = t at hsized' htries
      have hrest : t.handle.hdlc = k.hdlc → t.handle.events.txSending = false →
          Speaks room ll t.handle fs ws := by
        intro hll hidle
        refine ⟨hsized', by rw [hll]; exact hk.stored, by rw [hll]; exact hk.listens, hk.fits,
          .idle hidle ?_⟩
        rw [hll]
        exact hw
      cases htries with
      | @chosen m r _ hprep _ _ =>
        have hmnone : m.hdlc.tx.originData = none := by
          rw [hprep.hdlc]
          exact hnone
        have htx := @startFrame_tx _ _ _ _ m r hmnone
        refine ⟨hsized', ?_, ?_, hk.fits, ?_⟩
        · show (startFrame m r).hdlc.crcType.stored = (startFrame m r).hdlc.crcType
          rw [htx, hprep.hdlc]
          exact hk.stored
        · show (startFrame m r).hdlc = ll.withTx (startFrame m r).hdlc.tx
          rw [htx, hprep.hdlc, hk.listens]
          rfl
        · refine .start hmnone ?_ ?_ ?_ r
          · rw [hprep.hdlc]
            exact hstart
          · rw [hprep.hdlc]
            exact hk.stored
          · rw [hprep.hdlc]
            exact hw
      | none _ hprep _ => exact hrest hprep.hdlc (hprep.txSending.trans hd.2.2)
      | returned => exact hrest rfl hd.2.2
    | run len =>
      obtain ⟨hspells, hbytes⟩ := hk.spells.runTx ho.inStep hd len
      have hll := runTx_listens ho.inStep len
      refine ⟨hsized, ?_, ?_, fun f hf => ?_, hspells⟩
      · show (Fd.runTx k len).1.hdlc.crcType.stored = (Fd.runTx k len).1.hdlc.crcType
        rw [hll]
        exact hk.stored
      · show (Fd.runTx k len).1.hdlc = ll.withTx (Fd.runTx k len).1.hdlc.tx
        rw [hll, hk.listens]
        rfl
      · rcases List.mem_append.mp hf with hf | hf
        · exact hk.fits f hf
        · obtain ⟨r, rfl⟩ := hbytes f hf
          exact ⟨Slot.bytes_ne_nil _, hk.sized.slot r⟩
    | _ => exact absurd ht id

/-- If no frame is on its way before the calls and none after them, the bytes are those of the
frames that were completed. -/
theorem drainTx_speaks {room : Nat} (ho : Ordered h) (hs : Sized room h)
    (hstored : h.hdlc.crcType.stored = h.hdlc.crcType) (ht : h.events.txSending = false)
    {sizes : List Nat} (hdone : (drainTx h sizes).1.events.txSending = false) :
    Speaks room h.hdlc (drainTx h sizes).1 (drainTx h sizes).2.1 (drainTx h sizes).2.2 ∧
      (drainTx h sizes).2.2 = (drainTx h sizes).2.1.flatMap (encodeFrame h.hdlc.crcType) := by
  have hstart : Speaks room h.hdlc h [] [] := ⟨hs, hstored, rfl, nofun, .idle ht rfl⟩
  obtain ⟨ho', hspeaks⟩ := (speaks_stepwise room h.hdlc).drain sizes [] [] ho hstart
  rw [List.nil_append, List.nil_append] at hspeaks
  refine ⟨hspeaks, ?_⟩
  cases hspeaks.spells with
  | idle _ hw =>
    rw [hspeaks.listens] at hw
    exact hw
  | busy hr => cases (ho'.inStep.idle hdone).symm.trans hr

end TinyProto.Fd
