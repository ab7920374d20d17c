import TinyProto.Light.Read

/-!
# From `tiny_light_send` to `tiny_light_read`

One program calls `tiny_light_send`, another one `tiny_light_read`.  As long as the calls
succeed, the second one finds in its buffers what the first one sent, call by call
(`light_round_trip`), however often `write_func` takes nothing and `read_func` has nothing.
-/

namespace TinyProto.Light

open Hdlc

variable {π : Type} {mem : π → Nat → Byte} {hdlc : HdlcLl π} {len : Nat} {ts : BitVec 32}

/-! ## Sending -/

/-- A call that does not fail ends with no frame in progress. -/
theorem sendLoop_idle : ∀ {writes : List Int} {hdlc : HdlcLl π} {stream : List Byte}
    {millis : List (BitVec 32)} {r : Sent π},
      sendLoop mem len ts hdlc stream writes millis = some r → 0 ≤ r.result →
        r.hdlc.tx.originData = none ∧ r.hdlc.crcType = hdlc.crcType
  | [], _, _, _, _, hr, _ => by cases hr
  | result :: writes, hdlc, stream, millis, r, hr, hres => by
    have hcode : Status.timeout.code < 0 := by decide
    rcases sendLoop_cases hr with ⟨hneg, rfl⟩ | ⟨-, he⟩ | ⟨-, millis', s, rfl, hnext⟩
    · exact absurd hneg (Int.not_lt.mpr hres)
    · omega
    · have hlast : s.hdlc.tx.originData = none ∧ s.hdlc.crcType = hdlc.crcType := by
        rcases hnext with ⟨-, hnext⟩ | ⟨-, -, hnext⟩ | ⟨-, hidle, rfl⟩
        · exact sendLoop_idle hnext hres
        · obtain ⟨hidle, hcrc⟩ := sendLoop_idle hnext hres
          exact ⟨hidle, hcrc⟩
        · exact ⟨hidle, rfl⟩
      exact hlast

/-- Calls of `tiny_light_send` that succeed, the payloads, and the bytes that `write_func`
took. -/
inductive Sends : HdlcLl π → List (List Byte) → List Byte → Prop where
  | done {hdlc : HdlcLl π} : Sends hdlc [] []
  | send {hdlc : HdlcLl π} (mem : π → Nat → Byte) (pbuf : π) {len : Nat} (hl : 0 < len)
      (writes : List Int) (millis : List (BitVec 32)) {r : Sent π}
      (hret : tinyLightSend mem hdlc pbuf len writes millis = some r) (hres : 0 ≤ r.result)
      {payloads : List (List Byte)} {bytes : List Byte} (hrest : Sends r.hdlc payloads bytes) :
      Sends hdlc ((List.range len).map (mem pbuf) :: payloads) (r.accepted ++ bytes)

/-- They write the frames one after the other. -/
theorem Sends.bytes {payloads : List (List Byte)} {bytes : List Byte}
    (hs : Sends hdlc payloads bytes) (hsound : Sound hdlc) (hn : hdlc.tx.originData = none) :
    bytes = payloads.flatMap (encodeFrame hdlc.crcType) ∧ ∀ payload ∈ payloads, payload ≠ [] := by
  induction hs with
  | done => exact ⟨rfl, nofun⟩
  | @send hdlc mem pbuf len hl writes millis r hret hres payloads bytes _ ih =>
    obtain ⟨ts, millis', k, rfl, -, hloop⟩ := tinyLightSend_loop hl hret
    obtain ⟨hrested, hcrc⟩ := putFrame_rested hsound pbuf hl
    obtain ⟨hidle, hcrc'⟩ := sendLoop_idle hloop hres
    have hcrc'' : r.hdlc.crcType = hdlc.crcType := hcrc'.trans hcrc
    have hsound' := sendLoop_sound (runTx_sound (by rw [hcrc]; exact hsound.stored) hrested mem) hloop
    obtain ⟨hbytes, hne⟩ := ih hsound' hidle
    refine ⟨?_, fun payload hp => ?_⟩
    · rw [List.flatMap_cons, (ownFrame_of_idle hsound hn hl hret hres).whole, hbytes, hcrc'']
    · rcases List.mem_cons.mp hp with rfl | hp
      · rw [Ne, List.map_eq_nil_iff, List.range_eq_nil]
        omega
      · exact hne payload hp

/-! ## Receiving -/

/-- A byte closes one frame at most. -/
theorem rxByte_one (h : HdlcLl π) (b : Byte) : (rxByte h b).2.length ≤ 1 := by
  unfold rxByte
  split
  · exact Nat.zero_le 1
  · split
    · have hleaves := readEnd_leaves { h with rx := { h.rx with state := .readEnd } }
      generalize readEnd { h with rx := { h.rx with state := .readEnd } } = s at hleaves
      unfold RxStep.events
      dsimp only
      rcases hleaves.1 with hok | ⟨hnone, herror⟩
      · rw [hok]
        cases s.read with
        | none => exact Nat.zero_le 1
        | some => exact Nat.le_refl 1
      · rw [hnone]
        rcases herror with he | he <;> rw [he] <;> decide
    · exact Nat.zero_le 1
  · exact Nat.zero_le 1

/-- The loop stops with a frame that is not empty. -/
theorem readLoop_frame {h : HdlcLl π} (hi : h.rx.state ≠ .readEnd) {answer : Fetched}
    {answers : List Fetched} {millis : List (BitVec 32)} {r : ReadResult π}
    (hr : readLoop ts h (answer :: answers) millis = some r) {payload : List Byte}
    (hm : RxEvent.frame payload ∈ Transducer.emits rxByte h answer.stream) (hne : payload ≠ []) :
    r.fetched = answer.stream := by
  obtain ⟨hh, hevents, hstate⟩ := runRx_answer hi answer
  have hone : (Transducer.emits rxByte h answer.stream).length ≤ 1 := by
    cases answer with
    | failed | empty => exact Nat.zero_le 1
    | byte b =>
      rw [show Transducer.emits rxByte h (Fetched.byte b).stream = (rxByte h b).2 from
        List.append_nil _]
      exact rxByte_one h b
  have hlen : rxLen (hdlcLlRunRx h answer.stream).read ≠ 0 := by
    rw [← hevents] at hm hone
    unfold RunRx.events at hm hone
    have hread : payload ∈ (hdlcLlRunRx h answer.stream).read := by
      rcases List.mem_append.mp hm with hmem | hmem
      · obtain ⟨payload', hmem, he⟩ := List.mem_map.mp hmem
        cases he
        exact hmem
      · split at hmem
        · cases hmem
        · cases List.mem_singleton.mp hmem
    rw [List.length_append, List.length_map] at hone
    generalize (hdlcLlRunRx h answer.stream).read = read at hread hone
    obtain ⟨last, rfl⟩ := List.length_eq_one_iff.mp
      (Nat.le_antisymm (by omega) (List.length_pos_of_mem hread))
    rw [List.mem_singleton] at hread
    rw [hread] at hne
    exact List.length_pos_iff.mpr hne |>.ne'
  obtain ⟨second, hsecond⟩ : ∃ second, second =
      if (hdlcLlRunRx h answer.stream).error = .success then
        hdlcLlRunRx (hdlcLlRunRx h answer.stream).h []
      else { hdlcLlRunRx h answer.stream with read := [] } := ⟨_, rfl⟩
  have hread : second.read = [] := by
    rw [hsecond]
    split
    · rw [runRx_nil hstate]
    · rfl
  unfold readLoop at hr
  cases herror : answer.error with
  | some result =>
    cases answer with
    | failed => cases hm
    | empty | byte => cases herror
  | none =>
    rw [herror] at hr
    dsimp only at hr
    rw [← hsecond, hread, List.append_nil] at hr
    split at hr
    · cases hr
      rfl
    · cases millis with
      | nil => cases hr
      | cons now millis =>
        dsimp only at hr
        split at hr
        · cases hr
          rfl
        · cases hr
          rfl

/-- A call that succeeds stops behind the first frame that is not empty. -/
theorem readLoop_delivers : ∀ {answers : List Fetched} {h : HdlcLl π}
    {millis : List (BitVec 32)} {r : ReadResult π}, h.rx.state ≠ .readEnd →
      readLoop ts h answers millis = some r → 0 < r.result →
        ∃ before b payload, r.fetched = before ++ [b] ∧
          RxEvent.frame payload ∈ (rxByte (Transducer.after rxByte h before) b).2 ∧
            r.result = payload.length ∧
              ∀ payload', RxEvent.frame payload' ∈ Transducer.emits rxByte h before → payload' = []
  | [], _, _, _, _, hr, _ => by cases hr
  | answer :: answers, h, millis, r, hi, hr, hpos => by
    by_cases hframe : ∃ payload, RxEvent.frame payload ∈ Transducer.emits rxByte h answer.stream ∧
        payload ≠ []
    · obtain ⟨payload, hm, hne⟩ := hframe
      have hfetched := readLoop_frame hi hr hm hne
      obtain ⟨before, b, payload', hsplit, hmem, hlen⟩ := (readLoop_calls hi hr).frame hpos
      obtain rfl : before = [] := by
        rw [hfetched] at hsplit
        cases answer with
        | failed | empty => exact absurd hsplit.symm (List.append_ne_nil_of_right_ne_nil _ nofun)
        | byte b' =>
          have hone := congrArg List.length hsplit
          rw [List.length_append] at hone
          exact List.length_eq_zero_iff.mp (Nat.succ.inj hone).symm
      exact ⟨[], b, payload', hsplit, hmem, hlen, nofun⟩
    · have hsilent : ∀ payload, RxEvent.frame payload ∈ Transducer.emits rxByte h answer.stream →
          payload = [] := fun payload hm => by_contra fun hne => hframe ⟨payload, hm, hne⟩
      rcases readLoop_cases hi hr with hstop | ⟨millis', s, hs, rfl⟩
      · obtain ⟨payload, hm, hlen⟩ := hstop.frame hpos
        rw [hsilent payload hm] at hlen
        exact absurd hlen (Int.ne_of_gt hpos)
      · obtain ⟨hh, -, hstate⟩ := runRx_answer hi answer
        rw [hh] at hstate
        obtain ⟨before, b, payload, hfetched, hmem, hlen, hquiet⟩ := readLoop_delivers hstate hs hpos
        refine ⟨answer.stream ++ before, b, payload, ?_, ?_, hlen, fun payload' hm => ?_⟩
        · rw [hfetched, List.append_assoc]
        · rwa [Transducer.after_append]
        · rw [Transducer.emits_append] at hm
          rcases List.mem_append.mp hm with hm | hm
          · exact hsilent payload' hm
          · exact hquiet payload' hm

variable {c : HdlcCrc} {mtu : Int}

/-- Nothing is found in a frame before its end. -/
theorem view_inside {payload : List Byte} (hf : Fits c mtu payload) {front : List Byte}
    (hfront : front <+: encodeFrame c payload) (hne : front ≠ encodeFrame c payload) :
    Transducer.emits (viewStep c mtu) .start front = [] := by
  obtain ⟨body, hbody⟩ : ∃ body, body = flagSequence :: stuff (payload ++ fcs c payload) := ⟨_, rfl⟩
  have hframe : encodeFrame c payload = body ++ [flagSequence] := by
    rw [hbody]
    rfl
  have hpart : front <+: body := by
    rw [hframe] at hfront hne
    rcases List.prefix_concat_iff.mp hfront with rfl | hfront
    · exact absurd rfl hne
    · exact hfront
  have hsilent : Transducer.emits (viewStep c mtu) .start body = [] := by
    have hlen : ((([] : List Byte).length + (payload ++ fcs c payload).length : Nat) : Int) ≤ mtu := by
      rw [List.length_append, length_fcs, List.length_nil, Nat.zero_add]
      exact hf.2
    rw [hbody, Transducer.emits_cons, viewStep_start_flag]
    exact (view_stuff (payload ++ fcs c payload) hlen).2
  obtain ⟨rest, rfl⟩ := hpart
  have hall := Transducer.emits_take_silent hsilent front.length
  rwa [List.take_left'] at hall
  rfl

/-- What a call that succeeds made of the next frame. -/
structure Reads (c : HdlcCrc) (payload : List Byte) (r : ReadResult π) : Prop where
  fetched : r.fetched = encodeFrame c payload
  result : r.result = payload.length
  bytes : r.hdlc.rxBytes 0 payload.length = payload
  between : r.hdlc.rx.state = .readStart
  crcType : r.hdlc.crcType = c

theorem readStart_of_view {h : HdlcLl π} (hv : h.view = .start) : h.rx.state = .readStart := by
  cases hs : h.rx.state with
  | readStart => rfl
  | readData | readEnd =>
    unfold HdlcLl.view at hv
    rw [hs] at hv
    cases hv

/-- A call that succeeds reads the next frame, if it finds the receiver between two frames and
the buffer is large enough. -/
theorem tinyLightRead_reads {handle : LightData π}
    (hstored : handle.hdlc.crcType.stored = handle.hdlc.crcType)
    (hbetween : handle.hdlc.rx.state = .readStart) {memory : Int → Byte} {pbuf len : Int}
    (hl : 1 ≤ len) {answers : List Fetched} {millis : List (BitVec 32)} {r : ReadResult π}
    (hret : tinyLightRead handle memory pbuf len answers millis = some r) (hpos : 0 < r.result)
    {payload rest : List Byte} (hf : Fits handle.hdlc.crcType len payload)
    (hfetched : r.fetched <+: encodeFrame handle.hdlc.crcType payload ++ rest) :
    Reads handle.hdlc.crcType payload r := by
  have hi : (handle.pointTo memory pbuf len).rx.state ≠ .readEnd := by
    show handle.hdlc.rx.state ≠ .readEnd
    rw [hbetween]
    nofun
  have hidle : (handle.pointTo memory pbuf len).RxIdle handle.hdlc.crcType len :=
    ⟨⟨rfl, rfl, fun hn => absurd hbetween hn⟩, hi⟩
  have hkeeps : Keeps handle.hdlc.crcType len [] (handle.pointTo memory pbuf len) :=
    Ready.keeps hi (.between hbetween)
  have hview : (handle.pointTo memory pbuf len).view = .start := view_readStart hbetween
  unfold tinyLightRead at hret
  cases millis with
  | nil => cases hret
  | cons ts millis =>
    have hcalls := readLoop_calls hi hret
    obtain ⟨before, b, found, hsplit, hmem, hlen, hquiet⟩ := readLoop_delivers hi hret hpos
    generalize handle.pointTo memory pbuf len = h at hi hidle hkeeps hview hcalls hmem hquiet
    have hsees : ∀ w, Transducer.emits rxByte h w =
        Transducer.emits (viewStep handle.hdlc.crcType len) .start w := fun w => by
      rw [← hview]
      exact (after_rxByte_view hstored hidle w).2.2.symm
    obtain ⟨hend, hfound⟩ := view_encodeFrame (v := .start) (.inl rfl) hf
    have hlast : RxEvent.frame found ∈ Transducer.emits rxByte h r.fetched := by
      rw [hsplit, Transducer.emits_append]
      exact List.mem_append_right _ (List.mem_append_left _ hmem)
    -- The call stops where the frame ends.
    have hwhole : r.fetched = encodeFrame handle.hdlc.crcType payload := by
      rcases List.prefix_or_prefix_of_prefix hfetched (List.prefix_append _ rest) with hpart | hpart
      · by_contra hne
        rw [hsees, view_inside hf hpart hne] at hlast
        cases hlast
      · rw [hsplit] at hpart ⊢
        rcases List.prefix_concat_iff.mp hpart with heq | ⟨more, rfl⟩
        · exact heq.symm
        · refine absurd (hquiet payload ?_) hf.1
          rw [hsees, Transducer.emits_append, hfound]
          exact List.mem_append_left _ List.mem_cons_self
    rw [hsees, hwhole, hfound, List.mem_singleton] at hlast
    obtain rfl : found = payload := RxEvent.frame.inj hlast
    obtain ⟨hbefore, -⟩ := Keeps.word hstored hl before hkeeps
    obtain ⟨-, -, hbytes⟩ := hbefore.frame hstored hl hmem
    have hafter : Transducer.after rxByte h r.fetched = (rxByte (Transducer.after rxByte h before) b).1 := by
      rw [hsplit, Transducer.after_append]
      rfl
    have hstate : (Transducer.after rxByte h r.fetched).rx.state = .readStart := by
      refine readStart_of_view ?_
      rw [← (after_rxByte_view hstored hidle r.fetched).2.1, hview, hwhole, hend]
    have hcrc := (after_rxByte_view hstored hidle r.fetched).1.ok.crcType
    rw [← hafter] at hbytes
    rcases hcalls.hdlc with hhdlc | hhdlc
    · exact ⟨hwhole, hlen, by rw [hhdlc]; exact hbytes, by rw [hhdlc]; exact hstate,
        by rw [hhdlc]; exact hcrc⟩
    · exact ⟨hwhole, hlen, by rw [hhdlc]; exact hbytes, by rw [hhdlc]; rfl, by rw [hhdlc]; exact hcrc⟩

/-- Calls of `tiny_light_read` that succeed, the lengths of their buffers with what is found in
them, and the bytes that `read_func` delivered. -/
inductive Receives : LightData π → List (Int × List Byte) → List Byte → Prop where
  | done {handle : LightData π} : Receives handle [] []
  | read {handle : LightData π} (memory : Int → Byte) (pbuf : Int) {len : Int} (hl : 1 ≤ len)
      (answers : List Fetched) (millis : List (BitVec 32)) {r : ReadResult π}
      (hret : tinyLightRead handle memory pbuf len answers millis = some r) (hpos : 0 < r.result)
      {found : List (Int × List Byte)} {fetched : List Byte}
      (hrest : Receives { hdlc := r.hdlc, rxBuf := pbuf } found fetched) :
      Receives handle ((len, r.hdlc.rxBytes 0 r.result.toNat) :: found) (r.fetched ++ fetched)

/-- Each call finds the next frame. -/
theorem Receives.frames {handle : LightData π} {found : List (Int × List Byte)}
    {fetched : List Byte} (hr : Receives handle found fetched)
    (hstored : handle.hdlc.crcType.stored = handle.hdlc.crcType)
    (hbetween : handle.hdlc.rx.state = .readStart) {payloads : List (List Byte)}
    (hpart : fetched <+: payloads.flatMap (encodeFrame handle.hdlc.crcType))
    (hfits : ∀ x ∈ found, ∀ payload ∈ payloads, Fits handle.hdlc.crcType x.1 payload) :
    found.map Prod.snd <+: payloads ∧
      fetched = (found.map Prod.snd).flatMap (encodeFrame handle.hdlc.crcType) := by
  induction hr generalizing payloads with
  | done => exact ⟨List.nil_prefix, rfl⟩
  | @read handle memory pbuf len hl answers millis r hret hpos found fetched _ ih =>
    cases payloads with
    | nil =>
      -- A call that succeeds fetches a byte.
      rw [List.flatMap_nil, List.prefix_nil, List.append_eq_nil_iff] at hpart
      unfold tinyLightRead at hret
      cases millis with
      | nil => cases hret
      | cons ts millis =>
        have hi : (handle.pointTo memory pbuf len).rx.state ≠ .readEnd := by
          show handle.hdlc.rx.state ≠ .readEnd
          rw [hbetween]
          nofun
        obtain ⟨before, b, -, hsplit, -⟩ := readLoop_delivers hi hret hpos
        rw [hpart.1] at hsplit
        exact absurd hsplit.symm (List.append_ne_nil_of_right_ne_nil _ nofun)
    | cons payload payloads =>
      rw [List.flatMap_cons] at hpart
      have hreads := tinyLightRead_reads hstored hbetween hl hret hpos
        (hfits _ List.mem_cons_self payload List.mem_cons_self)
        ((List.prefix_append _ _).trans hpart)
      rw [hreads.fetched, List.prefix_append_right_inj] at hpart
      have hbytes : r.hdlc.rxBytes 0 r.result.toNat = payload := by
        rw [hreads.result, Int.toNat_natCast, hreads.bytes]
      obtain ⟨hfound, hfetched⟩ := ih (by rw [hreads.crcType]; exact hstored) hreads.between
        (by rw [hreads.crcType]; exact hpart) (by
          rw [hreads.crcType]
          exact fun x hx p hp => hfits x (List.mem_cons_of_mem _ hx) p (List.mem_cons_of_mem _ hp))
      rw [List.map_cons, List.flatMap_cons, hbytes, hreads.fetched, hfetched, hreads.crcType]
      exact ⟨List.cons_prefix_cons.mpr ⟨rfl, hfound⟩, rfl⟩

/-! ## Round trip -/

variable {ρ : Type}

/-- Calls of `tiny_light_read` that succeed, with buffers that are large enough, find what the
calls of `tiny_light_send` that succeeded sent, in order, and use up the bytes of it. -/
theorem light_round_trip (hs : Reachable hdlc) (hidle : hdlc.tx.originData = none)
    {payloads : List (List Byte)} {bytes : List Byte} (hsends : Sends hdlc payloads bytes)
    {handle : LightData ρ} {received : List Byte} (hr : handle.Reachable received)
    (hbetween : handle.hdlc.rx.state = .readStart) (hcrc : handle.hdlc.crcType = hdlc.crcType)
    {found : List (Int × List Byte)} {fetched : List Byte} (hreceives : Receives handle found fetched)
    (hpart : fetched <+: bytes)
    (hroom : ∀ x ∈ found, ∀ payload ∈ payloads,
      ((payload.length + hdlc.crcType.value / 8 : Nat) : Int) ≤ x.1) :
    found.map Prod.snd <+: payloads ∧
      fetched = (found.map Prod.snd).flatMap (encodeFrame hdlc.crcType) := by
  obtain ⟨hbytes, hne⟩ := hsends.bytes hs.sound hidle
  rw [hbytes, ← hcrc] at hpart
  rw [← hcrc] at hroom ⊢
  exact hreceives.frames hr.sound.1 hbetween hpart fun x hx payload hp =>
    ⟨hne payload hp, hroom x hx payload hp⟩

/-- The sender behind its first frame. -/
def sentOne : HdlcLl (List Byte) :=
  { exampleHandle with
    rxBufSize := 8
    physMtu := 8
    tx := { Tx.idle with len := 16, crc := 0xF550, outBuffer := [0x7E] } }

theorem sentOne_ret :
    tinyLightSend bufferMem { exampleHandle with rxBufSize := 8, physMtu := 8 } [0x55] 1
      [1, 0, 1, 1, 1, 1] [7, 7, 7, 8, 8, 9, 9] =
        some { hdlc := sentOne, result := 1, accepted := [0x7E, 0x55, 0x50, 0xF5, 0x7E] } := rfl

/-- A write takes nothing while the first frame is sent, and the second one has a flag in it. -/
theorem exampleSends :
    Sends { exampleHandle with rxBufSize := 8, physMtu := 8 } [[0x55], [0x7E, 1]]
      [0x7E, 0x55, 0x50, 0xF5, 0x7E, 0x7E, 0x7D, 0x5E, 0x01, 0x1A, 0x74, 0x7E] := by
  have hsecond : (tinyLightSend bufferMem sentOne [0x7E, 1] 2 [1, 1, 1, 1, 1, 1, 1]
      [0, 0, 0, 0, 0, 0, 0, 0]).map (fun r => (r.result, r.accepted)) =
        some (2, [0x7E, 0x7D, 0x5E, 0x01, 0x1A, 0x74, 0x7E]) := by
    decide +kernel
  obtain ⟨r, hr, he⟩ := Option.map_eq_some_iff.mp hsecond
  obtain ⟨hres, hacc⟩ := Prod.mk.inj he
  have hlast := Sends.send bufferMem [0x7E, 1] Nat.two_pos _ _ hr (by rw [hres]; decide) .done
  rw [hacc] at hlast
  exact .send bufferMem [0x55] Nat.one_pos _ _ sentOne_ret (by decide) hlast

/-- The receiver behind its first frame. -/
def readOne : HdlcLl (List Byte) :=
  { exampleHandle with
    rxBuf := Function.update (Function.update (Function.update (fun _ => 0) 0 0x55) 1 0x50) 2 0xF5
    rxBufSize := 8
    physMtu := 8
    rx := { Rx.idle with ptr := 3 } }

theorem readOne_ret :
    ∃ accesses, tinyLightRead (LightData.mk { exampleHandle with rxBufSize := 8, physMtu := 8 } 4232)
      (fun _ => 0) 1000 8 [.byte 0x7E, .byte 0x55, .empty, .byte 0x50, .byte 0xF5, .byte 0x7E]
      [0, 0, 0, 0, 0, 0, 0] =
        some { hdlc := readOne, result := 1, fetched := [0x7E, 0x55, 0x50, 0xF5, 0x7E],
               accesses := accesses } :=
  ⟨_, rfl⟩

/-- The second buffer is as long as its frame needs. -/
theorem exampleReceives :
    Receives (LightData.mk { exampleHandle with rxBufSize := 8, physMtu := 8 } 4232)
      [(8, [0x55]), (4, [0x7E, 1])]
      [0x7E, 0x55, 0x50, 0xF5, 0x7E, 0x7E, 0x7D, 0x5E, 0x01, 0x1A, 0x74, 0x7E] := by
  have hsecond : (tinyLightRead (LightData.mk readOne 1000) (fun _ => 0) 2000 4
      [.byte 0x7E, .byte 0x7D, .byte 0x5E, .byte 0x01, .byte 0x1A, .byte 0x74, .byte 0x7E]
      [0, 0, 0, 0, 0, 0, 0, 0]).map (fun r => (r.result, r.hdlc.rxBytes 0 2, r.fetched)) =
        some (2, [0x7E, 1], [0x7E, 0x7D, 0x5E, 0x01, 0x1A, 0x74, 0x7E]) := by
    decide +kernel
  obtain ⟨accesses, hfirst⟩ := readOne_ret
  obtain ⟨r, hr, he⟩ := Option.map_eq_some_iff.mp hsecond
  obtain ⟨hres, he⟩ := Prod.mk.inj he
  obtain ⟨hbytes, hfetched⟩ := Prod.mk.inj he
  have hlast := Receives.read (fun _ => 0) 2000 (by decide) _ _ hr (by rw [hres]; decide) .done
  rw [hfetched, hres] at hlast
  rw [show r.hdlc.rxBytes 0 (2 : Int).toNat = [0x7E, 1] from hbytes] at hlast
  exact .read (fun _ => 0) 1000 (by decide) _ _ hfirst Int.one_pos hlast

theorem light_round_trip_two :
    [[0x55], [0x7E, 1]] <+: [[0x55], [(0x7E : Byte), 1]] ∧
      [0x7E, 0x55, 0x50, 0xF5, 0x7E, 0x7E, 0x7D, 0x5E, 0x01, 0x1A, 0x74, 0x7E] =
        [[0x55], [0x7E, 1]].flatMap (encodeFrame .crc16) :=
  light_round_trip exampleLight_reachable rfl exampleSends exampleRead_reachable rfl rfl
    exampleReceives (List.prefix_refl _) (by decide)

end TinyProto.Light
