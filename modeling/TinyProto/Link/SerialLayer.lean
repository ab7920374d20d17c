import TinyProto.Link.HdlcLayer

/-!
# The serial link layer

`ISerialLinkLayer` (`link/TinySerialLinkLayer.h`) over `IHdlcLinkLayer`: `runTx` writes the next
block of a frame to the serial port, and `runRx` gives what it reads from the port to the HDLC
receiver.  When the port takes nothing any more, `runTx` drops what is left of its block.

A frame is under way from the `put` that takes it to the `put` that reports it (`Underway.put_free`).
In between any bytes may be read, and `getData` returns the frame block by block (`Underway.block`).
When the layer is free again, all of it was returned (`Underway.complete`).
-/

namespace TinyProto.Link

open Hdlc

variable {π : Type}

/-! ## Calls -/

/-- The loop of `runTx`, with what the calls of `Serial::write` return: the bytes that were written.
After the last call the port takes nothing. -/
def writeLoop (bytes : List Byte) : List Int → List Byte
  | [] => []
  | sent :: answers =>
      if bytes = [] ∨ sent ≤ 0 then []
      else bytes.take sent.toNat ++ writeLoop (bytes.drop sent.toNat) answers

/-- What a call of `runTx` leaves, and the bytes it got from `getData` and wrote. -/
structure TxDone (π : Type) where
  layer : IHdlcLinkLayer π
  block : List Byte
  written : List Byte

/-- `runTx` with blocks of `bsize` bytes. -/
def runTx (mem : π → Nat → Byte) (layer : IHdlcLinkLayer π) (bsize : Nat) (answers : List Int) :
    TxDone π :=
  let done := getData mem layer bsize
  { layer := done.layer, block := done.result, written := writeLoop done.result answers }

/-- The payloads among what a receiver reports. -/
def payloadsIn (events : List RxEvent) : List (List Byte) :=
  events.filterMap fun event =>
    match event with
    | .frame payload => some payload
    | .error _ => none

/-- `runRx` with the bytes that `readBytes` returned: the layer, and what `onRead` was called
with. -/
def runRx (layer : IHdlcLinkLayer π) (data : List Byte) : IHdlcLinkLayer π × List (List Byte) :=
  let (handle, events) := onRxData layer.handle data
  ({ layer with handle := handle }, payloadsIn events)

/-! ## Frames under way -/

variable {mem : π → Nat → Byte} {layer : IHdlcLinkLayer π} {log since : List (Event π)} {data : π}
  {payload written : List Byte}

/-- No frame was taken, and none waits for its report. -/
structure Idle (layer : IHdlcLinkLayer π) : Prop where
  sound : Sound layer []
  free : layer.queueFree = true
  temp : layer.tempBuffer = none

/-- A frame was taken and is not flushed, and these bytes of it were returned. -/
structure Underway (mem : π → Nat → Byte) (data : π) (payload : List Byte)
    (layer : IHdlcLinkLayer π) (out : List Byte) : Prop where
  temp : layer.tempBuffer = some data
  flush : layer.flushFlag = false
  busy : layer.queueFree = false → layer.handle.tx.originData ≠ none
  progress : ∃ log since, Sound layer log ∧ Latest log data payload since ∧ .flushed ∉ since ∧
    StillIn data payload since ∧ sentBytes since = out

/-- An empty frame was taken.  It is never reported. -/
structure Stuck (layer : IHdlcLinkLayer π) : Prop where
  sound : Sound layer []
  flush : layer.flushFlag = false
  full : layer.queueFree = false
  idle : layer.handle.tx.originData = none

theorem Sound.restart (hs : Sound layer log) : Sound layer [] :=
  ⟨hs.stored, hs.rested, hs.free, hs.sending, fun _ _ _ hlast => nomatch hlast⟩

/-- A new object is idle, and so is its receiver. -/
theorem begin_idle {sz : StructSizes} {init : HdlcLlInit} (hb : begin sz init = some layer) :
    Idle layer ∧ layer.handle.RxIdle layer.handle.crcType layer.handle.physMtu ∧
      layer.handle.view = .start := by
  unfold Link.begin at hb
  split at hb
  · cases hb
  · next handle hi =>
    obtain ⟨hrx, htx, hc⟩ := hdlcLlInit_ok hi
    cases hb
    refine ⟨⟨⟨by rw [hc, stored_stored], fun _ => by rw [htx]; rfl, fun _ => by rw [htx]; rfl, rfl,
      fun _ _ _ hlast => nomatch hlast⟩, rfl, rfl⟩, ?_, ?_⟩
    · exact ⟨⟨rfl, rfl, fun hs => absurd (by rw [hrx]; rfl) hs⟩, by rw [hrx]; nofun⟩
    · exact view_readStart (by rw [hrx]; rfl)

/-- Receiving changes only the receiver. -/
theorem runRx_rxOnly (layer : IHdlcLinkLayer π) (data : List Byte) :
    ∃ rx buf, (runRx layer data).1 =
      { layer with handle := { layer.handle with rx := rx, rxBuf := buf } } := by
  obtain ⟨rx, buf, hrx⟩ := onRxData_rxOnly layer.handle data
  exact ⟨rx, buf, congrArg (fun handle => { layer with handle := handle }) hrx⟩

theorem Sound.runRx (hs : Sound layer log) (data : List Byte) : Sound (runRx layer data).1 log := by
  obtain ⟨rx, buf, hrx⟩ := runRx_rxOnly layer data
  rw [hrx]
  refine ⟨hs.stored, hs.rested, hs.free, hs.sending, fun data payload since hlast hno hstill => ?_⟩
  rcases hs.progress data payload since hlast hno hstill with hdone | ⟨hod, hlen, hpend⟩
  · exact .inl hdone
  · exact .inr ⟨hod, hlen, fun mem hc => ⟨⟨(hpend mem hc).1.crc, (hpend mem hc).1.tx⟩,
      (hpend mem hc).2⟩⟩

theorem Idle.runRx (hi : Idle layer) (data : List Byte) : Idle (runRx layer data).1 := by
  have hs := hi.sound.runRx data
  obtain ⟨rx, buf, hrx⟩ := runRx_rxOnly layer data
  rw [hrx] at hs ⊢
  exact ⟨hs, hi.free, hi.temp⟩

theorem Underway.runRx {out : List Byte} (hu : Underway mem data payload layer out)
    (bytes : List Byte) : Underway mem data payload (runRx layer bytes).1 out := by
  obtain ⟨log, since, hs, hrest⟩ := hu.progress
  have hs' := hs.runRx bytes
  obtain ⟨rx, buf, hrx⟩ := runRx_rxOnly layer bytes
  rw [hrx] at hs' ⊢
  exact ⟨hu.temp, hu.flush, hu.busy, log, since, hs', hrest⟩

theorem Stuck.runRx (hk : Stuck layer) (data : List Byte) : Stuck (runRx layer data).1 := by
  have hs := hk.sound.runRx data
  obtain ⟨rx, buf, hrx⟩ := runRx_rxOnly layer data
  rw [hrx] at hs ⊢
  exact ⟨hs, hk.flush, hk.full, hk.idle⟩

/-- A free layer has nothing to transmit. -/
theorem getData_free (hs : Sound layer log) (hfree : layer.queueFree = true)
    (mem : π → Nat → Byte) (size : Nat) :
    getData mem layer size = { layer := layer, result := [], events := [] } := by
  have hsending : layer.messageSending = false := by rw [hs.sending, hfree]; rfl
  unfold getData
  rw [hsending]
  rfl

/-- Without a flush, `getData` of a full layer is `hdlc_ll_run_tx`. -/
theorem getData_full (hs : Sound layer log) (hfull : layer.queueFree = false)
    (hflush : layer.flushFlag = false) (mem : π → Nat → Byte) (size : Nat) :
    getData mem layer size =
      { layer := (hdlcLlRunTx mem layer.handle size).2.2.foldl (fun layer _ => onSend layer)
          { layer with handle := (hdlcLlRunTx mem layer.handle size).1 }
        result := (hdlcLlRunTx mem layer.handle size).2.1
        events := [.returned mem (hdlcLlRunTx mem layer.handle size).2.1] } := by
  have hsending : layer.messageSending = true := by rw [hs.sending, hfull]; rfl
  unfold getData
  rw [hsending, hflush]
  rfl

/-- Reports to `onSend` free the layer and nothing else. -/
theorem onSends_fields (sent : List (π × Nat)) (layer : IHdlcLinkLayer π) :
    (sent.foldl (fun layer _ => onSend layer) layer).tempBuffer = layer.tempBuffer ∧
      (sent.foldl (fun layer _ => onSend layer) layer).flushFlag = layer.flushFlag ∧
      (sent.foldl (fun layer _ => onSend layer) layer).handle = layer.handle := by
  induction sent generalizing layer with
  | nil => exact ⟨rfl, rfl, rfl⟩
  | cons r sent ih => exact ih (onSend layer)

theorem getData_fields (hs : Sound layer log) (hflush : layer.flushFlag = false)
    (mem : π → Nat → Byte) (size : Nat) :
    (getData mem layer size).layer.tempBuffer = layer.tempBuffer ∧
      (getData mem layer size).layer.flushFlag = false := by
  cases hq : layer.queueFree with
  | true =>
    rw [getData_free hs hq]
    exact ⟨rfl, hflush⟩
  | false =>
    rw [getData_full hs hq hflush]
    obtain ⟨htemp, hfl, -⟩ := onSends_fields (hdlcLlRunTx mem layer.handle size).2.2
      { layer with handle := (hdlcLlRunTx mem layer.handle size).1 }
    exact ⟨htemp, hfl.trans hflush⟩

/-- The frame gets the next block. -/
theorem Underway.getData {out : List Byte} (hu : Underway mem data payload layer out)
    (hc : contents mem data payload.length = payload) (size : Nat) :
    Underway mem data payload (getData mem layer size).layer
      (out ++ (getData mem layer size).result) := by
  obtain ⟨log, since, hs, hlast, hno, hstill, hout⟩ := hu.progress
  obtain ⟨htemp, hflush⟩ := getData_fields hs hu.flush mem size
  cases hq : layer.queueFree with
  | true =>
    rw [getData_free hs hq]
    exact ⟨hu.temp, hu.flush, hu.busy, log, since, hs, hlast, hno, hstill, by
      rw [List.append_nil]
      exact hout⟩
  | false =>
    have hs' := hs.getData mem size
    rw [getData_full hs hq hu.flush] at hs' htemp hflush ⊢
    refine ⟨htemp.trans hu.temp, hflush, fun hfull => ?_, _, _, hs', .returned hlast mem _, ?_, ?_,
      ?_⟩
    · rcases (runTx_passed hs.rested mem size).2 with ⟨hnone, hsame⟩ | ⟨r, hone, -⟩
      · rw [hnone]
        rw [List.foldl_nil]
        exact fun hod => hu.busy hq (hsame.symm.trans hod)
      · rw [hone] at hfull
        cases hfull
    · exact fun hm => hno ((List.mem_cons.mp hm).resolve_left nofun)
    · intro mem' bytes hm
      rcases List.mem_cons.mp hm with heq | hm
      · cases heq
        exact hc
      · exact hstill mem' bytes hm
    · rw [sentBytes_cons, hout]
      rfl

theorem Stuck.getData (hk : Stuck layer) (mem : π → Nat → Byte) (size : Nat) :
    Stuck (getData mem layer size).layer ∧ (getData mem layer size).result = [] := by
  have hs' := (hk.sound.getData mem size).restart
  obtain ⟨-, hflush⟩ := getData_fields hk.sound hk.flush mem size
  have hok : layer.handle.TxOk mem :=
    ⟨value_mod_of_stored hk.sound.stored, .ofNone hk.idle (hk.sound.rested hk.idle)⟩
  have hout := (runTx_pending hok size).1
  rw [show layer.handle.pending mem = [] from hok.tx.pending_nil hk.idle, List.take_nil] at hout
  rw [getData_full hk.sound hk.full hk.flush] at hs' hflush ⊢
  rcases (runTx_passed hk.sound.rested mem size).2 with ⟨hnone, hsame⟩ | ⟨r, -, hr, -⟩
  · rw [hnone] at hs' hflush ⊢
    exact ⟨⟨hs', hflush, hk.full, hsame.trans hk.idle⟩, hout⟩
  · cases hk.idle.symm.trans hr

/-- A free layer has returned the whole frame. -/
theorem Underway.complete {out : List Byte} (hu : Underway mem data payload layer out)
    (hfree : layer.queueFree = true) : out = encodeFrame layer.handle.crcType payload := by
  obtain ⟨log, since, hs, hlast, hno, hstill, rfl⟩ := hu.progress
  rcases hs.progress data payload since hlast hno hstill with ⟨-, hsent⟩ | ⟨hod, -⟩
  · exact hsent
  · cases (hs.free hfree).symm.trans hod

/-- A full layer has not, and it returns the next bytes, as many as the block takes. -/
theorem Underway.block {out : List Byte} (hu : Underway mem data payload layer out)
    (hc : contents mem data payload.length = payload) (hfull : layer.queueFree = false)
    (size : Nat) :
    ∃ rest, rest ≠ [] ∧ out ++ rest = encodeFrame layer.handle.crcType payload ∧
      (Link.getData mem layer size).result = rest.take size := by
  obtain ⟨log, since, hs, hlast, hno, hstill, rfl⟩ := hu.progress
  rcases hs.progress data payload since hlast hno hstill with ⟨hnone, -⟩ | ⟨-, -, hpend⟩
  · exact absurd hnone (hu.busy hfull)
  · obtain ⟨hok, hall⟩ := hpend mem hc
    rw [getData_full hs hfull hu.flush]
    exact ⟨layer.handle.pending mem, Tx.pending_ne_nil _ mem (hu.busy hfull), hall,
      (runTx_pending hok size).1⟩

theorem Underway.length_lt {out : List Byte} (hu : Underway mem data payload layer out)
    (hc : contents mem data payload.length = payload) (hfull : layer.queueFree = false) :
    out.length < (encodeFrame layer.handle.crcType payload).length := by
  obtain ⟨rest, hne, hrest, -⟩ := hu.block hc hfull 0
  have hpos := List.length_pos_iff.mpr hne
  rw [← hrest, List.length_append]
  omega

/-- The receiver is left alone by the calls that transmit. -/
theorem getData_listens (mem : π → Nat → Byte) (layer : IHdlcLinkLayer π) (size : Nat) :
    ∃ tx, (getData mem layer size).layer.handle = layer.handle.withTx tx := by
  unfold Link.getData
  split
  · split
    · exact ⟨layer.handle.tx.reset, rfl⟩
    · refine ⟨(hdlcLlRunTx mem layer.handle size).1.tx, ?_⟩
      exact (onSends_fields ..).2.2
  · exact ⟨layer.handle.tx, rfl⟩

/-! ## Taking and reporting a frame -/

variable [DecidableEq π] {out : List Byte}

theorem put_listens (mem : π → Nat → Byte) (layer : IHdlcLinkLayer π) (buf : Option π)
    (size : Nat) : ∃ tx, (put mem layer buf size).layer.handle = layer.handle.withTx tx := by
  have hframe : ∃ tx, (putFrame layer.handle buf size).1 = layer.handle.withTx tx := by
    unfold putFrame
    split
    · exact ⟨layer.handle.tx, rfl⟩
    · unfold hdlcLlPutFrame
      split
      · exact ⟨layer.handle.tx, rfl⟩
      · split
        · exact ⟨layer.handle.tx, rfl⟩
        · exact ⟨_, rfl⟩
  unfold Link.put
  split
  · dsimp only
    split
    · exact ⟨layer.handle.tx, rfl⟩
    · split
      · exact hframe
      · exact hframe
  · exact ⟨layer.handle.tx, rfl⟩

/-- A frame that is not empty is taken. -/
theorem Idle.put (hi : Idle layer) (mem : π → Nat → Byte) (data : π) {size : Nat}
    (hpos : 0 < size) :
    (Link.put mem layer (some data) size).result = false ∧
      (Link.put mem layer (some data) size).layer.queueFree = false ∧
      Underway mem data (contents mem data size) (Link.put mem layer (some data) size).layer [] := by
  have hs := hi.sound.put mem (some data) size
  have hidle := hi.sound.free hi.free
  have hput : Link.put mem layer (some data) size =
      { layer := { layer with
          handle := (hdlcLlPutFrame layer.handle data size).1, tempBuffer := some data
          flushFlag := false, queueFree := false, messageSending := true }
        result := false
        events := [.accepted data (contents mem data size)] } := by
    have hne : layer.tempBuffer ≠ some data := by rw [hi.temp]; nofun
    have hok : (hdlcLlPutFrame layer.handle data size).2 = .success := by
      rw [putFrame_idle hidle data hpos]
    unfold Link.put putFrame acceptedFrame
    simp only [hi.free, if_true, if_neg hne, if_pos hok, if_neg (Nat.pos_iff_ne_zero.mp hpos)]
  have hod : (hdlcLlPutFrame layer.handle data size).1.tx.originData ≠ none := by
    rw [putFrame_idle hidle data hpos]
    nofun
  rw [hput] at hs ⊢
  refine ⟨rfl, rfl, rfl, rfl, fun _ => hod, _, [], hs, .accepted .., List.not_mem_nil, ?_, rfl⟩
  exact fun mem bytes hm => absurd hm List.not_mem_nil

/-- So is an empty one. -/
theorem Idle.put_empty (hi : Idle layer) (mem : π → Nat → Byte) (data : π) :
    (Link.put mem layer (some data) 0).result = false ∧
      Stuck (Link.put mem layer (some data) 0).layer := by
  have hs := (hi.sound.put mem (some data) 0).restart
  have hidle := hi.sound.free hi.free
  have hput : Link.put mem layer (some data) 0 =
      { layer := { layer with
          tempBuffer := some data, flushFlag := false, queueFree := false, messageSending := true }
        result := false
        events := [] } := by
    have hne : layer.tempBuffer ≠ some data := by rw [hi.temp]; nofun
    have hframe : hdlcLlPutFrame layer.handle data 0 = (layer.handle, .success) := by
      unfold hdlcLlPutFrame
      rw [hidle]
      rfl
    unfold Link.put putFrame acceptedFrame
    simp only [hi.free, if_true, if_neg hne, hframe]
  rw [hput] at hs ⊢
  exact ⟨rfl, hs, rfl, rfl, hidle⟩

/-- A full layer takes nothing. -/
theorem put_full (hfull : layer.queueFree = false) (mem : π → Nat → Byte) (buf : Option π)
    (size : Nat) :
    Link.put mem layer buf size = { layer := layer, result := false, events := [] } := by
  unfold Link.put
  rw [hfull]
  rfl

/-- The frame is reported when the layer is free. -/
theorem Underway.put_free (hu : Underway mem data payload layer out)
    (hfree : layer.queueFree = true) (mem' : π → Nat → Byte) (size : Nat) :
    (Link.put mem' layer (some data) size).result = true ∧
      Idle (Link.put mem' layer (some data) size).layer := by
  obtain ⟨log, since, hs, -⟩ := hu.progress
  have hs' := (hs.put mem' (some data) size).restart
  have hput : Link.put mem' layer (some data) size =
      { layer := { layer with tempBuffer := none, queueFree := true, flushFlag := false }
        result := true, events := [] } := by
    unfold Link.put
    simp only [hfree, if_true, if_pos hu.temp]
  rw [hput] at hs' ⊢
  exact ⟨rfl, hs', rfl, rfl⟩

end TinyProto.Link
