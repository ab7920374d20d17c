import TinyProto.Hdlc.Progress

/-!
# The HDLC link layer

The sending half of `IHdlcLinkLayer` (`link/TinyHdlcLinkLayer.cpp`), for calls in any order.
Between two calls the memory may change.

`put` takes a frame with one call and reports it with a later one, when the queue is free and
the buffer is the one it remembers.  But a flush frees the queue as well, and the contents and
the size are not compared.  `put_true_iff` says when the report is right.
-/

namespace TinyProto.Link

open Hdlc

variable {π : Type}

/-! ## Calls -/

/-- The fields of `IHdlcLinkLayer` that sending uses, with the bits of `m_events`. -/
structure IHdlcLinkLayer (π : Type) where
  handle : HdlcLl π
  /-- `m_tempBuffer`, with `none` for `nullptr`. -/
  tempBuffer : Option π
  flushFlag : Bool
  /-- `TX_QUEUE_FREE`. -/
  queueFree : Bool
  /-- `TX_MESSAGE_SENDING`. -/
  messageSending : Bool

/-- What becomes of frames. -/
inductive Event (π : Type) where
  /-- `put` gave the frame to `hdlc_ll_put_frame`. -/
  | accepted (data : π) (payload : List Byte)
  /-- `getData` dropped the frame in progress. -/
  | flushed
  /-- `getData` returned these bytes, with this memory. -/
  | returned (mem : π → Nat → Byte) (bytes : List Byte)

/-- The bytes that `getData` returned. -/
def Event.bytes : Event π → List Byte
  | .returned _ bytes => bytes
  | _ => []

/-- The bytes of a buffer. -/
def contents (mem : π → Nat → Byte) (data : π) (size : Nat) : List Byte :=
  (List.range size).map (mem data)

/-- What a call leaves and returns. -/
structure Done (π α : Type) where
  layer : IHdlcLinkLayer π
  result : α
  events : List (Event π)

/-- `begin` of a new object, when it returns `true`. -/
def begin (sz : StructSizes) (init : HdlcLlInit) : Option (IHdlcLinkLayer π) :=
  match hdlcLlInit sz init with
  | .error _ => none
  | .ok (_, handle) =>
      some { handle := handle, tempBuffer := none, flushFlag := false, queueFree := true,
             messageSending := false }

/-- `hdlc_ll_put_frame` with any pointer. -/
def putFrame (handle : HdlcLl π) (buf : Option π) (size : Nat) : HdlcLl π × Status :=
  match buf with
  | none => (handle, if handle.tx.originData.isSome then .busy else .success)
  | some data => hdlcLlPutFrame handle data size

/-- The frame that was accepted, if there is one. -/
def acceptedFrame (mem : π → Nat → Byte) (buf : Option π) (size : Nat) : List (Event π) :=
  match buf with
  | none => []
  | some data => if size = 0 then [] else [.accepted data (contents mem data size)]

/-- `put`.  Without the bit it waits for, it returns with its timeout. -/
def put [DecidableEq π] (mem : π → Nat → Byte) (layer : IHdlcLinkLayer π) (buf : Option π)
    (size : Nat) : Done π Bool :=
  if layer.queueFree then
    let layer := { layer with queueFree := false, flushFlag := false }
    if layer.tempBuffer = buf then
      { layer := { layer with tempBuffer := none, queueFree := true }, result := true,
        events := [] }
    else
      let (handle, status) := putFrame layer.handle buf size
      if status = .success then
        { layer := { layer with handle := handle, tempBuffer := buf, messageSending := true }
          result := false
          events := acceptedFrame mem buf size }
      else
        { layer := { layer with handle := handle, queueFree := true }, result := false,
          events := [] }
  else { layer := layer, result := false, events := [] }

/-- `flushTx`. -/
def flushTx (layer : IHdlcLinkLayer π) : IHdlcLinkLayer π := { layer with flushFlag := true }

/-- `onSend`. -/
def onSend (layer : IHdlcLinkLayer π) : IHdlcLinkLayer π :=
  { layer with messageSending := false, queueFree := true }

/-- `getData`. -/
def getData (mem : π → Nat → Byte) (layer : IHdlcLinkLayer π) (size : Nat) :
    Done π (List Byte) :=
  if layer.messageSending then
    if layer.flushFlag then
      { layer := { layer with
          flushFlag := false
          handle := hdlcLlReset layer.handle .txOnly
          messageSending := false
          queueFree := true }
        result := []
        events := [.flushed] }
    else
      let (handle, bytes, sent) := hdlcLlRunTx mem layer.handle size
      { layer := sent.foldl (fun layer _ => onSend layer) { layer with handle := handle }
        result := bytes
        events := [.returned mem bytes] }
  else { layer := layer, result := [], events := [] }

/-- The objects a program can have, with what became of the frames, the newest event first. -/
inductive Reachable [DecidableEq π] : IHdlcLinkLayer π → List (Event π) → Prop where
  | begin {sz : StructSizes} {init : HdlcLlInit} {layer : IHdlcLinkLayer π}
      (hb : begin sz init = some layer) : Reachable layer []
  | put {layer : IHdlcLinkLayer π} {log : List (Event π)} (hr : Reachable layer log)
      (mem : π → Nat → Byte) (buf : Option π) (size : Nat) :
      Reachable (put mem layer buf size).layer ((put mem layer buf size).events ++ log)
  | flushTx {layer : IHdlcLinkLayer π} {log : List (Event π)} (hr : Reachable layer log) :
      Reachable (flushTx layer) log
  | getData {layer : IHdlcLinkLayer π} {log : List (Event π)} (hr : Reachable layer log)
      (mem : π → Nat → Byte) (size : Nat) :
      Reachable (getData mem layer size).layer ((getData mem layer size).events ++ log)

/-! ## The frame that was accepted last -/

/-- The last frame that was accepted, and what happened since. -/
inductive Latest : List (Event π) → π → List Byte → List (Event π) → Prop where
  | accepted (data : π) (payload : List Byte) (log : List (Event π)) :
      Latest (.accepted data payload :: log) data payload []
  | flushed {log since : List (Event π)} {data : π} {payload : List Byte}
      (hlast : Latest log data payload since) :
      Latest (.flushed :: log) data payload (.flushed :: since)
  | returned {log since : List (Event π)} {data : π} {payload : List Byte}
      (hlast : Latest log data payload since) (mem : π → Nat → Byte) (bytes : List Byte) :
      Latest (.returned mem bytes :: log) data payload (.returned mem bytes :: since)

/-- The bytes that `getData` returned, in order. -/
def sentBytes (since : List (Event π)) : List Byte := since.reverse.flatMap Event.bytes

/-- The last frame was this one, it was not flushed, and its whole encoding was returned. -/
def Transmitted (c : HdlcCrc) (log : List (Event π)) (buf : Option π) (payload : List Byte) :
    Prop :=
  ∃ data since, buf = some data ∧ Latest log data payload since ∧ .flushed ∉ since ∧
    sentBytes since = encodeFrame c payload

/-- The last frame was this one, and it was not flushed. -/
def Kept (log : List (Event π)) (buf : Option π) (payload : List Byte) : Prop :=
  ∃ data since, buf = some data ∧ Latest log data payload since ∧ .flushed ∉ since

/-- Whenever bytes were returned, the buffer held what was accepted. -/
def StillIn (data : π) (payload : List Byte) (since : List (Event π)) : Prop :=
  ∀ mem bytes, .returned mem bytes ∈ since → contents mem data payload.length = payload

/-- The buffer of the last frame was not changed while the frame was in progress. -/
def Still (log : List (Event π)) : Prop :=
  ∀ data payload since, Latest log data payload since → StillIn data payload since

/-- The last frame is out as a whole, or what is not out yet is pending. -/
def Progress (handle : HdlcLl π) (data : π) (payload : List Byte) (since : List (Event π)) :
    Prop :=
  handle.tx.originData = none ∧ sentBytes since = encodeFrame handle.crcType payload ∨
    handle.tx.originData = some data ∧ handle.tx.frameLen = payload.length ∧
      ∀ mem, contents mem data payload.length = payload → handle.TxOk mem ∧
        sentBytes since ++ handle.pending mem = encodeFrame handle.crcType payload

/-- What holds between two calls. -/
structure Sound (layer : IHdlcLinkLayer π) (log : List (Event π)) : Prop where
  stored : layer.handle.crcType.stored = layer.handle.crcType
  rested : layer.handle.tx.Rested
  free : layer.queueFree = true → layer.handle.tx.originData = none
  sending : layer.messageSending = !layer.queueFree
  progress : ∀ data payload since, Latest log data payload since → .flushed ∉ since →
    StillIn data payload since → Progress layer.handle data payload since

/-! ## Calls keep it -/

variable {layer : IHdlcLinkLayer π} {log : List (Event π)}

theorem sentBytes_cons (e : Event π) (since : List (Event π)) :
    sentBytes (e :: since) = sentBytes since ++ e.bytes := by
  unfold sentBytes
  rw [List.reverse_cons, List.flatMap_append, List.flatMap_cons, List.flatMap_nil,
    List.append_nil]

theorem contents_get {mem : π → Nat → Byte} {data : π} {payload : List Byte}
    (hc : contents mem data payload.length = payload) {i : Nat} (hi : i < payload.length) :
    payload[i]? = some (mem data i) := by
  rw [← hc, contents, List.getElem?_map, List.getElem?_range hi]
  rfl

/-- `hdlc_ll_run_tx` returns the next bytes of the frame. -/
theorem Progress.runTx {handle : HdlcLl π} (hstored : handle.crcType.stored = handle.crcType)
    (hrested : handle.tx.Rested) {data : π} {payload : List Byte} {since : List (Event π)}
    (hp : Progress handle data payload since) {mem : π → Nat → Byte}
    (hstill : contents mem data payload.length = payload) (size : Nat) :
    Progress (hdlcLlRunTx mem handle size).1 data payload
      (.returned mem (hdlcLlRunTx mem handle size).2.1 :: since) := by
  unfold Progress
  rw [sentBytes_cons]
  rcases hp with ⟨hidle, hsent⟩ | ⟨hod, hlen, hpend⟩
  · have hok : handle.TxOk mem := ⟨value_mod_of_stored hstored, .ofNone hidle (hrested hidle)⟩
    have hout := (runTx_pending hok size).1
    rw [show handle.pending mem = [] from hok.tx.pending_nil hidle, List.take_nil] at hout
    rcases (runTx_passed hrested mem size).2 with ⟨-, hsame⟩ | ⟨r, -, hr, -⟩
    · refine .inl ⟨hsame.trans hidle, ?_⟩
      rw [Event.bytes, hout, List.append_nil]
      exact hsent
    · cases hidle.symm.trans hr
  · obtain ⟨hok, hall⟩ := hpend mem hstill
    obtain ⟨hout, hrest, hok'⟩ := runTx_pending hok size
    rcases runTx_sent hok size with ⟨-, hsame, hframe, -⟩ | ⟨q, -, -, hnone, hle⟩
    · refine .inr ⟨hsame.trans hod, hframe.trans hlen, fun mem' hstill' => ?_⟩
      have hagree : ∀ p, (hdlcLlRunTx mem handle size).1.tx.originData = some p →
          ∀ i < (hdlcLlRunTx mem handle size).1.tx.frameLen, mem' p i = mem p i := by
        intro p hp i hi
        cases (hsame.trans hod).symm.trans hp
        rw [hframe, hlen] at hi
        exact Option.some.inj ((contents_get hstill' hi).symm.trans (contents_get hstill hi))
      obtain ⟨hok'', hpend'⟩ := hok'.tx.congr_frame hagree
      refine ⟨⟨hok'.crc, hok''⟩, ?_⟩
      rw [show (hdlcLlRunTx mem handle size).1.pending mem' =
        (hdlcLlRunTx mem handle size).1.pending mem from hpend', hrest, Event.bytes, hout,
        List.append_assoc, List.take_append_drop]
      exact hall
    · refine .inl ⟨hnone, ?_⟩
      rw [Event.bytes, hout, List.take_of_length_le hle]
      exact hall

theorem Sound.put [DecidableEq π] (hs : Sound layer log) (mem : π → Nat → Byte)
    (buf : Option π) (size : Nat) :
    Sound (put mem layer buf size).layer ((put mem layer buf size).events ++ log) := by
  unfold Link.put
  split
  · next hfree =>
    have hidle := hs.free hfree
    dsimp only
    split
    · refine ⟨hs.stored, hs.rested, fun _ => hidle, ?_, hs.progress⟩
      rw [hs.sending, hfree]
    · have hempty : ∀ handle, handle = layer.handle → Sound { layer with
          handle := handle, queueFree := false, flushFlag := false, tempBuffer := buf,
          messageSending := true } log := by
        rintro _ rfl
        exact ⟨hs.stored, hs.rested, fun hf => absurd hf Bool.false_ne_true, rfl, hs.progress⟩
      cases buf with
      | none =>
        have hput : putFrame layer.handle none size = (layer.handle, .success) := by
          unfold putFrame
          rw [hidle]
          rfl
        rw [hput]
        exact hempty _ rfl
      | some data =>
        unfold putFrame acceptedFrame
        dsimp only
        by_cases hzero : size = 0
        · have hput : hdlcLlPutFrame layer.handle data size = (layer.handle, .success) := by
            unfold hdlcLlPutFrame
            rw [hidle, hzero]
            rfl
          have hok : (hdlcLlPutFrame layer.handle data size).2 = .success := by rw [hput]
          rw [if_pos hok, if_pos hzero]
          exact hempty _ (by rw [hput])
        · have hpos := Nat.pos_of_ne_zero hzero
          have hok : (hdlcLlPutFrame layer.handle data size).2 = .success := by
            rw [putFrame_idle hidle data hpos]
          rw [if_pos hok, if_neg hzero]
          have hod : (hdlcLlPutFrame layer.handle data size).1.tx.originData = some data := by
            rw [putFrame_idle hidle data hpos]
          have hcrc : (hdlcLlPutFrame layer.handle data size).1.crcType = layer.handle.crcType := by
            rw [putFrame_idle hidle data hpos]
          refine ⟨hcrc ▸ hs.stored, .of_some hod, fun hf => absurd hf Bool.false_ne_true, rfl, ?_⟩
          intro data' payload since hlast _ _
          cases hlast
          have hlength : (contents mem data size).length = size := by
            rw [contents, List.length_map, List.length_range]
          refine .inr ⟨hod, ?_, fun mem' hstill => ?_⟩
          · rw [putFrame_idle hidle data hpos, hlength]
            unfold Tx.frameLen
            rw [hs.rested hidle]
            exact Nat.zero_add size
          · obtain ⟨hok, -, hpend⟩ := putFrame_pending hs.stored hs.rested hidle mem' data hpos
            refine ⟨hok, ?_⟩
            rw [hlength] at hstill
            rw [hpend, hcrc]
            exact congrArg (encodeFrame layer.handle.crcType) hstill
  · exact hs

theorem Sound.getData (hs : Sound layer log) (mem : π → Nat → Byte) (size : Nat) :
    Sound (getData mem layer size).layer ((getData mem layer size).events ++ log) := by
  unfold Link.getData
  split
  · next hsending =>
    split
    · refine ⟨hs.stored, fun _ => rfl, fun _ => rfl, rfl, fun data payload since hlast hno => ?_⟩
      cases hlast with
      | flushed => exact absurd (List.mem_cons_self ..) hno
    · obtain ⟨hrested, hpassed⟩ := runTx_passed hs.rested mem size
      have hprogress : ∀ data payload since,
          Latest (.returned mem (hdlcLlRunTx mem layer.handle size).2.1 :: log) data payload since →
            .flushed ∉ since → StillIn data payload since →
              Progress (hdlcLlRunTx mem layer.handle size).1 data payload since := by
        intro data payload since hlast hno hstill
        cases hlast with
        | returned hlast =>
          have hp := hs.progress data payload _ hlast (fun hm => hno (List.mem_cons_of_mem _ hm))
            fun mem bytes hm => hstill mem bytes (List.mem_cons_of_mem _ hm)
          exact hp.runTx hs.stored hs.rested (hstill _ _ (List.mem_cons_self ..)) size
      have hfull : layer.queueFree = false := by
        have := hs.sending
        rw [hsending] at this
        cases hq : layer.queueFree with
        | false => rfl
        | true =>
          rw [hq] at this
          cases this
      dsimp only
      rcases hpassed with ⟨hnone, -⟩ | ⟨r, hone, -, hidle⟩
      · rw [hnone]
        refine ⟨hs.stored, hrested, fun hf => ?_, hs.sending, hprogress⟩
        cases hfull.symm.trans hf
      · rw [hone]
        exact ⟨hs.stored, hrested, fun _ => hidle, rfl, hprogress⟩
  · exact hs

theorem Reachable.sound [DecidableEq π] (hr : Reachable layer log) : Sound layer log := by
  induction hr with
  | begin hb =>
    unfold Link.begin at hb
    split at hb
    · cases hb
    · next handle hi =>
      obtain ⟨-, htx, hc⟩ := hdlcLlInit_ok hi
      cases hb
      refine ⟨by rw [hc, stored_stored], fun _ => by rw [htx]; rfl, fun _ => by rw [htx]; rfl, rfl,
        fun data payload since hlast => ?_⟩
      cases hlast
  | put _ mem buf size ih => exact ih.put mem buf size
  | flushTx _ ih => exact ⟨ih.stored, ih.rested, ih.free, ih.sending, ih.progress⟩
  | getData _ mem size ih => exact ih.getData mem size

/-! ## What `put` reports -/

/-- `put` returns `true` only when the queue is free. -/
theorem put_true_free [DecidableEq π] {mem : π → Nat → Byte} {buf : Option π} {size : Nat}
    (hret : (put mem layer buf size).result = true) : layer.queueFree = true := by
  unfold put at hret
  split at hret
  · assumption
  · cases hret

/-- The payload that a call of `put` names. -/
def named (mem : π → Nat → Byte) (buf : Option π) (size : Nat) : List Byte :=
  buf.elim [] fun data => contents mem data size

/-- When `put` returns `true` and the buffer of the last frame was left alone, the whole encoding
of the buffer has been returned if and only if it is that frame and no flush dropped it. -/
theorem put_true_iff [DecidableEq π] (hr : Reachable layer log) (hstill : Still log)
    (mem : π → Nat → Byte) (buf : Option π) (size : Nat)
    (hret : (put mem layer buf size).result = true) :
    Transmitted layer.handle.crcType log buf (named mem buf size) ↔
      Kept log buf (named mem buf size) := by
  have hs := hr.sound
  have hidle := hs.free (put_true_free hret)
  constructor
  · rintro ⟨data, since, hbuf, hlast, hno, -⟩
    exact ⟨data, since, hbuf, hlast, hno⟩
  · rintro ⟨data, since, hbuf, hlast, hno⟩
    refine ⟨data, since, hbuf, hlast, hno, ?_⟩
    rcases hs.progress data _ since hlast hno (hstill data _ since hlast) with
      ⟨-, hsent⟩ | ⟨hod, -⟩
    · exact hsent
    · cases hidle.symm.trans hod

/-- An object that has just begun. -/
def exampleLayer : IHdlcLinkLayer (List Byte) :=
  { handle := exampleHandle, tempBuffer := none, flushFlag := false, queueFree := true,
    messageSending := false }

theorem exampleLayer_reachable : Reachable exampleLayer [] :=
  @Reachable.begin _ _ .linux64 { buf := 4096, bufSize := 160, crcType := .crc16, mtu := 8 } _ rfl

/-- A frame that was accepted and returned as a whole. -/
theorem put_true_sent :
    ∃ (layer : IHdlcLinkLayer (List Byte)) (log : List (Event (List Byte))),
      (put bufferMem layer (some [0x55]) 1).result = true ∧
        Transmitted layer.handle.crcType log (some [0x55]) [0x55] := by
  have hr : Reachable _ [.returned bufferMem [0x7E, 0x55, 0x50, 0xF5, 0x7E],
      .accepted [0x55] [0x55]] :=
    .getData (.put exampleLayer_reachable bufferMem (some [0x55]) 1) bufferMem 16
  refine ⟨_, _, rfl, (put_true_iff hr ?_ bufferMem (some [0x55]) 1 rfl).mpr ?_⟩
  · intro data payload since hlast mem bytes hm
    cases hlast with
    | returned hlast =>
      cases hlast with
      | accepted =>
        cases List.mem_singleton.mp hm
        rfl
  · exact ⟨[0x55], _, rfl, .returned (.accepted _ _ _) _ _, by simp⟩

/-- A frame is accepted and flushed before a byte of it is returned, and the next `put` of its
buffer reports that it was sent. -/
theorem put_true_flushed :
    ∃ (layer : IHdlcLinkLayer (List Byte)) (log : List (Event (List Byte))),
      Reachable layer log ∧ (put bufferMem layer (some [0x55]) 1).result = true ∧
        sentBytes log = [] ∧
        ¬Transmitted layer.handle.crcType log (some [0x55]) (named bufferMem (some [0x55]) 1) := by
  have hr : Reachable (getData bufferMem (flushTx
      (put bufferMem exampleLayer (some [0x55]) 1).layer) 16).layer
        [.flushed, .accepted [0x55] [0x55]] :=
    .getData (.flushTx (.put exampleLayer_reachable bufferMem (some [0x55]) 1)) bufferMem 16
  refine ⟨_, _, hr, rfl, rfl, ?_⟩
  rintro ⟨data, since, -, hlast, hno, -⟩
  cases hlast with
  | flushed => exact hno (List.mem_cons_self ..)

end TinyProto.Link
