import TinyProto.Fd.Receive

/-!
# Outgoing frames

The sending half of `tiny_fd.c`: which frame is next, the timeouts that are checked
before it is chosen, and `tiny_fd_get_tx_data`, which drives the low level.
-/

namespace TinyProto.Fd

open Hdlc

variable {W N : Nat} [NeZero W] [NeZero N]

/-! ## The end of a frame -/

/-- `tiny_fd_queue_free_by_header` on the service queue. -/
def freeService (h : Handle W N) : SlotRef W → Handle W N
  | .sSlot i => { h with sQueue := h.sQueue.freeByHeader i }
  | .iSlot _ => h

/-- The marker goes with a frame that has P/F set. -/
def releaseMarker (h : Handle W N) (control : Byte) : Handle W N :=
  if h.settings.mode = .nrm ∧ control &&& pBit ≠ 0 then
    let h := if h.isPrimaryStation then switchToNextPeer h else h
    h.setEvents fun e => { e with hasMarker := false }
  else h

/-- `on_frame_send`. -/
def onFrameSend (h : Handle W N) (r : SlotRef W) : Handle W N :=
  let control := (h.slot r).control
  match addressFieldToPeer h (h.slot r).address with
  | none => h
  | some _ =>
      let h := if isIFrame control then h else freeService h r
      (releaseMarker h control).setEvents fun e => { e with txSending := false }

/-! ## The next frame -/

/-- `tiny_fd_get_next_s_u_frame_to_send`. -/
def getNextSUFrame (h : Handle W N) (p : Fin N) : Handle W N × Option (Fin 4) :=
  match h.sQueue.getNext [.sFrame, .uFrame] (peerToAddressField h p) 0 with
  | none => (h, none)
  | some i =>
      let control := (h.sQueue.frames i).control
      (if isSFrame control then h.setPeer p fun x => { x with sentNr := nrOf control } else h,
        some i)

/-- An I-frame leaves with the current N(R). -/
def refreshIFrame (h : Handle W N) (p : Fin N) (i : Fin W) : Handle W N :=
  let nr := (h.control p).nextNr
  let h := h.setSlot (.iSlot i) fun s => { s with control := s.control &&& 0x0F ||| nr.setWidth 8 <<< 5 }
  h.setPeer p fun x => { x with sentNr := nr, lastSentITs := h.millis }

/-- The first frame number in `srej_req_mask`. -/
def firstRequested (mask : BitVec 8) : Option (Fin 8) :=
  (List.finRange 8).find? fun i => mask.getLsbD i

/-- `tiny_fd_get_next_i_frame`. -/
def getNextIFrame (h : Handle W N) (p : Fin N) : Handle W N × Option (Fin W) :=
  let address := peerToAddressField h p
  if (h.peers p).state = .disconnected ∨ (h.peers p).state = .connecting then (h, none)
  else
    match firstRequested (h.peers p).srejReqMask with
    | some ns =>
        let found := h.iQueue.getNext [.iFrame] address (BitVec.ofFin ns)
        let h := h.setPeer p fun x =>
          { x with srejReqMask := x.srejReqMask &&& ~~~(1#8 <<< ns.val) }
        match found with
        | some i => (refreshIFrame h p i, some i)
        | none => (h, none)
    | none =>
        match h.iQueue.getNext [.iFrame] address (h.control p).nextNs with
        | some i =>
            ((refreshIFrame h p i).setControl p fun c => { c with nextNs := c.nextNs + 1 }, some i)
        | none => (h, none)

/-- An S- or U-frame, else an I-frame. -/
def pickFrame (h : Handle W N) (p : Fin N) : Handle W N × Option (SlotRef W) :=
  match getNextSUFrame h p with
  | (h, some i) => (h, some (.sSlot i))
  | (h, none) =>
      let (h, found) := getNextIFrame h p
      (h, found.map SlotRef.iSlot)

/-- The frame that only passes the marker, in NRM with nothing else to send.  The
SNRM goes into the queue as an S-frame. -/
def putIdleFrame (h : Handle W N) (p : Fin N) : Handle W N :=
  if h.isPrimaryStation ∧ ((h.peers p).state = .disconnected ∨ (h.peers p).state = .connecting) then
    putUSFrame h .sFrame (peerToAddressField h p ||| crBit) (uControl .snrm) []
  else putSFrame h p 0 .rr 0

/-- Whether the chosen frame gets P/F.  In NRM an I-frame gets it only if it is the
last one, in the other modes only U-frames get it. -/
def getsPoll (h : Handle W N) (p : Fin N) (control : Byte) : Bool :=
  if h.settings.mode = .nrm then !isIFrame control || (h.control p).allFramesAreSent
  else isUFrame control

/-- What is noted about the chosen frame. -/
def finishFrame (h : Handle W N) (p : Fin N) (r : SlotRef W) : Handle W N :=
  let h :=
    if getsPoll h p (h.slot r).control then
      h.setSlot r fun s => { s with control := s.control ||| pBit }
    else h
  let h := { h with lastMarkerTs := h.millis }
  let h := h.setPeer p fun x => { x with lastSentFrameTs := h.millis }
  h.emit (.frameOut p (h.slot r).bytes)

/-- The choice in `tiny_fd_get_next_frame_to_send`. -/
def chooseFrame (h : Handle W N) (p : Fin N) : Handle W N × Option (SlotRef W) :=
  match pickFrame h p with
  | (h, some r) => (h, some r)
  | (h, none) =>
      if h.settings.mode = .nrm then
        let (h, found) := getNextSUFrame (putIdleFrame h p) p
        (h, found.map SlotRef.sSlot)
      else (h, none)

/-- `tiny_fd_get_next_frame_to_send`. -/
def getNextFrameToSend (h : Handle W N) (p : Fin N) : Handle W N × Option (SlotRef W) :=
  match chooseFrame h p with
  | (h, some r) => (finishFrame h p r, some r)
  | (h, none) => (h, none)

/-! ## Timeouts -/

/-- `tiny_fd_connected_check_idle_timeout`. -/
def connectedCheckIdleTimeout (h : Handle W N) (p : Fin N) : Handle W N :=
  let x := h.peers p
  let c := h.control p
  if c.hasUnconfirmedFrames ∧ c.allFramesAreSent ∧ h.elapsed x.lastSentITs ≥ h.settings.retryTimeout
  then
    if x.retries > 0 then
      resendAllUnconfirmedFrames (h.setPeer p fun x => { x with retries := x.retries - 1 }) p 0
        c.confirmNs
    else switchToDisconnectedState h p
  else if h.elapsed x.lastReceivedFrameTs ≥ h.kaTimeout * 2 then
    if !x.kaConfirmed then switchToDisconnectedState h p else h
  else if h.elapsed x.lastSentFrameTs ≥ h.kaTimeout then
    let h := putSFrame (h.setPeer p fun x => { x with kaConfirmed := false }) p 0 .rr pBit
    h.setPeer p fun x => { x with lastSentFrameTs := h.millis }
  else h

/-- `tiny_fd_disconnected_check_idle_timeout`. -/
def disconnectedCheckIdleTimeout (h : Handle W N) (p : Fin N) : Handle W N :=
  if h.elapsed (h.peers p).lastReceivedFrameTs ≥ h.settings.retryTimeout ∧ h.isPrimaryStation then
    let h := putUFrame h p crBit (connectType h)
    h.setPeer p fun x => { x with state := .connecting, lastReceivedFrameTs := h.millis }
  else h

/-- The timeout check of `tiny_fd_get_tx_data`. -/
def checkIdleTimeout (h : Handle W N) (p : Fin N) : Handle W N :=
  if (h.peers p).state = .connected ∨ (h.peers p).state = .disconnecting then
    connectedCheckIdleTimeout h p
  else disconnectedCheckIdleTimeout h p

/-! ## Transmission -/

/-- `hdlc_ll_run_tx` with `on_frame_send` behind it: the bytes written and the frames
that were completed. -/
def runTx (h : Handle W N) (len : Nat) : Handle W N × List Byte × List (List Byte) :=
  let (hdlc, data, done) := hdlcLlRunTx h.mem h.hdlc len
  (done.foldl (fun h r => onFrameSend h r.1) { h with hdlc := hdlc }, data,
    done.map fun r => (List.range r.2).map (h.mem r.1))

/-- The next frame is handed to the low level. -/
def startFrame (h : Handle W N) (r : SlotRef W) : Handle W N :=
  let h := h.setEvents fun e => { e with txDataAvailable := true, txSending := true }
  { h with hdlc := (hdlcLlPutFrame h.hdlc r (h.slot r).bytes.length).1 }

/-- How a turn of the loop in `tiny_fd_get_tx_data` ends when no frame is being sent. -/
inductive Turn (W N : Nat) where
  /-- `break`. -/
  | stop (h : Handle W N)
  /-- A frame was chosen, `continue`. -/
  | chosen (h : Handle W N)
  /-- The end of the body with nothing generated. -/
  | nothing (h : Handle W N)

/-- The part of the loop behind the wait point. -/
def tryToSend (h : Handle W N) (p : Fin N) : Turn W N :=
  if h.events.hasMarker then
    if h.events.txDataAvailable ∨ h.settings.mode = .nrm then
      let h := h.setEvents fun e => { e with txDataAvailable := false }
      match getNextFrameToSend h p with
      | (h, some r) => .chosen (startFrame h r)
      | (h, none) =>
          if h.settings.mode = .abm ∨ h.isSecondaryStation then .stop h else .nothing h
    else if h.settings.mode = .abm ∨ h.isSecondaryStation then .stop h
    else .nothing h
  else if h.isPrimaryStation then
    if h.elapsed h.lastMarkerTs ≥ h.settings.retryTimeout then
      .nothing ((h.setEvents fun e => { e with hasMarker := true }).emit .returnMarker)
    else .stop h
  else .nothing h

/-- What a `tiny_fd_get_tx_data` call leaves and reports. -/
structure TxData (W N : Nat) where
  h : Handle W N
  /-- The bytes written, or the error. -/
  result : Except Status (List Byte)
  /-- The frames that were completed. -/
  sent : List (List Byte)

/-- The loop of `tiny_fd_get_tx_data`.  `again` is the source's `repeat`, `data` what was
written so far. -/
def getTxDataLoop (len : Nat) (p : Fin N) :
    Nat → Bool → Bool → Handle W N → List Byte → TxData W N
  | 0, _, _, h, data => { h := h, result := .ok data, sent := [] }
  | fuel + 1, again, waitPointPassed, h, data =>
      if len ≤ data.length then { h := h, result := .ok data, sent := [] }
      else if h.events.txSending then
        let (h, generated, sent) := runTx h (len - data.length)
        if generated = [] ∧ !again then { h := h, result := .ok data, sent := sent }
        else
          let r := getTxDataLoop len p fuel (generated ≠ []) waitPointPassed h (data ++ generated)
          { r with sent := sent ++ r.sent }
      else if (h.peers p).addr = invalidAddr then
        { h := h, result := .error .unknownPeer, sent := [] }
      else
        let h := checkIdleTimeout h p
        if waitPointPassed then { h := h, result := .ok data, sent := [] }
        else
          match tryToSend h p with
          | .stop h => { h := h, result := .ok data, sent := [] }
          | .chosen h => getTxDataLoop len p fuel again true h data
          | .nothing h =>
              if !again then { h := h, result := .ok data, sent := [] }
              else getTxDataLoop len p fuel false true h data

/-- The same loop around any part behind the wait point. -/
def getTxDataLoopWith (attempt : Handle W N → Turn W N) (len : Nat) (p : Fin N) :
    Nat → Bool → Bool → Handle W N → List Byte → TxData W N
  | 0, _, _, h, data => { h := h, result := .ok data, sent := [] }
  | fuel + 1, again, waitPointPassed, h, data =>
      if len ≤ data.length then { h := h, result := .ok data, sent := [] }
      else if h.events.txSending then
        let (h, generated, sent) := runTx h (len - data.length)
        if generated = [] ∧ !again then { h := h, result := .ok data, sent := sent }
        else
          let r := getTxDataLoopWith attempt len p fuel (generated ≠ []) waitPointPassed h
            (data ++ generated)
          { r with sent := sent ++ r.sent }
      else if (h.peers p).addr = invalidAddr then
        { h := h, result := .error .unknownPeer, sent := [] }
      else
        let h := checkIdleTimeout h p
        if waitPointPassed then { h := h, result := .ok data, sent := [] }
        else
          match attempt h with
          | .stop h => { h := h, result := .ok data, sent := [] }
          | .chosen h => getTxDataLoopWith attempt len p fuel again true h data
          | .nothing h =>
              if !again then { h := h, result := .ok data, sent := [] }
              else getTxDataLoopWith attempt len p fuel false true h data

omit [NeZero W] in
theorem getTxDataLoop_eq (len : Nat) (p : Fin N) :
    ∀ (fuel : Nat) (again waitPointPassed : Bool) (h : Handle W N) (data : List Byte),
      getTxDataLoop len p fuel again waitPointPassed h data =
        getTxDataLoopWith (fun h => tryToSend h p) len p fuel again waitPointPassed h data
  | 0, _, _, _, _ => rfl
  | fuel + 1, again, waitPointPassed, h, data => by
    unfold getTxDataLoop getTxDataLoopWith
    simp only [getTxDataLoop_eq len p fuel]

/-- `tiny_fd_get_tx_data` with a buffer of `len` bytes.  A turn of the loop writes a byte,
passes the wait point, or is the second in a row that does nothing. -/
def getTxData (h : Handle W N) (len : Nat) : TxData W N :=
  getTxDataLoop len h.nextPeer (2 * len + 3) true false h []

end TinyProto.Fd
