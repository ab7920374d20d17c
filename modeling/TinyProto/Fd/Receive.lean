import TinyProto.Fd.Handle

/-!
# Incoming frames

`tiny_fd_on_rx_int.h` and `on_frame_read`: what a handle does with a frame the low
level has read.  A frame is the list of its bytes, address and control field first.
-/

namespace TinyProto.Fd

open Hdlc

variable {W N : Nat} [NeZero W] [NeZero N]

/-! ## I-frames -/

/-- `__check_received_frame`, with the result `true` for `TINY_SUCCESS`. -/
def checkReceivedFrame (h : Handle W N) (p : Fin N) (ns : Seq) : Handle W N × Bool :=
  if ns = (h.control p).nextNr then
    let h := h.setControl p fun c => { c with nextNr := c.nextNr + 1 }
    (h.setPeer p fun x => { x with sentReject := false }, true)
  else if !(h.peers p).sentReject then
    (putSFrame (h.setPeer p fun x => { x with sentReject := true }) p crBit .rej 0, false)
  else (h, false)

/-- `__on_i_frame_read` behind the check of N(S) and the confirmation: the frame goes
to the user, and an RR is queued if no I-frame is there to carry N(R). -/
def deliver (h : Handle W N) (p : Fin N) (payload : List Byte) : Handle W N :=
  let h := h.emit (.read p (callbackAddress h p) payload)
  if (h.control p).allFramesAreSent ∧ (h.peers p).sentNr ≠ (h.control p).nextNr then
    putSFrame h p 0 .rr 0
  else h

/-- `__on_i_frame_read`. -/
def onIFrameRead (h : Handle W N) (p : Fin N) (control : Byte) (payload : List Byte) :
    Handle W N :=
  let (h, expected) := checkReceivedFrame h p (nsOf control)
  let h := confirmSentFrames h p (nrOf control)
  if expected then deliver h p payload else h

/-! ## S-frames -/

/-- `__on_s_frame_read`. -/
def onSFrameRead (h : Handle W N) (p : Fin N) (address control : Byte) : Handle W N :=
  let nr := nrOf control
  if sTypeOf control = SType.rej.bits then
    resendAllUnconfirmedFrames (confirmSentFrames h p nr) p control nr
  else if sTypeOf control = SType.rr.bits then
    let h := confirmSentFrames h p nr
    if address &&& crBit ≠ 0 ∧ (h.control p).allFramesAreSent then
      putSFrame h p 0 .rr (control &&& pBit)
    else h
  else if sTypeOf control = SType.rnr.bits then confirmSentFrames h p nr
  else
    let h := confirmSentFrames h p nr
    let h := h.setPeer p fun x => { x with srejReqMask := x.srejReqMask ||| 1#8 <<< nr.toNat }
    h.setEvents fun e => { e with txDataAvailable := true }

/-! ## U-frames -/

/-- The answer to SABM and SNRM: UA, and a new connection. -/
def onConnectRequest (h : Handle W N) (p : Fin N) : Handle W N :=
  let h := putUFrame h p 0 .ua
  let h :=
    if (h.peers p).state ≠ .disconnected ∧ (h.peers p).state ≠ .connecting then
      switchToDisconnectedState h p
    else h
  switchToConnectedState h p

/-- The answer to RSET. -/
def onReset (h : Handle W N) (p : Fin N) : Handle W N :=
  putUFrame (h.setPeer p Peer.resetCounters) p 0 .ua

/-- The answer to FRMR: the connection is requested anew. -/
def onFrameReject (h : Handle W N) (p : Fin N) : Handle W N :=
  let h := if (h.peers p).state ≠ .disconnected then switchToDisconnectedState h p else h
  let h := putUFrame h p crBit (connectType h)
  h.setPeer p fun x => { x with state := .connecting }

/-- What UA does. -/
def onAcknowledge (h : Handle W N) (p : Fin N) : Handle W N :=
  if (h.peers p).state = .connecting then switchToConnectedState h p
  else if (h.peers p).state = .disconnecting then switchToDisconnectedState h p
  else h

/-- `__on_u_frame_read`. -/
def onUFrameRead (h : Handle W N) (p : Fin N) (address control : Byte) (payload : List Byte) :
    Handle W N :=
  let type := uTypeOf control
  if (h.peers p).state = .disconnected ∧ type ≠ UType.sabm.bits ∧ type ≠ UType.snrm.bits ∧
      type ≠ UType.ui.bits then
    if address &&& crBit ≠ 0 then putUFrame h p 0 .dm else h
  else if type = UType.sabm.bits ∨ type = UType.snrm.bits then onConnectRequest h p
  else if type = UType.disc.bits then switchToDisconnectedState (putUFrame h p 0 .ua) p
  else if type = UType.rset.bits then onReset h p
  else if type = UType.frmr.bits then onFrameReject h p
  else if type = UType.ua.bits then onAcknowledge h p
  else if type = UType.dm.bits then switchToDisconnectedState h p
  else if type = UType.ui.bits ∧ payload ≠ [] then
    h.emit (.readUi p (callbackAddress h p) payload)
  else h

/-! ## Dispatch -/

/-- The branches of `on_frame_read` on the kind of the frame. -/
def onPeerFrame (h : Handle W N) (p : Fin N) (address control : Byte) (payload : List Byte) :
    Handle W N :=
  if isUFrame control then onUFrameRead h p address control payload
  -- Without a connection the answer to I- and S-frames is DM.
  else if (h.peers p).state ≠ .connected ∧ (h.peers p).state ≠ .disconnecting then
    putUFrame h p 0 .dm
  else if isIFrame control then onIFrameRead h p control payload
  else onSFrameRead h p address control

/-- In NRM a frame with P/F set hands over the marker. -/
def captureMarker (h : Handle W N) (control : Byte) : Handle W N :=
  if h.settings.mode = .nrm ∧ control &&& pBit ≠ 0 then
    h.setEvents fun e => { e with hasMarker := true }
  else h

/-- The peer was heard of. -/
def noteReceived (h : Handle W N) (p : Fin N) : Handle W N :=
  h.setPeer p fun x => { x with lastReceivedFrameTs := h.millis, kaConfirmed := true }

/-- `on_frame_read`. -/
def onFrameRead (h : Handle W N) (data : List Byte) : Handle W N :=
  match data with
  | address :: control :: payload =>
      let h := h.emit (.frameIn data)
      match addressFieldToPeer h address with
      | none => h
      | some p => captureMarker (onPeerFrame (noteReceived h p) p address control payload) control
  | _ => h

/-- The frames among the events of the low level. -/
def framesOf (events : List RxEvent) : List (List Byte) :=
  events.filterMap fun e => match e with
    | .frame payload => some payload
    | .error _ => none

/-- `tiny_fd_on_rx_data`.  The low level does not look at the rest of the handle, so the
frames of the data are handled one after the other. -/
def fdOnRxData (h : Handle W N) (data : List Byte) : Handle W N :=
  let (hdlc, events) := onRxData h.hdlc data
  (framesOf events).foldl onFrameRead { h with hdlc := hdlc }

end TinyProto.Fd
