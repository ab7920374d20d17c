import TinyProto.Fd.Queue
import TinyProto.Hdlc.Tx
import TinyProto.Hdlc.Rx

/-!
# The full-duplex handle

`tiny_fd_data_t` and the functions of `tiny_fd_peers.c`, `tiny_fd_service_queue.c`,
`tiny_fd_i_queue_control.c` and `tiny_fd_tx.c` that work on it.

A handle has `W` I-frame slots and `N` peers.  A peer is its index, and
`HDLC_INVALID_PEER_INDEX` is `none`.  The clock `tiny_millis` reads is a field of the
handle.  A call is one step: nothing else runs between its start and its end, and
`tiny_events_wait` looks at the bits once.  All callbacks are set and none of them
calls back into the handle.

The field `log` is the history of the callbacks.  The source has no such field and no
function reads it.
-/

namespace TinyProto.Fd

open Hdlc

/-! ## Header fields -/

/-- `HDLC_E_BIT`. -/
def eBit : Byte := 0x01

/-- `HDLC_CR_BIT`. -/
def crBit : Byte := 0x02

/-- `HDLC_P_BIT`, which is `HDLC_F_BIT` too. -/
def pBit : Byte := 0x10

/-- `HDLC_S_FRAME_BITS`. -/
def sFrameBits : Byte := 0x01

/-- `HDLC_U_FRAME_BITS`. -/
def uFrameBits : Byte := 0x03

/-- The `HDLC_S_FRAME_TYPE_` constants. -/
inductive SType where
  | rr | rnr | rej | srej
deriving DecidableEq, Repr

/-- The bits of an S-frame type. -/
def SType.bits : SType → Byte
  | .rr => 0x00
  | .rnr => 0x04
  | .rej => 0x08
  | .srej => 0x0C

/-- The `HDLC_U_FRAME_TYPE_` constants. -/
inductive UType where
  | ua | dm | frmr | rset | sabm | snrm | disc | ui
deriving DecidableEq, Repr

/-- The bits of a U-frame type. -/
def UType.bits : UType → Byte
  | .ua => 0x60
  | .dm => 0x0C
  | .frmr => 0x84
  | .rset => 0x8C
  | .sabm => 0x2C
  | .snrm => 0x80
  | .disc => 0x40
  | .ui => 0x00

/-- `(control & HDLC_I_FRAME_MASK) == HDLC_I_FRAME_BITS`. -/
def isIFrame (control : Byte) : Bool := control &&& 0x01 == 0

/-- `(control & HDLC_S_FRAME_MASK) == HDLC_S_FRAME_BITS`. -/
def isSFrame (control : Byte) : Bool := control &&& 0x03 == sFrameBits

/-- `(control & HDLC_U_FRAME_MASK) == HDLC_U_FRAME_BITS`. -/
def isUFrame (control : Byte) : Bool := control &&& 0x03 == uFrameBits

/-- `control & HDLC_S_FRAME_TYPE_MASK`. -/
def sTypeOf (control : Byte) : Byte := control &&& 0x0C

/-- `control & HDLC_U_FRAME_TYPE_MASK`. -/
def uTypeOf (control : Byte) : Byte := control &&& 0xEC

/-- The control field of an S-frame. -/
def sControl (type : SType) (nr : Seq) : Byte :=
  sFrameBits ||| type.bits ||| nr.setWidth 8 <<< 5

/-- The control field of a U-frame. -/
def uControl (type : UType) : Byte := type.bits ||| uFrameBits

/-! ## State -/

/-- `mode` of the init structure. -/
inductive Mode where
  | abm | nrm | arm
deriving DecidableEq, Repr

/-- `tiny_fd_state_t`. -/
inductive PeerState where
  | disconnected | connecting | connected | disconnecting
deriving DecidableEq, Repr

/-- `i_queue_control_t`. -/
structure IQueueControl where
  /-- Next free frame number to put. -/
  lastNs : Seq
  /-- Next sent frame to be confirmed. -/
  confirmNs : Seq
  /-- Next frame to be sent. -/
  nextNs : Seq
  /-- Next expected frame number. -/
  nextNr : Seq
deriving DecidableEq, Repr

/-- `tiny_fd_peer_info_t`. -/
structure Peer where
  state : PeerState
  addr : Byte
  /-- Frame index last sent back. -/
  sentNr : Seq
  sentReject : Bool
  srejReqMask : BitVec 8
  iQueueControl : IQueueControl
  lastSentITs : BitVec 32
  lastSentFrameTs : BitVec 32
  lastReceivedFrameTs : BitVec 32
  kaConfirmed : Bool
  retries : Nat
  /-- `FD_EVENT_CAN_ACCEPT_I_FRAMES`. -/
  canAcceptIFrames : Bool
deriving DecidableEq, Repr

/-- The bits of `events`. -/
structure Events where
  txSending : Bool
  txDataAvailable : Bool
  queueHasFreeSlots : Bool
  hasMarker : Bool
deriving DecidableEq, Repr

/-- What `tiny_fd_init` takes over from the init structure. -/
structure Settings where
  mode : Mode
  /-- The local address field. -/
  addr : Byte
  sendTimeout : Nat
  retryTimeout : Nat
  retries : Nat
deriving DecidableEq, Repr

/-- A pointer to the header of a slot. -/
inductive SlotRef (W : Nat) where
  | iSlot (i : Fin W)
  | sSlot (i : Fin 4)
deriving DecidableEq, Repr

/-- A call of a callback, with the peer it is about, or a payload accepted. -/
inductive Event (N : Nat) where
  /-- `log_frame_cb`, direction in. -/
  | frameIn (data : List Byte)
  /-- `log_frame_cb`, direction out. -/
  | frameOut (peer : Fin N) (data : List Byte)
  /-- `tiny_fd_send_packet_to` took the payload. -/
  | accepted (peer : Fin N) (payload : List Byte)
  /-- `on_send_cb`. -/
  | sent (peer : Fin N) (address : Byte) (payload : List Byte)
  /-- `on_read_cb`. -/
  | read (peer : Fin N) (address : Byte) (payload : List Byte)
  /-- `on_read_ui_cb`. -/
  | readUi (peer : Fin N) (address : Byte) (payload : List Byte)
  /-- `on_connect_event_cb`. -/
  | connect (peer : Fin N) (address : Byte) (connected : Bool)
  /-- The message `RETURN MARKER BACK`. -/
  | returnMarker
deriving DecidableEq, Repr

/-- `tiny_fd_data_t`. -/
structure Handle (W N : Nat) where
  settings : Settings
  kaTimeout : Nat
  hdlc : HdlcLl (SlotRef W)
  iQueue : Queue W
  sQueue : Queue 4
  peers : Fin N → Peer
  /-- Next peer to process. -/
  nextPeer : Fin N
  lastMarkerTs : BitVec 32
  events : Events
  millis : BitVec 32
  log : List (Event N)

variable {W N : Nat} [NeZero W] [NeZero N]

/-! ## Access -/

/-- An update of one peer. -/
def Handle.setPeer (h : Handle W N) (p : Fin N) (f : Peer → Peer) : Handle W N :=
  { h with peers := Function.update h.peers p (f (h.peers p)) }

/-- An update of the sequence numbers of one peer. -/
def Handle.setControl (h : Handle W N) (p : Fin N) (f : IQueueControl → IQueueControl) : Handle W N :=
  h.setPeer p fun x => { x with iQueueControl := f x.iQueueControl }

/-- An update of `events`. -/
def Handle.setEvents (h : Handle W N) (f : Events → Events) : Handle W N :=
  { h with events := f h.events }

/-- A callback. -/
def Handle.emit (h : Handle W N) (e : Event N) : Handle W N := { h with log := h.log ++ [e] }

/-- The sequence numbers of a peer. -/
def Handle.control (h : Handle W N) (p : Fin N) : IQueueControl := (h.peers p).iQueueControl

/-- The slot behind a pointer. -/
def Handle.slot (h : Handle W N) : SlotRef W → Slot
  | .iSlot i => h.iQueue.frames i
  | .sSlot i => h.sQueue.frames i

/-- An update of the slot behind a pointer. -/
def Handle.setSlot (h : Handle W N) (r : SlotRef W) (f : Slot → Slot) : Handle W N :=
  match r with
  | .iSlot i => { h with iQueue := h.iQueue.setFrame i (f (h.iQueue.frames i)) }
  | .sSlot i => { h with sQueue := h.sQueue.setFrame i (f (h.sQueue.frames i)) }

/-- The memory the low level reads frames from. -/
def Handle.mem (h : Handle W N) (r : SlotRef W) (i : Nat) : Byte := (h.slot r).bytes.getD i 0

/-- Milliseconds since a timestamp. -/
def Handle.elapsed (h : Handle W N) (ts : BitVec 32) : Nat := (h.millis - ts).toNat

/-! ## Peers -/

/-- `__is_primary_address`. -/
def isPrimaryAddress (address : Byte) : Bool := address &&& ~~~crBit == eBit

/-- `__is_primary_station`. -/
def Handle.isPrimaryStation (h : Handle W N) : Bool := isPrimaryAddress h.settings.addr

/-- `__is_secondary_station`. -/
def Handle.isSecondaryStation (h : Handle W N) : Bool := !h.isPrimaryStation

/-- `HDLC_INVALID_PEER_INDEX` as the address of a peer not registered yet. -/
def invalidAddr : Byte := 0xFF

/-- `__peer_to_address_field`. -/
def peerToAddressField (h : Handle W N) (p : Fin N) : Byte := (h.peers p).addr &&& ~~~crBit

/-- `__address_field_to_peer`. -/
def addressFieldToPeer (h : Handle W N) (address : Byte) : Option (Fin N) :=
  let address := address &&& ~~~crBit
  if address &&& eBit = 0 then none
  else if h.isSecondaryStation ∨ h.settings.mode = .abm then
    if address = h.settings.addr then some 0 else none
  else (List.finRange N).find? fun p => (h.peers p).addr = address

/-- `__switch_to_next_peer`: the search goes once around and ends where it started. -/
def switchToNextPeer (h : Handle W N) : Handle W N :=
  let others := (List.finRange N).map fun k => h.nextPeer + 1 + k
  { h with nextPeer := (others.find? fun p => (h.peers p).addr ≠ invalidAddr).getD h.nextPeer }

/-- The address a callback gets for a peer. -/
def callbackAddress (h : Handle W N) (p : Fin N) : Byte :=
  if h.isPrimaryStation then peerToAddressField h p >>> 2 else 0

/-! ## Service queue -/

/-- `__put_u_s_frame_to_tx_queue` where there is room. -/
def putUSFrame? (h : Handle W N) (type : QueueType) (address control : Byte) (payload : List Byte) :
    Option (Handle W N) :=
  (h.sQueue.allocate type payload).map fun (q, i) =>
    { h with
      sQueue := q.setFrame i { q.frames i with address := address, control := control }
      events := { h.events with txDataAvailable := true } }

/-- `__put_u_s_frame_to_tx_queue`.  Without room the frame is dropped. -/
def putUSFrame (h : Handle W N) (type : QueueType) (address control : Byte) (payload : List Byte) :
    Handle W N :=
  (putUSFrame? h type address control payload).getD h

/-- An S-frame with the current N(R). -/
def putSFrame (h : Handle W N) (p : Fin N) (cr : Byte) (type : SType) (poll : Byte) : Handle W N :=
  putUSFrame h .sFrame (peerToAddressField h p ||| cr)
    (sControl type (h.control p).nextNr ||| poll) []

/-- A U-frame without data. -/
def putUFrame (h : Handle W N) (p : Fin N) (cr : Byte) (type : UType) : Handle W N :=
  putUSFrame h .uFrame (peerToAddressField h p ||| cr) (uControl type) []

/-- The connection request of the mode. -/
def connectType (h : Handle W N) : UType := if h.settings.mode = .nrm then .snrm else .sabm

/-! ## Sequence numbers -/

/-- `__i_queue_control_has_unconfirmed_frames`. -/
def IQueueControl.hasUnconfirmedFrames (c : IQueueControl) : Bool := c.confirmNs != c.lastNs

/-- `__all_frames_are_sent`. -/
def IQueueControl.allFramesAreSent (c : IQueueControl) : Bool := c.lastNs == c.nextNs

/-- `__i_queue_control_tx_full`. -/
def IQueueControl.txFull (c : IQueueControl) : Bool := c.lastNs + 1 == c.confirmNs

/-- `__reset_i_queue_control`. -/
def IQueueControl.reset : IQueueControl := { lastNs := 0, confirmNs := 0, nextNs := 0, nextNr := 0 }

/-- `__put_i_frame_to_tx_queue`. -/
def putIFrame? (h : Handle W N) (p : Fin N) (data : List Byte) : Option (Handle W N) :=
  (h.iQueue.allocate .iFrame data).map fun (q, i) =>
    ({ h with
        iQueue := q.setFrame i { q.frames i with
          address := peerToAddressField h p
          control := (h.control p).lastNs.setWidth 8 <<< 1 }
        events := { h.events with txDataAvailable := true } } : Handle W N).setControl p
      fun c => { c with lastNs := c.lastNs + 1 }

/-! ## Confirmation and resending -/

/-- `__on_frame_confirmed`. -/
def onFrameConfirmed (h : Handle W N) (p : Fin N) (nr : Seq) : Handle W N :=
  match h.iQueue.getNext [.iFrame] (peerToAddressField h p) nr with
  | some i =>
      let h := h.emit (.sent p (callbackAddress h p) (h.iQueue.frames i).payload)
      let h := { h with iQueue := h.iQueue.freeByHeader i }
      let h :=
        if h.iQueue.hasFreeSlots then h.setEvents fun e => { e with queueHasFreeSlots := true }
        else h
      h.setPeer p fun x => { x with retries := h.settings.retries }
  | none => h.setPeer p fun x => { x with retries := h.settings.retries }

/-- The body of the loop in `__i_queue_control_confirm_sent_frames`. -/
def confirmOne (h : Handle W N) (p : Fin N) : Handle W N :=
  (onFrameConfirmed h p (h.control p).confirmNs).setControl p fun c =>
    { c with confirmNs := c.confirmNs + 1 }

/-- The loop of `__i_queue_control_confirm_sent_frames`.  It stops at the latest when
`confirm_ns` has gone once around. -/
def confirmLoop : Nat → Handle W N → Fin N → Seq → Handle W N
  | 0, h, _, _ => h
  | fuel + 1, h, p, nr =>
      if nr = (h.control p).confirmNs then h
      else if !(h.control p).hasUnconfirmedFrames then h
      else confirmLoop fuel (confirmOne h p) p nr

/-- `__confirm_sent_frames`. -/
def confirmSentFrames (h : Handle W N) (p : Fin N) (nr : Seq) : Handle W N :=
  let h := confirmLoop 8 h p nr
  if !(h.control p).txFull then h.setPeer p fun x => { x with canAcceptIFrames := true } else h

/-- The data of the FRMR that answers a REJ which cannot be served. -/
def frmrData (control : Byte) (c : IQueueControl) : List Byte :=
  [control, c.nextNr.setWidth 8 <<< 5 ||| c.nextNs.setWidth 8 <<< 1]

/-- `__i_queue_control_move_to_previous_ns`. -/
def moveToPreviousNs (h : Handle W N) (p : Fin N) : Handle W N :=
  h.setControl p fun c => { c with nextNs := c.nextNs - 1 }

/-- The loop of `__resend_all_unconfirmed_frames`. -/
def resendLoop : Nat → Handle W N → Fin N → Byte → Seq → Handle W N
  | 0, h, _, _, _ => h
  | fuel + 1, h, p, control, nr =>
      if (h.control p).nextNs = nr then h
      else if (h.control p).confirmNs = (h.control p).nextNs then
        putUSFrame h .uFrame (peerToAddressField h p ||| crBit) (uControl .frmr)
          (frmrData control (h.control p))
      else resendLoop fuel (moveToPreviousNs h p) p control nr

/-- `__resend_all_unconfirmed_frames`. -/
def resendAllUnconfirmedFrames (h : Handle W N) (p : Fin N) (control : Byte) (nr : Seq) : Handle W N :=
  (resendLoop 8 h p control nr).setEvents fun e => { e with txDataAvailable := true }

/-! ## Connection state -/

/-- What connecting, disconnecting and RSET reset of a peer. -/
def Peer.resetCounters (x : Peer) : Peer :=
  { x with
    iQueueControl := IQueueControl.reset
    sentNr := 0
    sentReject := false
    srejReqMask := 0 }

/-- `__switch_to_connected_state`. -/
def switchToConnectedState (h : Handle W N) (p : Fin N) : Handle W N :=
  if (h.peers p).state ≠ .connected then
    let h := h.setPeer p fun x => { x.resetCounters with state := .connected }
    let h := { h with iQueue := h.iQueue.resetFor (peerToAddressField h p) }
    let h := h.setPeer p fun x =>
      { x with
        lastReceivedFrameTs := h.millis
        lastSentFrameTs := h.millis
        canAcceptIFrames := true }
    let h := h.setEvents fun e =>
      { e with
        txDataAvailable := true
        queueHasFreeSlots := e.queueHasFreeSlots || h.iQueue.hasFreeSlots }
    h.emit (.connect p (callbackAddress h p) true)
  else h

/-- `__switch_to_disconnected_state`. -/
def switchToDisconnectedState (h : Handle W N) (p : Fin N) : Handle W N :=
  if (h.peers p).state ≠ .disconnected then
    let h := h.setPeer p fun x => { x.resetCounters with state := .disconnected }
    let h := { h with iQueue := h.iQueue.resetFor (peerToAddressField h p) }
    let h := h.setPeer p fun x => { x with canAcceptIFrames := false }
    h.emit (.connect p (callbackAddress h p) false)
  else h

end TinyProto.Fd
