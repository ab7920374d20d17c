import TinyProto.Fd.Transmit

/-!
# The calls of the application

Initialisation of the protocol fields and the calls that queue something.  `Call` lists
everything that can happen to a handle, and `Reachable` the states that come of it.
-/

namespace TinyProto.Fd

open Hdlc

variable {W N : Nat} [NeZero W] [NeZero N]

/-! ## Initialisation -/

/-- The fields of the init structure that the protocol keeps. -/
structure InitParams where
  mode : Mode
  addr : Byte
  sendTimeout : Nat
  retryTimeout : Nat
  retries : Nat
  mtu : Int

/-- `protocol->addr`. -/
def InitParams.addressField (init : InitParams) : Byte :=
  (if init.addr ≠ 0 then init.addr <<< 2 else 0) ||| eBit

/-- A peer as `tiny_fd_init` leaves it. -/
def initPeer (addr : Byte) (retries : Nat) : Peer :=
  { state := .disconnected
    addr := addr
    sentNr := 0
    sentReject := false
    srejReqMask := 0
    iQueueControl := IQueueControl.reset
    lastSentITs := 0
    lastSentFrameTs := 0
    lastReceivedFrameTs := 0
    kaConfirmed := false
    retries := retries
    canAcceptIFrames := false }

/-- The handle at the end of a successful `tiny_fd_init`, with the low level handle that
`hdlc_ll_init` made and the clock at `millis`. -/
def initHandle (W N : Nat) [NeZero W] [NeZero N] (init : InitParams)
    (hdlc : HdlcLl (SlotRef W)) (millis : BitVec 32) : Handle W N :=
  let addr := init.addressField
  let primary := isPrimaryAddress addr
  { settings :=
      { mode := init.mode
        addr := addr
        sendTimeout := init.sendTimeout
        retryTimeout :=
          if init.retryTimeout ≠ 0 then init.retryTimeout else init.sendTimeout / (init.retries + 1)
        retries := init.retries }
    kaTimeout := 5000
    hdlc := hdlc
    iQueue := queueReset W init.mtu
    sQueue := queueReset 4 2
    peers := fun _ =>
      initPeer (if !primary ∨ init.mode = .abm then addr else invalidAddr) init.retries
    nextPeer := 0
    lastMarkerTs := 0
    events :=
      { txSending := false
        txDataAvailable := false
        queueHasFreeSlots := true
        hasMarker := primary }
    millis := millis
    log := [] }

/-! ## Sending -/

/-- The address field the send functions look the peer up with.  A secondary station puts
its own address field in place of the primary address. -/
def sendAddress (h : Handle W N) (address : Byte) : Byte :=
  let address := if h.isSecondaryStation ∧ address = 0 then h.settings.addr else address
  address <<< 2 ||| eBit

/-- `tiny_fd_send_packet_to` once both events were there. -/
def takePacket (h : Handle W N) (p : Fin N) (data : List Byte) : Handle W N × Status :=
  let (h, status) :=
    match putIFrame? h p data with
    | some h =>
        let h := h.emit (.accepted p data)
        (if h.iQueue.hasFreeSlots then h.setEvents fun e => { e with queueHasFreeSlots := true }
          else h, Status.success)
    | none => (h, Status.timeout)
  (if !(h.control p).txFull then h.setPeer p fun x => { x with canAcceptIFrames := true } else h,
    status)

/-- `tiny_fd_send_packet_to`. -/
def sendPacketTo (h : Handle W N) (address : Byte) (data : List Byte) : Handle W N × Status :=
  match addressFieldToPeer h (sendAddress h address) with
  | none => (h, .unknownPeer)
  | some p =>
      if data.length > h.iQueue.mtu then (h, .dataTooLarge)
      else if (h.peers p).canAcceptIFrames then
        if h.events.queueHasFreeSlots then
          let h := h.setPeer p fun x => { x with canAcceptIFrames := false }
          takePacket (h.setEvents fun e => { e with queueHasFreeSlots := false }) p data
        -- The flag that was cleared is put back.
        else (h, .timeout)
      else (h, .timeout)

/-- `tiny_fd_send_ui_packet_to`. -/
def sendUiPacketTo (h : Handle W N) (address : Byte) (data : List Byte) : Handle W N × Status :=
  if data.length > h.sQueue.mtu then (h, .dataTooLarge)
  else
    match addressFieldToPeer h (sendAddress h address) with
    | none => (h, .unknownPeer)
    | some p =>
        match putUSFrame? h .uFrame (peerToAddressField h p) (uControl .ui) data with
        | none => (h, .failed)
        | some h => (h, .success)

/-! ## Connections -/

/-- `tiny_fd_disconnect`. -/
def disconnect (h : Handle W N) : Handle W N × Status :=
  match putUSFrame? h .uFrame (peerToAddressField h 0 ||| crBit) (uControl .disc) [] with
  | none => (h, .failed)
  | some h => (h.setPeer 0 fun x => { x with state := .disconnecting }, .success)

/-- `tiny_fd_register_peer`. -/
def registerPeer (h : Handle W N) (address : Byte) : Handle W N × Status :=
  if address > 63 then (h, .failed)
  else
    let address := address <<< 2 ||| eBit
    if address = eBit then (h, .failed)
    else if (addressFieldToPeer h address).isSome then (h, .failed)
    else
      match (List.finRange N).find? fun p => (h.peers p).addr = invalidAddr with
      | none => (h, .failed)
      | some p =>
          (h.setPeer p fun x =>
            { x with
              addr := address
              lastReceivedFrameTs := h.millis - BitVec.ofNat 32 h.settings.retryTimeout },
            .success)

/-- `tiny_fd_set_ka_timeout`.  The field is a `uint16_t`. -/
def setKaTimeout (h : Handle W N) (keepAlive : Nat) : Handle W N :=
  { h with kaTimeout := keepAlive % 65536 }

/-! ## Runs -/

/-- What can happen to a handle. -/
inductive Call where
  | sendPacketTo (address : Byte) (data : List Byte)
  | sendUiPacketTo (address : Byte) (data : List Byte)
  | disconnect
  | registerPeer (address : Byte)
  | setKaTimeout (keepAlive : Nat)
  | onRxData (data : List Byte)
  | onFrameRead (data : List Byte)
  | getTxData (len : Nat)
  /-- Time passes. -/
  | tick (ms : BitVec 32)

/-- The state after a call. -/
def call (h : Handle W N) : Call → Handle W N
  | .sendPacketTo address data => (sendPacketTo h address data).1
  | .sendUiPacketTo address data => (sendUiPacketTo h address data).1
  | .disconnect => (disconnect h).1
  | .registerPeer address => (registerPeer h address).1
  | .setKaTimeout keepAlive => setKaTimeout h keepAlive
  | .onRxData data => fdOnRxData h data
  | .onFrameRead data => onFrameRead h data
  | .getTxData len => (getTxData h len).h
  | .tick ms => { h with millis := h.millis + ms }

end TinyProto.Fd
