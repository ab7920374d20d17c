import TinyProto.Proto.Pool
import TinyProto.Link.SerialLayer

/-!
# Messages over a serial line

`Proto::send` and `Proto::read` (`TinyProtocol.cpp`) of a program without threads, over the serial
HDLC link.  Both run the link in their loops, so a program that sends receives as well, and one that
waits for a packet may have to transmit.

`messages_arrive`: what one program puts into packets and sends, the other one gets out of the packets
that `read` returns, field by field and in order.  Only a frame that finds no packet in the pool is
missing.  The two programs are apart: each is a run of its own, and all that joins them is that one has
read no more from its port than a first part of what the other one wrote.
-/

namespace TinyProto.Proto

open Link Hdlc IPacket

variable {α π : Type} [DecidableEq α]

/-! ## Calls -/

/-- A program's `Proto`, and its link. -/
structure Station (α π : Type) where
  proto : Proto α Unit
  layer : IHdlcLinkLayer π

/-- What a program meets in one turn of a loop: what `tiny_millis` returns, what the calls of
`Serial::write` return, and what there is to read. -/
structure Turn where
  now : BitVec 32
  answers : List Int
  incoming : List Byte

/-- What passes through a station: what happens to its packets, the bytes of the frames that were
due, and the bytes that were written to the port and read from it. -/
structure Traffic (α : Type) where
  events : List (Event α Unit)
  due : List Byte
  written : List Byte
  consumed : List Byte

/-- Nothing. -/
def Traffic.none : Traffic α := ⟨[], [], [], []⟩

/-- One after the other. -/
def Traffic.append (t t' : Traffic α) : Traffic α :=
  ⟨t.events ++ t'.events, t.due ++ t'.due, t.written ++ t'.written, t.consumed ++ t'.consumed⟩

/-- The bytes of the packets behind the pointers. -/
def bufferOf (heap : π → IPacket) (data : π) (i : Nat) : Byte := (heap data).buf.getD i 0

/-- `runTx` and `runRx` of the link. -/
def runLink (heap : π → IPacket) (bsize : Nat) (s : Station α π) (turn : Turn) :
    Station α π × Traffic α :=
  let tx := runTx (bufferOf heap) s.layer bsize turn.answers
  let data := turn.incoming.take bsize
  let (layer, payloads) := runRx tx.layer data
  let (proto, events) := s.proto.onReads (payloads.map fun bytes => ⟨(), bytes⟩)
  ({ proto := proto, layer := layer },
    { events := events, due := tx.block, written := tx.written, consumed := data })

/-- `Proto::send` of the packet behind `data`, with the first turns of its loop.  It goes on after
them if the result is `none`. -/
def send [DecidableEq π] (heap : π → IPacket) (bsize : Nat) (data : π) (timeout startTs : BitVec 32)
    (s : Station α π) (turns : List Turn) : Option (Station α π × Traffic α × Bool) :=
  -- Try to put the message to the outgoing queue.
  let done := put (bufferOf heap) s.layer (some data) (heap data).len
  if done.result then some ({ s with layer := done.layer }, .none, true)
  else
    match turns with
    | [] => none
    | turn :: turns =>
        if timeout ≤ turn.now - startTs then
          some ({ s with layer := flushTx done.layer }, .none, false)
        else
          let (s, traffic) := runLink heap bsize { s with layer := done.layer } turn
          (send heap bsize data timeout startTs s turns).map fun r =>
            (r.1, traffic.append r.2.1, r.2.2)

/-- `Proto::read`, with the first turns of its loop. -/
def receive (heap : π → IPacket) (bsize : Nat) (timeout startTs : BitVec 32) (s : Station α π)
    (turns : List Turn) : Option (Station α π × Traffic α × Option α) :=
  match s.proto.look with
  | (proto, some p) =>
      some ({ s with proto := proto },
        ⟨[.returned p (proto.packets p).view], [], [], []⟩, some p)
  | (proto, none) =>
      match turns with
      | [] => none
      | turn :: turns =>
          -- The link runs before the clock is looked at.
          let (s, traffic) := runLink heap bsize { s with proto := proto } turn
          if timeout ≤ turn.now - startTs then some (s, traffic, none)
          else
            (receive heap bsize timeout startTs s turns).map fun r =>
              (r.1, traffic.append r.2.1, r.2.2)

/-! ## Programs -/

/-- What a program has done: the traffic, the fields of the messages it sent, and the packets it got
from `read`. -/
structure Log (α : Type) where
  traffic : Traffic α
  sent : List (List Field)
  got : List (RxPacket Unit)

/-- The packet was cleared, and the fields were put into it one after another. -/
def Holds (pkt : IPacket) (fs : List Field) : Prop :=
  ∃ pkt₀ : IPacket, totalSize fs ≤ pkt₀.maxSize ∧ ¬LastDropped pkt₀.maxSize fs ∧
    pkt₀.clear.putAll fs = some pkt

/-- The fields are read from the packet, and there is nothing else in it. -/
def Carries (m : RxPacket Unit) (fs : List Field) : Prop :=
  ∃ pkt', m.packet.getAll (fs.map Field.type) = some (fs, pkt') ∧ pkt'.unread = []

/-- Programs whose calls of `send` succeed.  The port has blocks of `bsize` bytes. -/
inductive Program [DecidableEq π] (bsize : Nat) (s₀ : Station α π) : Log α → Station α π → Prop where
  | start : Program bsize s₀ ⟨.none, [], []⟩ s₀
  /-- `addRxPool` or `release`. -/
  | addRxPool {log : Log α} {s : Station α π} (h : Program bsize s₀ log s) (p : α)
      (hp : p ∈ added log.traffic.events → p ∈ held log.traffic.events) :
      Program bsize s₀
        { log with traffic := log.traffic.append ⟨[.added p], [], [], []⟩ }
        { s with proto := s.proto.addRxPool p }
  | send {log : Log α} {s s' : Station α π} {traffic : Traffic α} (h : Program bsize s₀ log s)
      {heap : π → IPacket} {data : π} {fs : List Field} {timeout startTs : BitVec 32}
      {turns : List Turn} (hp : Holds (heap data) fs)
      (hs : Proto.send heap bsize data timeout startTs s turns = some (s', traffic, true)) :
      Program bsize s₀ ⟨log.traffic.append traffic, log.sent ++ [fs], log.got⟩ s'
  | read {log : Log α} {s s' : Station α π} {traffic : Traffic α} {p : Option α}
      (h : Program bsize s₀ log s) {heap : π → IPacket} {timeout startTs : BitVec 32}
      {turns : List Turn}
      (hr : receive heap bsize timeout startTs s turns = some (s', traffic, p)) :
      Program bsize s₀ ⟨log.traffic.append traffic, log.sent,
        log.got ++ p.toList.map s'.proto.packets⟩ s'

/-! ## Receiving -/

variable {c : HdlcCrc} {mtu : Int} {s₀ s s' : Proto α Unit} {t : List (Event α Unit)}

/-- `onRead` stores a frame or counts it as lost. -/
theorem onRead_cases (hon : s.onRx = false) (f : Frame Unit) :
    (s.onRead f).1.onRx = false ∧ (s.onRead f).1.capacity = s.capacity ∧
      ((s.onRead f).2 = .lost ∧ (s.onRead f).1.lostRxFrames = s.lostRxFrames + 1 ∨
        ∃ p, (s.onRead f).2 = .stored p ∧ (s.onRead f).1.lostRxFrames = s.lostRxFrames) := by
  unfold onRead
  rw [hon]
  cases s.pool with
  | none => exact ⟨rfl, rfl, .inl ⟨rfl, rfl⟩⟩
  | some p =>
    refine ⟨rfl, funext fun q => ?_, .inr ⟨p, rfl, rfl⟩⟩
    show (Function.update s.packets p ((s.packets p).receive f) q).packet.maxSize = s.capacity q
    by_cases hq : q = p
    · rw [hq, Function.update_self]
      exact RxPacket.maxSize_receive ..
    · rw [Function.update_of_ne hq]
      rfl

/-- What becomes of frames: those that are not lost are stored, in order. -/
structure Took (s s' : Proto α Unit) (payloads : List (List Byte)) (events : List (Event α Unit)) :
    Prop where
  capacity : s'.capacity = s.capacity
  returned : returned events = []
  stored : ((stored events).map fun r => r.2.bytes).Sublist payloads
  lost : (Proto.stored events).length + s'.lostRxFrames = payloads.length + s.lostRxFrames

theorem onReads_took (payloads : List (List Byte)) (hon : s.onRx = false) :
    Took s (s.onReads (payloads.map fun bytes => ⟨(), bytes⟩)).1 payloads
      (s.onReads (payloads.map fun bytes => ⟨(), bytes⟩)).2 := by
  induction payloads generalizing s with
  | nil => exact ⟨rfl, rfl, .slnil, rfl⟩
  | cons payload payloads ih =>
    obtain ⟨hon', hcap, harr⟩ := onRead_cases hon ⟨(), payload⟩
    obtain ⟨hcap', hret, hstored, hlost⟩ := ih hon'
    have hcons : s.onReads ((payload :: payloads).map fun bytes => ⟨(), bytes⟩) =
        (((s.onRead ⟨(), payload⟩).1.onReads (payloads.map fun bytes => ⟨(), bytes⟩)).1,
          .arrived ⟨(), payload⟩ (s.onRead ⟨(), payload⟩).2 ::
            ((s.onRead ⟨(), payload⟩).1.onReads (payloads.map fun bytes => ⟨(), bytes⟩)).2) := rfl
    rw [hcons]
    rcases harr with ⟨harr, hone⟩ | ⟨p, harr, hone⟩
    · rw [harr]
      refine ⟨hcap'.trans hcap, hret, hstored.cons _, hlost.trans ?_⟩
      rw [hone, List.length_cons]
      omega
    · rw [harr]
      refine ⟨hcap'.trans hcap, hret, hstored.cons_cons _, ?_⟩
      rw [hone] at hlost
      exact (Nat.add_right_comm ..).trans ((congrArg Nat.succ hlost).trans (Nat.succ_add ..).symm)

/-- It is one call of `onRead` after the other. -/
theorem Run.onReads (hr : Run s₀ t s) (fs : List (Frame Unit)) :
    Run s₀ (t ++ (s.onReads fs).2) (s.onReads fs).1 := by
  induction fs generalizing s t with
  | nil =>
    rw [Proto.onReads, List.append_nil]
    exact hr
  | cons f fs ih =>
    have hr' := ih (hr.call (.onRead f) trivial)
    rwa [List.append_assoc] at hr'

/-- The payloads in received bytes. -/
def heard (c : HdlcCrc) (mtu : Int) (consumed : List Byte) : List (List Byte) :=
  payloadsIn (Transducer.emits (viewStep c mtu) .start consumed)

/-- What a station has received. -/
structure Hearing (c : HdlcCrc) (mtu : Int) (s₀ : Proto α Unit) (s : Station α π)
    (t : List (Event α Unit)) (consumed : List Byte) : Prop where
  idle : s.layer.handle.RxIdle c mtu
  view : s.layer.handle.view = Transducer.after (viewStep c mtu) .start consumed
  fresh : s₀.Fresh
  run : Run s₀ t s.proto
  capacity : s.proto.capacity = s₀.capacity
  stored : ((stored t).map fun r => r.2.bytes).Sublist (heard c mtu consumed)
  lost : (Proto.stored t).length + s.proto.lostRxFrames =
    (heard c mtu consumed).length + s₀.lostRxFrames

theorem payloadsIn_append (es es' : List RxEvent) :
    payloadsIn (es ++ es') = payloadsIn es ++ payloadsIn es' := List.filterMap_append

omit [DecidableEq α] in
theorem stored_append (t t' : List (Event α Unit)) : stored (t ++ t') = stored t ++ stored t' :=
  List.filterMap_append

omit [DecidableEq α] in
theorem returned_append (t t' : List (Event α Unit)) :
    returned (t ++ t') = returned t ++ returned t' := List.filterMap_append

theorem Hearing.accounted {st : Station α π} {consumed : List Byte}
    (hh : Hearing c mtu s₀ st t consumed) : Accounted st.proto t := hh.run.accounted hh.fresh

theorem Hearing.onRx {st : Station α π} {consumed : List Byte}
    (hh : Hearing c mtu s₀ st t consumed) : st.proto.onRx = false := by
  obtain ⟨ps, qs, ha⟩ := hh.accounted
  exact ha.onRx

/-- Transmitting does not touch it. -/
theorem Hearing.withTx {st : Station α π} {consumed : List Byte}
    (hh : Hearing c mtu s₀ st t consumed) {layer : IHdlcLinkLayer π} {tx : Tx π}
    (hl : layer.handle = st.layer.handle.withTx tx) :
    Hearing c mtu s₀ { st with layer := layer } t consumed := by
  refine ⟨?_, ?_, hh.fresh, hh.run, hh.capacity, hh.stored, hh.lost⟩
  · rw [hl]
    exact ⟨⟨hh.idle.ok.crcType, hh.idle.ok.physMtu, hh.idle.ok.ptr⟩, hh.idle.state⟩
  · rw [hl]
    exact hh.view

/-- The link receives what was read. -/
theorem Hearing.runRx {st : Station α π} {consumed : List Byte} (hc : c.stored = c)
    (hh : Hearing c mtu s₀ st t consumed) (data : List Byte) :
    Hearing c mtu s₀
      { proto := (st.proto.onReads ((Link.runRx st.layer data).2.map fun bytes => ⟨(), bytes⟩)).1
        layer := (Link.runRx st.layer data).1 }
      (t ++ (st.proto.onReads ((Link.runRx st.layer data).2.map fun bytes => ⟨(), bytes⟩)).2)
      (consumed ++ data) := by
  have himp : Transducer.Implements (viewStep c mtu) (HdlcLl.RxIdle (π := π) c mtu) HdlcLl.view
      onRxData := onRxData_implements hc
  have htook := onReads_took (Link.runRx st.layer data).2 hh.onRx
  have hheard : heard c mtu (consumed ++ data) =
      heard c mtu consumed ++ (Link.runRx st.layer data).2 := by
    rw [heard, Transducer.emits_append, payloadsIn_append, ← hh.view,
      ← himp.output st.layer.handle data hh.idle]
    rfl
  refine ⟨himp.keeps _ data hh.idle, ?_, hh.fresh, hh.run.onReads _,
    htook.capacity.trans hh.capacity, ?_, ?_⟩
  · rw [Transducer.after_append, ← hh.view]
    exact himp.state _ data hh.idle
  · rw [stored_append, List.map_append, hheard]
    exact hh.stored.append htook.stored
  · have h₁ := htook.lost
    have h₂ := hh.lost
    rw [stored_append, hheard, List.length_append, List.length_append]
    dsimp only at h₁ ⊢
    omega

/-- Nothing is read in it. -/
theorem Hearing.runLink_returned {st : Station α π} {consumed : List Byte}
    (hh : Hearing c mtu s₀ st t consumed) (heap : π → IPacket) (bsize : Nat) (turn : Turn) :
    returned (Proto.runLink heap bsize st turn).2.events = [] :=
  (onReads_took _ hh.onRx).returned

theorem Hearing.runLink {st : Station α π} {consumed : List Byte} (hc : c.stored = c)
    (hh : Hearing c mtu s₀ st t consumed) (heap : π → IPacket) (bsize : Nat) (turn : Turn) :
    Hearing c mtu s₀ (runLink heap bsize st turn).1 (t ++ (runLink heap bsize st turn).2.events)
      (consumed ++ (runLink heap bsize st turn).2.consumed) := by
  obtain ⟨tx, htx⟩ := getData_listens (bufferOf heap) st.layer bsize
  exact (hh.withTx htx).runRx hc (turn.incoming.take bsize)

/-- A look at the queue finds nothing and does nothing, or leaves the packets as they are. -/
theorem look_cases (s : Proto α Unit) :
    s.look = (s, none) ∨ ∃ s' p, s.look = (s', some p) ∧ s'.packets = s.packets ∧
      s'.lostRxFrames = s.lostRxFrames := by
  unfold Proto.look
  split
  · exact .inl rfl
  · exact .inr ⟨_, _, rfl, rfl, rfl⟩

/-- It is a call of `read` in which nothing arrives. -/
theorem Run.look {p : α} (hr : Run s₀ t s) (hl : s.look = (s', some p)) :
    Run s₀ (t ++ [.returned p (s'.packets p).view]) s' := by
  have hcall : s.call (.read [] []) = (s', [.returned p (s'.packets p).view]) := by
    rw [Proto.call, Proto.read, hl]
  have hr' := hr.call (.read [] []) trivial
  rwa [hcall] at hr'

/-- A packet is taken from the queue. -/
theorem Hearing.look {st : Station α π} {consumed : List Byte} {s' : Proto α Unit} {p : α}
    (hh : Hearing c mtu s₀ st t consumed) (hl : st.proto.look = (s', some p))
    (hpackets : s'.packets = st.proto.packets)
    (hlost : s'.lostRxFrames = st.proto.lostRxFrames) :
    Hearing c mtu s₀ { st with proto := s' } (t ++ [.returned p (s'.packets p).view]) consumed := by
  have hstored : Proto.stored (t ++ [.returned p (s'.packets p).view]) = Proto.stored t := by
    rw [stored_append]
    exact List.append_nil _
  refine ⟨hh.idle, hh.view, hh.fresh, hh.run.look hl, ?_, ?_, ?_⟩
  · rw [← hh.capacity]
    exact funext fun q => congrArg (fun packets => (packets q).packet.maxSize) hpackets
  · rw [hstored]
    exact hh.stored
  · rw [hstored]
    exact (congrArg _ hlost).trans hh.lost

/-- A packet is given to the pool. -/
theorem Hearing.addRxPool {st : Station α π} {consumed : List Byte} {p : α}
    (hh : Hearing c mtu s₀ st t consumed) (hp : p ∈ added t → p ∈ held t) :
    Hearing c mtu s₀ { st with proto := st.proto.addRxPool p } (t ++ [.added p])
      (consumed ++ []) := by
  have hstored : Proto.stored (t ++ [.added p]) = Proto.stored t := by
    rw [stored_append]
    exact List.append_nil _
  rw [List.append_nil]
  refine ⟨hh.idle, hh.view, hh.fresh, hh.run.call (.addRxPool p) hp, hh.capacity, ?_, ?_⟩
  · rw [hstored]
    exact hh.stored
  · rw [hstored]
    exact hh.lost

/-! ## Transmitting -/

variable {heap : π → IPacket} {bsize : Nat} {data : π} {timeout startTs : BitVec 32}
  {st st' : Station α π} {turns : List Turn} {traffic : Traffic α} {out payload consumed : List Byte}

theorem runLink_idle (hi : Idle st.layer) (heap : π → IPacket) (bsize : Nat) (turn : Turn) :
    Idle (runLink heap bsize st turn).1.layer ∧ (runLink heap bsize st turn).2.due = [] := by
  have hg := getData_free hi.sound hi.free (bufferOf heap) bsize
  have hlayer : (Link.runTx (bufferOf heap) st.layer bsize turn.answers).layer = st.layer :=
    congrArg Done.layer hg
  refine ⟨?_, congrArg Done.result hg⟩
  show Idle (runRx (Link.runTx (bufferOf heap) st.layer bsize turn.answers).layer _).1
  rw [hlayer]
  exact hi.runRx _

theorem runLink_underway (hu : Underway (bufferOf heap) data payload st.layer out)
    (hc : contents (bufferOf heap) data payload.length = payload) (turn : Turn) :
    Underway (bufferOf heap) data payload (runLink heap bsize st turn).1.layer
      (out ++ (runLink heap bsize st turn).2.due) :=
  (hu.getData hc bsize).runRx (turn.incoming.take bsize)

theorem runLink_stuck (hk : Stuck st.layer) (turn : Turn) :
    Stuck (runLink heap bsize st turn).1.layer :=
  (hk.getData (bufferOf heap) bsize).1.runRx (turn.incoming.take bsize)

section Sending

variable [DecidableEq π]

/-- The loop of `send` goes on when `put` reports nothing and the time is not over. -/
theorem send_step {layer : IHdlcLinkLayer π}
    (hfalse : (put (bufferOf heap) st.layer (some data) (heap data).len).result = false)
    (hlayer : (put (bufferOf heap) st.layer (some data) (heap data).len).layer = layer)
    (hs : send heap bsize data timeout startTs st turns = some (st', traffic, true)) :
    ∃ turn turns' traffic', turns = turn :: turns' ∧
      send heap bsize data timeout startTs
        (runLink heap bsize { st with layer := layer } turn).1 turns' = some (st', traffic', true) ∧
      traffic = (runLink heap bsize { st with layer := layer } turn).2.append traffic' := by
  unfold send at hs
  simp only [hfalse, hlayer, Bool.false_eq_true, if_false] at hs
  cases turns with
  | nil => cases hs
  | cons turn turns =>
    dsimp only at hs
    split at hs
    · cases hs
    · obtain ⟨⟨st₁, traffic', sent⟩, hs', heq⟩ := Option.map_eq_some_iff.mp hs
      cases heq
      exact ⟨turn, turns, traffic', rfl, hs', rfl⟩

/-- As long as the layer is full, the link runs. -/
theorem send_full (hfull : st.layer.queueFree = false)
    (hs : send heap bsize data timeout startTs st turns = some (st', traffic, true)) :
    ∃ turn turns' traffic', turns = turn :: turns' ∧
      send heap bsize data timeout startTs (runLink heap bsize st turn).1 turns' =
        some (st', traffic', true) ∧
      traffic = (runLink heap bsize st turn).2.append traffic' := by
  have hput := put_full hfull (bufferOf heap) (some data) (heap data).len
  exact send_step (congrArg Done.result hput) (congrArg Done.layer hput) hs

/-- An empty packet is never sent. -/
theorem send_stuck (hk : Stuck st.layer) :
    send heap bsize data timeout startTs st turns ≠ some (st', traffic, true) := by
  intro hs
  induction turns generalizing st traffic with
  | nil => obtain ⟨_, _, _, hnil, -⟩ := send_full hk.full hs; cases hnil
  | cons turn turns ih =>
    obtain ⟨_, _, _, hcons, hs', -⟩ := send_full hk.full hs
    cases hcons
    exact ih (runLink_stuck hk turn) hs'

/-- What a call of `send` that succeeds leaves. -/
structure Sent (c : HdlcCrc) (mtu : Int) (s₀ : Proto α Unit) (st' : Station α π)
    (t : List (Event α Unit)) (consumed : List Byte) (traffic : Traffic α) : Prop where
  idle : Idle st'.layer
  hearing : Hearing c mtu s₀ st' (t ++ traffic.events) (consumed ++ traffic.consumed)
  returned : returned traffic.events = []

omit [DecidableEq π] in
/-- The traffic behind some other traffic. -/
theorem Sent.append {traffic' : Traffic α}
    (hs : Sent c mtu s₀ st' (t ++ traffic.events) (consumed ++ traffic.consumed) traffic')
    (hret : Proto.returned traffic.events = []) :
    Sent c mtu s₀ st' t consumed (traffic.append traffic') := by
  refine ⟨hs.idle, ?_, ?_⟩
  · have hh := hs.hearing
    rwa [List.append_assoc, List.append_assoc] at hh
  · exact (returned_append ..).trans (by rw [hret, hs.returned]; rfl)

/-- When the layer is free, the frame that was under way is reported. -/
theorem send_free (hu : Underway (bufferOf heap) data payload st.layer out)
    (hh : Hearing c mtu s₀ st t consumed) (hfree : st.layer.queueFree = true) :
    ∃ st', send heap bsize data timeout startTs st turns = some (st', .none, true) ∧
      Sent c mtu s₀ st' t consumed .none ∧ out = encodeFrame c payload := by
  obtain ⟨htrue, hidle⟩ := hu.put_free hfree (bufferOf heap) (heap data).len
  obtain ⟨tx, htx⟩ := put_listens (bufferOf heap) st.layer (some data) (heap data).len
  refine ⟨{ st with layer := (put (bufferOf heap) st.layer (some data) (heap data).len).layer }, ?_,
    ⟨hidle, ?_, rfl⟩, ?_⟩
  · unfold send
    exact if_pos htrue
  · rw [show (Traffic.none : Traffic α).events = [] from rfl, List.append_nil,
      show (Traffic.none : Traffic α).consumed = [] from rfl, List.append_nil]
    exact hh.withTx htx
  · rw [hu.complete hfree, hh.idle.ok.crcType]

/-- The loop of `send` once the frame is under way: it ends with the whole frame out. -/
theorem send_underway (hc : c.stored = c)
    (hmem : contents (bufferOf heap) data payload.length = payload)
    (hu : Underway (bufferOf heap) data payload st.layer out)
    (hh : Hearing c mtu s₀ st t consumed)
    (hs : send heap bsize data timeout startTs st turns = some (st', traffic, true)) :
    Sent c mtu s₀ st' t consumed traffic ∧ out ++ traffic.due = encodeFrame c payload := by
  induction turns generalizing st out t consumed traffic with
  | nil =>
    cases hq : st.layer.queueFree with
    | true =>
      obtain ⟨_, hone, hsent, hout⟩ := send_free hu hh hq
      cases hone.symm.trans hs
      exact ⟨hsent, (List.append_nil out).trans hout⟩
    | false =>
      obtain ⟨_, _, _, hnil, -⟩ := send_full hq hs
      cases hnil
  | cons turn turns ih =>
    cases hq : st.layer.queueFree with
    | true =>
      obtain ⟨_, hone, hsent, hout⟩ := send_free hu hh hq
      cases hone.symm.trans hs
      exact ⟨hsent, (List.append_nil out).trans hout⟩
    | false =>
      obtain ⟨_, _, traffic', hcons, hs', rfl⟩ := send_full hq hs
      cases hcons
      obtain ⟨hsent, hout⟩ := ih (runLink_underway hu hmem turn) (hh.runLink hc heap bsize turn) hs'
      exact ⟨hsent.append (hh.runLink_returned heap bsize turn),
        (List.append_assoc ..).symm.trans hout⟩

/-- A call of `send` that succeeds writes the whole frame, and there is something in it. -/
theorem send_sent (hc : c.stored = c) (hi : Idle st.layer) (hh : Hearing c mtu s₀ st t consumed)
    (hmem : contents (bufferOf heap) data (heap data).len = payload)
    (hs : send heap bsize data timeout startTs st turns = some (st', traffic, true)) :
    Sent c mtu s₀ st' t consumed traffic ∧ traffic.due = encodeFrame c payload ∧ payload ≠ [] := by
  have hlen : (heap data).len = payload.length := by
    rw [← hmem, contents, List.length_map, List.length_range]
  obtain ⟨tx, htx⟩ := put_listens (bufferOf heap) st.layer (some data) (heap data).len
  obtain ⟨taken, htaken⟩ : ∃ taken : Station α π, taken =
    { st with layer := (put (bufferOf heap) st.layer (some data) (heap data).len).layer } := ⟨_, rfl⟩
  have hh' : Hearing c mtu s₀ taken t consumed := htaken ▸ hh.withTx htx
  have hlayer : taken.layer = (put (bufferOf heap) st.layer (some data) (heap data).len).layer :=
    congrArg Station.layer htaken
  rcases Nat.eq_zero_or_pos (heap data).len with hzero | hpos
  · obtain ⟨hfalse, hk⟩ := hi.put_empty (bufferOf heap) data
    rw [← hzero] at hfalse hk
    rw [← hlayer] at hk
    obtain ⟨turn, _, _, -, hs', -⟩ := send_step hfalse hlayer.symm hs
    rw [show ({ st with layer := taken.layer } : Station α π) = taken by rw [htaken]] at hs'
    exact absurd hs' (send_stuck (runLink_stuck hk turn))
  · obtain ⟨hfalse, -, hu⟩ := hi.put (bufferOf heap) data hpos
    rw [← hlayer, hmem] at hu
    obtain ⟨turn, _, traffic', -, hs', rfl⟩ := send_step hfalse hlayer.symm hs
    rw [show ({ st with layer := taken.layer } : Station α π) = taken by rw [htaken]] at hs' ⊢
    rw [hlen] at hmem
    obtain ⟨hsent, hout⟩ := send_underway hc hmem (runLink_underway hu hmem turn)
      (hh'.runLink hc heap bsize turn) hs'
    refine ⟨hsent.append (hh'.runLink_returned heap bsize turn), hout, ?_⟩
    exact List.ne_nil_of_length_pos (hlen ▸ hpos)

end Sending

/-- A call of `read` transmits nothing, and returns at most one packet. -/
theorem receive_sent (hc : c.stored = c) {p : Option α} (hi : Idle st.layer)
    (hh : Hearing c mtu s₀ st t consumed)
    (hr : receive heap bsize timeout startTs st turns = some (st', traffic, p)) :
    Idle st'.layer ∧
      Hearing c mtu s₀ st' (t ++ traffic.events) (consumed ++ traffic.consumed) ∧
      traffic.due = [] ∧
      (returned traffic.events).map (·.2) = p.toList.map fun p => (st'.proto.packets p).view := by
  induction turns generalizing st t consumed traffic with
  | nil =>
    rcases look_cases st.proto with hl | ⟨s', q, hl, hpackets, hlost⟩
    · rw [receive, hl] at hr
      cases hr
    · rw [receive, hl] at hr
      cases hr
      rw [List.append_nil]
      exact ⟨hi, hh.look hl hpackets hlost, rfl, rfl⟩
  | cons turn turns ih =>
    rcases look_cases st.proto with hl | ⟨s', q, hl, hpackets, hlost⟩
    · obtain ⟨hi', hdue⟩ := runLink_idle hi heap bsize turn
      have hh' := hh.runLink hc heap bsize turn
      have hret := hh.runLink_returned heap bsize turn
      rw [receive, hl] at hr
      dsimp only at hr
      split at hr
      · cases hr
        exact ⟨hi', hh', hdue, by rw [hret]; rfl⟩
      · obtain ⟨⟨st₁, traffic', p'⟩, hr', heq⟩ := Option.map_eq_some_iff.mp hr
        cases heq
        obtain ⟨hi'', hh'', hdue', hret'⟩ := ih hi' hh' hr'
        rw [List.append_assoc, List.append_assoc] at hh''
        refine ⟨hi'', hh'', ?_, ?_⟩
        · exact (congrArg₂ (· ++ ·) hdue hdue').trans (List.append_nil _)
        · show (returned (_ ++ traffic'.events)).map _ = _
          rw [returned_append, hret]
          exact hret'
    · rw [receive, hl] at hr
      cases hr
      rw [List.append_nil]
      exact ⟨hi, hh.look hl hpackets hlost, rfl, rfl⟩

/-! ## Programs -/

/-- The bytes of a message. -/
def message (fs : List Field) : List Byte := fs.flatMap Field.encode

/-- A packet with the fields in it. -/
theorem Holds.contents {fs : List Field} (hp : Holds (heap data) fs) :
    Link.contents (bufferOf heap) data (heap data).len = message fs ∧
      (message fs).length = totalSize fs := by
  obtain ⟨pkt₀, hroom, hlast, hput⟩ := hp
  have hclear : pkt₀.clear.maxSize = pkt₀.maxSize := rfl
  have hzero : pkt₀.clear.len = 0 := rfl
  obtain ⟨pkt', hput', hwrote⟩ := @putAll_wrote pkt₀.clear fs
    (by rw [hzero, hclear, Nat.zero_add]; exact hroom) (by rw [hzero, hclear]; exact hlast)
  cases hput'.symm.trans hput
  have hlen : (heap data).len = (message fs).length := by rw [hwrote.len, hzero, Nat.zero_add]; rfl
  have hpayload : (heap data).buf.take (heap data).len = message fs := hwrote.payload
  refine ⟨?_, length_flatMap_encode fs⟩
  have hle : (heap data).len ≤ (heap data).buf.length := by
    have hl := congrArg List.length hpayload
    rw [List.length_take, ← hlen] at hl
    omega
  rw [← hpayload]
  refine List.ext_getElem (by simp [Link.contents, hle]) fun i hi hi' => ?_
  have hlt : i < (heap data).buf.length := by
    rw [List.length_take] at hi'
    omega
  simp [Link.contents, bufferOf, hlt]

/-- What a program has done so far. -/
structure Standing (c : HdlcCrc) (mtu : Int) (s₀ : Proto α Unit) (st : Station α π) (log : Log α) :
    Prop where
  idle : Idle st.layer
  hearing : Hearing c mtu s₀ st log.traffic.events log.traffic.consumed
  due : log.traffic.due = (log.sent.map message).flatMap (encodeFrame c)
  nonempty : ∀ fs ∈ log.sent, message fs ≠ []
  got : (returned log.traffic.events).map (·.2) = log.got.map RxPacket.view

/-- A program keeps it. -/
theorem Program.standing [DecidableEq π] {st₀ : Station α π} {sz : StructSizes}
    {init : HdlcLlInit} {log : Log α} (hb : Link.begin sz init = some st₀.layer)
    (hf : st₀.proto.Fresh) (hp : Program bsize st₀ log st) :
    Standing st₀.layer.handle.crcType st₀.layer.handle.physMtu st₀.proto st log := by
  obtain ⟨hidle, hrx, hview⟩ := begin_idle hb
  have hc := hidle.sound.stored
  induction hp with
  | start =>
    exact ⟨hidle, ⟨hrx, hview, hf, .start, rfl, .slnil, rfl⟩, rfl, fun _ h => (nomatch h), rfl⟩
  | addRxPool hp p hpool ih =>
    refine ⟨ih.idle, ih.hearing.addRxPool hpool, ?_, ih.nonempty, ?_⟩
    · exact (List.append_nil _).trans ih.due
    · show (returned (_ ++ [.added p])).map _ = _
      rw [returned_append]
      exact (congrArg _ (List.append_nil _)).trans ih.got
  | send hp hholds hs ih =>
    obtain ⟨hmem, -⟩ := hholds.contents
    obtain ⟨hsent, hdue, hne⟩ := send_sent hc ih.idle ih.hearing hmem hs
    refine ⟨hsent.idle, hsent.hearing, ?_, fun fs hfs => ?_, ?_⟩
    · rw [List.map_append, List.flatMap_append, ← ih.due]
      exact congrArg _ (hdue.trans (List.append_nil _).symm)
    · rcases List.mem_append.mp hfs with hfs | hfs
      · exact ih.nonempty fs hfs
      · rwa [List.mem_singleton.mp hfs]
    · show (returned (_ ++ _)).map _ = _
      rw [returned_append, hsent.returned]
      exact (congrArg _ (List.append_nil _)).trans ih.got
  | read hp hr ih =>
    obtain ⟨hi, hh, hdue, hret⟩ := receive_sent hc ih.idle ih.hearing hr
    refine ⟨hi, hh, ?_, ih.nonempty, ?_⟩
    · exact (congrArg _ hdue).trans ((List.append_nil _).trans ih.due)
    · show (returned (_ ++ _)).map _ = _
      rw [returned_append, List.map_append, List.map_append, ih.got, hret, List.map_map]
      rfl

/-- When the queue is empty, as many packets were read as frames were heard and not lost. -/
theorem Standing.count {log : Log α} (hs : Standing c mtu s₀ st log)
    (hlost : st.proto.lostRxFrames = s₀.lostRxFrames) (hempty : st.proto.queue = none) :
    log.got.length = (heard c mtu log.traffic.consumed).length := by
  obtain ⟨ps, qs, ha⟩ := hs.hearing.accounted
  have hqs : qs = [] := List.head?_eq_none_iff.mp (ha.queue.head_eq.symm.trans hempty)
  have horder := congrArg List.length ha.order
  have hgot := congrArg List.length hs.got
  have hcount := hs.hearing.lost
  rw [hqs, List.map_nil, List.append_nil, List.length_map] at horder
  rw [List.length_map, List.length_map] at hgot
  omega

/-- A new station whose packets have room for 8 bytes. -/
def exampleStation : Station Nat (List Byte) where
  proto :=
    { links := ⟨fun _ => none, fun _ => none⟩, packets := fun _ => ⟨⟨List.replicate 8 0, 0, 0⟩, none⟩
      pool := none, queue := none, last := none, onRx := false, lostRxFrames := 0 }
  layer := exampleLayer

/-- A packet with a byte and a word. -/
def examplePacket : IPacket := ⟨[0x32, 0x24, 0x16, 0, 0, 0, 0, 0], 3, 0⟩

theorem examplePacket_holds : Holds examplePacket [.byte 0x32, .uint16 0x1624] :=
  ⟨⟨List.replicate 8 0, 0, 0⟩, by decide, fun h => absurd h.1 (by decide), rfl⟩

section Returns

variable [DecidableEq π]

/-- The loop of `send` with a turn in time, when `put` reports nothing. -/
theorem send_early {layer : IHdlcLinkLayer π} {turn : Turn} {r : Station α π × Traffic α × Bool}
    (hfalse : (put (bufferOf heap) st.layer (some data) (heap data).len).result = false)
    (hlayer : (put (bufferOf heap) st.layer (some data) (heap data).len).layer = layer)
    (hearly : ¬timeout ≤ turn.now - startTs)
    (hs : send heap bsize data timeout startTs
      (runLink heap bsize { st with layer := layer } turn).1 turns = some r) :
    ∃ traffic, send heap bsize data timeout startTs st (turn :: turns) =
      some (r.1, traffic, r.2.2) := by
  unfold send
  simp only [hfalse, hlayer, Bool.false_eq_true, if_false, if_neg hearly, hs]
  exact ⟨_, rfl⟩

/-- With a turn that is late. -/
theorem send_late {turn : Turn}
    (hfalse : (put (bufferOf heap) st.layer (some data) (heap data).len).result = false)
    (hlate : timeout ≤ turn.now - startTs) :
    ∃ st', send heap bsize data timeout startTs st (turn :: turns) =
      some (st', Traffic.none, false) := by
  unfold send
  simp only [hfalse, Bool.false_eq_true, if_false, if_pos hlate]
  exact ⟨_, rfl⟩

/-- An empty packet keeps `send` waiting. -/
theorem send_empty {layer : IHdlcLinkLayer π} {late : Turn}
    (hfalse : (put (bufferOf heap) st.layer (some data) (heap data).len).result = false)
    (hlayer : (put (bufferOf heap) st.layer (some data) (heap data).len).layer = layer)
    (hk : Stuck layer) {early : List Turn} (hearly : ∀ turn ∈ early, ¬timeout ≤ turn.now - startTs)
    (hlate : timeout ≤ late.now - startTs) :
    ∃ st' traffic, send heap bsize data timeout startTs st (early ++ late :: turns) =
      some (st', traffic, false) := by
  induction early generalizing st layer with
  | nil =>
    obtain ⟨st', hs⟩ := @send_late _ _ _ _ bsize _ _ _ _ turns _ _ hfalse hlate
    exact ⟨st', _, hs⟩
  | cons turn early ih =>
    have hk' : Stuck (runLink heap bsize { st with layer := layer } turn).1.layer :=
      runLink_stuck hk turn
    have hput := put_full hk'.full (bufferOf heap) (some data) (heap data).len
    obtain ⟨st', traffic, hs⟩ := ih (congrArg Done.result hput) (congrArg Done.layer hput) hk'
      fun turn ht => hearly turn (List.mem_cons_of_mem _ ht)
    obtain ⟨traffic', hs'⟩ := send_early hfalse hlayer (hearly turn List.mem_cons_self) hs
    exact ⟨st', traffic', hs'⟩

/-- The loop of `send` from a full layer on.  Each turn returns a block of the frame, and the call
succeeds when the blocks of the turns in time hold what is left of it. -/
theorem send_turns (hc : c.stored = c) {layer : IHdlcLinkLayer π} {late : Turn}
    (hmem : contents (bufferOf heap) data payload.length = payload)
    (hfalse : (put (bufferOf heap) st.layer (some data) (heap data).len).result = false)
    (hlayer : (put (bufferOf heap) st.layer (some data) (heap data).len).layer = layer)
    (hu : Underway (bufferOf heap) data payload layer out) (hfull : layer.queueFree = false)
    (hh : Hearing c mtu s₀ { st with layer := layer } t consumed)
    {early : List Turn} (hearly : ∀ turn ∈ early, ¬timeout ≤ turn.now - startTs)
    (hlate : timeout ≤ late.now - startTs) :
    ∃ st' traffic, send heap bsize data timeout startTs st (early ++ late :: turns) =
      some (st', traffic,
        decide ((encodeFrame c payload).length ≤ out.length + early.length * bsize)) := by
  induction early generalizing st layer out t consumed with
  | nil =>
    obtain ⟨st', hs⟩ := @send_late _ _ _ _ bsize _ _ _ _ turns _ _ hfalse hlate
    have hno : ¬(encodeFrame c payload).length ≤ out.length + 0 * bsize := by
      have hlt := hu.length_lt hmem hfull
      rw [show layer.handle.crcType = c from hh.idle.ok.crcType] at hlt
      omega
    rw [List.length_nil, decide_eq_false hno]
    exact ⟨st', _, hs⟩
  | cons turn early ih =>
    obtain ⟨rest, -, hrest, htake⟩ := hu.block hmem hfull bsize
    obtain ⟨next, hnext⟩ : ∃ next, runLink heap bsize { st with layer := layer } turn = next :=
      ⟨_, rfl⟩
    have hu' : Underway (bufferOf heap) data payload next.1.layer (out ++ next.2.due) :=
      hnext ▸ runLink_underway hu hmem turn
    have hh' := hh.runLink hc heap bsize turn
    rw [hnext] at hh'
    have hdue : next.2.due = rest.take bsize := hnext ▸ htake
    rw [show layer.handle.crcType = c from hh.idle.ok.crcType] at hrest
    have hlen := congrArg List.length hrest
    have hblock := congrArg List.length hdue
    rw [List.length_append] at hlen
    rw [List.length_take] at hblock
    have hin := hearly turn List.mem_cons_self
    cases hfree : next.1.layer.queueFree with
    | true =>
      obtain ⟨st', hs, -, hout⟩ := send_free hu' hh' hfree
      rw [← hnext] at hs
      obtain ⟨traffic, hs'⟩ := send_early hfalse hlayer hin hs
      have hyes : (encodeFrame c payload).length ≤
          out.length + (turn :: early).length * bsize := by
        rw [← hout, List.length_append, List.length_cons, Nat.succ_mul]
        omega
      rw [decide_eq_true hyes]
      exact ⟨st', traffic, hs'⟩
    | false =>
      have hput := put_full hfree (bufferOf heap) (some data) (heap data).len
      obtain ⟨st', traffic, hs⟩ := ih (congrArg Done.result hput) (congrArg Done.layer hput) hu'
        hfree hh' fun turn ht => hearly turn (List.mem_cons_of_mem _ ht)
      rw [← hnext] at hs
      obtain ⟨traffic', hs'⟩ := send_early hfalse hlayer hin hs
      have hlt := hu'.length_lt hmem hfree
      rw [show next.1.layer.handle.crcType = c from hh'.idle.ok.crcType, List.length_append] at hlt
      have hsame : (encodeFrame c payload).length ≤ (out ++ next.2.due).length +
          early.length * bsize ↔ (encodeFrame c payload).length ≤
            out.length + (turn :: early).length * bsize := by
        rw [List.length_append, List.length_cons, Nat.succ_mul]
        omega
      rw [← decide_eq_decide.mpr hsame]
      rw [hnext] at hs'
      exact ⟨st', traffic', hs'⟩

/-- Every call of `send` returns, at the latest with the first turn that is late.  It succeeds if and
only if there is a field in the packet and the turns in time are enough for the blocks of the
frame. -/
theorem send_returns {sz : StructSizes} {init : HdlcLlInit} {st₀ : Station α π} {log : Log α}
    (hb : Link.begin sz init = some st₀.layer) (hf : st₀.proto.Fresh)
    (hp : Program bsize st₀ log st) {fs : List Field} (hholds : Holds (heap data) fs)
    {early : List Turn} {late : Turn} (hearly : ∀ turn ∈ early, ¬timeout ≤ turn.now - startTs)
    (hlate : timeout ≤ late.now - startTs) (turns : List Turn) :
    ∃ st' traffic, send heap bsize data timeout startTs st (early ++ late :: turns) =
      some (st', traffic, decide (fs ≠ [] ∧
        (encodeFrame st₀.layer.handle.crcType (message fs)).length ≤ early.length * bsize)) := by
  obtain ⟨hidle, hh, -⟩ := hp.standing hb hf
  have hc := (begin_idle hb).1.sound.stored
  obtain ⟨hmem, hsize⟩ := hholds.contents
  have hlen : (heap data).len = totalSize fs := by
    rw [← hsize, ← hmem, contents, List.length_map, List.length_range]
  obtain ⟨tx, htx⟩ := put_listens (bufferOf heap) st.layer (some data) (heap data).len
  have hh' := hh.withTx htx
  by_cases hnil : fs = []
  · have hzero : (heap data).len = 0 := by rw [hlen, hnil]; rfl
    obtain ⟨hfalse, hk⟩ := hidle.put_empty (bufferOf heap) data
    rw [← hzero] at hfalse hk
    rw [decide_eq_false fun h => h.1 hnil]
    exact send_empty hfalse rfl hk hearly hlate
  · have hpos : 0 < (heap data).len := by
      rw [hlen]
      exact Nat.pos_of_ne_zero fun h => hnil (totalSize_eq_zero h)
    obtain ⟨hfalse, hfull, hu⟩ := hidle.put (bufferOf heap) data hpos
    rw [hmem] at hu
    rw [hlen, ← hsize] at hmem
    have hiff : (encodeFrame st₀.layer.handle.crcType (message fs)).length ≤
        ([] : List Byte).length + early.length * bsize ↔ fs ≠ [] ∧
          (encodeFrame st₀.layer.handle.crcType (message fs)).length ≤ early.length * bsize := by
      rw [List.length_nil, Nat.zero_add]
      exact ⟨fun h => ⟨hnil, h⟩, fun h => h.2⟩
    rw [← decide_eq_decide.mpr hiff]
    exact send_turns hc hmem hfalse rfl hu hfull hh' hearly hlate

/-- A frame of 7 bytes does not get out in one block of 4. -/
theorem send_returns_late :
    ∃ st' traffic, send (fun _ => examplePacket) 4 [] 100 0 exampleStation
      ([⟨99, [4], []⟩] ++ ⟨100, [], []⟩ :: []) = some (st', traffic, false) :=
  @send_returns _ _ _ (fun _ => examplePacket) 4 [] 100 0 exampleStation _ .linux64
    { buf := 4096, bufSize := 160, crcType := .crc16, mtu := 8 } exampleStation _ rfl
    ⟨rfl, rfl, rfl, rfl⟩ .start _ examplePacket_holds [⟨99, [4], []⟩] ⟨100, [], []⟩ (by decide)
    (by decide) []

end Returns

end TinyProto.Proto
