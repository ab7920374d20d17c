import TinyProto.Proto.Packet
import TinyProto.Lib.LinkedList

/-!
# The packet pool

`Proto` of `TinyProtocol.cpp` keeps the packets it may receive into in a pool and those with a
frame in a queue.  Both are lists over the links of the packets, the pool is used from the front,
and the queue is known by its first and its last packet.

No packet gets lost between the pool, the queue and the application, and the frames are read in
the order they arrived in (`pool_conserved`).  A packet with a buffer of its own gets as much of
the frame as it takes, and one without gets the buffer of the frame itself.
-/

namespace TinyProto

open LinkedList

variable {α β : Type}

/-! ## State -/

/-- A received frame: the buffer it is in, and its bytes. -/
structure Proto.Frame (β : Type) where
  buf : β
  bytes : List Byte

/-- A packet as the pool has it.  Its links are apart. -/
structure Proto.RxPacket (β : Type) where
  packet : IPacket
  /-- `m_buf` of a packet without a buffer of its own. -/
  frame : Option β

/-- The fields of `Proto` for reception, and the packets. -/
structure Proto (α β : Type) where
  /-- `m_next` and `m_prev` of the packets. -/
  links : Links α
  packets : α → Proto.RxPacket β
  pool : Option α
  queue : Option α
  last : Option α
  /-- A callback is set. -/
  onRx : Bool
  lostRxFrames : Nat

namespace Proto

/-- What becomes of a frame. -/
inductive Arrival (α : Type) where
  | callback
  | lost
  | stored (p : α)
deriving DecidableEq

/-- The frame is put into a packet. -/
def RxPacket.receive (m : RxPacket β) (f : Frame β) : RxPacket β :=
  if m.packet.maxSize = 0 then
    { packet := { m.packet with len := f.bytes.length, p := 0 }, frame := some f.buf }
  else
    let len := if m.packet.maxSize < f.bytes.length then m.packet.maxSize else f.bytes.length
    { m with packet := { buf := f.bytes.take len ++ m.packet.buf.drop len, len := len, p := 0 } }

/-! ## Histories -/

/-- What the application finds in a packet. -/
inductive View (β : Type) where
  | bytes (bs : List Byte)
  | frame (buf : Option β) (len : Nat)
deriving DecidableEq

/-- What is in a packet. -/
def RxPacket.view (m : RxPacket β) : View β :=
  if m.packet.maxSize = 0 then .frame m.frame m.packet.len else .bytes m.packet.unread

/-- What happens to the packets. -/
inductive Event (α β : Type) where
  | added (p : α)
  | arrived (f : Frame β) (arrival : Arrival α)
  | returned (p : α) (view : View β)

variable {t : List (Event α β)}

def Event.added? : Event α β → Option α
  | .added p => some p
  | _ => none

def Event.stored? : Event α β → Option (α × Frame β)
  | .arrived f (.stored p) => some (p, f)
  | _ => none

def Event.returned? : Event α β → Option (α × View β)
  | .returned p view => some (p, view)
  | _ => none

/-- The packets that were added. -/
def added (t : List (Event α β)) : List α := t.filterMap Event.added?

/-- The frames that were put into a packet. -/
def stored (t : List (Event α β)) : List (α × Frame β) := t.filterMap Event.stored?

/-- The packets `read` returned, and what was in them. -/
def returned (t : List (Event α β)) : List (α × View β) := t.filterMap Event.returned?

/-- The packets the application got from `read` and has not added again. -/
def held [DecidableEq α] (t : List (Event α β)) : List α :=
  t.foldl (fun held event =>
    match event with
    | .added p => held.erase p
    | .returned p _ => p :: held
    | .arrived _ _ => held) []

theorem added_concat (e : Event α β) : added (t ++ [e]) = added t ++ e.added?.toList := by
  cases h : e.added? <;> simp [added, h]

theorem stored_concat (e : Event α β) : stored (t ++ [e]) = stored t ++ e.stored?.toList := by
  cases h : e.stored? <;> simp [stored, h]

theorem returned_concat (e : Event α β) :
    returned (t ++ [e]) = returned t ++ e.returned?.toList := by
  cases h : e.returned? <;> simp [returned, h]

variable [DecidableEq α]

theorem held_added (p : α) : held (t ++ [.added p]) = (held t).erase p := by
  simp [held]

theorem held_returned (p : α) (view : View β) : held (t ++ [.returned p view]) = p :: held t := by
  simp [held]

theorem held_arrived (f : Frame β) (arrival : Arrival α) :
    held (t ++ [.arrived f arrival]) = held t := by
  simp [held]

/-! ## Functions -/

/-- `Proto::onRead`. -/
def onRead (s : Proto α β) (f : Frame β) : Proto α β × Arrival α :=
  if s.onRx then (s, .callback)
  else
    match s.pool with
    | none => ({ s with lostRxFrames := s.lostRxFrames + 1 }, .lost)
    | some p =>
        -- Remove from pool.
        let pool := s.links.next p
        let links := s.links.setPrev pool none
        -- Add to rx queue.
        let links := links.setNext (some p) none
        let links := links.setPrev (some p) s.last
        let links := links.setNext s.last (some p)
        let queue := if s.queue = none then some p else s.queue
        ({ s with
            links := links, pool := pool, queue := queue, last := some p
            packets := Function.update s.packets p ((s.packets p).receive f) }, .stored p)

/-- `Proto::addRxPool`. -/
def addRxPool (s : Proto α β) (p : α) : Proto α β :=
  let links := s.links.setNext (some p) s.pool
  let links := links.setPrev (some p) none
  let links := links.setPrev s.pool (some p)
  { s with links := links, pool := some p }

/-- `Proto::release`. -/
def release (s : Proto α β) (p : α) : Proto α β := s.addRxPool p

/-- The locked section of `Proto::read`. -/
def look (s : Proto α β) : Proto α β × Option α :=
  match s.queue with
  | none => (s, none)
  | some p =>
      let queue := s.links.next p
      ({ s with
          queue := queue, links := s.links.setPrev queue none
          last := if queue = none then none else s.last }, some p)

/-! ## Calls -/

/-- A call of the application or the link layer. -/
inductive Call (α β : Type) where
  | addRxPool (p : α)
  | release (p : α)
  | onRead (f : Frame β)
  /-- The frames that arrive after each look at the queue that finds nothing. -/
  | read (arrivals : List (Frame β)) (rounds : List (List (Frame β)))

/-- Frames arriving one after another. -/
def onReads (s : Proto α β) : List (Frame β) → Proto α β × List (Event α β)
  | [] => (s, [])
  | f :: fs =>
      let (s, arrival) := s.onRead f
      let (s, events) := s.onReads fs
      (s, .arrived f arrival :: events)

/-- `Proto::read`.  It looks at the queue at least once and stops with the timeout. -/
def read (s : Proto α β) (arrivals : List (Frame β)) :
    List (List (Frame β)) → Proto α β × List (Event α β) × Option α
  | [] =>
      match s.look with
      | (s', some p) => (s', [.returned p (s'.packets p).view], some p)
      | (s', none) =>
          let (s', events) := s'.onReads arrivals
          (s', events, none)
  | arrivals' :: rounds =>
      match s.look with
      | (s', some p) => (s', [.returned p (s'.packets p).view], some p)
      | (s', none) =>
          let (s', events) := s'.onReads arrivals
          let (s', events', p) := s'.read arrivals' rounds
          (s', events ++ events', p)

/-- A call, and what happens in it. -/
def call (s : Proto α β) : Call α β → Proto α β × List (Event α β)
  | .addRxPool p => (s.addRxPool p, [.added p])
  | .release p => (s.release p, [.added p])
  | .onRead f =>
      let (s, arrival) := s.onRead f
      (s, [.arrived f arrival])
  | .read arrivals rounds =>
      let (s, events, _) := s.read arrivals rounds
      (s, events)

/-! ## Conservation -/

/-- What a packet with this capacity gets of a frame. -/
def Frame.seenBy (f : Frame β) (capacity : Nat) : View β :=
  if capacity = 0 then .frame (some f.buf) f.bytes.length else .bytes (f.bytes.take capacity)

/-- The capacity of a packet. -/
def capacity (s : Proto α β) (p : α) : Nat := (s.packets p).packet.maxSize

/-- Where the packets and the frames are after a history. -/
structure Account (s : Proto α β) (t : List (Event α β)) (ps qs : List α) : Prop where
  onRx : s.onRx = false
  pool : Linked s.links none s.pool ps
  queue : Linked s.links none s.queue qs
  last : s.last = qs.getLast?
  disjoint : (ps ++ qs ++ held t).Nodup
  covers : ∀ p, p ∈ added t ↔ p ∈ ps ++ qs ++ held t
  order : returned t ++ qs.map (fun p => (p, (s.packets p).view)) =
    (stored t).map fun r => (r.1, r.2.seenBy (s.capacity r.1))

variable {s : Proto α β} {ps qs : List α} {p : α}

/-- The three parts have no packet in common. -/
theorem Account.parts (h : Account s t ps qs) :
    ps.Nodup ∧ qs.Nodup ∧ (∀ x ∈ ps, x ∉ qs) ∧ ∀ x ∈ ps ++ qs, x ∉ held t := by
  obtain ⟨hpq, hh, hd⟩ := List.nodup_append'.mp h.disjoint
  obtain ⟨hp, hq, hd'⟩ := List.nodup_append'.mp hpq
  exact ⟨hp, hq, fun x hx => hd' hx, fun x hx => hd hx⟩

theorem RxPacket.maxSize_receive (m : RxPacket β) (f : Frame β) :
    (m.receive f).packet.maxSize = m.packet.maxSize := by
  unfold receive
  split
  · rfl
  · obtain ⟨n, hn⟩ : ∃ n, (if m.packet.maxSize < f.bytes.length then m.packet.maxSize
        else f.bytes.length) = n := ⟨_, rfl⟩
    have hle : n ≤ m.packet.buf.length ∧ n ≤ f.bytes.length := by
      rw [← hn, ← IPacket.maxSize]
      split <;> omega
    simp only [hn]
    simp only [IPacket.maxSize, List.length_append, List.length_take, List.length_drop]
    omega

theorem RxPacket.view_receive (m : RxPacket β) (f : Frame β) :
    (m.receive f).view = f.seenBy m.packet.maxSize := by
  unfold view
  rw [m.maxSize_receive]
  unfold Frame.seenBy receive
  split
  · rfl
  · refine congrArg View.bytes ?_
    obtain ⟨n, hn⟩ : ∃ n, (if m.packet.maxSize < f.bytes.length then m.packet.maxSize
        else f.bytes.length) = n := ⟨_, rfl⟩
    have htake : f.bytes.take n = f.bytes.take m.packet.maxSize := by
      rw [← hn]
      split
      · rfl
      · next hge =>
        rw [List.take_of_length_le (Nat.le_refl _), List.take_of_length_le (Nat.not_lt.mp hge)]
    have hlen : (f.bytes.take n).length = n := by
      rw [List.length_take, ← hn]
      split <;> omega
    simp only [hn, IPacket.unread, IPacket.payload, List.drop_zero]
    rw [List.take_append_of_le_length (Nat.le_of_eq hlen.symm), List.take_of_length_le
      (Nat.le_of_eq hlen), htake]

theorem Account.addRxPool (h : Account s t ps qs) (hp : p ∈ added t → p ∈ held t) :
    Account (s.addRxPool p) (t ++ [.added p]) (p :: ps) qs := by
  obtain ⟨hpd, hqd, hpq, hheld⟩ := h.parts
  have hout : p ∉ ps ++ qs := fun hm =>
    hheld p hm (hp ((h.covers p).mpr (List.mem_append_left _ hm)))
  obtain ⟨hps, hqs⟩ := not_or.mp (mt List.mem_append.mpr hout)
  have hne : ∀ x ∈ qs, some p ≠ some x := fun x hx he => hqs (Option.some.inj he ▸ hx)
  have hparts : p ∈ held t ∧ (p :: ps ++ qs ++ (held t).erase p).Perm (ps ++ qs ++ held t) ∨
      p ∉ held t ∧ p :: ps ++ qs ++ (held t).erase p = p :: (ps ++ qs ++ held t) := by
    by_cases hm : p ∈ held t
    · refine .inl ⟨hm, ?_⟩
      rw [List.cons_append, List.cons_append]
      exact List.perm_middle.symm.trans ((List.perm_cons_erase hm).symm.append_left _)
    · refine .inr ⟨hm, ?_⟩
      rw [List.erase_of_not_mem hm]
      rfl
  refine ⟨h.onRx, h.pool.push hpd hps, ?_, h.last, ?_, fun x => ?_, ?_⟩
  · exact ((h.queue.setNext hne _).setPrev hne _).setPrev (h.pool.head_ne hpq) _
  · rw [held_added]
    rcases hparts with ⟨-, hperm⟩ | ⟨hm, heq⟩
    · exact hperm.nodup_iff.mpr h.disjoint
    · rw [heq]
      refine List.nodup_cons.mpr ⟨fun hmem => ?_, h.disjoint⟩
      exact (List.mem_append.mp hmem).elim hout hm
  · rw [held_added, added_concat, List.mem_append, h.covers]
    rcases hparts with ⟨hm, hperm⟩ | ⟨hm, heq⟩
    · rw [hperm.mem_iff]
      refine ⟨fun hx => hx.elim id fun hx => ?_, .inl⟩
      rw [List.mem_singleton.mp hx]
      exact List.mem_append_right _ hm
    · rw [heq, List.mem_cons, or_comm]
      exact or_congr_left List.mem_singleton
  · rw [returned_concat, stored_concat]
    show (returned t ++ []) ++ _ = (stored t ++ []).map _
    rw [List.append_nil, List.append_nil]
    exact h.order

/-- With no packet in the pool a frame is lost. -/
theorem Account.lost (h : Account s t [] qs) (f : Frame β) :
    (s.onRead f).2 = .lost ∧ Account (s.onRead f).1 (t ++ [.arrived f .lost]) [] qs := by
  have hpool : s.pool = none := h.pool
  have hread : s.onRead f = ({ s with lostRxFrames := s.lostRxFrames + 1 }, .lost) := by
    simp [onRead, h.onRx, hpool]
  rw [hread]
  refine ⟨rfl, h.onRx, h.pool, h.queue, h.last, ?_, fun x => ?_, ?_⟩
  · rw [held_arrived]
    exact h.disjoint
  · rw [held_arrived, added_concat]
    show x ∈ added t ++ [] ↔ _
    rw [List.append_nil]
    exact h.covers x
  · rw [returned_concat, stored_concat]
    show (returned t ++ []) ++ _ = (stored t ++ []).map _
    rw [List.append_nil, List.append_nil]
    exact h.order

/-- The first packet of the pool goes behind the queue. -/
theorem Account.stored (h : Account s t (p :: ps) qs) (f : Frame β) :
    (s.onRead f).2 = .stored p ∧
      Account (s.onRead f).1 (t ++ [.arrived f (.stored p)]) ps (qs ++ [p]) := by
  obtain ⟨hpd, hqd, hpq, hheld⟩ := h.parts
  obtain ⟨hp, hps⟩ := List.nodup_cons.mp hpd
  have hpool : s.pool = some p := h.pool.1
  have hp' : p ∉ qs := hpq p List.mem_cons_self
  have hpop := h.pool.pop hpd
  -- The queue is as it was when the packet has left the pool.
  have hqueue := h.queue.setPrev (hpop.head_ne fun x hx => hpq x (List.mem_cons_of_mem _ hx)) none
  have hq : (if s.queue = none then some p else s.queue) = s.queue.or (some p) := by
    cases s.queue <;> rfl
  have hlast : qs.getLast?.or none = s.last := by rw [Option.or_none, h.last]
  have hread : s.onRead f =
      ({ s with
          links := (((s.links.setPrev (s.links.next p) none).setNext (some p) none).setPrev
            (some p) s.last).setNext s.last (some p)
          pool := s.links.next p, queue := s.queue.or (some p), last := some p
          packets := Function.update s.packets p ((s.packets p).receive f) }, .stored p) := by
    simp [onRead, h.onRx, hpool, hq]
  have hne : ∀ x ∈ ps, some p ≠ some x := fun x hx he => hp (Option.some.inj he ▸ hx)
  have hnel : ∀ x ∈ ps, s.last ≠ some x := by
    intro x hx he
    rw [h.last] at he
    exact hpq x (List.mem_cons_of_mem _ hx) (List.mem_of_getLast? he)
  have hperm : (ps ++ (qs ++ [p]) ++ held t).Perm (p :: ps ++ qs ++ held t) := by
    refine List.Perm.append_right _ ?_
    rw [← List.append_assoc, List.cons_append]
    exact List.perm_append_singleton p (ps ++ qs)
  rw [hread]
  refine ⟨rfl, h.onRx, ?_, ?_, ?_, ?_, fun x => ?_, ?_⟩
  · exact ((hpop.setNext hne none).setPrev hne _).setNext hnel _
  · have happ := hqueue.append hqd hp'
    rwa [hlast, ← h.last] at happ
  · exact (List.getLast?_concat ..).symm
  · rw [held_arrived]
    exact hperm.nodup_iff.mpr h.disjoint
  · rw [held_arrived, hperm.mem_iff, ← h.covers, added_concat]
    show x ∈ added t ++ [] ↔ _
    rw [List.append_nil]
  · rw [returned_concat, stored_concat]
    show (returned t ++ []) ++ (qs ++ [p]).map _ = (Proto.stored t ++ [(p, f)]).map _
    have hqs : qs.map (fun x => (x, (Function.update s.packets p ((s.packets p).receive f) x).view)) =
        qs.map fun x => (x, (s.packets x).view) := by
      refine List.map_congr_left fun x hx => ?_
      rw [Function.update_of_ne fun he : x = p => hp' (he ▸ hx)]
    have hcap : ∀ x, (Function.update s.packets p ((s.packets p).receive f) x).packet.maxSize =
        s.capacity x := by
      intro x
      by_cases hx : x = p
      · rw [hx, Function.update_self]
        exact RxPacket.maxSize_receive ..
      · rw [Function.update_of_ne hx]
        rfl
    simp only [capacity, hcap]
    rw [List.append_nil, List.map_append, List.map_append, hqs, ← List.append_assoc, h.order]
    simp only [List.map_singleton, Function.update_self, RxPacket.view_receive]
    rfl

/-- The first packet of the queue goes to the application. -/
theorem Account.look (h : Account s t ps (p :: qs)) :
    s.look.2 = some p ∧
      Account s.look.1 (t ++ [.returned p (s.look.1.packets p).view]) ps qs := by
  obtain ⟨hpd, hqd, hpq, hheld⟩ := h.parts
  have hqueue : s.queue = some p := h.queue.1
  have hlook : s.look =
      ({ s with
          queue := s.links.next p, links := s.links.setPrev (s.links.next p) none
          last := if s.links.next p = none then none else s.last }, some p) := by
    simp [Proto.look, hqueue]
  have hpop := h.queue.pop hqd
  have hperm : (ps ++ qs ++ p :: held t).Perm (ps ++ p :: qs ++ held t) := by
    refine List.perm_middle.trans ?_
    rw [← List.cons_append]
    exact List.Perm.append_right _ List.perm_middle.symm
  rw [hlook]
  refine ⟨rfl, h.onRx, ?_, hpop, ?_, ?_, fun x => ?_, ?_⟩
  · refine h.pool.setPrev (hpop.head_ne fun x hx hx' => ?_) _
    exact hpq x hx' (List.mem_cons_of_mem _ hx)
  · show (if s.links.next p = none then none else s.last) = qs.getLast?
    rw [hpop.head_eq, h.last]
    cases qs with
    | nil => rfl
    | cons y ys => exact List.getLast?_cons_cons
  · rw [held_returned]
    exact hperm.nodup_iff.mpr h.disjoint
  · rw [held_returned, hperm.mem_iff, ← h.covers, added_concat]
    show x ∈ added t ++ [] ↔ _
    rw [List.append_nil]
  · rw [returned_concat, stored_concat]
    show (returned t ++ [(p, (s.packets p).view)]) ++ _ = (Proto.stored t ++ []).map _
    rw [List.append_nil, List.append_assoc]
    exact h.order

/-- With nothing in the queue nothing happens. -/
theorem Account.look_none (h : Account s t ps []) : s.look = (s, none) := by
  have hqueue : s.queue = none := h.queue
  simp [Proto.look, hqueue]

/-! ## Runs -/

/-- The application adds only packets that are new, or that `read` returned. -/
def Call.Allowed (t : List (Event α β)) : Call α β → Prop
  | .addRxPool p | .release p => p ∈ added t → p ∈ held t
  | _ => True

/-- The calls of the application and the link layer, and what happened in them. -/
inductive Run (s₀ : Proto α β) : List (Event α β) → Proto α β → Prop where
  | start : Run s₀ [] s₀
  | call {t : List (Event α β)} {s : Proto α β} (c : Call α β) (h : Run s₀ t s) (hc : c.Allowed t) :
      Run s₀ (t ++ (s.call c).2) (s.call c).1

/-- No packets yet, and no callback. -/
structure Fresh (s : Proto α β) : Prop where
  onRx : s.onRx = false
  pool : s.pool = none
  queue : s.queue = none
  last : s.last = none

/-- Every packet and every frame is accounted for. -/
def Accounted (s : Proto α β) (t : List (Event α β)) : Prop := ∃ ps qs, Account s t ps qs

theorem Accounted.onRead (h : Accounted s t) (f : Frame β) :
    Accounted (s.onRead f).1 (t ++ [.arrived f (s.onRead f).2]) := by
  obtain ⟨ps, qs, ha⟩ := h
  cases ps with
  | nil =>
    obtain ⟨harr, ha'⟩ := ha.lost f
    rw [harr]
    exact ⟨[], qs, ha'⟩
  | cons p ps =>
    obtain ⟨harr, ha'⟩ := ha.stored f
    rw [harr]
    exact ⟨ps, qs ++ [p], ha'⟩

theorem Accounted.onReads (h : Accounted s t) (fs : List (Frame β)) :
    Accounted (s.onReads fs).1 (t ++ (s.onReads fs).2) := by
  induction fs generalizing s t with
  | nil =>
    rw [Proto.onReads, List.append_nil]
    exact h
  | cons f fs ih =>
    have h' := ih (h.onRead f)
    rwa [List.append_assoc] at h'

/-- What a look at the queue leaves. -/
theorem Accounted.look (h : Accounted s t) :
    s.look = (s, none) ∨
      ∃ s' p, s.look = (s', some p) ∧ Accounted s' (t ++ [.returned p (s'.packets p).view]) := by
  obtain ⟨ps, qs, ha⟩ := h
  cases qs with
  | nil => exact .inl ha.look_none
  | cons p qs =>
    obtain ⟨hp, ha'⟩ := ha.look
    exact .inr ⟨s.look.1, p, by rw [← hp], ps, qs, ha'⟩

theorem Accounted.read (h : Accounted s t) (arrivals : List (Frame β))
    (rounds : List (List (Frame β))) :
    Accounted (s.read arrivals rounds).1 (t ++ (s.read arrivals rounds).2.1) := by
  induction rounds generalizing s t arrivals with
  | nil =>
    rcases h.look with hl | ⟨s', p, hl, h'⟩
    · rw [Proto.read, hl]
      exact h.onReads arrivals
    · rw [Proto.read, hl]
      exact h'
  | cons arrivals' rounds ih =>
    rcases h.look with hl | ⟨s', p, hl, h'⟩
    · have h' := ih (h.onReads arrivals) arrivals'
      rw [List.append_assoc] at h'
      rw [Proto.read, hl]
      exact h'
    · rw [Proto.read, hl]
      exact h'

theorem Run.accounted {s₀ : Proto α β} (h₀ : s₀.Fresh) (hr : Run s₀ t s) : Accounted s t := by
  induction hr with
  | start =>
    refine ⟨[], [], h₀.onRx, h₀.pool, h₀.queue, h₀.last, List.nodup_nil, fun p => ?_, rfl⟩
    exact ⟨fun h => (nomatch h), fun h => (nomatch h)⟩
  | call c _ hc ih =>
    cases c with
    | addRxPool p =>
      obtain ⟨ps, qs, ha⟩ := ih
      exact ⟨p :: ps, qs, ha.addRxPool hc⟩
    | release p =>
      obtain ⟨ps, qs, ha⟩ := ih
      exact ⟨p :: ps, qs, ha.addRxPool hc⟩
    | onRead f => exact ih.onRead f
    | read arrivals rounds => exact ih.read arrivals rounds

/-- After any calls each packet that was added is in the pool, in the queue or with the application,
and only there.  The queue has the frames that are not read yet, in the order of their arrival, and
a frame is lost if and only if the pool is empty when it arrives. -/
theorem pool_conserved {s₀ : Proto α β} (h₀ : s₀.Fresh) (hr : Run s₀ t s) :
    ∃ ps qs, Account s t ps qs ∧ (s.queue = none ↔ s.last = none) ∧
      ∀ f, (s.onRead f).2 = ps.head?.elim .lost .stored := by
  obtain ⟨ps, qs, ha⟩ := hr.accounted h₀
  refine ⟨ps, qs, ha, ?_, fun f => ?_⟩
  · rw [ha.queue.head_eq, ha.last, List.head?_eq_none_iff, List.getLast?_eq_none_iff]
  · cases ps with
    | nil => exact (ha.lost f).1
    | cons p ps => exact (ha.stored f).1

/-- Packets with a buffer of `capacity` bytes. -/
def exampleProto (capacity : Nat) : Proto Nat Nat where
  links := ⟨fun _ => none, fun _ => none⟩
  packets := fun _ => ⟨⟨List.replicate capacity 0, 0, 0⟩, none⟩
  pool := none
  queue := none
  last := none
  onRx := false
  lostRxFrames := 0

theorem exampleProto_fresh (capacity : Nat) : (exampleProto capacity).Fresh := ⟨rfl, rfl, rfl, rfl⟩

/-- A packet is added, gets a frame and is read. -/
theorem exampleProto_run (capacity : Nat) : Run (exampleProto capacity)
    [.added 0, .arrived ⟨7, [1, 2, 3]⟩ (.stored 0), .returned 0
      (((exampleProto capacity).packets 0).receive ⟨7, [1, 2, 3]⟩).view]
    (((exampleProto capacity).addRxPool 0).onRead ⟨7, [1, 2, 3]⟩).1.look.1 :=
  ((Run.start.call (.addRxPool 0) (fun h => nomatch h)).call (.onRead ⟨7, [1, 2, 3]⟩) trivial).call
    (.read [] []) trivial

theorem pool_conserved_one :
    ∃ ps qs, Account (((exampleProto 2).addRxPool 0).onRead ⟨7, [1, 2, 3]⟩).1.look.1
      [.added 0, .arrived ⟨7, [1, 2, 3]⟩ (.stored 0), .returned 0 (.bytes [1, 2])] ps qs ∧
      ((((exampleProto 2).addRxPool 0).onRead ⟨7, [1, 2, 3]⟩).1.look.1.queue = none ↔
        (((exampleProto 2).addRxPool 0).onRead ⟨7, [1, 2, 3]⟩).1.look.1.last = none) ∧
      ∀ f, ((((exampleProto 2).addRxPool 0).onRead ⟨7, [1, 2, 3]⟩).1.look.1.onRead f).2 =
        ps.head?.elim .lost .stored := by
  have hview : (((exampleProto 2).packets 0).receive ⟨7, [1, 2, 3]⟩).view = .bytes [1, 2] := by decide
  have h := pool_conserved (exampleProto_fresh 2) (exampleProto_run 2)
  rwa [hview] at h

/-- The bytes the application finds in a packet. -/
def View.length : View β → Nat
  | .bytes bs => bs.length
  | .frame _ len => len

/-- A packet without a buffer gets all of a frame. -/
theorem frame_not_truncated :
    ¬∀ (s₀ s : Proto Nat Nat) (t : List (Event Nat Nat)), s₀.Fresh → Run s₀ t s →
      (returned t).map (fun r => (r.1, r.2.length)) <+:
        (stored t).map fun r => (r.1, min (s₀.capacity r.1) r.2.bytes.length) := by
  intro h
  have hprefix := h _ _ _ (exampleProto_fresh 0) (exampleProto_run 0)
  exact absurd hprefix (by decide)

end Proto

end TinyProto
