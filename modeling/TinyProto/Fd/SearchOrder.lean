import TinyProto.Fd.Outcomes
import Mathlib.Data.List.Rotate

/-!
# The search order of the service queue

`tiny_fd_queue_get_next` starts at `lookup_index`, and `tiny_fd_queue_free_by_header` moves
that index behind the slot it frees.  So the slots are a list, in the order of the search
(`Queue.slots`): a frame is put in the place of the first free slot, and a freed slot goes to
the end together with all that the search passes before it (`Queue.slots_freeByHeader`).

An S-frame carries the N(R) it was queued with.  What counts is the order of these numbers
(`waitingAcks`).  A new one is the last as long as no S-frame is behind a free slot
(`Unpassed`), and that stays so if no S-frame is passed over.
-/

set_option linter.unusedSectionVars false

namespace TinyProto.Fd

open Hdlc

variable {n : Nat} [NeZero n]

/-! ## The slots as a list -/

/-- The slots in the order in which the search visits them. -/
def Queue.slots (q : Queue n) : List Slot := q.order.map q.frames

theorem Queue.order_nodup (q : Queue n) : q.order.Nodup :=
  (List.nodup_finRange n).map (add_right_injective q.lookupIndex)

/-- Every slot has its place in the order. -/
theorem Queue.order_split (q : Queue n) (i : Fin n) :
    ∃ before after, q.order = before ++ i :: after ∧ i ∉ before ∧ i ∉ after := by
  obtain ⟨before, after, ho⟩ := List.append_of_mem (q.mem_order i)
  have hnodup := q.order_nodup
  rw [ho, List.nodup_append, List.nodup_cons] at hnodup
  exact ⟨before, after, ho, fun hi => hnodup.2.2 i hi i List.mem_cons_self rfl, hnodup.2.1.1⟩

/-- The slots around a slot. -/
theorem Queue.slots_eq {q : Queue n} {i : Fin n} {before after : List (Fin n)}
    (ho : q.order = before ++ i :: after) :
    q.slots = before.map q.frames ++ q.frames i :: after.map q.frames := by
  unfold Queue.slots
  rw [ho, List.map_append, List.map_cons]

/-- A slot is replaced in its place. -/
theorem Queue.slots_setFrame {q : Queue n} {i : Fin n} {before after : List (Fin n)}
    (ho : q.order = before ++ i :: after) (hb : i ∉ before) (ha : i ∉ after) (s : Slot) :
    (q.setFrame i s).slots = before.map q.frames ++ s :: after.map q.frames := by
  have hkeep : ∀ l : List (Fin n), i ∉ l → l.map (q.setFrame i s).frames = l.map q.frames :=
    fun l hl => List.map_congr_left fun j hj =>
      q.setFrame_ne (ne_of_mem_of_not_mem hj hl) s
  have ho' : (q.setFrame i s).order = before ++ i :: after := ho
  rw [Queue.slots_eq ho', hkeep before hb, hkeep after ha, Queue.setFrame_self]

/-- The search from the slot behind another one is the search from the beginning, turned. -/
theorem order_turn : ∀ l i : Fin 4, (List.finRange 4).map (i + 1 + ·) =
    ((List.finRange 4).map (l + ·)).rotate (((List.finRange 4).map (l + ·)).idxOf i + 1) := by
  decide

/-- A freed slot goes to the end, together with the slots before it. -/
theorem Queue.slots_freeByHeader {q : Queue 4} {i : Fin 4} {before after : List (Fin 4)}
    (ho : q.order = before ++ i :: after) (hb : i ∉ before) (ha : i ∉ after) :
    (q.freeByHeader i).slots =
      after.map q.frames ++ (before.map q.frames ++ [{ q.frames i with type := .free }]) := by
  have hkeep : ∀ l : List (Fin 4), i ∉ l → l.map (q.freeByHeader i).frames = l.map q.frames :=
    fun l hl => List.map_congr_left fun j hj =>
      q.freeByHeader_ne (ne_of_mem_of_not_mem hj hl)
  have hidx : (before ++ i :: after).idxOf i = before.length := by
    rw [List.idxOf_append_of_notMem hb, List.idxOf_cons_self, Nat.add_zero]
  have horder : (q.freeByHeader i).order = after ++ (before ++ [i]) := by
    have hturn := order_turn q.lookupIndex i
    have ho' : (List.finRange 4).map (q.lookupIndex + ·) = before ++ i :: after := ho
    rw [ho', hidx] at hturn
    have hlist : before ++ i :: after = (before ++ [i]) ++ after := by simp
    have hlen : before.length + 1 = (before ++ [i]).length := by simp
    rw [hlist, hlen, List.rotate_append_length_eq] at hturn
    exact hturn
  unfold Queue.slots
  rw [horder, List.map_append, List.map_append, List.map_singleton, hkeep before hb, hkeep after ha,
    Queue.freeByHeader_self]

/-- The search finds the first slot that fits. -/
theorem Queue.getNext_split {q : Queue n} {types : List QueueType} {address : Byte} {arg : Seq}
    {i : Fin n} (hi : q.getNext types address arg = some i) :
    ∃ before after, q.order = before ++ i :: after ∧ i ∉ before ∧ i ∉ after ∧
      ∀ j ∈ before, (q.frames j).fits types address arg = false := by
  obtain ⟨-, before, after, ho, hb⟩ := List.find?_eq_some_iff_append.mp hi
  have hnodup := q.order_nodup
  rw [ho, List.nodup_append, List.nodup_cons] at hnodup
  refine ⟨before, after, ho, fun hj => hnodup.2.2 i hj i List.mem_cons_self rfl,
    hnodup.2.1.1, fun j hj => ?_⟩
  exact Bool.not_eq_true' _ ▸ hb j hj

/-! ## S-frames -/

/-- The slot holds a frame with an N(R) that waits, or is being sent. -/
def Slot.Acks (s : Slot) : Prop :=
  (s.type = .sFrame ∨ s.type = .uFrame) ∧ isUFrame s.control = false

instance Slot.acks_decidable (s : Slot) : Decidable s.Acks := inferInstanceAs (Decidable (_ ∧ _))

/-- The numbers that the S-frames for the address carry. -/
def waitingAcks (address : Byte) (slots : List Slot) : List Seq :=
  (slots.filter fun s => decide (s.Acks ∧ sameStation address s.address = true)).map fun s =>
    nrOf s.control

/-- No S-frame is behind a free slot. -/
def Unpassed (slots : List Slot) : Prop :=
  slots.Pairwise fun s t => s.type = .free → ¬t.Acks

theorem waitingAcks_append (address : Byte) (l l' : List Slot) :
    waitingAcks address (l ++ l') = waitingAcks address l ++ waitingAcks address l' := by
  unfold waitingAcks
  rw [List.filter_append, List.map_append]

theorem waitingAcks_cons_of {address : Byte} {s : Slot} (hs : s.Acks)
    (ha : sameStation address s.address = true) (l : List Slot) :
    waitingAcks address (s :: l) = nrOf s.control :: waitingAcks address l := by
  have hkeep : decide (s.Acks ∧ sameStation address s.address = true) = true :=
    decide_eq_true ⟨hs, ha⟩
  unfold waitingAcks
  rw [List.filter_cons, if_pos hkeep, List.map_cons]

theorem waitingAcks_cons_not {address : Byte} {s : Slot}
    (hs : ¬(s.Acks ∧ sameStation address s.address = true)) (l : List Slot) :
    waitingAcks address (s :: l) = waitingAcks address l := by
  have hdrop : ¬decide (s.Acks ∧ sameStation address s.address = true) = true := by
    rw [decide_eq_true_eq]
    exact hs
  unfold waitingAcks
  rw [List.filter_cons, if_neg hdrop]

theorem waitingAcks_eq_nil {address : Byte} {l : List Slot}
    (hl : ∀ s ∈ l, ¬(s.Acks ∧ sameStation address s.address = true)) :
    waitingAcks address l = [] := by
  unfold waitingAcks
  rw [List.map_eq_nil_iff, List.filter_eq_nil_iff]
  intro s hs
  rw [decide_eq_true_eq]
  exact hl s hs

theorem Slot.Acks.not_free {s : Slot} (hs : s.Acks) : s.type ≠ .free := by
  rcases hs.1 with ht | ht
  · rw [ht]
    exact QueueType.noConfusion
  · rw [ht]
    exact QueueType.noConfusion

theorem not_acks_of_free {s : Slot} (hs : s.type = .free) : ¬s.Acks := fun ha => ha.not_free hs

/-- Behind the first free slot no S-frame waits. -/
theorem Unpassed.none_behind {before after : List Slot} {s : Slot} (ho : Unpassed (before ++ s :: after))
    (hs : s.type = .free) : ∀ t ∈ after, ¬t.Acks := by
  have hrest := (List.pairwise_append.mp ho).2.1
  exact fun t ht => (List.pairwise_cons.mp hrest).1 t ht hs

/-- Where no slot before is free, the free slot is filled in order. -/
theorem Unpassed.fill {before after : List Slot} {s t : Slot} (ho : Unpassed (before ++ s :: after))
    (hb : ∀ u ∈ before, u.type ≠ .free) (ht : t.type ≠ .free) : Unpassed (before ++ t :: after) := by
  obtain ⟨hbefore, hrest, hcross⟩ := List.pairwise_append.mp ho
  refine List.pairwise_append.mpr ⟨hbefore, ?_, fun u hu v _ hfree => absurd hfree (hb u hu)⟩
  exact List.pairwise_cons.mpr ⟨fun _ _ hfree => absurd hfree ht, (List.pairwise_cons.mp hrest).2⟩

/-- A slot is replaced by one that is alike. -/
theorem Unpassed.replace {before after : List Slot} {s t : Slot} (ho : Unpassed (before ++ s :: after))
    (htype : t.type = s.type) (hacks : t.Acks → s.Acks) : Unpassed (before ++ t :: after) := by
  obtain ⟨hbefore, hrest, hcross⟩ := List.pairwise_append.mp ho
  obtain ⟨hs, hafter⟩ := List.pairwise_cons.mp hrest
  refine List.pairwise_append.mpr ⟨hbefore, ?_, fun u hu v hv hfree hv' => ?_⟩
  · exact List.pairwise_cons.mpr ⟨fun v hv hfree => hs v hv (htype ▸ hfree), hafter⟩
  · rcases List.mem_cons.mp hv with rfl | hv
    · exact hcross u hu s List.mem_cons_self hfree (hacks hv')
    · exact hcross u hu v (List.mem_cons_of_mem _ hv) hfree hv'

/-- The slots behind a slot come before those that were passed over, none of them an S-frame. -/
theorem Unpassed.turn {before after : List Slot} {s t : Slot} (ho : Unpassed (before ++ s :: after))
    (hb : ∀ u ∈ before, ¬u.Acks) (ht : t.type = .free) : Unpassed (after ++ (before ++ [t])) := by
  obtain ⟨hbefore, hrest, -⟩ := List.pairwise_append.mp ho
  refine List.pairwise_append.mpr ⟨(List.pairwise_cons.mp hrest).2, ?_, fun u _ v hv _ => ?_⟩
  · refine List.pairwise_append.mpr ⟨hbefore, List.pairwise_singleton _ _, fun u _ v hv _ => ?_⟩
    rw [List.mem_singleton.mp hv]
    exact not_acks_of_free ht
  · rcases List.mem_append.mp hv with hv | hv
    · exact hb v hv
    · rw [List.mem_singleton.mp hv]
      exact not_acks_of_free ht

end TinyProto.Fd
