import Mathlib.Data.List.Basic
import Mathlib.Data.List.Nodup
import Mathlib.Logic.Function.Basic
import Mathlib.Tactic.Common

/-!
# Doubly linked lists in a table of links

Every node has a link to the next and one to the previous node, and a list is known by a pointer
to its first node.  Several lists share the table, and nodes that are in no list may have any
links.

`Linked` says which nodes a list has.  Its rules are the three splices: at the front, behind the
last node, and the removal of the first node.
-/

namespace LinkedList

variable {α : Type*}

/-- The links of the nodes. -/
structure Links (α : Type*) where
  next : α → Option α
  prev : α → Option α

variable {l l' : Links α} {back head : Option α} {x : α} {xs : List α}

/-- The nodes from `head` on are `xs`, and the first one links back to `back`. -/
def Linked (l : Links α) : Option α → Option α → List α → Prop
  | _, head, [] => head = none
  | back, head, x :: xs => head = some x ∧ l.prev x = back ∧ Linked l (some x) (l.next x) xs

/-! ## The pointer -/

theorem Linked.head_eq (h : Linked l back head xs) : head = xs.head? := by
  cases xs with
  | nil => exact h
  | cons x xs => exact h.1

theorem Linked.eq_nil (h : Linked l back none xs) : xs = [] :=
  List.head?_eq_none_iff.mp h.head_eq.symm

theorem Linked.eq_cons (h : Linked l back (some x) xs) :
    ∃ ys, xs = x :: ys ∧ l.prev x = back ∧ Linked l (some x) (l.next x) ys := by
  cases xs with
  | nil => cases h
  | cons y ys =>
    obtain ⟨hy, hprev, htail⟩ := h
    cases hy
    exact ⟨ys, rfl, hprev, htail⟩

/-- A list is determined by its pointer. -/
theorem Linked.unique {ys : List α} {back' : Option α} (h : Linked l back head xs)
    (h' : Linked l back' head ys) : xs = ys := by
  induction xs generalizing back back' head ys with
  | nil =>
    cases h
    exact h'.eq_nil.symm
  | cons x xs ih =>
    obtain ⟨rfl, -, htail⟩ := h
    obtain ⟨zs, rfl, -, htail'⟩ := h'.eq_cons
    rw [ih htail htail']

/-- The pointer of a list is to none of the nodes outside it. -/
theorem Linked.head_ne {ys : List α} (h : Linked l back head xs) (hd : ∀ x ∈ xs, x ∉ ys) :
    ∀ y ∈ ys, head ≠ some y := by
  intro y hy he
  rw [h.head_eq] at he
  exact hd y (List.mem_of_mem_head? he) hy

/-- Only the links of its own nodes matter to a list. -/
theorem Linked.congr (h : Linked l back head xs)
    (hl : ∀ x ∈ xs, l'.next x = l.next x ∧ l'.prev x = l.prev x) : Linked l' back head xs := by
  induction xs generalizing back head with
  | nil => exact h
  | cons x xs ih =>
    obtain ⟨hx, hprev, htail⟩ := h
    obtain ⟨hn, hp⟩ := hl x List.mem_cons_self
    refine ⟨hx, hp.trans hprev, ?_⟩
    rw [hn]
    exact ih htail fun y hy => hl y (List.mem_cons_of_mem _ hy)

/-! ## Setting links -/

variable [DecidableEq α]

/-- The value at a pointer is set, if there is a node. -/
def setAt {β : Type*} (f : α → β) (p : Option α) (v : β) : α → β :=
  match p with
  | none => f
  | some x => Function.update f x v

theorem setAt_of_ne {β : Type*} (f : α → β) {p : Option α} (v : β) (h : p ≠ some x) :
    setAt f p v x = f x := by
  cases p with
  | none => rfl
  | some y => exact Function.update_of_ne (fun he => h (by rw [he])) ..

theorem setAt_self {β : Type*} (f : α → β) (x : α) (v : β) : setAt f (some x) v x = v :=
  Function.update_self ..

def Links.setNext (l : Links α) (p v : Option α) : Links α := { l with next := setAt l.next p v }

def Links.setPrev (l : Links α) (p v : Option α) : Links α := { l with prev := setAt l.prev p v }

/-- Links of a node that is not in the list. -/
theorem Linked.setNext (h : Linked l back head xs) {p : Option α} (hp : ∀ x ∈ xs, p ≠ some x)
    (v : Option α) : Linked (l.setNext p v) back head xs :=
  h.congr fun x hx => ⟨setAt_of_ne _ _ (hp x hx), rfl⟩

theorem Linked.setPrev (h : Linked l back head xs) {p : Option α} (hp : ∀ x ∈ xs, p ≠ some x)
    (v : Option α) : Linked (l.setPrev p v) back head xs :=
  h.congr fun x hx => ⟨rfl, setAt_of_ne _ _ (hp x hx)⟩

/-- The link of the first node back is set. -/
theorem Linked.setHead (h : Linked l back head xs) (hd : xs.Nodup) (back' : Option α) :
    Linked (l.setPrev head back') back' head xs := by
  cases xs with
  | nil => exact h
  | cons x xs =>
    obtain ⟨rfl, -, htail⟩ := h
    refine ⟨rfl, setAt_self .., htail.setPrev (fun y hy he => ?_) _⟩
    cases he
    exact (List.nodup_cons.mp hd).1 hy

/-! ## Splices -/

/-- A node is put in front of a list. -/
theorem Linked.push (h : Linked l none head xs) (hd : xs.Nodup) (hx : x ∉ xs) :
    Linked (((l.setNext (some x) head).setPrev (some x) none).setPrev head (some x)) none (some x)
      (x :: xs) := by
  have hne : ∀ y ∈ xs, some x ≠ some y := fun y hy he => hx (Option.some.inj he ▸ hy)
  have hhead : head ≠ some x := by
    rw [h.head_eq]
    exact fun he => hx (List.mem_of_mem_head? he)
  refine ⟨rfl, ?_, ?_⟩
  · show setAt (setAt l.prev (some x) none) head (some x) x = none
    rw [setAt_of_ne _ _ hhead, setAt_self]
  · have hnext : (((l.setNext (some x) head).setPrev (some x) none).setPrev head (some x)).next x
        = head := setAt_self ..
    rw [hnext]
    exact ((h.setNext hne head).setPrev hne none).setHead hd (some x)

/-- The first node is taken away. -/
theorem Linked.pop (h : Linked l none head (x :: xs)) (hd : (x :: xs).Nodup) :
    Linked (l.setPrev (l.next x) none) none (l.next x) xs :=
  h.2.2.setHead (List.nodup_cons.mp hd).2 none

/-- A node is put behind the last one, or in front if there is none. -/
theorem Linked.append (h : Linked l back head xs) (hd : xs.Nodup) (hx : x ∉ xs) :
    Linked (((l.setNext (some x) none).setPrev (some x) (xs.getLast?.or back)).setNext
      xs.getLast? (some x)) back (head.or (some x)) (xs ++ [x]) := by
  induction xs generalizing back head with
  | nil =>
    cases h
    exact ⟨rfl, setAt_self .., setAt_self ..⟩
  | cons y ys ih =>
    obtain ⟨rfl, hprev, htail⟩ := h
    obtain ⟨hy, hys⟩ := List.nodup_cons.mp hd
    have hxy : some x ≠ some y := fun he => hx (Option.some.inj he ▸ List.mem_cons_self)
    refine ⟨rfl, (setAt_of_ne _ _ hxy).trans hprev, ?_⟩
    cases ys with
    | nil =>
      -- The new node comes right behind it.
      have hnext : (((l.setNext (some x) none).setPrev (some x) (some y)).setNext
          (some y) (some x)).next y = some x := setAt_self ..
      show Linked _ (some y) ((((l.setNext (some x) none).setPrev (some x) (some y)).setNext
        (some y) (some x)).next y) [x]
      rw [hnext]
      refine ⟨rfl, setAt_self .., ?_⟩
      exact (setAt_of_ne _ _ hxy.symm).trans (setAt_self ..)
    | cons z zs =>
      have hlast : (y :: z :: zs).getLast? = (z :: zs).getLast? := List.getLast?_cons_cons
      have hne : (z :: zs).getLast? ≠ some y := fun he => hy (List.mem_of_getLast? he)
      obtain ⟨w, hw⟩ : ∃ w, (z :: zs).getLast? = some w :=
        ⟨_, List.getLast?_eq_some_getLast (List.cons_ne_nil z zs)⟩
      have htail' := ih htail hys fun hm => hx (List.mem_cons_of_mem _ hm)
      have hnext : (((l.setNext (some x) none).setPrev (some x) ((z :: zs).getLast?.or back)).setNext
          (z :: zs).getLast? (some x)).next y = (l.next y).or (some x) := by
        rw [htail.1]
        exact (setAt_of_ne _ _ hne).trans ((setAt_of_ne _ _ hxy).trans htail.1)
      rw [hlast, hnext]
      rw [hw] at htail' ⊢
      exact htail'

end LinkedList
