import TinyProto.Fd.Connection

/-!
# Counts of acknowledged frames

An I- or S-frame acknowledges frames of the peer with its N(R), the number of I-frames accepted
in the connection, modulo 8.  That the numbers sent are such counts, and never fall, is a
statement about the history (`AcksSound`), which is kept up event by event (`Counted.concat`).
-/

set_option linter.unusedSectionVars false

namespace TinyProto.Fd

open Hdlc

variable {N : Nat} [NeZero N] {p : Fin N}

/-! ## Counts -/

/-- The I-frames accepted from the peer since the last connection, after one more event. -/
def acceptedNext (p : Fin N) (n : Nat) : Event N → Nat
  | .connect q _ connected => if q = p ∧ connected = true then 0 else n
  | .read q _ _ => if q = p then n + 1 else n
  | _ => n

/-- The I-frames accepted from the peer since the last connection. -/
def acceptedSince (p : Fin N) (log : List (Event N)) : Nat := log.foldl (acceptedNext p) 0

/-- The frame at this place of the history carries an N(R) to the peer, inside a connection. -/
structure Announces (p : Fin N) (log : List (Event N)) (i : Nat) (control : Byte) : Prop where
  sent : ∃ address payload, log[i]? = some (.frameOut p (address :: control :: payload))
  numbered : isIFrame control = true ∨ isSFrame control = true
  inside : isOpen p (log.take i) = true

/-- The numbers sent to the peer are counts of the I-frames accepted in the connection, and do
not fall within a connection. -/
structure AcksSound (p : Fin N) (log : List (Event N)) (count : Nat → Nat) : Prop where
  number : ∀ i control, Announces p log i control → nrOf control = BitVec.ofNat 3 (count i)
  accepted : ∀ i control, Announces p log i control → count i ≤ acceptedSince p (log.take i)
  rising : ∀ i j control control', i < j → Announces p log i control → Announces p log j control' →
    connections p ((log.take j).drop i) = [] → count i ≤ count j

/-- Besides, the numbers of this connection are at most the last one. -/
structure Counted (p : Fin N) (log : List (Event N)) (last : Nat) (count : Nat → Nat) : Prop where
  sound : AcksSound p log count
  recent : ∀ i control, Announces p log i control → connections p (log.drop i) = [] → count i ≤ last

theorem acceptedSince_concat (p : Fin N) (log : List (Event N)) (e : Event N) :
    acceptedSince p (log ++ [e]) = acceptedNext p (acceptedSince p log) e := by
  unfold acceptedSince
  rw [List.foldl_append]
  rfl

theorem Announces.lt {log : List (Event N)} {i : Nat} {control : Byte}
    (ha : Announces p log i control) : i < log.length := by
  obtain ⟨_, _, he⟩ := ha.sent
  exact (List.getElem?_eq_some_iff.mp he).1

/-- A frame announced before the last event was announced before. -/
theorem Announces.before {log : List (Event N)} {e : Event N} {i : Nat} {control : Byte}
    (ha : Announces p (log ++ [e]) i control) (hi : i < log.length) : Announces p log i control := by
  obtain ⟨⟨address, payload, he⟩, hn, ho⟩ := ha
  rw [List.getElem?_append_left hi] at he
  rw [List.take_append_of_le_length (Nat.le_of_lt hi)] at ho
  exact ⟨⟨address, payload, he⟩, hn, ho⟩

/-- The history goes on.  A frame that announces a number gets the count `m`. -/
theorem Counted.concat {log : List (Event N)} {last m : Nat} {count : Nat → Nat} {e : Event N}
    (hc : Counted p log last count)
    (hann : ∀ address control payload, e = .frameOut p (address :: control :: payload) →
      (isIFrame control = true ∨ isSFrame control = true) → isOpen p log = true →
      nrOf control = BitVec.ofNat 3 m ∧ m ≤ acceptedSince p log)
    (hsame : connections p [e] = [] → last ≤ m) :
    Counted p (log ++ [e]) m (Function.update count log.length m) := by
  have hold : ∀ i, i < log.length → Function.update count log.length m i = count i := fun i hi =>
    Function.update_of_ne (Nat.ne_of_lt hi) _ _
  have hlast : ∀ {i control}, Announces p (log ++ [e]) i control → ¬i < log.length →
      i = log.length := by
    intro i control ha hi
    have := ha.lt
    rw [List.length_append, List.length_singleton] at this
    omega
  have hnew : ∀ {control}, Announces p (log ++ [e]) log.length control →
      nrOf control = BitVec.ofNat 3 m ∧ m ≤ acceptedSince p log ∧ connections p [e] = [] := by
    rintro control ⟨⟨address, payload, he⟩, hn, ho⟩
    rw [List.getElem?_append_right (Nat.le_refl _), Nat.sub_self] at he
    have he : e = .frameOut p (address :: control :: payload) := Option.some.inj he
    rw [List.take_left] at ho
    obtain ⟨hnr, hle⟩ := hann address control payload he hn ho
    exact ⟨hnr, hle, by rw [he]; rfl⟩
  refine ⟨⟨fun i control ha => ?_, fun i control ha => ?_, fun i j control control' hij hi hj hno => ?_⟩,
    fun i control ha hno => ?_⟩
  · by_cases hi : i < log.length
    · rw [hold i hi]
      exact hc.sound.number i control (ha.before hi)
    · obtain rfl := hlast ha hi
      rw [Function.update_self]
      exact (hnew ha).1
  · by_cases hi : i < log.length
    · rw [hold i hi, List.take_append_of_le_length (Nat.le_of_lt hi)]
      exact hc.sound.accepted i control (ha.before hi)
    · obtain rfl := hlast ha hi
      rw [Function.update_self, List.take_left]
      exact (hnew ha).2.1
  · by_cases hjl : j < log.length
    · rw [List.take_append_of_le_length (Nat.le_of_lt hjl)] at hno
      rw [hold i (Nat.lt_trans hij hjl), hold j hjl]
      exact hc.sound.rising i j control control' hij (hi.before (Nat.lt_trans hij hjl))
        (hj.before hjl) hno
    · obtain rfl := hlast hj hjl
      rw [List.take_left] at hno
      rw [hold i hij, Function.update_self]
      exact Nat.le_trans (hc.recent i control (hi.before hij) hno) (hsame (hnew hj).2.2)
  · by_cases hi : i < log.length
    · rw [List.drop_append_of_le_length (Nat.le_of_lt hi), connections_append,
        List.append_eq_nil_iff] at hno
      rw [hold i hi]
      exact Nat.le_trans (hc.recent i control (ha.before hi) hno.1) (hsame hno.2)
    · obtain rfl := hlast ha hi
      rw [Function.update_self]

/-- An event without a meaning for the acknowledgements. -/
def Event.Aside : Event N → Prop
  | .connect .. | .read .. | .frameOut .. => False
  | _ => True

theorem Event.Aside.still {e : Event N} (he : e.Aside) : e.Still := by
  cases e with
  | connect => exact he
  | read => exact he
  | _ => trivial

/-- Events aside change nothing. -/
theorem Counted.aside {last : Nat} :
    ∀ {es : List (Event N)} {log : List (Event N)} {count : Nat → Nat},
      Counted p log last count → (∀ e ∈ es, e.Aside) → ∃ count, Counted p (log ++ es) last count
  | [], log, count, hc, _ => ⟨count, by rwa [List.append_nil]⟩
  | e :: es, log, count, hc, hes => by
    have he := hes e List.mem_cons_self
    have hfirst : Counted p (log ++ [e]) last (Function.update count log.length last) := by
      refine hc.concat (fun _ _ _ hout => ?_) fun _ => Nat.le_refl _
      rw [hout] at he
      exact he.elim
    obtain ⟨count', hrest⟩ := hfirst.aside fun e' he' => hes e' (List.mem_cons_of_mem _ he')
    rw [List.append_assoc] at hrest
    exact ⟨count', hrest⟩

theorem acceptedSince_aside {log es : List (Event N)} (hes : ∀ e ∈ es, e.Aside) :
    acceptedSince p (log ++ es) = acceptedSince p log := by
  unfold acceptedSince
  rw [List.foldl_append]
  generalize log.foldl (acceptedNext p) 0 = n
  induction es with
  | nil => rfl
  | cons e es ih =>
    have he : acceptedNext p n e = n := by
      have hside := hes e List.mem_cons_self
      cases e with
      | connect => exact hside.elim
      | read => exact hside.elim
      | _ => rfl
    rw [List.foldl_cons, he]
    exact ih fun e' he' => hes e' (List.mem_cons_of_mem _ he')

theorem isOpen_aside {log es : List (Event N)} (hes : ∀ e ∈ es, e.Aside) :
    isOpen p (log ++ es) = isOpen p log := by
  unfold isOpen
  rw [connections_append, connections_still fun e he => (hes e he).still, List.append_nil]

end TinyProto.Fd
