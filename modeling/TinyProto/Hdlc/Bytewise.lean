import TinyProto.Lib.Transducer
import TinyProto.Hdlc.Rx

/-!
# The receiver byte by byte

`rxByte` is the receiver as a machine that is given one byte at a time.  A
`hdlc_ll_run_rx` call gives it a part of the data, up to the first byte that is answered
(`RunRx.Bytewise`), and `tiny_fd_on_rx_data` gives it all of the data
(`onRxData_bytewise`).  Between two calls a handle is never at the end of a frame.
-/

namespace TinyProto.Hdlc

open Transducer

variable {π : Type}

/-! ## One byte -/

/-- What one state function reported. -/
def RxStep.events (r : RxStep π) : List RxEvent :=
  r.read.toList.map RxEvent.frame ++
    match r.result with
    | .error e => [RxEvent.error e]
    | .ok _ => []

/-- What one byte does to a handle between two calls, and what is reported. -/
def rxByte (h : HdlcLl π) (byte : Byte) : HdlcLl π × List RxEvent :=
  match h.rx.state with
  | .readStart => ((readStart h [byte]).h, [])
  | .readData =>
      if byte = flagSequence then
        let r := readEnd { h with rx := { h.rx with state := .readEnd } }
        (r.h, r.events)
      else (readDataByte h byte, [])
  | .readEnd => (h, [])

theorem rxByte_readStart {h : HdlcLl π} (hs : h.rx.state = .readStart) (byte : Byte) :
    rxByte h byte = ((readStart h [byte]).h, []) := by
  simp only [rxByte, hs]

theorem rxByte_flag {h : HdlcLl π} (hs : h.rx.state = .readData) :
    rxByte h flagSequence =
      ((readEnd { h with rx := { h.rx with state := .readEnd } }).h,
        (readEnd { h with rx := { h.rx with state := .readEnd } }).events) := by
  simp only [rxByte, hs, if_pos]

theorem rxByte_data {h : HdlcLl π} (hs : h.rx.state = .readData) {byte : Byte}
    (hb : byte ≠ flagSequence) : rxByte h byte = (readDataByte h byte, []) := by
  simp only [rxByte, hs, if_neg hb]

theorem readDataByte_state (h : HdlcLl π) (byte : Byte) :
    (readDataByte h byte).rx.state = h.rx.state := by
  unfold readDataByte
  split
  · rfl
  · split
    · split <;> rfl
    · rfl

/-- The end of a frame uses no byte, and leaves a handle that waits for one. -/
theorem readEnd_leaves (h : HdlcLl π) :
    ((readEnd h).result = .ok 0 ∨
        (readEnd h).read = none ∧
          ((readEnd h).result = .error .dataTooLarge ∨ (readEnd h).result = .error .wrongCrc)) ∧
      (readEnd h).h.rx.state ≠ .readEnd := by
  unfold readEnd
  split
  · exact ⟨Or.inl rfl, by simp⟩
  · dsimp only
    split
    · exact ⟨Or.inr ⟨rfl, Or.inl rfl⟩, by simp⟩
    · split
      · exact ⟨Or.inr ⟨rfl, Or.inr rfl⟩, by simp⟩
      · split
        · exact ⟨Or.inr ⟨rfl, Or.inr rfl⟩, by simp⟩
        · exact ⟨Or.inl rfl, by simp⟩

theorem readStart_leaves {h : HdlcLl π} (hs : h.rx.state = .readStart) (byte : Byte)
    (data : List Byte) : (readStart h (byte :: data)).h.rx.state ≠ .readEnd := by
  by_cases hb : byte = flagSequence <;> simp [readStart, hb, hs]

/-! ## The loop of `hdlc_ll_read_data` -/

/-- Up to a flag. -/
theorem readDataLoop_upTo {h : HdlcLl π} (hs : h.rx.state = .readData) {data : List Byte}
    (hm : flagSequence ∈ data) : ∃ pre post h', data = pre ++ flagSequence :: post ∧
      h' = after rxByte h pre ∧ h'.rx.state = .readData ∧ emits rxByte h pre = [] ∧
      readDataLoop h data = ({ h' with rx := { h'.rx with state := .readEnd } }, pre.length + 1) := by
  induction data generalizing h with
  | nil => cases hm
  | cons byte data ih =>
    by_cases hb : byte = flagSequence
    · exact ⟨[], data, h, by rw [hb]; rfl, rfl, hs, rfl, by simp [readDataLoop, hb]⟩
    · have hs' : (readDataByte h byte).rx.state = .readData := (readDataByte_state h byte).trans hs
      obtain ⟨pre, post, h', hdata, hafter, hstate, hsilent, hloop⟩ :=
        ih hs' ((List.mem_cons.mp hm).resolve_left (Ne.symm hb))
      refine ⟨byte :: pre, post, h', by rw [hdata]; rfl, ?_, hstate, ?_, ?_⟩
      · rw [after_cons, rxByte_data hs hb]
        exact hafter
      · rw [emits_cons, rxByte_data hs hb]
        exact hsilent
      · simp [readDataLoop, hb, hloop]

/-- Through data with no flag. -/
theorem readDataLoop_through {h : HdlcLl π} (hs : h.rx.state = .readData) {data : List Byte}
    (hm : flagSequence ∉ data) :
    readDataLoop h data = (after rxByte h data, data.length) ∧
      (after rxByte h data).rx.state = .readData ∧ emits rxByte h data = [] := by
  induction data generalizing h with
  | nil => exact ⟨rfl, hs, rfl⟩
  | cons byte data ih =>
    have hb : byte ≠ flagSequence := fun he => hm (he ▸ List.mem_cons_self ..)
    have hs' : (readDataByte h byte).rx.state = .readData := (readDataByte_state h byte).trans hs
    obtain ⟨hloop, hstate, hsilent⟩ := ih hs' fun h => hm (List.mem_cons_of_mem _ h)
    rw [after_cons, emits_cons, rxByte_data hs hb]
    exact ⟨by simp [readDataLoop, hb, hloop], hstate, hsilent⟩

/-! ## The loop of `hdlc_ll_run_rx` -/

/-- A turn between two frames. -/
theorem runRxLoop_readStart {h : HdlcLl π} (hs : h.rx.state = .readStart) (fuel : Nat)
    (byte : Byte) (data : List Byte) :
    runRxLoop (fuel + 1) h (byte :: data) =
      { runRxLoop fuel (readStart h (byte :: data)).h data with
        result := 1 + (runRxLoop fuel (readStart h (byte :: data)).h data).result } := by
  by_cases hb : byte = flagSequence <;> simp [runRxLoop, rxStateCall, hs, readStart, hb]

/-- The turns up to the end of a frame. -/
theorem runRxLoop_flag {h h' : HdlcLl π} {byte : Byte} {data : List Byte} {n : Nat}
    (hs : h.rx.state = .readData) (hr : readDataLoop h (byte :: data) = (h', n + 1))
    (hs' : h'.rx.state = .readEnd) (fuel : Nat) :
    runRxLoop (fuel + 2) h (byte :: data) =
      { h := (readEnd h').h, result := n + 1
        error := match (readEnd h').result with
          | .error e => e
          | .ok _ => .success
        read := (readEnd h').read.toList } := by
  rcases (readEnd_leaves h').1 with hres | ⟨-, hres | hres⟩ <;>
    simp [runRxLoop, rxStateCall, hs, readData, hr, hs', hres]

/-- The turns inside of a frame. -/
theorem runRxLoop_body {h h' : HdlcLl π} {byte : Byte} {data : List Byte}
    (hs : h.rx.state = .readData) (hr : readDataLoop h (byte :: data) = (h', data.length + 1))
    (hs' : h'.rx.state ≠ .readEnd) (fuel : Nat) :
    runRxLoop (fuel + 1) h (byte :: data) =
      { h := h', result := data.length + 1, error := .success, read := [] } := by
  cases fuel <;> simp [runRxLoop, rxStateCall, hs, readData, hr, hs']

/-- What a `hdlc_ll_run_rx` call does: it gives a part of the data to the machine, up to the
first byte that is answered. -/
structure RunRx.Bytewise (h : HdlcLl π) (data : List Byte) (r : RunRx π) : Prop where
  le : r.result ≤ data.length
  pos : data ≠ [] → 0 < r.result
  state : r.h.rx.state ≠ .readEnd
  handle : r.h = after rxByte h (data.take r.result)
  events : r.events = emits rxByte h (data.take r.result)
  silent : emits rxByte h (data.take (r.result - 1)) = []

theorem runRxLoop_bytewise : ∀ (fuel : Nat) (h : HdlcLl π) (data : List Byte),
    h.rx.state ≠ .readEnd → data.length < fuel → (runRxLoop fuel h data).Bytewise h data
  | 0, h, data, _, hf => by omega
  | fuel + 1, h, [], hi, _ => by
    have hr : runRxLoop (fuel + 1) h [] =
        { h := h, result := 0, error := .success, read := [] } := by
      simp [runRxLoop, hi]
    rw [hr]
    exact ⟨Nat.le_refl 0, by simp, hi, rfl, rfl, rfl⟩
  | fuel + 1, h, byte :: data, hi, hf => by
    cases hs : h.rx.state with
    | readEnd => exact absurd hs hi
    | readStart =>
      have hbyte : rxByte h byte = ((readStart h (byte :: data)).h, []) := by
        rw [rxByte_readStart hs]
        by_cases hb : byte = flagSequence <;> simp [readStart, hb]
      rw [runRxLoop_readStart hs]
      have ih := runRxLoop_bytewise fuel _ data (readStart_leaves hs byte data) (by simpa using hf)
      generalize (readStart h (byte :: data)).h = h' at hbyte ih ⊢
      refine ⟨?_, ?_, ih.state, ?_, ?_, ?_⟩
      · have hle := ih.le
        simp only [List.length_cons]
        omega
      · intro _
        simp only
        omega
      · simp only [Nat.add_comm 1, List.take_succ_cons, after_cons, hbyte]
        exact ih.handle
      · simp only [Nat.add_comm 1, List.take_succ_cons, emits_cons, hbyte, List.nil_append]
        exact ih.events
      · show emits _ _ (List.take (1 + (runRxLoop fuel h' data).result - 1) _) = []
        rw [Nat.add_sub_cancel_left]
        cases hn : (runRxLoop fuel h' data).result with
        | zero => rfl
        | succ n =>
          have hsilent := ih.silent
          rw [hn, Nat.add_sub_cancel] at hsilent
          rw [List.take_succ_cons, emits_cons, hbyte, hsilent]
          rfl
    | readData =>
      by_cases hm : flagSequence ∈ byte :: data
      · obtain ⟨pre, post, h', hdata, hafter, hstate, hsilent, hloop⟩ := readDataLoop_upTo hs hm
        obtain ⟨fuel', hf'⟩ : ∃ k, fuel = k + 1 :=
          ⟨fuel - 1, by simp only [List.length_cons] at hf; omega⟩
        have htake : (byte :: data).take (pre.length + 1) = pre ++ [flagSequence] := by
          rw [hdata, List.take_length_add_append]
          rfl
        rw [hf', runRxLoop_flag hs hloop rfl]
        refine ⟨?_, fun _ => Nat.succ_pos _, (readEnd_leaves _).2, ?_, ?_, ?_⟩
        · rw [hdata]
          simp
        · rw [htake, after_append, ← hafter, after_cons, rxByte_flag hstate]
          rfl
        · rw [htake, emits_append, hsilent, ← hafter, emits_cons, rxByte_flag hstate]
          rcases (readEnd_leaves { h' with rx := { h'.rx with state := .readEnd } }).1 with
            hres | ⟨-, hres | hres⟩ <;> simp [RunRx.events, RxStep.events, hres]
        · rw [Nat.add_sub_cancel, hdata, List.take_left]
          exact hsilent
      · obtain ⟨hloop, hstate, hsilent⟩ := readDataLoop_through hs hm
        have hleaves : (after rxByte h (byte :: data)).rx.state ≠ .readEnd := by
          rw [hstate]
          exact fun he => by cases he
        rw [runRxLoop_body hs hloop hleaves]
        refine ⟨by simp, fun _ => Nat.succ_pos _, hleaves, ?_, ?_, emits_take_silent hsilent _⟩
        · rw [List.take_of_length_le (by simp)]
        · rw [List.take_of_length_le (by simp), hsilent]
          rfl

theorem hdlcLlRunRx_bytewise {h : HdlcLl π} (hi : h.rx.state ≠ .readEnd) (data : List Byte) :
    (hdlcLlRunRx h data).Bytewise h data :=
  runRxLoop_bytewise _ h data hi (Nat.lt_succ_self _)

/-! ## The loop of `tiny_fd_on_rx_data` -/

/-- Every turn uses a byte, so there are at most as many turns as bytes, and all bytes are
used. -/
theorem onRxDataLoop_bytewise : ∀ (fuel : Nat) (h : HdlcLl π) (data : List Byte),
    h.rx.state ≠ .readEnd → data.length ≤ fuel →
      onRxDataLoop fuel h data = (after rxByte h data, emits rxByte h data) ∧
        (after rxByte h data).rx.state ≠ .readEnd
  | 0, h, data, hi, hf => by
    have hnil : data = [] := List.eq_nil_of_length_eq_zero (Nat.le_zero.mp hf)
    subst hnil
    exact ⟨rfl, hi⟩
  | fuel + 1, h, [], hi, _ => ⟨rfl, hi⟩
  | fuel + 1, h, byte :: data, hi, hf => by
    have hcall := hdlcLlRunRx_bytewise hi (byte :: data)
    obtain ⟨r, hr⟩ : ∃ r, hdlcLlRunRx h (byte :: data) = r := ⟨_, rfl⟩
    rw [hr] at hcall
    have hpos := hcall.pos (List.cons_ne_nil _ _)
    obtain ⟨hloop, hstate⟩ := onRxDataLoop_bytewise fuel r.h ((byte :: data).drop r.result) hcall.state
      (by rw [List.length_drop]; omega)
    have hturn : onRxDataLoop (fuel + 1) h (byte :: data) =
        ((onRxDataLoop fuel r.h ((byte :: data).drop r.result)).1,
          r.events ++ (onRxDataLoop fuel r.h ((byte :: data).drop r.result)).2) := by
      simp [onRxDataLoop, hr]
    have hafter : after rxByte r.h ((byte :: data).drop r.result) =
        after rxByte h (byte :: data) := by
      rw [hcall.handle, ← after_append, List.take_append_drop]
    have hemits : r.events ++ emits rxByte r.h ((byte :: data).drop r.result) =
        emits rxByte h (byte :: data) := by
      rw [hcall.events, hcall.handle, ← emits_append, List.take_append_drop]
    rw [hturn, hloop, ← hafter, ← hemits]
    exact ⟨rfl, hstate⟩

/-- `tiny_fd_on_rx_data` gives its data to the machine byte by byte. -/
theorem onRxData_bytewise :
    Implements rxByte (fun h : HdlcLl π => h.rx.state ≠ .readEnd) id onRxData where
  keeps h data hi := by
    obtain ⟨hloop, hstate⟩ := onRxDataLoop_bytewise data.length h data hi (Nat.le_refl _)
    rw [onRxData, hloop]
    exact hstate
  state h data hi := by
    rw [onRxData, (onRxDataLoop_bytewise data.length h data hi (Nat.le_refl _)).1]
    rfl
  output h data hi := by
    rw [onRxData, (onRxDataLoop_bytewise data.length h data hi (Nat.le_refl _)).1]
    rfl

end TinyProto.Hdlc
