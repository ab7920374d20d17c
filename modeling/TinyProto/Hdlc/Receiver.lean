import TinyProto.Hdlc.Stream
import Mathlib.Tactic.Ring

/-!
# The receiver over many calls

How the bytes are cut into chunks cannot be observed, and every call makes progress
(`chunks_unobservable`).  The receive ring keeps each frame apart from the ones before it
(`ring_safe`).
-/

namespace TinyProto.Hdlc

open Transducer

variable {π : Type}

/-! ## Chunks -/

/-- The loop of `hdlc_ll_run_rx` ends: more turns change nothing. -/
theorem runRxLoop_stops (fuel : Nat) (h : HdlcLl π) {data : List Byte} (hf : data.length < fuel) :
    runRxLoop (fuel + 1) h data = runRxLoop fuel h data := by
  induction fuel generalizing h data with
  | zero => omega
  | succ fuel ih =>
    rw [runRxLoop]
    conv_rhs => rw [runRxLoop]
    by_cases hgoes : data ≠ [] ∨ h.rx.state = .readEnd
    · rw [if_pos hgoes, if_pos hgoes]
      dsimp only
      cases hr : (rxStateCall h data).result with
      | error e => rfl
      | ok n =>
        cases n with
        | zero => rfl
        | succ n =>
          have hdata : data ≠ [] := by
            -- with no data left only the end of a frame is called, which uses none
            rcases hgoes with hdata | hs
            · exact hdata
            · rw [rxStateCall, hs] at hr
              rcases (readEnd_leaves h).1 with hres | ⟨-, hres | hres⟩
              · exact absurd (hr.symm.trans hres) (by simp)
              · exact absurd (hr.symm.trans hres) (by simp)
              · exact absurd (hr.symm.trans hres) (by simp)
          have hpos : 0 < data.length := List.length_pos_iff.mpr hdata
          have hdrop : (data.drop (n + 1)).length < fuel := by
            rw [List.length_drop]
            omega
          simp only [ih (rxStateCall h data).h hdrop]
    · rw [if_neg hgoes, if_neg hgoes]

theorem runRxLoop_enough (h : HdlcLl π) {data : List Byte} {fuel : Nat} (hf : data.length < fuel) :
    runRxLoop fuel h data = hdlcLlRunRx h data := by
  induction fuel with
  | zero => omega
  | succ fuel ih =>
    by_cases hlast : data.length = fuel
    · rw [hdlcLlRunRx, hlast]
    · have hlt : data.length < fuel := by omega
      rw [runRxLoop_stops fuel h hlt, ih hlt]

/-- What the user of a receiver sees and the state the receiver ends in depend on the bytes
only.  Every call with data uses some of it, and the loops around the bytes end. -/
theorem chunks_unobservable {mem : π → Nat → Byte} {h : HdlcLl π} (hr : h.Reachable mem) :
    (∀ chunks chunks' : List (List Byte), chunks.flatten = chunks'.flatten →
      readBlocks onRxData h chunks = readBlocks onRxData h chunks') ∧
    (∀ data : List Byte, data ≠ [] →
      0 < (hdlcLlRunRx h data).result ∧ (hdlcLlRunRx h data).result ≤ data.length) ∧
    (∀ (data : List Byte) (fuel : Nat), data.length < fuel →
      runRxLoop fuel h data = hdlcLlRunRx h data ∧ onRxDataLoop fuel h data = onRxData h data) := by
  have hi := hr.inv.rxIdle.state
  refine ⟨?_, ?_, ?_⟩
  · intro chunks chunks' hsame
    obtain ⟨-, hstate, hout⟩ := onRxData_bytewise.blocks hi chunks
    obtain ⟨-, hstate', hout'⟩ := onRxData_bytewise.blocks hi chunks'
    refine Prod.ext ?_ ?_
    · rw [show (readBlocks onRxData h chunks).1 = _ from hstate, hsame]
      exact hstate'.symm
    · rw [hout, hout', hsame]
  · intro data hne
    have hcall := hdlcLlRunRx_bytewise hi data
    exact ⟨hcall.pos hne, hcall.le⟩
  · intro data fuel hf
    refine ⟨runRxLoop_enough h hf, ?_⟩
    rw [onRxData, (onRxDataLoop_bytewise fuel h data hi (Nat.le_of_lt hf)).1,
      (onRxDataLoop_bytewise data.length h data hi (Nat.le_refl _)).1]

theorem chunks_unobservable_example :
    (∀ chunks chunks' : List (List Byte), chunks.flatten = chunks'.flatten →
      readBlocks onRxData exampleHandle chunks = readBlocks onRxData exampleHandle chunks') ∧
    (∀ data : List Byte, data ≠ [] →
      0 < (hdlcLlRunRx exampleHandle data).result ∧
        (hdlcLlRunRx exampleHandle data).result ≤ data.length) ∧
    (∀ (data : List Byte) (fuel : Nat), data.length < fuel →
      runRxLoop fuel exampleHandle data = hdlcLlRunRx exampleHandle data ∧
        onRxDataLoop fuel exampleHandle data = onRxData exampleHandle data) :=
  chunks_unobservable (@exampleHandle_reachable bufferMem)

/-! ## Memory accesses -/

/-- An access to the receive buffer.  Places are offsets from `rx_buf`. -/
inductive Access where
  /-- A byte is stored. -/
  | store (offset : Int)
  /-- A byte of the check field of the frame in `[start, start + len)` is read. -/
  | check (offset start len : Int)
  /-- The bytes `[start, start + len)` are given to `on_frame_read`. -/
  | deliver (start len : Int)
deriving DecidableEq, Repr

/-- The accesses of `hdlc_ll_read_data` to a byte that is no flag. -/
def readDataByteAccesses (h : HdlcLl π) (byte : Byte) : List Access :=
  if byte = escapeChar then []
  else if h.rx.ptr - h.rx.activeFrameBuf < h.physMtu then [.store h.rx.ptr]
  else []

/-- The bytes of the check field, the last one first. -/
def checkAccesses (h : HdlcLl π) : List Access :=
  (List.range (h.crcType.value / 8)).map fun (i : Nat) =>
    .check (h.rx.ptr - (i + 1)) h.rx.activeFrameBuf (h.rx.ptr - h.rx.activeFrameBuf)

/-- The accesses of `hdlc_ll_read_end`. -/
def readEndAccesses (h : HdlcLl π) : List Access :=
  if h.rx.ptr = h.rx.activeFrameBuf then []
  else
    let len : Int := h.rx.ptr - h.rx.activeFrameBuf
    if len > h.physMtu then []
    else if len < (h.crcType.value / 8 : Nat) then []
    else if (rxCrc h len.toNat).1 ≠ (rxCrc h len.toNat).2 then checkAccesses h
    else checkAccesses h ++ [.deliver h.rx.activeFrameBuf (len - (h.crcType.value / 8 : Nat))]

/-- The accesses for one byte. -/
def byteAccesses (h : HdlcLl π) (byte : Byte) : List Access :=
  match h.rx.state with
  | .readData =>
      if byte = flagSequence then readEndAccesses { h with rx := { h.rx with state := .readEnd } }
      else readDataByteAccesses h byte
  | _ => []

/-- How the end of a frame goes: the frame is empty, it is rejected, or it is delivered. -/
inductive EndCase (h : HdlcLl π) : RxStep π → List Access → Prop where
  | empty : EndCase h
      { h := { h with rx := { h.rx with escape := false, state := .readData } }
        result := .ok 0, read := none } []
  | rejected (status : Status) {accesses : List Access}
      (hchecks : accesses = [] ∨ accesses = checkAccesses h ∧
        (h.crcType.value / 8 : Nat) ≤ h.rx.ptr - h.rx.activeFrameBuf) : EndCase h
      { h := { h with rx := { h.rx with state := .readStart } }
        result := .error status, read := none } accesses
  | delivered (hsize : (h.crcType.value / 8 : Nat) ≤ h.rx.ptr - h.rx.activeFrameBuf)
      (hfits : h.rx.ptr - h.rx.activeFrameBuf ≤ h.physMtu) : EndCase h
      { h := { h with rx := { h.rx with state := .readStart, activeFrameBuf := nextFrameBuf h } }
        result := .ok 0
        read := some (h.rxBytes h.rx.activeFrameBuf
          ((h.rx.ptr - h.rx.activeFrameBuf).toNat - h.crcType.value / 8)) }
      (checkAccesses h ++ [.deliver h.rx.activeFrameBuf
        (h.rx.ptr - h.rx.activeFrameBuf - (h.crcType.value / 8 : Nat))])

theorem readEnd_case (h : HdlcLl π) : EndCase h (readEnd h) (readEndAccesses h) := by
  unfold readEnd readEndAccesses
  by_cases hempty : h.rx.ptr = h.rx.activeFrameBuf
  · rw [if_pos hempty, if_pos hempty]
    exact .empty
  · rw [if_neg hempty, if_neg hempty]
    dsimp only
    by_cases hlong : h.rx.ptr - h.rx.activeFrameBuf > h.physMtu
    · rw [if_pos hlong, if_pos hlong]
      exact .rejected _ (Or.inl rfl)
    · rw [if_neg hlong, if_neg hlong]
      by_cases hshort : h.rx.ptr - h.rx.activeFrameBuf < (h.crcType.value / 8 : Nat)
      · rw [if_pos hshort, if_pos hshort]
        exact .rejected _ (Or.inl rfl)
      · rw [if_neg hshort, if_neg hshort]
        have hsize := Int.not_lt.mp hshort
        by_cases hcrc : (rxCrc h (h.rx.ptr - h.rx.activeFrameBuf).toNat).1 ≠
            (rxCrc h (h.rx.ptr - h.rx.activeFrameBuf).toNat).2
        · rw [if_pos hcrc, if_pos (by exact hcrc)]
          exact .rejected _ (Or.inr ⟨rfl, hsize⟩)
        · rw [if_neg hcrc, if_neg (by exact hcrc)]
          exact .delivered hsize (Int.not_lt.mp hlong)

/-- The buffer changes where a byte is stored and nowhere else. -/
theorem rxBuf_rxByte (h : HdlcLl π) (byte : Byte) :
    (rxByte h byte).1.rxBuf = h.rxBuf ∧ (∀ offset, .store offset ∉ byteAccesses h byte) ∨
      ∃ offset value, byteAccesses h byte = [.store offset] ∧
        (rxByte h byte).1.rxBuf = Function.update h.rxBuf offset value := by
  cases hs : h.rx.state with
  | readEnd => exact Or.inl ⟨by simp [rxByte, hs], by simp [byteAccesses, hs]⟩
  | readStart =>
    refine Or.inl ⟨?_, by simp [byteAccesses, hs]⟩
    rw [rxByte_readStart hs]
    by_cases hb : byte = flagSequence <;> simp [readStart, hb]
  | readData =>
    by_cases hb : byte = flagSequence
    · rw [hb, rxByte_flag hs]
      simp only [byteAccesses, hs, if_pos]
      generalize hk : ({ h with rx := { h.rx with state := .readEnd } } : HdlcLl π) = k
      have hbuf : k.rxBuf = h.rxBuf := by rw [← hk]
      rw [← hbuf]
      have hend := readEnd_case k
      generalize readEnd k = r, readEndAccesses k = accesses at hend
      cases hend with
      | empty => exact Or.inl ⟨rfl, by simp⟩
      | rejected status hchecks =>
        refine Or.inl ⟨rfl, fun offset hm => ?_⟩
        rcases hchecks with rfl | ⟨rfl, -⟩
        · cases hm
        · simp [checkAccesses] at hm
      | delivered hsize hfits => exact Or.inl ⟨rfl, fun offset hm => by simp [checkAccesses] at hm⟩
    · rw [rxByte_data hs hb]
      simp only [byteAccesses, hs, if_neg hb, readDataByteAccesses, readDataByte]
      by_cases he : byte = escapeChar
      · rw [if_pos he, if_pos he]
        exact Or.inl ⟨rfl, by simp⟩
      · rw [if_neg he, if_neg he]
        by_cases hroom : h.rx.ptr - h.rx.activeFrameBuf < h.physMtu
        · rw [if_pos hroom, if_pos hroom]
          refine Or.inr ⟨h.rx.ptr, if h.rx.escape then byte ^^^ escapeBit else byte, rfl, ?_⟩
          cases h.rx.escape <;> rfl
        · rw [if_neg hroom, if_neg hroom]
          exact Or.inl ⟨rfl, by simp⟩

/-- The frames that are reported are the ones delivered. -/
theorem events_rxByte (h : HdlcLl π) (byte : Byte) (payload : List Byte) :
    RxEvent.frame payload ∈ (rxByte h byte).2 ↔
      ∃ start len : Int, .deliver start len ∈ byteAccesses h byte ∧
        payload = h.rxBytes start len.toNat := by
  cases hs : h.rx.state with
  | readEnd => simp [rxByte, byteAccesses, hs]
  | readStart => simp [rxByte, byteAccesses, hs]
  | readData =>
    by_cases hb : byte = flagSequence
    · rw [hb, rxByte_flag hs]
      simp only [byteAccesses, hs, if_pos]
      generalize hk : ({ h with rx := { h.rx with state := .readEnd } } : HdlcLl π) = k
      have hbytes : ∀ start len, h.rxBytes start len = k.rxBytes start len := by
        intro start len
        rw [← hk]
        rfl
      simp only [hbytes]
      have hend := readEnd_case k
      generalize readEnd k = r, readEndAccesses k = accesses at hend
      cases hend with
      | empty => simp [RxStep.events]
      | rejected status hchecks =>
        rcases hchecks with rfl | ⟨rfl, -⟩
        · simp [RxStep.events]
        · simp [RxStep.events, checkAccesses]
      | delivered hsize hfits =>
        have hlen : (k.rx.ptr - k.rx.activeFrameBuf - (k.crcType.value / 8 : Nat)).toNat =
            (k.rx.ptr - k.rx.activeFrameBuf).toNat - k.crcType.value / 8 := by omega
        have hdeliver : ∀ start len : Int, Access.deliver start len ∈ checkAccesses k ++
            [.deliver k.rx.activeFrameBuf
              (k.rx.ptr - k.rx.activeFrameBuf - (k.crcType.value / 8 : Nat))] ↔
            start = k.rx.activeFrameBuf ∧
              len = k.rx.ptr - k.rx.activeFrameBuf - (k.crcType.value / 8 : Nat) := by
          intro start len
          simp [checkAccesses]
        constructor
        · intro hframe
          refine ⟨_, _, (hdeliver _ _).mpr ⟨rfl, rfl⟩, ?_⟩
          rw [hlen]
          simpa [RxStep.events] using hframe
        · rintro ⟨start, len, hd, hp⟩
          obtain ⟨rfl, rfl⟩ := (hdeliver start len).mp hd
          rw [hlen] at hp
          simpa [RxStep.events] using hp
    · rw [rxByte_data hs hb]
      simp only [byteAccesses, hs, if_neg hb, readDataByteAccesses]
      split
      · simp
      · split <;> simp

/-! ## The ring -/

/-- The number of frames delivered. -/
def deliveries (trace : List Access) : Nat :=
  trace.countP fun a => match a with
    | .deliver _ _ => true
    | _ => false

/-- The access keeps to the frame buffer at `base`, which has room for `room` bytes, of which a
check field takes `size`. -/
def Access.Keeps (base room size : Int) : Access → Prop
  | .store offset => base ≤ offset ∧ offset < base + room
  | .check offset start len => start ≤ offset ∧ offset < start + len
  | .deliver start len => start = base ∧ 0 ≤ len ∧ len ≤ room - size

/-- Each access keeps to the slot that follows from the number of frames delivered before it,
where the slots are numbered from `k` on. -/
def Placed (n : Nat) (room size : Int) : Nat → List Access → Prop
  | _, [] => True
  | k, a :: trace =>
      a.Keeps ((k % n : Nat) * room) room size ∧ Placed n room size (k + deliveries [a]) trace

variable {n : Nat} {room size : Int}

theorem deliveries_cons (a : Access) (trace : List Access) :
    deliveries (a :: trace) = deliveries [a] + deliveries trace := by
  rw [← List.singleton_append, deliveries, List.countP_append]
  rfl

theorem deliveries_append (as bs : List Access) :
    deliveries (as ++ bs) = deliveries as + deliveries bs := List.countP_append

theorem placed_append {as bs : List Access} {k : Nat} :
    Placed n room size k (as ++ bs) ↔
      Placed n room size k as ∧ Placed n room size (k + deliveries as) bs := by
  induction as generalizing k with
  | nil => exact (true_and _).symm ▸ Iff.rfl
  | cons a as ih =>
    rw [List.cons_append, Placed, Placed, ih, deliveries_cons a as, and_assoc, Nat.add_assoc]

theorem placed_checks {h : HdlcLl π} (hsize : (h.crcType.value / 8 : Nat) ≤
    h.rx.ptr - h.rx.activeFrameBuf) (k : Nat) :
    Placed n room size k (checkAccesses h) ∧ deliveries (checkAccesses h) = 0 := by
  have hall : ∀ l : List Nat, (∀ i ∈ l, i < h.crcType.value / 8) → ∀ k,
      Placed n room size k (l.map fun (i : Nat) => Access.check (h.rx.ptr - (i + 1))
        h.rx.activeFrameBuf (h.rx.ptr - h.rx.activeFrameBuf)) ∧
      deliveries (l.map fun (i : Nat) => Access.check (h.rx.ptr - (i + 1))
        h.rx.activeFrameBuf (h.rx.ptr - h.rx.activeFrameBuf)) = 0 := by
    intro l
    induction l with
    | nil => exact fun _ _ => ⟨trivial, rfl⟩
    | cons i l ih =>
      intro hl k
      have hi := hl i (List.mem_cons_self ..)
      obtain ⟨hrest, hcount⟩ := ih (fun j hj => hl j (List.mem_cons_of_mem _ hj)) k
      refine ⟨⟨⟨by omega, by omega⟩, hrest⟩, ?_⟩
      rw [List.map_cons, deliveries_cons, hcount]
      rfl
  exact hall _ (fun i hi => List.mem_range.mp hi) k

/-- The receiver works in slot `k` of `n` slots. -/
structure InSlot (n : Nat) (c : HdlcCrc) (room bufSize : Int) (k : Nat) (h : HdlcLl π) :
    Prop where
  idle : h.RxIdle c room
  rxBufSize : h.rxBufSize = bufSize
  active : h.rx.activeFrameBuf = (k % n : Nat) * room

/-- The wrap test of `hdlc_ll_read_end` finds the end of the last slot. -/
theorem nextFrameBuf_slot {h : HdlcLl π} {k : Nat} (hroom : 0 < h.physMtu) (hn : 0 < n)
    (hfits : (n : Int) * h.physMtu ≤ h.rxBufSize) (hmore : h.rxBufSize < (n + 1) * h.physMtu)
    (hactive : h.rx.activeFrameBuf = (k % n : Nat) * h.physMtu) :
    nextFrameBuf h = ((k + 1) % n : Nat) * h.physMtu := by
  have hlt := Nat.mod_lt k hn
  have hsplit : (k + 1) % n = if k % n + 1 = n then 0 else k % n + 1 := by
    rw [Nat.add_mod]
    split
    · next hlast =>
      by_cases hone : n = 1
      · subst hone
        exact Nat.mod_one _
      · rw [Nat.mod_eq_of_lt (show 1 < n by omega), hlast, Nat.mod_self]
    · next hlast =>
      have hone : 1 < n := by omega
      rw [Nat.mod_eq_of_lt hone, Nat.mod_eq_of_lt (by omega)]
  unfold nextFrameBuf
  dsimp only
  rw [hactive, hsplit]
  by_cases hlast : k % n + 1 = n
  · have hend : ((k % n : Nat) : Int) + 1 = n := by omega
    have hover : ((k % n : Nat) : Int) * h.physMtu + h.physMtu + h.physMtu =
        (n + 1) * h.physMtu := by
      rw [← hend]
      ring
    rw [if_pos hlast, if_pos (by omega)]
    exact (Int.zero_mul _).symm
  · have hle : ((k % n : Nat) : Int) + 2 ≤ n := by omega
    have hunder := Int.mul_le_mul_of_nonneg_right hle (Int.le_of_lt hroom)
    have heq : ((k % n : Nat) : Int) * h.physMtu + h.physMtu + h.physMtu =
        (((k % n : Nat) : Int) + 2) * h.physMtu := by ring
    rw [if_neg hlast, if_neg (by omega)]
    push_cast
    ring

variable {c : HdlcCrc} {bufSize : Int} {k : Nat}

/-- A byte keeps to the slot, and a delivery moves to the next one. -/
theorem byte_placed {h : HdlcLl π} (hc : c.stored = c) (hroom : 0 < room) (hn : 0 < n)
    (hfits : (n : Int) * room ≤ bufSize) (hmore : bufSize < (n + 1) * room)
    (hi : InSlot n c room bufSize k h) (byte : Byte) :
    Placed n room (c.value / 8 : Nat) k (byteAccesses h byte) ∧
      InSlot n c room bufSize (k + deliveries (byteAccesses h byte)) (rxByte h byte).1 := by
  have hidle := (rxByte_view hc hi.idle byte).1
  cases hs : h.rx.state with
  | readEnd => exact absurd hs hi.idle.state
  | readStart =>
    simp only [byteAccesses, hs]
    refine ⟨trivial, ⟨hidle, ?_, ?_⟩⟩
    · rw [rxByte_readStart hs, ← hi.rxBufSize]
      by_cases hb : byte = flagSequence <;> simp [readStart, hb]
    · rw [rxByte_readStart hs, show k + deliveries [] = k from rfl, ← hi.active]
      by_cases hb : byte = flagSequence <;> simp [readStart, hb]
  | readData =>
    obtain ⟨len, hlen, hle⟩ := hi.idle.ok.ptr (by simp [hs])
    by_cases hb : byte = flagSequence
    · rw [hb] at hidle ⊢
      rw [rxByte_flag hs] at hidle ⊢
      simp only [byteAccesses, hs, if_pos]
      generalize hk : ({ h with rx := { h.rx with state := .readEnd } } : HdlcLl π) = e at hidle ⊢
      have hbuf : e.rxBufSize = bufSize := by rw [← hk]; exact hi.rxBufSize
      have hactive : e.rx.activeFrameBuf = (k % n : Nat) * room := by rw [← hk]; exact hi.active
      have hmtu : e.physMtu = room := by rw [← hk]; exact hi.idle.ok.physMtu
      have hcrc : e.crcType = c := by rw [← hk]; exact hi.idle.ok.crcType
      have hend := readEnd_case e
      generalize readEnd e = r, readEndAccesses e = accesses at hend hidle ⊢
      cases hend with
      | empty => exact ⟨trivial, ⟨hidle, hbuf, hactive⟩⟩
      | rejected status hchecks =>
        rcases hchecks with rfl | ⟨rfl, hsize⟩
        · exact ⟨trivial, ⟨hidle, hbuf, hactive⟩⟩
        · obtain ⟨hplaced, hcount⟩ := @placed_checks _ n room (c.value / 8 : Nat) e hsize k
          rw [hcount]
          exact ⟨hplaced, ⟨hidle, hbuf, hactive⟩⟩
      | delivered hsize hroom' =>
        obtain ⟨hplaced, hcount⟩ := @placed_checks _ n room (c.value / 8 : Nat) e hsize k
        rw [deliveries_append, hcount, placed_append, hcount]
        have hnext := nextFrameBuf_slot (hmtu ▸ hroom) hn (by rw [hmtu, hbuf]; exact hfits)
          (by rw [hmtu, hbuf]; exact hmore) (by rw [hmtu]; exact hactive)
        refine ⟨⟨hplaced, ⟨hactive, ?_, ?_⟩, trivial⟩, ⟨hidle, hbuf, ?_⟩⟩
        · omega
        · rw [hcrc, ← hmtu]
          omega
        · rw [← hmtu]
          exact hnext
    · rw [rxByte_data hs hb] at hidle ⊢
      simp only [byteAccesses, hs, if_neg hb, readDataByteAccesses]
      have hsame : (readDataByte h byte).rxBufSize = bufSize ∧
          (readDataByte h byte).rx.activeFrameBuf = (k % n : Nat) * room := by
        rw [← hi.rxBufSize, ← hi.active]
        unfold readDataByte
        split
        · exact ⟨rfl, rfl⟩
        · split
          · split <;> exact ⟨rfl, rfl⟩
          · exact ⟨rfl, rfl⟩
      have hptr := hi.idle.ok.physMtu
      have hactive := hi.active
      split
      · exact ⟨trivial, ⟨hidle, hsame.1, hsame.2⟩⟩
      · split
        · exact ⟨⟨⟨by omega, by omega⟩, trivial⟩, ⟨hidle, hsame.1, hsame.2⟩⟩
        · exact ⟨trivial, ⟨hidle, hsame.1, hsame.2⟩⟩

/-- The accesses for a word. -/
def wordAccesses : HdlcLl π → List Byte → List Access
  | _, [] => []
  | h, byte :: data => byteAccesses h byte ++ wordAccesses (rxByte h byte).1 data

theorem word_placed {h : HdlcLl π} (hc : c.stored = c) (hroom : 0 < room) (hn : 0 < n)
    (hfits : (n : Int) * room ≤ bufSize) (hmore : bufSize < (n + 1) * room)
    (hi : InSlot n c room bufSize k h) (data : List Byte) :
    Placed n room (c.value / 8 : Nat) k (wordAccesses h data) ∧
      InSlot n c room bufSize (k + deliveries (wordAccesses h data)) (after rxByte h data) := by
  induction data generalizing h k with
  | nil => exact ⟨trivial, hi⟩
  | cons byte data ih =>
    obtain ⟨hplaced, hnext⟩ := byte_placed hc hroom hn hfits hmore hi byte
    obtain ⟨hrest, hlast⟩ := ih hnext
    rw [wordAccesses, placed_append, deliveries_append, ← Nat.add_assoc]
    exact ⟨⟨hplaced, hrest⟩, hlast⟩

/-- A call to a receiver. -/
inductive RxCall where
  | runRx (data : List Byte)
  | reset (flags : ResetFlags)

/-- What a call leaves, and its accesses.  `hdlc_ll_run_rx` gives the bytes it uses to the
machine. -/
def rxCall (h : HdlcLl π) : RxCall → HdlcLl π × List Access
  | .runRx data =>
      let r := hdlcLlRunRx h data
      (r.h, wordAccesses h (data.take r.result))
  | .reset flags => (hdlcLlReset h flags, [])

/-- The accesses of one call after another. -/
def rxCalls : HdlcLl π → List RxCall → List Access
  | _, [] => []
  | h, call :: calls => (rxCall h call).2 ++ rxCalls (rxCall h call).1 calls

theorem calls_placed {h : HdlcLl π} (hc : c.stored = c) (hroom : 0 < room) (hn : 0 < n)
    (hfits : (n : Int) * room ≤ bufSize) (hmore : bufSize < (n + 1) * room)
    (hi : InSlot n c room bufSize k h) (calls : List RxCall) :
    Placed n room (c.value / 8 : Nat) k (rxCalls h calls) := by
  induction calls generalizing h k with
  | nil => trivial
  | cons call calls ih =>
    rw [rxCalls, placed_append]
    cases call with
    | runRx data =>
      obtain ⟨hplaced, hnext⟩ := word_placed hc hroom hn hfits hmore hi
        (data.take (hdlcLlRunRx h data).result)
      rw [← (hdlcLlRunRx_bytewise hi.idle.state data).handle] at hnext
      exact ⟨hplaced, ih hnext⟩
    | reset flags =>
      refine ⟨trivial, ih ?_⟩
      cases flags with
      | txOnly => exact ⟨⟨⟨hi.idle.ok.crcType, hi.idle.ok.physMtu, hi.idle.ok.ptr⟩, hi.idle.state⟩,
          hi.rxBufSize, hi.active⟩
      | both | rxOnly =>
        exact ⟨⟨⟨hi.idle.ok.crcType, hi.idle.ok.physMtu, fun hne => absurd rfl hne⟩,
          fun he => by cases he⟩, hi.rxBufSize, hi.active⟩

/-- What a receiver does with a ring of `n` slots for frames of `room` bytes. -/
structure RingSafe (n : Nat) (room size bufSize : Int) (trace : List Access) : Prop where
  /-- Every byte is stored inside of the buffer. -/
  store : ∀ offset, .store offset ∈ trace → 0 ≤ offset ∧ offset < bufSize
  /-- Every byte of a check field is read inside of the frame. -/
  check : ∀ offset start len, .check offset start len ∈ trace →
    start ≤ offset ∧ offset < start + len
  deliver : ∀ start len, .deliver start len ∈ trace → 0 ≤ len ∧ len ≤ room - size
  /-- A byte of a frame that was delivered is not overwritten before `n - 1` further frames
  are delivered. -/
  kept : ∀ before between rest start len offset,
    trace = before ++ .deliver start len :: (between ++ .store offset :: rest) →
      start ≤ offset → offset < start + len → n - 1 ≤ deliveries between

theorem Placed.mem {trace : List Access} (h : Placed n room size k trace) {a : Access}
    (ha : a ∈ trace) : ∃ j, a.Keeps ((j % n : Nat) * room) room size := by
  induction trace generalizing k with
  | nil => cases ha
  | cons b trace ih =>
    rcases List.mem_cons.mp ha with rfl | ha
    · exact ⟨k, h.1⟩
    · exact ih h.2 ha

/-- Two slots that share a place are one slot. -/
theorem slot_unique (hroom : 0 < room) {i j : Nat} {offset : Int}
    (hi : (i : Int) * room ≤ offset ∧ offset < i * room + room)
    (hj : (j : Int) * room ≤ offset ∧ offset < j * room + room) : i = j := by
  rcases Nat.lt_trichotomy i j with hlt | heq | hlt
  · have hle := Int.mul_le_mul_of_nonneg_right (show (i : Int) + 1 ≤ j by omega) (Int.le_of_lt hroom)
    rw [Int.add_mul, Int.one_mul] at hle
    omega
  · exact heq
  · have hle := Int.mul_le_mul_of_nonneg_right (show (j : Int) + 1 ≤ i by omega) (Int.le_of_lt hroom)
    rw [Int.add_mul, Int.one_mul] at hle
    omega

theorem Placed.safe {trace : List Access} (hroom : 0 < room) (hn : 0 < n) (hsize : 0 ≤ size)
    (hfits : (n : Int) * room ≤ bufSize) (h : Placed n room size 0 trace) :
    RingSafe n room size bufSize trace where
  store offset hm := by
    obtain ⟨j, hlow, hhigh⟩ := h.mem hm
    have hlt : ((j % n : Nat) : Int) + 1 ≤ n := by
      have := Nat.mod_lt j hn
      omega
    have hle := Int.mul_le_mul_of_nonneg_right hlt (Int.le_of_lt hroom)
    have hbase : 0 ≤ ((j % n : Nat) : Int) * room :=
      Int.mul_nonneg (Int.natCast_nonneg _) (Int.le_of_lt hroom)
    rw [Int.add_mul, Int.one_mul] at hle
    exact ⟨by omega, by omega⟩
  check offset start len hm := (h.mem hm).choose_spec
  deliver start len hm := (h.mem hm).choose_spec.2
  kept before between rest start len offset htrace hlow hhigh := by
    rw [htrace, placed_append, Placed, placed_append, Placed] at h
    obtain ⟨-, ⟨hstart, -, hlen⟩, -, ⟨hstore, hstore'⟩, -⟩ := h
    rw [Nat.zero_add] at hstart hstore hstore'
    have hsame := slot_unique hroom ⟨hstart ▸ hlow, by omega⟩ ⟨hstore, hstore'⟩
    have hcount : deliveries [Access.deliver start len] = 1 := rfl
    rw [hcount] at hsame
    by_contra hfew
    have hgap : (deliveries before + 1 + deliveries between) % n ≠ deliveries before % n := by
      intro heq
      have hdvd := Nat.dvd_of_mod_eq_zero (Nat.sub_mod_eq_zero_of_mod_eq heq)
      have hle := Nat.le_of_dvd (by omega) hdvd
      omega
    exact hgap hsame.symm

/-- A handle that was just initialised keeps its accesses in their slots. -/
theorem init_placed {sz : StructSizes} {init : HdlcLlInit} {a : Int} {h : HdlcLl π}
    (hinit : hdlcLlInit sz init = .ok (a, h)) (hpos : 1 ≤ h.physMtu) (hle : h.physMtu ≤ h.rxBufSize)
    (calls : List RxCall) :
    0 < (h.rxBufSize / h.physMtu).toNat ∧
      ((h.rxBufSize / h.physMtu).toNat : Int) * h.physMtu ≤ h.rxBufSize ∧
      Placed (h.rxBufSize / h.physMtu).toNat h.physMtu (h.crcType.value / 8 : Nat) 0
        (rxCalls h calls) := by
  obtain ⟨hrx, -, hcrc⟩ := hdlcLlInit_ok hinit
  have hroom : 0 < h.physMtu := by omega
  have hdiv : 1 ≤ h.rxBufSize / h.physMtu := (Int.le_ediv_iff_mul_le hroom).mpr (by omega)
  have hn : (((h.rxBufSize / h.physMtu).toNat : Nat) : Int) = h.rxBufSize / h.physMtu := by omega
  have hfits : (((h.rxBufSize / h.physMtu).toNat : Nat) : Int) * h.physMtu ≤ h.rxBufSize := by
    rw [hn]
    exact Int.ediv_mul_le _ (by omega)
  have hmore : h.rxBufSize < (((h.rxBufSize / h.physMtu).toNat : Nat) + 1) * h.physMtu := by
    rw [hn]
    exact Int.lt_ediv_add_one_mul_self _ hroom
  have hslot : InSlot (h.rxBufSize / h.physMtu).toNat h.crcType h.physMtu h.rxBufSize 0 h := by
    refine ⟨⟨⟨rfl, rfl, fun hne => absurd (congrArg Rx.state hrx) hne⟩, ?_⟩, rfl, ?_⟩
    · rw [hrx]
      exact fun he => by cases he
    · rw [hrx, Nat.zero_mod]
      exact (Int.zero_mul _).symm
  have hstored : h.crcType.stored = h.crcType := by rw [hcrc, stored_stored]
  exact ⟨by omega, hfits, calls_placed hstored hroom (by omega) hfits hmore hslot calls⟩

/-- The receive ring is safe for every handle with room for a frame, and for all calls. -/
theorem ring_safe {sz : StructSizes} {init : HdlcLlInit} {a : Int} {h : HdlcLl π}
    (hinit : hdlcLlInit sz init = .ok (a, h)) (hpos : 1 ≤ h.physMtu) (hle : h.physMtu ≤ h.rxBufSize)
    (calls : List RxCall) :
    RingSafe (h.rxBufSize / h.physMtu).toNat h.physMtu (h.crcType.value / 8 : Nat) h.rxBufSize
      (rxCalls h calls) := by
  obtain ⟨hn, hfits, hplaced⟩ := init_placed hinit hpos hle calls
  exact hplaced.safe (by omega) hn (Int.natCast_nonneg _) hfits

theorem ring_safe_example :
    RingSafe 2 10 2 24 (rxCalls exampleHandle
      [.runRx [0x7E, 0x31, 0x32], .reset .rxOnly, .runRx [0x7E, 0x31, 0x7E]]) :=
  @ring_safe (List Byte) .linux64 { buf := 4096, bufSize := 160, crcType := .crc16, mtu := 8 } 4096
    exampleHandle rfl (by decide) (by decide) _

end TinyProto.Hdlc
