import TinyProto.Hdlc.Bodies
import TinyProto.Rust.Rx

/-!
# What the Rust receiver computes

Up to the end of a frame `Rx::run_rx` is `hdlc_ll_run_rx`.  So a receiver is taken for a C
handle with the check option off (`Rx.handle`), which delivers the bytes of every frame, and
`rxReport` says what `Rx::read_end` makes of them.
-/

namespace TinyProto.Rust

open Hdlc (HdlcLl RxEvent RxView fcs flagSequence viewStep)
open Transducer

variable {rx : Rx} {checks : Bool} {c : HdlcCrc} {mtu : Int}

/-! ## The receiver as a C handle -/

/-- The C handle with the fields of a receiver and a check option. -/
def Rx.handle (rx : Rx) (c : HdlcCrc) : HdlcLl Empty where
  rxBuf := rx.rxBuf
  rxBufSize := rx.rxBufSize
  crcType := c
  physMtu := rx.physMtu
  rx := { state := rx.state, ptr := rx.data, escape := rx.escape, activeFrameBuf := rx.frameBuf }
  tx := .idle

theorem readStart_handle (rx : Rx) (byte : Byte) (data : List Byte) :
    (readStart rx (byte :: data)).rx.crcType = rx.crcType ∧
      (readStart rx (byte :: data)).rx.handle c = (Hdlc.readStart (rx.handle c) (byte :: data)).h := by
  by_cases hflag : byte = flagSequence
  · simp only [readStart, Hdlc.readStart, hflag, ne_eq, not_true_eq_false, if_false]
    exact ⟨trivial, rfl⟩
  · simp only [readStart, Hdlc.readStart, ne_eq, hflag, not_false_eq_true, if_true]
    exact ⟨trivial, trivial⟩

theorem readDataByte_handle (rx : Rx) (byte : Byte) :
    (readDataByte rx byte).crcType = rx.crcType ∧
      (readDataByte rx byte).handle c = Hdlc.readDataByte (rx.handle c) byte := by
  by_cases hchar : byte = Hdlc.escapeChar
  · simp [readDataByte, Hdlc.readDataByte, Rx.handle, hchar]
  · by_cases hroom : rx.data - rx.frameBuf < rx.physMtu
    · cases hescape : rx.escape with
      | true => simp [readDataByte, Hdlc.readDataByte, Rx.handle, hchar, hroom, hescape]
      | false => simp [readDataByte, Hdlc.readDataByte, Rx.handle, hchar, hroom, hescape]
    · simp [readDataByte, Hdlc.readDataByte, Rx.handle, hchar, hroom]

theorem readDataLoop_handle (data : List Byte) : ∀ rx : Rx,
    (readDataLoop rx data).1.crcType = rx.crcType ∧
      ((readDataLoop rx data).1.handle c, (readDataLoop rx data).2) =
        Hdlc.readDataLoop (rx.handle c) data := by
  induction data with
  | nil => exact fun _ => ⟨rfl, rfl⟩
  | cons byte data ih =>
    intro rx
    obtain ⟨hcrc, hbyte⟩ := @readDataByte_handle c rx byte
    obtain ⟨hcrc', hrest⟩ := ih (readDataByte rx byte)
    rw [hbyte] at hrest
    simp only [readDataLoop, Hdlc.readDataLoop]
    by_cases hflag : byte = flagSequence
    · rw [if_pos hflag, if_pos hflag]
      exact ⟨rfl, rfl⟩
    · rw [if_neg hflag, if_neg hflag, ← hrest]
      exact ⟨hcrc'.trans hcrc, rfl⟩

/-! ## The check -/

theorem usizeSub_of_le {len n : Nat} (h : n ≤ len) : usizeSub checks len n = .ok (len - n) :=
  if_pos h

/-- The slice has all bytes to sum, if there is one at most. -/
theorem sumBytes_slice {ρ : Type} (sumByte : ρ → Byte → ρ) (init : ρ) {n : Nat} (h : n ≤ 1) :
    sumBytes sumByte init [rx.rxBuf rx.frameBuf] n =
      .ok (((rx.handle c).rxBytes rx.frameBuf n).foldl sumByte init) := by
  rw [sumBytes_ok h]
  have hn : n = 0 ∨ n = 1 := by omega
  rcases hn with rfl | rfl <;> simp [HdlcLl.rxBytes, Rx.handle]

/-- With one byte at most before the check field, the check fields are those of the C code. -/
theorem rxCrc_ok (hc : rx.crcType ≠ .default) {len : Nat}
    (hle : rx.crcType.stored.value / 8 ≤ len)
    (hshort : rx.crcType.stored.value / 8 = 0 ∨ len ≤ rx.crcType.stored.value / 8 + 1) :
    rxCrc checks rx len = .ok (Hdlc.rxCrc (rx.handle rx.crcType.stored) len) := by
  cases hct : rx.crcType with
  | default => exact absurd hct hc
  | off => simp [rxCrc, Hdlc.rxCrc, hct, HdlcCrc.stored, Rx.handle]
  | crc8 =>
    rw [hct] at hle hshort
    have hsize : 1 ≤ len := hle
    have hone : len - 1 ≤ 1 := by
      have hshort : 1 = 0 ∨ len ≤ 1 + 1 := hshort
      omega
    simp only [rxCrc, hct, usizeSub_of_le hsize, Crc8.sumBytes, bind, Except.bind]
    rw [sumBytes_slice (c := .crc8) _ _ hone]
    simp only [crc8_get]
    show _ = Except.ok (_ &&& 0x00FF#32, _)
    rw [Hdlc.and_low_byte]
    simp [Rx.handle, HdlcCrc.stored]
  | crc16 =>
    rw [hct] at hle hshort
    have hsize : 2 ≤ len := hle
    have hone : len - 2 ≤ 1 := by
      have hshort : 2 = 0 ∨ len ≤ 2 + 1 := hshort
      omega
    simp only [rxCrc, hct, usizeSub_of_le hsize, Crc16.sumBytes, bind, Except.bind]
    rw [sumBytes_slice (c := .crc16) _ _ hone]
    simp only [crc16_get]
    rfl
  | crc32 =>
    rw [hct] at hle hshort
    have hsize : 4 ≤ len := hle
    have hone : len - 4 ≤ 1 := by
      have hshort : 4 = 0 ∨ len ≤ 4 + 1 := hshort
      omega
    simp only [rxCrc, hct, usizeSub_of_le hsize, Crc32.sumBytes, bind, Except.bind]
    rw [sumBytes_slice (c := .crc32) _ _ hone]
    simp only [crc32_get]
    rfl

/-- A frame longer than the field size, and shorter than the check field, underflows. -/
theorem rxCrc_short {len : Nat} (hle : getCrcFieldSize rx.crcType ≤ len)
    (hlt : len < rx.crcType.stored.value / 8) :
    rxCrc checks rx len = .error (if checks then .arithmeticOverflow else .indexOutOfBounds) := by
  cases hct : rx.crcType with
  | default => rw [hct] at hlt; cases hlt
  | off => rw [hct] at hlt; cases hlt
  | crc8 =>
    rw [hct] at hle hlt
    exact absurd hle (Nat.not_le_of_lt hlt)
  | crc16 =>
    rw [hct] at hle hlt
    exact absurd hle (Nat.not_le_of_lt hlt)
  | crc32 =>
    rw [hct] at hle hlt
    have hsub : ¬4 ≤ len := Nat.not_le_of_lt hlt
    simp only [rxCrc, hct, usizeSub, if_neg hsub, Crc32.sumBytes, bind, Except.bind]
    cases checks with
    | true => rfl
    | false =>
      have hlong : [rx.rxBuf rx.frameBuf].length < 18446744073709551616 + len - 4 := by
        show 1 < _
        omega
      simp only [Bool.false_eq_true, if_false, sumBytes_panics hlong]

/-- With more than one byte before the check field, the slice is read past its end. -/
theorem rxCrc_long {len : Nat} (hsize : rx.crcType.stored.value / 8 ≠ 0)
    (hlt : rx.crcType.stored.value / 8 + 1 < len) :
    rxCrc checks rx len = .error .indexOutOfBounds := by
  have hlong : ∀ n : Nat, n + 1 < len → [rx.rxBuf rx.frameBuf].length < len - n := by
    intro n hn
    show 1 < _
    omega
  have hsub : ∀ n : Nat, n + 1 < len → usizeSub checks len n = .ok (len - n) :=
    fun n hn => usizeSub_of_le (by omega)
  cases hct : rx.crcType with
  | default => rw [hct] at hsize; exact absurd rfl hsize
  | off => rw [hct] at hsize; exact absurd rfl hsize
  | crc8 =>
    rw [hct] at hlt
    simp only [rxCrc, hct, hsub 1 hlt, Crc8.sumBytes, bind, Except.bind, sumBytes_panics (hlong 1 hlt)]
  | crc16 =>
    rw [hct] at hlt
    simp only [rxCrc, hct, hsub 2 hlt, Crc16.sumBytes, bind, Except.bind,
      sumBytes_panics (hlong 2 hlt)]
  | crc32 =>
    rw [hct] at hlt
    simp only [rxCrc, hct, hsub 4 hlt, Crc32.sumBytes, bind, Except.bind,
      sumBytes_panics (hlong 4 hlt)]

/-- What `Rx::read_end` makes of the bytes of a frame. -/
def rxReport (checks : Bool) (c : HdlcCrc) (body : List Byte) : Except Panic RxEvent :=
  let size := c.stored.value / 8
  if body.length < getCrcFieldSize c then .ok (.error .wrongCrc)
  else if body.length < size then
    .error (if checks then .arithmeticOverflow else .indexOutOfBounds)
  else if size ≠ 0 ∧ size + 1 < body.length then .error .indexOutOfBounds
  else if fcs c.stored (body.take (body.length - size)) = body.drop (body.length - size) then
    .ok (.frame (body.take (body.length - getCrcFieldSize c)))
  else .ok (.error .wrongCrc)

/-- What one state function reported. -/
def RxStep.events (r : RxStep) : List RxEvent :=
  r.read.toList.map RxEvent.frame ++
    if r.error = .success then [] else [RxEvent.error r.error.status]

theorem stored_stored_eq (c : HdlcCrc) : c.stored.stored = c.stored := by
  cases c <;> rfl

/-- The end of a frame of `n` bytes that fit the buffer. -/
theorem readEnd_report (hc : rx.crcType ≠ .default) {n : Nat} (hp : rx.data = rx.frameBuf + n)
    (hz : n ≠ 0) (hle : (n : Int) ≤ rx.physMtu) :
    ∃ rx' : Rx, rx'.crcType = rx.crcType ∧ rx'.physMtu = rx.physMtu ∧ rx'.state = .readStart ∧
      (readEnd checks rx).map (fun r => (r.rx, r.result, r.events)) =
        (rxReport checks rx.crcType (rx.bytes rx.frameBuf n)).map fun event => (rx', 0, [event]) := by
  have hne : rx.data ≠ rx.frameBuf := by omega
  have hsub : rx.data - rx.frameBuf = n := by omega
  have hfits : ¬(n : Int) > rx.physMtu := by omega
  have hlen : (rx.bytes rx.frameBuf n).length = n := by simp [Rx.bytes]
  have htake : ∀ k, (rx.bytes rx.frameBuf n).take (n - k) = rx.bytes rx.frameBuf (n - k) :=
    fun k => Hdlc.rxBytes_take (rx.handle .default) rx.frameBuf (Nat.sub_le n k)
  simp only [readEnd, if_neg hne, hsub, if_neg hfits, Int.ofNat_lt, Int.toNat_natCast, rxReport, hlen]
  by_cases hfield : n < getCrcFieldSize rx.crcType
  · rw [if_pos hfield, if_pos hfield]
    exact ⟨{ rx with state := .readStart }, rfl, rfl, rfl, rfl⟩
  · rw [if_neg hfield, if_neg hfield]
    by_cases hshort : n < rx.crcType.stored.value / 8
    · have hcrc := @rxCrc_short { rx with state := .readStart } checks n (Nat.le_of_not_lt hfield) hshort
      rw [if_pos hshort, hcrc]
      exact ⟨{ rx with state := .readStart }, rfl, rfl, rfl, rfl⟩
    · rw [if_neg hshort]
      by_cases hlong : rx.crcType.stored.value / 8 ≠ 0 ∧ rx.crcType.stored.value / 8 + 1 < n
      · have hcrc := @rxCrc_long { rx with state := .readStart } checks n hlong.1 hlong.2
        rw [if_pos hlong, hcrc]
        exact ⟨{ rx with state := .readStart }, rfl, rfl, rfl, rfl⟩
      · have hone : rx.crcType.stored.value / 8 = 0 ∨ n ≤ rx.crcType.stored.value / 8 + 1 := by
          omega
        have hcrc := @rxCrc_ok { rx with state := .readStart } checks hc n
          (Nat.le_of_not_lt hshort) hone
        have hiff := @Hdlc.rxCrc_eq_iff _
          (Rx.handle { rx with state := .readStart } rx.crcType.stored) n
          (stored_stored_eq rx.crcType) hp (Nat.le_of_not_lt hshort)
        rw [if_neg hlong, hcrc, htake, htake]
        generalize Hdlc.rxCrc _ n = crcs at hiff ⊢
        obtain ⟨calcCrc, readCrc⟩ := crcs
        simp only [bind, Except.bind]
        by_cases heq : fcs rx.crcType.stored (rx.bytes rx.frameBuf (n - rx.crcType.stored.value / 8)) =
            (rx.bytes rx.frameBuf n).drop (n - rx.crcType.stored.value / 8)
        · have hsame : calcCrc = readCrc := hiff.mpr heq
          rw [if_pos heq, if_neg (not_not.mpr hsame)]
          exact ⟨{ rx with state := .readStart, frameBuf := nextFrameBuf rx }, rfl, rfl, rfl, rfl⟩
        · have hdiffer : calcCrc ≠ readCrc := fun hsame => heq (hiff.mp hsame)
          rw [if_neg heq, if_pos hdiffer]
          exact ⟨{ rx with state := .readStart }, rfl, rfl, rfl, rfl⟩

/-! ## The driver -/

/-- What a call leaves, with what the user saw. -/
def RunRx.toRead (r : RunRx) : Read Rx RxEvent :=
  { state := r.rx, used := r.result, outputs := r.events }

/-- A turn of the loop between two frames. -/
theorem runRxLoop_readStart (hs : rx.state = .readStart) (fuel : Nat) (byte : Byte)
    (data : List Byte) :
    (runRxLoop checks (fuel + 1) rx (byte :: data)).map RunRx.toRead =
      ((runRxLoop checks fuel (readStart rx (byte :: data)).rx data).map RunRx.toRead).map
        fun r => { r with used := 1 + r.used } := by
  have hstart : (readStart rx (byte :: data)).error = .success ∧
      (readStart rx (byte :: data)).result = 1 ∧ (readStart rx (byte :: data)).read = none := by
    by_cases hb : byte = flagSequence <;> simp [readStart, hb]
  obtain ⟨herr, hres, hread⟩ := hstart
  simp only [runRxLoop, rxStateCall, hs, ne_eq, reduceCtorEq, not_false_eq_true, true_or, if_true,
    bind, Except.bind, herr, not_true_eq_false, if_false, hres, Nat.one_ne_zero, hread,
    Option.toList_none, List.nil_append, List.drop_one, List.tail_cons]
  cases runRxLoop checks fuel (readStart rx (byte :: data)).rx data with
  | error e => rfl
  | ok r => rfl

/-- The turn of the loop at the end of a frame. -/
theorem runRxLoop_readEnd (hs : rx.state = .readEnd) (fuel : Nat) (data : List Byte)
    {event : Except Panic (List RxEvent)} {rx' : Rx}
    (hend : (readEnd checks rx).map (fun r => (r.rx, r.result, r.events)) =
      event.map fun events => (rx', 0, events)) :
    (runRxLoop checks (fuel + 1) rx data).map RunRx.toRead =
      event.map fun events => { state := rx', used := 0, outputs := events } := by
  simp only [runRxLoop, rxStateCall, hs, or_true, if_true, bind, Except.bind]
  cases hr : readEnd checks rx with
  | error e =>
    rw [hr] at hend
    cases event with
    | error e' =>
      cases hend
      rfl
    | ok events => cases hend
  | ok r =>
    rw [hr] at hend
    cases event with
    | error e' => cases hend
    | ok events =>
      simp only [Except.map, Except.ok.injEq, Prod.mk.injEq] at hend ⊢
      obtain ⟨hrx, hres, hevents⟩ := hend
      rw [← hevents, ← hrx]
      by_cases herr : r.error = .success
      · simp [herr, hres, RunRx.toRead, RunRx.events, RxStep.events]
      · simp [herr, RunRx.toRead, RunRx.events, RxStep.events]

/-- The turns of the loop inside of a frame. -/
theorem runRxLoop_readData (hs : rx.state = .readData) {byte : Byte} {data : List Byte} {rx' : Rx}
    {n : Nat} (hr : readDataLoop rx (byte :: data) = (rx', n + 1)) (fuel : Nat) :
    (runRxLoop checks (fuel + 1) rx (byte :: data)).map RunRx.toRead =
      ((runRxLoop checks fuel rx' (data.drop n)).map RunRx.toRead).map
        fun r => { r with used := n + 1 + r.used } := by
  simp only [runRxLoop, rxStateCall, hs, readData, hr, ne_eq, reduceCtorEq, not_false_eq_true,
    true_or, if_true, bind, Except.bind, not_true_eq_false, if_false, Nat.add_eq_zero_iff,
    Nat.one_ne_zero, and_false, Option.toList_none, List.nil_append, List.drop_succ_cons]
  cases runRxLoop checks fuel rx' (data.drop n) with
  | error e => rfl
  | ok r => rfl

theorem runRxLoop_nil (hs : rx.state ≠ .readEnd) (fuel : Nat) :
    (runRxLoop checks fuel rx []).map RunRx.toRead =
      .ok { state := rx, used := 0, outputs := [] } := by
  cases fuel with
  | zero => rfl
  | succ fuel => simp [runRxLoop, hs, Except.map, RunRx.toRead, RunRx.events]

/-- The receiver `rx` is in the state `view` of the transducer with no check. -/
structure Rx.Shows (c : HdlcCrc) (mtu : Int) (view : RxView) (rx : Rx) : Prop where
  crcType : rx.crcType = c
  idle : (rx.handle .default).RxIdle .default mtu
  view_eq : (rx.handle .default).view = view

/-- What a call does next to a C handle with no check: it uses the same bytes, and reports on
the frame that the handle delivers, if it delivers one. -/
def FollowsHandle (checks : Bool) (c : HdlcCrc) (mtu : Int) (r : Hdlc.RunRx Empty)
    (q : Except Panic (Read Rx RxEvent)) : Prop :=
  r.error = .success ∧ ∃ rx' : Rx, rx'.Shows c mtu r.h.view ∧
    q = (r.read.mapM (rxReport checks c)).map fun outputs =>
      { state := rx', used := r.result, outputs := outputs }

/-- The end of a frame, next to a C handle with no check. -/
theorem readEnd_follows (hc : rx.crcType = c) (hd : c ≠ .default)
    (ho : (rx.handle .default).RxOk .default mtu) (hs : rx.state = .readEnd) :
    ∃ rx' : Rx, rx'.Shows c mtu (Hdlc.readEnd (rx.handle .default)).h.view ∧
      (Hdlc.readEnd (rx.handle .default)).result = .ok 0 ∧
      (readEnd checks rx).map (fun r => (r.rx, r.result, r.events)) =
        ((Hdlc.readEnd (rx.handle .default)).read.toList.mapM (rxReport checks c)).map
          fun events => (rx', 0, events) := by
  subst hc
  obtain ⟨n, hn, hle⟩ := ho.ptr (by simp [Rx.handle, hs])
  have hp : rx.data = rx.frameBuf + n := hn
  by_cases hz : n = 0
  · have hempty : rx.data = rx.frameBuf := by omega
    refine ⟨{ rx with escape := false, state := .readData }, ⟨rfl, ⟨⟨rfl, ho.physMtu, ?_⟩, ?_⟩, ?_⟩, ?_⟩
    · exact fun _ => ⟨n, hn, hle⟩
    · simp [Rx.handle]
    · rw [Hdlc.readEnd_empty (by exact hempty)]
      rfl
    · rw [Hdlc.readEnd_empty (by exact hempty), readEnd, if_pos hempty]
      exact ⟨rfl, rfl⟩
  · have hfits : (n : Int) ≤ rx.physMtu := by
      have hmtu : rx.physMtu = mtu := ho.physMtu
      omega
    obtain ⟨rx', hcrc, hmtu, hstate, hend⟩ := @readEnd_report _ checks hd n hp hz hfits
    have hview : ∀ h : HdlcLl Empty, h.rx.state = .readStart →
        (rx'.handle .default).view = h.view := by
      intro h hh
      rw [Hdlc.view_readStart hh, Hdlc.view_readStart (by exact hstate)]
    have hidle : (rx'.handle .default).RxIdle .default mtu :=
      ⟨⟨rfl, hmtu.trans ho.physMtu, fun hne => absurd hstate hne⟩, by simp [Rx.handle, hstate]⟩
    rw [Hdlc.readEnd_eq hn hz hfits]
    rw [if_neg (by simp [Rx.handle, HdlcCrc.value, Hdlc.rxCrc])]
    refine ⟨rx', ⟨hcrc, hidle, hview _ rfl⟩, rfl, ?_⟩
    have hall : (rx.handle .default).rxBytes (rx.handle .default).rx.activeFrameBuf
        (n - (rx.handle .default).crcType.value / 8) = rx.bytes rx.frameBuf n := by
      simp [Rx.handle, HdlcCrc.value, HdlcLl.rxBytes, Rx.bytes]
    rw [hend, hall]
    cases hrep : rxReport checks rx.crcType (rx.bytes rx.frameBuf n) with
    | error e => simp [hrep, bind, Except.bind, Except.map]
    | ok event => simp [hrep, bind, Except.bind, Except.map, pure, Except.pure]

/-- Every turn of the loop is a turn of the C loop. -/
theorem runRxLoop_follows (hd : c ≠ .default) : ∀ (fuel : Nat) (rx : Rx) (data : List Byte),
    rx.crcType = c → (rx.handle .default).RxIdle .default mtu → data.length < fuel →
    FollowsHandle checks c mtu (Hdlc.runRxLoop fuel (rx.handle .default) data)
      ((runRxLoop checks fuel rx data).map RunRx.toRead)
  | 0, rx, data, _, _, hf => by omega
  | fuel + 1, rx, [], hc, hi, _ => by
    have hs : rx.state ≠ .readEnd := hi.state
    rw [runRxLoop_nil hs]
    have hloop : Hdlc.runRxLoop (fuel + 1) (rx.handle .default) [] =
        { h := rx.handle .default, result := 0, error := .success, read := [] } := by
      simp [Hdlc.runRxLoop, Rx.handle, hs]
    rw [hloop]
    exact ⟨rfl, rx, ⟨hc, hi, rfl⟩, rfl⟩
  | fuel + 1, rx, byte :: data, hc, hi, hf => by
    cases hs : rx.state with
    | readEnd => exact absurd hs hi.state
    | readStart =>
      obtain ⟨hi', -⟩ := Hdlc.readStart_view hi hs byte data
      obtain ⟨hcrc, hstart⟩ := @readStart_handle .default rx byte data
      rw [← hstart] at hi'
      obtain ⟨herr, rx', hshows, hq⟩ :=
        runRxLoop_follows hd fuel _ data (hcrc.trans hc) hi' (by simpa using hf)
      rw [Hdlc.runRxLoop_readStart (by exact hs), runRxLoop_readStart hs, hq, ← hstart]
      refine ⟨herr, rx', hshows, ?_⟩
      generalize List.mapM (rxReport checks c) _ = outputs
      cases outputs <;> rfl
    | readData =>
      obtain ⟨hcrc, hloop⟩ := @readDataLoop_handle .default (byte :: data) rx
      by_cases hm : flagSequence ∈ byte :: data
      · obtain ⟨pre, post, h', -, hafter, hstate, -, hr⟩ :=
          @Hdlc.readDataLoop_upTo _ (rx.handle .default) hs _ hm
        obtain ⟨hidle, -, -⟩ := @Hdlc.after_rxByte_view _ .default mtu rfl _ hi pre
        rw [← hafter] at hidle
        obtain ⟨rx₁, hrx₁⟩ : ∃ rx₁, (readDataLoop rx (byte :: data)).1 = rx₁ := ⟨_, rfl⟩
        rw [hrx₁, hr, Prod.mk.injEq] at hloop
        obtain ⟨hh, hn⟩ := hloop
        have hs' : rx₁.state = .readEnd :=
          congrArg (fun k : HdlcLl Empty => k.rx.state) hh
        have ho' : (rx₁.handle .default).RxOk .default mtu := by
          rw [hh]
          exact ⟨hidle.ok.crcType, hidle.ok.physMtu, fun _ => hidle.ok.ptr (by simp [hstate])⟩
        obtain ⟨fuel', rfl⟩ : ∃ k, fuel = k + 1 :=
          ⟨fuel - 1, by simp only [List.length_cons] at hf; omega⟩
        obtain ⟨rx', hshows, hres, hend⟩ :=
          @readEnd_follows rx₁ checks c mtu (hrx₁ ▸ hcrc.trans hc) hd ho' hs'
        rw [← hh] at hr
        rw [Hdlc.runRxLoop_flag (by exact hs) hr hs',
          runRxLoop_readData hs (Prod.ext hrx₁ hn), runRxLoop_readEnd hs' fuel' _ hend, hres]
        refine ⟨rfl, rx', hshows, ?_⟩
        generalize List.mapM (rxReport checks c) _ = outputs
        cases outputs <;> rfl
      · obtain ⟨hr, -, -⟩ := @Hdlc.readDataLoop_through _ (rx.handle .default) hs _ hm
        obtain ⟨hi', -, -⟩ := @Hdlc.after_rxByte_view _ .default mtu rfl _ hi (byte :: data)
        obtain ⟨rx₁, hrx₁⟩ : ∃ rx₁, (readDataLoop rx (byte :: data)).1 = rx₁ := ⟨_, rfl⟩
        rw [hrx₁] at hloop hcrc
        rw [hr, Prod.mk.injEq] at hloop
        obtain ⟨hh, hn⟩ := hloop
        rw [← hh] at hr hi'
        have hs' : rx₁.state ≠ .readEnd := hi'.state
        rw [Hdlc.runRxLoop_body (by exact hs) hr hs', runRxLoop_readData hs (Prod.ext hrx₁ hn),
          List.drop_length, runRxLoop_nil hs']
        exact ⟨rfl, rx₁, ⟨hcrc.trans hc, hi', rfl⟩, rfl⟩

theorem readEnd_result {r : RxStep} (hr : readEnd checks rx = .ok r) : r.result = 0 := by
  unfold readEnd at hr
  split at hr
  · cases hr
    rfl
  · dsimp only at hr
    split at hr
    · cases hr
      rfl
    · split at hr
      · cases hr
        rfl
      · cases hcrc : rxCrc checks { rx with state := .readStart } (rx.data - rx.frameBuf).toNat with
        | error e =>
          rw [hcrc] at hr
          cases hr
        | ok crcs =>
          rw [hcrc] at hr
          simp only [bind, Except.bind] at hr
          split at hr <;> (cases hr; rfl)

/-- The loop of `Rx::run_rx` ends: more turns change nothing. -/
theorem runRxLoop_stops (fuel : Nat) (rx : Rx) {data : List Byte} (hf : data.length < fuel) :
    runRxLoop checks (fuel + 1) rx data = runRxLoop checks fuel rx data := by
  induction fuel generalizing rx data with
  | zero => omega
  | succ fuel ih =>
    rw [runRxLoop]
    conv_rhs => rw [runRxLoop]
    by_cases hgoes : data ≠ [] ∨ rx.state = .readEnd
    · rw [if_pos hgoes, if_pos hgoes]
      cases hr : rxStateCall checks rx data with
      | error e => rfl
      | ok r =>
        simp only [bind, Except.bind]
        by_cases herr : r.error ≠ .success
        · rw [if_pos herr, if_pos herr]
        · rw [if_neg herr, if_neg herr]
          by_cases hzero : r.result = 0
          · rw [if_pos hzero, if_pos hzero]
          · have hdata : data ≠ [] := by
              -- with no data left only the end of a frame is called, which uses none
              rcases hgoes with hdata | hs
              · exact hdata
              · rw [rxStateCall, hs] at hr
                exact absurd (readEnd_result hr) hzero
            have hpos : 0 < data.length := List.length_pos_iff.mpr hdata
            have hdrop : (data.drop r.result).length < fuel := by
              rw [List.length_drop]
              omega
            rw [if_neg hzero, if_neg hzero, ih r.rx hdrop]
    · rw [if_neg hgoes, if_neg hgoes]

/-! ## The receiver as a reader -/

/-- A `Rx::run_rx` call. -/
def runRxRead (checks : Bool) (rx : Rx) (data : List Byte) : Except Panic (Read Rx RxEvent) :=
  (runRx checks rx data).map RunRx.toRead

/-- What is reported where a receiver with no check reports `event`. -/
def rejudge (checks : Bool) (c : HdlcCrc) : RxEvent → Except Panic RxEvent
  | .frame body => rxReport checks c body
  | .error status => .ok (.error status)

theorem runRxRead_consumes (hd : c ≠ .default) :
    Consumes (viewStep .default mtu) (rejudge checks c) (Rx.Shows c mtu) (runRxRead checks) := by
  intro view rx data hshows hne
  have hacc := @Hdlc.hdlcLlRunRx_account _ .default mtu rfl _ hshows.idle data
  obtain ⟨herr, rx', hshows', hq⟩ := @runRxLoop_follows checks c mtu hd (data.length + 1) rx data
    hshows.crcType hshows.idle (Nat.lt_succ_self _)
  have hevents : (Hdlc.hdlcLlRunRx (rx.handle .default) data).events =
      (Hdlc.hdlcLlRunRx (rx.handle .default) data).read.map RxEvent.frame := by
    rw [Hdlc.RunRx.events, if_pos (by exact herr), List.append_nil]
  rw [← hshows.view_eq]
  refine ⟨_, rx', hacc.pos hne, hacc.le, hacc.silent, ?_, ?_⟩
  · rw [← hacc.view]
    exact hshows'
  · rw [← hacc.events, hevents, List.mapM_map]
    exact hq

end TinyProto.Rust
