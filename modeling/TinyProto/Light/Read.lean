import TinyProto.Hdlc.Receiver
import TinyProto.Hdlc.Rfc1662
import TinyProto.Light.Send

/-!
# Receiving with `tiny_light`

`tiny_light_read` of `proto/light/tiny_light.c`.  Every call points the receiver to the buffer
it is given, with the write pointer and the state left as they are.  Only a frame, a rejected
frame and the timeout leave the receiver between two frames: after an error of `read_func` the
next call goes on in the middle of a frame, at a place of the buffer before.

A call keeps to its own buffer when it finds the receiver between two frames, when its buffer
still holds what was received of the frame, or when that place is behind its buffer
(`Ready`, `light_read_own_buffer`).
-/

namespace TinyProto.Light

open Hdlc

variable {π : Type}

/-! ## `tiny_light_read` -/

/-- An answer of `read_func`, which is asked for one byte. -/
inductive Fetched where
  /-- The negative result `-1 - code`. -/
  | failed (code : Nat)
  | empty
  | byte (byte : Byte)

/-- The negative result of an answer. -/
def Fetched.error : Fetched → Option Int
  | .failed code => some (Int.negSucc code)
  | _ => none

/-- The bytes of an answer. -/
def Fetched.stream : Fetched → List Byte
  | .byte b => [b]
  | _ => []

/-- What a call leaves when it has returned. -/
structure ReadResult (π : Type) where
  hdlc : HdlcLl π
  result : Int
  /-- The bytes that `read_func` delivered. -/
  fetched : List Byte
  /-- The accesses to the buffer, at offsets from `pbuf`. -/
  accesses : List Access

/-- The last length that `on_frame_read` stored in `rx_len`, which was `0`. -/
def rxLen (read : List (List Byte)) : Nat := (read.getLast?.getD []).length

/-- The loop of `tiny_light_read`. -/
def readLoop (ts : BitVec 32) :
    HdlcLl π → List Fetched → List (BitVec 32) → Option (ReadResult π)
  | _, [], _ => none
  | hdlc, answer :: answers, millis =>
      match answer.error with
      | some result => some { hdlc := hdlc, result := result, fetched := [], accesses := [] }
      | none =>
          let stream := answer.stream
          let first := hdlcLlRunRx hdlc stream
          let second :=
            if first.error = .success then hdlcLlRunRx first.h [] else { first with read := [] }
          let len := rxLen (first.read ++ second.read)
          let stop (last : HdlcLl π) (result : Int) : ReadResult π :=
            { hdlc := last, result := if len ≠ 0 then len else result, fetched := stream,
              accesses := wordAccesses hdlc stream }
          if second.error ≠ .success then some (stop second.h second.error.code)
          else
            match millis with
            | [] => none
            | now :: millis =>
                if now - ts ≥ 1000 then
                  some (stop (hdlcLlReset second.h .rxOnly) Status.timeout.code)
                else if len ≠ 0 then some (stop second.h Status.success.code)
                else
                  (readLoop ts second.h answers millis).map fun r =>
                    { r with fetched := stream ++ r.fetched,
                             accesses := wordAccesses hdlc stream ++ r.accesses }

/-- The fields of `STinyLightData` that `tiny_light_read` uses.  The offsets of the receiver
count from `rxBuf`, the address of `_hdlc->rx_buf`. -/
structure LightData (π : Type) where
  hdlc : HdlcLl π
  rxBuf : Int

/-- The receiver as `tiny_light_read` points it to `pbuf`.  The distance to a buffer before is
not narrowed to `int` where `hdlc_ll_read_end` does so. -/
def LightData.pointTo (handle : LightData π) (memory : Int → Byte) (pbuf len : Int) : HdlcLl π :=
  { handle.hdlc with
    rxBuf := fun i => memory (pbuf + i)
    rxBufSize := len
    physMtu := len
    rx := { handle.hdlc.rx with
      ptr := handle.rxBuf + handle.hdlc.rx.ptr - pbuf
      activeFrameBuf := 0 } }

/-- `tiny_light_read`, with the answers of `read_func` and of `tiny_millis`. -/
def tinyLightRead (handle : LightData π) (memory : Int → Byte) (pbuf len : Int)
    (answers : List Fetched) (millis : List (BitVec 32)) : Option (ReadResult π) :=
  match millis with
  | [] => none
  | ts :: millis => readLoop ts (handle.pointTo memory pbuf len) answers millis

/-- The handles a program can have, with all the bytes that were received.  Between two calls
the memory may change. -/
inductive LightData.Reachable : LightData π → List Byte → Prop where
  | init {sz : StructSizes} {buffer a : Int} {crcType : HdlcCrc} {hdlc : HdlcLl π}
      (hi : tinyLightInit sz buffer crcType = .ok (a, hdlc)) :
      Reachable { hdlc := hdlc, rxBuf := a + sz.hdlcData } []
  | read {handle : LightData π} {received : List Byte} (memory : Int → Byte) (pbuf : Int)
      {len : Int} (hl : 1 ≤ len) (answers : List Fetched) (millis : List (BitVec 32))
      {r : ReadResult π} (hr : Reachable handle received)
      (hret : tinyLightRead handle memory pbuf len answers millis = some r) :
      Reachable { hdlc := r.hdlc, rxBuf := pbuf } (received ++ r.fetched)

/-! ## One turn of the loop -/

theorem code_nonpos (status : Status) : status.code ≤ 0 := by
  cases status <;> decide

theorem runRx_nil {h : HdlcLl π} (hi : h.rx.state ≠ .readEnd) :
    hdlcLlRunRx h [] = { h := h, result := 0, error := .success, read := [] } := by
  simp [hdlcLlRunRx, runRxLoop, hi]

/-- What an answer does to the receiver. -/
theorem runRx_answer {h : HdlcLl π} (hi : h.rx.state ≠ .readEnd) (answer : Fetched) :
    (hdlcLlRunRx h answer.stream).h = Transducer.after rxByte h answer.stream ∧
      (hdlcLlRunRx h answer.stream).events = Transducer.emits rxByte h answer.stream ∧
      (hdlcLlRunRx h answer.stream).h.rx.state ≠ .readEnd := by
  have hcall := hdlcLlRunRx_bytewise hi answer.stream
  have hlen : answer.stream.length ≤ (hdlcLlRunRx h answer.stream).result := by
    cases answer with
    | failed code => exact Nat.zero_le _
    | empty => exact Nat.zero_le _
    | byte b => exact hcall.pos (List.cons_ne_nil b [])
  have hhandle := hcall.handle
  have hevents := hcall.events
  rw [List.take_of_length_le hlen] at hhandle hevents
  exact ⟨hhandle, hevents, hcall.state⟩

/-- A length in `rx_len` is the one of a frame that was read. -/
theorem rxLen_frame {r : RunRx π} (hne : rxLen r.read ≠ 0) :
    ∃ payload, RxEvent.frame payload ∈ r.events ∧ rxLen r.read = payload.length := by
  unfold rxLen at hne ⊢
  cases hlast : r.read.getLast? with
  | none =>
    rw [hlast] at hne
    exact absurd rfl hne
  | some payload =>
    refine ⟨payload, ?_, rfl⟩
    exact List.mem_append_left _ (List.mem_map_of_mem (List.mem_of_getLast? hlast))

/-- How a call ends with an answer: it keeps to the handle or resets it, and a positive result
is the length of a frame. -/
structure Stops (h : HdlcLl π) (stream : List Byte) (r : ReadResult π) : Prop where
  fetched : r.fetched = stream
  accesses : r.accesses = wordAccesses h stream
  hdlc : r.hdlc = Transducer.after rxByte h stream ∨
    r.hdlc = hdlcLlReset (Transducer.after rxByte h stream) .rxOnly
  frame : 0 < r.result → ∃ payload,
    RxEvent.frame payload ∈ Transducer.emits rxByte h stream ∧ r.result = payload.length

theorem readLoop_cases {ts : BitVec 32} {h : HdlcLl π} (hi : h.rx.state ≠ .readEnd)
    {answer : Fetched} {answers : List Fetched} {millis : List (BitVec 32)} {r : ReadResult π}
    (hr : readLoop ts h (answer :: answers) millis = some r) :
    Stops h answer.stream r ∨ ∃ millis' s,
      readLoop ts (Transducer.after rxByte h answer.stream) answers millis' = some s ∧
        r = { s with fetched := answer.stream ++ s.fetched,
                     accesses := wordAccesses h answer.stream ++ s.accesses } := by
  obtain ⟨hh, hevents, hstate⟩ := runRx_answer hi answer
  have hsecond : (if (hdlcLlRunRx h answer.stream).error = .success then
        hdlcLlRunRx (hdlcLlRunRx h answer.stream).h []
      else { hdlcLlRunRx h answer.stream with read := [] }) =
      { h := Transducer.after rxByte h answer.stream,
        result := if (hdlcLlRunRx h answer.stream).error = .success then 0
          else (hdlcLlRunRx h answer.stream).result,
        error := (hdlcLlRunRx h answer.stream).error, read := [] } := by
    split
    · next hok => rw [runRx_nil hstate, hh, hok]
    · rw [← hh]
  unfold readLoop at hr
  cases herror : answer.error with
  | some result =>
    rw [herror] at hr
    cases hr
    obtain ⟨hstream, hneg⟩ : answer.stream = [] ∧ result < 0 := by
      cases answer with
      | failed code =>
        cases herror
        exact ⟨rfl, Int.negSucc_lt_zero code⟩
      | empty | byte => cases herror
    rw [hstream]
    exact .inl ⟨rfl, rfl, .inl rfl, fun hpos => absurd hneg (Int.not_lt.mpr (Int.le_of_lt hpos))⟩
  | none =>
    rw [herror] at hr
    dsimp only at hr
    rw [hsecond, List.append_nil] at hr
    dsimp only at hr
    have hframe : ∀ result : Int, result ≤ 0 →
        0 < (if rxLen (hdlcLlRunRx h answer.stream).read ≠ 0 then
          (rxLen (hdlcLlRunRx h answer.stream).read : Int) else result) →
        ∃ payload, RxEvent.frame payload ∈ Transducer.emits rxByte h answer.stream ∧
          (if rxLen (hdlcLlRunRx h answer.stream).read ≠ 0 then
            (rxLen (hdlcLlRunRx h answer.stream).read : Int) else result) = payload.length := by
      intro result hle hpos
      split at hpos
      · next hne =>
        obtain ⟨payload, hmem, hlen⟩ := rxLen_frame hne
        rw [if_pos hne, hlen]
        exact ⟨payload, hevents ▸ hmem, rfl⟩
      · omega
    split at hr
    · cases hr
      exact .inl ⟨rfl, rfl, .inl rfl, hframe _ (code_nonpos _)⟩
    · cases millis with
      | nil => cases hr
      | cons now millis =>
        dsimp only at hr
        split at hr
        · cases hr
          exact .inl ⟨rfl, rfl, .inr rfl, hframe _ (code_nonpos _)⟩
        · split at hr
          · next hne =>
            cases hr
            obtain ⟨payload, hmem, hlen⟩ := rxLen_frame hne
            exact .inl ⟨rfl, rfl, .inl rfl, fun _ =>
              ⟨payload, hevents ▸ hmem, congrArg Nat.cast hlen⟩⟩
          · obtain ⟨s, hs, rfl⟩ := Option.map_eq_some_iff.mp hr
            exact .inr ⟨millis, s, hs, rfl⟩

/-- A call gives the bytes it fetches to the receiver one by one, and a positive result is the
length of the frame that the last one closed. -/
structure Calls (h : HdlcLl π) (r : ReadResult π) : Prop where
  accesses : r.accesses = wordAccesses h r.fetched
  hdlc : r.hdlc = Transducer.after rxByte h r.fetched ∨
    r.hdlc = hdlcLlReset (Transducer.after rxByte h r.fetched) .rxOnly
  frame : 0 < r.result → ∃ before b payload, r.fetched = before ++ [b] ∧
    RxEvent.frame payload ∈ (rxByte (Transducer.after rxByte h before) b).2 ∧
      r.result = payload.length

theorem wordAccesses_append (h : HdlcLl π) (v w : List Byte) :
    wordAccesses h (v ++ w) =
      wordAccesses h v ++ wordAccesses (Transducer.after rxByte h v) w := by
  induction v generalizing h with
  | nil => rfl
  | cons b v ih =>
    rw [List.cons_append, wordAccesses, ih, wordAccesses, List.append_assoc]
    rfl

theorem readLoop_calls {ts : BitVec 32} : ∀ {answers : List Fetched} {h : HdlcLl π}
    {millis : List (BitVec 32)} {r : ReadResult π}, h.rx.state ≠ .readEnd →
      readLoop ts h answers millis = some r → Calls h r
  | [], _, _, _, _, hr => by cases hr
  | answer :: answers, h, millis, r, hi, hr => by
    rcases readLoop_cases hi hr with hstop | ⟨millis', s, hs, rfl⟩
    · refine ⟨hstop.fetched ▸ hstop.accesses, hstop.fetched ▸ hstop.hdlc, fun hpos => ?_⟩
      obtain ⟨payload, hmem, hlen⟩ := hstop.frame hpos
      cases answer with
      | failed code => cases hmem
      | empty => cases hmem
      | byte b =>
        refine ⟨[], b, payload, hstop.fetched, ?_, hlen⟩
        rwa [show Transducer.emits rxByte h (Fetched.byte b).stream = (rxByte h b).2 from
          List.append_nil _] at hmem
    · obtain ⟨hh, -, hstate⟩ := runRx_answer hi answer
      rw [hh] at hstate
      have ih := readLoop_calls hstate hs
      constructor
      · rw [wordAccesses_append, ih.accesses]
      · rw [Transducer.after_append]
        exact ih.hdlc
      · intro hpos
        obtain ⟨before, b, payload, hfetched, hmem, hlen⟩ := ih.frame hpos
        refine ⟨answer.stream ++ before, b, payload, ?_, ?_, hlen⟩
        · rw [hfetched, List.append_assoc]
        · rwa [Transducer.after_append]

/-! ## What a call finds and keeps -/

variable {c : HdlcCrc} {len : Int} {received : List Byte}

/-- The next byte would go behind the buffer: none is stored, and the frame is refused. -/
structure Behind (c : HdlcCrc) (len : Int) (h : HdlcLl π) : Prop where
  state : h.rx.state = .readData
  crcType : h.crcType = c
  physMtu : h.physMtu = len
  rxBufSize : h.rxBufSize = len
  active : h.rx.activeFrameBuf = 0
  ptr : len < h.rx.ptr
  int : h.rx.ptr < 2147483648

/-- The buffer has what a receiver reads of `segment` into a buffer of this length. -/
def Holding (c : HdlcCrc) (len : Int) (received : List Byte) (h : HdlcLl π) : Prop :=
  ∃ before segment, received = before ++ flagSequence :: segment ∧ flagSequence ∉ segment ∧
    h.view = Transducer.after (viewStep c len) (.data [] false) segment

/-- The receiver during a call. -/
inductive Keeps (c : HdlcCrc) (len : Int) (received : List Byte) (h : HdlcLl π) : Prop where
  | within (hslot : InSlot 1 c len len 0 h)
      (hframe : h.rx.state = .readData → Holding c len received h)
  | behind (hbehind : Behind c len h)

theorem InSlot.first {k : Nat} {h : HdlcLl π} (hslot : InSlot 1 c len len k h) :
    InSlot 1 c len len 0 h :=
  ⟨hslot.idle, hslot.rxBufSize, by rw [hslot.active, Nat.mod_one]⟩

/-- A byte of a frame goes on in the segment, and a flag opens one. -/
theorem Holding.byte (hc : c.stored = c) {h : HdlcLl π} (hidle : h.RxIdle c len)
    (hframe : h.rx.state = .readData → Holding c len received h) (b : Byte)
    (hs : (rxByte h b).1.rx.state = .readData) :
    Holding c len (received ++ [b]) (rxByte h b).1 := by
  obtain ⟨-, hview⟩ := rxByte_view hc hidle b
  have hopen : b = flagSequence → (rxByte h b).1.view = .data [] false →
      Holding c len (received ++ [b]) (rxByte h b).1 := by
    rintro rfl hv
    exact ⟨received, [], rfl, List.not_mem_nil, hv⟩
  cases hstate : h.rx.state with
  | readEnd => exact absurd hstate hidle.state
  | readStart =>
    rw [view_readStart hstate] at hview
    by_cases hb : b = flagSequence
    · rw [hb, viewStep_start_flag] at hview
      exact hopen hb (hb ▸ (congrArg Prod.fst hview).symm)
    · rw [viewStep_start hb, view_readData hs] at hview
      cases congrArg Prod.fst hview
  | readData =>
    obtain ⟨before, segment, hreceived, hno, hseg⟩ := hframe hstate
    by_cases hb : b = flagSequence
    · rw [view_readData hstate] at hview
      by_cases hbody : h.body = []
      · rw [hb, hbody, viewStep_data_empty] at hview
        exact hopen hb (hb ▸ (congrArg Prod.fst hview).symm)
      · rw [hb, viewStep_data_flag hbody, ← hb, view_readData hs] at hview
        cases congrArg Prod.fst hview
    · refine ⟨before, segment ++ [b], ?_, fun hm => ?_, ?_⟩
      · rw [hreceived, List.append_assoc]
        rfl
      · rcases List.mem_append.mp hm with hm | hm
        · exact hno hm
        · exact hb (List.mem_singleton.mp hm).symm
      · rw [Transducer.after_append, ← hseg, Transducer.after_cons, hview]
        rfl

theorem Behind.byte (hl : 1 ≤ len) {h : HdlcLl π} (hbehind : Behind c len h) (b : Byte) :
    Keeps c len (received ++ [b]) (rxByte h b).1 ∧ byteAccesses h b = [] ∧
      ∀ payload, RxEvent.frame payload ∉ (rxByte h b).2 := by
  have hroom : ¬h.rx.ptr - h.rx.activeFrameBuf < h.physMtu := by
    rw [hbehind.active, hbehind.physMtu]
    have := hbehind.ptr
    omega
  by_cases hb : b = flagSequence
  · rw [hb, rxByte_flag hbehind.state]
    have hne : h.rx.ptr ≠ h.rx.activeFrameBuf := by
      rw [hbehind.active]
      have := hbehind.ptr
      omega
    have hlong : h.rx.ptr - h.rx.activeFrameBuf > h.physMtu := by
      rw [hbehind.active, hbehind.physMtu]
      have := hbehind.ptr
      omega
    have hend : readEnd { h with rx := { h.rx with state := .readEnd } } =
        { h := { h with rx := { h.rx with state := .readStart } },
          result := .error .dataTooLarge, read := none } := by
      unfold readEnd
      rw [if_neg hne]
      dsimp only
      rw [if_pos hlong]
    refine ⟨?_, ?_, fun payload hm => ?_⟩
    · rw [hend]
      refine .within ⟨⟨⟨hbehind.crcType, hbehind.physMtu, fun hn => absurd rfl hn⟩,
        fun he => by cases he⟩, hbehind.rxBufSize, ?_⟩ fun he => by cases he
      rw [Nat.zero_mod]
      exact hbehind.active.trans (Int.zero_mul _).symm
    · unfold byteAccesses readEndAccesses
      rw [hbehind.state]
      dsimp only
      rw [if_pos rfl, if_neg hne, if_pos hlong]
    · rw [hend] at hm
      simp [RxStep.events] at hm
  · rw [rxByte_data hbehind.state hb]
    refine ⟨.behind ?_, ?_, fun payload => List.not_mem_nil⟩
    · unfold readDataByte
      split
      · exact ⟨hbehind.state, hbehind.crcType, hbehind.physMtu, hbehind.rxBufSize,
          hbehind.active, hbehind.ptr, hbehind.int⟩
      · exact hbehind
    · unfold byteAccesses readDataByteAccesses
      rw [hbehind.state]
      dsimp only
      rw [if_neg hb]
      split
      · rfl
      · rfl

/-- A byte of a call. -/
theorem Keeps.byte (hc : c.stored = c) (hl : 1 ≤ len) {h : HdlcLl π}
    (hk : Keeps c len received h) (b : Byte) :
    Keeps c len (received ++ [b]) (rxByte h b).1 ∧
      ∀ offset, .store offset ∈ byteAccesses h b → 0 ≤ offset ∧ offset < len := by
  cases hk with
  | within hslot hframe =>
    obtain ⟨hplaced, hnext⟩ := byte_placed hc hl Nat.one_pos (by omega) (by omega) hslot b
    refine ⟨.within (InSlot.first hnext) (Holding.byte hc hslot.idle hframe b), fun offset hm => ?_⟩
    obtain ⟨j, hlow, hhigh⟩ := hplaced.mem hm
    rw [Nat.mod_one] at hlow hhigh
    omega
  | behind hbehind =>
    obtain ⟨hk, hnone, -⟩ := hbehind.byte hl b
    refine ⟨hk, fun offset hm => ?_⟩
    rw [hnone] at hm
    cases hm

/-- The bytes of a call. -/
theorem Keeps.word (hc : c.stored = c) (hl : 1 ≤ len) : ∀ (w : List Byte) {received : List Byte}
    {h : HdlcLl π}, Keeps c len received h →
      Keeps c len (received ++ w) (Transducer.after rxByte h w) ∧
        ∀ offset, .store offset ∈ wordAccesses h w → 0 ≤ offset ∧ offset < len
  | [], received, h, hk => ⟨(List.append_nil received).symm ▸ hk, fun _ hm => by cases hm⟩
  | b :: w, received, h, hk => by
    obtain ⟨hnext, hbyte⟩ := hk.byte hc hl b
    obtain ⟨hlast, hword⟩ := Keeps.word hc hl w hnext
    rw [List.append_assoc] at hlast
    refine ⟨hlast, fun offset hm => ?_⟩
    rcases List.mem_append.mp hm with hm | hm
    · exact hbyte offset hm
    · exact hword offset hm

/-! ## The frame of a call -/

theorem checkBody_ok {body payload : List Byte} (h : checkBody c body = .ok payload) :
    body = payload ++ fcs c payload := by
  unfold checkBody at h
  dsimp only at h
  split at h
  · cases h
  · split at h
    · next hfcs =>
      cases h
      rw [hfcs, List.take_append_drop]
    · cases h

/-- A frame is delivered out of the buffer, and it is what was read of its segment. -/
theorem Keeps.frame (hc : c.stored = c) (hl : 1 ≤ len) {h : HdlcLl π}
    (hk : Keeps c len received h) {b : Byte} {payload : List Byte}
    (hm : RxEvent.frame payload ∈ (rxByte h b).2) :
    b = flagSequence ∧ (∃ before segment, received = before ++ flagSequence :: segment ∧
      flagSequence ∉ segment ∧
        (readUnstuffFrom false segment).take len.toNat = payload ++ fcs c payload) ∧
      (rxByte h b).1.rxBytes 0 payload.length = payload := by
  cases hk with
  | behind hbehind => exact absurd hm ((@Behind.byte π c len received hl h hbehind b).2.2 payload)
  | within hslot hframe =>
    have hs : h.rx.state = .readData := by
      cases hstate : h.rx.state with
      | readEnd => exact absurd hstate hslot.idle.state
      | readStart =>
        rw [rxByte_readStart hstate] at hm
        cases hm
      | readData => rfl
    have hb : b = flagSequence := by
      by_contra hb
      rw [rxByte_data hs hb] at hm
      cases hm
    obtain ⟨before, segment, hreceived, hno, hview⟩ := hframe hs
    obtain ⟨⟨e, hseg⟩, -⟩ := @view_segment c len [] false segment hno (Nat.zero_le _)
    rw [hseg, List.nil_append, view_readData hs] at hview
    have hbody : h.body = (readUnstuffFrom false segment).take len.toNat := by
      injection hview
    have hcheck : checkBody c h.body = .ok payload := by
      have hstep := (rxByte_view hc hslot.idle b).2
      rw [hb, view_readData hs] at hstep
      by_cases hempty : h.body = []
      · rw [hempty, viewStep_data_empty, ← hb] at hstep
        rw [← congrArg Prod.snd hstep] at hm
        cases hm
      · rw [viewStep_data_flag hempty, ← hb] at hstep
        rw [← congrArg Prod.snd hstep, List.mem_singleton] at hm
        unfold bodyEvent at hm
        split at hm
        · next hok =>
          cases hm
          exact hok
        · cases hm
    have hsplit := checkBody_ok hcheck
    have hactive : h.rx.activeFrameBuf = 0 := by rw [hslot.active, Nat.zero_mod, Nat.cast_zero,
      Int.zero_mul]
    have hbytes : h.rxBytes 0 payload.length = payload := by
      have hlen := congrArg List.length hsplit
      have htake := congrArg (List.take payload.length) hsplit
      unfold HdlcLl.body at hlen htake
      rw [hactive, length_rxBytes, List.length_append] at hlen
      have hle : payload.length ≤ (h.rx.ptr - 0).toNat := by omega
      rwa [List.take_left, hactive, rxBytes_take h 0 hle] at htake
    refine ⟨hb, ⟨before, segment, hreceived, hno, hbody ▸ hsplit⟩, ?_⟩
    have hbuf : (rxByte h b).1.rxBuf = h.rxBuf := by
      obtain ⟨start, size, hdeliver, -⟩ := (events_rxByte h b payload).mp hm
      rcases rxBuf_rxByte h b with ⟨hsame, -⟩ | ⟨offset, value, hstore, -⟩
      · exact hsame
      · rw [hstore] at hdeliver
        simp at hdeliver
    unfold HdlcLl.rxBytes at hbytes ⊢
    rw [hbuf, hbytes]

/-- Without a store the memory is as it was. -/
theorem after_rxBuf {offset : Int} : ∀ (w : List Byte) {h : HdlcLl π},
    (∀ o, .store o ∈ wordAccesses h w → o ≠ offset) →
      (Transducer.after rxByte h w).rxBuf offset = h.rxBuf offset
  | [], _, _ => rfl
  | b :: w, h, hno => by
    have hrest := after_rxBuf w fun o hm => hno o (List.mem_append_right _ hm)
    rw [Transducer.after_cons, hrest]
    rcases rxBuf_rxByte h b with ⟨hsame, -⟩ | ⟨o, value, hstore, hbuf⟩
    · rw [hsame]
    · have hne := hno o (List.mem_append_left _ (hstore ▸ List.mem_singleton_self _))
      rw [hbuf, Function.update_of_ne hne.symm]

/-! ## Every call -/

theorem rxByte_crcType (h : HdlcLl π) (b : Byte) : (rxByte h b).1.crcType = h.crcType := by
  cases hs : h.rx.state with
  | readEnd => simp [rxByte, hs]
  | readStart =>
    rw [rxByte_readStart hs]
    by_cases hb : b = flagSequence <;> simp [readStart, hb]
  | readData =>
    by_cases hb : b = flagSequence
    · rw [hb, rxByte_flag hs]
      have hend := readEnd_case { h with rx := { h.rx with state := .readEnd } }
      generalize readEnd _ = r, readEndAccesses _ = accesses at hend
      cases hend <;> rfl
    · rw [rxByte_data hs hb]
      unfold readDataByte
      split
      · rfl
      · split
        · split <;> rfl
        · rfl

theorem after_keeps : ∀ (w : List Byte) {h : HdlcLl π}, h.rx.state ≠ .readEnd →
    (Transducer.after rxByte h w).rx.state ≠ .readEnd ∧
      (Transducer.after rxByte h w).crcType = h.crcType
  | [], _, hi => ⟨hi, rfl⟩
  | b :: w, h, hi => by
    obtain ⟨hh, -, hstate⟩ := runRx_answer hi (.byte b)
    rw [hh] at hstate
    obtain ⟨hlast, hcrc⟩ := after_keeps w hstate
    exact ⟨hlast, hcrc.trans (rxByte_crcType h b)⟩

variable {handle : LightData π} {memory : Int → Byte} {pbuf : Int}

theorem LightData.Reachable.sound (hr : handle.Reachable received) :
    handle.hdlc.crcType.stored = handle.hdlc.crcType ∧ handle.hdlc.rx.state ≠ .readEnd := by
  induction hr with
  | init hi =>
    obtain ⟨hrx, -, hc⟩ := hdlcLlInit_ok hi
    refine ⟨by rw [hc, stored_stored], ?_⟩
    rw [hrx]
    exact fun he => by cases he
  | @read handle _ memory pbuf len _ answers millis r _ hret ih =>
    unfold tinyLightRead at hret
    split at hret
    · cases hret
    · have hcall := @readLoop_calls π _ _ (handle.pointTo memory pbuf len) _ _ ih.2 hret
      have hkeeps := @after_keeps π r.fetched (handle.pointTo memory pbuf len) ih.2
      rcases hcall.hdlc with he | he
      · rw [he]
        exact ⟨hkeeps.2 ▸ ih.1, hkeeps.1⟩
      · rw [he]
        exact ⟨hkeeps.2 ▸ ih.1, fun hn => by cases hn⟩

/-- What a call needs of the state it finds. -/
inductive Ready (handle : LightData π) (received : List Byte) (memory : Int → Byte)
    (pbuf len : Int) : Prop where
  /-- The receiver is between two frames. -/
  | between (hs : handle.hdlc.rx.state = .readStart)
  /-- The buffer holds what was received of the frame in progress. -/
  | resumed (hlow : pbuf ≤ handle.rxBuf + handle.hdlc.rx.ptr)
      (hhigh : handle.rxBuf + handle.hdlc.rx.ptr ≤ pbuf + len)
      (hframe : Holding handle.hdlc.crcType len received (handle.pointTo memory pbuf len))
  /-- The frame in progress goes on behind the buffer, and its length there is an `int`. -/
  | behind (hptr : pbuf + len < handle.rxBuf + handle.hdlc.rx.ptr)
      (hint : handle.rxBuf + handle.hdlc.rx.ptr - pbuf < 2147483648)

theorem Ready.keeps (hi : handle.hdlc.rx.state ≠ .readEnd)
    (hready : Ready handle received memory pbuf len) :
    Keeps handle.hdlc.crcType len received (handle.pointTo memory pbuf len) := by
  have hbetween : handle.hdlc.rx.state = .readStart →
      Keeps handle.hdlc.crcType len received (handle.pointTo memory pbuf len) := fun hs =>
    .within ⟨⟨⟨rfl, rfl, fun hn => absurd hs hn⟩, hi⟩, rfl, (Int.zero_mul _).symm⟩
      fun hd => by cases hs.symm.trans hd
  cases hready with
  | between hs => exact hbetween hs
  | resumed hlow hhigh hframe =>
    refine .within ⟨⟨⟨rfl, rfl, fun _ => ⟨(handle.rxBuf + handle.hdlc.rx.ptr - pbuf).toNat, ?_,
      .inr ?_⟩⟩, hi⟩, rfl, (Int.zero_mul _).symm⟩ fun _ => hframe
    · show handle.rxBuf + handle.hdlc.rx.ptr - pbuf = 0 + _
      omega
    · omega
  | behind hptr hint =>
    cases hs : handle.hdlc.rx.state with
    | readEnd => exact absurd hs hi
    | readStart => exact hbetween hs
    | readData =>
      refine .behind ⟨hs, rfl, rfl, rfl, rfl, ?_, hint⟩
      show len < handle.rxBuf + handle.hdlc.rx.ptr - pbuf
      omega

/-- The same buffer with the same bytes is the same to the receiver. -/
theorem pointTo_view {h : HdlcLl π} (hactive : h.rx.activeFrameBuf = 0) {n : Nat}
    (hptr : h.rx.ptr = n) (hkept : ∀ i < n, memory (pbuf + (i : Nat)) = h.rxBuf i) :
    (LightData.pointTo { hdlc := h, rxBuf := pbuf } memory pbuf len).view = h.view := by
  have hsub : pbuf + h.rx.ptr - pbuf - 0 = n := by omega
  have hsub' : h.rx.ptr - h.rx.activeFrameBuf = n := by omega
  unfold HdlcLl.view LightData.pointTo
  dsimp only
  rw [hsub, hsub', hactive, Int.toNat_natCast]
  have hbytes : HdlcLl.rxBytes { h with
        rxBuf := fun i => memory (pbuf + i)
        rxBufSize := len
        physMtu := len
        rx := { h.rx with ptr := pbuf + h.rx.ptr - pbuf, activeFrameBuf := 0 } } 0 n =
      h.rxBytes 0 n := by
    refine List.map_congr_left fun i hi => ?_
    have hlt := List.mem_range.mp hi
    simp only [Int.zero_add]
    exact hkept i hlt
  rw [hbytes]

/-- A call with the buffer of the call before is ready again, when the bytes received so far
are still in it. -/
theorem Ready.again (hr : handle.Reachable received) (hl : 1 ≤ len)
    (hready : Ready handle received memory pbuf len) {answers : List Fetched}
    {millis : List (BitVec 32)} {r : ReadResult π}
    (hret : tinyLightRead handle memory pbuf len answers millis = some r) {memory' : Int → Byte}
    (hkept : ∀ offset, 0 ≤ offset → offset < r.hdlc.rx.ptr →
      memory' (pbuf + offset) = r.hdlc.rxBuf offset) :
    Ready { hdlc := r.hdlc, rxBuf := pbuf } (received ++ r.fetched) memory' pbuf len := by
  obtain ⟨hc, hi⟩ := hr.sound
  unfold tinyLightRead at hret
  split at hret
  · cases hret
  · have hcall := @readLoop_calls π _ _ (handle.pointTo memory pbuf len) _ _ hi hret
    rcases hcall.hdlc with he | he
    · have hcrc : r.hdlc.crcType = handle.hdlc.crcType := by
        rw [he]
        exact (@after_keeps π r.fetched (handle.pointTo memory pbuf len) hi).2
      have hkeeps := ((hready.keeps hi).word hc hl r.fetched).1
      rw [← he] at hkeeps
      cases hs : r.hdlc.rx.state with
      | readStart => exact .between hs
      | readEnd =>
        cases hkeeps with
        | within hslot _ => exact absurd hs hslot.idle.state
        | behind hbehind => cases hs.symm.trans hbehind.state
      | readData =>
        cases hkeeps with
        | behind hbehind =>
          have hptr := hbehind.ptr
          have hint := hbehind.int
          exact .behind (by simp only; omega) (by simp only; omega)
        | within hslot hframe =>
          have hactive : r.hdlc.rx.activeFrameBuf = 0 := hslot.active.trans (Int.zero_mul _)
          obtain ⟨n, hn, hle⟩ := hslot.idle.ok.ptr (by simp [hs])
          refine .resumed (by simp only; omega) (by simp only; omega) ?_
          obtain ⟨before, segment, hreceived, hno, hview⟩ := hframe hs
          refine ⟨before, segment, hreceived, hno, ?_⟩
          rw [hcrc, ← hview]
          have hptr : r.hdlc.rx.ptr = n := by omega
          refine pointTo_view hactive hptr fun i hi => hkept i (Int.natCast_nonneg i) ?_
          omega
    · refine .between ?_
      rw [he]
      rfl

/-- The call stored only inside of its buffer. -/
structure Inside (memory : Int → Byte) (pbuf len : Int) (r : ReadResult π) : Prop where
  store : ∀ offset, .store offset ∈ r.accesses → 0 ≤ offset ∧ offset < len
  memory : ∀ offset, offset < 0 ∨ len ≤ offset → r.hdlc.rxBuf offset = memory (pbuf + offset)

/-- The result is the length of the frame with this segment, the whole frame, and its payload
is in the buffer. -/
def Whole (c : HdlcCrc) (segment : List Byte) (r : ReadResult π) : Prop :=
  ∃ payload, readUnstuffFrom false segment = payload ++ fcs c payload ∧
    r.result = payload.length ∧ r.hdlc.rxBytes 0 payload.length = payload

/-- A call that finds the receiver ready stores only into its own buffer.  A positive result
comes from the frame that the last byte closed, and is the one of the whole frame if and only
if the frame is not longer than the buffer. -/
theorem light_read_own_buffer (hr : handle.Reachable received) (hl : 1 ≤ len)
    (hready : Ready handle received memory pbuf len) (answers : List Fetched)
    (millis : List (BitVec 32)) {r : ReadResult π}
    (hret : tinyLightRead handle memory pbuf len answers millis = some r) :
    Inside memory pbuf len r ∧ (0 < r.result → ∃ before segment,
      received ++ r.fetched = before ++ flagSequence :: (segment ++ [flagSequence]) ∧
        flagSequence ∉ segment ∧ (Whole handle.hdlc.crcType segment r ↔
          ((readUnstuffFrom false segment).length : Int) ≤ len)) := by
  obtain ⟨hc, hi⟩ := hr.sound
  have hkeeps := hready.keeps hi
  unfold tinyLightRead at hret
  split at hret
  · cases hret
  · have hcall := readLoop_calls (show (handle.pointTo memory pbuf len).rx.state ≠ .readEnd from hi)
      hret
    obtain ⟨-, hstores⟩ := hkeeps.word hc hl r.fetched
    have hbuf : r.hdlc.rxBuf =
        (Transducer.after rxByte (handle.pointTo memory pbuf len) r.fetched).rxBuf := by
      rcases hcall.hdlc with he | he
      · rw [he]
      · rw [he]
        rfl
    refine ⟨⟨fun offset hm => hstores offset (hcall.accesses ▸ hm), fun offset hout => ?_⟩, ?_⟩
    · rw [hbuf]
      refine after_rxBuf r.fetched fun o hm he => ?_
      have := hstores o hm
      omega
    · intro hpos
      obtain ⟨before, b, payload, hfetched, hframe, hlen⟩ := hcall.frame hpos
      obtain ⟨hb, ⟨pre, segment, hsegment, hno, hbody⟩, hbytes⟩ :=
        (hkeeps.word hc hl before).1.frame hc hl hframe
      have hpayload : r.hdlc.rxBytes 0 payload.length = payload := by
        unfold HdlcLl.rxBytes at hbytes ⊢
        rw [hbuf, hfetched, Transducer.after_append]
        exact hbytes
      refine ⟨pre, segment, ?_, hno, ?_, fun hfits => ⟨payload, ?_, hlen, hpayload⟩⟩
      · rw [hfetched, hb, ← List.append_assoc, hsegment, List.append_assoc]
        rfl
      · rintro ⟨payload', hwhole, hlen', hpayload'⟩
        have hsame : payload' = payload := by
          have heq : payload'.length = payload.length := by omega
          rw [← hpayload', heq, hpayload]
        rw [hsame] at hwhole
        have hcut := congrArg List.length hbody
        rw [← hwhole, List.length_take] at hcut
        omega
      · rw [← hbody, List.take_of_length_le (by omega)]

/-- A handle that was just initialised. -/
theorem exampleRead_reachable :
    (LightData.mk { exampleHandle with rxBufSize := 8, physMtu := 8 } 4232).Reachable [] :=
  @LightData.Reachable.init _ .linux64 4096 4096 .crc16 _ rfl

/-- What an error of `read_func` behind the first byte of a frame leaves. -/
def interrupted : HdlcLl (List Byte) :=
  { exampleHandle with
    rxBuf := Function.update (fun _ => 0) 0 0x55
    rxBufSize := 8
    physMtu := 8
    rx := { state := .readData, ptr := 1, escape := false, activeFrameBuf := 0 } }

theorem interrupted_ret :
    tinyLightRead (LightData.mk { exampleHandle with rxBufSize := 8, physMtu := 8 } 4232)
      (fun _ => 0) 1000 8 [.byte 0x7E, .byte 0x55, .failed 0] [0, 0, 0] =
        some { hdlc := interrupted, result := -1, fetched := [0x7E, 0x55],
               accesses := [.store 0] } := rfl

theorem interrupted_reachable : (LightData.mk interrupted 1000).Reachable [0x7E, 0x55] :=
  .read (fun _ => 0) 1000 (by decide) _ _ exampleRead_reachable interrupted_ret

/-- The rest of the frame in the same buffer. -/
theorem light_read_own_buffer_resumed :
    ∃ r, tinyLightRead (LightData.mk interrupted 1000) (fun a => if a = 1000 then 0x55 else 0)
        1000 8 [.byte 0x50, .byte 0xF5, .byte 0x7E] [0, 0, 0, 0] = some r ∧
      r.result = 1 ∧ Inside (fun a => if a = 1000 then 0x55 else 0) 1000 8 r := by
  have hl : (1 : Int) ≤ 8 := by decide
  have hready : Ready (LightData.mk interrupted 1000) [0x7E, 0x55]
      (fun a => if a = 1000 then 0x55 else 0) 1000 8 := by
    refine Ready.again exampleRead_reachable hl (.between rfl) interrupted_ret
      fun offset hlow hhigh => ?_
    have hlt : offset < 1 := hhigh
    obtain rfl : offset = 0 := by omega
    rfl
  have hret : (tinyLightRead (LightData.mk interrupted 1000)
      (fun a => if a = 1000 then 0x55 else 0) 1000 8 [.byte 0x50, .byte 0xF5, .byte 0x7E]
      [0, 0, 0, 0]).map ReadResult.result = some 1 := by
    decide +kernel
  obtain ⟨r, hr, hres⟩ := Option.map_eq_some_iff.mp hret
  exact ⟨r, hr, hres, (light_read_own_buffer interrupted_reachable hl hready _ _ hr).1⟩

/-- The same with another buffer for the second call: its byte goes behind the first byte of the
buffer before. -/
theorem light_read_other_buffer :
    ∃ (handle : LightData (List Byte)) (received : List Byte) (r : ReadResult (List Byte)),
      handle.Reachable received ∧
        tinyLightRead handle (fun _ => 0) 2000 8 [.byte 0x66, .failed 0] [0, 0] = some r ∧
        .store (-999) ∈ r.accesses ∧ ¬Inside (fun _ => 0) 2000 8 r := by
  refine ⟨_, _, _, interrupted_reachable, rfl, ?_, fun hinside => ?_⟩
  · decide +kernel
  · have hstore := hinside.store (-999) (by decide +kernel)
    omega

end TinyProto.Light
