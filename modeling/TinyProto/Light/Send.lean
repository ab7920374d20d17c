import TinyProto.Hdlc.Progress

/-!
# Sending with `tiny_light`

`tiny_light_send` of `proto/light/tiny_light.c`.  The answers of `write_func` and the readings
of `tiny_millis` come from lists, and a call that needs one more has not returned yet.

A call that ends with an error of `write_func` leaves its frame in the transmitter, and the
result of `hdlc_ll_put_frame` is not looked at.  The next call then finishes the old frame and
reports its own.  A call sends its own frame if and only if it finds the transmitter idle
(`light_send_own_frame_iff`).
-/

namespace TinyProto.Light

open Hdlc

variable {π : Type}

/-! ## `tiny_light_send` -/

/-- `LIGHT_BUF_SIZE` on a 64-bit target. -/
def lightBufSize : Int := 8 * 18

/-- `tiny_light_init` with its callbacks, the address of `handle->buffer` and the check field. -/
def tinyLightInit (sz : StructSizes) (buffer : Int) (crcType : HdlcCrc) :
    Except Status (Int × HdlcLl π) :=
  hdlcLlInit sz { buf := buffer, bufSize := lightBufSize, crcType := crcType, mtu := 0 }

/-- What a call leaves when it has returned. -/
structure Sent (π : Type) where
  hdlc : HdlcLl π
  result : Int
  /-- The bytes that `write_func` accepted. -/
  accepted : List Byte

/-- The two loops of `tiny_light_send`, from a call of `write_func` with `stream` on. -/
def sendLoop (mem : π → Nat → Byte) (len : Nat) (ts : BitVec 32) :
    HdlcLl π → List Byte → List Int → List (BitVec 32) → Option (Sent π)
  | _, _, [], _ => none
  | hdlc, stream, result :: writes, millis =>
      if result < 0 then some { hdlc := hdlc, result := result, accepted := [] }
      else
        match millis with
        | [] => none
        | now :: millis =>
            if now - ts ≥ 1000 then
              some { hdlc := hdlcLlReset hdlc .txOnly, result := Status.timeout.code,
                     accepted := stream.take result.toNat }
            else
              let rest :=
                if result < stream.length then sendLoop mem len ts hdlc stream writes millis
                else if hdlc.tx.originData.isSome then
                  let (hdlc, stream, _) := hdlcLlRunTx mem hdlc 1
                  sendLoop mem len ts hdlc stream writes millis
                else some { hdlc := hdlc, result := len, accepted := [] }
              rest.map fun r => { r with accepted := stream.take result.toNat ++ r.accepted }

/-- `tiny_light_send`, with the answers of `write_func` and of `tiny_millis`. -/
def tinyLightSend (mem : π → Nat → Byte) (hdlc : HdlcLl π) (pbuf : π) (len : Nat)
    (writes : List Int) (millis : List (BitVec 32)) : Option (Sent π) :=
  match millis with
  | [] => none
  | ts :: millis =>
      let hdlc := (hdlcLlPutFrame hdlc pbuf len).1
      if hdlc.tx.originData.isSome then
        let (hdlc, stream, _) := hdlcLlRunTx mem hdlc 1
        sendLoop mem len ts hdlc stream writes millis
      else some { hdlc := hdlc, result := len, accepted := [] }

/-- The handles a program can have.  Between two calls the memory may change, also the one a
frame is read from. -/
inductive Reachable : HdlcLl π → Prop where
  | init {sz : StructSizes} {buffer a : Int} {crcType : HdlcCrc} {hdlc : HdlcLl π}
      (hi : tinyLightInit sz buffer crcType = .ok (a, hdlc)) : Reachable hdlc
  | send {hdlc : HdlcLl π} (mem : π → Nat → Byte) (pbuf : π) {len : Nat} (hl : 0 < len)
      (writes : List Int) (millis : List (BitVec 32)) {r : Sent π} (hr : Reachable hdlc)
      (hret : tinyLightSend mem hdlc pbuf len writes millis = some r) : Reachable r.hdlc

variable {mem : π → Nat → Byte} {hdlc : HdlcLl π} {p : π} {len : Nat} {ts : BitVec 32}

/-! ## The transmitter between two calls -/

/-- What holds between two calls, whatever is in the memory: the opening flag of a frame in
progress is out. -/
structure Sound (hdlc : HdlcLl π) : Prop where
  stored : hdlc.crcType.stored = hdlc.crcType
  rested : hdlc.tx.Rested
  begun : hdlc.tx.originData ≠ none → hdlc.tx.state ≠ .sendStart

theorem Sound.reset (hs : Sound hdlc) : Sound (hdlcLlReset hdlc .txOnly) :=
  ⟨hs.stored, fun _ => rfl, fun hn => absurd rfl hn⟩

theorem runTx_sound (hc : hdlc.crcType.stored = hdlc.crcType) (hr : hdlc.tx.Rested)
    (mem : π → Nat → Byte) : Sound (hdlcLlRunTx mem hdlc 1).1 :=
  ⟨hc, (runTx_passed hr mem 1).1, runTx_begun mem hdlc Nat.one_pos⟩

/-- How the loops go on behind a call of `write_func`: with an error, with the timeout, with
the same byte, with the next one, or to the end. -/
theorem sendLoop_cases {stream : List Byte} {result : Int} {writes : List Int}
    {millis : List (BitVec 32)} {r : Sent π}
    (hr : sendLoop mem len ts hdlc stream (result :: writes) millis = some r) :
    result < 0 ∧ r = { hdlc := hdlc, result := result, accepted := [] } ∨
      r.hdlc = hdlcLlReset hdlc .txOnly ∧ r.result = Status.timeout.code ∨
      0 ≤ result ∧ ∃ millis' s, r = { s with accepted := stream.take result.toNat ++ s.accepted } ∧
        (result < stream.length ∧ sendLoop mem len ts hdlc stream writes millis' = some s ∨
          stream.length ≤ result ∧ hdlc.tx.originData ≠ none ∧
            sendLoop mem len ts (hdlcLlRunTx mem hdlc 1).1 (hdlcLlRunTx mem hdlc 1).2.1 writes
              millis' = some s ∨
          stream.length ≤ result ∧ hdlc.tx.originData = none ∧
            s = { hdlc := hdlc, result := len, accepted := [] }) := by
  unfold sendLoop at hr
  split at hr
  · next hneg =>
    cases hr
    exact .inl ⟨hneg, rfl⟩
  · next hpos =>
    have hpos := Int.not_lt.mp hpos
    split at hr
    · cases hr
    · next millis =>
      split at hr
      · cases hr
        exact .inr (.inl ⟨rfl, rfl⟩)
      · obtain ⟨s, hs, rfl⟩ := Option.map_eq_some_iff.mp hr
        refine .inr (.inr ⟨hpos, millis, s, rfl, ?_⟩)
        split at hs
        · next hmore => exact .inl ⟨hmore, hs⟩
        · next hall =>
          have hall := Int.not_lt.mp hall
          split at hs
          · next hbusy =>
            exact .inr (.inl ⟨hall, Option.isSome_iff_ne_none.mp hbusy, hs⟩)
          · next hidle =>
            cases hs
            rw [Option.not_isSome_iff_eq_none] at hidle
            exact .inr (.inr ⟨hall, hidle, rfl⟩)

theorem sendLoop_sound : ∀ {writes : List Int} {hdlc : HdlcLl π} {stream : List Byte}
    {millis : List (BitVec 32)} {r : Sent π}, Sound hdlc →
      sendLoop mem len ts hdlc stream writes millis = some r → Sound r.hdlc
  | [], _, _, _, _, _, hr => by cases hr
  | result :: writes, hdlc, stream, millis, r, hs, hr => by
    rcases sendLoop_cases hr with ⟨-, rfl⟩ | ⟨he, -⟩ | ⟨-, millis', s, rfl, hnext⟩
    · exact hs
    · rw [he]
      exact hs.reset
    · have hlast : Sound s.hdlc := by
        rcases hnext with ⟨-, hnext⟩ | ⟨-, -, hnext⟩ | ⟨-, -, rfl⟩
        · exact sendLoop_sound hs hnext
        · exact sendLoop_sound (runTx_sound hs.stored hs.rested mem) hnext
        · exact hs
      exact hlast

/-- A call starts with the opening flag, or with the next byte of the frame in progress. -/
theorem tinyLightSend_loop {pbuf : π} (hl : 0 < len) {writes : List Int}
    {millis : List (BitVec 32)} {r : Sent π}
    (hret : tinyLightSend mem hdlc pbuf len writes millis = some r) :
    ∃ ts millis' k, k = (hdlcLlPutFrame hdlc pbuf len).1 ∧ k.tx.originData ≠ none ∧
      sendLoop mem len ts (hdlcLlRunTx mem k 1).1 (hdlcLlRunTx mem k 1).2.1 writes millis' =
        some r := by
  unfold tinyLightSend at hret
  split at hret
  · cases hret
  · next ts millis =>
    have hbusy : (hdlcLlPutFrame hdlc pbuf len).1.tx.originData ≠ none := by
      cases hn : hdlc.tx.originData with
      | none =>
        rw [putFrame_idle hn pbuf hl]
        exact Option.some_ne_none _
      | some q =>
        unfold hdlcLlPutFrame
        rw [hn]
        exact fun he => Option.some_ne_none _ (hn.symm.trans he)
    dsimp only at hret
    rw [if_pos (Option.isSome_iff_ne_none.mpr hbusy)] at hret
    exact ⟨ts, millis, _, rfl, hbusy, hret⟩

theorem putFrame_rested (hs : Sound hdlc) (pbuf : π) (hl : 0 < len) :
    (hdlcLlPutFrame hdlc pbuf len).1.tx.Rested ∧
      (hdlcLlPutFrame hdlc pbuf len).1.crcType = hdlc.crcType := by
  cases hn : hdlc.tx.originData with
  | none =>
    rw [putFrame_idle hn pbuf hl]
    exact ⟨.of_some rfl, rfl⟩
  | some q =>
    unfold hdlcLlPutFrame
    rw [hn]
    exact ⟨hs.rested, rfl⟩

theorem Reachable.sound (hr : Reachable hdlc) : Sound hdlc := by
  induction hr with
  | init hi =>
    obtain ⟨-, htx, hc⟩ := hdlcLlInit_ok hi
    refine ⟨by rw [hc, stored_stored], fun _ => by rw [htx]; rfl, fun hn => absurd ?_ hn⟩
    rw [htx]
    rfl
  | send mem pbuf hl writes millis _ hret ih =>
    obtain ⟨ts, millis', k, rfl, -, hloop⟩ := tinyLightSend_loop hl hret
    obtain ⟨hrested, hcrc⟩ := putFrame_rested ih pbuf hl
    refine sendLoop_sound (runTx_sound ?_ hrested mem) hloop
    rw [hcrc]
    exact ih.stored

/-! ## The bytes of a call -/

/-- A call that does not fail writes the byte in the stream and what is pending behind it. -/
theorem sendLoop_sends : ∀ {writes : List Int} {hdlc : HdlcLl π} {b : Byte}
    {millis : List (BitVec 32)} {r : Sent π}, hdlc.TxOk mem →
      sendLoop mem len ts hdlc [b] writes millis = some r → 0 ≤ r.result →
        r.accepted = b :: hdlc.pending mem
  | [], _, _, _, _, _, hr, _ => by cases hr
  | result :: writes, hdlc, b, millis, r, ho, hr, hres => by
    have hcode : Status.timeout.code < 0 := by decide
    rcases sendLoop_cases hr with ⟨hneg, rfl⟩ | ⟨-, he⟩ | ⟨hpos, millis', s, rfl, hnext⟩
    · exact absurd hneg (Int.not_lt.mpr hres)
    · omega
    · have htake : (1 : Int) ≤ result → ([b] : List Byte).take result.toNat = [b] := fun h1 =>
        List.take_of_length_le (by rw [List.length_singleton]; omega)
      show [b].take result.toNat ++ s.accepted = _
      rcases hnext with ⟨hless, hnext⟩ | ⟨hall, hbusy, hnext⟩ | ⟨hall, hidle, rfl⟩
      · rw [List.length_singleton] at hless
        have hzero : result.toNat = 0 := by omega
        rw [sendLoop_sends ho hnext hres, hzero]
        rfl
      · obtain ⟨p, hp⟩ := Option.ne_none_iff_exists'.mp hbusy
        obtain ⟨b', rest, hpend, hout, hrest, hok, -⟩ := runTx_one ho hp
        rw [hout] at hnext
        rw [htake hall, sendLoop_sends hok hnext hres, hrest, hpend]
        rfl
      · have hnil : hdlc.pending mem = [] := ho.tx.pending_nil hidle
        rw [htake hall, hnil]
        rfl

/-- Only the memory of the frame in progress is read. -/
theorem sendLoop_congr {mem' : π → Nat → Byte} : ∀ {writes : List Int} {hdlc : HdlcLl π}
    {stream : List Byte} {millis : List (BitVec 32)}, hdlc.tx.Rested →
      (∀ p, hdlc.tx.originData = some p → mem' p = mem p) →
        sendLoop mem' len ts hdlc stream writes millis = sendLoop mem len ts hdlc stream writes millis
  | [], _, _, _, _, _ => rfl
  | result :: writes, hdlc, stream, millis, hr, hm => by
    obtain ⟨hrested, hpassed⟩ := runTx_passed hr mem 1
    have hrest : ∀ p, (hdlcLlRunTx mem hdlc 1).1.tx.originData = some p → mem' p = mem p := by
      intro p hp
      rcases hpassed with ⟨-, ho⟩ | ⟨_, -, -, ho⟩
      · exact hm p (ho ▸ hp)
      · cases ho.symm.trans hp
    unfold sendLoop
    rw [runTx_congr hr hm 1]
    dsimp only
    cases millis with
    | nil => rfl
    | cons now millis =>
      dsimp only
      rw [sendLoop_congr hr hm, sendLoop_congr hrested hrest]

/-- The call sent exactly its own payload, and read nothing else. -/
structure OwnFrame (mem : π → Nat → Byte) (hdlc : HdlcLl π) (pbuf : π) (len : Nat)
    (writes : List Int) (millis : List (BitVec 32)) (r : Sent π) : Prop where
  whole : r.accepted = encodeFrame hdlc.crcType ((List.range len).map (mem pbuf))
  own : ∀ mem' : π → Nat → Byte, mem' pbuf = mem pbuf →
    tinyLightSend mem' hdlc pbuf len writes millis = some r

theorem ownFrame_of_idle (hs : Sound hdlc) (hn : hdlc.tx.originData = none) {pbuf : π}
    (hl : 0 < len) {writes : List Int} {millis : List (BitVec 32)} {r : Sent π}
    (hret : tinyLightSend mem hdlc pbuf len writes millis = some r) (hres : 0 ≤ r.result) :
    OwnFrame mem hdlc pbuf len writes millis r := by
  obtain ⟨hok, hod, hpend⟩ := putFrame_pending hs.stored hs.rested hn mem pbuf hl
  constructor
  · obtain ⟨ts, millis', k, rfl, -, hloop⟩ := tinyLightSend_loop hl hret
    obtain ⟨b, rest, hb, hout, hrest, hok', -⟩ := runTx_one hok hod
    rw [hout] at hloop
    rw [sendLoop_sends hok' hloop hres, hrest, ← hb, hpend]
  · intro mem' hm
    have hread : ∀ q, (hdlcLlPutFrame hdlc pbuf len).1.tx.originData = some q → mem' q = mem q := by
      intro q hq
      cases hod.symm.trans hq
      exact hm
    have hrested := (putFrame_rested hs pbuf hl).1
    obtain ⟨hrested', hpassed⟩ := runTx_passed hrested mem 1
    rw [← hret]
    unfold tinyLightSend
    cases millis with
    | nil => rfl
    | cons ts millis =>
      dsimp only
      rw [runTx_congr hrested hread 1]
      split
      · refine sendLoop_congr hrested' fun q hq => ?_
        rcases hpassed with ⟨-, ho⟩ | ⟨_, -, -, ho⟩
        · exact hread q (ho ▸ hq)
        · cases ho.symm.trans hq
      · rfl

/-- What is pending of a frame whose opening flag is out has one flag, the closing one. -/
theorem pending_begun {tx : Tx π} {c : HdlcCrc} (hs : tx.state ≠ .sendStart) :
    ∃ body, tx.pending c mem = body ++ [flagSequence] ∧ flagSequence ∉ body := by
  have hfrom : ∀ (e : Bool) (bs : List Byte), flagSequence ∉ stuffFrom e bs := by
    intro e bs hm
    unfold stuffFrom at hm
    split at hm
    · exact flag_not_mem_stuff bs (List.mem_of_mem_tail hm)
    · exact flag_not_mem_stuff bs hm
  unfold Tx.pending
  cases hst : tx.state with
  | sendStart => exact absurd hst hs
  | sendData =>
    refine ⟨_, (List.append_assoc _ _ _).symm, fun hm => ?_⟩
    rcases List.mem_append.mp hm with hm | hm
    · exact hfrom _ _ hm
    · exact flag_not_mem_stuff _ hm
  | sendCrc => exact ⟨_, rfl, hfrom _ _⟩
  | sendEnd => exact ⟨[], rfl, List.not_mem_nil⟩

/-- It is no frame. -/
theorem pending_ne_encodeFrame {tx : Tx π} {c : HdlcCrc} (hs : tx.state ≠ .sendStart)
    (payload : List Byte) : tx.pending c mem ≠ encodeFrame c payload := by
  obtain ⟨body, hp, hno⟩ := @pending_begun π mem tx c hs
  intro he
  rw [hp] at he
  unfold encodeFrame at he
  cases body with
  | nil =>
    rw [List.nil_append] at he
    have hlen := congrArg List.length (List.cons.inj he).2
    rw [List.length_append, List.length_singleton, List.length_nil] at hlen
    omega
  | cons b body =>
    rw [List.cons_append] at he
    rw [(List.cons.inj he).1] at hno
    exact hno List.mem_cons_self

/-- A call of `tiny_light_send` that reports its length sent its own frame if and only if it
found the transmitter idle. -/
theorem light_send_own_frame_iff (hr : Reachable hdlc) (mem : π → Nat → Byte) (pbuf : π)
    (hl : 0 < len) (writes : List Int) (millis : List (BitVec 32)) {r : Sent π}
    (hret : tinyLightSend mem hdlc pbuf len writes millis = some r) (hres : r.result = len) :
    (hdlc.tx.originData = none → OwnFrame mem hdlc pbuf len writes millis r) ∧
      (hdlc.TxOk mem → OwnFrame mem hdlc pbuf len writes millis r →
        hdlc.tx.originData = none) := by
  have hs := hr.sound
  have hpos : 0 ≤ r.result := by omega
  refine ⟨fun hn => ownFrame_of_idle hs hn hl hret hpos, fun hok hown => ?_⟩
  by_contra hn
  obtain ⟨q, hq⟩ := Option.ne_none_iff_exists'.mp hn
  have hput : (hdlcLlPutFrame hdlc pbuf len).1 = hdlc := by
    unfold hdlcLlPutFrame
    rw [hq]
    rfl
  obtain ⟨ts, millis', k, rfl, -, hloop⟩ := tinyLightSend_loop hl hret
  rw [hput] at hloop
  obtain ⟨b, rest, hb, hout, hrest, hok', -⟩ := runTx_one hok hq
  rw [hout] at hloop
  have hold : r.accepted = hdlc.pending mem := by
    rw [sendLoop_sends hok' hloop hpos, hrest, hb]
  exact pending_ne_encodeFrame (hs.begun hn) _ (hold.symm.trans hown.whole)

/-- A handle that was just initialised. -/
theorem exampleLight_reachable :
    Reachable { exampleHandle with rxBufSize := 8, physMtu := 8 } :=
  @Reachable.init _ .linux64 4096 4096 .crc16 _ rfl

/-- A frame of one byte, with a write that accepts nothing. -/
theorem light_send_own_frame_first :
    ∃ r, tinyLightSend bufferMem { exampleHandle with rxBufSize := 8, physMtu := 8 } [0x55] 1
      [1, 0, 1, 1, 1, 1] [7, 7, 7, 8, 8, 9, 9] = some r ∧
        r.accepted = [0x7E, 0x55, 0x50, 0xF5, 0x7E] := by
  have hret : (tinyLightSend bufferMem { exampleHandle with rxBufSize := 8, physMtu := 8 } [0x55] 1
      [1, 0, 1, 1, 1, 1] [7, 7, 7, 8, 8, 9, 9]).map Sent.result = some ((1 : Nat) : Int) := by
    decide +kernel
  obtain ⟨r, hr, hres⟩ := Option.map_eq_some_iff.mp hret
  refine ⟨r, hr, ?_⟩
  rw [((light_send_own_frame_iff exampleLight_reachable bufferMem [0x55] Nat.one_pos _ _ hr
    hres).1 rfl).whole]
  decide +kernel

/-- A write fails behind the opening flag.  The next call reads the rest of that frame from the
old buffer, writes it, and returns the length of its own. -/
theorem light_send_old_frame :
    ∃ (hdlc : HdlcLl (List Byte)) (r : Sent (List Byte)), Reachable hdlc ∧
      tinyLightSend bufferMem hdlc [0x66, 0x67] 2 [1, 1, 1, 1] [0, 0, 0, 0, 0] = some r ∧
        r.result = 2 ∧ r.accepted = [0x56, 0xBB, 0x95, 0x7E] ∧
        ¬OwnFrame bufferMem hdlc [0x66, 0x67] 2 [1, 1, 1, 1] [0, 0, 0, 0, 0] r := by
  refine ⟨_, _, .send bufferMem [0x55, 0x56] Nat.two_pos [1, -1] [0, 0] exampleLight_reachable rfl, rfl,
    ?_, ?_, fun hown => ?_⟩
  · decide +kernel
  · decide +kernel
  · have hwhole := hown.whole
    revert hwhole
    decide +kernel

end TinyProto.Light
