import TinyProto.Hdlc.Stream
import TinyProto.Rust.Tx

/-!
# What the Rust transmitter emits

`Tx.At` says how many bytes of the frame are sent.  The transmitter goes on from there as the
C transmitter does, up to two places: a buffer that ends inside a run of bytes that need no
escape, where it skips the rest of the run, and the end of a check field, which it does not find.
-/

namespace TinyProto.Rust

open Hdlc hiding Tx TxStep sendTxInternal txCrc sendStart sendData sendCrc sendEnd txStateCall
  runTxLoop drain

variable {π : Type} {c : HdlcCrc} {mem : π → Nat → Byte} {p : π} {payload : List Byte} {n : Nat}
  {tx : Tx π}

/-! ## Runs of plain bytes -/

/-- The byte is sent as it is. -/
def plain (b : Byte) : Bool := ¬Special b

/-- The cut is between two bytes of the same run. -/
def Midway (front rest : List Byte) : Prop :=
  front.getLast?.any plain = true ∧ rest.head?.any plain = true

instance midwayDecidable (front rest : List Byte) : Decidable (Midway front rest) :=
  inferInstanceAs (Decidable (_ ∧ _))

/-- A buffer that ends after `n` bytes of the frame cuts a run. -/
def InsideRun (payload : List Byte) (n : Nat) : Prop :=
  ∃ d, d < payload.length ∧ Midway (payload.take d) (payload.drop d) ∧
    n = 1 + (stuff (payload.take d)).length

instance insideRunDecidable (payload : List Byte) (n : Nat) : Decidable (InsideRun payload n) :=
  inferInstanceAs (Decidable (∃ d, d < payload.length ∧ _))

theorem plain_iff {b : Byte} : plain b = true ↔ ¬Special b := by
  unfold plain
  exact decide_eq_true_iff

theorem length_le_stuff (bs : List Byte) : bs.length ≤ (stuff bs).length := by
  induction bs with
  | nil => exact Nat.le_refl 0
  | cons b bs ih =>
    rw [stuff_cons, List.length_append, List.length_cons]
    have hone : 1 ≤ (stuffByte b).length := by
      unfold stuffByte
      split <;> simp
    omega

/-- The bytes of the frame up to a place of the payload, and on to a later one. -/
theorem stuff_take_add (payload : List Byte) (d k : Nat) :
    (stuff (payload.take (d + k))).length =
      (stuff (payload.take d)).length + (stuff ((payload.drop d).take k)).length := by
  rw [List.take_add, stuff_append, List.length_append]

/-- The byte at an escape takes two. -/
theorem two_le_stuff {b : Byte} (hb : Special b) (bs : List Byte) :
    2 ≤ (stuff (b :: bs)).length := by
  rw [stuff_cons, stuffByte_special hb, List.length_append]
  exact Nat.le_add_right 2 _

theorem drop_getD {bs : List Byte} {d : Nat} (hd : d < bs.length) :
    bs.drop d = bs.getD d 0 :: bs.drop (d + 1) := by
  rw [List.drop_eq_getElem_cons hd]
  simp [List.getD, List.getElem?_eq_getElem hd]

theorem midway_iff {bs : List Byte} {d : Nat} (hpos : 0 < d) (hd : d < bs.length) :
    Midway (bs.take d) (bs.drop d) ↔ ¬Special (bs.getD (d - 1) 0) ∧ ¬Special (bs.getD d 0) := by
  have hlast : (bs.take d).getLast? = some (bs.getD (d - 1) 0) := by
    rw [List.getLast?_eq_getElem?, List.length_take, Nat.min_eq_left (Nat.le_of_lt hd),
      List.getElem?_take, if_pos (by omega)]
    simp [List.getD, List.getElem?_eq_getElem (show d - 1 < bs.length by omega)]
  unfold Midway
  rw [hlast, drop_getD hd]
  simp only [Option.any_some, List.head?_cons, plain_iff]

/-- A place of the payload that is not inside of a run, with an escape character sent or not. -/
theorem not_insideRun {d e : Nat} (hd : d < payload.length) (he : e ≤ 1)
    (hesc : e = 1 → Special (payload.getD d 0))
    (hmid : ¬Midway (payload.take d) (payload.drop d)) :
    ¬InsideRun payload (1 + (stuff (payload.take d)).length + e) := by
  rintro ⟨d', hd', hmid', hn⟩
  rcases Nat.lt_trichotomy d d' with hlt | rfl | hgt
  · obtain ⟨k, rfl⟩ : ∃ k, d' = d + (k + 1) := ⟨d' - d - 1, by omega⟩
    have hlen := stuff_take_add payload d (k + 1)
    rw [drop_getD hd, List.take_succ_cons] at hlen
    have hone := length_le_stuff (payload.getD d 0 :: (payload.drop (d + 1)).take k)
    rw [List.length_cons] at hone
    rcases Nat.le_one_iff_eq_zero_or_eq_one.mp he with rfl | rfl
    · omega
    · have htwo := two_le_stuff (hesc rfl) ((payload.drop (d + 1)).take k)
      omega
  · exact hmid hmid'
  · obtain ⟨k, rfl⟩ : ∃ k, d = d' + (k + 1) := ⟨d - d' - 1, by omega⟩
    have hlen := stuff_take_add payload d' (k + 1)
    have hone := length_le_stuff ((payload.drop d').take (k + 1))
    rw [List.length_take, List.length_drop] at hone
    omega

/-- The frame is not inside of a run before its payload and behind it. -/
theorem not_insideRun_zero : ¬InsideRun payload 0 := by
  rintro ⟨d, -, -, hn⟩
  omega

theorem not_insideRun_behind (hn : 1 + (stuff payload).length ≤ n) : ¬InsideRun payload n := by
  rintro ⟨d, hd, -, rfl⟩
  have hlen := stuff_take_add payload d (payload.length - d)
  have hone := length_le_stuff ((payload.drop d).take (payload.length - d))
  rw [Nat.add_sub_cancel' (Nat.le_of_lt hd), List.take_length] at hlen
  rw [List.length_take, List.length_drop] at hone
  omega

/-! ## The place of a transmitter -/

/-- The frame, from a place of the payload on. -/
theorem encodeFrame_drop (c : HdlcCrc) (payload : List Byte) (d : Nat) :
    (encodeFrame c payload).drop (1 + (stuff (payload.take d)).length) =
      stuff (payload.drop d) ++ (stuff (fcs c payload) ++ [flagSequence]) := by
  have hsplit : encodeFrame c payload = (flagSequence :: stuff (payload.take d)) ++
      (stuff (payload.drop d) ++ (stuff (fcs c payload) ++ [flagSequence])) := by
    have hstuff : stuff payload = stuff (payload.take d) ++ stuff (payload.drop d) := by
      rw [← stuff_append, List.take_append_drop]
    unfold encodeFrame
    rw [stuff_append, hstuff]
    simp only [List.cons_append, List.append_assoc]
  have hlen : (flagSequence :: stuff (payload.take d)).length = 1 + (stuff (payload.take d)).length := by
    rw [List.length_cons, Nat.add_comm]
  rw [hsplit, List.drop_append_of_le_length (Nat.le_of_eq hlen.symm),
    List.drop_of_length_le (Nat.le_of_eq hlen), List.nil_append]

/-- `n` bytes of the frame are sent. -/
inductive Tx.At (c : HdlcCrc) (p : π) (payload : List Byte) : Nat → Tx π → Prop where
  | start {tx : Tx π} (hs : tx.state = .sendStart) (hp : tx.sendInProgress = true)
      (hc : tx.crcType = c) (ho : tx.originData = some p) (hd : tx.data = 0)
      (hlen : tx.len = payload.length) : At c p payload 0 tx
  | data {tx : Tx π} {n : Nat} (hs : tx.state = .sendData) (hc : tx.crcType = c)
      (ho : tx.originData = some p) (hlen : tx.data + tx.len = payload.length) (hpos : 0 < tx.len)
      (hcrc : checkBytes tx.crc c.stored.value 0 = fcs c.stored payload)
      (hesc : tx.escape = true → Special (payload.getD tx.data 0))
      (hmid : ¬Midway (payload.take tx.data) (payload.drop tx.data))
      (hn : n = 1 + (stuff (payload.take tx.data)).length + if tx.escape then 1 else 0) :
      At c p payload n tx
  | crc {tx : Tx π} {n : Nat} (hs : tx.state = .sendCrc) (hc : tx.crcType = c)
      (hle : tx.len ≤ c.stored.value) (hmod : tx.len % 8 = 0)
      (hesc : tx.escape = true → tx.len < c.stored.value ∧ Special ((tx.crc >>> tx.len).setWidth 8))
      (hrest : (encodeFrame c.stored payload).drop n =
        stuffFrom tx.escape (checkBytes tx.crc c.stored.value tx.len) ++ [flagSequence])
      (hn : 1 + (stuff payload).length ≤ n) : At c p payload n tx
  | flag {tx : Tx π} {n : Nat} (hs : tx.state = .sendEnd) (hc : c = .off)
      (hrest : (encodeFrame c.stored payload).drop n = [flagSequence])
      (hn : 1 + (stuff payload).length ≤ n) : At c p payload n tx
  | done {tx : Tx π} {n : Nat} (hs : tx.state = .sendStart) (hp : tx.sendInProgress = false)
      (hc : c = .off) (hrest : (encodeFrame c.stored payload).drop n = [])
      (hn : 1 + (stuff payload).length ≤ n) : At c p payload n tx

/-- Where the transmitter stands, no run is cut. -/
theorem Tx.At.not_insideRun (hat : Tx.At c p payload n tx) : ¬InsideRun payload n := by
  cases hat with
  | start => exact not_insideRun_zero
  | data hs hc ho hlen hpos hcrc hesc hmid hn =>
    rw [hn]
    refine Rust.not_insideRun (by omega) ?_ (fun he => hesc ?_) hmid
    · split <;> omega
    · by_contra hno
      rw [if_neg hno] at he
      cases he
  | crc _ _ _ _ _ _ hn => exact not_insideRun_behind hn
  | flag _ _ _ hn => exact not_insideRun_behind hn
  | done _ _ _ _ hn => exact not_insideRun_behind hn

/-! ## One state call -/

theorem sendTxInternal_eq : ∀ (data : List Byte) (tx : Tx π), sendTxInternal tx data =
    ({ tx with
        outBuffer := tx.outBuffer ++ data.take tx.outBufferLen
        outBufferLen := tx.outBufferLen - data.length }, min data.length tx.outBufferLen)
  | [], tx => by simp [sendTxInternal]
  | byte :: data, tx => by
    unfold sendTxInternal
    split
    · next hroom =>
      obtain ⟨k, hk⟩ : ∃ k, tx.outBufferLen = k + 1 := ⟨tx.outBufferLen - 1, by omega⟩
      rw [sendTxInternal_eq data]
      simp [hk]
    · next hroom =>
      have hfull : tx.outBufferLen = 0 := by omega
      have hsame : tx = { tx with outBufferLen := 0 } := by rw [← hfull]
      simp [hfull, ← hsame]

/-- With room in the output buffer a single byte is written. -/
theorem sendTxInternal_one (hroom : 0 < tx.outBufferLen) (byte : Byte) :
    sendTxInternal tx [byte] =
      ({ tx with outBuffer := tx.outBuffer ++ [byte], outBufferLen := tx.outBufferLen - 1 }, 1) := by
  have hone : min 1 tx.outBufferLen = 1 := by omega
  rw [sendTxInternal_eq, List.take_of_length_le (show 1 ≤ tx.outBufferLen from hroom)]
  simp [hone]

/-- What a call through `state` does in a place from which `rest` is left of the frame. -/
inductive Acts (c : HdlcCrc) (p : π) (payload : List Byte) (n : Nat) (tx : Tx π) :
    Except Panic (TxStep π) → Prop where
  /-- Bytes of the frame are written. -/
  | writes {r : TxStep π} (bs : List Byte) (hat : Tx.At c p payload (n + bs.length) r.tx)
      (hfront : (encodeFrame c.stored payload).drop n =
        bs ++ (encodeFrame c.stored payload).drop (n + bs.length))
      (hout : r.tx.outBuffer = tx.outBuffer ++ bs)
      (hroom : r.tx.outBufferLen + bs.length = tx.outBufferLen) (hres : r.result = 0 ↔ bs = [])
      (hnil : bs = [] → tx.state = .sendCrc ∧ r.tx.state = .sendEnd ∨
        tx.state = .sendStart ∧ (encodeFrame c.stored payload).drop n = [] ∧
          r.tx = tx) : Acts c p payload n tx (.ok r)
  /-- The buffer ends in a run, and the rest of the run is skipped. -/
  | skips {r : TxStep π} (bs more : List Byte) (hmore : more ≠ [])
      (hat : Tx.At c p payload (n + bs.length + more.length) r.tx)
      (hfront : (encodeFrame c.stored payload).drop n =
        bs ++ (more ++ (encodeFrame c.stored payload).drop (n + bs.length + more.length)))
      (hout : r.tx.outBuffer = tx.outBuffer ++ bs) (hroom : r.tx.outBufferLen = 0)
      (hlen : bs.length = tx.outBufferLen) (hres : r.result ≠ 0)
      (hinside : InsideRun payload (n + bs.length))
      (hnext : ∃ b rest, (encodeFrame c.stored payload).drop (n + bs.length + more.length) =
        b :: rest ∧ Special b) : Acts c p payload n tx (.ok r)
  /-- The end of the check field is missed. -/
  | derails {res : Except Panic (TxStep π)} (hc : c ≠ .off)
      (hlast : (encodeFrame c.stored payload).drop n = [flagSequence])
      (hres : ∀ r, res = .ok r →
        ∃ x, x ≠ flagSequence ∧ r.tx.outBuffer = tx.outBuffer ++ [x] ∧
          r.tx.outBufferLen + 1 = tx.outBufferLen ∧ r.result ≠ 0) : Acts c p payload n tx res

/-- The check field of a single byte is the one that C computes, as far as it is sent. -/
theorem txCrc_spec (hd : c ≠ .default) (hc : c = .off ∨ payload.length = 1)
    (hm : payload = (List.range payload.length).map (mem p)) (old : BitVec 32) :
    ∃ crc, txCrc c old [mem p 0] payload.length = .ok crc ∧
      checkBytes crc c.stored.value 0 = fcs c.stored payload := by
  rcases hc with rfl | hone
  · exact ⟨old, rfl, rfl⟩
  · rw [hone] at hm ⊢
    have hpayload : payload = [mem p 0] := hm
    rw [hpayload]
    cases c with
    | default => exact absurd rfl hd
    | off => exact ⟨old, rfl, rfl⟩
    | crc8 =>
      refine ⟨(Crc8.get ([mem p 0].foldl Crc8.sumByte Crc8.new)).setWidth 32, rfl, ?_⟩
      rw [crc8_get]
      show [_] = [_]
      simp [Hdlc.txCrc, HdlcCrc.stored]
    | crc16 =>
      refine ⟨(Crc16.get ([mem p 0].foldl Crc16.sumByte Crc16.new)).setWidth 32, rfl, ?_⟩
      rw [crc16_get]
      rfl
    | crc32 =>
      refine ⟨Crc32.get ([mem p 0].foldl Crc32.sumByte Crc32.new), rfl, ?_⟩
      rw [crc32_get]
      rfl

theorem sendStart_acts (hp : tx.sendInProgress = true)
    (hcrc : tx.crcType = c) (ho : tx.originData = some p) (hdata : tx.data = 0)
    (hlen : tx.len = payload.length) (hpos : 0 < payload.length) (hd : c ≠ .default)
    (hc : c = .off ∨ payload.length = 1) (hm : payload = (List.range payload.length).map (mem p))
    (hroom : 0 < tx.outBufferLen) : Acts c p payload 0 tx (sendStart mem tx) := by
  obtain ⟨crc, hsum, hcheck⟩ := txCrc_spec hd hc hm tx.crc
  have hbyte : tx.byteAt mem 0 = mem p 0 := by
    unfold Tx.byteAt
    rw [ho, hdata]
  have hok : txCrc tx.crcType tx.crc [tx.byteAt mem 0] tx.len = .ok crc := by
    rw [hbyte, hcrc, hlen]
    exact hsum
  have hcall : sendStart mem tx = .ok
      { tx := { tx with
          crc := crc, outBuffer := tx.outBuffer ++ [flagSequence]
          outBufferLen := tx.outBufferLen - 1, state := .sendData, escape := false }
        result := 1, sent := none } := by
    unfold sendStart
    rw [if_neg (by rw [hp]; nofun), hok]
    simp only [bind, Except.bind]
    rw [@sendTxInternal_one _ { tx with crc := crc } hroom]
    rfl
  rw [hcall]
  refine .writes [flagSequence] (.data rfl hcrc ho ?_ ?_ hcheck nofun ?_ ?_) rfl rfl ?_ (by simp)
    nofun
  · show tx.data + tx.len = payload.length
    rw [hdata, hlen, Nat.zero_add]
  · show 0 < tx.len
    rw [hlen]
    exact hpos
  · show ¬Midway (payload.take tx.data) _
    rw [hdata]
    exact fun hmid => by cases hmid.1
  · show 0 + 1 = 1 + (stuff (payload.take tx.data)).length + 0
    rw [hdata]
    rfl
  · exact Nat.sub_add_cancel hroom

/-- The transmitter has moved on to another byte of the payload, or to the check field. -/
theorem Tx.At.moved {d l : Nat} (hd : tx.data = d) (hl : tx.len = l)
    (hs : tx.state = if l = 0 then .sendCrc else .sendData) (hc : tx.crcType = c)
    (ho : tx.originData = some p) (hlen : d + l = payload.length)
    (hcrc : checkBytes tx.crc c.stored.value 0 = fcs c.stored payload) (hesc : tx.escape = false)
    (hmid : 0 < l → ¬Midway (payload.take d) (payload.drop d)) :
    Tx.At c p payload (1 + (stuff (payload.take d)).length) tx := by
  subst hd hl
  by_cases hz : tx.len = 0
  · rw [if_pos hz] at hs
    have hend : tx.data = payload.length := by omega
    refine .crc hs hc (by omega) (by omega) (by rw [hesc]; nofun) ?_ ?_
    · rw [encodeFrame_drop, hend, List.drop_length, hz, hcrc, hesc]
      rfl
    · exact Nat.le_of_eq (by rw [hend, List.take_length])
  · rw [if_neg hz] at hs
    refine .data hs hc ho hlen (Nat.pos_of_ne_zero hz) hcrc (by rw [hesc]; nofun)
      (hmid (Nat.pos_of_ne_zero hz)) ?_
    rw [hesc]
    rfl

theorem byteAt_eq (ho : tx.originData = some p)
    (hm : payload = (List.range payload.length).map (mem p)) {i : Nat}
    (hi : tx.data + i < payload.length) : tx.byteAt mem i = payload.getD (tx.data + i) 0 := by
  unfold Tx.byteAt
  rw [ho]
  conv_rhs => rw [hm]
  simp [List.getD, hi]

/-- The bytes that the scan passes. -/
theorem run_eq (ho : tx.originData = some p)
    (hm : payload = (List.range payload.length).map (mem p)) {pos : Nat}
    (hpos : tx.data + pos ≤ payload.length) :
    (List.range pos).map (tx.byteAt mem) = (payload.drop tx.data).take pos := by
  refine List.ext_getElem (by simp; omega) fun i hi hi' => ?_
  rw [List.length_map, List.length_range] at hi
  rw [List.getElem_map, List.getElem_range, byteAt_eq ho hm (by omega), List.getElem_take,
    List.getElem_drop]
  simp [List.getD, List.getElem?_eq_getElem (show tx.data + i < payload.length by omega)]

/-- The frame, from the first byte of a run on. -/
theorem encodeFrame_run {d pos : Nat} (hplain : ∀ b ∈ (payload.drop d).take pos, ¬Special b) :
    (encodeFrame c payload).drop (1 + (stuff (payload.take d)).length) =
        (payload.drop d).take pos ++
          (encodeFrame c payload).drop (1 + (stuff (payload.take (d + pos))).length) ∧
      1 + (stuff (payload.take (d + pos))).length =
        1 + (stuff (payload.take d)).length + ((payload.drop d).take pos).length := by
  constructor
  · have hstuff : stuff (payload.drop d) =
        (payload.drop d).take pos ++ stuff (payload.drop (d + pos)) := by
      conv_lhs => rw [← List.take_append_drop pos (payload.drop d)]
      rw [stuff_append, stuff_plain hplain, List.drop_drop]
    rw [encodeFrame_drop, encodeFrame_drop, hstuff, List.append_assoc]
  · rw [stuff_take_add, stuff_plain hplain, Nat.add_assoc]

/-- A run of plain bytes is written, or what the output buffer takes of it. -/
theorem sendData_run (hs : tx.state = .sendData) (hcrc : tx.crcType = c)
    (ho : tx.originData = some p) (hlen : tx.data + tx.len = payload.length)
    (hcheck : checkBytes tx.crc c.stored.value 0 = fcs c.stored payload)
    (hesc : tx.escape = false) (hc : c = .off ∨ payload.length = 1)
    (hm : payload = (List.range payload.length).map (mem p)) (hroom : 0 < tx.outBufferLen)
    (hpos : 0 < literalRun (tx.byteAt mem) tx.len 0) :
    Acts c p payload (1 + (stuff (payload.take tx.data)).length) tx (.ok (sendData mem tx)) := by
  obtain ⟨-, hle, hplain, hstop⟩ := literalRun_spec (tx.byteAt mem) tx.len 0
  obtain ⟨pos, hpd⟩ : ∃ pos, literalRun (tx.byteAt mem) tx.len 0 = pos := ⟨_, rfl⟩
  rw [hpd] at hpos hle hplain hstop
  obtain ⟨run, hrun⟩ : ∃ run, (List.range pos).map (tx.byteAt mem) = run := ⟨_, rfl⟩
  have hrunlen : run.length = pos := by
    rw [← hrun]
    simp
  have htake : run = (payload.drop tx.data).take pos := by
    rw [← hrun]
    exact run_eq ho hm (by omega)
  have hbyte : ∀ i, tx.data + i < payload.length → tx.byteAt mem i = payload.getD (tx.data + i) 0 :=
    fun i => byteAt_eq ho hm
  have hrunplain : ∀ b ∈ run, ¬Special b := by
    intro b hb
    rw [← hrun] at hb
    obtain ⟨i, hi, rfl⟩ := List.mem_map.mp hb
    exact hplain i (Nat.zero_le i) (List.mem_range.mp hi)
  obtain ⟨hfront, hlength⟩ := encodeFrame_run (c := c.stored) (by rw [← htake]; exact hrunplain)
  rw [← htake] at hfront hlength
  obtain ⟨tx', htx'⟩ : ∃ t : Tx π, t = { tx with
      outBuffer := tx.outBuffer ++ run.take tx.outBufferLen
      outBufferLen := tx.outBufferLen - pos, data := tx.data + pos, len := tx.len - pos
      state := if tx.len - pos = 0 then .sendCrc else .sendData } := ⟨_, rfl⟩
  have hcall : sendData mem tx =
      { tx := tx', result := min pos tx.outBufferLen, sent := none } := by
    have hsome : min pos tx.outBufferLen > 0 := by omega
    unfold sendData
    simp only [hpd, if_pos hpos, hrun, sendTxInternal_eq, hrunlen, if_pos hsome]
    rw [htx']
    split
    · rfl
    · rw [← hs]
  have hat : Tx.At c p payload (1 + (stuff (payload.take (tx.data + pos))).length) tx' := by
    refine .moved (by rw [htx']) (by rw [htx']) (by rw [htx']) (by rw [htx']; exact hcrc)
      (by rw [htx']; exact ho) (l := tx.len - pos) (by omega) (by rw [htx']; exact hcheck)
      (by rw [htx']; exact hesc) fun hmore => ?_
    rw [midway_iff (by omega) (by omega), ← hbyte pos (by omega)]
    exact fun hmid => hmid.2 (hstop (by omega))
  rw [hcall]
  by_cases hfit : pos ≤ tx.outBufferLen
  · have hall : run.take tx.outBufferLen = run := List.take_of_length_le (by omega)
    refine .writes run (by rw [← hlength]; exact hat) (by rw [← hlength]; exact hfront)
      (by rw [htx', hall]) ?_ ?_ fun hnil => ?_
    · rw [htx']
      show tx.outBufferLen - pos + _ = _
      omega
    · rw [← List.length_eq_zero_iff]
      show min pos _ = 0 ↔ _
      omega
    · rw [hnil] at hrunlen
      exact absurd hrunlen.symm (Nat.ne_of_gt hpos)
  · -- The buffer is full, and the pointer has moved by the whole run.
    obtain ⟨n, hn⟩ : ∃ n, tx.outBufferLen = n := ⟨_, rfl⟩
    rw [hn] at hfit hroom
    have htaken : (run.take n).length = n := by
      rw [List.length_take]
      omega
    have hcut : run.take n ++ run.drop n = run := List.take_append_drop n run
    have hsum : (run.take n).length + (run.drop n).length = pos := by
      rw [← List.length_append, hcut, hrunlen]
    have hwhere : 1 + (stuff (payload.take (tx.data + pos))).length =
        1 + (stuff (payload.take tx.data)).length + (run.take n).length + (run.drop n).length := by
      omega
    have hhalf : run.take n = (payload.drop tx.data).take n := by
      rw [htake, List.take_take, Nat.min_eq_left (by omega)]
    have hinside : 1 + (stuff (payload.take tx.data)).length + (run.take n).length =
        1 + (stuff (payload.take (tx.data + n))).length := by
      rw [stuff_take_add, ← hhalf, stuff_plain fun b hb => hrunplain b (List.mem_of_mem_take hb)]
      omega
    refine .skips (run.take n) (run.drop n) (fun hnil => ?_) (by rw [← hwhere]; exact hat) ?_
      (by rw [htx', hn]) ?_ (htaken.trans hn.symm) ?_ ?_ ?_
    · rw [hnil, List.length_nil] at hsum
      omega
    · rw [← hwhere, ← List.append_assoc, hcut]
      exact hfront
    · rw [htx']
      show tx.outBufferLen - pos = 0
      omega
    · show min pos tx.outBufferLen ≠ 0
      omega
    · refine ⟨tx.data + n, by omega, ?_, hinside⟩
      rw [midway_iff (by omega) (by omega), ← hbyte n (by omega),
        show tx.data + n - 1 = tx.data + (n - 1) by omega, ← hbyte (n - 1) (by omega)]
      exact ⟨hplain _ (Nat.zero_le _) (by omega), hplain _ (Nat.zero_le _) (by omega)⟩
    · rw [← hwhere, encodeFrame_drop]
      by_cases hend : pos < tx.len
      · rw [drop_getD (by omega), stuff_cons, ← hbyte pos (by omega),
          stuffByte_special (hstop (by omega))]
        exact ⟨_, _, rfl, .inl rfl⟩
      · have hoff : c = .off := by
          rcases hc with hoff | hone
          · exact hoff
          · omega
        rw [List.drop_of_length_le (by omega), hoff]
        exact ⟨_, _, rfl, .inr rfl⟩

/-- One byte of the frame is written. -/
theorem Acts.byte {r : TxStep π} {b : Byte} {rest : List Byte}
    (hrest : (encodeFrame c.stored payload).drop n = b :: rest)
    (hat : (encodeFrame c.stored payload).drop (n + 1) = rest → Tx.At c p payload (n + 1) r.tx)
    (hout : r.tx.outBuffer = tx.outBuffer ++ [b]) (hroom : 0 < tx.outBufferLen)
    (hleft : r.tx.outBufferLen = tx.outBufferLen - 1) (hres : r.result = 1) :
    Acts c p payload n tx (.ok r) := by
  have hdrop : (encodeFrame c.stored payload).drop (n + 1) = rest := by
    rw [← List.drop_drop, hrest]
    rfl
  refine .writes [b] (hat hdrop) ?_ hout ?_ ?_ nofun
  · rw [hrest, List.length_singleton, hdrop]
    rfl
  · rw [hleft]
    exact Nat.sub_add_cancel hroom
  · simp [hres]

/-- A byte that needs an escape is sent as two. -/
theorem sendData_escape (hs : tx.state = .sendData) (hcrc : tx.crcType = c)
    (ho : tx.originData = some p) (hlen : tx.data + tx.len = payload.length) (hl : 0 < tx.len)
    (hcheck : checkBytes tx.crc c.stored.value 0 = fcs c.stored payload)
    (hmid : ¬Midway (payload.take tx.data) (payload.drop tx.data))
    (hm : payload = (List.range payload.length).map (mem p)) (hroom : 0 < tx.outBufferLen)
    (hpos : literalRun (tx.byteAt mem) tx.len 0 = 0)
    (hn : n = 1 + (stuff (payload.take tx.data)).length + if tx.escape then 1 else 0) :
    Acts c p payload n tx (.ok (sendData mem tx)) := by
  have hspec : Special (tx.byteAt mem 0) := by
    obtain ⟨-, -, -, hstop⟩ := literalRun_spec (tx.byteAt mem) tx.len 0
    rw [hpos] at hstop
    exact hstop (by omega)
  rw [byteAt_eq ho hm (by omega), Nat.add_zero] at hspec
  have hbyte : tx.byteAt mem 0 = payload.getD tx.data 0 := byteAt_eq ho hm (by omega)
  have hd : tx.data < payload.length := by omega
  have hrest := encodeFrame_drop c.stored payload tx.data
  rw [drop_getD hd, stuff_cons, stuffByte_special hspec] at hrest
  have hzero : ¬literalRun (tx.byteAt mem) tx.len 0 > 0 := by omega
  cases he : tx.escape with
  | false =>
    rw [he] at hn
    have hcall : sendData mem tx =
        { tx := { tx with
            escape := true, outBuffer := tx.outBuffer ++ [escapeChar]
            outBufferLen := tx.outBufferLen - 1 }
          result := 1, sent := none } := by
      unfold sendData
      simp only [if_neg hzero, he, sendTxInternal_one hroom]
      simp [Nat.ne_of_gt hl]
    rw [hcall, hn]
    refine .byte hrest (fun _ => ?_) rfl hroom rfl rfl
    exact .data hs hcrc ho hlen hl hcheck (fun _ => hspec) hmid rfl
  | true =>
    rw [he] at hn
    have hrest' : (encodeFrame c.stored payload).drop n = (payload.getD tx.data 0 ^^^ escapeBit) ::
        (stuff (payload.drop (tx.data + 1)) ++ (stuff (fcs c.stored payload) ++ [flagSequence])) := by
      rw [hn, if_pos rfl, ← List.drop_drop, hrest]
      rfl
    obtain ⟨tx', htx'⟩ : ∃ t : Tx π, t = { tx with
        escape := false, data := tx.data + 1, len := tx.len - 1
        outBuffer := tx.outBuffer ++ [payload.getD tx.data 0 ^^^ escapeBit]
        outBufferLen := tx.outBufferLen - 1
        state := if tx.len - 1 = 0 then .sendCrc else .sendData } := ⟨_, rfl⟩
    have hcall : sendData mem tx = { tx := tx', result := 1, sent := none } := by
      unfold sendData
      simp only [if_neg hzero, he, hbyte, if_true, sendTxInternal_one hroom]
      rw [htx']
      by_cases hz : tx.len - 1 = 0
      · simp [hz]
      · simp [hz, hs]
    have hnext : n + 1 = 1 + (stuff (payload.take (tx.data + 1))).length := by
      rw [hn, stuff_take_add, drop_getD hd, List.take_succ_cons, stuff_cons,
        stuffByte_special hspec]
      rfl
    rw [hcall]
    refine .byte hrest' (fun _ => ?_) (by rw [htx']) hroom (by rw [htx']) rfl
    rw [hnext]
    refine .moved (by rw [htx']) (by rw [htx']) (by rw [htx']) (by rw [htx']; exact hcrc)
      (by rw [htx']; exact ho) (l := tx.len - 1) (by omega) (by rw [htx']; exact hcheck)
      (by rw [htx']) fun hmore => ?_
    rw [midway_iff (by omega) (by omega), Nat.add_sub_cancel]
    exact fun hboth => hboth.1 hspec

/-- The counter of bits never is the number of bytes, without a check field apart. -/
theorem fieldSize_ne {len : Nat} (hd : c ≠ .default) (hc : c ≠ .off) (hmod : len % 8 = 0) :
    len ≠ getCrcFieldSize c := by
  rintro rfl
  cases c with
  | default => exact hd rfl
  | off => exact hc rfl
  | crc8 | crc16 | crc32 => exact absurd hmod (by decide)

/-- A byte of the check field is written, whatever byte stands at this place. -/
theorem sendCrc_byte {checks : Bool} {crc : BitVec 32} (hsize : tx.len ≠ getCrcFieldSize tx.crcType)
    (hshift : shiftRight checks tx.crc tx.len = .ok crc) (hroom : 0 < tx.outBufferLen) :
    ∃ r x, sendCrc checks tx = .ok r ∧ r.result = 1 ∧
      r.tx = { tx with
        outBuffer := tx.outBuffer ++ [x], outBufferLen := tx.outBufferLen - 1
        escape := r.tx.escape, len := r.tx.len } ∧
      (¬Special (crc.setWidth 8) →
        x = crc.setWidth 8 ∧ r.tx.escape = tx.escape ∧ r.tx.len = tx.len + 8) ∧
      (Special (crc.setWidth 8) → tx.escape = false →
        x = escapeChar ∧ r.tx.escape = true ∧ r.tx.len = tx.len) ∧
      (Special (crc.setWidth 8) → tx.escape = true →
        x = crc.setWidth 8 ^^^ escapeBit ∧ r.tx.escape = false ∧ r.tx.len = tx.len + 8) := by
  unfold sendCrc
  rw [if_neg hsize, hshift]
  simp only [bind, Except.bind, sendTxInternal_one hroom]
  by_cases hspec : Special (crc.setWidth 8)
  · have hnot : ¬(crc.setWidth 8 ≠ escapeChar ∧ crc.setWidth 8 ≠ flagSequence) := by
      rintro ⟨hesc, hflag⟩
      exact hspec.elim hesc hflag
    rw [if_neg hnot]
    cases he : tx.escape with
    | false => exact ⟨_, escapeChar, rfl, rfl, rfl, fun hno => absurd hspec hno,
        fun _ _ => ⟨rfl, rfl, rfl⟩, fun _ => nofun⟩
    | true => exact ⟨_, _, rfl, rfl, rfl, fun hno => absurd hspec hno, fun _ => nofun,
        fun _ _ => ⟨rfl, rfl, rfl⟩⟩
  · have hnot : crc.setWidth 8 ≠ escapeChar ∧ crc.setWidth 8 ≠ flagSequence :=
      ⟨fun h => hspec (.inl h), fun h => hspec (.inr h)⟩
    rw [if_pos hnot]
    exact ⟨_, _, rfl, rfl, rfl, fun _ => ⟨rfl, rfl, rfl⟩, fun hs => absurd hs hspec,
      fun hs => absurd hs hspec⟩

theorem sendCrc_acts {checks : Bool} (hs : tx.state = .sendCrc) (hcrc : tx.crcType = c)
    (hle : tx.len ≤ c.stored.value) (hmod : tx.len % 8 = 0)
    (hesc : tx.escape = true → tx.len < c.stored.value ∧ Special ((tx.crc >>> tx.len).setWidth 8))
    (hrest : (encodeFrame c.stored payload).drop n =
      stuffFrom tx.escape (checkBytes tx.crc c.stored.value tx.len) ++ [flagSequence])
    (hn : 1 + (stuff payload).length ≤ n) (hd : c ≠ .default) (hroom : 0 < tx.outBufferLen) :
    Acts c p payload n tx (sendCrc checks tx) := by
  by_cases hoff : c = .off
  · have hzero : tx.len = 0 := by
      rw [hoff] at hle
      exact Nat.le_zero.mp hle
    have hlast : (encodeFrame c.stored payload).drop n = [flagSequence] := by
      rw [hrest, hzero, hoff]
      cases tx.escape <;> rfl
    have hcall : sendCrc checks tx =
        .ok { tx := { tx with state := .sendEnd }, result := 0, sent := none } := by
      unfold sendCrc
      rw [if_pos]
      rw [hcrc, hzero, hoff]
      rfl
    rw [hcall]
    refine .writes [] (.flag rfl hoff hlast hn) rfl ?_ rfl (by simp) fun _ => .inl ⟨hs, rfl⟩
    exact (List.append_nil _).symm
  · have hsize : tx.len ≠ getCrcFieldSize tx.crcType := by
      rw [hcrc]
      exact fieldSize_ne hd hoff hmod
    by_cases hend : tx.len = c.stored.value
    · have hplain : tx.escape = false := by
        by_contra he
        have hlt := (hesc (by simpa using he)).1
        omega
      refine .derails hoff ?_ fun r hr => ?_
      · rw [hrest, hend, checkBytes_done, hplain]
        rfl
      · cases hshift : shiftRight checks tx.crc tx.len with
        | error e =>
          unfold sendCrc at hr
          rw [if_neg hsize, hshift] at hr
          cases hr
        | ok crc =>
          obtain ⟨r', x, hr', hres, htx, hx, hx', -⟩ := sendCrc_byte hsize hshift hroom
          cases hr.symm.trans hr'
          refine ⟨x, ?_, by rw [htx], by rw [htx]; exact Nat.sub_add_cancel hroom,
            by rw [hres]; exact Nat.one_ne_zero⟩
          by_cases hspec : Special (crc.setWidth 8)
          · rw [(hx' hspec hplain).1]
            decide
          · rw [(hx hspec).1]
            exact fun hflag => hspec (.inr hflag)
    · have hbits : c.stored.value % 8 = 0 ∧ c.stored.value ≤ 32 := by
        cases c <;> decide
      have hshift : shiftRight checks tx.crc tx.len = .ok (tx.crc >>> tx.len) := by
        unfold shiftRight
        rw [if_pos (by omega)]
      obtain ⟨r, x, hr, hres, htx, hx, hx', hx''⟩ := sendCrc_byte hsize hshift hroom
      have hcons : checkBytes tx.crc c.stored.value tx.len =
          (tx.crc >>> tx.len).setWidth 8 :: checkBytes tx.crc c.stored.value (tx.len + 8) :=
        checkBytes_cons tx.crc (by omega)
      have hstate : r.tx.state = .sendCrc := by rw [htx]; exact hs
      have hcrc' : r.tx.crcType = c := by rw [htx]; exact hcrc
      have hreg : r.tx.crc = tx.crc := by rw [htx]
      have hout : r.tx.outBuffer = tx.outBuffer ++ [x] := by rw [htx]
      have hleft : r.tx.outBufferLen = tx.outBufferLen - 1 := by rw [htx]
      have hnext : 1 + (stuff payload).length ≤ n + 1 := Nat.le_succ_of_le hn
      rw [hcons] at hrest
      rw [hr]
      by_cases hspec : Special ((tx.crc >>> tx.len).setWidth 8)
      · rw [stuffFrom, stuff_cons, stuffByte_special hspec] at hrest
        cases he : tx.escape with
        | false =>
          obtain ⟨rfl, hescape, hlen⟩ := hx' hspec he
          rw [he] at hrest
          refine .byte hrest (fun hdrop => ?_) hout hroom hleft hres
          refine .crc hstate hcrc' (by rw [hlen]; exact hle) (by rw [hlen]; exact hmod)
            (fun _ => by rw [hlen, hreg]; exact ⟨by omega, hspec⟩) ?_ hnext
          rw [hdrop, hescape, hreg, hlen, hcons, stuffFrom, stuff_cons, stuffByte_special hspec]
          rfl
        | true =>
          obtain ⟨rfl, hescape, hlen⟩ := hx'' hspec he
          rw [he] at hrest
          refine .byte hrest (fun hdrop => ?_) hout hroom hleft hres
          refine .crc hstate hcrc' (by omega) (by omega)
            (fun hyes => by rw [hescape] at hyes; cases hyes) ?_ hnext
          rw [hdrop, hescape, hreg, hlen]
          rfl
      · have he : tx.escape = false := by
          by_contra he
          exact hspec (hesc (by simpa using he)).2
        obtain ⟨rfl, hescape, hlen⟩ := hx hspec
        rw [stuffFrom, he, stuff_cons, stuffByte_plain hspec] at hrest
        refine .byte hrest (fun hdrop => ?_) hout hroom hleft hres
        refine .crc hstate hcrc' (by omega) (by omega)
          (fun hyes => by rw [hescape, he] at hyes; cases hyes) ?_
          hnext
        rw [hdrop, hescape, he, hreg, hlen]
        rfl

theorem sendEnd_acts (hc : c = .off) (hrest : (encodeFrame c.stored payload).drop n = [flagSequence])
    (hn : 1 + (stuff payload).length ≤ n) (hroom : 0 < tx.outBufferLen) :
    Acts c p payload n tx (.ok (sendEnd tx)) := by
  unfold sendEnd
  rw [sendTxInternal_one hroom]
  exact .byte hrest (fun hdrop => .done rfl rfl hc hdrop (Nat.le_succ_of_le hn)) rfl hroom rfl rfl

/-- A call through `state`, where it is known how much of the frame is sent. -/
theorem txStateCall_acts {checks : Bool} (hat : Tx.At c p payload n tx) (hpos : 0 < payload.length)
    (hd : c ≠ .default) (hc : c = .off ∨ payload.length = 1)
    (hm : payload = (List.range payload.length).map (mem p)) (hroom : 0 < tx.outBufferLen) :
    Acts c p payload n tx (txStateCall checks mem tx) := by
  unfold txStateCall
  cases hat with
  | start hs hp hcrc ho hdata hlen =>
    rw [hs]
    exact sendStart_acts hp hcrc ho hdata hlen hpos hd hc hm hroom
  | data hs hcrc ho hlen hl hcheck hesc hmid hn =>
    rw [hs]
    rcases Nat.eq_zero_or_pos (literalRun (tx.byteAt mem) tx.len 0) with hzero | hrun
    · exact sendData_escape hs hcrc ho hlen hl hcheck hmid hm hroom hzero hn
    · have he : tx.escape = false := by
        by_contra he
        obtain ⟨-, -, hplain, -⟩ := literalRun_spec (tx.byteAt mem) tx.len 0
        refine hplain 0 (Nat.le_refl 0) hrun ?_
        rw [byteAt_eq ho hm (by omega)]
        exact hesc (by simpa using he)
      rw [hn, he]
      exact sendData_run hs hcrc ho hlen hcheck he hc hm hroom hrun
  | crc hs hcrc hle hmod hesc hrest hn =>
    rw [hs]
    exact sendCrc_acts hs hcrc hle hmod hesc hrest hn hd hroom
  | flag hs hoff hrest hn =>
    rw [hs]
    exact sendEnd_acts hoff hrest hn hroom
  | done hs hp hoff hrest hn =>
    rw [hs]
    have hcall : sendStart mem tx = .ok { tx := tx, result := 0, sent := none } := if_pos hp
    rw [hcall]
    exact .writes [] (.done hs hp hoff hrest hn) rfl (List.append_nil _).symm rfl (by simp)
      fun _ => .inr ⟨hs, hrest, rfl⟩

end TinyProto.Rust
