import TinyProto.Hdlc.Progress

/-!
# What `on_frame_send` is told

A frame is reported once, when its closing flag is emitted or by `hdlc_ll_close` while it is
in progress.  `hdlc_ll_close` takes the length from `tx.data` and `tx.len`.  While the check
field is sent `tx.len` counts its bits, so the length is right if and only if no byte of the
check field has been emitted (`on_frame_send_named_iff`).
-/

namespace TinyProto.Hdlc

variable {π : Type} {c : HdlcCrc} {mem : π → Nat → Byte} {tx : Tx π} {h : HdlcLl π} {p : π}
  {len : Nat}

/-! ## Notifications -/

/-- The frames that are reported when `hdlc_ll_run_tx` is called with one buffer size after
another. -/
def reports (mem : π → Nat → Byte) : HdlcLl π → List Nat → List (π × Nat)
  | _, [] => []
  | h, len :: sizes =>
      let (h, _, sent) := hdlcLlRunTx mem h len
      sent ++ reports mem h sizes

/-- The calls of `on_frame_send` for a frame that is put, drained with these buffer sizes and
closed behind that. -/
def notifications (mem : π → Nat → Byte) (h : HdlcLl π) (data : π) (len : Nat)
    (sizes : List Nat) : List (π × Nat) :=
  let h := (hdlcLlPutFrame h data len).1
  reports mem h sizes ++ (hdlcLlClose (drain mem h sizes).1).toList

/-! ## The frame that is carried -/

/-- The transmitter carries this frame: the check field is the one of the payload, and at the
end `tx.len` counts its bits. -/
structure Tx.Carries (c : HdlcCrc) (mem : π → Nat → Byte) (p : π) (len : Nat) (tx : Tx π) :
    Prop where
  origin : tx.originData = some p
  frameLen : tx.frameLen = len
  start : tx.state = .sendStart → tx.data = 0
  crc : tx.state ≠ .sendStart →
    checkBytes tx.crc c.value 0 = fcs c ((List.range len).map (mem p))
  last : tx.state = .sendEnd → tx.len = c.value

theorem sendStart_crc (hc : c.stored = c) (hb : 0 < tx.outBufferLen) (hs : tx.state = .sendStart)
    (ht : tx.Carries c mem p len) :
    (sendStart c mem tx).tx.state = .sendData ∧
      checkBytes (sendStart c mem tx).tx.crc c.value 0 =
        fcs c ((List.range len).map (mem p)) := by
  have hbytes : tx.bytes mem = (List.range len).map (mem p) := by
    have hlen := ht.frameLen
    unfold Tx.frameLen at hlen
    rw [hs] at hlen
    dsimp only at hlen
    rw [ht.start hs, Nat.zero_add] at hlen
    unfold Tx.bytes Tx.byteAt
    rw [ht.origin, ht.start hs, hlen]
    simp only [Nat.zero_add]
  have hone := @sendTxInternal_one _ { tx with crc := txCrc c tx.crc (tx.bytes mem) } hb
    flagSequence
  have hn : tx.originData.isNone = false := by rw [ht.origin]; rfl
  simp only [sendStart, hn, Bool.false_eq_true, if_false, hone, if_true, true_and]
  rw [hbytes]
  exact checkBytes_txCrc hc _ _

/-- A state call carries the frame on, or emits its end. -/
theorem txStateCall_carries (hc : c.stored = c) (ho : tx.Ok c mem) (hb : 0 < tx.outBufferLen)
    (ht : tx.Carries c mem p len) :
    (txStateCall c mem tx).tx.originData = none ∨
      (txStateCall c mem tx).tx.Carries c mem p len := by
  obtain ⟨n, hspec⟩ := txStateCall_spec (value_mod_of_stored hc) ho hb
  rcases hspec.sent with ⟨-, horigin, hlen, hstate⟩ | ⟨_, -, -, hdone⟩
  · have hbusy := hstate (by rw [ht.origin]; rfl)
    refine .inr ⟨horigin.trans ht.origin, hlen.trans ht.frameLen, fun hs => absurd hs hbusy,
      fun _ => ?_, fun he => ?_⟩
    · unfold txStateCall
      cases hs : tx.state with
      | sendStart => exact (sendStart_crc hc hb hs ht).2
      | sendData =>
        rw [(sendData_crc mem tx).1]
        exact ht.crc (by rw [hs]; exact TxState.noConfusion)
      | sendCrc =>
        rw [(sendCrc_crc c tx).1]
        exact ht.crc (by rw [hs]; exact TxState.noConfusion)
      | sendEnd =>
        have hkeeps : (sendEnd tx).tx.crc = tx.crc := by
          unfold sendEnd
          dsimp only
          split
          · rfl
          · rfl
        rw [hkeeps]
        exact ht.crc (by rw [hs]; exact TxState.noConfusion)
    · unfold txStateCall at he horigin ⊢
      cases hs : tx.state with
      | sendStart =>
        rw [hs] at he
        cases he.symm.trans (sendStart_crc hc hb hs ht).1
      | sendData =>
        rw [hs] at he
        rcases (sendData_crc mem tx).2 with hsame | hcrc
        · cases he.symm.trans (hsame.trans hs)
        · cases he.symm.trans hcrc
      | sendCrc =>
        rw [hs] at he
        rcases (sendCrc_crc c tx).2 with hsame | ⟨-, hlen⟩
        · cases he.symm.trans (hsame.trans hs)
        · exact hlen
      | sendEnd =>
        rw [hs] at horigin
        have hdone : (sendEnd tx).tx.originData = none := by
          unfold sendEnd
          rw [sendTxInternal_one hb]
          rfl
        cases hdone.symm.trans (horigin.trans ht.origin)
  · exact .inl hdone

/-! ## Runs -/

/-- The transmitter has emitted the frame, or carries it. -/
structure HdlcLl.Carries (mem : π → Nat → Byte) (p : π) (len : Nat) (h : HdlcLl π) : Prop where
  inv : h.Inv mem
  tx : h.tx.originData = none ∨ h.tx.Carries h.crcType mem p len

theorem HdlcLl.Carries.runTx (hc : h.Carries mem p len) (n : Nat) :
    (hdlcLlRunTx mem h n).1.Carries mem p len := by
  refine ⟨hc.inv.runTx n, ?_⟩
  have hrule := @runTxLoop_rule _ h.crcType mem (fun tx =>
    tx.Ok h.crcType mem ∧ (tx.originData = none ∨ tx.Carries h.crcType mem p len))
    (fun tx hb hP => ?_) (n + 4) false { h.tx with outBuffer := [], outBufferLen := n } ?_
  · exact hrule.2
  · obtain ⟨ho, ht⟩ := hP
    obtain ⟨_, hspec⟩ := txStateCall_spec (value_mod_of_stored hc.inv.stored) ho hb
    refine ⟨hspec.ok, ?_⟩
    rcases ht with hn | ht
    · rw [txStateCall_idle ho.idle hn]
      exact .inl hn
    · exact txStateCall_carries hc.inv.stored ho hb ht
  · have ho := hc.inv.tx
    refine ⟨⟨ho.idle, ho.start, ho.data, ho.dataEscape, ho.crcLen, ho.crcEscape⟩, ?_⟩
    exact hc.tx.imp id fun ht => ⟨ht.origin, ht.frameLen, ht.start, ht.crc, ht.last⟩

theorem reports_idle (hi : h.Inv mem) (hn : h.tx.originData = none) (sizes : List Nat) :
    reports mem h sizes = [] ∧ (drain mem h sizes).1.tx.originData = none := by
  induction sizes generalizing h with
  | nil => exact ⟨rfl, hn⟩
  | cons n sizes ih =>
    obtain ⟨-, hpassed⟩ := runTx_passed hi.tx.idle mem n
    rcases hpassed with ⟨hs, ho⟩ | ⟨r, -, hr, -⟩
    · obtain ⟨hrest, hlast⟩ := ih (hi.runTx n) (ho.trans hn)
      refine ⟨?_, hlast⟩
      unfold reports
      dsimp only
      rw [hs, hrest]
      rfl
    · rw [hn] at hr
      cases hr

/-- The frame is reported when it is emitted, and not before. -/
theorem reports_carried (hc : h.Carries mem p len) (ho : h.tx.originData = some p)
    (sizes : List Nat) :
    (drain mem h sizes).1.tx.originData = none ∧ reports mem h sizes = [(p, len)] ∨
      (drain mem h sizes).1.tx.Carries h.crcType mem p len ∧ reports mem h sizes = [] := by
  induction sizes generalizing h with
  | nil =>
    rcases hc.tx with hn | ht
    · cases hn.symm.trans ho
    · exact .inr ⟨ht, rfl⟩
  | cons n sizes ih =>
    have hnext := hc.runTx n
    have hlen : h.tx.frameLen = len := by
      rcases hc.tx with hn | ht
      · cases hn.symm.trans ho
      · exact ht.frameLen
    unfold reports drain
    dsimp only
    rcases runTx_sent hc.inv.txOk n with ⟨hs, hod, -, -⟩ | ⟨q, hq, hs, hod, -⟩
    · rw [hs, List.nil_append]
      exact ih hnext (hod.trans ho)
    · obtain ⟨hrest, hlast⟩ := reports_idle hnext.inv hod sizes
      cases hq.symm.trans ho
      rw [hs, hrest, hlen]
      exact .inl ⟨hlast, rfl⟩

/-! ## The length at the close -/

theorem checkBytes_drop (crc : BitVec 32) {bits m : Nat} (hm : 8 * m ≤ bits) :
    checkBytes crc bits (8 * m) = (checkBytes crc bits 0).drop m := by
  unfold checkBytes
  have hcount : (bits - 8 * m) / 8 = (bits - 0) / 8 - m := by omega
  rw [← List.map_drop, hcount]
  refine List.ext_getElem (by simp) fun i hi _ => ?_
  simp [Nat.mul_add]

theorem stuffFrom_length (escape : Bool) (bs : List Byte) :
    (stuffFrom escape bs).length ≤ (stuff bs).length ∧
      (stuff bs).length ≤ (stuffFrom escape bs).length + 1 := by
  unfold stuffFrom
  cases escape with
  | false => exact ⟨Nat.le_refl _, Nat.le_succ _⟩
  | true =>
    simp only [if_true, List.length_tail]
    omega

theorem stuff_take_drop (bs : List Byte) (n : Nat) :
    (stuff bs).length = (stuff (bs.take n)).length + (stuff (bs.drop n)).length := by
  rw [← List.length_append, ← stuff_append, List.take_append_drop]

theorem stuff_take_one_pos {bs : List Byte} (hb : bs ≠ []) : 0 < (stuff (bs.take 1)).length := by
  obtain ⟨b, rest, rfl⟩ := List.exists_cons_of_ne_nil hb
  rw [List.take_succ_cons, List.take_zero, stuff_cons, stuff_nil, List.append_nil]
  unfold stuffByte
  split
  · exact Nat.zero_lt_two
  · exact Nat.one_pos

/-- No byte of the check field has been emitted, after this many bytes of the frame. -/
def BeforeCheckField (c : HdlcCrc) (payload : List Byte) (n : Nat) : Prop :=
  n < (flagSequence :: stuff (payload ++ (fcs c payload).take 1)).length

instance beforeCheckField_decidable (c : HdlcCrc) (payload : List Byte) (n : Nat) :
    Decidable (BeforeCheckField c payload n) := inferInstanceAs (Decidable (_ < _))

/-- The frame in progress is closed with its length if and only if no byte of the check field
has been emitted. -/
theorem Tx.Carries.closed (ht : tx.Carries c mem p len) (ho : tx.Ok c mem) (hc : c.stored = c)
    {n : Nat}
    (hp : tx.pending c mem = (encodeFrame c ((List.range len).map (mem p))).drop n) :
    tx.data + tx.len = len ↔ fcs c ((List.range len).map (mem p)) = [] ∨
      BeforeCheckField c ((List.range len).map (mem p)) n := by
  obtain ⟨payload, hpay⟩ : ∃ x, x = (List.range len).map (mem p) := ⟨_, rfl⟩
  have hcrc := ht.crc
  have hlen := ht.frameLen
  rw [← hpay] at hp hcrc ⊢
  have hfcs := length_fcs c payload
  have hcount := congrArg List.length hp
  have hne : 0 < (tx.pending c mem).length :=
    List.length_pos_of_ne_nil (Tx.pending_ne_nil c mem (by rw [ht.origin]; exact Option.some_ne_none _))
  have hsplit := stuff_take_drop (fcs c payload) 1
  unfold BeforeCheckField
  unfold encodeFrame at hcount
  rw [List.length_cons, stuff_append, List.length_append]
  rw [List.length_drop, List.length_cons, stuff_append, List.length_append, List.length_append,
    List.length_singleton] at hcount
  unfold Tx.frameLen at hlen
  have hmod := value_mod_of_stored hc
  have hfield : tx.state ≠ .sendStart → checkBytes tx.crc c.value 0 = fcs c payload := hcrc
  cases hs : tx.state with
  | sendStart =>
    rw [hs] at hlen
    have hzero := ht.start hs
    dsimp only at hlen
    rw [hzero, Nat.zero_add] at hlen
    have hall : tx.pending c mem = encodeFrame c payload := by
      rw [Tx.pending_new hc hs ht.origin hzero, hlen, hpay]
    rw [hall] at hcount
    unfold encodeFrame at hcount
    rw [List.length_cons, stuff_append, List.length_append, List.length_append,
      List.length_singleton] at hcount
    refine iff_of_true (by rw [hzero, Nat.zero_add, hlen]) (.inr ?_)
    omega
  | sendData =>
    rw [hs] at hlen hfield
    simp only [Tx.pending, hs, hfield TxState.noConfusion, List.length_append,
      List.length_singleton] at hcount
    refine iff_of_true hlen ?_
    by_cases hf : fcs c payload = []
    · exact .inl hf
    · have := stuff_take_one_pos hf
      right
      omega
  | sendCrc =>
    rw [hs] at hlen hfield
    dsimp only at hlen
    obtain ⟨hle, hbits⟩ := ho.crcLen hs
    obtain ⟨m, hm⟩ : ∃ m, tx.len = 8 * m := ⟨tx.len / 8, by omega⟩
    have hrest : checkBytes tx.crc c.value tx.len = (fcs c payload).drop m := by
      rw [hm, checkBytes_drop _ (by omega), hfield TxState.noConfusion]
    simp only [Tx.pending, hs, hrest, List.length_append, List.length_singleton] at hcount hne
    have hfrom := stuffFrom_length tx.escape ((fcs c payload).drop m)
    rw [hlen, hm]
    cases m with
    | zero =>
      refine iff_of_true rfl ?_
      cases hf : fcs c payload with
      | nil => exact .inl rfl
      | cons b rest =>
        right
        have hpos := stuff_take_one_pos (List.cons_ne_nil b rest)
        rw [hf] at hcount hsplit hfrom hne
        cases he : tx.escape with
        | false =>
          rw [he] at hcount
          have hwhole : stuffFrom false ((b :: rest).drop 0) = stuff (b :: rest) := rfl
          rw [hwhole] at hcount
          omega
        | true =>
          -- Only the escape character is out.
          obtain ⟨hbits', hspecial⟩ := ho.crcEscape hs he
          have hfirst : (tx.crc >>> tx.len).setWidth 8 = b := by
            rw [hm, Nat.mul_zero]
            have hcons := @checkBytes_cons tx.crc c.value 0 (by omega)
            rw [hfield TxState.noConfusion, hf] at hcons
            exact (List.cons.inj hcons).1.symm
          rw [hfirst] at hspecial
          have htwo : (stuff ((b :: rest).take 1)).length = 2 := by
            rw [List.take_succ_cons, List.take_zero, stuff_cons, stuff_nil, List.append_nil,
              stuffByte_special hspecial]
            rfl
          rw [List.drop_zero] at hfrom hcount
          omega
    | succ m =>
      have hf : fcs c payload ≠ [] := by
        intro hnil
        rw [hnil, List.length_nil] at hfcs
        omega
      have hless := stuff_take_drop ((fcs c payload).drop 1) m
      rw [List.drop_drop, Nat.add_comm 1 m] at hless
      refine iff_of_false (by omega) ?_
      rintro (hnil | hlt)
      · exact hf hnil
      · omega
  | sendEnd =>
    rw [hs] at hlen
    dsimp only at hlen
    have hlast := ht.last hs
    simp only [Tx.pending, hs, List.length_singleton] at hcount
    rw [hlen, hlast]
    constructor
    · intro hzero
      left
      refine List.eq_nil_of_length_eq_zero ?_
      rw [hfcs]
      omega
    · rintro (hnil | hlt)
      · rw [hnil, List.length_nil] at hfcs
        omega
      · omega

/-! ## All frames -/

theorem carries_putFrame (hi : h.Inv mem) (hn : h.tx.originData = none) (data : π)
    (hl : 0 < len) : (hdlcLlPutFrame h data len).1.Carries mem data len ∧
      (hdlcLlPutFrame h data len).1.tx.originData = some data := by
  have hput := congrArg Prod.fst (putFrame_idle hn data hl)
  have hs := hi.tx.idle hn
  refine ⟨⟨hi.putFrame data len, .inr ?_⟩, by rw [hput]⟩
  rw [hput]
  refine ⟨rfl, ?_, fun _ => rfl, fun hns => absurd hs hns, fun he => ?_⟩
  · unfold Tx.frameLen
    dsimp only
    rw [hs]
    exact Nat.zero_add len
  · cases he.symm.trans hs

/-- A frame is reported once, with its pointer.  It is reported with its length if and only if
it was emitted as a whole, or closed with no byte of the check field emitted, or has no check
field. -/
theorem on_frame_send_named_iff (hr : h.Reachable mem) (hn : h.tx.originData = none) (data : π)
    (hl : 0 < len) (sizes : List Nat) :
    ∃ n, notifications mem h data len sizes = [(data, n)] ∧
      (n = len ↔ fcs h.crcType ((List.range len).map (mem data)) = [] ∨
        (encodeFrame h.crcType ((List.range len).map (mem data))).length ≤ room sizes ∨
        BeforeCheckField h.crcType ((List.range len).map (mem data)) (room sizes)) := by
  have hi := hr.inv
  obtain ⟨hput, hput'⟩ := carries_putFrame hi hn data hl
  obtain ⟨-, hcrc, hpend⟩ := pending_putFrame hi hn data hl
  obtain ⟨hlast, hcrc', -, hrest⟩ := drain_spec hput.inv sizes
  rw [hpend] at hrest
  unfold notifications hdlcLlClose
  dsimp only
  rcases reports_carried hput hput' sizes with ⟨hdone, hrep⟩ | ⟨ht, hrep⟩
  · refine ⟨len, ?_, iff_of_true rfl (.inr (.inl ?_))⟩
    · rw [hrep, hdone]
      rfl
    · have hnil := hlast.tx.pending_nil hdone
      exact List.drop_eq_nil_iff.mp (hrest.symm.trans hnil)
  · rw [hcrc] at ht
    have hok := hlast.tx
    unfold HdlcLl.pending at hrest
    rw [hcrc', hcrc] at hok hrest
    have hclosed := ht.closed hok hi.stored hrest
    refine ⟨_, ?_, hclosed.trans ⟨fun hor => hor.imp id .inr, ?_⟩⟩
    · rw [hrep, ht.origin]
      rfl
    · rintro (hf | hwhole | hb)
      · exact .inl hf
      · rw [List.drop_eq_nil_iff.mpr hwhole] at hrest
        have hbusy : (drain mem (hdlcLlPutFrame h data len).1 sizes).1.tx.originData ≠ none := by
          rw [ht.origin]
          exact Option.some_ne_none _
        exact absurd hrest (Tx.pending_ne_nil h.crcType mem hbusy)
      · exact .inr hb

/-- One byte, closed behind the opening flag. -/
theorem on_frame_send_named_started :
    notifications bufferMem exampleHandle [0x55] 1 [1] = [([0x55], 1)] := by
  obtain ⟨n, hn, hiff⟩ := @on_frame_send_named_iff _ bufferMem _ 1 exampleHandle_reachable
    rfl [0x55] (Nat.succ_pos 0) [1]
  rw [hn, hiff.mpr (.inr (.inr (by decide +kernel)))]

/-- Closed behind the first byte of the check field, it is reported with nine bytes. -/
theorem on_frame_send_misnamed :
    notifications bufferMem exampleHandle [0x55] 1 [3] = [([0x55], 9)] ∧
      notifications bufferMem exampleHandle [0x55] 1 [3] ≠ [([0x55], 1)] := by
  decide +kernel

end TinyProto.Hdlc
