import TinyProto.Hdlc.Encode

/-!
# Units on the wire

What the transmitter writes is a sequence of units, each a flag, a body without flags, and
a flag.  This holds whatever is in the memory it reads the frames from, even if that
changes while a frame is on its way: a byte of the body that would be a flag is escaped
when it is read.
-/

namespace TinyProto.Hdlc

variable {π : Type} {c : HdlcCrc}

/-! ## Units -/

/-- A flag, a body and a flag. -/
def unit (body : List Byte) : List Byte := flagSequence :: (body ++ [flagSequence])

/-- A sequence of units, the last one possibly unfinished.  `inside` says that it is. -/
def WholeFrames (wire : List Byte) (inside : Prop) : Prop :=
  ∃ (bodies : List (List Byte)) (tail : List Byte), wire = bodies.flatMap unit ++ tail ∧
    (∀ body ∈ bodies, flagSequence ∉ body) ∧
    ((¬inside ∧ tail = []) ∨ (inside ∧ ∃ body, tail = flagSequence :: body ∧ flagSequence ∉ body))

theorem WholeFrames.nil {inside : Prop} (hi : ¬inside) : WholeFrames [] inside :=
  ⟨[], [], rfl, by simp, .inl ⟨hi, rfl⟩⟩

variable {wire : List Byte} {inside inside' : Prop}

theorem WholeFrames.opens (hw : WholeFrames wire inside) (hi : ¬inside) (hi' : inside') :
    WholeFrames (wire ++ [flagSequence]) inside' := by
  obtain ⟨bodies, tail, rfl, hb, ⟨-, rfl⟩ | ⟨h, -⟩⟩ := hw
  · exact ⟨bodies, [flagSequence], by rw [List.append_nil], hb, .inr ⟨hi', [], rfl, by simp⟩⟩
  · exact absurd h hi

theorem WholeFrames.extends (hw : WholeFrames wire inside) (hi : inside) (hi' : inside')
    {bs : List Byte} (hbs : flagSequence ∉ bs) : WholeFrames (wire ++ bs) inside' := by
  obtain ⟨bodies, tail, rfl, hb, ⟨h, -⟩ | ⟨-, body, rfl, hbody⟩⟩ := hw
  · exact absurd hi h
  · refine ⟨bodies, flagSequence :: (body ++ bs), ?_, hb, .inr ⟨hi', body ++ bs, rfl, ?_⟩⟩
    · rw [List.append_assoc, List.cons_append]
    · rw [List.mem_append]
      exact not_or.mpr ⟨hbody, hbs⟩

theorem WholeFrames.closes (hw : WholeFrames wire inside) (hi : inside) (hi' : ¬inside') :
    WholeFrames (wire ++ [flagSequence]) inside' := by
  obtain ⟨bodies, tail, rfl, hb, ⟨h, -⟩ | ⟨-, body, rfl, hbody⟩⟩ := hw
  · exact absurd hi h
  · refine ⟨bodies ++ [body], [], ?_, ?_, .inl ⟨hi', rfl⟩⟩
    · simp [unit]
    · intro b hm
      rcases List.mem_append.mp hm with hm | hm
      · exact hb b hm
      · rw [List.mem_singleton.mp hm]
        exact hbody

theorem WholeFrames.congr (hw : WholeFrames wire inside) (hi : inside ↔ inside') :
    WholeFrames wire inside' := by
  unfold WholeFrames at hw ⊢
  simp only [← hi]
  exact hw

/-! ## One state call -/

/-- What holds of a transmitter between two state calls, whatever the memory is. -/
structure Tx.Sound (c : HdlcCrc) (tx : Tx π) : Prop where
  /-- Only the start state has no frame. -/
  idle : tx.originData = none → tx.state = .sendStart
  /-- A frame is not empty. -/
  start : tx.state = .sendStart → tx.originData.isSome → 0 < tx.len
  /-- There is data to send in the data state. -/
  data : tx.state = .sendData → 0 < tx.len
  /-- The check field is sent byte by byte. -/
  crcLen : tx.state = .sendCrc → tx.len ≤ c.value ∧ tx.len % 8 = 0

/-- Between the flags of a unit. -/
def Tx.Inside (tx : Tx π) : Prop := tx.state ≠ .sendStart

/-- What a state call writes. -/
inductive Writes (tx : Tx π) (r : TxStep π) : List Byte → Prop where
  | idle (hp : tx.originData = none) (htx : r.tx = tx) (hres : r.result = 0)
      (hsent : r.sent = none) : Writes tx r []
  | opens (hp : tx.originData ≠ none) (hs : ¬tx.Inside) (hs' : r.tx.Inside)
      (hp' : r.tx.originData = tx.originData) (hres : r.result ≠ 0) (hsent : r.sent = none) :
      Writes tx r [flagSequence]
  | inside {bs : List Byte} (hp : tx.originData ≠ none) (hs : tx.Inside) (hs' : r.tx.Inside)
      (hp' : r.tx.originData = tx.originData) (hbs : flagSequence ∉ bs)
      (hpos : bs ≠ [] ∨ tx.state = .sendCrc ∧ r.tx.state = .sendEnd) (hend : tx.state ≠ .sendEnd)
      (hres : r.result ≠ 0) (hsent : r.sent = none) : Writes tx r bs
  | closes {p : π} (hp : tx.originData = some p) (hs : tx.Inside) (hs' : ¬r.tx.Inside)
      (hp' : r.tx.originData = none) (hres : r.result ≠ 0) (hsent : r.sent = some (p, tx.data)) :
      Writes tx r [flagSequence]

/-- The account of a state call. -/
structure TxStep.Framed (c : HdlcCrc) (tx : Tx π) (r : TxStep π) (bs : List Byte) : Prop where
  writes : Writes tx r bs
  out : r.tx.outBuffer = tx.outBuffer ++ bs
  room : bs.length ≤ tx.outBufferLen
  outLen : r.tx.outBufferLen = tx.outBufferLen - bs.length
  sound : r.tx.Sound c

theorem sendStart_framed {mem : π → Nat → Byte} {tx : Tx π} (ho : tx.Sound c)
    (hs : tx.state = .sendStart) (hb : 0 < tx.outBufferLen) :
    ∃ bs, (sendStart c mem tx).Framed c tx bs := by
  cases hp : tx.originData with
  | none =>
    have hr : sendStart c mem tx = { tx := tx, result := 0, sent := none } := by
      simp [sendStart, hp]
    rw [hr]
    exact ⟨[], .idle hp rfl rfl rfl, (List.append_nil _).symm, Nat.zero_le _, rfl, ho⟩
  | some p =>
    have hr : sendStart c mem tx =
        { tx := { tx with
            crc := txCrc c tx.crc (tx.bytes mem), outBuffer := tx.outBuffer ++ [flagSequence]
            outBufferLen := tx.outBufferLen - 1, state := .sendData, escape := false }
          result := 1, sent := none } := by
      have hmin : min 1 tx.outBufferLen = 1 := by omega
      simp [sendStart, hp, sendTxInternal, hmin]
    rw [hr]
    refine ⟨[flagSequence], .opens ?_ ?_ ?_ rfl Nat.one_ne_zero rfl, rfl, hb, rfl, ?_⟩
    · intro h
      cases hp.symm.trans h
    · exact not_not.mpr hs
    · exact TxState.noConfusion
    · refine ⟨fun h => ?_, TxState.noConfusion, fun _ => ho.start hs (by rw [hp]; rfl),
        TxState.noConfusion⟩
      rw [show tx.originData = none from h] at hp
      cases hp

theorem Tx.Sound.busy {tx : Tx π} (ho : tx.Sound c) (hs : tx.Inside) : tx.originData ≠ none :=
  fun h => hs (ho.idle h)

/-- What a special byte is sent as is no flag. -/
theorem special_escaped {b : Byte} (hb : Special b) : b ^^^ escapeBit ≠ flagSequence := by
  rcases hb with rfl | rfl
  · decide
  · decide

/-- The account of a call that writes a byte of the body. -/
theorem TxStep.Framed.body {tx tx' : Tx π} {b : Byte} {n : Nat} (ho : tx.Sound c) (hs : tx.Inside)
    (hs' : tx'.Inside) (hend : tx.state ≠ .sendEnd) (hb : 0 < tx.outBufferLen)
    (hne : b ≠ flagSequence) (hn : n ≠ 0) (hp : tx'.originData = tx.originData)
    (hout : tx'.outBuffer = tx.outBuffer ++ [b])
    (hlen : tx'.outBufferLen = tx.outBufferLen - 1) (ho' : tx'.Sound c) :
    ({ tx := tx', result := n, sent := none } : TxStep π).Framed c tx [b] where
  writes := .inside (ho.busy hs) hs hs' hp (by rw [List.mem_singleton]; exact hne.symm)
    (.inl (List.cons_ne_nil b [])) hend hn rfl
  out := hout
  room := hb
  outLen := hlen
  sound := ho'

/-- With the data sent the check field is next. -/
def Tx.next (tx : Tx π) : Tx π := if tx.len = 0 then { tx with state := .sendCrc } else tx

/-- Only the state changes. -/
theorem Tx.next_eq (tx : Tx π) : tx.next = { tx with state := tx.next.state } := by
  unfold Tx.next
  split <;> rfl

theorem Tx.next_inside {tx : Tx π} (hs : tx.Inside) : tx.next.Inside := by
  unfold Tx.next
  split
  · exact TxState.noConfusion
  · exact hs

theorem Tx.next_sound {tx : Tx π} (hp : tx.originData ≠ none) (hs : tx.state = .sendData) :
    tx.next.Sound c := by
  unfold Tx.next
  split
  · next hz =>
    refine ⟨fun h => absurd h hp, nofun, nofun, fun _ => ?_⟩
    show tx.len ≤ c.value ∧ tx.len % 8 = 0
    rw [hz]
    exact ⟨Nat.zero_le _, rfl⟩
  · next hz =>
    refine ⟨fun h => absurd h hp, fun h => ?_, fun _ => Nat.pos_of_ne_zero hz, fun h => ?_⟩
    · rw [hs] at h
      cases h
    · rw [hs] at h
      cases h

/-- The bytes in front of the next special one are sent as they are, as far as the buffer goes. -/
theorem sendData_literal_eq {mem : π → Nat → Byte} {tx : Tx π} {n : Nat}
    (hpos : literalRun (tx.byteAt mem) tx.len 0 ≠ 0)
    (hn : min (literalRun (tx.byteAt mem) tx.len 0) tx.outBufferLen = n) :
    sendData mem tx =
      { tx := Tx.next { tx with
          data := tx.data + n, len := tx.len - n
          outBuffer := tx.outBuffer ++ (tx.bytes mem).take n
          outBufferLen := tx.outBufferLen - n }
        result := n, sent := none } := by
  obtain ⟨-, hle, -, -⟩ := literalRun_spec (tx.byteAt mem) tx.len 0
  obtain ⟨pos, hpd⟩ : ∃ pos, literalRun (tx.byteAt mem) tx.len 0 = pos := ⟨_, rfl⟩
  rw [hpd] at hpos hn hle
  have hlen : (tx.bytes mem).length = tx.len := by simp [Tx.bytes]
  have hmin : min ((tx.bytes mem).take pos).length tx.outBufferLen = n := by
    rw [List.length_take, hlen]
    omega
  have htake : ((tx.bytes mem).take pos).take n = (tx.bytes mem).take n := by
    rw [List.take_take, Nat.min_eq_left (by omega)]
  simp only [sendData, hpd, if_pos hpos, sendTxInternal, hmin, htake, Tx.next]

/-- The escape character comes first. -/
theorem sendData_escape_eq {mem : π → Nat → Byte} {tx : Tx π} (hb : 0 < tx.outBufferLen)
    (hl : 0 < tx.len) (hpos : literalRun (tx.byteAt mem) tx.len 0 = 0) (he : tx.escape = false) :
    sendData mem tx =
      { tx := { tx with
          escape := true, outBuffer := tx.outBuffer ++ [escapeChar]
          outBufferLen := tx.outBufferLen - 1 }
        result := 1, sent := none } := by
  simp [sendData, hpos, he, sendTxInternal_one hb, Nat.ne_of_gt hl]

/-- The byte it stands for follows. -/
theorem sendData_escaped_eq {mem : π → Nat → Byte} {tx : Tx π} (hb : 0 < tx.outBufferLen)
    (hpos : literalRun (tx.byteAt mem) tx.len 0 = 0) (he : tx.escape = true) :
    sendData mem tx =
      { tx := Tx.next { tx with
          escape := false, data := tx.data + 1, len := tx.len - 1
          outBuffer := tx.outBuffer ++ [tx.byteAt mem 0 ^^^ escapeBit]
          outBufferLen := tx.outBufferLen - 1 }
        result := 1, sent := none } := by
  simp [sendData, hpos, he, sendTxInternal_one hb, Tx.next]

theorem sendData_framed {mem : π → Nat → Byte} {tx : Tx π} (ho : tx.Sound c)
    (hs : tx.state = .sendData) (hb : 0 < tx.outBufferLen) :
    ∃ bs, (sendData mem tx).Framed c tx bs := by
  have hin : tx.Inside := by
    unfold Tx.Inside
    rw [hs]
    exact TxState.noConfusion
  have hend : tx.state ≠ .sendEnd := by
    rw [hs]
    exact TxState.noConfusion
  have hbusy := ho.busy hin
  have hl := ho.data hs
  obtain ⟨-, hle, hplain, hstop⟩ := literalRun_spec (tx.byteAt mem) tx.len 0
  obtain ⟨pos, hpd⟩ : ∃ pos, literalRun (tx.byteAt mem) tx.len 0 = pos := ⟨_, rfl⟩
  rw [hpd] at hle hplain hstop
  by_cases hpos : pos = 0
  · -- A special byte is next.
    have hspec : Special (tx.byteAt mem 0) := by
      rw [hpos] at hstop
      exact hstop (by omega)
    cases he : tx.escape with
    | false =>
      rw [sendData_escape_eq hb hl (hpd.trans hpos) he]
      refine ⟨_, .body ho hin hin hend hb (by decide) Nat.one_ne_zero rfl rfl rfl ?_⟩
      exact ⟨ho.idle, ho.start, ho.data, ho.crcLen⟩
    | true =>
      obtain ⟨tx₁, htx₁⟩ : ∃ t : Tx π, t = { tx with
          escape := false, data := tx.data + 1, len := tx.len - 1
          outBuffer := tx.outBuffer ++ [tx.byteAt mem 0 ^^^ escapeBit]
          outBufferLen := tx.outBufferLen - 1 } := ⟨_, rfl⟩
      have hr : sendData mem tx = { tx := tx₁.next, result := 1, sent := none } := by
        rw [sendData_escaped_eq hb (hpd.trans hpos) he, htx₁]
      have hst : tx₁.state = .sendData := by rw [htx₁, ← hs]
      have hin₁ : tx₁.Inside := by
        unfold Tx.Inside
        rw [hst, ← hs]
        exact hin
      rw [hr]
      refine ⟨_, .body ho hin (Tx.next_inside hin₁) hend hb (special_escaped hspec)
        Nat.one_ne_zero ?_ ?_ ?_ (Tx.next_sound ?_ hst)⟩
      · rw [Tx.next_eq, htx₁]
      · rw [Tx.next_eq, htx₁]
      · rw [Tx.next_eq, htx₁]
      · rw [htx₁]
        exact hbusy
  · -- A literal run is next.
    obtain ⟨n, hn⟩ : ∃ n, min pos tx.outBufferLen = n := ⟨_, rfl⟩
    have hlen : (tx.bytes mem).length = tx.len := by simp [Tx.bytes]
    have hn0 : n ≠ 0 := by omega
    have hlt : ((tx.bytes mem).take n).length = n := by
      rw [List.length_take, hlen]
      omega
    obtain ⟨tx₁, htx₁⟩ : ∃ t : Tx π, t = { tx with
        data := tx.data + n, len := tx.len - n
        outBuffer := tx.outBuffer ++ (tx.bytes mem).take n
        outBufferLen := tx.outBufferLen - n } := ⟨_, rfl⟩
    have hr : sendData mem tx = { tx := tx₁.next, result := n, sent := none } := by
      rw [sendData_literal_eq (n := n) (by rwa [hpd]) (by rwa [hpd]), htx₁]
    have hst : tx₁.state = .sendData := by rw [htx₁, ← hs]
    have hin₁ : tx₁.Inside := by
      unfold Tx.Inside
      rw [hst, ← hs]
      exact hin
    have hflag : flagSequence ∉ (tx.bytes mem).take n := by
      intro hmem
      obtain ⟨i, hi, hbyte⟩ := List.mem_iff_getElem.mp hmem
      rw [hlt] at hi
      refine hplain i (Nat.zero_le _) (by omega) (.inr ?_)
      rw [← hbyte]
      simp [Tx.bytes]
    have hne : (tx.bytes mem).take n ≠ [] := by
      intro hnil
      rw [hnil] at hlt
      exact hn0 hlt.symm
    rw [hr]
    refine ⟨(tx.bytes mem).take n, .inside hbusy hin (Tx.next_inside hin₁) ?_ hflag (.inl hne) hend
      hn0 rfl, ?_, ?_, ?_, Tx.next_sound ?_ hst⟩
    · rw [Tx.next_eq, htx₁]
    · rw [Tx.next_eq, htx₁]
    · rw [hlt]
      omega
    · rw [Tx.next_eq, htx₁, hlt]
    · rw [htx₁]
      exact hbusy

theorem sendCrc_framed {tx : Tx π} (hc : c.value % 8 = 0) (ho : tx.Sound c)
    (hs : tx.state = .sendCrc) (hb : 0 < tx.outBufferLen) :
    ∃ bs, (sendCrc c tx).Framed c tx bs := by
  have hin : tx.Inside := by
    unfold Tx.Inside
    rw [hs]
    exact TxState.noConfusion
  have hend : tx.state ≠ .sendEnd := by
    rw [hs]
    exact TxState.noConfusion
  have hbusy := ho.busy hin
  obtain ⟨hle, hmod⟩ := ho.crcLen hs
  have hcrc : ∀ tx' : Tx π, tx'.originData = tx.originData → tx'.state = .sendCrc →
      tx'.len ≤ c.value → tx'.len % 8 = 0 → tx'.Sound c := by
    intro tx' hp' hs' hle' hmod'
    refine ⟨fun h => ?_, fun h => ?_, fun h => ?_, fun _ => ⟨hle', hmod'⟩⟩
    · rw [hp'] at h
      exact absurd h hbusy
    · rw [hs'] at h
      cases h
    · rw [hs'] at h
      cases h
  by_cases hdone : tx.len = c.value
  · have hr : sendCrc c tx = { tx := { tx with state := .sendEnd }, result := 1, sent := none } := by
      simp [sendCrc, hdone]
    rw [hr]
    refine ⟨[], .inside hbusy hin TxState.noConfusion rfl (by simp) (.inr ⟨hs, rfl⟩) hend
      Nat.one_ne_zero rfl, (List.append_nil _).symm, Nat.zero_le _, rfl, ?_⟩
    exact ⟨fun h => absurd h hbusy, TxState.noConfusion, TxState.noConfusion, TxState.noConfusion⟩
  · have hroom : tx.len + 8 ≤ c.value := by omega
    obtain ⟨byte, hbyte⟩ : ∃ b : Byte, (tx.crc >>> tx.len).setWidth 8 = b := ⟨_, rfl⟩
    by_cases hsp : Special byte
    · have hne : ¬(byte ≠ escapeChar ∧ byte ≠ flagSequence) := fun h => hsp.elim h.1 h.2
      cases he : tx.escape with
      | false =>
        have hr : sendCrc c tx =
            { tx := { tx with
                escape := true, outBuffer := tx.outBuffer ++ [escapeChar]
                outBufferLen := tx.outBufferLen - 1 }
              result := 1, sent := none } := by
          simp [sendCrc, hdone, hbyte, hne, he, sendTxInternal_one hb]
        rw [hr]
        exact ⟨_, .body ho hin hin hend hb (by decide) Nat.one_ne_zero rfl rfl rfl
          (hcrc _ rfl hs hle hmod)⟩
      | true =>
        have hr : sendCrc c tx =
            { tx := { tx with
                escape := false, outBuffer := tx.outBuffer ++ [byte ^^^ escapeBit]
                outBufferLen := tx.outBufferLen - 1, len := tx.len + 8 }
              result := 1, sent := none } := by
          simp [sendCrc, hdone, hbyte, hne, he, sendTxInternal_one hb]
        rw [hr]
        exact ⟨_, .body ho hin hin hend hb (special_escaped hsp) Nat.one_ne_zero rfl rfl rfl
          (hcrc _ rfl hs hroom (by simp only; omega))⟩
    · have hne : byte ≠ escapeChar ∧ byte ≠ flagSequence :=
        ⟨fun h => hsp (.inl h), fun h => hsp (.inr h)⟩
      have hr : sendCrc c tx =
          { tx := { tx with
              outBuffer := tx.outBuffer ++ [byte]
              outBufferLen := tx.outBufferLen - 1, len := tx.len + 8 }
            result := 1, sent := none } := by
        simp [sendCrc, hdone, hbyte, hne, sendTxInternal_one hb]
      rw [hr]
      exact ⟨_, .body ho hin hin hend hb hne.2 Nat.one_ne_zero rfl rfl rfl
        (hcrc _ rfl hs hroom (by simp only; omega))⟩

theorem sendEnd_framed {tx : Tx π} (ho : tx.Sound c) (hs : tx.state = .sendEnd)
    (hb : 0 < tx.outBufferLen) : ∃ bs, (sendEnd tx).Framed c tx bs := by
  have hin : tx.Inside := by
    unfold Tx.Inside
    rw [hs]
    exact TxState.noConfusion
  obtain ⟨p, hp⟩ := Option.ne_none_iff_exists'.mp (ho.busy hin)
  have hr : sendEnd tx =
      { tx := { tx with
          outBuffer := tx.outBuffer ++ [flagSequence], outBufferLen := tx.outBufferLen - 1
          state := .sendStart, escape := false, originData := none, data := 0 }
        result := 1, sent := some (p, tx.data) } := by
    simp [sendEnd, hp, sendTxInternal_one hb]
  rw [hr]
  refine ⟨[flagSequence], .closes hp hin (not_not.mpr rfl) rfl Nat.one_ne_zero rfl, rfl, hb, rfl,
    fun _ => rfl, fun _ h => ?_, TxState.noConfusion, TxState.noConfusion⟩
  cases h

theorem txStateCall_framed {mem : π → Nat → Byte} {tx : Tx π} (hc : c.value % 8 = 0)
    (ho : tx.Sound c) (hb : 0 < tx.outBufferLen) :
    ∃ bs, (txStateCall c mem tx).Framed c tx bs := by
  unfold txStateCall
  cases hs : tx.state with
  | sendStart => exact sendStart_framed ho hs hb
  | sendData => exact sendData_framed ho hs hb
  | sendCrc => exact sendCrc_framed hc ho hs hb
  | sendEnd => exact sendEnd_framed ho hs hb

/-! ## The driver loop -/

/-- The account of a driver loop. -/
structure Tx.Emitted (c : HdlcCrc) (tx tx' : Tx π) (sent : List (π × Nat)) (bs : List Byte) :
    Prop where
  out : tx'.outBuffer = tx.outBuffer ++ bs
  room : bs.length ≤ tx.outBufferLen
  sound : tx'.Sound c
  frames : ∀ wire, WholeFrames wire tx.Inside → WholeFrames (wire ++ bs) tx'.Inside
  idle : tx.originData = none → bs = []
  /-- The buffer is filled, or the frame is completed. -/
  sent : sent = [] ∧ tx'.originData = tx.originData ∧
      (tx.originData ≠ none → bs.length = tx.outBufferLen) ∨
    ∃ p n, tx.originData = some p ∧ sent = [(p, n)] ∧ tx'.originData = none ∧ bs ≠ []

/-- A loop that ends at once. -/
theorem Tx.Emitted.nothing {tx : Tx π} (ho : tx.Sound c)
    (hz : tx.outBufferLen = 0 ∨ tx.originData = none) : Tx.Emitted c tx tx [] [] where
  out := (List.append_nil _).symm
  room := Nat.zero_le _
  sound := ho
  frames wire hw := by rwa [List.append_nil]
  idle _ := rfl
  sent := by
    refine .inl ⟨rfl, rfl, fun hp => ?_⟩
    rcases hz with hz | hz
    · exact hz.symm
    · exact absurd hz hp

/-- A state call in front of a loop. -/
theorem Tx.Emitted.cons {tx tx' : Tx π} {r : TxStep π} {bs bs' : List Byte}
    {sent : List (π × Nat)} (hr : r.Framed c tx bs) (h : Tx.Emitted c r.tx tx' sent bs') :
    Tx.Emitted c tx tx' (r.sent.toList ++ sent) (bs ++ bs') := by
  have hroom := hr.room
  have hroom' := h.room
  rw [hr.outLen] at hroom'
  have hout : tx'.outBuffer = tx.outBuffer ++ (bs ++ bs') := by
    rw [h.out, hr.out, List.append_assoc]
  have hlen : (bs ++ bs').length ≤ tx.outBufferLen := by
    rw [List.length_append]
    omega
  -- What a call does that leaves the frame in progress.
  have hgoes : r.tx.originData = tx.originData → r.sent = none → tx.originData ≠ none →
      r.sent.toList ++ sent = [] ∧ tx'.originData = tx.originData ∧
        (tx.originData ≠ none → (bs ++ bs').length = tx.outBufferLen) ∨
      ∃ p n, tx.originData = some p ∧ r.sent.toList ++ sent = [(p, n)] ∧
        tx'.originData = none ∧ bs ++ bs' ≠ [] := by
    intro hp' hsent hp
    rw [hsent]
    rcases h.sent with ⟨h1, h2, h3⟩ | ⟨p, n, h1, h2, h3, h4⟩
    · refine .inl ⟨by rw [h1]; rfl, h2.trans hp', fun _ => ?_⟩
      have hfull := h3 (by rw [hp']; exact hp)
      rw [hr.outLen] at hfull
      rw [List.length_append]
      omega
    · refine .inr ⟨p, n, hp' ▸ h1, by rw [h2]; rfl, h3, ?_⟩
      intro hnil
      exact h4 (List.append_eq_nil_iff.mp hnil).2
  cases hr.writes with
  | idle hp htx hres hsent =>
    have hnil := h.idle (by rw [htx]; exact hp)
    refine ⟨hout, hlen, h.sound, fun wire hw => ?_, fun _ => hnil, ?_⟩
    · rw [List.nil_append]
      exact h.frames wire (by rwa [htx])
    · rcases h.sent with ⟨h1, h2, -⟩ | ⟨p, n, h1, -⟩
      · refine .inl ⟨by rw [hsent, h1]; rfl, by rw [h2, htx], fun hp' => absurd hp hp'⟩
      · rw [htx, hp] at h1
        cases h1
  | opens hp hs hs' hp' hres hsent =>
    refine ⟨hout, hlen, h.sound, fun wire hw => ?_, fun hn => absurd hn hp, hgoes hp' hsent hp⟩
    rw [← List.append_assoc]
    exact h.frames _ (hw.opens hs hs')
  | inside hp hs hs' hp' hbs _ _ _ hsent =>
    refine ⟨hout, hlen, h.sound, fun wire hw => ?_, fun hn => absurd hn hp, hgoes hp' hsent hp⟩
    rw [← List.append_assoc]
    exact h.frames _ (hw.extends hs hs' hbs)
  | @closes p hp hs hs' hp' hres hsent =>
    have hnil := h.idle hp'
    refine ⟨hout, hlen, h.sound, fun wire hw => ?_, fun hn => ?_, ?_⟩
    · rw [← List.append_assoc]
      exact h.frames _ (hw.closes hs hs')
    · rw [hn] at hp
      cases hp
    · rcases h.sent with ⟨h1, h2, -⟩ | ⟨q, n, h1, -⟩
      · exact .inr ⟨p, tx.data, hp, by rw [hsent, h1]; rfl, h2.trans hp', by simp⟩
      · rw [hp'] at h1
        cases h1

/-- The measure of the loop drops with every state call that is not the last one. -/
theorem TxStep.Framed.measure {tx : Tx π} {r : TxStep π} {bs : List Byte}
    (hr : r.Framed c tx bs) (hres : r.result ≠ 0) (rep : Bool) :
    r.tx.outBufferLen + r.tx.slack false < tx.outBufferLen + tx.slack rep := by
  have hroom := hr.room
  have hle := r.tx.slack_false_le
  rw [hr.outLen]
  cases hr.writes with
  | idle _ _ hz => exact absurd hz hres
  | opens hp hs =>
    have hend : tx.state ≠ .sendEnd := by
      intro h
      refine hs ?_
      unfold Tx.Inside
      rw [h]
      exact TxState.noConfusion
    have hslack : tx.slack rep = 4 := by rw [Tx.slack_of_some hp, if_neg hend]
    simp only [List.length_singleton] at hroom ⊢
    omega
  | inside hp _ _ hp' _ hpos hend =>
    have hslack : tx.slack rep = 4 := by rw [Tx.slack_of_some hp, if_neg hend]
    rcases hpos with hpos | ⟨-, hend'⟩
    · have := List.length_pos_of_ne_nil hpos
      omega
    · have hslack' : r.tx.slack false = 3 := by
        rw [Tx.slack_of_some (by rw [hp']; exact hp), if_pos hend']
      omega
  | @closes p hp _ _ hp' =>
    have hslack : 3 ≤ tx.slack rep := by
      rw [Tx.slack_of_some (by rw [hp]; nofun)]
      split
      · exact Nat.le_refl 3
      · decide
    have hslack' : r.tx.slack false = 2 := by simp [Tx.slack, hp']
    simp only [List.length_singleton] at hroom ⊢
    omega

/-- The loop ends by itself, and what it writes continues the units. -/
theorem runTxLoop_emits {mem : π → Nat → Byte} (hc : c.value % 8 = 0) :
    ∀ (fuel : Nat) (rep : Bool) (tx : Tx π), tx.Sound c →
      tx.outBufferLen + tx.slack rep ≤ fuel →
      (∃ bs, Tx.Emitted c tx (runTxLoop c mem fuel rep tx).1 (runTxLoop c mem fuel rep tx).2 bs) ∧
        runTxLoop c mem (fuel + 1) rep tx = runTxLoop c mem fuel rep tx
  | 0, rep, tx, _, hf => by
    have h := tx.slack_pos rep
    omega
  | fuel + 1, rep, tx, ho, hf => by
    by_cases hz : tx.outBufferLen = 0
    · have hr : ∀ k, runTxLoop c mem (k + 1) rep tx = (tx, []) := by
        intro k
        simp [runTxLoop, hz]
      rw [hr, hr]
      exact ⟨⟨[], .nothing ho (.inl hz)⟩, rfl⟩
    · obtain ⟨bs, hframed⟩ := @txStateCall_framed π c mem tx hc ho (Nat.pos_of_ne_zero hz)
      obtain ⟨r, hrd⟩ : ∃ r, txStateCall c mem tx = r := ⟨_, rfl⟩
      rw [hrd] at hframed
      by_cases hres : r.result = 0
      · -- Nothing was written, so there is no frame.
        obtain ⟨hp, htx, hsent⟩ : tx.originData = none ∧ r.tx = tx ∧ r.sent = none := by
          cases hframed.writes with
          | idle hp htx _ hsent => exact ⟨hp, htx, hsent⟩
          | opens _ _ _ _ h => exact absurd hres h
          | inside _ _ _ _ _ _ _ h => exact absurd hres h
          | closes _ _ _ _ h => exact absurd hres h
        cases rep with
        | true =>
          have hr : ∀ k, runTxLoop c mem (k + 1) true tx = (tx, []) := by
            intro k
            simp [runTxLoop, hz, hrd, hres, htx, hsent]
          rw [hr, hr]
          exact ⟨⟨[], .nothing ho (.inr hp)⟩, rfl⟩
        | false =>
          have hr : ∀ k, runTxLoop c mem (k + 1) false tx = runTxLoop c mem k true tx := by
            intro k
            simp [runTxLoop, hz, hrd, hres, htx, hsent]
          have hs2 : tx.slack false = 2 := by simp [Tx.slack, hp]
          have hs1 : tx.slack true = 1 := by simp [Tx.slack, hp]
          rw [hr, hr]
          exact runTxLoop_emits hc fuel true tx ho (by omega)
      · have hr : ∀ k, runTxLoop c mem (k + 1) rep tx =
            ((runTxLoop c mem k false r.tx).1,
              r.sent.toList ++ (runTxLoop c mem k false r.tx).2) := by
          intro k
          simp [runTxLoop, hz, hrd, hres]
        have hm := hframed.measure hres rep
        obtain ⟨⟨bs', hem⟩, hstop⟩ := @runTxLoop_emits mem hc fuel false r.tx hframed.sound (by omega)
        rw [hr, hr, hstop]
        exact ⟨⟨bs ++ bs', .cons hframed hem⟩, rfl⟩

/-- More fuel than the driver gives changes nothing. -/
theorem runTxLoop_stops {mem : π → Nat → Byte} (hc : c.value % 8 = 0) {tx : Tx π}
    (ho : tx.Sound c) {fuel : Nat} (hf : tx.outBufferLen + 4 ≤ fuel) :
    runTxLoop c mem fuel false tx = runTxLoop c mem (tx.outBufferLen + 4) false tx := by
  induction fuel with
  | zero => omega
  | succ fuel ih =>
    by_cases hlast : tx.outBufferLen + 4 = fuel + 1
    · rw [hlast]
    · have hle := tx.slack_false_le
      rw [(runTxLoop_emits hc fuel false tx ho (by omega)).2]
      exact ih (by omega)

/-! ## The driver -/

/-- What `hdlc_ll_run_tx` does, whatever the memory is. -/
structure RunsTx (h h' : HdlcLl π) (len : Nat) (bs : List Byte) (sent : List (π × Nat)) : Prop where
  crcType : h'.crcType = h.crcType
  rx : h'.rx = h.rx
  length : bs.length ≤ len
  sound : h'.tx.Sound h.crcType
  frames : ∀ wire, WholeFrames wire h.tx.Inside → WholeFrames (wire ++ bs) h'.tx.Inside
  idle : h.tx.originData = none → bs = []
  sent : sent = [] ∧ h'.tx.originData = h.tx.originData ∧
      (h.tx.originData ≠ none → bs.length = len) ∨
    ∃ p n, h.tx.originData = some p ∧ sent = [(p, n)] ∧ h'.tx.originData = none ∧ bs ≠ []

theorem hdlcLlRunTx_runs (mem : π → Nat → Byte) {h : HdlcLl π} (hc : h.crcType.value % 8 = 0)
    (ho : h.tx.Sound h.crcType) (len : Nat) :
    RunsTx h (hdlcLlRunTx mem h len).1 len (hdlcLlRunTx mem h len).2.1
      (hdlcLlRunTx mem h len).2.2 := by
  obtain ⟨tx, htx⟩ : ∃ tx : Tx π, tx = { h.tx with outBuffer := [], outBufferLen := len } := ⟨_, rfl⟩
  have hsound : tx.Sound h.crcType := by
    rw [htx]
    exact ⟨ho.idle, ho.start, ho.data, ho.crcLen⟩
  have hlen : tx.outBufferLen = len := by rw [htx]
  have hbuf : tx.outBuffer = [] := by rw [htx]
  have hp : tx.originData = h.tx.originData := by rw [htx]
  have hin : tx.Inside ↔ h.tx.Inside := by rw [htx]; rfl
  have hfuel : tx.outBufferLen + tx.slack false ≤ len + 4 := by
    have := tx.slack_false_le
    omega
  obtain ⟨⟨bs, hem⟩, -⟩ := @runTxLoop_emits π h.crcType mem hc (len + 4) false tx hsound hfuel
  have hout := hem.out
  rw [hbuf, List.nil_append] at hout
  have hrun : hdlcLlRunTx mem h len =
      ({ h with tx := (runTxLoop h.crcType mem (len + 4) false tx).1 }, bs,
        (runTxLoop h.crcType mem (len + 4) false tx).2) := by
    rw [← hout, htx]
    rfl
  rw [hrun]
  have hsent := hem.sent
  rw [hp, hlen] at hsent
  refine ⟨rfl, rfl, ?_, hem.sound, fun wire hw => hem.frames wire (hw.congr hin.symm), fun hn => ?_,
    hsent⟩
  · rw [← hlen]
    exact hem.room
  · exact hem.idle (hp.trans hn)

end TinyProto.Hdlc
