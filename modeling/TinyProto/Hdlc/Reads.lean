import TinyProto.Hdlc.Units
import TinyProto.Hdlc.Stream
import Mathlib.Data.List.DropRight

/-!
# What the transmitter reads

`hdlc_ll_send_start` reads the payload for the check field, and `hdlc_ll_send_data` reads it to
look for the next special byte and to send it.  The scan tests the byte before it tests the
bound, so it reads the byte behind the payload whenever the rest of the payload has no special
byte.  That is the case as soon as all that was sent is the flag and the payload up to its last
special byte (`reads_inside_iff`).
-/

namespace TinyProto.Hdlc

variable {π : Type} {c : HdlcCrc} {mem : π → Nat → Byte} {tx : Tx π}

/-! ## The reads -/

/-- The indices the scan of `hdlc_ll_send_data` reads. -/
def literalReads (rd : Nat → Byte) : Nat → Nat → List Nat
  | 0, pos => [pos]
  | k + 1, pos =>
      pos :: if rd pos ≠ flagSequence ∧ rd pos ≠ escapeChar then literalReads rd k (pos + 1) else []

/-- The payload bytes `hdlc_ll_send_start` reads. -/
def sendStartReads (crcType : HdlcCrc) (tx : Tx π) : List Nat :=
  if tx.originData.isNone then []
  else
    match crcType with
    | .crc16 | .crc32 | .crc8 => (List.range tx.len).map (tx.data + ·)
    | _ => []

/-- The payload bytes `hdlc_ll_send_data` reads: the scan, and what is copied. -/
def sendDataReads (mem : π → Nat → Byte) (tx : Tx π) : List Nat :=
  let pos := literalRun (tx.byteAt mem) tx.len 0
  (literalReads (tx.byteAt mem) tx.len 0 ++
    if pos ≠ 0 then List.range (min pos tx.outBufferLen)
    else if tx.escape then [0] else []).map (tx.data + ·)

/-- The payload bytes a call through `tx.state` reads. -/
def txStateReads (crcType : HdlcCrc) (mem : π → Nat → Byte) (tx : Tx π) : List Nat :=
  match tx.state with
  | .sendStart => sendStartReads crcType tx
  | .sendData => sendDataReads mem tx
  | _ => []

/-- Those the loop of `hdlc_ll_run_tx` reads. -/
def runTxReads (crcType : HdlcCrc) (mem : π → Nat → Byte) : Nat → Bool → Tx π → List Nat
  | 0, _, _ => []
  | fuel + 1, repeatedEmptyData, tx =>
      if tx.outBufferLen = 0 then []
      else
        let r := txStateCall crcType mem tx
        txStateReads crcType mem tx ++
          if r.result = 0 ∧ repeatedEmptyData then []
          else runTxReads crcType mem fuel (r.result = 0) r.tx

/-- Those `hdlc_ll_run_tx` reads. -/
def hdlcLlRunTxReads (mem : π → Nat → Byte) (h : HdlcLl π) (len : Nat) : List Nat :=
  runTxReads h.crcType mem (len + 4) false { h.tx with outBuffer := [], outBufferLen := len }

/-- Those it reads when it is called with one buffer size after another. -/
def drainReads (mem : π → Nat → Byte) : HdlcLl π → List Nat → List Nat
  | _, [] => []
  | h, len :: sizes =>
      hdlcLlRunTxReads mem h len ++ drainReads mem (hdlcLlRunTx mem h len).1 sizes

/-! ## The last special byte -/

/-- The bytes up to the last special one. -/
def throughSpecial (bs : List Byte) : List Byte := bs.rdropWhile fun b => !decide (Special b)

theorem throughSpecial_cons (b : Byte) (bs : List Byte) :
    throughSpecial (b :: bs) =
      if throughSpecial bs = [] ∧ ¬Special b then [] else b :: throughSpecial bs := by
  unfold throughSpecial
  induction bs using List.reverseRecOn with
  | nil =>
    rw [List.rdropWhile_singleton, List.rdropWhile_nil]
    by_cases hb : Special b <;> simp [hb]
  | append_singleton bs x ih =>
    rw [← List.cons_append, List.rdropWhile_concat, List.rdropWhile_concat]
    by_cases hx : Special x
    · simp [hx]
    · simp only [hx, decide_false, Bool.not_false, if_true]
      exact ih

theorem throughSpecial_special {b : Byte} (hb : Special b) (bs : List Byte) :
    throughSpecial (b :: bs) = b :: throughSpecial bs := by
  rw [throughSpecial_cons, if_neg fun h => h.2 hb]

theorem throughSpecial_eq_nil {bs : List Byte} :
    throughSpecial bs = [] ↔ ∀ b ∈ bs, ¬Special b := by
  unfold throughSpecial
  rw [List.rdropWhile_eq_nil_iff]
  simp

/-- Plain bytes in front of a special one. -/
theorem throughSpecial_append {bs bs' : List Byte} (hp : ∀ b ∈ bs, ¬Special b)
    (hs : throughSpecial bs' ≠ []) : throughSpecial (bs ++ bs') = bs ++ throughSpecial bs' := by
  induction bs with
  | nil => rfl
  | cons b bs ih =>
    have hrest := ih fun b hb => hp b (List.mem_cons_of_mem _ hb)
    rw [List.cons_append, throughSpecial_cons, hrest, if_neg, List.cons_append]
    exact fun h => hs (List.append_eq_nil_iff.mp h.1).2

/-- A run of plain bytes with a special one behind it is kept, as far as it is taken. -/
theorem throughSpecial_run {bs : List Byte} {pos n : Nat} (hn : n ≤ pos)
    (hp : ∀ b ∈ bs.take pos, ¬Special b) (hs : ∃ b ∈ bs.drop pos, Special b) :
    throughSpecial bs = bs.take n ++ throughSpecial (bs.drop n) := by
  have hplain : ∀ b ∈ bs.take n, ¬Special b := by
    intro b hb
    refine hp b (List.mem_of_mem_take (i := n) ?_)
    rwa [List.take_take, Nat.min_eq_left hn]
  have hrest : throughSpecial (bs.drop n) ≠ [] := by
    obtain ⟨b, hb, hsp⟩ := hs
    intro hnil
    refine throughSpecial_eq_nil.mp hnil b ?_ hsp
    refine List.mem_of_mem_drop (i := pos - n) ?_
    rwa [List.drop_drop, Nat.add_sub_cancel' hn]
  have happ := throughSpecial_append hplain hrest
  rwa [List.take_append_drop] at happ

/-! ## One scan -/

/-- The scan reads up to where it stops. -/
theorem mem_literalReads (rd : Nat → Byte) :
    ∀ k pos i, i ∈ literalReads rd k pos ↔ pos ≤ i ∧ i ≤ literalRun rd k pos
  | 0, pos, i => by
    have hrun : literalRun rd 0 pos = pos := by simp [literalRun]
    rw [hrun, literalReads, List.mem_singleton]
    omega
  | k + 1, pos, i => by
    rw [literalReads, literalRun, List.mem_cons]
    by_cases hb : rd pos ≠ flagSequence ∧ rd pos ≠ escapeChar
    · have hle := (literalRun_spec rd k (pos + 1)).1
      rw [if_pos hb, if_pos hb, mem_literalReads rd k (pos + 1) i]
      omega
    · rw [if_neg hb, if_neg hb]
      simp only [List.not_mem_nil, or_false]
      omega

/-! ## What is left before the scan reads too far -/

/-- How many bytes are sent from the data state on before the scan finds no special byte in what
is left, if it comes to that. -/
def leadFrom (escape : Bool) (bs : List Byte) : Option Nat :=
  if throughSpecial bs = bs then none else some (stuffFrom escape (throughSpecial bs)).length

/-- How many bytes a transmitter writes before it reads behind the payload, if it comes to that. -/
def Tx.lead (mem : π → Nat → Byte) (tx : Tx π) : Option Nat :=
  match tx.state with
  | .sendStart =>
      if tx.originData.isNone then none else (leadFrom false (tx.bytes mem)).map (· + 1)
  | .sendData => leadFrom tx.escape (tx.bytes mem)
  | _ => none

/-- Plain bytes in front of a special one are sent first. -/
theorem leadFrom_run {bs : List Byte} {pos n : Nat} (hn : n ≤ pos) (hlen : pos ≤ bs.length)
    (hp : ∀ b ∈ bs.take pos, ¬Special b) (hs : ∃ b ∈ bs.drop pos, Special b) :
    leadFrom false bs = (leadFrom false (bs.drop n)).map (· + n) := by
  have hrun := throughSpecial_run hn hp hs
  have hiff : throughSpecial bs = bs ↔ throughSpecial (bs.drop n) = bs.drop n := by
    constructor
    · intro h
      rw [h] at hrun
      exact (List.append_cancel_left ((List.take_append_drop n bs).trans hrun)).symm
    · intro h
      rw [hrun, h, List.take_append_drop]
  have hplain : ∀ b ∈ bs.take n, ¬Special b := by
    intro b hb
    refine hp b (List.mem_of_mem_take (i := n) ?_)
    rwa [List.take_take, Nat.min_eq_left hn]
  unfold leadFrom
  by_cases h : throughSpecial (bs.drop n) = bs.drop n
  · rw [if_pos h, if_pos (hiff.mpr h)]
    rfl
  · rw [if_neg h, if_neg (hiff.not.mpr h), hrun]
    simp only [stuffFrom, Bool.false_eq_true, if_false, stuff_append, stuff_plain hplain,
      List.length_append, List.length_take, Option.map_some, Option.some.injEq]
    omega

/-- The escape character of a special byte is sent. -/
theorem leadFrom_escape {b : Byte} (hb : Special b) (bs : List Byte) :
    leadFrom false (b :: bs) = (leadFrom true (b :: bs)).map (· + 1) := by
  unfold leadFrom
  rw [throughSpecial_special hb]
  by_cases h : b :: throughSpecial bs = b :: bs
  · rw [if_pos h, if_pos h]
    rfl
  · rw [if_neg h, if_neg h]
    simp [stuffFrom, stuffByte_special hb]

/-- What a special byte is escaped to is sent. -/
theorem leadFrom_escaped {b : Byte} (hb : Special b) (bs : List Byte) :
    leadFrom true (b :: bs) = (leadFrom false bs).map (· + 1) := by
  unfold leadFrom
  rw [throughSpecial_special hb]
  by_cases h : throughSpecial bs = bs
  · rw [if_pos h, if_pos (by rw [h])]
    rfl
  · rw [if_neg h, if_neg fun hc => h (List.cons_injective hc)]
    simp [stuffFrom, stuffByte_special hb]

theorem Tx.lead_idle (hn : tx.originData = none) (hs : tx.state = .sendStart) :
    tx.lead mem = none := by
  simp [Tx.lead, hs, hn]

/-- What is read while `n` bytes are written: something behind the frame if the lead is less
than that, and otherwise nothing, and the lead drops by what is written. -/
inductive LeadFor (frameLen : Nat) (lead lead' : Option Nat) (n : Nat) (reads : List Nat) :
    Prop where
  | behind {m : Nat} (hlead : lead = some m) (hm : m < n) (hread : ∃ i ∈ reads, ¬i < frameLen)
  | inside (hlead : lead = lead'.map (· + n)) (hreads : ∀ i ∈ reads, i < frameLen)

variable {frameLen n n' : Nat} {lead lead' lead'' : Option Nat} {reads reads' : List Nat}

theorem LeadFor.nothing : LeadFor frameLen lead lead 0 [] := by
  refine .inside ?_ fun i hi => nomatch hi
  cases lead <;> rfl

theorem LeadFor.append (h : LeadFor frameLen lead lead' n reads)
    (h' : LeadFor frameLen lead' lead'' n' reads') :
    LeadFor frameLen lead lead'' (n + n') (reads ++ reads') := by
  cases h with
  | behind hlead hm hread =>
    obtain ⟨i, hi, hge⟩ := hread
    exact .behind hlead (by omega) ⟨i, List.mem_append_left _ hi, hge⟩
  | inside hlead hreads =>
    cases h' with
    | @behind m hlead' hm hread =>
      obtain ⟨i, hi, hge⟩ := hread
      refine .behind (m := m + n) ?_ (by omega) ⟨i, List.mem_append_right _ hi, hge⟩
      rw [hlead, hlead']
      rfl
    | inside hlead' hreads' =>
      refine .inside ?_ fun i hi => ?_
      · rw [hlead, hlead', Option.map_map]
        refine congrArg (Option.map · lead'') (funext fun m => ?_)
        show m + n' + n = m + (n + n')
        omega
      · rcases List.mem_append.mp hi with hi | hi
        · exact hreads i hi
        · exact hreads' i hi

/-- Nothing is read behind the frame if and only if the lead is not less than what is written. -/
theorem LeadFor.inside_iff (h : LeadFor frameLen lead lead' n reads) :
    (∀ i ∈ reads, i < frameLen) ↔ ∀ m, lead = some m → n ≤ m := by
  cases h with
  | behind hlead hm hread =>
    obtain ⟨i, hi, hge⟩ := hread
    exact ⟨fun h => absurd (h i hi) hge, fun h => absurd (h _ hlead) (Nat.not_le.mpr hm)⟩
  | inside hlead hreads =>
    refine ⟨fun _ m hm => ?_, fun _ => hreads⟩
    rw [hlead] at hm
    obtain ⟨k, -, rfl⟩ := Option.map_eq_some_iff.mp hm
    exact Nat.le_add_left _ _

/-- The account of what a state call reads. -/
def TxStep.Reads (frameLen : Nat) (mem : π → Nat → Byte) (tx : Tx π) (r : TxStep π)
    (reads : List Nat) : Prop :=
  ∃ n, r.tx.outBufferLen + n = tx.outBufferLen ∧
    LeadFor frameLen (tx.lead mem) (r.tx.lead mem) n reads

/-- A call that writes the `n` bytes the lead drops by. -/
theorem TxStep.Reads.of_lead {r : TxStep π} {n : Nat}
    (hlead : tx.lead mem = (r.tx.lead mem).map (· + n))
    (hout : r.tx.outBufferLen + n = tx.outBufferLen) (hreads : ∀ i ∈ reads, i < frameLen) :
    r.Reads frameLen mem tx reads :=
  ⟨n, hout, .inside hlead hreads⟩

/-- A call that reads nothing of the payload. -/
theorem TxStep.Reads.of_none {r : TxStep π} (hlead : tx.lead mem = none)
    (hlead' : r.tx.lead mem = none) (hout : r.tx.outBufferLen ≤ tx.outBufferLen) :
    r.Reads frameLen mem tx [] := by
  refine ⟨tx.outBufferLen - r.tx.outBufferLen, Nat.add_sub_cancel' hout, .inside ?_ ?_⟩
  · rw [hlead, hlead']
    rfl
  · exact fun i hi => nomatch hi

theorem sendStart_reads (hs : tx.state = .sendStart) (hb : 0 < tx.outBufferLen) :
    (sendStart c mem tx).Reads (tx.data + tx.len) mem tx (sendStartReads c tx) := by
  have hreads : ∀ i ∈ sendStartReads c tx, i < tx.data + tx.len := by
    intro i hi
    unfold sendStartReads at hi
    split at hi
    · cases hi
    · have hmem : i ∈ (List.range tx.len).map (tx.data + ·) := by
        split at hi
        · exact hi
        · exact hi
        · exact hi
        · cases hi
      obtain ⟨j, hj, rfl⟩ := List.mem_map.mp hmem
      exact Nat.add_lt_add_left (List.mem_range.mp hj) _
  cases hp : tx.originData with
  | none =>
    have hr : (sendStart c mem tx).tx = tx := by simp [sendStart, hp]
    refine .of_lead (n := 0) ?_ (by rw [hr]; rfl) hreads
    rw [hr, Tx.lead_idle hp hs]
    rfl
  | some p =>
    have hr : (sendStart c mem tx).tx =
        { tx with
          crc := txCrc c tx.crc (tx.bytes mem), outBuffer := tx.outBuffer ++ [flagSequence]
          outBufferLen := tx.outBufferLen - 1, state := .sendData, escape := false } := by
      have hmin : min 1 tx.outBufferLen = 1 := by omega
      simp [sendStart, hp, sendTxInternal, hmin]
    have hlead : tx.lead mem = (leadFrom false (tx.bytes mem)).map (· + 1) := by
      simp [Tx.lead, hs, hp]
    have hlead' : (sendStart c mem tx).tx.lead mem = leadFrom false (tx.bytes mem) := by
      rw [hr]
      rfl
    refine .of_lead (n := 1) (by rw [hlead, hlead']) ?_ hreads
    rw [hr]
    exact Nat.sub_add_cancel hb

/-- The lead once the data state has moved on. -/
theorem Tx.lead_next (hs : tx.state = .sendData) :
    tx.next.lead mem = leadFrom tx.escape (tx.bytes mem) := by
  unfold Tx.next
  split
  · next hz =>
    have hnil : tx.bytes mem = [] := by simp [Tx.bytes, hz]
    rw [hnil]
    rfl
  · unfold Tx.lead
    rw [hs]

theorem sendData_reads (ho : tx.Ok c mem) (hs : tx.state = .sendData) (hb : 0 < tx.outBufferLen) :
    (sendData mem tx).Reads (tx.data + tx.len) mem tx (sendDataReads mem tx) := by
  obtain ⟨-, hle, hplain, hstop⟩ := literalRun_spec (tx.byteAt mem) tx.len 0
  have hscan := mem_literalReads (tx.byteAt mem) tx.len 0
  have hl := ho.data hs
  have hlen : (tx.bytes mem).length = tx.len := by simp [Tx.bytes]
  have hlead : tx.lead mem = leadFrom tx.escape (tx.bytes mem) := by
    unfold Tx.lead
    rw [hs]
  have hbyte : ∀ i (h : i < (tx.bytes mem).length), (tx.bytes mem)[i] = tx.byteAt mem i := by
    simp [Tx.bytes]
  obtain ⟨pos, hpd⟩ : ∃ pos, literalRun (tx.byteAt mem) tx.len 0 = pos := ⟨_, rfl⟩
  have hreads : sendDataReads mem tx = (literalReads (tx.byteAt mem) tx.len 0 ++
      if pos ≠ 0 then List.range (min pos tx.outBufferLen)
      else if tx.escape then [0] else []).map (tx.data + ·) := by
    simp only [sendDataReads, hpd]
  rw [hpd] at hle hplain hstop hscan
  by_cases hend : pos = tx.len
  · -- The scan finds nothing, and looks behind the payload.
    have hnil : throughSpecial (tx.bytes mem) = [] := by
      refine throughSpecial_eq_nil.mpr fun b hmem => ?_
      obtain ⟨i, hi, rfl⟩ := List.mem_iff_getElem.mp hmem
      rw [hbyte]
      exact hplain i (Nat.zero_le _) (by omega)
    have hne : throughSpecial (tx.bytes mem) ≠ tx.bytes mem := by
      rw [hnil]
      intro h
      rw [← h] at hlen
      exact absurd hlen (Nat.ne_of_lt hl)
    obtain ⟨n, hn⟩ : ∃ n, min pos tx.outBufferLen = n := ⟨_, rfl⟩
    have heq := @sendData_literal_eq _ mem tx n (by omega) (by rwa [hpd])
    refine ⟨n, ?_, .behind (m := 0) ?_ (by omega) ⟨tx.data + tx.len, ?_, Nat.lt_irrefl _⟩⟩
    · rw [heq, Tx.next_eq]
      exact Nat.sub_add_cancel (by omega)
    · rw [hlead, leadFrom, if_neg hne, hnil]
      cases tx.escape <;> rfl
    · rw [hreads]
      refine List.mem_map.mpr ⟨tx.len, List.mem_append_left _ ?_, rfl⟩
      exact (hscan tx.len).mpr ⟨Nat.zero_le _, Nat.le_of_eq hend.symm⟩
  · -- The scan stops at a special byte.
    have hlt : pos < tx.len := by omega
    have hspec := hstop (by omega)
    have hin : ∀ i ∈ sendDataReads mem tx, i < tx.data + tx.len := by
      intro i hi
      rw [hreads] at hi
      obtain ⟨j, hj, rfl⟩ := List.mem_map.mp hi
      refine Nat.add_lt_add_left ?_ _
      rcases List.mem_append.mp hj with hj | hj
      · have := (hscan j).mp hj
        omega
      · split at hj
        · have := List.mem_range.mp hj
          omega
        · split at hj
          · rw [List.mem_singleton.mp hj]
            exact hl
          · cases hj
    by_cases hpos : pos = 0
    · subst hpos
      have hcons : tx.bytes mem = tx.byteAt mem 0 :: (tx.bytes mem).drop 1 := Tx.bytes_cons mem tx hl
      cases he : tx.escape with
      | false =>
        have hlead' : (sendData mem tx).tx.lead mem = leadFrom true (tx.bytes mem) := by
          rw [sendData_escape_eq hb hl hpd he]
          unfold Tx.lead
          rw [hs]
          rfl
        refine .of_lead (n := 1) ?_ ?_ hin
        · rw [hlead, hlead', he, hcons]
          exact leadFrom_escape hspec _
        · rw [sendData_escape_eq hb hl hpd he]
          exact Nat.sub_add_cancel hb
      | true =>
        have hlead' : (sendData mem tx).tx.lead mem = leadFrom false ((tx.bytes mem).drop 1) := by
          rw [sendData_escaped_eq hb hpd he, ← Tx.bytes_drop]
          exact Tx.lead_next hs
        refine .of_lead (n := 1) ?_ ?_ hin
        · rw [hlead, hlead', he]
          nth_rewrite 1 [hcons]
          exact leadFrom_escaped hspec _
        · rw [sendData_escaped_eq hb hpd he, Tx.next_eq]
          exact Nat.sub_add_cancel hb
    · have htake : ∀ b ∈ (tx.bytes mem).take pos, ¬Special b := by
        intro b hmem
        obtain ⟨i, hi, rfl⟩ := List.mem_take_iff_getElem.mp hmem
        rw [hbyte]
        exact hplain i (Nat.zero_le _) (by omega)
      have hdrop : ∃ b ∈ (tx.bytes mem).drop pos, Special b := by
        refine ⟨_, List.mem_drop_iff_getElem.mpr ⟨0, by omega, rfl⟩, ?_⟩
        simpa only [Nat.add_zero, hbyte] using hspec
      have he : tx.escape = false := by
        cases he : tx.escape with
        | false => rfl
        | true => exact absurd (ho.dataEscape hs he) (hplain 0 (Nat.le_refl _) (by omega))
      obtain ⟨n, hn⟩ : ∃ n, min pos tx.outBufferLen = n := ⟨_, rfl⟩
      have heq := @sendData_literal_eq _ mem tx n (by rwa [hpd]) (by rwa [hpd])
      have hlead' : (sendData mem tx).tx.lead mem = leadFrom false ((tx.bytes mem).drop n) := by
        rw [heq, ← Tx.bytes_drop, ← he]
        exact Tx.lead_next hs
      refine .of_lead (n := n) ?_ ?_ hin
      · rw [hlead, hlead', he]
        exact leadFrom_run (by omega) (by omega) htake hdrop
      · rw [heq, Tx.next_eq]
        exact Nat.sub_add_cancel (by omega)

/-- Past the payload nothing of it is read. -/
theorem sendCrc_lead (hs : tx.state = .sendCrc) : (sendCrc c tx).tx.lead mem = none := by
  have hstate : (sendCrc c tx).tx.state = .sendCrc ∨ (sendCrc c tx).tx.state = .sendEnd := by
    unfold sendCrc sendTxInternal
    grind
  unfold Tx.lead
  rcases hstate with h | h <;> rw [h]

theorem sendEnd_lead (hs : tx.state = .sendEnd) : (sendEnd tx).tx.lead mem = none := by
  unfold sendEnd sendTxInternal
  dsimp only
  split
  · rfl
  · unfold Tx.lead
    rw [hs]

theorem txStateCall_reads (hc : c.value % 8 = 0) (ho : tx.Ok c mem) (hb : 0 < tx.outBufferLen)
    (hf : tx.originData ≠ none → tx.frameLen = frameLen) :
    (txStateCall c mem tx).Reads frameLen mem tx (txStateReads c mem tx) := by
  obtain ⟨n, hspec⟩ := txStateCall_spec hc ho hb
  have hout : (txStateCall c mem tx).tx.outBufferLen ≤ tx.outBufferLen := by
    rw [hspec.outLen]
    exact Nat.sub_le _ _
  unfold txStateReads
  by_cases hp : tx.originData = none
  · have hs := ho.idle hp
    have hr : (txStateCall c mem tx).tx = tx := by simp [txStateCall, hs, sendStart, hp]
    have hnil : sendStartReads c tx = [] := by simp [sendStartReads, hp]
    rw [hs]
    simp only [hnil]
    refine .of_none (Tx.lead_idle hp hs) ?_ hout
    rw [hr]
    exact Tx.lead_idle hp hs
  · rw [← hf hp]
    unfold txStateCall Tx.frameLen at *
    cases hs : tx.state with
    | sendStart => exact sendStart_reads hs hb
    | sendData => exact sendData_reads ho hs hb
    | sendCrc =>
      rw [hs] at hout
      exact .of_none (by simp [Tx.lead, hs]) (sendCrc_lead hs) hout
    | sendEnd =>
      rw [hs] at hout
      exact .of_none (by simp [Tx.lead, hs]) (sendEnd_lead hs) hout

/-! ## The driver -/

theorem runTxReads_lead (hc : c.value % 8 = 0) :
    ∀ (fuel : Nat) (rep : Bool) (tx : Tx π), tx.Ok c mem →
      tx.outBufferLen + tx.slack rep ≤ fuel → (tx.originData ≠ none → tx.frameLen = frameLen) →
      LeadFor frameLen (tx.lead mem) ((runTxLoop c mem fuel rep tx).1.lead mem) tx.outBufferLen
        (runTxReads c mem fuel rep tx)
  | 0, rep, tx, _, hfuel, _ => by
    have h := tx.slack_pos rep
    omega
  | fuel + 1, rep, tx, ho, hfuel, hf => by
    by_cases hz : tx.outBufferLen = 0
    · have hr : runTxLoop c mem (fuel + 1) rep tx = (tx, []) := by simp [runTxLoop, hz]
      have hreads : runTxReads c mem (fuel + 1) rep tx = [] := by simp [runTxReads, hz]
      rw [hr, hreads, hz]
      exact .nothing
    · have hb := Nat.pos_of_ne_zero hz
      obtain ⟨k, hspec⟩ := txStateCall_spec hc ho hb
      obtain ⟨n, hout, hlead⟩ := txStateCall_reads hc ho hb hf
      obtain ⟨r, hrd⟩ : ∃ r, txStateCall c mem tx = r := ⟨_, rfl⟩
      rw [hrd] at hspec hout hlead
      have hf' : r.tx.originData ≠ none → r.tx.frameLen = frameLen := by
        rcases hspec.sent with ⟨-, hp, hlen, -⟩ | ⟨p, -, -, hp⟩
        · rw [hp, hlen]
          exact hf
        · exact fun h => absurd hp h
      -- With nothing written there is no frame.
      have hempty : r.result = 0 → r.tx = tx ∧ tx.originData = none := by
        intro hres
        rcases hspec.progress with ⟨-, h⟩ | ⟨-, -, h⟩ | ⟨h1, h2, -⟩
        · exact absurd hres h
        · exact absurd hres h
        · exact ⟨h2, h1⟩
      by_cases hlast : r.result = 0 ∧ rep = true
      · have htx := hempty hlast.1
        have hr : (runTxLoop c mem (fuel + 1) rep tx).1 = tx := by
          simp [runTxLoop, hz, hrd, hlast, htx.1]
        have hreads : runTxReads c mem (fuel + 1) rep tx = txStateReads c mem tx := by
          simp [runTxReads, hz, hrd, hlast]
        have hidle := @Tx.lead_idle π mem tx htx.2 (ho.idle htx.2)
        rw [htx.1, hidle] at hlead
        rw [hr, hreads, hidle]
        exact .inside rfl (hlead.inside_iff.mpr fun m hm => absurd hm (Option.some_ne_none m).symm)
      · have hr : (runTxLoop c mem (fuel + 1) rep tx).1 =
            (runTxLoop c mem fuel (r.result = 0) r.tx).1 := by
          simp [runTxLoop, hz, hrd, hlast]
        have hreads : runTxReads c mem (fuel + 1) rep tx =
            txStateReads c mem tx ++ runTxReads c mem fuel (r.result = 0) r.tx := by
          simp [runTxReads, hz, hrd, hlast]
        have hm : r.tx.outBufferLen + r.tx.slack (r.result = 0) ≤ fuel := by
          by_cases hres : r.result = 0
          · have htx := hempty hres
            have hrep : rep = false := by
              cases rep with
              | false => rfl
              | true => exact absurd ⟨hres, rfl⟩ hlast
            rw [htx.1, decide_eq_true hres]
            rw [hrep] at hfuel
            simp only [Tx.slack, htx.2] at hfuel ⊢
            exact Nat.lt_succ_iff.mp hfuel
          · have := hspec.measure ho hres rep
            rw [decide_eq_false hres]
            omega
        rw [hr, hreads, ← hout, Nat.add_comm]
        exact hlead.append (runTxReads_lead hc fuel _ r.tx hspec.ok hm hf')

theorem hdlcLlRunTxReads_lead {h : HdlcLl π} (ho : h.TxOk mem)
    (hf : h.tx.originData ≠ none → h.tx.frameLen = frameLen) (len : Nat) :
    LeadFor frameLen (h.tx.lead mem) ((hdlcLlRunTx mem h len).1.tx.lead mem) len
      (hdlcLlRunTxReads mem h len) := by
  have ho' : ({ h.tx with outBuffer := [], outBufferLen := len } : Tx π).Ok h.crcType mem :=
    ⟨ho.tx.idle, ho.tx.start, ho.tx.data, ho.tx.dataEscape, ho.tx.crcLen, ho.tx.crcEscape⟩
  exact runTxReads_lead ho.crc (len + 4) false _ ho'
    (Nat.add_le_add_left (Tx.slack_false_le _) len) hf

theorem drainReads_lead {h : HdlcLl π} (hi : h.Inv mem)
    (hf : h.tx.originData ≠ none → h.tx.frameLen = frameLen) (sizes : List Nat) :
    LeadFor frameLen (h.tx.lead mem) ((drain mem h sizes).1.tx.lead mem) (room sizes)
      (drainReads mem h sizes) := by
  induction sizes generalizing h with
  | nil => exact .nothing
  | cons len sizes ih =>
    have hf' : (hdlcLlRunTx mem h len).1.tx.originData ≠ none →
        (hdlcLlRunTx mem h len).1.tx.frameLen = frameLen := by
      rcases runTx_sent hi.txOk len with ⟨-, hp, hlen, -⟩ | ⟨p, -, -, hp, -⟩
      · rw [hp, hlen]
        exact hf
      · exact fun h => absurd hp h
    exact (hdlcLlRunTxReads_lead hi.txOk hf len).append (ih (hi.runTx len) hf')

/-- A frame that was put is read inside its bounds if and only if its last byte is special, or the
output buffers do not reach behind the flag and what is sent up to the last special byte. -/
theorem reads_inside_iff {h : HdlcLl π} (hr : h.Reachable mem) (hn : h.tx.originData = none)
    (data : π) {len : Nat} (hl : 0 < len) (sizes : List Nat) :
    (∀ i ∈ drainReads mem (hdlcLlPutFrame h data len).1 sizes, i < len) ↔
      throughSpecial ((List.range len).map (mem data)) = (List.range len).map (mem data) ∨
        room sizes ≤ (stuff (throughSpecial ((List.range len).map (mem data)))).length + 1 := by
  have hi := hr.inv
  have hs := hi.tx.idle hn
  have hput : (hdlcLlPutFrame h data len).1.tx =
      { h.tx with originData := some data, data := 0, len := len } := by
    simp [hdlcLlPutFrame, hn, Nat.ne_of_gt hl]
  have hbytes : (hdlcLlPutFrame h data len).1.tx.bytes mem = (List.range len).map (mem data) := by
    rw [hput]
    simp [Tx.bytes, Tx.byteAt]
  have hlen : (hdlcLlPutFrame h data len).1.tx.frameLen = len := by
    rw [hput]
    simp [Tx.frameLen, hs]
  have hlead : (hdlcLlPutFrame h data len).1.tx.lead mem =
      (leadFrom false ((List.range len).map (mem data))).map (· + 1) := by
    rw [← hbytes, hput]
    simp [Tx.lead, hs]
  rw [(drainReads_lead (hi.putFrame data len) (fun _ => hlen) sizes).inside_iff, hlead]
  unfold leadFrom
  split
  · next h => simp [h]
  · next h => simp [h, stuffFrom]

theorem reads_inside_iff_two :
    (drainReads bufferMem (hdlcLlPutFrame exampleHandle [0x55, 0x7E] 2).1 [1, 2, 30]).all
      (· < 2) := by
  have hinside := (@reads_inside_iff _ bufferMem _ exampleHandle_reachable rfl [0x55, 0x7E] 2
    (by decide) [1, 2, 30]).mpr (.inl (by decide))
  exact List.all_eq_true.mpr fun i hi => decide_eq_true (hinside i hi)

/-- A byte that is sent as it is. -/
theorem reads_behind_plain_byte :
    ¬∀ i ∈ drainReads bufferMem (hdlcLlPutFrame exampleHandle [0x55] 1).1 [10], i < 1 := by
  decide +kernel

end TinyProto.Hdlc
