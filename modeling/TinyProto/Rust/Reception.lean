import TinyProto.Rust.Deframe
import TinyProto.Rust.Transmission

/-!
# The two receivers

Fed with the same stream, the Rust receiver reports what the C receiver reports exactly when
every frame of the stream is judged alike (`run_rx_agrees_iff`).  It sums a slice of one
byte, so a longer payload with a check field panics.  It takes the field of the 32-bit check
for three bytes wide, and with no check it leaves no room for one.
-/

namespace TinyProto.Rust

open Hdlc (HdlcLl HdlcLlInit RxEvent RxView fcs hdlcLlInit hdlcLlRead bodies bodyStep bodyEvent
  checkBody encodeFrame exampleHandle)
open Transducer

variable {π : Type} {checks : Bool} {c : HdlcCrc}

/-! ## Frames that are judged alike -/

/-- The last four bytes are the 32-bit check field of the others. -/
def Checked (body : List Byte) : Prop :=
  fcs .crc32 (body.take (body.length - 4)) = body.drop (body.length - 4)

instance checkedDecidable (body : List Byte) : Decidable (Checked body) :=
  inferInstanceAs (Decidable (_ = _))

/-- Both receivers report the same of a frame of which the C receiver has `body` and the Rust
receiver has `rustBody`. -/
def JudgedAlike (c : HdlcCrc) (body rustBody : List Byte) : Prop :=
  match c with
  | .crc8 => rustBody.length ≤ 2
  | .crc16 => rustBody.length ≤ 3
  | .crc32 =>
      body = [] ∨ rustBody.length = 1 ∨ rustBody.length = 2 ∨
        (rustBody.length = 4 ∨ rustBody.length = 5) ∧ ¬Checked body ∧ ¬Checked rustBody
  | _ => rustBody = body

instance judgedAlikeDecidable : ∀ c body rustBody, Decidable (JudgedAlike c body rustBody)
  | .crc8, _, _ => inferInstanceAs (Decidable (_ ≤ _))
  | .crc16, _, _ => inferInstanceAs (Decidable (_ ≤ _))
  | .crc32, _, _ => inferInstanceAs (Decidable (_ ∨ _))
  | .off, _, _ => inferInstanceAs (Decidable (_ = _))
  | .default, _, _ => inferInstanceAs (Decidable (_ = _))

theorem bodyEvent_default (body : List Byte) : bodyEvent .default body = .frame body := by
  simp [bodyEvent, checkBody, HdlcCrc.value, fcs, Hdlc.checkBytes]

/-- With no check, what was read is delivered. -/
theorem rxReport_off (body : List Byte) : rxReport checks .off body = .ok (.frame body) := by
  simp [rxReport, getCrcFieldSize, HdlcCrc.stored, HdlcCrc.value, fcs, Hdlc.checkBytes]

/-- A field size that is right leaves the slice as the only difference. -/
theorem rxReport_same (hs : c.stored = c) (hsize : getCrcFieldSize c = c.value / 8)
    (hpos : c.value / 8 ≠ 0) (body : List Byte) :
    rxReport checks c body =
      if c.value / 8 + 1 < body.length then .error .indexOutOfBounds
      else .ok (bodyEvent c body) := by
  simp only [rxReport, hs, hsize, bodyEvent, checkBody]
  by_cases hshort : body.length < c.value / 8
  · rw [if_pos hshort, if_neg (by omega), if_pos hshort]
  · rw [if_neg hshort, if_neg hshort, if_neg hshort]
    by_cases hlong : c.value / 8 + 1 < body.length
    · rw [if_pos hlong, if_pos ⟨hpos, hlong⟩]
    · rw [if_neg hlong, if_neg fun h => hlong h.2]
      split <;> rfl

theorem rxReport_same_iff (hs : c.stored = c) (hsize : getCrcFieldSize c = c.value / 8)
    (hpos : c.value / 8 ≠ 0) (body : List Byte) :
    rxReport checks c body = .ok (bodyEvent c body) ↔ body.length ≤ c.value / 8 + 1 := by
  rw [rxReport_same hs hsize hpos]
  by_cases hlong : c.value / 8 + 1 < body.length
  · rw [if_pos hlong]
    exact ⟨fun h => (by cases h), fun h => absurd h (Nat.not_le_of_lt hlong)⟩
  · rw [if_neg hlong]
    exact ⟨fun _ => Nat.le_of_not_lt hlong, fun _ => rfl⟩

/-! ## The 32-bit check -/

theorem bodyEvent_crc32 (body : List Byte) :
    bodyEvent .crc32 body =
      if 4 ≤ body.length ∧ Checked body then .frame (body.take (body.length - 4))
      else .error .wrongCrc := by
  simp only [bodyEvent, checkBody, show HdlcCrc.crc32.value / 8 = 4 from rfl]
  by_cases hshort : body.length < 4
  · rw [if_pos hshort, if_neg fun h => absurd h.1 (Nat.not_le_of_lt hshort)]
  · rw [if_neg hshort]
    by_cases hchecked : Checked body
    · have hfcs : fcs .crc32 (body.take (body.length - 4)) = body.drop (body.length - 4) := hchecked
      rw [if_pos hfcs, if_pos ⟨Nat.le_of_not_lt hshort, hchecked⟩]
    · have hfcs : fcs .crc32 (body.take (body.length - 4)) ≠ body.drop (body.length - 4) := hchecked
      rw [if_neg hfcs, if_neg fun h => hchecked h.2]

theorem rxReport_crc32 (body : List Byte) :
    rxReport checks .crc32 body =
      if body.length < 3 then .ok (.error .wrongCrc)
      else if body.length < 4 then
        .error (if checks then .arithmeticOverflow else .indexOutOfBounds)
      else if 5 < body.length then .error .indexOutOfBounds
      else if Checked body then .ok (.frame (body.take (body.length - 3)))
      else .ok (.error .wrongCrc) := by
  have hlong : ((4 : Nat) ≠ 0 ∧ 4 + 1 < body.length) = (5 < body.length) := by simp
  show (if body.length < 3 then _ else if body.length < 4 then _
    else if (4 : Nat) ≠ 0 ∧ 4 + 1 < body.length then _ else _) = _
  simp only [hlong]
  rfl

/-- The check field of a byte and the one of this byte with another one behind it never
overlap. -/
theorem fcs_crc32_overlap : ∀ b : Byte,
    (fcs .crc32 [b]).drop 1 ≠ (fcs .crc32 [b, (fcs .crc32 [b]).headD 0]).take 3 := by
  decide +kernel

/-- The check field of a frame and the one of this frame with another byte are not both right. -/
theorem checked_once {rustBody : List Byte} {last : Byte}
    (hlen : rustBody.length = 4 ∨ rustBody.length = 5) (hrust : Checked rustBody) :
    ¬Checked (rustBody ++ [last]) := by
  intro hc
  rcases hlen with hlen | hlen
  · match rustBody, hlen with
    | [b₀, b₁, b₂, b₃], _ =>
      have hzero : fcs .crc32 [] = [b₀, b₁, b₂, b₃] := hrust
      have hone : fcs .crc32 [b₀] = [b₁, b₂, b₃, last] := hc
      have hempty : fcs .crc32 [] = [0, 0, 0, 0] := by decide +kernel
      have hbyte : fcs .crc32 [0] = [0x8D, 0xEF, 0x02, 0xD2] := by decide +kernel
      rw [hempty] at hzero
      cases hzero
      rw [hbyte] at hone
      cases hone
  · match rustBody, hlen with
    | [b₀, b₁, b₂, b₃, b₄], _ =>
      have hone : fcs .crc32 [b₀] = [b₁, b₂, b₃, b₄] := hrust
      have htwo : fcs .crc32 [b₀, b₁] = [b₂, b₃, b₄, last] := hc
      have hoverlap := fcs_crc32_overlap b₀
      rw [hone, List.headD_cons, htwo] at hoverlap
      exact hoverlap rfl

/-- The frame of which the C receiver has one byte more at most. -/
theorem rxReport_crc32_iff {rustBody more : List Byte} (hne : rustBody ≠ [])
    (hmore : more.length ≤ 1) :
    rxReport checks .crc32 rustBody = .ok (bodyEvent .crc32 (rustBody ++ more)) ↔
      JudgedAlike .crc32 (rustBody ++ more) rustBody := by
  have hpos : 0 < rustBody.length := List.length_pos_iff.mpr hne
  have hbody : rustBody ++ more ≠ [] := fun h => hne (List.append_eq_nil_iff.mp h).1
  have hlen : (rustBody ++ more).length = rustBody.length + more.length := List.length_append
  rw [rxReport_crc32, bodyEvent_crc32]
  simp only [JudgedAlike, hbody, false_or]
  by_cases hshort : rustBody.length < 3
  · have hfour : ¬(4 ≤ (rustBody ++ more).length ∧ Checked (rustBody ++ more)) := by
      intro h
      omega
    rw [if_pos hshort, if_neg hfour]
    exact ⟨fun _ => by omega, fun _ => rfl⟩
  · rw [if_neg hshort]
    by_cases hthree : rustBody.length < 4
    · rw [if_pos hthree]
      exact ⟨fun h => (by cases h), fun h => by omega⟩
    · rw [if_neg hthree]
      by_cases hlong : 5 < rustBody.length
      · rw [if_pos hlong]
        exact ⟨fun h => (by cases h), fun h => by omega⟩
      · have hfour : 4 ≤ (rustBody ++ more).length := by omega
        have hor : rustBody.length = 4 ∨ rustBody.length = 5 := by omega
        rw [if_neg hlong]
        by_cases hrust : Checked rustBody
        · rw [if_pos hrust]
          constructor
          · intro h
            exfalso
            split at h
            · next hc =>
              have hframe := RxEvent.frame.inj (Except.ok.inj h)
              have htake := congrArg List.length hframe
              simp only [List.length_take] at htake
              have hone : more.length = 1 := by omega
              obtain ⟨last, rfl⟩ := List.length_eq_one_iff.mp hone
              exact checked_once hor hrust hc.2
            · cases h
          · rintro (h | h | ⟨-, -, hno⟩)
            · omega
            · omega
            · exact absurd hrust hno
        · rw [if_neg hrust]
          by_cases hc : Checked (rustBody ++ more)
          · rw [if_pos ⟨hfour, hc⟩]
            constructor
            · intro h
              cases h
            · rintro (h | h | ⟨-, hno, -⟩)
              · omega
              · omega
              · exact absurd hc hno
          · rw [if_neg fun h => hc h.2]
            exact ⟨fun _ => Or.inr (Or.inr ⟨hor, hc, hrust⟩), fun _ => rfl⟩

/-! ## Streams -/

/-- How far the limits of the two receivers can be apart. -/
def Rooms (c : HdlcCrc) (room rustRoom : Int) : Prop :=
  rustRoom ≤ room ∧
    match c with
    | .crc8 => room = rustRoom
    | .crc16 => room = rustRoom
    | .crc32 => room ≤ rustRoom + 1
    | _ => True

theorem rooms_init {sz : StructSizes} {init : HdlcLlInit} {a : Int} {h : HdlcLl π}
    (hi : hdlcLlInit sz init = .ok (a, h)) (hd : init.crcType ≠ .default) (buf : Int → Byte) :
    Rooms init.crcType h.physMtu (Rx.new buf h.rxBufSize init.crcType init.mtu).physMtu := by
  have hmtu : h.physMtu =
      if init.mtu ≠ 0 then init.mtu + TinyProto.getCrcFieldSize init.crcType.stored
      else h.rxBufSize := by
    unfold hdlcLlInit at hi
    split at hi
    · cases hi
    · dsimp only at hi
      split at hi
      · cases hi
      · cases hi
        rfl
  simp only [Rx.new]
  by_cases hz : init.mtu = 0
  · rw [hmtu, if_neg (not_not.mpr hz), if_pos hz]
    refine ⟨Int.le_refl _, ?_⟩
    cases init.crcType with
    | crc32 => exact Int.le_add_one (Int.le_refl _)
    | _ => trivial
  · rw [hmtu, if_pos hz, if_neg hz]
    cases hc : init.crcType with
    | default => exact absurd hc hd
    | crc8 => exact ⟨Int.le_refl _, rfl⟩
    | crc16 => exact ⟨Int.le_refl _, rfl⟩
    | crc32 =>
      have hfield : (TinyProto.getCrcFieldSize HdlcCrc.crc32.stored : Int) = 4 := rfl
      have hrust : (getCrcFieldSize .crc32 : Int) = 3 := rfl
      rw [hfield, hrust]
      refine ⟨by omega, ?_⟩
      show init.mtu + 4 ≤ init.mtu + 3 + 1
      omega
    | off =>
      have hfield : (TinyProto.getCrcFieldSize HdlcCrc.off.stored : Int) = 4 := rfl
      have hrust : (getCrcFieldSize .off : Int) = 0 := rfl
      rw [hfield, hrust]
      exact ⟨by omega, trivial⟩

/-- A frame of which both receivers have a part. -/
theorem rxReport_iff {room rustRoom : Int} (hd : c ≠ .default) (hr : Rooms c room rustRoom)
    (hpos : 0 < rustRoom) {body : List Byte} (hne : body ≠ []) :
    rxReport checks c (body.take rustRoom.toNat) =
        .ok (bodyEvent c.stored (body.take room.toNat)) ↔
      JudgedAlike c (body.take room.toNat) (body.take rustRoom.toNat) := by
  obtain ⟨hle, hr⟩ := hr
  cases c with
  | default => exact absurd rfl hd
  | off =>
    rw [rxReport_off, show HdlcCrc.off.stored = .default from rfl, bodyEvent_default]
    exact ⟨fun h => RxEvent.frame.inj (Except.ok.inj h), fun h => congrArg (Except.ok ∘ RxEvent.frame) h⟩
  | crc8 =>
    have hr : room = rustRoom := hr
    rw [hr]
    exact rxReport_same_iff rfl rfl (by decide) _
  | crc16 =>
    have hr : room = rustRoom := hr
    rw [hr]
    exact rxReport_same_iff rfl rfl (by decide) _
  | crc32 =>
    have hr : room ≤ rustRoom + 1 := hr
    have hroom : room.toNat = rustRoom.toNat + (room - rustRoom).toNat := by omega
    have hmore : ((body.drop rustRoom.toNat).take (room - rustRoom).toNat).length ≤ 1 := by
      rw [List.length_take]
      omega
    have hrust : body.take rustRoom.toNat ≠ [] := by
      intro hnil
      exact hne ((Hdlc.take_eq_nil_iff (Int.pos_iff_toNat_pos.mp hpos) body).mp hnil)
    rw [hroom, List.take_add]
    exact rxReport_crc32_iff hrust hmore

theorem judgedAlike_nil (c : HdlcCrc) : JudgedAlike c [] [] := by
  cases c <;> simp [JudgedAlike]

theorem not_judgedAlike_nil {room rustRoom : Int} (hr : Rooms c room rustRoom) (hpos : 0 < room)
    (hrust : ¬0 < rustRoom) {body : List Byte} (hne : body ≠ []) :
    ¬JudgedAlike c (body.take room.toNat) (body.take rustRoom.toNat) := by
  have htake : body.take room.toNat ≠ [] := by
    intro hnil
    exact hne ((Hdlc.take_eq_nil_iff (Int.pos_iff_toNat_pos.mp hpos) body).mp hnil)
  have hzero : rustRoom.toNat = 0 := by omega
  rw [hzero, List.take_zero]
  intro hj
  cases c with
  | default => exact htake hj.symm
  | off => exact htake hj.symm
  | crc8 => exact absurd (hr.2 ▸ hpos : 0 < rustRoom) hrust
  | crc16 => exact absurd (hr.2 ▸ hpos : 0 < rustRoom) hrust
  | crc32 =>
    rcases hj with hj | hj | hj | ⟨hj | hj, -⟩
    · exact htake hj
    all_goals cases hj

/-- What each receiver reports of a stream, in terms of the frames of the stream. -/
theorem stamped_agree {room rustRoom : Int} (hd : c ≠ .default) (hr : Rooms c room rustRoom)
    (stream : List Byte) :
    (stamped (Hdlc.viewStep .default rustRoom) 0 .start stream).mapM
        (reportAt (rejudge checks c)) =
        .ok (stamped (Hdlc.viewStep c.stored room) 0 .start stream) ↔
      ∀ body ∈ bodies stream,
        JudgedAlike c (body.take room.toNat) (body.take rustRoom.toNat) := by
  have hmem : ∀ P : List Byte → Prop,
      (∀ x ∈ stamped bodyStep 0 .start stream, P x.2) ↔ ∀ body ∈ bodies stream, P body := by
    intro P
    rw [bodies, ← @stamped_snd _ _ _ bodyStep 0 .start stream, List.forall_mem_map]
  have hne : ∀ x ∈ stamped bodyStep 0 .start stream, x.2 ≠ [] :=
    (hmem (· ≠ [])).mpr (Hdlc.emits_body_ne_nil .start stream)
  rw [Hdlc.stamped_view, Hdlc.stamped_view, ← hmem]
  by_cases hrust : 0 < rustRoom
  · have hroom : 0 < room := Int.lt_of_lt_of_le hrust hr.1
    rw [if_pos hrust, if_pos hroom, List.mapM_map, mapM_eq_ok_iff]
    refine forall₂_congr fun x hx => ?_
    rw [← rxReport_iff hd hr hrust (hne x hx)]
    simp only [Function.comp_apply, bodyEvent_default, reportAt, rejudge]
    cases rxReport checks c (x.2.take rustRoom.toNat) with
    | error e => exact ⟨fun h => (by cases h), fun h => (by cases h)⟩
    | ok event => simp [Except.map]
  · rw [if_neg hrust]
    by_cases hroom : 0 < room
    · rw [if_pos hroom]
      constructor
      · intro h
        have hnil : stamped bodyStep 0 .start stream = [] :=
          List.map_eq_nil_iff.mp (Except.ok.inj h).symm
        rw [hnil]
        exact fun x hx => absurd hx List.not_mem_nil
      · intro h
        have hnil : stamped bodyStep 0 .start stream = [] := by
          rw [List.eq_nil_iff_forall_not_mem]
          intro x hx
          exact not_judgedAlike_nil hr hroom hrust (hne x hx) (h x hx)
        rw [hnil]
        rfl
    · rw [if_neg hroom]
      have hzero : room.toNat = 0 := by omega
      have hrustZero : rustRoom.toNat = 0 := by omega
      refine ⟨fun _ x _ => ?_, fun _ => rfl⟩
      rw [hzero, hrustZero, List.take_zero]
      exact judgedAlike_nil c

/-- Fed with the same chunks, both receivers report the same payloads and errors at the same
places, and neither panics, exactly when each frame of the stream is judged alike. -/
theorem run_rx_agrees_iff {sz : StructSizes} {init : HdlcLlInit} {a : Int} {h : HdlcLl π}
    (hi : hdlcLlInit sz init = .ok (a, h)) (hd : init.crcType ≠ .default) (checks : Bool)
    (buf : Int → Byte) (chunks : List (List Byte)) :
    (∃ trace, feedBlocks hdlcLlRead 0 h chunks = (.ok trace : Except Panic _) ∧
        feedBlocks (runRxRead checks) 0 (Rx.new buf h.rxBufSize init.crcType init.mtu) chunks =
          .ok trace) ↔
      ∀ body ∈ bodies chunks.flatten,
        JudgedAlike init.crcType (body.take h.physMtu.toNat)
          (body.take (Rx.new buf h.rxBufSize init.crcType init.mtu).physMtu.toNat) := by
  obtain ⟨hrx, -, hcrc⟩ := Hdlc.hdlcLlInit_ok hi
  have hidle : h.RxIdle init.crcType.stored h.physMtu ∧ h.view = .start := by
    refine ⟨⟨⟨hcrc, rfl, fun hne => absurd (congrArg Hdlc.Rx.state hrx) hne⟩, ?_⟩, ?_⟩
    · rw [hrx]
      exact fun he => by cases he
    · exact Hdlc.view_readStart (congrArg Hdlc.Rx.state hrx)
  have hc := (@Hdlc.hdlcLlRead_consumes π _ h.physMtu Panic
    (stored_stored_eq init.crcType)).blocks hidle 0 chunks
  have hok := (@mapM_eq_ok_iff _ _ Panic (reportAt Except.ok) id
    (stamped (Hdlc.viewStep init.crcType.stored h.physMtu) 0 .start chunks.flatten)).mpr
      fun _ _ => rfl
  rw [hok, List.map_id] at hc
  generalize hnew : Rx.new buf h.rxBufSize init.crcType init.mtu = rx
  have hshows : rx.Shows init.crcType rx.physMtu .start := by
    rw [← hnew]
    exact ⟨rfl, ⟨⟨rfl, rfl, fun hne => absurd rfl hne⟩, fun he => by cases he⟩, rfl⟩
  have hrust := (@runRxRead_consumes checks _ rx.physMtu hd).blocks hshows 0 chunks
  have hr := rooms_init hi hd buf
  rw [hnew] at hr
  rw [← @stamped_agree checks _ _ _ hd hr, hc, hrust]
  constructor
  · rintro ⟨trace, htrace, h⟩
    rw [h, htrace]
  · intro h
    exact ⟨_, rfl, h⟩

theorem run_rx_agrees_iff_plain :
    (∃ trace, feedBlocks hdlcLlRead 0 plainHandle [[0x7E, 1, 2], [0x7D, 0x5E, 0x7E]] =
          (.ok trace : Except Panic _) ∧
        feedBlocks (runRxRead true) 0 (Rx.new (fun _ => 0) 24 .off 8)
          [[0x7E, 1, 2], [0x7D, 0x5E, 0x7E]] = .ok trace) ↔
      ∀ body ∈ bodies [0x7E, 1, 2, 0x7D, 0x5E, 0x7E],
        JudgedAlike .off (body.take 12) (body.take 8) :=
  @run_rx_agrees_iff (List Byte) .linux64 { buf := 4096, bufSize := 160, crcType := .off, mtu := 8 }
    4096 plainHandle rfl (by decide) true (fun _ => 0) [[0x7E, 1, 2], [0x7D, 0x5E, 0x7E]]

/-- A payload of two bytes with a check field panics.  A frame of nine bytes is longer than the
limit of the Rust receiver, and not longer than the one of the C receiver. -/
theorem run_rx_disagrees :
    feedBlocks hdlcLlRead 0 exampleHandle [encodeFrame .crc16 [1, 2]] =
        (.ok [(6, .frame [1, 2])] : Except Panic _) ∧
      feedBlocks (runRxRead true) 0 (Rx.new (fun _ => 0) 24 .crc16 8) [encodeFrame .crc16 [1, 2]] =
        .error .indexOutOfBounds ∧
      feedBlocks hdlcLlRead 0 plainHandle [[0x7E, 1, 2, 3, 4, 5, 6, 7, 8, 9, 0x7E]] =
        (.ok [(11, .frame [1, 2, 3, 4, 5, 6, 7, 8, 9])] : Except Panic _) ∧
      feedBlocks (runRxRead true) 0 (Rx.new (fun _ => 0) 24 .off 8)
          [[0x7E, 1, 2, 3, 4, 5, 6, 7, 8, 9, 0x7E]] =
        .ok [(11, .frame [1, 2, 3, 4, 5, 6, 7, 8])] := by
  decide +kernel

end TinyProto.Rust
