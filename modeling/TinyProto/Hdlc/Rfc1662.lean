import TinyProto.Lib.Pieces
import TinyProto.Hdlc.Stream

/-!
# The receiver and the RFC 1662 framing

`rfc1662` is the reference decoder: it cuts a stream at the flags, drops empty
and aborted segments, unescapes the others and checks their check field.

The receiver departs from it in three ways.  A flag that closed a frame does not
open the next one, so the segment after a closed frame is skipped.  An escape
after an escape is one escape.  An escape in front of the closing flag is ignored.
`rfc1662_iff` says for which streams none of this is seen.
-/

namespace TinyProto.Hdlc

open Pieces

variable {π : Type} {c : HdlcCrc} {mtu : Int}

/-! ## The reference decoder -/

/-- The bytes an escaped string stands for, unless it ends in an unpaired escape.
`escape` is set behind an escape. -/
def unstuffFrom : Bool → List Byte → Option (List Byte)
  | escape, [] => if escape then none else some []
  | true, b :: bs => (unstuffFrom false bs).map ((b ^^^ escapeBit) :: ·)
  | false, b :: bs =>
      if b = escapeChar then unstuffFrom true bs else (unstuffFrom false bs).map (b :: ·)

/-- The body of a segment, `none` when the segment is aborted. -/
def unstuff (segment : List Byte) : Option (List Byte) := unstuffFrom false segment

/-- The frame a segment stands for. -/
def rfcFrame (c : HdlcCrc) (segment : List Byte) : Option (List Byte) :=
  if segment = [] then none
  else (unstuff segment).bind fun body => (checkBody c body).toOption

/-- The segments of a stream: what stands between two flags. -/
def segments (stream : List Byte) : List (List Byte) := (pieces flagSequence stream).tail.dropLast

/-- The reference decoder. -/
def rfc1662 (c : HdlcCrc) (stream : List Byte) : List (List Byte) :=
  (segments stream).filterMap (rfcFrame c)

/-! ## How the receiver reads a segment -/

/-- The unescaped bytes of a segment as the receiver reads them. -/
def readUnstuffFrom : Bool → List Byte → List Byte
  | _, [] => []
  | escape, b :: bs =>
      if b = escapeChar then readUnstuffFrom true bs
      else (if escape then b ^^^ escapeBit else b) :: readUnstuffFrom false bs

/-- The body of a segment as the receiver reads it into its buffer. -/
def readBody (mtu : Int) (segment : List Byte) : List Byte :=
  (readUnstuffFrom false segment).take mtu.toNat

/-- The payload of a body, when there is a body and its check field is right. -/
def readFrame (c : HdlcCrc) (mtu : Int) (segment : List Byte) : Option (List Byte) :=
  if readBody mtu segment = [] then none else (checkBody c (readBody mtu segment)).toOption

/-- A segment where an escape is escaped. -/
def EscapedEscape : Bool → List Byte → Prop
  | _, [] => False
  | true, b :: bs => b = escapeChar ∨ EscapedEscape false bs
  | false, b :: bs => EscapedEscape (b = escapeChar) bs

/-- The segments of a stream on which nothing of the difference is seen.  `opened`
says that the flag in front of the segment opened a frame: it is the first flag,
or the one before it did not close a frame. -/
def Agrees (c : HdlcCrc) (mtu : Int) : Bool → List (List Byte) → Prop
  | _, [] => True
  | true, s :: ss =>
      ((unstuff s).isSome ∧ ¬EscapedEscape false s ∨ rfcFrame c s = none ∧ readFrame c mtu s = none) ∧
        Agrees c mtu (readBody mtu s = []) ss
  | false, s :: ss => rfcFrame c s = none ∧ Agrees c mtu true ss

theorem segments_of_not_mem {w : List Byte} (h : flagSequence ∉ w) : segments w = [] := by
  simp [segments, pieces_of_not_mem h]

theorem segments_append {p : List Byte} (h : flagSequence ∉ p) (w : List Byte) :
    segments (p ++ flagSequence :: w) = closed flagSequence w := by
  rw [segments, pieces_append h, List.tail_cons, closed]

/-! ## One segment -/

/-- The receiver reads one byte for every byte that is no escape. -/
theorem length_readUnstuffFrom (escape : Bool) (s : List Byte) :
    (readUnstuffFrom escape s).length = s.countP (· ≠ escapeChar) := by
  induction s generalizing escape with
  | nil => rfl
  | cons b bs ih =>
      unfold readUnstuffFrom
      by_cases hb : b = escapeChar
      · simp [hb, ih]
      · simp [hb, ih]

/-- Without an escaped escape both read the same, and with one the receiver reads
fewer bytes. -/
theorem readUnstuffFrom_of_some {escape : Bool} {s body : List Byte}
    (h : unstuffFrom escape s = some body) :
    (¬EscapedEscape escape s → readUnstuffFrom escape s = body) ∧
      (readUnstuffFrom escape s).length ≤ body.length ∧
      (EscapedEscape escape s → (readUnstuffFrom escape s).length < body.length) := by
  induction s generalizing escape body with
  | nil =>
      cases escape with
      | true => cases h
      | false =>
          cases h
          exact ⟨fun _ => rfl, Nat.le_refl 0, fun he => he.elim⟩
  | cons b bs ih =>
      cases escape with
      | true =>
          obtain ⟨rest, hrest, rfl⟩ := Option.map_eq_some_iff.mp h
          obtain ⟨h1, h2, h3⟩ := ih hrest
          rw [length_readUnstuffFrom] at h2 h3
          rw [length_readUnstuffFrom]
          by_cases hb : b = escapeChar
          · refine ⟨fun he => absurd (Or.inl hb) he, ?_, fun _ => ?_⟩ <;>
              simp [hb] at h2 ⊢ <;> omega
          · refine ⟨fun he => ?_, ?_, fun he => ?_⟩
            · rw [readUnstuffFrom, if_neg hb, if_pos rfl, h1 fun h => he (Or.inr h)]
            · simp [hb] at h2 ⊢
              omega
            · have h4 := h3 (he.resolve_left hb)
              simp [hb] at h4 ⊢
              omega
      | false =>
          by_cases hb : b = escapeChar
          · have hs : unstuffFrom true bs = some body := by simpa [unstuffFrom, hb] using h
            have hr : readUnstuffFrom false (b :: bs) = readUnstuffFrom true bs := by
              simp [readUnstuffFrom, hb]
            have he : EscapedEscape false (b :: bs) = EscapedEscape true bs := by
              simp [EscapedEscape, hb]
            rw [hr, he]
            exact ih hs
          · have hs : (unstuffFrom false bs).map (b :: ·) = some body := by
              simpa [unstuffFrom, hb] using h
            obtain ⟨rest, hrest, rfl⟩ := Option.map_eq_some_iff.mp hs
            obtain ⟨h1, h2, h3⟩ := ih hrest
            have hr : readUnstuffFrom false (b :: bs) = b :: readUnstuffFrom false bs := by
              simp [readUnstuffFrom, hb]
            have he : EscapedEscape false (b :: bs) = EscapedEscape false bs := by
              simp [EscapedEscape, hb]
            rw [hr, he]
            exact ⟨fun h => by rw [h1 h], Nat.succ_le_succ h2, fun h => Nat.succ_lt_succ (h3 h)⟩

theorem checkBody_length {body payload : List Byte}
    (h : (checkBody c body).toOption = some payload) :
    body.length = payload.length + c.value / 8 := by
  unfold checkBody at h
  dsimp only at h
  split at h
  · cases h
  · split at h
    · cases h
      rw [List.length_take]
      omega
    · cases h

/-- A body is empty only for the empty segment. -/
theorem unstuff_ne_nil {s body : List Byte} (hs : s ≠ []) (h : unstuff s = some body) :
    body ≠ [] := by
  cases s with
  | nil => exact absurd rfl hs
  | cons b bs =>
      rintro rfl
      by_cases hb : b = escapeChar
      · cases bs with
        | nil => simp [unstuff, unstuffFrom, hb] at h
        | cons x xs => simp [unstuff, unstuffFrom, hb] at h
      · simp [unstuff, unstuffFrom, hb] at h

/-- A segment that is opened is read as the reference reads it exactly when it has
neither a dangling nor an escaped escape, or is dropped under both readings. -/
theorem readFrame_eq_iff {s : List Byte}
    (hfit : ∀ body, unstuff s = some body → (body.length : Int) ≤ mtu) :
    readFrame c mtu s = rfcFrame c s ↔
      (unstuff s).isSome ∧ ¬EscapedEscape false s ∨
        rfcFrame c s = none ∧ readFrame c mtu s = none := by
  constructor
  · intro heq
    by_cases hclean : (unstuff s).isSome ∧ ¬EscapedEscape false s
    · exact Or.inl hclean
    · -- a payload of both would give both bodies the same length
      have hnone : rfcFrame c s = none := by
        cases hp : rfcFrame c s with
        | none => rfl
        | some payload =>
            rw [hp] at heq
            unfold rfcFrame at hp
            unfold readFrame at heq
            split at hp
            · cases hp
            · obtain ⟨body, hbody, hcheck⟩ := Option.bind_eq_some_iff.mp hp
              split at heq
              · cases heq
              · have h1 := checkBody_length hcheck
                have h2 := checkBody_length heq
                have hesc : EscapedEscape false s :=
                  by_contra fun h => hclean ⟨by rw [hbody]; rfl, h⟩
                have h3 := (readUnstuffFrom_of_some hbody).2.2 hesc
                rw [readBody, List.length_take] at h2
                omega
      exact Or.inr ⟨hnone, heq.trans hnone⟩
  · rintro (⟨hsome, hno⟩ | ⟨h1, h2⟩)
    · obtain ⟨body, hbody⟩ := Option.isSome_iff_exists.mp hsome
      have hread : readBody mtu s = body := by
        rw [readBody, (readUnstuffFrom_of_some hbody).1 hno]
        have hle := hfit body hbody
        exact List.take_of_length_le (by omega)
      by_cases hs : s = []
      · subst hs
        cases hbody
        simp [readFrame, rfcFrame, hread]
      · simp [readFrame, rfcFrame, hs, hread, unstuff_ne_nil hs hbody, hbody]
    · rw [h1, h2]

/-! ## Streams -/

/-- The payload an event delivers. -/
def RxEvent.frame? : RxEvent → Option (List Byte)
  | .frame payload => some payload
  | .error _ => none

/-- The payloads given to `on_frame_read`. -/
def delivered (events : List RxEvent) : List (List Byte) := events.filterMap RxEvent.frame?

@[simp] theorem delivered_append (as bs : List RxEvent) :
    delivered (as ++ bs) = delivered as ++ delivered bs :=
  List.filterMap_append

theorem delivered_bodyEvent (c : HdlcCrc) (body : List Byte) :
    delivered [bodyEvent c body] = (checkBody c body).toOption.toList := by
  unfold bodyEvent
  split <;> simp_all [delivered, RxEvent.frame?, Except.toOption]

/-- The receiver with nothing of a frame read: behind a flag that opened a frame or
not. -/
def RxView.between (opened : Bool) : RxView := if opened then .data [] false else .start

/-- The bytes of a segment that was opened go to the body. -/
theorem view_segment {body : List Byte} {escape : Bool} {s : List Byte} (h : flagSequence ∉ s)
    (hb : body.length ≤ mtu.toNat) :
    (∃ escape', Transducer.after (viewStep c mtu) (.data body escape) s =
        .data ((body ++ readUnstuffFrom escape s).take mtu.toNat) escape') ∧
      Transducer.emits (viewStep c mtu) (.data body escape) s = [] := by
  induction s generalizing body escape with
  | nil =>
      refine ⟨⟨escape, ?_⟩, rfl⟩
      rw [readUnstuffFrom, List.append_nil, List.take_of_length_le hb, Transducer.after_nil]
  | cons b bs ih =>
      have hflag : b ≠ flagSequence := fun he => h (he ▸ List.mem_cons_self ..)
      have hbs : flagSequence ∉ bs := fun hm => h (List.mem_cons_of_mem _ hm)
      rw [Transducer.after_cons, Transducer.emits_cons]
      by_cases he : b = escapeChar
      · have hstep : viewStep c mtu (.data body escape) b = (.data body true, []) := by
          simp only [viewStep, if_neg hflag, if_pos he]
        rw [hstep, readUnstuffFrom, if_pos he]
        exact ih hbs hb
      · by_cases hroom : (body.length : Int) < mtu
        · obtain ⟨v, hv⟩ : ∃ v, (if escape then b ^^^ escapeBit else b) = v := ⟨_, rfl⟩
          have hstep : viewStep c mtu (.data body escape) b = (.data (body ++ [v]) false, []) := by
            simp only [viewStep, if_neg hflag, if_neg he, if_pos hroom, hv]
          have hb' : (body ++ [v]).length ≤ mtu.toNat := by
            rw [List.length_append, List.length_singleton]
            omega
          rw [hstep, readUnstuffFrom, if_neg he, hv]
          simpa using @ih (body ++ [v]) false hbs hb'
        · -- a full buffer keeps what it has
          have hstep : viewStep c mtu (.data body escape) b = (.data body escape, []) := by
            simp only [viewStep, if_neg hflag, if_neg he, if_neg hroom]
          have hfull (bs : List Byte) : (body ++ bs).take mtu.toNat = body := by
            rw [List.take_append_of_le_length (by omega), List.take_of_length_le hb]
          obtain ⟨⟨e, h1⟩, h2⟩ := @ih body escape hbs hb
          rw [hstep, hfull]
          rw [hfull] at h1
          exact ⟨⟨e, h1⟩, h2⟩

/-- The receiver on a segment and the flag behind it. -/
theorem view_between {s : List Byte} (h : flagSequence ∉ s) (opened : Bool) (w : List Byte) :
    delivered (Transducer.emits (viewStep c mtu) (.between opened) (s ++ flagSequence :: w)) =
      (if opened then readFrame c mtu s else none).toList ++
        delivered (Transducer.emits (viewStep c mtu)
          (.between (if opened then readBody mtu s = [] else true)) w) := by
  cases opened with
  | false =>
      obtain ⟨h1, h2⟩ := @view_noise c mtu _ h
      simp only [RxView.between, Bool.false_eq_true, if_false]
      rw [Transducer.emits_append, h1, h2, Transducer.emits_cons, viewStep_start_flag]
      rfl
  | true =>
      obtain ⟨⟨e, h1⟩, h2⟩ := @view_segment c mtu [] false _ h (Nat.zero_le _)
      have hread : (readUnstuffFrom false s).take mtu.toNat = readBody mtu s := rfl
      rw [List.nil_append, hread] at h1
      simp only [RxView.between, if_true]
      rw [Transducer.emits_append, h1, h2, Transducer.emits_cons, List.nil_append]
      by_cases hb : readBody mtu s = []
      · rw [hb, viewStep_data_empty]
        simp [readFrame, hb]
      · rw [viewStep_data_flag hb, delivered_append, delivered_bodyEvent]
        simp [readFrame, hb]

/-- Before the next flag nothing is delivered. -/
theorem view_between_quiet {s : List Byte} (h : flagSequence ∉ s) (opened : Bool) :
    Transducer.emits (viewStep c mtu) (.between opened) s = [] := by
  cases opened with
  | false => exact (view_noise h).2
  | true => exact (view_segment h (Nat.zero_le _)).2

/-- Behind a flag the receiver keeps up with the reference decoder exactly when the
segments agree. -/
theorem closed_iff (w : List Byte) :
    ∀ opened : Bool,
      (∀ s ∈ closed flagSequence w, ∀ body, unstuff s = some body → (body.length : Int) ≤ mtu) →
      ((∀ n, delivered (Transducer.emits (viewStep c mtu) (.between opened) (w.take n)) =
          (closed flagSequence (w.take n)).filterMap (rfcFrame c)) ↔
        Agrees c mtu opened (closed flagSequence w)) := by
  induction w using cut_induction flagSequence with
  | last w h =>
      intro opened _
      rw [closed_of_not_mem h]
      refine ⟨fun _ => by simp [Agrees], fun _ n => ?_⟩
      have hn : flagSequence ∉ w.take n := fun hm => h (List.mem_of_mem_take hm)
      rw [closed_of_not_mem hn, view_between_quiet hn]
      rfl
  | piece p w hp ih =>
      intro opened hfit
      rw [closed_append hp] at hfit ⊢
      obtain ⟨next, hnext⟩ : ∃ next : Bool,
          (if opened then decide (readBody mtu p = []) else true) = next := ⟨_, rfl⟩
      obtain ⟨out, hout⟩ : ∃ out, (if opened then readFrame c mtu p else none) = out := ⟨_, rfl⟩
      have ih := ih next fun s hm => hfit s (List.mem_cons_of_mem _ hm)
      have hagrees : Agrees c mtu opened (p :: closed flagSequence w) ↔
          out = rfcFrame c p ∧ Agrees c mtu next (closed flagSequence w) := by
        cases opened with
        | false =>
            subst hnext hout
            simp only [Agrees, Bool.false_eq_true, if_false]
            exact and_congr_left fun _ => eq_comm
        | true =>
            subst hnext hout
            simp only [Agrees, if_true]
            exact and_congr_left fun _ =>
              (readFrame_eq_iff (hfit p (List.mem_cons_self ..))).symm
      -- the prefixes that reach the flag behind `p`
      have hlong (m : Nat) :
          delivered (Transducer.emits (viewStep c mtu) (.between opened)
            ((p ++ flagSequence :: w).take (p.length + (m + 1)))) =
              out.toList ++ delivered (Transducer.emits (viewStep c mtu) (.between next) (w.take m)) ∧
          (closed flagSequence ((p ++ flagSequence :: w).take (p.length + (m + 1)))).filterMap
              (rfcFrame c) =
            (rfcFrame c p).toList ++ (closed flagSequence (w.take m)).filterMap (rfcFrame c) := by
        rw [List.take_length_add_append, List.take_succ_cons, view_between hp, closed_append hp,
          hout, hnext]
        refine ⟨rfl, ?_⟩
        cases h : rfcFrame c p <;> simp [h]
      rw [hagrees, ← ih]
      constructor
      · intro heq
        have hhead : out.toList = (rfcFrame c p).toList := by
          have h0 := heq (p.length + (0 + 1))
          rw [(hlong 0).1, (hlong 0).2, List.take_zero,
            closed_of_not_mem (List.not_mem_nil (a := flagSequence))] at h0
          simpa [delivered] using h0
        refine ⟨by simpa using congrArg List.head? hhead, fun m => ?_⟩
        have hm := heq (p.length + (m + 1))
        rw [(hlong m).1, (hlong m).2, hhead] at hm
        exact List.append_cancel_left hm
      · rintro ⟨hhead, htail⟩ n
        by_cases hn : n ≤ p.length
        · have hquiet : flagSequence ∉ (p ++ flagSequence :: w).take n := by
            rw [List.take_append_of_le_length hn]
            exact fun hm => hp (List.mem_of_mem_take hm)
          rw [view_between_quiet hquiet, closed_of_not_mem hquiet]
          rfl
        · obtain ⟨m, rfl⟩ : ∃ m, n = p.length + (m + 1) := ⟨n - p.length - 1, by omega⟩
          rw [(hlong m).1, (hlong m).2, htail m, hhead]

/-- The receiver gives, at every point of a stream and however the stream is cut,
the frames of the reference decoder exactly when the segments agree. -/
theorem rfc1662_iff {mem : π → Nat → Byte} {receiver : HdlcLl π} (hr : receiver.Reachable mem)
    (hstart : receiver.rx.state = .readStart) {stream : List Byte}
    (hfit : ∀ s ∈ segments stream, ∀ body, unstuff s = some body →
      (body.length : Int) ≤ receiver.physMtu) :
    (∀ chunks : List (List Byte), chunks.flatten <+: stream →
        delivered (Transducer.readBlocks onRxData receiver chunks).2 =
          rfc1662 receiver.crcType chunks.flatten) ↔
      Agrees receiver.crcType receiver.physMtu true (segments stream) := by
  have hread (chunks : List (List Byte)) :
      (Transducer.readBlocks onRxData receiver chunks).2 =
        Transducer.emits (viewStep receiver.crcType receiver.physMtu) (.between false)
          chunks.flatten := by
    obtain ⟨-, -, hev⟩ := (onRxData_implements hr.inv.stored).blocks hr.inv.rxIdle chunks
    rw [hev, view_readStart hstart]
    rfl
  -- a chunking of a prefix is a length
  have htake : (∀ chunks : List (List Byte), chunks.flatten <+: stream →
        delivered (Transducer.readBlocks onRxData receiver chunks).2 =
          rfc1662 receiver.crcType chunks.flatten) ↔
      ∀ n, delivered (Transducer.emits (viewStep receiver.crcType receiver.physMtu)
        (.between false) (stream.take n)) = rfc1662 receiver.crcType (stream.take n) := by
    constructor
    · intro h n
      have h1 := h [stream.take n] (by simpa using List.take_prefix n stream)
      rw [hread] at h1
      simpa using h1
    · intro h chunks hp
      rw [hread, List.prefix_iff_eq_take.mp hp]
      exact h _
  rw [htake]
  rcases cut flagSequence stream with h | ⟨p, w, hp, rfl⟩
  · rw [segments_of_not_mem h]
    refine ⟨fun _ => by simp [Agrees], fun _ n => ?_⟩
    have hn : flagSequence ∉ stream.take n := fun hm => h (List.mem_of_mem_take hm)
    rw [view_between_quiet hn, rfc1662, segments_of_not_mem hn]
    rfl
  · rw [segments_append hp] at hfit ⊢
    rw [← closed_iff w true hfit]
    have hlong (m : Nat) :
        delivered (Transducer.emits (viewStep receiver.crcType receiver.physMtu) (.between false)
          ((p ++ flagSequence :: w).take (p.length + (m + 1)))) =
            delivered (Transducer.emits (viewStep receiver.crcType receiver.physMtu)
              (.between true) (w.take m)) ∧
        rfc1662 receiver.crcType ((p ++ flagSequence :: w).take (p.length + (m + 1))) =
          (closed flagSequence (w.take m)).filterMap (rfcFrame receiver.crcType) := by
      rw [List.take_length_add_append, List.take_succ_cons, view_between hp, rfc1662,
        segments_append hp]
      exact ⟨rfl, rfl⟩
    constructor
    · intro h m
      rw [← (hlong m).1, ← (hlong m).2]
      exact h _
    · intro h n
      by_cases hn : n ≤ p.length
      · have hquiet : flagSequence ∉ (p ++ flagSequence :: w).take n := by
          rw [List.take_append_of_le_length hn]
          exact fun hm => hp (List.mem_of_mem_take hm)
        rw [view_between_quiet hquiet, rfc1662, segments_of_not_mem hquiet]
        rfl
      · obtain ⟨m, rfl⟩ : ∃ m, n = p.length + (m + 1) := ⟨n - p.length - 1, by omega⟩
        rw [(hlong m).1, (hlong m).2, h m]

/-- Two frames with a flag of their own on either side. -/
theorem rfc1662_iff_separate :
    (∀ chunks : List (List Byte),
        chunks.flatten <+: [0x7E, 0x55, 0x50, 0xF5, 0x7E, 0x7E, 0x56, 0xCB, 0xC7, 0x7E] →
        delivered (Transducer.readBlocks onRxData exampleHandle chunks).2 =
          rfc1662 .crc16 chunks.flatten) ↔
      Agrees .crc16 10 true [[0x55, 0x50, 0xF5], [], [0x56, 0xCB, 0xC7]] :=
  @rfc1662_iff _ bufferMem exampleHandle exampleHandle_reachable rfl _ (by decide +kernel)

/-- A flag between two frames: the reference decoder has both, the receiver only the
first. -/
theorem shared_flag_loses_frame :
    (∀ s ∈ segments [0x7E, 0x55, 0x50, 0xF5, 0x7E, 0x56, 0xCB, 0xC7, 0x7E],
        ∀ body, unstuff s = some body → (body.length : Int) ≤ exampleHandle.physMtu) ∧
      delivered (Transducer.readBlocks onRxData exampleHandle
        [[0x7E, 0x55, 0x50, 0xF5, 0x7E, 0x56, 0xCB, 0xC7, 0x7E]]).2 = [[0x55]] ∧
      rfc1662 exampleHandle.crcType [0x7E, 0x55, 0x50, 0xF5, 0x7E, 0x56, 0xCB, 0xC7, 0x7E] =
        [[0x55], [0x56]] := by
  decide +kernel

end TinyProto.Hdlc
