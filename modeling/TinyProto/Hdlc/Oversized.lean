import TinyProto.Hdlc.Rfc1662

/-!
# Frames that do not fit

A frame that unstuffs to more than `phys_mtu` bytes is read up to `phys_mtu` bytes, and
the rest of it is dropped.  `hdlc_ll_read_end` looks at what was read, which is never too
long, so `TINY_ERR_DATA_TOO_LARGE` is never reported (`oversized_rejected_iff`).  If the
first bytes have a right check field, they are delivered (`prefix_delivered`).
-/

namespace TinyProto.Hdlc

open Transducer

variable {π : Type} {c : HdlcCrc} {mtu : Int} {receiver : HdlcLl π} {stream : List Byte}

/-- Behind a flag that opened a frame. -/
def HdlcLl.Opened (h : HdlcLl π) : Prop :=
  h.rx.state = .readData ∧ h.rx.escape = false ∧ h.rx.ptr = h.rx.activeFrameBuf

instance openedDecidable (h : HdlcLl π) : Decidable h.Opened :=
  inferInstanceAs (Decidable (_ ∧ _ ∧ _))

/-- A frame in a stream: the chunks up to the flag that opens it, the chunks of its body,
and what comes behind the flag that closes it. -/
structure FrameIn (receiver : HdlcLl π) (stream : List Byte) where
  before : List (List Byte)
  inside : List (List Byte)
  rest : List Byte
  stream_eq : stream = before.flatten ++ inside.flatten ++ flagSequence :: rest
  opening : before.flatten.getLast? = some flagSequence
  opened : (readBlocks onRxData receiver before).1.Opened
  body : flagSequence ∉ inside.flatten

/-- What is reported at the flag that closes the frame. -/
def FrameIn.report (f : FrameIn receiver stream) : List RxEvent :=
  (onRxData (readBlocks onRxData (readBlocks onRxData receiver f.before).1 f.inside).1
    [flagSequence]).2

/-- The frame unstuffs to more than `phys_mtu` bytes. -/
def FrameIn.Oversized (f : FrameIn receiver stream) : Prop :=
  ∃ body, unstuff f.inside.flatten = some body ∧ receiver.physMtu < body.length

theorem view_opened {h : HdlcLl π} (ho : h.Opened) : h.view = .data [] false := by
  obtain ⟨hs, he, hp⟩ := ho
  rw [view_readData hs, he]
  simp [HdlcLl.body, hp, HdlcLl.rxBytes]

/-- At the closing flag the receiver judges the bytes it has read. -/
theorem FrameIn.report_eq {mem : π → Nat → Byte} (hr : receiver.Reachable mem)
    (f : FrameIn receiver stream) :
    f.report =
      if readBody receiver.physMtu f.inside.flatten = [] then []
      else [bodyEvent receiver.crcType (readBody receiver.physMtu f.inside.flatten)] := by
  have himpl := @onRxData_implements π receiver.crcType receiver.physMtu hr.inv.stored
  obtain ⟨hi, -, -⟩ := himpl.blocks hr.inv.rxIdle f.before
  obtain ⟨hj, hv, -⟩ := himpl.blocks hi f.inside
  obtain ⟨⟨e, hafter⟩, -⟩ := @view_segment receiver.crcType receiver.physMtu [] false _ f.body
    (Nat.zero_le _)
  rw [view_opened f.opened, hafter, List.nil_append] at hv
  unfold FrameIn.report
  rw [himpl.output _ _ hj, hv, emits_cons, emits_nil, List.append_nil]
  show (viewStep _ _ (.data (readBody _ _) e) flagSequence).2 = _
  by_cases hb : readBody receiver.physMtu f.inside.flatten = []
  · rw [hb, viewStep_data_empty, if_pos rfl]
  · rw [viewStep_data_flag hb, if_neg hb]

/-- A frame judged by its bytes is not called too long. -/
theorem bodyEvent_ne_tooLarge (c : HdlcCrc) (body : List Byte) :
    bodyEvent c body ≠ .error .dataTooLarge := by
  unfold bodyEvent checkBody
  dsimp only
  split
  · next heq =>
    split at heq
    · cases heq
    · split at heq
      · nofun
      · cases heq
  · next heq =>
    split at heq
    · cases heq
      nofun
    · split at heq
      · cases heq
      · cases heq
        nofun

/-- A frame is rejected if it is oversized, exactly when it is not. -/
theorem oversized_rejected_iff {mem : π → Nat → Byte} (hr : receiver.Reachable mem)
    (f : FrameIn receiver stream) :
    (f.Oversized → f.report = [.error .dataTooLarge]) ↔ ¬f.Oversized := by
  constructor
  · intro hrej hf
    have hrep := hrej hf
    rw [f.report_eq hr] at hrep
    split at hrep
    · cases hrep
    · exact bodyEvent_ne_tooLarge _ _ (List.cons.inj hrep).1
  · intro hnot hf
    exact absurd hf hnot

/-- A frame of eight bytes with its check field, and a byte more. -/
def longFrame : FrameIn exampleHandle [0x7E, 1, 2, 3, 4, 5, 6, 7, 8, 0xD4, 0x6D, 0xAA, 0x7E] where
  before := [[0x7E]]
  inside := [[1, 2, 3, 4, 5, 6, 7, 8], [0xD4, 0x6D, 0xAA]]
  rest := []
  stream_eq := rfl
  opening := rfl
  opened := by decide +kernel
  body := by decide

theorem oversized_rejected_iff_long :
    (longFrame.Oversized → longFrame.report = [.error .dataTooLarge]) ↔ ¬longFrame.Oversized :=
  oversized_rejected_iff (@exampleHandle_reachable bufferMem) longFrame

/-- Eleven bytes come, ten are read, and the eight before the check field are delivered. -/
theorem long_frame_delivered :
    longFrame.Oversized ∧ longFrame.report = [.frame [1, 2, 3, 4, 5, 6, 7, 8]] := by
  refine ⟨⟨[1, 2, 3, 4, 5, 6, 7, 8, 0xD4, 0x6D, 0xAA], by decide +kernel, by decide⟩, ?_⟩
  decide +kernel

/-- A frame delivered for an oversized one is made of its first bytes.  It is delivered
whenever these have a right check field. -/
theorem prefix_delivered {mem : π → Nat → Byte} (hr : receiver.Reachable mem)
    (f : FrameIn receiver stream) {body payload : List Byte}
    (hbody : unstuff f.inside.flatten = some body) (hesc : ¬EscapedEscape false f.inside.flatten)
    (hne : f.inside.flatten ≠ []) (hmtu : 0 < receiver.physMtu) :
    f.report = [.frame payload] ↔
      checkBody receiver.crcType (body.take receiver.physMtu.toNat) = .ok payload := by
  have hread : readBody receiver.physMtu f.inside.flatten = body.take receiver.physMtu.toNat := by
    unfold readBody
    rw [(readUnstuffFrom_of_some hbody).1 hesc]
  have hsome : body.take receiver.physMtu.toNat ≠ [] := by
    intro htake
    rcases List.take_eq_nil_iff.mp htake with hz | hz
    · omega
    · exact unstuff_ne_nil hne hbody hz
  rw [f.report_eq hr, hread, if_neg hsome]
  unfold bodyEvent
  cases hcheck : checkBody receiver.crcType (body.take receiver.physMtu.toNat) with
  | error status => simp
  | ok other => simp

end TinyProto.Hdlc
