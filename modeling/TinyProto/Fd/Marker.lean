import TinyProto.Fd.Connection
import TinyProto.Fd.Operations
import TinyProto.Fd.Outcomes

/-!
# The marker

In NRM a station may send while it has the marker.  It gets it with a frame that has P/F set,
and gives it away with the frame it completes, if that one has P/F set (`PassesOn`).  Nothing
else moves the marker, unless the primary station takes it back.
-/

set_option linter.unusedSectionVars false

namespace TinyProto.Fd

open Hdlc Runs

variable {W N : Nat} [NeZero W] [NeZero N] {h h₁ : Handle W N} {p : Fin N}

/-! ## Frames on the bus -/

/-- P/F of a frame. -/
def hasPollBit : List Byte → Bool
  | _ :: control :: _ => control &&& pBit != 0
  | _ => false

/-- A frame is for the station with this address field.  The primary station reads what all
others send. -/
def hears (address : Byte) (f : List Byte) : Bool :=
  isPrimaryAddress address || match f with
    | a :: _ => a &&& ~~~crBit == address
    | [] => false

theorem hears_of_found {a : Byte} {rest : List Byte} (hf : addressFieldToPeer h a = some p) :
    hears h.settings.addr (a :: rest) = true := by
  unfold hears
  rw [Bool.or_eq_true, beq_iff_eq]
  unfold addressFieldToPeer at hf
  dsimp only at hf
  split at hf
  · cases hf
  · split at hf
    · split at hf
      · next ha => exact .inr ha
      · cases hf
    · next hs =>
      refine .inl ?_
      have hsec : ¬h.isSecondaryStation = true := fun h' => hs (.inl h')
      unfold Handle.isSecondaryStation at hsec
      rwa [Bool.not_eq_true', Bool.not_eq_false] at hsec

theorem onFrameRead_unheard {f : List Byte} (hf : hears h.settings.addr f = false) :
    onFrameRead h f = h ∨ onFrameRead h f = h.emit (.frameIn f) := by
  have hread := onFrameRead_read h f
  generalize onFrameRead h f = k at hread
  cases hread with
  | unknown _ hk => exact hk
  | handled hs =>
    unfold sender at hs
    split at hs
    · obtain ⟨q, hq, -⟩ := Option.map_eq_some_iff.mp hs
      exact absurd (hf.symm.trans (hears_of_found hq)) Bool.false_ne_true
    · cases hs

/-- A frame brings the marker if it is for the station and has P/F set, or it is ignored. -/
theorem onFrameRead_marker (h : Handle W N) (f : List Byte) :
    (onFrameRead h f).events.txSending = h.events.txSending ∧
      ((onFrameRead h f).events.hasMarker = h.events.hasMarker ∨
        (onFrameRead h f).events.hasMarker =
          (h.events.hasMarker || hears h.settings.addr f && hasPollBit f)) := by
  unfold onFrameRead
  split
  · next address control payload =>
    dsimp only
    have hfound : addressFieldToPeer (h.emit (.frameIn (address :: control :: payload))) address =
        addressFieldToPeer h address := rfl
    rw [hfound]
    cases hp : addressFieldToPeer h address with
    | none => exact ⟨rfl, .inl rfl⟩
    | some p =>
      dsimp only
      have hworks := onPeerFrame_works
        (noteReceived (h.emit (.frameIn (address :: control :: payload))) p)
        p address control payload
      generalize onPeerFrame (noteReceived (h.emit (.frameIn (address :: control :: payload))) p) p
        address control payload = k at hworks
      have hset : k.settings = h.settings := hworks.settings
      have hsend : k.events.txSending = h.events.txSending := hworks.txSending
      have hmark : k.events.hasMarker = h.events.hasMarker := hworks.hasMarker
      unfold captureMarker
      rw [hset]
      split
      · next hpoll =>
        refine ⟨hsend, .inr ?_⟩
        have hpolls : hasPollBit (address :: control :: payload) = true := bne_iff_ne.mpr hpoll.2
        rw [hears_of_found hp, hpolls, Bool.true_and, Bool.or_true]
        rfl
      · exact ⟨hsend, .inl hmark⟩
  · exact ⟨rfl, .inl rfl⟩

/-! ## Histories -/

/-- Nothing is taken out of the history. -/
theorem operate_log {o : Op W N} (ho : Ordered h) (hd : Due h o) {e : Event N} (he : e ∈ h.log) :
    e ∈ (operate h o).log := by
  refine (operate_run ho hd).preserves (P := fun k => e ∈ k.log) (fun k a k' hk _ hs => ?_) he
  obtain ⟨es, hlog, -⟩ := hs.log
  rw [hlog]
  exact List.mem_append_left es hk

/-- The primary station took the marker back. -/
def TookBack (h : Handle W N) : Prop := h.isPrimaryStation = true ∧ Event.returnMarker ∈ h.log

instance tookBack_decidable : Decidable (TookBack h) := inferInstanceAs (Decidable (_ ∧ _))

theorem TookBack.operate {o : Op W N} (hb : TookBack h) (ho : Ordered h) (hd : Due h o) :
    TookBack (operate h o) := by
  refine ⟨?_, operate_log ho hd hb.2⟩
  unfold Handle.isPrimaryStation
  rw [operate_settings ho hd]
  exact hb.1

/-! ## A station -/

/-- An operation of `tiny_fd_get_tx_data`. -/
def Op.Transmits : Op W N → Prop
  | .check _ | .attempt _ | .run _ => True
  | _ => False

/-- A station in NRM, which has the marker while it sends. -/
structure Mannered (h : Handle W N) : Prop where
  ordered : Ordered h
  nrm : h.settings.mode = .nrm
  sending : h.events.txSending = true → h.events.hasMarker = true

/-- An operation that neither reads nor sends. -/
def Op.Aside : Op W N → Prop
  | .frame _ | .attempt _ | .run _ => False
  | _ => True

/-- Such an operation leaves the marker where it is. -/
theorem operate_marker {o : Op W N} (ho : o.Aside) :
    (operate h o).events.txSending = h.events.txSending ∧
      (operate h o).events.hasMarker = h.events.hasMarker := by
  cases o with
  | frame data => exact absurd ho id
  | attempt p => exact absurd ho id
  | run len => exact absurd ho id
  | check p =>
    have hworks := checkIdleTimeout_works h p
    exact ⟨hworks.txSending, hworks.hasMarker⟩
  | lowLevel => exact ⟨rfl, rfl⟩
  | sendPacketTo address data =>
    cases hp : addressFieldToPeer h (sendAddress h address) with
    | none =>
      have hsame : operate h (.sendPacketTo address data) = h := by
        show (sendPacketTo h address data).1 = h
        unfold sendPacketTo
        rw [hp]
      rw [hsame]
      exact ⟨rfl, rfl⟩
    | some p =>
      have hs := sendPacketTo_stores hp data
      exact ⟨hs.txSending, hs.hasMarker⟩
  | sendUiPacketTo address data =>
    obtain ⟨p, hworks⟩ := sendUiPacketTo_works h address data
    exact ⟨hworks.txSending, hworks.hasMarker⟩
  | disconnect =>
    have hworks := disconnect_works h
    exact ⟨hworks.txSending, hworks.hasMarker⟩
  | registerPeer address =>
    have hevents : (operate h (.registerPeer address)).events = h.events := by
      rcases registerPeer_cases h address with he | ⟨p, a, ts, -, -, -, he⟩
      · exact (congrArg Handle.events he).trans rfl
      · exact (congrArg Handle.events he).trans rfl
    rw [hevents]
    exact ⟨rfl, rfl⟩
  | setKaTimeout => exact ⟨rfl, rfl⟩
  | tick => exact ⟨rfl, rfl⟩

/-! ## Operations -/

/-- What an operation of the transmission does with the marker, and the frames it completes. -/
inductive Moves (h : Handle W N) : Op W N → Handle W N → List (List Byte) → Prop where
  | rests {o : Op W N} {k : Handle W N} (ht : k.events.txSending = true → h.events.txSending = true)
      (hm : k.events.hasMarker = h.events.hasMarker) : Moves h o k []
  /-- A frame is handed to the low level. -/
  | starts {o : Op W N} {k : Handle W N} (hh : h.events.hasMarker = true)
      (hm : k.events.hasMarker = true) : Moves h o k []
  /-- A frame is completed, and the marker goes with P/F. -/
  | completes {o : Op W N} {k : Handle W N} {f : List Byte} (hs : h.events.txSending = true)
      (ht : k.events.txSending = false)
      (hm : k.events.hasMarker = true → h.events.hasMarker = true ∧ hasPollBit f = false)
      (hf : f ≠ [] → hears h.settings.addr f = true) : Moves h o k [f]
  /-- The marker is taken back. -/
  | returns {o : Op W N} {k : Handle W N} (hback : TookBack k)
      (ht : k.events.txSending = h.events.txSending) (hm : k.events.hasMarker = true) :
      Moves h o k []

/-- The frames that an operation completes. -/
def completed (h : Handle W N) : Op W N → List (List Byte)
  | .run len => (runTx h len).2.2
  | _ => []

theorem onFrameSend_marker {r : SlotRef W} (hm : h.settings.mode = .nrm)
    (hr : Resolves h (h.slot r).address) :
    (onFrameSend h r).events.hasMarker =
      (h.events.hasMarker && ((h.slot r).control &&& pBit == 0)) := by
  unfold onFrameSend
  dsimp only
  split
  · next hnone => exact absurd hnone hr
  · obtain ⟨q, hq, -⟩ := freed_eq h r (h.slot r).control
    rw [hq]
    unfold releaseMarker
    split
    · next hpoll =>
      rw [beq_eq_false_iff_ne.mpr hpoll.2, Bool.and_false]
      rfl
    · next hpoll =>
      have hzero : (h.slot r).control &&& pBit = 0 := by_contra fun hne => hpoll ⟨hm, hne⟩
      rw [beq_iff_eq.mpr hzero, Bool.and_true]
      rfl

/-- The control field of the slot is the one that is sent. -/
theorem hasPollBit_mem {r : SlotRef W} {n : Nat}
    (hp : hasPollBit ((List.range n).map (h.mem r)) = true) : (h.slot r).control &&& pBit ≠ 0 := by
  match n, hp with
  | n + 2, hp =>
    have hlist : (List.range (n + 2)).map (h.mem r) =
        h.mem r 0 :: h.mem r 1 :: ((List.range n).map fun i => h.mem r (i + 2)) := by
      rw [List.range_succ_eq_map, List.range_succ_eq_map]
      simp
    rw [hlist] at hp
    exact bne_iff_ne.mp hp

theorem run_moves (hm : Mannered h) (ht : h.events.txSending = true) (len : Nat) :
    Moves h (.run len) (runTx h len).1 (runTx h len).2.2 := by
  have hi := hm.ordered.inStep
  have hran := runTx_ran hi len
  obtain ⟨k, hk⟩ : ∃ k, k = (runTx h len).1 := ⟨_, rfl⟩
  obtain ⟨bs, hbs⟩ : ∃ bs, bs = (runTx h len).2.1 := ⟨_, rfl⟩
  rw [← hk, ← hbs] at hran
  rw [← hk]
  cases hran with
  | filled hrun =>
    have hdone : (runTx h len).2.2 = [] := by
      unfold runTx
      rw [hrun]
      rfl
    rw [hdone]
    exact .rests id rfl
  | @completed ll _ r n hrun hod =>
    have hdone : (runTx h len).2.2 = [(List.range n).map (h.mem r)] := by
      unfold runTx
      rw [hrun]
      rfl
    have hr := hi.resolves_ll hod ll
    have hmark := onFrameSend_marker (h := { h with hdlc := ll }) hm.nrm hr
    rw [slot_ll] at hmark
    rw [hdone]
    refine .completes ht (onFrameSend_completes hr).txSending (fun hkept => ?_) fun hne => ?_
    · rw [hmark, Bool.and_eq_true, beq_iff_eq] at hkept
      exact ⟨hkept.1, Bool.eq_false_iff.mpr fun hp => hasPollBit_mem hp hkept.2⟩
    · match n, hne with
      | n + 1, _ =>
        obtain ⟨p, hp⟩ := Option.ne_none_iff_exists'.mp (hi.resolves r hod)
        rw [List.range_succ_eq_map, List.map_cons]
        exact hears_of_found hp

/-- Every operation of the transmission is one of these. -/
theorem operate_moves {o : Op W N} (hm : Mannered h) (hd : Due h o) (ho : o.Transmits) :
    Moves h o (operate h o) (completed h o) := by
  cases o with
  | check p =>
    have hworks := checkIdleTimeout_works h p
    exact .rests (fun ht => hworks.txSending.symm.trans ht) hworks.hasMarker
  | attempt p =>
    have htries := tryToSend_tries h p
    show Moves h _ (tryToSend h p).handle []
    generalize tryToSend h p = t at htries
    cases htries with
    | chosen hmark hprep => exact .starts hmark (hprep.hasMarker.trans hmark)
    | none _ hprep => exact .rests (fun ht => hprep.txSending.symm.trans ht) hprep.hasMarker
    | returned _ hprim =>
      exact .returns ⟨hprim, List.mem_append_right _ (List.mem_singleton_self _)⟩ rfl rfl
  | run len => exact run_moves hm hd len
  | _ => exact absurd ho id

theorem Mannered.aside {o : Op W N} (hm : Mannered h)
    (ht : (Fd.operate h o).events.txSending = true) (ho : o.Aside) :
    (Fd.operate h o).events.hasMarker = true := by
  obtain ⟨hsend, hmark⟩ := operate_marker (h := h) ho
  exact hmark.trans (hm.sending (hsend.symm.trans ht))

/-- A station keeps the marker while it sends, whatever comes in. -/
theorem Mannered.operate {o : Op W N} (hm : Mannered h) (hd : Due h o) :
    Mannered (operate h o) := by
  refine ⟨hm.ordered.operate hd, (congrArg Settings.mode (operate_settings hm.ordered hd)).trans hm.nrm,
    fun ht => ?_⟩
  cases o with
  | frame data =>
    obtain ⟨hsend, hmark⟩ := onFrameRead_marker h data
    have hheld := hm.sending (hsend.symm.trans ht)
    rcases hmark with hmark | hmark
    · exact hmark.trans hheld
    · exact hmark.trans (by rw [hheld, Bool.true_or])
  | attempt p =>
    have hmoves := operate_moves (o := .attempt p) hm hd trivial
    generalize Fd.operate h (.attempt p) = k at ht hmoves
    cases hmoves with
    | rests hback hmark => exact hmark.trans (hm.sending (hback ht))
    | starts _ hmark => exact hmark
    | returns _ _ hmark => exact hmark
  | run len =>
    have hmoves := operate_moves (o := .run len) hm hd trivial
    obtain ⟨fs, hfs⟩ : ∃ fs, fs = completed h (.run len) := ⟨_, rfl⟩
    rw [← hfs] at hmoves
    generalize Fd.operate h (.run len) = k at ht hmoves
    cases hmoves with
    | rests hback hmark => exact hmark.trans (hm.sending (hback ht))
    | starts _ hmark => exact hmark
    | completes _ hdone => exact absurd (hdone.symm.trans ht) Bool.false_ne_true
    | returns _ _ hmark => exact hmark
  | _ => exact hm.aside ht trivial

/-- A frame is begun with the marker only. -/
theorem Mannered.begins {o : Op W N} (hm : Mannered h) (hd : Due h o)
    (ht : h.events.txSending = false) (ht' : (Fd.operate h o).events.txSending = true) :
    h.events.hasMarker = true := by
  have hmoves : o.Transmits → h.events.hasMarker = true := fun ho => by
    have hmoves := operate_moves hm hd ho
    generalize Fd.operate h o = k at ht' hmoves
    generalize completed h o = fs at hmoves
    cases hmoves with
    | rests hback => exact absurd (ht.symm.trans (hback ht')) Bool.false_ne_true
    | starts hheld => exact hheld
    | completes _ hdone => exact absurd (hdone.symm.trans ht') Bool.false_ne_true
    | returns _ hsame => exact absurd (ht.symm.trans (hsame.symm.trans ht')) Bool.false_ne_true
  have hquiet : (Fd.operate h o).events.txSending ≠ h.events.txSending := fun hsame =>
    Bool.false_ne_true (ht.symm.trans (hsame.symm.trans ht'))
  have haside : o.Aside → h.events.hasMarker = true := fun ho =>
    absurd (operate_marker ho).1 hquiet
  cases o with
  | frame data => exact absurd (onFrameRead_marker h data).1 hquiet
  | attempt p => exact hmoves trivial
  | run len => exact hmoves trivial
  | _ => exact haside trivial

/-! ## A call -/

/-- What a station that had the marker or not may have sent meanwhile: the marker goes with
the last frame at most. -/
structure PassesOn (held : Bool) (fs : List (List Byte)) (h : Handle W N) : Prop where
  sends : fs ≠ [] → held = true
  keeps : h.events.hasMarker = true → held = true ∧ ∀ f ∈ fs, hasPollBit f = false
  last : fs.Pairwise fun f _ => hasPollBit f = false
  own : ∀ f ∈ fs, f ≠ [] → hears h.settings.addr f = true

theorem PassesOn.start (h : Handle W N) : PassesOn h.events.hasMarker [] h where
  sends hne := absurd rfl hne
  keeps hh := ⟨hh, fun _ hf => absurd hf List.not_mem_nil⟩
  last := .nil
  own _ hf := absurd hf List.not_mem_nil

theorem PassesOn.operate {held : Bool} {fs : List (List Byte)} {o : Op W N} (hh : PassesOn held fs h)
    (hm : Mannered h) (hd : Due h o) (ho : o.Transmits)
    (hret : ¬TookBack (operate h o)) :
    PassesOn held (fs ++ completed h o) (operate h o) := by
  have hmoves := operate_moves hm hd ho
  have hset := operate_settings hm.ordered hd
  have hown : ∀ f ∈ fs, f ≠ [] → hears (Fd.operate h o).settings.addr f = true := by
    rw [hset]
    exact hh.own
  generalize Fd.operate h o = k at hmoves hret hset hown
  generalize completed h o = new at hmoves
  cases hmoves with
  | rests _ hmark =>
    rw [List.append_nil]
    exact ⟨hh.sends, fun hk => hh.keeps (hmark.symm.trans hk), hh.last, hown⟩
  | starts hheld hmark =>
    rw [List.append_nil]
    exact ⟨hh.sends, fun _ => hh.keeps hheld, hh.last, hown⟩
  | @completes f hs _ hmark hf =>
    obtain ⟨hheld, hplain⟩ := hh.keeps (hm.sending hs)
    refine ⟨fun _ => hheld, fun hk => ⟨hheld, fun f' hf' => ?_⟩, ?_, fun f' hf' hne => ?_⟩
    · rcases List.mem_append.mp hf' with hf' | hf'
      · exact hplain f' hf'
      · rw [List.mem_singleton.mp hf']
        exact (hmark hk).2
    · rw [List.pairwise_append]
      exact ⟨hh.last, List.pairwise_singleton _ _, fun f' hf' _ _ => hplain f' hf'⟩
    · rcases List.mem_append.mp hf' with hf' | hf'
      · exact hown f' hf' hne
      · rw [hset]
        rw [List.mem_singleton.mp hf'] at hne ⊢
        exact hf hne
  | returns hback => exact absurd hback hret

theorem txLoop_sent (len : Nat) (p : Fin N) :
    ∀ (fuel : Nat) (again waitPointPassed : Bool) (h : Handle W N) (data : List Byte),
      (getTxDataLoop len p fuel again waitPointPassed h data).sent =
        (trace Fd.operate h (txOps len p fuel again waitPointPassed h data)).flatMap
          fun m => completed m.1 m.2
  | 0, _, _, _, _ => rfl
  | fuel + 1, again, waitPointPassed, h, data => by
    unfold getTxDataLoop txOps
    split
    · rfl
    · split
      · dsimp only
        rw [trace, List.flatMap_cons]
        split
        · exact (List.append_nil _).symm
        · exact congrArg _ (txLoop_sent len p fuel _ _ _ _)
      · split
        · rfl
        · dsimp only
          rw [trace, List.flatMap_cons]
          split
          · rfl
          · rw [trace, List.flatMap_cons]
            have htry : Fd.operate (Fd.operate h (.check p)) (.attempt p) =
                (tryToSend (checkIdleTimeout h p) p).handle := rfl
            rw [htry]
            cases tryToSend (checkIdleTimeout h p) p with
            | stop k => rfl
            | chosen k => exact txLoop_sent len p fuel _ _ _ _
            | nothing k =>
              dsimp only
              split
              · rfl
              · exact txLoop_sent len p fuel _ _ _ _

theorem txOps_transmit (len : Nat) (p : Fin N) :
    ∀ (fuel : Nat) (again waitPointPassed : Bool) (h : Handle W N) (data : List Byte),
      Runs.Allows Fd.operate (fun _ o => o.Transmits) h
        (txOps len p fuel again waitPointPassed h data)
  | 0, _, _, _, _ => trivial
  | fuel + 1, again, waitPointPassed, h, data => by
    unfold txOps
    split
    · trivial
    · split
      · refine ⟨trivial, ?_⟩
        split
        · trivial
        · exact txOps_transmit len p fuel _ _ _ _
      · split
        · trivial
        · refine ⟨trivial, ?_⟩
          split
          · trivial
          · refine ⟨trivial, ?_⟩
            have hrest : ∀ (k : Handle W N) (again : Bool),
                (tryToSend (checkIdleTimeout h p) p).handle = k →
                  Runs.Allows Fd.operate (fun _ o => o.Transmits) k
                    (txOps len p fuel again true k data) := by
              rintro k again rfl
              exact txOps_transmit len p fuel _ _ _ _
            show Runs.Allows _ _ (tryToSend (checkIdleTimeout h p) p).handle _
            cases hturn : tryToSend (checkIdleTimeout h p) p with
            | stop k => trivial
            | chosen k => exact hrest k again (by rw [hturn]; rfl)
            | nothing k =>
              dsimp only
              split
              · trivial
              · exact hrest k false (by rw [hturn]; rfl)

/-- What every operation preserves holds at every operation of a call and behind it. -/
theorem call_preserves {P : Handle W N → Prop} (ho : Ordered h) (c : Call)
    (hstep : ∀ k o, P k → Ordered k → Due k o → P (Fd.operate k o)) (hP : P h) :
    P (Fd.call h c) ∧
      ∀ m ∈ trace Fd.operate h (opsOf h c), P m.1 ∧ Due m.1 m.2 := by
  obtain ⟨hend, hall⟩ := (opsOf_inOrder ho c).whole (P := fun _ k => P k)
    (fun _ k o hk hg => hstep k o hk hg.1 hg.2) hP
  rw [← call_ops] at hend
  refine ⟨hend, fun m hm => ?_⟩
  obtain ⟨before, after, he⟩ := List.append_of_mem hm
  have hat := hall before m.1 m.2 after he
  exact ⟨hat.1, hat.2.2⟩

theorem Mannered.call (hm : Mannered h) (c : Call) : Mannered (Fd.call h c) :=
  (call_preserves hm.ordered c (fun _ _ hk _ hd => hk.operate hd) hm).1

/-- A frame is begun with the marker only, in any call. -/
theorem Mannered.call_begins (hm : Mannered h) (c : Call) {m : Handle W N × Op W N}
    (hmem : m ∈ trace Fd.operate h (opsOf h c)) (ht : m.1.events.txSending = false)
    (ht' : (Fd.operate m.1 m.2).events.txSending = true) : m.1.events.hasMarker = true := by
  have hat := (call_preserves hm.ordered c (fun _ _ hk _ hd => hk.operate hd) hm).2 m hmem
  exact hat.1.begins hat.2 ht ht'

theorem TookBack.call (hb : TookBack h) (ho : Ordered h) (c : Call) : TookBack (Fd.call h c) :=
  (call_preserves ho c (fun _ _ hk ho hd => hk.operate ho hd) hb).1

theorem call_settings (ho : Ordered h) (c : Call) : (Fd.call h c).settings = h.settings :=
  (call_preserves (P := fun k => k.settings = h.settings) ho c
    (fun _ _ hk ho hd => (operate_settings ho hd).trans hk) rfl).1

/-- A call of `tiny_fd_get_tx_data` hands the marker on properly, unless it takes it back. -/
theorem getTxData_passesOn (hm : Mannered h) (len : Nat)
    (hret : ¬TookBack (getTxData h len).h) :
    PassesOn h.events.hasMarker (getTxData h len).sent (getTxData h len).h := by
  have hallows := (opsOf_inOrder hm.ordered (.getTxData len)).and
    (txOps_transmit len h.nextPeer (2 * len + 3) true false h [])
  have hend := (hallows.whole
    (P := fun past k => Mannered k ∧ (TookBack k ∨
      PassesOn h.events.hasMarker (past.flatMap fun m => completed m.1 m.2) k))
    (fun past k o hP hg => ?_) ⟨hm, .inr (.start h)⟩).1.2
  · rw [← call_ops h (.getTxData len)] at hend
    have hsent : (getTxData h len).sent = _ := txLoop_sent len h.nextPeer _ _ _ h []
    rw [hsent]
    exact hend.resolve_left hret
  · obtain ⟨hmk, hP⟩ := hP
    obtain ⟨⟨hord, hd⟩, ho⟩ := hg
    refine ⟨hmk.operate hd, ?_⟩
    by_cases hback : TookBack (Fd.operate k o)
    · exact .inl hback
    · rcases hP with hearlier | hh
      · exact absurd (hearlier.operate hord hd) hback
      · rw [List.flatMap_append, List.flatMap_singleton]
        exact .inr (hh.operate hmk hd ho hback)

end TinyProto.Fd
