import TinyProto.Fd.Work

/-!
# Isolation of peers

All peers share the two queues, and the handlers find their slots by address.  With
different addresses the work for one peer leaves the others alone (`peer_isolation`).
-/

set_option linter.unusedSectionVars false

namespace TinyProto.Fd

variable {W N : Nat} [NeZero W] [NeZero N] {h h₁ : Handle W N} {p q : Fin N}

/-! ## What another peer sees -/

/-- The peer, and the slots that are taken with its address, are what they were. -/
structure Untroubled (q : Fin N) (h h' : Handle W N) : Prop where
  peer : h'.peers q = h.peers q
  iQueue : ∀ i, (h.iQueue.frames i).type ≠ .free →
    sameStation (h.iQueue.frames i).address (h.peers q).addr →
      h'.iQueue.frames i = h.iQueue.frames i
  sQueue : ∀ i, (h.sQueue.frames i).type ≠ .free →
    sameStation (h.sQueue.frames i).address (h.peers q).addr →
      h'.sQueue.frames i = h.sQueue.frames i

theorem WorksFor.untroubled (hw : WorksFor p h h₁) (hp : Live h p) (hq : Live h q)
    (hne : q ≠ p) : Untroubled q h h₁ where
  peer := hw.other q hne
  iQueue i _ hst := by
    rcases hw.iQueue i with hsame | ⟨hst', -⟩
    · exact hsame
    · -- A slot of both peers makes them one.
      have hboth : sameStation (peerToAddressField h q) (peerToAddressField h p) := by
        unfold peerToAddressField
        rw [sameStation_clear, sameStation_comm, sameStation_clear]
        rw [sameStation_comm] at hst'
        exact sameStation_trans hst' hst
      exact absurd (hq.eq_of_sameStation hp hboth) hne
  sQueue i hfull _ := by
    rcases hw.sQueue i with hsame | ⟨hfree, -⟩
    · exact hsame
    · exact absurd hfree hfull

theorem Stores.untroubled (hs : Stores p h h₁) (hne : q ≠ p) : Untroubled q h h₁ where
  peer := hs.other q hne
  iQueue j hfull _ := by
    rcases hs.iQueue with hsame | ⟨i, data, hi, hset⟩
    · rw [hsame]
    · have hfree := Queue.getNext_some hi
      rw [Slot.fits_free, beq_iff_eq] at hfree
      have hji : j ≠ i := by
        rintro rfl
        exact hfull hfree
      rw [hset, Queue.setFrame_ne _ hji]
  sQueue j _ _ := by rw [hs.sQueue]

/-! ## Isolation -/

/-- A frame from a peer and a payload for it leave every other registered peer alone. -/
theorem peer_isolation (hr : Reachable AnyFrame h)
    (hm : h.settings.mode = .nrm ∧ h.isPrimaryStation) (hne : q ≠ p)
    (hq : (h.peers q).addr ≠ invalidAddr) :
    (∀ address control payload, addressFieldToPeer h address = some p →
        Untroubled q h (onFrameRead h (address :: control :: payload))) ∧
      ∀ address data, addressFieldToPeer h (sendAddress h address) = some p →
        Untroubled q h (sendPacketTo h address data).1 := by
  have hw := hr.reaches.addressed
  have hmulti : Multi h := ⟨hm.2, by rw [hm.1]; nofun⟩
  have hlq : Live h q := hw.live_of_unique hq fun hnot => absurd hmulti hnot
  constructor
  · intro address control payload hp
    have hlp : Live h p := hw.live_of_found hp
    obtain ⟨k, hk⟩ : ∃ k, k = h.emit (.frameIn (address :: control :: payload)) := ⟨_, rfl⟩
    have hworks : WorksFor p h (onPeerFrame (noteReceived k p) p address control payload) := by
      rw [hk]
      exact ((WorksFor.emit h p rfl).trans (.setPeer _ p rfl)).trans (onPeerFrame_works _ p _ _ _)
    have hread : onFrameRead h (address :: control :: payload) =
        captureMarker (onPeerFrame (noteReceived k p) p address control payload) control := by
      have hfound : addressFieldToPeer k address = some p := by
        rw [hk]
        exact hp
      unfold onFrameRead
      dsimp only
      rw [← hk, hfound]
    rw [hread]
    unfold captureMarker
    split
    · exact { hworks.untroubled hlp hlq hne with }
    · exact hworks.untroubled hlp hlq hne
  · intro address data hp
    exact (sendPacketTo_stores hp data).untroubled hne

/-- Two peers of a primary. -/
def twoPeers : List Call := [.registerPeer 1, .registerPeer 2]

theorem peer_isolation_two :
    (∀ address control payload,
        addressFieldToPeer (twoPeers.foldl call (smallHandle 2 2 .nrm)) address = some 0 →
        Untroubled 1 (twoPeers.foldl call (smallHandle 2 2 .nrm))
          (onFrameRead (twoPeers.foldl call (smallHandle 2 2 .nrm))
            (address :: control :: payload))) ∧
      ∀ address data, addressFieldToPeer (twoPeers.foldl call (smallHandle 2 2 .nrm))
          (sendAddress (twoPeers.foldl call (smallHandle 2 2 .nrm)) address) = some 0 →
        Untroubled 1 (twoPeers.foldl call (smallHandle 2 2 .nrm))
          (sendPacketTo (twoPeers.foldl call (smallHandle 2 2 .nrm)) address data).1 :=
  peer_isolation ((smallHandle_reachable _ .nrm (by decide) (by decide)).calls (callsOk_any _ _))
    (by decide +kernel) (by decide) (by decide +kernel)

end TinyProto.Fd
