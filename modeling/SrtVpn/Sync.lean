import SrtVpn.SeqNumbers
import SrtVpn.SessionView

namespace SrtVpn.Sync

open Tables Wire Encoder SeqNumbers Decoder Slots SessionView

variable {α : Type}

/-- The slot a decoder has for a session after it received all of an encoder's frames in order. -/
def expected (tx : SidTx) : Slot α :=
  if tx.epoch = 0 then Slot.empty else ⟨some ⟨tx.epoch, tx.seq, ∅⟩, []⟩

/-- The decoder stands, in every session of the opener direction, where the encoder stands. -/
def InSync (enc : MuxEncoder) (d : MuxDecoder α) : Prop :=
  ∀ sid, slotAt d (sid, false) = expected (sidTx enc sid)

theorem inSync_new (reliable : Bool) :
    InSync (MuxEncoder.new reliable) (MuxDecoder.new : MuxDecoder α) := by
  intro sid
  rw [slotAt_new]
  simp [expected, sidTx, MuxEncoder.new]

theorem flushReady_empty (epoch : UInt8) (next : Nat) (out : List (Frame α)) :
    flushReady ⟨epoch, next, ∅⟩ out = (⟨epoch, next, ∅⟩, out) := rfl

theorem generation_eq_of_seq_ne_zero {enc : MuxEncoder} {ftype : FrameType} {sid : UInt16}
    (h : (generation enc ftype sid).1.seq ≠ 0) :
    (generation enc ftype sid).1 = sidTx enc sid ∧ (sidTx enc sid).epoch ≠ 0 := by
  rcases generation_cases enc ftype sid with ⟨hgen, -⟩ | ⟨hgen, he, -, -⟩
  · rw [hgen] at h
    exact absurd rfl h
  · exact ⟨hgen, he⟩

theorem expected_feed {enc : MuxEncoder} {c : Call α} (hu : usesSessionOrder c.ftype = true)
    (hz : (stamp enc c).1.sseq = 0 → c.ftype = .open) :
    (expected (sidTx enc c.sessionId)).feed (stamp enc c).1 =
      ([(stamp enc c).1], expected (sidTx (stamp enc c).2 c.sessionId)) := by
  have hlt := generation_seq_lt enc c.ftype c.sessionId
  rw [toNat_seqMask] at hlt
  have hlt' : (generation enc c.ftype c.sessionId).1.seq < 2 ^ 24 := by omega
  have hne := generation_epoch_ne_zero enc c.ftype c.sessionId
  rw [sidTx_stamp, if_pos (Call.ofSession_iff.mpr ⟨hu, rfl⟩)]
  rw [stamp_of_session enc c hu] at hz ⊢
  have hepoch := epoch_numbered enc (generation enc c.ftype c.sessionId).1 c hlt'
  have hsseq := sseq_numbered enc (generation enc c.ftype c.sessionId).1 c hlt'
  rw [hsseq] at hz
  generalize hf : numbered enc (generation enc c.ftype c.sessionId).1 c = f at hepoch hsseq ⊢
  have hft : f.ftype = c.ftype := by rw [← hf]; rfl
  by_cases ho : c.ftype = .open
  · have hseq : (generation enc c.ftype c.sessionId).1.seq = 0 := by simp [generation, ho]
    have hwait : (expected (sidTx enc c.sessionId) : Slot α).waiting = [] := by
      rw [expected]
      split <;> rfl
    have hbase : baseline f = ⟨(generation enc c.ftype c.sessionId).1.epoch, 1, ∅⟩ := by
      rw [baseline, hepoch, hsseq, hseq]
    have hfeed : (expected (sidTx enc c.sessionId)).feed f =
        ((flushReady (mergeWaiting (baseline f) []).1 [f]).2,
          ⟨some (flushReady (mergeWaiting (baseline f) []).1 [f]).1, []⟩) := by
      have he : f.epoch ≠ 0 := by rw [hepoch]; exact hne
      simp [Slot.feed, hft.trans ho, he, hwait, usesSessionOrder]
    rw [hfeed, mergeWaiting, hbase, flushReady_empty, hseq, expected, if_neg hne]
  · obtain ⟨hgen, htx⟩ := generation_eq_of_seq_ne_zero fun h => ho (hz h)
    rw [hgen] at hepoch hsseq ⊢
    rw [expected, if_neg htx, expected, if_neg htx]
    simp [Slot.feed, hft, hu, ho, hepoch, hsseq, htx, flushReady_empty]

theorem inSync_step {enc : MuxEncoder} {d : MuxDecoder α} {c : Call α} (h : InSync enc d)
    (hdir : (stamp enc c).1.dirAcceptor = false)
    (hz : usesSessionOrder c.ftype = true → (stamp enc c).1.sseq = 0 → c.ftype = .open) :
    (feedFrame d (stamp enc c).1).1 = [(stamp enc c).1] ∧
      InSync (stamp enc c).2 (feedFrame d (stamp enc c).1).2 := by
  have hsid : (stamp enc c).1.sessionId = c.sessionId := rfl
  have hft : (stamp enc c).1.ftype = c.ftype := rfl
  by_cases hu : usesSessionOrder c.ftype = false
  · rw [feedFrame_unordered d hu]
    refine ⟨rfl, fun sid => ?_⟩
    rw [sidTx_stamp, if_neg (by simp [Call.ofSession, hu]), h sid]
  · have hu' := (Bool.not_eq_false _).mp hu
    have hkey : (stamp enc c).1.key = (c.sessionId, false) := Prod.ext hsid hdir
    have hslot := expected_feed hu' (hz hu')
    refine ⟨?_, fun sid => ?_⟩
    · rw [(feedFrame_eq_slot d _).1, hkey, h c.sessionId, hslot]
    · by_cases hs : c.sessionId = sid
      · subst hs
        have hfed := slotAt_feedFrame d (stamp enc c).1
        rw [hkey, h c.sessionId, hslot] at hfed
        exact hfed
      · rw [slotAt_feedFrame_ne d _ (sid, false) hs, sidTx_stamp,
          if_neg (by simp [Call.ofSession, hs]), h sid]

/-- An encoder's frames, received in order, are all returned at once if every generation they start
starts with an Open. -/
theorem inSync_run (cs : List (Call α)) {enc : MuxEncoder} {d : MuxDecoder α} (h : InSync enc d)
    (hdir : ∀ f ∈ (stampAll enc cs).1, f.dirAcceptor = false)
    (hz : ∀ f ∈ (stampAll enc cs).1, usesSessionOrder f.ftype = true → f.sseq = 0 →
      f.ftype = .open) :
    (Transducer.run feedFrame d (stampAll enc cs).1).1.flatten = (stampAll enc cs).1 ∧
      InSync (stampAll enc cs).2 (Transducer.run feedFrame d (stampAll enc cs).1).2 := by
  induction cs generalizing enc d with
  | nil => exact ⟨rfl, h⟩
  | cons c cs ih =>
      rw [stampAll_cons] at hdir hz ⊢
      obtain ⟨hdc, hdcs⟩ := List.forall_mem_cons.mp hdir
      obtain ⟨hzc, hzcs⟩ := List.forall_mem_cons.mp hz
      obtain ⟨hout, hsync⟩ := inSync_step h hdc hzc
      obtain ⟨hrest, hend⟩ := ih hsync hdcs hzcs
      rw [Transducer.run_cons]
      refine ⟨?_, hend⟩
      rw [List.flatten_cons, hrest, hout]
      rfl

end SrtVpn.Sync
