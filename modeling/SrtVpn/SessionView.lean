import SrtVpn.Encoder
import SrtVpn.Slots

namespace SrtVpn.SessionView

open BigEndian Tables Wire Encoder Decoder Slots

variable {α : Type}

def bySession (sid : UInt16) (f : Frame α) : Bool := f.sessionId == sid

def Sorted (d : MuxDecoder α) : Prop := ∀ key g, (slotAt d key).Stores g → g.sessionId = key.1

theorem sorted_new : Sorted (MuxDecoder.new : MuxDecoder α) := by
  intro key g h
  rcases h with ⟨st, k, hst, _⟩ | h
  · simp [slotAt, MuxDecoder.new] at hst
  · simp [slotAt, waitingOf, MuxDecoder.new] at h

theorem slotAt_new (key : UInt16 × Bool) :
    slotAt (MuxDecoder.new : MuxDecoder α) key = Slot.empty := by
  simp [slotAt, waitingOf, MuxDecoder.new, Slot.empty]

theorem slotAt_feedFrame (d : MuxDecoder α) (f : Frame α) :
    slotAt (feedFrame d f).2 f.key = ((slotAt d f.key).feed f).2 := by
  obtain ⟨_, hst, hw⟩ := feedFrame_eq_slot d f
  have hw' := hw f.key.1
  rw [if_pos (show f.key.1 = f.sessionId from rfl)] at hw'
  rw [slotAt, hst, if_pos rfl, hw']

theorem slotAt_feedFrame_ne (d : MuxDecoder α) (f : Frame α) (key : UInt16 × Bool)
    (h : f.sessionId ≠ key.1) : slotAt (feedFrame d f).2 key = slotAt d key := by
  obtain ⟨_, hst, hw⟩ := feedFrame_eq_slot d f
  have hkey : key ≠ f.key := fun hk => h (by rw [hk]; rfl)
  rw [slotAt, hst, if_neg hkey, hw, if_neg (Ne.symm h), slotAt]

theorem stores_feedFrame {d : MuxDecoder α} {f g : Frame α} {key : UInt16 × Bool}
    (h : (slotAt (feedFrame d f).2 key).Stores g) :
    (slotAt d key).Stores g ∨ (f.sessionId = key.1 ∧ (g = f ∨ (slotAt d f.key).Stores g)) := by
  obtain ⟨_, hst, hw⟩ := feedFrame_eq_slot d f
  have hfed := ((slotAt d f.key).feed_mem f g).2
  rcases h with ⟨st, k, hs, hk⟩ | h
  · simp only [slotAt, hst] at hs
    split at hs
    next hkey => exact Or.inr ⟨by rw [hkey]; rfl, hfed (Or.inl ⟨st, k, hs, hk⟩)⟩
    next => exact Or.inl (Or.inl ⟨st, k, hs, hk⟩)
  · simp only [slotAt, hw] at h
    split at h
    next hsid => exact Or.inr ⟨hsid.symm, hfed (Or.inr h)⟩
    next => exact Or.inl (Or.inr h)

theorem sorted_feedFrame {d : MuxDecoder α} (f : Frame α) (h : Sorted d) :
    Sorted (feedFrame d f).2 := by
  intro key g hg
  rcases stores_feedFrame hg with hg | ⟨hsid, rfl | hg⟩
  · exact h key g hg
  · exact hsid
  · rw [← hsid]
    exact h f.key g hg

theorem session_of_mem_feedFrame {d : MuxDecoder α} {f g : Frame α} (h : Sorted d)
    (hg : g ∈ (feedFrame d f).1) : g.sessionId = f.sessionId := by
  rw [(feedFrame_eq_slot d f).1] at hg
  rcases ((slotAt d f.key).feed_mem f g).1 hg with rfl | hg
  · rfl
  · exact h f.key g hg

theorem sorted_run (fs : List (Frame α)) {d : MuxDecoder α} (h : Sorted d) :
    Sorted (Transducer.run feedFrame d fs).2 :=
  Transducer.run_invariant Sorted fs (fun _ f _ => sorted_feedFrame f) d h

/-- A session whose frames all travel in one direction is, seen alone, its slot fed with its own
frames, whatever arrives for other sessions. -/
theorem run_session (sid : UInt16) (dir : Bool) (fs : List (Frame α))
    (hdir : ∀ f ∈ fs, f.sessionId = sid → f.dirAcceptor = dir) (d : MuxDecoder α) (hd : Sorted d) :
    (Transducer.run feedFrame d fs).1.flatten.filter (bySession sid) =
        (Transducer.run Slot.feed (slotAt d (sid, dir)) (fs.filter (bySession sid))).1.flatten ∧
      slotAt (Transducer.run feedFrame d fs).2 (sid, dir) =
        (Transducer.run Slot.feed (slotAt d (sid, dir)) (fs.filter (bySession sid))).2 := by
  refine Transducer.run_project feedFrame Slot.feed (slotAt · (sid, dir))
    (bySession sid) (bySession sid) (fun f => f.sessionId = sid → f.dirAcceptor = dir) Sorted
      (fun d f _ => sorted_feedFrame f)
    ?_ ?_ fs hdir d hd
  · intro d f hf h hmine
    obtain rfl : f.sessionId = sid := by simpa [bySession] using hmine
    have hkey : f.key = (f.sessionId, dir) := by simp [Frame.key, hf rfl]
    rw [← hkey, ← (feedFrame_eq_slot d f).1]
    refine ⟨List.filter_eq_self.mpr fun g hg => ?_, slotAt_feedFrame d f⟩
    simpa [bySession] using session_of_mem_feedFrame h hg
  · intro d f _ h hmine
    have hne : f.sessionId ≠ sid := by simpa [bySession] using hmine
    refine ⟨List.filter_eq_nil_iff.mpr fun g hg hsid => hne ?_, slotAt_feedFrame_ne d f _ hne⟩
    rw [← session_of_mem_feedFrame h hg]
    simpa [bySession] using hsid

def Sequenced (d : MuxDecoder α) : Prop :=
  ∀ key g, (slotAt d key).Stores g → g.sessionId = key.1 ∧ usesSessionOrder g.ftype = true

theorem sequenced_new : Sequenced (MuxDecoder.new : MuxDecoder α) := by
  intro key g h
  rw [slotAt_new] at h
  rcases h with ⟨st, k, hst, _⟩ | h
  · simp [Slot.empty] at hst
  · simp [Slot.empty] at h

theorem sequenced_feedFrame {d : MuxDecoder α} (f : Frame α) (h : Sequenced d) :
    Sequenced (feedFrame d f).2 := by
  cases hu : usesSessionOrder f.ftype with
  | false =>
      rw [feedFrame_unordered d hu]
      exact h
  | true =>
      intro key g hg
      rcases stores_feedFrame hg with hg | ⟨hsid, rfl | hg⟩
      · exact h key g hg
      · exact ⟨hsid, hu⟩
      · rw [← hsid]
        exact h f.key g hg

theorem ofSession_of_mem {d : MuxDecoder α} {f g : Frame α} (h : Sequenced d)
    (hu : usesSessionOrder f.ftype = true) (hg : g ∈ (feedFrame d f).1) :
    ofSession f.sessionId g = true := by
  rw [(feedFrame_eq_slot d f).1] at hg
  rcases ((slotAt d f.key).feed_mem f g).1 hg with rfl | hg
  · simp [ofSession, hu]
  · obtain ⟨hsid, hord⟩ := h f.key g hg
    simp [ofSession, hsid, hord, Frame.key]

theorem not_ofSession_of_mem {d : MuxDecoder α} {f g : Frame α} {sid : UInt16} (h : Sequenced d)
    (hf : ofSession sid f = false) (hg : g ∈ (feedFrame d f).1) : ofSession sid g = false := by
  cases hu : usesSessionOrder f.ftype with
  | false =>
      rw [feedFrame_unordered d hu] at hg
      rw [List.mem_singleton.mp hg]
      exact hf
  | true =>
      have hne : f.sessionId ≠ sid := by simpa [ofSession, hu] using hf
      have hown := ofSession_of_mem h hu hg
      simp only [ofSession, Bool.and_eq_true, beq_iff_eq] at hown
      simp [ofSession, hown.2, hne]

theorem run_ordered (sid : UInt16) (dir : Bool) (fs : List (Frame α))
    (hdir : ∀ f ∈ fs, ofSession sid f = true → f.dirAcceptor = dir) (d : MuxDecoder α)
    (hd : Sequenced d) :
    (Transducer.run feedFrame d fs).1.flatten.filter (ofSession sid) =
        (Transducer.run Slot.feed (slotAt d (sid, dir)) (fs.filter (ofSession sid))).1.flatten ∧
      slotAt (Transducer.run feedFrame d fs).2 (sid, dir) =
        (Transducer.run Slot.feed (slotAt d (sid, dir)) (fs.filter (ofSession sid))).2 := by
  apply Transducer.run_project feedFrame Slot.feed (slotAt · (sid, dir))
    (ofSession sid) (ofSession sid) (fun f => ofSession sid f = true → f.dirAcceptor = dir)
      Sequenced (fun d f _ => sequenced_feedFrame f)
    _ _ fs hdir d hd
  · intro d f hf h hmine
    obtain ⟨hu, rfl⟩ : usesSessionOrder f.ftype = true ∧ f.sessionId = sid := by
      simpa [ofSession] using hmine
    have hkey : f.key = (f.sessionId, dir) := by simp [Frame.key, hf hmine]
    rw [← hkey, ← (feedFrame_eq_slot d f).1]
    refine ⟨List.filter_eq_self.mpr fun g hg => ?_, slotAt_feedFrame d f⟩
    exact ofSession_of_mem h hu hg
  · intro d f _ h hmine
    constructor
    · rw [List.filter_eq_nil_iff]
      intro g hg
      simp [not_ofSession_of_mem h hmine hg]
    · cases hu : usesSessionOrder f.ftype with
      | false => rw [feedFrame_unordered d hu]
      | true => exact slotAt_feedFrame_ne d f _ (by simpa [ofSession, hu] using hmine)

end SrtVpn.SessionView
