import SrtVpn.Conservation
import SrtVpn.Runs

namespace SrtVpn.Diagnostics

open BigEndian Tables Wire Encoder Decoder Slots SessionView Conservation

def sessionFrame (f : Frame Bytes) : Bool := usesSessionOrder f.ftype

def framesOf (msgs : List Bytes) : List (Frame Bytes) := msgs.filterMap decodeFrame

/-- The message puts nothing in the place of a frame that is kept. -/
def SparesMessage (d : MuxDecoder Bytes) (m : Bytes) : Prop :=
  ∀ f ∈ decodeFrame m, Spares (slotAt d f.key) f

section Steps

variable {d : MuxDecoder Bytes} {m : Bytes}

@[simp] theorem heldFrames_countRx (d : MuxDecoder Bytes) :
    heldFrames (countRx d) = heldFrames d := rfl

theorem framesOf_snoc (msgs : List Bytes) (m : Bytes) :
    framesOf (msgs ++ [m]) = framesOf msgs ++ (decodeFrame m).toList := by
  rw [framesOf, List.filterMap_append]
  cases h : decodeFrame m with
  | none => simp [framesOf, h]
  | some f => simp [framesOf, h]

theorem feed_conserves (hd : ∀ g ∈ heldFrames d, sessionFrame g = true) :
    ∃ lost, ((decodeFrame m).toList ++ heldFrames d).Perm
      ((feed d m).1 ++ heldFrames (feed d m).2 ++ lost) ∧
      (∀ g ∈ heldFrames (feed d m).2 ++ lost, sessionFrame g = true) ∧
      d.staleDropped ≤ (feed d m).2.staleDropped ∧
      ((feed d m).2.staleDropped = d.staleDropped → (lost = [] ↔ SparesMessage d m)) := by
  cases hm : decodeFrame m with
  | none =>
      rw [feed_of_decode_none hm]
      refine ⟨[], ?_, ?_, Nat.le_refl _, ?_⟩
      · simp
      · simpa using hd
      · simp [SparesMessage, hm]
  | some f =>
      obtain ⟨lost, hperm, hcount, hiff⟩ := feedFrame_conserves (countRx d) f
      have hstale := staleDropped_feedFrame (countRx d) f
      rw [heldFrames_countRx] at hperm
      rw [feed_of_decode hm]
      refine ⟨lost, hperm, ?_, ?_, fun hsame => ?_⟩
      · cases hu : usesSessionOrder f.ftype with
        | false =>
            have hlen := hperm.length_eq
            rw [feedFrame_unordered _ hu] at hlen ⊢
            simp only [List.length_append, List.length_cons, List.length_nil,
              heldFrames_countRx] at hlen
            obtain rfl : lost = [] := List.length_eq_zero_iff.mp (by omega)
            simpa using hd
        | true =>
            intro g hg
            have hmem : g ∈ f :: heldFrames d := by
              apply hperm.symm.subset
              rw [List.append_assoc]
              exact List.mem_append_right _ hg
            rcases List.mem_cons.mp hmem with rfl | hmem
            · exact hu
            · exact hd g hmem
      · rw [hstale]
        exact Nat.le_add_right _ _
      · have hzero : counted (slotAt (countRx d) f.key) f = 0 := by
          have hsame' : (countRx d).staleDropped + counted (slotAt (countRx d) f.key) f =
              (countRx d).staleDropped :=
            hstale.symm.trans hsame
          omega
        rw [hiff hzero, SparesMessage, hm]
        simp only [Option.mem_def, Option.some.injEq, forall_eq']
        rfl

end Steps

/-- Conservation for a run: what was fed has been returned, is kept or is lost; and as long as
nothing is counted as dropped, nothing is lost exactly if every step spares what is kept. -/
theorem feedAll_conserves (msgs : List Bytes) :
    ∃ lost, (framesOf msgs).Perm
      ((feedAll MuxDecoder.new msgs).1 ++ heldFrames (feedAll MuxDecoder.new msgs).2 ++ lost) ∧
      (∀ g ∈ heldFrames (feedAll MuxDecoder.new msgs).2 ++ lost, sessionFrame g = true) ∧
      ((feedAll MuxDecoder.new msgs).2.staleDropped = 0 →
        (lost = [] ↔ ∀ past m, past ++ [m] <+: msgs →
          SparesMessage (feedAll MuxDecoder.new past).2 m)) := by
  classical
  induction msgs using List.reverseRecOn with
  | nil => exact ⟨[], List.Perm.refl _, by simp [feedAll, heldFrames, MuxDecoder.new], by simp⟩
  | append_singleton msgs m ih =>
      obtain ⟨lost, hperm, hsession, hiff⟩ := ih
      obtain ⟨lost', hperm', hsession', hle, hiff'⟩ := feed_conserves (m := m)
        fun g hg => hsession g (List.mem_append_left _ hg)
      rw [feedAll_snoc]
      refine ⟨lost ++ lost', ?_, ?_, fun hzero => ?_⟩
      · rw [framesOf_snoc]
        rw [List.perm_iff_count] at hperm hperm' ⊢
        intro g
        have hg := hperm g
        have hg' := hperm' g
        simp only [List.count_append] at hg hg' ⊢
        omega
      · intro g hg
        rcases List.mem_append.mp hg with hg | hg
        · exact hsession' g (List.mem_append_left _ hg)
        · rcases List.mem_append.mp hg with hg | hg
          · exact hsession g (List.mem_append_right _ hg)
          · exact hsession' g (List.mem_append_right _ hg)
      · have hbefore : (feedAll MuxDecoder.new msgs).2.staleDropped = 0 := by
          simp only at hzero
          omega
        rw [List.append_eq_nil_iff, hiff hbefore, hiff' (hzero.trans hbefore.symm)]
        constructor
        · rintro ⟨hall, hlast⟩ past m' hpre
          rcases Runs.concat_prefix_concat.mp hpre with ⟨rfl, rfl⟩ | hpre
          · exact hlast
          · exact hall past m' hpre
        · intro hall
          exact ⟨fun past m' hpre => hall past m' (hpre.trans (List.prefix_append msgs [m])),
            hall msgs m (List.prefix_refl _)⟩

/-- When nothing is counted as dropped and nothing is kept, every session frame fed has been
returned exactly once, provided that no step put something in the place of a frame that was kept,
and only then. -/
theorem diagnostics_sound_iff (msgs : List Bytes)
    (hstale : (feedAll MuxDecoder.new msgs).2.staleDropped = 0)
    (hbuffered : bufferedFrames (feedAll MuxDecoder.new msgs).2 = 0) :
    ((feedAll MuxDecoder.new msgs).1.filter sessionFrame).Perm
      ((framesOf msgs).filter sessionFrame) ↔
      ∀ past m, past ++ [m] <+: msgs → SparesMessage (feedAll MuxDecoder.new past).2 m := by
  obtain ⟨lost, hperm, hsession, hiff⟩ := feedAll_conserves msgs
  have hheld : heldFrames (feedAll MuxDecoder.new msgs).2 = [] := by
    rw [← List.length_eq_zero_iff, length_heldFrames, hbuffered]
  have hlost : lost.filter sessionFrame = lost :=
    List.filter_eq_self.mpr fun g hg => hsession g (List.mem_append_right _ hg)
  have hfilter := hperm.filter sessionFrame
  rw [hheld, List.append_nil, List.filter_append, hlost] at hfilter
  rw [← hiff hstale]
  constructor
  · intro h
    have hlen := h.length_eq
    rw [hfilter.length_eq, List.length_append] at hlen
    exact List.length_eq_zero_iff.mp (by omega)
  · rintro rfl
    simpa using hfilter.symm

section Sample

def reopening : List (Call Bytes) :=
  [⟨.open, 1, 0, [1]⟩, ⟨.data, 1, 0, [2]⟩, ⟨.data, 1, 0, [3]⟩, ⟨.open, 1, 0, [4]⟩]

def reopeningMsgs : List Bytes := (stampAll (MuxEncoder.new true) reopening).1.map frameBytes

theorem diagnostics_sound_swapped :
    let fed := [reopeningMsgs.getD 0 [], reopeningMsgs.getD 2 [], reopeningMsgs.getD 1 [],
      reopeningMsgs.getD 3 []]
    ∀ past m, past ++ [m] <+: fed → SparesMessage (feedAll MuxDecoder.new past).2 m := by
  intro fed
  exact (diagnostics_sound_iff fed (by decide +kernel) (by decide +kernel)).mp (by decide +kernel)

/-- The second Open wipes out the frame that waits for a lost one, and neither counter shows it. -/
theorem reopening_hides_loss :
    let fed := [reopeningMsgs.getD 0 [], reopeningMsgs.getD 2 [], reopeningMsgs.getD 3 []]
    (encodeAll (MuxEncoder.new true) reopening).map Prod.fst = some reopeningMsgs ∧
      fed.Sublist reopeningMsgs ∧
      (feedAll MuxDecoder.new fed).2.staleDropped = 0 ∧
      bufferedFrames (feedAll MuxDecoder.new fed).2 = 0 ∧
      (framesOf fed).map Frame.payload = [[1], [3], [4]] ∧ (framesOf fed).all sessionFrame ∧
      (feedAll MuxDecoder.new fed).1.map Frame.payload = [[1], [4]] ∧
      ¬ ((feedAll MuxDecoder.new fed).1.filter sessionFrame).Perm
        ((framesOf fed).filter sessionFrame) := by
  intro fed
  decide +kernel

end Sample

end SrtVpn.Diagnostics
