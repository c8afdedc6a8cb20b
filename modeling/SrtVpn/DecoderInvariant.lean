import SrtVpn.Conservation

namespace SrtVpn.DecoderInvariant

open BigEndian Tables Wire Decoder Slots SessionView Conservation

variable {α : Type}

structure KeptAt (sid : UInt16) (epoch : UInt8) (k : Nat) (g : Frame α) : Prop where
  session : g.sessionId = sid
  epoch : g.epoch = epoch
  number : g.sseq = k

/-- What is kept lies from `first` on, which is the next number before the buffer is flushed, and
the one after it from then on. -/
structure Kept (sid : UInt16) (st : SidReorder α) (first : Nat) : Prop where
  next_pos : 1 ≤ st.next
  next_le : st.next ≤ 2 ^ 24
  buffered : st.buffered ≤ reorderMax
  kept : ∀ k g, find st.buf k = some g → KeptAt sid st.epoch k g ∧ first ≤ k

def StateOk (sid : UInt16) (st : SidReorder α) : Prop := Kept sid st (st.next + 1)

structure Early (sid : UInt16) (g : Frame α) : Prop where
  ftype : g.ftype = .data ∨ g.ftype = .fin ∨ g.ftype = .close
  session : g.sessionId = sid
  opener : g.dirAcceptor = false
  epoch : g.epoch ≠ 0

structure WaitingOk (sid : UInt16) (waiting : List (Frame α)) : Prop where
  length : waiting.length ≤ preopenMax
  early : ∀ g ∈ waiting, Early sid g

structure SlotOk (sid : UInt16) (s : Slot α) : Prop where
  state : ∀ st, s.state = some st → StateOk sid st
  waiting : WaitingOk sid s.waiting

section Flush

variable {sid : UInt16} {st : SidReorder α} {out : List (Frame α)} {f : Frame α}

theorem Kept.pop (h : Kept sid st st.next) (hf : find st.buf st.next = some f) :
    st.next < 2 ^ 24 ∧ Kept sid { st with next := st.next + 1, buf := st.buf.erase st.next }
      (st.next + 1) := by
  have hnumber := (h.kept st.next f hf).1.number
  have hlt : st.next < 2 ^ 24 := hnumber ▸ sseq_lt f
  have hsize := size_erase hf
  refine ⟨hlt, Nat.le_add_left 1 _, hlt,
    Nat.le_trans (Nat.le_of_succ_le (Nat.le_of_eq hsize)) h.buffered, ?_⟩
  intro k g hk
  rw [find_erase] at hk
  split at hk
  · cases hk
  next hne =>
    obtain ⟨hat, hle⟩ := h.kept k g hk
    exact ⟨hat, Nat.lt_of_le_of_ne hle (Ne.symm hne)⟩

theorem Kept.flushLoop (fuel : Nat) (h : Kept sid st st.next) (out : List (Frame α)) :
    Kept sid (flushLoop fuel st out).1 (flushLoop fuel st out).1.next := by
  induction fuel generalizing st out with
  | zero => exact h
  | succ fuel ih =>
      rw [Decoder.flushLoop]
      cases hf : find st.buf st.next with
      | none => exact h
      | some f => exact ih (h.pop hf).2 _

theorem Kept.flush (h : Kept sid st st.next) (out : List (Frame α)) :
    StateOk sid (flushReady st out).1 := by
  have hloop := h.flushLoop st.buffered out
  refine ⟨hloop.next_pos, hloop.next_le, hloop.buffered, ?_⟩
  intro k g hk
  obtain ⟨hat, hle⟩ := hloop.kept k g hk
  refine ⟨hat, Nat.lt_of_le_of_ne hle ?_⟩
  rintro rfl
  have hgap := flushReady_gap st out
  rw [flushReady] at hgap hk
  rw [hgap] at hk
  cases hk

theorem kept_baseline (f : Frame α) : Kept f.sessionId (baseline f) (baseline f).next := by
  refine ⟨Nat.le_add_left 1 _, sseq_lt f, Nat.zero_le _, ?_⟩
  intro k g hk
  simp [baseline] at hk

theorem Kept.insert {first : Nat} (h : Kept sid st first) (hf : KeptAt sid st.epoch f.sseq f)
    (hle : first ≤ f.sseq) (hroom : st.buffered < reorderMax) :
    Kept sid { st with buf := st.buf.insert f.sseq f } first := by
  refine ⟨h.next_pos, h.next_le, Nat.le_trans (size_insert_le _ _ _) hroom, ?_⟩
  intro k g hk
  rw [find_insert] at hk
  split at hk
  next heq =>
    obtain rfl := Option.some.inj hk
    subst heq
    exact ⟨hf, hle⟩
  next => exact h.kept k g hk

theorem Kept.merge (fs : List (Frame α)) (h : Kept sid st st.next)
    (hfs : ∀ g ∈ fs, g.sessionId = sid) :
    Kept sid (mergeWaiting st fs).1 (mergeWaiting st fs).1.next := by
  induction fs generalizing st with
  | nil => exact h
  | cons g fs ih =>
      obtain ⟨hg, hfs⟩ := List.forall_mem_cons.mp hfs
      rw [mergeWaiting]
      split
      next => exact ih h hfs
      next htaken =>
        simp only [not_or, not_lt, not_le, ne_eq, not_not] at htaken
        exact ih (h.insert ⟨hg, htaken.1, rfl⟩ htaken.2.1 htaken.2.2) hfs

end Flush

section Step

variable {s : Slot α} {f : Frame α} {d : MuxDecoder α}

theorem waitingOk_nil (sid : UInt16) : WaitingOk sid ([] : List (Frame α)) :=
  ⟨Nat.zero_le _, by simp⟩

theorem SlotOk.setState {sid : UInt16} (h : SlotOk sid s) {st : SidReorder α}
    (hst : StateOk sid st) : SlotOk sid { s with state := some st } := by
  refine ⟨?_, h.waiting⟩
  rintro st' hst'
  obtain rfl := Option.some.inj hst'
  exact hst

theorem stateOk_baseline (f : Frame α) : StateOk f.sessionId (baseline f) :=
  (kept_baseline f).flush [f]

/-- What a slot holds stays well formed, whatever frame comes. -/
theorem SlotOk.feed (h : SlotOk f.sessionId s) : SlotOk f.sessionId (s.feed f).2 := by
  by_cases hb : usesSessionOrder f.ftype = false ∨ f.epoch = 0
  · rw [(feed_bypass hb).1]
    exact h
  · obtain ⟨hu, he⟩ := not_or.mp hb
    rw [Bool.not_eq_false] at hu
    by_cases ho : f.ftype = .open
    · have hmerged := (kept_baseline f).merge s.waiting fun g hg => (h.waiting.early g hg).session
      have hfeed : (s.feed f).2 =
          ⟨some (flushReady (mergeWaiting (baseline f) s.waiting).1 [f]).1, []⟩ := by
        simp [Slot.feed, he, ho, usesSessionOrder]
      rw [hfeed]
      refine ⟨?_, waitingOk_nil _⟩
      intro st hst
      obtain rfl := Option.some.inj hst
      exact hmerged.flush [f]
    · cases hs : s.state with
      | none =>
          rw [feed_unopened hu he ho hs]
          split
          · exact h.setState (stateOk_baseline f)
          next hdir =>
            split
            next hroom =>
              refine ⟨fun st hst => h.state st hst, ?_, ?_⟩
              · rw [List.length_append]
                exact hroom
              · intro g hg
                rcases List.mem_append.mp hg with hg | hg
                · exact h.waiting.early g hg
                · obtain rfl := List.mem_singleton.mp hg
                  refine ⟨?_, rfl, Bool.eq_false_iff.mpr hdir, he⟩
                  cases hf : g.ftype <;> simp_all [usesSessionOrder]
            · exact h
      | some st =>
          have hst := h.state st hs
          by_cases heq : st.epoch = f.epoch
          · rw [feed_same hu he ho hs heq]
            split
            · exact h
            next hpast =>
              split
              next hnext =>
                apply h.setState
                apply Kept.flush
                refine ⟨Nat.le_add_left 1 _, ?_, hst.buffered, hst.kept⟩
                rw [← hnext]
                exact sseq_lt f
              next hahead =>
                split
                next hroom => exact h.setState (hst.insert ⟨rfl, heq.symm, rfl⟩ (by omega) hroom)
                · exact h
          · rw [feed_differing hu he ho hs heq]
            split
            · exact h.setState (stateOk_baseline f)
            · exact h

structure Wellformed (d : MuxDecoder α) : Prop where
  states : ∀ key st, find d.states key = some st → StateOk key.1 st
  preopen : ∀ sid waiting, find d.preopen sid = some waiting → WaitingOk sid waiting

theorem wellformed_new : Wellformed (MuxDecoder.new : MuxDecoder α) := by
  constructor
  · intro key st h
    simp [MuxDecoder.new] at h
  · intro sid waiting h
    simp [MuxDecoder.new] at h

theorem Wellformed.slot (h : Wellformed d) (key : UInt16 × Bool) : SlotOk key.1 (slotAt d key) := by
  refine ⟨h.states key, ?_⟩
  rw [slotAt, waitingOf]
  cases hfind : find d.preopen key.1 with
  | none => exact waitingOk_nil _
  | some waiting => exact h.preopen key.1 waiting hfind

theorem Wellformed.feedFrame (h : Wellformed d) (f : Frame α) : Wellformed (feedFrame d f).2 := by
  obtain ⟨-, hstates, hwaiting⟩ := feedFrame_eq_slot d f
  have hslot : SlotOk f.sessionId ((slotAt d f.key).feed f).2 := (h.slot f.key).feed
  constructor
  · intro key st hst
    rw [hstates] at hst
    split at hst
    next heq =>
      rw [heq]
      exact hslot.state st hst
    next => exact h.states key st hst
  · intro sid waiting hfind
    have hw := hwaiting sid
    rw [waitingOf, hfind] at hw
    rw [Option.getD_some] at hw
    rw [hw]
    split
    next heq =>
      rw [heq]
      exact hslot.waiting
    next => exact (h.slot (sid, false)).waiting

theorem Wellformed.feed {d : MuxDecoder Bytes} (h : Wellformed d) (msg : Bytes) :
    Wellformed (feed d msg).2 := by
  have hcount : Wellformed (countRx d) := ⟨h.states, h.preopen⟩
  cases hm : decodeFrame msg with
  | none =>
      rw [feed_of_decode_none hm]
      exact hcount
  | some f =>
      rw [feed_of_decode hm]
      exact hcount.feedFrame f

theorem wellformed_feedAll (msgs : List Bytes) : Wellformed (feedAll MuxDecoder.new msgs).2 := by
  induction msgs using List.reverseRecOn with
  | nil => exact wellformed_new
  | append_singleton msgs m ih =>
      rw [feedAll_snoc]
      exact ih.feed m

end Step

end SrtVpn.DecoderInvariant
