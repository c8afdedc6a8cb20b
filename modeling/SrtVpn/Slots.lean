import SrtVpn.Decoder

namespace SrtVpn.Slots

open BigEndian Tables Wire Decoder

variable {α : Type}

/-- What the decoder keeps about one session in one direction: its reorder state and, for the
opener direction, the frames waiting for their Open. -/
structure Slot (α : Type) where
  state : Option (SidReorder α)
  waiting : List (Frame α)

def Slot.empty : Slot α := ⟨none, []⟩

/-- The reorder layer as a machine of one session, with no table and no counters. -/
def Slot.feed (s : Slot α) (frame : Frame α) : List (Frame α) × Slot α :=
  if usesSessionOrder frame.ftype = false then ([frame], s)
  else if frame.epoch = 0 then ([frame], s)
  else if frame.ftype = .open then
    let flushed := flushReady (mergeWaiting (baseline frame) s.waiting).1 [frame]
    (flushed.2, ⟨some flushed.1, []⟩)
  else match s.state with
    | some st =>
        if st.epoch = frame.epoch then
          if frame.sseq < st.next then ([], s)
          else if frame.sseq = st.next then
            let flushed := flushReady { st with next := st.next + 1 } [frame]
            (flushed.2, { s with state := some flushed.1 })
          else if st.buffered < reorderMax then
            ([], { s with state := some { st with buf := st.buf.insert frame.sseq frame } })
          else ([], s)
        else if newerEpoch frame.epoch st.epoch then
          let flushed := flushReady (baseline frame) [frame]
          (flushed.2, { s with state := some flushed.1 })
        else ([], s)
    | none =>
        if frame.dirAcceptor then
          let flushed := flushReady (baseline frame) [frame]
          (flushed.2, { s with state := some flushed.1 })
        else if s.waiting.length < preopenMax then ([], { s with waiting := s.waiting ++ [frame] })
        else ([], s)

def waitingOf (d : MuxDecoder α) (sid : UInt16) : List (Frame α) := (find d.preopen sid).getD []

def slotAt (d : MuxDecoder α) (key : UInt16 × Bool) : Slot α :=
  ⟨find d.states key, waitingOf d key.1⟩

/-- The decoder's step `p` on a frame matches the step `q` of the slot the frame names. -/
def Matches (d : MuxDecoder α) (f : Frame α) (p : List (Frame α) × MuxDecoder α)
    (q : List (Frame α) × Slot α) : Prop :=
  p.1 = q.1 ∧ (∀ key, find p.2.states key = if key = f.key then q.2.state else find d.states key) ∧
    ∀ sid, waitingOf p.2 sid = if sid = f.sessionId then q.2.waiting else waitingOf d sid

section Match

variable {d d' : MuxDecoder α} {f : Frame α} {out : List (Frame α)}

theorem eq_ite_self {K V : Type} [DecidableEq K] (g : K → V) (k k' : K) :
    g k' = if k' = k then g k else g k' := by
  split
  next h => rw [h]
  next => rfl

theorem matches_same (hstates : d'.states = d.states) (hpreopen : d'.preopen = d.preopen) :
    Matches d f (out, d') (out, slotAt d f.key) := by
  refine ⟨rfl, fun key => ?_, fun sid => ?_⟩
  · rw [hstates]
    exact eq_ite_self (find d.states) f.key key
  · rw [waitingOf, hpreopen]
    exact eq_ite_self (waitingOf d) f.sessionId sid

theorem matches_state {st : SidReorder α} (hstates : d'.states = d.states.insert f.key st)
    (hpreopen : d'.preopen = d.preopen) :
    Matches d f (out, d') (out, { slotAt d f.key with state := some st }) := by
  refine ⟨rfl, fun key => ?_, fun sid => ?_⟩
  · rw [hstates]
    exact find_insert d.states f.key key st
  · rw [waitingOf, hpreopen]
    exact eq_ite_self (waitingOf d) f.sessionId sid

theorem matches_waiting {w : List (Frame α)} (hstates : d'.states = d.states)
    (hpreopen : d'.preopen = d.preopen.insert f.sessionId w) :
    Matches d f (out, d') (out, { slotAt d f.key with waiting := w }) := by
  refine ⟨rfl, fun key => ?_, fun sid => ?_⟩
  · rw [hstates]
    exact eq_ite_self (find d.states) f.key key
  · rw [waitingOf, hpreopen, find_insert]
    split <;> rfl

theorem matches_feedOpen (d : MuxDecoder α) (f : Frame α) :
    Matches d f (feedOpen d f)
      ((flushReady (mergeWaiting (baseline f) (waitingOf d f.sessionId)).1 [f]).2,
      ⟨some (flushReady (mergeWaiting (baseline f) (waitingOf d f.sessionId)).1 [f]).1, []⟩) := by
  refine ⟨rfl, (find_insert _ _ · _), fun sid => ?_⟩
  simp only [feedOpen, waitingOf, find_erase]
  split <;> rfl

end Match

theorem feedFrame_matches (d : MuxDecoder α) (f : Frame α) :
    Matches d f (feedFrame d f) ((slotAt d f.key).feed f) := by
  have hs : (slotAt d f.key).state = find d.states f.key := rfl
  rw [feedFrame, Slot.feed, hs]
  split
  · exact matches_same rfl rfl
  split
  · exact matches_same rfl rfl
  split
  · exact matches_feedOpen d f
  cases hst : find d.states f.key with
  | some st =>
      simp only [feedCurrent]
      split
      · split
        · exact matches_same rfl rfl
        split
        · exact matches_state rfl rfl
        split
        · exact matches_state rfl rfl
        · exact matches_same rfl rfl
      split
      · exact matches_state rfl rfl
      · exact matches_same rfl rfl
  | none =>
      simp only
      split
      · exact matches_state rfl rfl
      · by_cases hl : (slotAt d f.key).waiting.length < preopenMax
        · have hd : holdPreopen d f = ([], { d with
              preopen := d.preopen.insert f.sessionId (waitingOf d f.sessionId ++ [f]) }) :=
                if_pos hl
          rw [hd, if_pos hl, ← hst]
          exact matches_waiting rfl rfl
        · have hd : holdPreopen d f = ([], dropStale d) := if_neg hl
          rw [hd, if_neg hl]
          exact matches_same rfl rfl

/-- One `feedFrame` is one step of the slot the frame names; all other entries of both tables
stay. -/
theorem feedFrame_eq_slot (d : MuxDecoder α) (f : Frame α) :
    (feedFrame d f).1 = ((slotAt d f.key).feed f).1 ∧
      (∀ key, find (feedFrame d f).2.states key =
        if key = f.key then ((slotAt d f.key).feed f).2.state else find d.states key) ∧
      ∀ sid, waitingOf (feedFrame d f).2 sid =
        if sid = f.sessionId then ((slotAt d f.key).feed f).2.waiting else waitingOf d sid :=
  feedFrame_matches d f

/-- What the flush loop does: it releases the frames `fs` stored from `next` on, removes exactly
those from the buffer and moves `next` behind them. -/
theorem flushLoop_spec (fuel : Nat) (st : SidReorder α) (out : List (Frame α)) :
    ∃ fs, (flushLoop fuel st out).2 = out ++ fs ∧ (flushLoop fuel st out).1.epoch = st.epoch ∧
      (flushLoop fuel st out).1.next = st.next + fs.length ∧
      (∀ i f, fs[i]? = some f → find st.buf (st.next + i) = some f) ∧
      ∀ k, find (flushLoop fuel st out).1.buf k =
        if st.next ≤ k ∧ k < st.next + fs.length then none else find st.buf k := by
  induction fuel generalizing st out with
  | zero => exact ⟨[],
      by simp [flushLoop], rfl, rfl, by simp, fun k => by rw [if_neg (by simp)]; rfl⟩
  | succ fuel ih =>
      rw [flushLoop]
      cases hf : find st.buf st.next with
      | none => exact ⟨[], by simp, rfl, rfl, by simp, fun k => by rw [if_neg (by simp)]⟩
      | some f =>
          obtain ⟨fs, hout, hep, hnext, hfs, hbuf⟩ :=
            ih { st with next := st.next + 1, buf := st.buf.erase st.next } (out ++ [f])
          refine ⟨f :: fs, by simp [hout], hep, by simp [hnext]; omega, ?_, ?_⟩
          · intro i g hg
            cases i with
            | zero => simpa [hf] using hg
            | succ i =>
                have h := hfs i g (by simpa using hg)
                rw [find_erase, if_neg (by simp; omega)] at h
                rw [← h, Nat.add_right_comm, Nat.add_assoc]
          · intro k
            simp only [hbuf, find_erase, List.length_cons]
            by_cases hk : k = st.next
            · subst hk; simp
            · have hiff : (st.next + 1 ≤ k ∧ k < st.next + 1 + fs.length) ↔
                  (st.next ≤ k ∧ k < st.next + (fs.length + 1)) := by omega
              rw [if_neg hk]
              exact if_congr hiff rfl rfl

theorem flushLoop_gap (fuel : Nat) (st : SidReorder α) (out : List (Frame α))
    (h : st.buffered ≤ fuel) :
    find (flushLoop fuel st out).1.buf (flushLoop fuel st out).1.next = none := by
  induction fuel generalizing st out with
  | zero =>
      cases hf : find st.buf st.next with
      | none => exact hf
      | some f =>
          have hs := size_erase hf
          simp only [SidReorder.buffered] at h
          omega
  | succ fuel ih =>
      rw [flushLoop]
      cases hf : find st.buf st.next with
      | none => exact hf
      | some f =>
          apply ih
          have hs := size_erase hf
          simp only [SidReorder.buffered] at h ⊢
          omega

theorem flushReady_gap (st : SidReorder α) (out : List (Frame α)) :
    find (flushReady st out).1.buf (flushReady st out).1.next = none :=
  flushLoop_gap _ _ _ le_rfl

theorem flushReady_epoch (st : SidReorder α) (out : List (Frame α)) :
    (flushReady st out).1.epoch = st.epoch := by
  obtain ⟨fs, _, hep, _⟩ := flushLoop_spec st.buffered st out
  exact hep

theorem flushReady_baseline (f : Frame α) : flushReady (baseline f) [f] = (baseline f, [f]) := rfl

theorem mergeWaiting_spec (st : SidReorder α) (fs : List (Frame α)) :
    (mergeWaiting st fs).1.epoch = st.epoch ∧ (mergeWaiting st fs).1.next = st.next ∧
      ∀ k f, find (mergeWaiting st fs).1.buf k = some f →
        find st.buf k = some f ∨ (f ∈ fs ∧ f.sseq = k ∧ f.epoch = st.epoch ∧ st.next ≤ k) := by
  induction fs generalizing st with
  | nil => exact ⟨rfl, rfl, fun k f h => Or.inl h⟩
  | cons g fs ih =>
      rw [mergeWaiting]
      split
      next =>
        obtain ⟨he, hn, hb⟩ := ih st
        refine ⟨he, hn, fun k f h => ?_⟩
        rcases hb k f h with h | ⟨h, hrest⟩
        · exact Or.inl h
        · exact Or.inr ⟨by simp [h], hrest⟩
      next hg =>
        obtain ⟨he, hn, hb⟩ := ih { st with buf := st.buf.insert g.sseq g }
        refine ⟨he, hn, fun k f h => ?_⟩
        rcases hb k f h with h | ⟨h, hrest⟩
        · rw [find_insert] at h
          split at h
          next hk =>
            obtain rfl : g = f := by simpa using h
            simp only [not_or, not_lt, not_not] at hg
            exact Or.inr ⟨by simp, hk.symm, hg.1, hk ▸ hg.2.1⟩
          next => exact Or.inl h
        · exact Or.inr ⟨by simp [h], hrest⟩

def Slot.Stores (s : Slot α) (f : Frame α) : Prop :=
  (∃ st k, s.state = some st ∧ find st.buf k = some f) ∨ f ∈ s.waiting

theorem flushReady_mem {st : SidReorder α} {out : List (Frame α)} {g : Frame α}
    (h : g ∈ (flushReady st out).2) : g ∈ out ∨ ∃ k, find st.buf k = some g := by
  obtain ⟨fs, hout, _, _, hfs, _⟩ := flushLoop_spec st.buffered st out
  rw [flushReady, hout, List.mem_append] at h
  rcases h with h | h
  · exact Or.inl h
  · obtain ⟨i, hi⟩ := List.mem_iff_getElem?.mp h
    exact Or.inr ⟨_, hfs i g hi⟩

theorem flushReady_stored {st : SidReorder α} {out : List (Frame α)} {k : Nat} {g : Frame α}
    (h : find (flushReady st out).1.buf k = some g) : find st.buf k = some g := by
  obtain ⟨fs, _, _, _, _, hbuf⟩ := flushLoop_spec st.buffered st out
  rw [flushReady, hbuf] at h
  split at h
  next => simp at h
  next => exact h

theorem mergeBaseline_stored {f g : Frame α} {fs : List (Frame α)} {k : Nat}
    (h : find (mergeWaiting (baseline f) fs).1.buf k = some g) : g ∈ fs := by
  rcases (mergeWaiting_spec (baseline f) fs).2.2 k g h with h | h
  · simp [baseline] at h
  · exact h.1

/-- The outcomes of a slot step: the frame passes by, is dropped, opens the session, is the next
one, is kept ahead of its turn, starts a generation, or waits for its Open. -/
inductive Slot.Fed (s : Slot α) (f : Frame α) : List (Frame α) × Slot α → Prop
  | bypass : Fed s f ([f], s)
  | dropped : Fed s f ([], s)
  | opened : Fed s f ((flushReady (mergeWaiting (baseline f) s.waiting).1 [f]).2,
      ⟨some (flushReady (mergeWaiting (baseline f) s.waiting).1 [f]).1, []⟩)
  | next (st : SidReorder α) : s.state = some st →
      Fed s f ((flushReady { st with next := st.next + 1 } [f]).2,
        { s with state := some (flushReady { st with next := st.next + 1 } [f]).1 })
  | ahead (st : SidReorder α) : s.state = some st →
      Fed s f ([], { s with state := some { st with buf := st.buf.insert f.sseq f } })
  | started : Fed s f ((flushReady (baseline f) [f]).2,
      { s with state := some (flushReady (baseline f) [f]).1 })
  | early : Fed s f ([], { s with waiting := s.waiting ++ [f] })

theorem Slot.fed (s : Slot α) (f : Frame α) : Slot.Fed s f (s.feed f) := by
  rw [Slot.feed]
  split
  · exact .bypass
  split
  · exact .bypass
  split
  · exact .opened
  split
  next st hst =>
    split
    · split
      · exact .dropped
      split
      · exact .next st hst
      split
      · exact .ahead st hst
      · exact .dropped
    split
    · exact .started
    · exact .dropped
  next =>
    split
    · exact .started
    split
    · exact .early
    · exact .dropped

theorem Slot.feed_keeps_state {s : Slot α} {f : Frame α} {st : SidReorder α}
    (hs : s.state = some st) : ∃ st', (s.feed f).2.state = some st' := by
  have hfed := s.fed f
  generalize s.feed f = r at hfed ⊢
  cases hfed with
  | bypass => exact ⟨st, hs⟩
  | dropped => exact ⟨st, hs⟩
  | opened => exact ⟨_, rfl⟩
  | next st' _ => exact ⟨_, rfl⟩
  | ahead st' _ => exact ⟨_, rfl⟩
  | started => exact ⟨_, rfl⟩
  | early => exact ⟨st, hs⟩

theorem Slot.feed_mem (s : Slot α) (f g : Frame α) :
    (g ∈ (s.feed f).1 → g = f ∨ s.Stores g) ∧ ((s.feed f).2.Stores g → g = f ∨ s.Stores g) := by
  have single (h : g ∈ [f]) : g = f ∨ s.Stores g := Or.inl (by simpa using h)
  have none (h : g ∈ ([] : List (Frame α))) : g = f ∨ s.Stores g := by simp at h
  have hfed := s.fed f
  generalize s.feed f = r at hfed ⊢
  cases hfed with
  | bypass => exact ⟨single, Or.inr⟩
  | dropped => exact ⟨none, Or.inr⟩
  | opened =>
      constructor
      · intro h
        rcases flushReady_mem h with h | ⟨k, hk⟩
        · exact single h
        · exact Or.inr (Or.inr (mergeBaseline_stored hk))
      · rintro (⟨st, k, hst, hk⟩ | h)
        · obtain rfl := Option.some.inj hst
          exact Or.inr (Or.inr (mergeBaseline_stored (flushReady_stored hk)))
        · exact none h
  | next st hs =>
      constructor
      · intro h
        rcases flushReady_mem h with h | ⟨k, hk⟩
        · exact single h
        · exact Or.inr (Or.inl ⟨st, k, hs, hk⟩)
      · rintro (⟨st', k, hst, hk⟩ | h)
        · obtain rfl := Option.some.inj hst
          have hk' := flushReady_stored hk
          exact Or.inr (Or.inl ⟨st, k, hs, hk'⟩)
        · exact Or.inr (Or.inr h)
  | ahead st hs =>
      refine ⟨none, ?_⟩
      rintro (⟨st', k, hst, hk⟩ | h)
      · obtain rfl := Option.some.inj hst
        rw [find_insert] at hk
        split at hk
        next => exact Or.inl (Option.some.inj hk).symm
        next => exact Or.inr (Or.inl ⟨st, k, hs, hk⟩)
      · exact Or.inr (Or.inr h)
  | started =>
      rw [flushReady_baseline]
      refine ⟨single, ?_⟩
      rintro (⟨st, k, hst, hk⟩ | h)
      · obtain rfl := Option.some.inj hst
        simp [baseline] at hk
      · exact Or.inr (Or.inr h)
  | early =>
      refine ⟨none, ?_⟩
      rintro (h | h)
      · exact Or.inr (Or.inl h)
      · rcases List.mem_append.mp h with h | h
        · exact Or.inr (Or.inr h)
        · exact single h

theorem feed_open_congr {s s' : Slot α} {f : Frame α} (ho : f.ftype = .open) (he : f.epoch ≠ 0)
    (hw : s.waiting = s'.waiting) : s.feed f = s'.feed f := by
  simp [Slot.feed, ho, he, hw, usesSessionOrder]

/-- A session that was opened has no frames waiting for an Open. -/
def Settled (s : Slot α) : Prop := s.state = none ∨ s.waiting = []

theorem Settled.feed {s : Slot α} {f : Frame α} (h : Settled s) (hd : f.dirAcceptor = false) :
    Settled (s.feed f).2 := by
  simp only [Slot.feed, hd]
  split
  · exact h
  split
  · exact h
  split
  · exact Or.inr rfl
  split
  next st hs =>
    have hw : s.waiting = [] := h.resolve_left (by simp [hs])
    split
    · split
      · exact Or.inr hw
      split
      · exact Or.inr hw
      split
      · exact Or.inr hw
      · exact Or.inr hw
    split
    · exact Or.inr hw
    · exact Or.inr hw
  next hs =>
    rw [if_neg (by simp)]
    split
    · exact Or.inl hs
    · exact Or.inl hs

end SrtVpn.Slots
