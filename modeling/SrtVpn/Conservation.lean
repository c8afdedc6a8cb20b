import SrtVpn.SessionView
import SrtVpn.TableContents

namespace SrtVpn.Conservation

open BigEndian Tables TableContents Wire Decoder Slots SessionView

variable {α : Type}

def heldIn (st : SidReorder α) : List (Frame α) := contents (fun f => [f]) st.buf

def heldBy (state : Option (SidReorder α)) : List (Frame α) :=
  match state with
  | some st => heldIn st
  | none => []

def held (s : Slot α) : List (Frame α) := heldBy s.state ++ s.waiting

def counted (s : Slot α) (f : Frame α) : Nat :=
  if usesSessionOrder f.ftype = false then 0
  else if f.epoch = 0 then 0
  else if f.ftype = .open then (mergeWaiting (baseline f) s.waiting).2
  else match s.state with
    | some st =>
        if st.epoch = f.epoch then
          if f.sseq < st.next then 1
          else if f.sseq = st.next then 0
          else if st.buffered < reorderMax then 0 else 1
        else if newerEpoch f.epoch st.epoch then 0 else 1
    | none => if f.dirAcceptor then 0 else if s.waiting.length < preopenMax then 0 else 1

/-- The step puts nothing in the place of a frame that is kept: no state is rebuilt that keeps
frames, and no frame is stored under a number under which one is kept. -/
def Spares (s : Slot α) (f : Frame α) : Prop :=
  usesSessionOrder f.ftype = true → f.epoch ≠ 0 →
    (f.ftype = .open → heldBy s.state = [] ∧ (s.waiting.map Frame.sseq).Nodup) ∧
    (f.ftype ≠ .open → ∀ st, s.state = some st →
      (st.epoch = f.epoch → st.next < f.sseq → find st.buf f.sseq = none) ∧
      (st.epoch ≠ f.epoch → newerEpoch f.epoch st.epoch = true → heldIn st = []))

section Accounts

variable {β : Type} {a b : List β} {P : Prop}

/-- What is in `a` and not in `b` is lost: at least as many as are counted; and where none is
counted, nothing is lost exactly if `P` holds. -/
def Accounts (a b : List β) (dropped : Nat) (P : Prop) : Prop :=
  ∃ lost, a.Perm (b ++ lost) ∧ dropped ≤ lost.length ∧ (dropped = 0 → (lost = [] ↔ P))

theorem Accounts.replaced (old : List β) (hperm : a.Perm (b ++ old)) (hold : old = [] ↔ P) :
    Accounts a b 0 P :=
  ⟨old, hperm, Nat.zero_le _, fun _ => hold⟩

theorem Accounts.all (hperm : a.Perm b) (hP : P) : Accounts a b 0 P := by
  apply Accounts.replaced []
  · rw [List.append_nil]
    exact hperm
  · exact iff_of_true rfl hP

theorem Accounts.dropped (x : β) (kept : List β) : Accounts (x :: kept) ([] ++ kept) 1 P :=
  ⟨[x], @List.perm_append_comm _ [x] _, Nat.le_refl _, by simp⟩

theorem Accounts.frame {a' b' rest rest' : List β} {dropped : Nat} (h : Accounts a b dropped P)
    (ha : a'.Perm (a ++ rest)) (hb : b'.Perm (b ++ rest')) (hrest : rest'.Perm rest) :
    Accounts a' b' dropped P := by
  classical
  obtain ⟨lost, hperm, hcount, hiff⟩ := h
  refine ⟨lost, ?_, hcount, hiff⟩
  rw [List.perm_iff_count] at hperm ha hb hrest ⊢
  intro x
  have hp := hperm x
  have ha' := ha x
  have hb' := hb x
  have hr := hrest x
  simp only [List.count_append] at hp ha' hb' hr ⊢
  omega

end Accounts

section Buffers

theorem heldIn_insert (st : SidReorder α) (f : Frame α) :
    (heldIn { st with buf := st.buf.insert f.sseq f } ++ entry (fun f => [f]) st.buf f.sseq).Perm
      (f :: heldIn st) := by
  classical
  have hsplit := contents_perm (fun f : Frame α => [f]) st.buf f.sseq
  simp only [heldIn, contents_insert]
  rw [List.perm_iff_count] at hsplit ⊢
  intro g
  have hg := hsplit g
  simp only [List.count_append, List.count_cons, List.count_nil] at hg ⊢
  omega

theorem flushLoop_conserves (fuel : Nat) (st : SidReorder α) (out : List (Frame α)) :
    (out ++ heldIn st).Perm ((flushLoop fuel st out).2 ++ heldIn (flushLoop fuel st out).1) := by
  induction fuel generalizing st out with
  | zero => exact List.Perm.refl _
  | succ fuel ih =>
      rw [flushLoop]
      cases hfind : find st.buf st.next with
      | none => exact List.Perm.refl _
      | some f =>
          have hsplit := contents_perm (fun f : Frame α => [f]) st.buf st.next
          rw [entry, hfind] at hsplit
          have hnext := ih { st with next := st.next + 1, buf := st.buf.erase st.next } (out ++ [f])
          rw [List.append_assoc] at hnext
          exact (hsplit.append_left out).trans hnext

theorem flushReady_conserves (st : SidReorder α) (out : List (Frame α)) :
    (out ++ heldIn st).Perm ((flushReady st out).2 ++ heldIn (flushReady st out).1) :=
  flushLoop_conserves _ st out

theorem entry_eq_nil {st : SidReorder α} {k : Nat} :
    entry (fun f => [f]) st.buf k = [] ↔ find st.buf k = none := by
  rw [entry]
  cases find st.buf k with
  | none => simp
  | some f => simp

theorem mergeWaiting_conserves (fs : List (Frame α)) (st : SidReorder α) :
    Accounts (heldIn st ++ fs) (heldIn (mergeWaiting st fs).1) (mergeWaiting st fs).2
      ((fs.map Frame.sseq).Nodup ∧ ∀ f ∈ fs, find st.buf f.sseq = none) := by
  classical
  induction fs generalizing st with
  | nil => exact ⟨[], by simp [mergeWaiting], Nat.le_refl _, by simp⟩
  | cons f fs ih =>
      rw [mergeWaiting]
      split
      next =>
        obtain ⟨lost, hperm, hle, -⟩ := ih st
        refine ⟨f :: lost, ?_, Nat.succ_le_succ hle, by simp⟩
        rw [List.perm_iff_count] at hperm ⊢
        intro g
        have hg := hperm g
        simp only [List.count_append, List.count_cons] at hg ⊢
        omega
      next =>
        obtain ⟨lost, hperm, hle, hiff⟩ := ih { st with buf := st.buf.insert f.sseq f }
        have hinsert := heldIn_insert st f
        refine ⟨entry (fun f => [f]) st.buf f.sseq ++ lost, ?_, ?_, fun hzero => ?_⟩
        · rw [List.perm_iff_count] at hperm hinsert ⊢
          intro g
          have hg := hperm g
          have hi := hinsert g
          simp only [List.count_append, List.count_cons] at hg hi ⊢
          omega
        · rw [List.length_append]
          exact Nat.le_add_left_of_le hle
        · rw [List.append_eq_nil_iff, entry_eq_nil, hiff hzero, List.map_cons, List.nodup_cons,
            List.forall_mem_cons]
          have hrest : (∀ g ∈ fs, find (st.buf.insert f.sseq f) g.sseq = none) ↔
              f.sseq ∉ fs.map Frame.sseq ∧ ∀ g ∈ fs, find st.buf g.sseq = none := by
            constructor
            · intro h
              constructor
              · intro hmem
                obtain ⟨g, hg, hseq⟩ := List.mem_map.mp hmem
                have hnone := h g hg
                rw [hseq, find_insert_self] at hnone
                cases hnone
              · intro g hg
                have hnone := h g hg
                rw [find_insert] at hnone
                split at hnone
                next => cases hnone
                next => exact hnone
            · rintro ⟨hnot, h⟩ g hg
              rw [find_insert, if_neg, h g hg]
              intro hseq
              exact hnot (List.mem_map.mpr ⟨g, hg, hseq⟩)
          rw [hrest]
          tauto

end Buffers

section Step

variable {s : Slot α} {f : Frame α} {st : SidReorder α}

theorem feed_bypass (h : usesSessionOrder f.ftype = false ∨ f.epoch = 0) :
    s.feed f = ([f], s) ∧ counted s f = 0 ∧ Spares s f := by
  rcases h with h | h
  · simp [Slot.feed, counted, Spares, h]
  · simp [Slot.feed, counted, Spares, h]

theorem open_conserves (he : f.epoch ≠ 0) (ho : f.ftype = .open) :
    Accounts (f :: held s) ((s.feed f).1 ++ held (s.feed f).2) (counted s f) (Spares s f) := by
  classical
  obtain ⟨lost, hmerge, hle, hiff⟩ := mergeWaiting_conserves s.waiting (baseline f)
  have hflush := flushReady_conserves (mergeWaiting (baseline f) s.waiting).1 [f]
  have hfeed : s.feed f = ((flushReady (mergeWaiting (baseline f) s.waiting).1 [f]).2,
      ⟨some (flushReady (mergeWaiting (baseline f) s.waiting).1 [f]).1, []⟩) := by
    simp [Slot.feed, he, ho, usesSessionOrder]
  have hcount : counted s f = (mergeWaiting (baseline f) s.waiting).2 := by
    simp [counted, he, ho, usesSessionOrder]
  have hbase : heldIn (baseline f) = [] := rfl
  have hnone : ∀ g ∈ s.waiting, find (baseline f).buf g.sseq = none := fun g _ => find_empty g.sseq
  refine ⟨heldBy s.state ++ lost, ?_, ?_, fun hzero => ?_⟩
  · rw [hfeed]
    rw [hbase] at hmerge
    simp only [held, heldBy]
    rw [List.perm_iff_count] at hmerge hflush ⊢
    intro g
    have hm := hmerge g
    have hf := hflush g
    simp only [List.count_append, List.count_cons, List.count_nil] at hm hf ⊢
    omega
  · rw [hcount, List.length_append]
    exact Nat.le_add_left_of_le hle
  · rw [List.append_eq_nil_iff, hiff (hcount ▸ hzero), and_iff_left hnone, Spares]
    simp [he, ho, usesSessionOrder]

theorem feed_same (hu : usesSessionOrder f.ftype = true) (he : f.epoch ≠ 0) (ho : f.ftype ≠ .open)
    (hs : s.state = some st) (heq : st.epoch = f.epoch) : s.feed f =
      if f.sseq < st.next then ([], s)
      else if f.sseq = st.next then
        ((flushReady { st with next := st.next + 1 } [f]).2,
          { s with state := some (flushReady { st with next := st.next + 1 } [f]).1 })
      else if st.buffered < reorderMax then
        ([], { s with state := some { st with buf := st.buf.insert f.sseq f } })
      else ([], s) := by
  rw [Slot.feed, if_neg (by simp [hu]), if_neg he, if_neg ho, hs]
  simp only [if_pos heq]

theorem feed_differing (hu : usesSessionOrder f.ftype = true) (he : f.epoch ≠ 0)
    (ho : f.ftype ≠ .open) (hs : s.state = some st) (hne : st.epoch ≠ f.epoch) :
    s.feed f =
      if newerEpoch f.epoch st.epoch then ([f], { s with state := some (baseline f) })
      else ([], s) := by
  rw [Slot.feed, if_neg (by simp [hu]), if_neg he, if_neg ho, hs]
  simp only [if_neg hne, flushReady_baseline]

theorem feed_unopened (hu : usesSessionOrder f.ftype = true) (he : f.epoch ≠ 0)
    (ho : f.ftype ≠ .open) (hs : s.state = none) : s.feed f =
      if f.dirAcceptor then ([f], { s with state := some (baseline f) })
      else if s.waiting.length < preopenMax then ([], { s with waiting := s.waiting ++ [f] })
      else ([], s) := by
  rw [Slot.feed, if_neg (by simp [hu]), if_neg he, if_neg ho, hs]
  simp only [flushReady_baseline]

theorem held_of_state (hs : s.state = some st) : held s = heldIn st ++ s.waiting := by
  rw [held, hs, heldBy]

theorem current_conserves (hu : usesSessionOrder f.ftype = true) (he : f.epoch ≠ 0)
    (ho : f.ftype ≠ .open) (hs : s.state = some st) (heq : st.epoch = f.epoch) :
    Accounts (f :: held s) ((s.feed f).1 ++ held (s.feed f).2) (counted s f) (Spares s f) := by
  classical
  have hspares : Spares s f ↔ (st.next < f.sseq → find st.buf f.sseq = none) := by
    simp [Spares, hu, he, ho, hs, heq]
  have hcount : counted s f = if f.sseq < st.next then 1 else if f.sseq = st.next then 0
      else if st.buffered < reorderMax then 0 else 1 := by
    simp [counted, hu, he, ho, hs, heq]
  rw [hspares, hcount, feed_same hu he ho hs heq]
  by_cases hlt : f.sseq < st.next
  · simp only [if_pos hlt]
    exact Accounts.dropped f _
  simp only [if_neg hlt]
  by_cases hnext : f.sseq = st.next
  · have hflush := (flushReady_conserves { st with next := st.next + 1 } [f]).append_right s.waiting
    simp only [if_pos hnext]
    apply Accounts.all
    · rw [held_of_state hs, held, heldBy, ← List.append_assoc]
      exact hflush
    · intro hgt
      exact absurd hnext (Nat.ne_of_gt hgt)
  simp only [if_neg hnext]
  by_cases hroom : st.buffered < reorderMax
  · have hinsert := heldIn_insert st f
    have hgt : st.next < f.sseq := by omega
    simp only [if_pos hroom]
    apply Accounts.replaced (entry (fun f => [f]) st.buf f.sseq)
    · rw [held_of_state hs, held, heldBy]
      rw [List.perm_iff_count] at hinsert ⊢
      intro g
      have hg := hinsert g
      simp only [List.count_append, List.count_cons, List.count_nil] at hg ⊢
      omega
    · rw [entry_eq_nil]
      simp [hgt]
  · simp only [if_neg hroom]
    exact Accounts.dropped f _

theorem other_conserves (hu : usesSessionOrder f.ftype = true) (he : f.epoch ≠ 0)
    (ho : f.ftype ≠ .open) (hs : s.state = some st) (hne : st.epoch ≠ f.epoch) :
    Accounts (f :: held s) ((s.feed f).1 ++ held (s.feed f).2) (counted s f) (Spares s f) := by
  have hspares : Spares s f ↔ (newerEpoch f.epoch st.epoch = true → heldIn st = []) := by
    simp [Spares, hu, he, ho, hs, hne]
  have hcount : counted s f = if newerEpoch f.epoch st.epoch then 0 else 1 := by
    simp [counted, hu, he, ho, hs, hne]
  rw [hspares, hcount, feed_differing hu he ho hs hne]
  by_cases hnew : newerEpoch f.epoch st.epoch = true
  · have hbase : heldIn (baseline f) = [] := rfl
    simp only [if_pos hnew]
    apply Accounts.replaced (heldIn st)
    · rw [held_of_state hs, held, heldBy, hbase]
      exact List.Perm.cons f List.perm_append_comm
    · rw [hnew]
      simp
  · simp only [if_neg hnew]
    exact Accounts.dropped f _

theorem fresh_conserves (hu : usesSessionOrder f.ftype = true) (he : f.epoch ≠ 0)
    (ho : f.ftype ≠ .open) (hs : s.state = none) :
    Accounts (f :: held s) ((s.feed f).1 ++ held (s.feed f).2) (counted s f) (Spares s f) := by
  have hspares : Spares s f := by simp [Spares, ho, hs]
  have hcount : counted s f =
      if f.dirAcceptor then 0 else if s.waiting.length < preopenMax then 0 else 1 := by
    simp [counted, hu, he, ho, hs]
  have hheld : held s = s.waiting := by rw [held, hs, heldBy, List.nil_append]
  rw [hcount, feed_unopened hu he ho hs]
  by_cases hd : f.dirAcceptor = true
  · have hbase : heldIn (baseline f) = [] := rfl
    simp only [if_pos hd]
    apply Accounts.all _ hspares
    rw [hheld, held, heldBy, hbase]
    exact List.Perm.refl _
  simp only [if_neg hd]
  by_cases hroom : s.waiting.length < preopenMax
  · simp only [if_pos hroom]
    apply Accounts.all _ hspares
    rw [hheld, held, hs, heldBy]
    exact @List.perm_append_comm _ [f] _
  · simp only [if_neg hroom]
    exact Accounts.dropped f _

/-- A step returns and keeps the frame it was given and those that were kept, but for the lost ones:
those it counts, and those it puts something in the place of. -/
theorem feed_conserves (s : Slot α) (f : Frame α) :
    Accounts (f :: held s) ((s.feed f).1 ++ held (s.feed f).2) (counted s f) (Spares s f) := by
  by_cases hb : usesSessionOrder f.ftype = false ∨ f.epoch = 0
  · obtain ⟨hfeed, hcount, hspares⟩ := feed_bypass (s := s) hb
    rw [hfeed, hcount]
    exact Accounts.all (List.Perm.refl _) hspares
  · obtain ⟨hu, he⟩ := not_or.mp hb
    rw [Bool.not_eq_false] at hu
    by_cases ho : f.ftype = .open
    · exact open_conserves he ho
    · cases hs : s.state with
      | none => exact fresh_conserves hu he ho hs
      | some st =>
          by_cases heq : st.epoch = f.epoch
          · exact current_conserves hu he ho hs heq
          · exact other_conserves hu he ho hs heq

end Step

section Decoder

/-- The frames a decoder keeps, in its reorder states and in front of Opens. -/
def heldFrames (d : MuxDecoder α) : List (Frame α) :=
  contents heldIn d.states ++ contents id d.preopen

theorem length_heldIn (st : SidReorder α) : (heldIn st).length = st.buffered := by
  rw [heldIn, length_contents, SidReorder.buffered, size]
  simp

theorem length_heldFrames (d : MuxDecoder α) : (heldFrames d).length = bufferedFrames d := by
  rw [heldFrames, List.length_append, length_contents, length_contents, bufferedFrames]
  simp only [length_heldIn, id]

/-- What is kept outside the slot of a key. -/
def heldElsewhere (d : MuxDecoder α) (key : UInt16 × Bool) : List (Frame α) :=
  contents heldIn (d.states.erase key) ++ contents id (d.preopen.erase key.1)

theorem heldFrames_split (d : MuxDecoder α) (key : UInt16 × Bool) :
    (heldFrames d).Perm (held (slotAt d key) ++ heldElsewhere d key) := by
  classical
  have hstates := contents_perm heldIn d.states key
  have hpreopen := contents_perm id d.preopen key.1
  have hslot : entry heldIn d.states key = heldBy (slotAt d key).state := by
    rw [entry, slotAt]
    cases find d.states key <;> rfl
  have hwaiting : entry id d.preopen key.1 = (slotAt d key).waiting := by
    rw [entry, slotAt, waitingOf]
    cases find d.preopen key.1 <;> rfl
  rw [hslot] at hstates
  rw [hwaiting] at hpreopen
  rw [heldFrames, heldElsewhere, held]
  rw [List.perm_iff_count] at hstates hpreopen ⊢
  intro g
  have hs := hstates g
  have hp := hpreopen g
  simp only [List.count_append] at hs hp ⊢
  omega

theorem preopen_feedFrame_ne (d : MuxDecoder α) (f : Frame α) {sid : UInt16}
    (h : sid ≠ f.sessionId) : find (feedFrame d f).2.preopen sid = find d.preopen sid := by
  rw [feedFrame]
  split
  · rfl
  split
  · rfl
  split
  · exact (find_erase d.preopen f.sessionId sid).trans (if_neg h)
  split
  · split
    · simp only [feedCurrent]
      split
      · rfl
      split
      · rfl
      split <;> rfl
    split <;> rfl
  · split
    · rfl
    · simp only [holdPreopen]
      split
      · exact (find_insert d.preopen f.sessionId sid _).trans (if_neg h)
      · rfl

theorem heldElsewhere_feedFrame (d : MuxDecoder α) (f : Frame α) :
    (heldElsewhere (feedFrame d f).2 f.key).Perm (heldElsewhere d f.key) := by
  obtain ⟨-, hstates, -⟩ := feedFrame_eq_slot d f
  apply List.Perm.append
  · exact contents_erase_congr heldIn fun key hne => (hstates key).trans (if_neg hne)
  · exact contents_erase_congr id fun sid hne => preopen_feedFrame_ne d f hne

theorem staleDropped_feedFrame (d : MuxDecoder α) (f : Frame α) :
    (feedFrame d f).2.staleDropped = d.staleDropped + counted (slotAt d f.key) f := by
  have hs : (slotAt d f.key).state = find d.states f.key := rfl
  have hw : (slotAt d f.key).waiting = (find d.preopen f.sessionId).getD [] := rfl
  rw [feedFrame, counted, hs, hw]
  split
  · rfl
  split
  · rfl
  split
  · rfl
  cases find d.states f.key with
  | some st =>
      simp only [feedCurrent]
      split
      · split
        · rfl
        split
        · rfl
        split <;> rfl
      split <;> rfl
  | none =>
      simp only [holdPreopen]
      split
      · rfl
      split <;> rfl

theorem feedFrame_conserves (d : MuxDecoder α) (f : Frame α) :
    Accounts (f :: heldFrames d) ((feedFrame d f).1 ++ heldFrames (feedFrame d f).2)
      (counted (slotAt d f.key) f) (Spares (slotAt d f.key) f) := by
  have hslot := feed_conserves (slotAt d f.key) f
  have hbefore := (heldFrames_split d f.key).cons f
  have hafter := (heldFrames_split (feedFrame d f).2 f.key).append_left (feedFrame d f).1
  rw [← (feedFrame_eq_slot d f).1] at hslot
  rw [slotAt_feedFrame, ← List.append_assoc] at hafter
  exact hslot.frame hbefore hafter (heldElsewhere_feedFrame d f)

end Decoder

end SrtVpn.Conservation
