import SrtVpn.Endpoints
import SrtVpn.Isolation
import SrtVpn.SeqNumbers
import SrtVpn.SessionOrder

namespace SrtVpn.RejectedOpen

open BigEndian Tables Wire Encoder SeqNumbers Decoder Slots SessionView SessionOrder
  Dispatch Endpoints

section Machine

variable {α : Type} {sid : UInt16} {epoch : UInt8} {s s' : Slot α} {st st' : SidReorder α}
  {g : Frame α} {p : α}

/-- The frames of a session after its Open, in the generation given. -/
structure OfGeneration (sid : UInt16) (epoch : UInt8) (g : Frame α) : Prop where
  key : g.key = (sid, false)
  epoch_eq : g.epoch = epoch
  ordered : usesSessionOrder g.ftype = true
  not_open : g.ftype ≠ .open

/-- The reorder state lets no frame of the generation pass: it counts as older, or its numbers are
used up. -/
def DropsAll (epoch : UInt8) (st : SidReorder α) : Prop :=
  if st.epoch = epoch then 2 ^ 24 ≤ st.next else newerEpoch epoch st.epoch = false

/-- The reorder state takes the next frame of the generation, whichever it is, as a new start. -/
def Restarts (epoch : UInt8) (st : SidReorder α) : Prop :=
  st.epoch ≠ epoch ∧ newerEpoch epoch st.epoch = true

def Alike (epoch : UInt8) (st st' : SidReorder α) : Prop :=
  (DropsAll epoch st ∧ DropsAll epoch st') ∨ (Restarts epoch st ∧ Restarts epoch st') ∨
    (st.epoch = epoch ∧ st'.epoch = epoch ∧ st.next = st'.next ∧ ∀ k, find st.buf k = none)

theorem feed_ofGeneration (hne : epoch ≠ 0) (hg : OfGeneration sid epoch g)
    (hs : s.state = some st) : s.feed g = if st.epoch = epoch then
        if g.sseq < st.next then ([], s)
        else if g.sseq = st.next then
          ((flushReady { st with next := st.next + 1 } [g]).2,
            { s with state := some (flushReady { st with next := st.next + 1 } [g]).1 })
        else if st.buffered < reorderMax then
          ([], { s with state := some { st with buf := st.buf.insert g.sseq g } })
        else ([], s)
      else if newerEpoch epoch st.epoch then ([g], { s with state := some (baseline g) })
      else ([], s) := by
  simp only [Slot.feed, hg.ordered, hne, hg.not_open, hs, hg.epoch_eq, flushReady_baseline]
  simp

theorem feed_dropsAll (hne : epoch ≠ 0) (hg : OfGeneration sid epoch g) (hs : s.state = some st)
    (hd : DropsAll epoch st) : s.feed g = ([], s) := by
  rw [feed_ofGeneration hne hg hs]
  rw [DropsAll] at hd
  split
  next he =>
    rw [if_pos he] at hd
    rw [if_pos (Nat.lt_of_lt_of_le (sseq_lt g) hd)]
  next he =>
    rw [if_neg he] at hd
    rw [hd]
    rfl

theorem feed_restarts (hne : epoch ≠ 0) (hg : OfGeneration sid epoch g) (hs : s.state = some st)
    (hr : Restarts epoch st) : s.feed g = ([g], { s with state := some (baseline g) }) := by
  rw [feed_ofGeneration hne hg hs, if_neg hr.1, hr.2]
  rfl

theorem run_alike (hne : epoch ≠ 0) (fs : List (Frame α)) (hfs : ∀ g ∈ fs, OfGeneration sid epoch g)
    (hs : s.state = some st) (hs' : s'.state = some st') (hw : s.waiting = s'.waiting)
    (h : st = st' ∨ (DropsAll epoch st ∧ DropsAll epoch st') ∨
      (Restarts epoch st ∧ Restarts epoch st')) :
    (Transducer.run Slot.feed s fs).1 = (Transducer.run Slot.feed s' fs).1 := by
  induction fs with
  | nil => rfl
  | cons g fs ih =>
      obtain ⟨hg, hrest⟩ := List.forall_mem_cons.mp hfs
      rcases h with rfl | ⟨hd, hd'⟩ | ⟨hr, hr'⟩
      · obtain rfl : s = s' := by
          cases s
          cases s'
          simp_all
        rfl
      · rw [Transducer.run_cons, Transducer.run_cons, feed_dropsAll hne hg hs hd,
          feed_dropsAll hne hg hs' hd']
        simp only [List.cons.injEq, true_and]
        exact ih hrest
      · rw [Transducer.run_cons, Transducer.run_cons, feed_restarts hne hg hs hr,
          feed_restarts hne hg hs' hr', hw]

def probe (sid : UInt16) (epoch : UInt8) (p : α) (k : Nat) : Frame α :=
  ⟨.data, sid, seqField ⟨epoch, k⟩, 0, p⟩

theorem probe_ofGeneration {k : Nat} (hk : k < 2 ^ 24) :
    OfGeneration sid epoch (probe sid epoch p k) :=
  ⟨by simp [Frame.key, Frame.dirAcceptor, probe], epoch_seqField ⟨epoch, k⟩ hk, rfl, by simp [probe]⟩

theorem sseq_probe {k : Nat} (hk : k < 2 ^ 24) : (probe sid epoch p k).sseq = k :=
  sseq_seqField ⟨epoch, k⟩ hk

theorem mem_flushReady (st : SidReorder α) (g : Frame α) :
    ∃ fs, (flushReady st [g]).2 = g :: fs := by
  obtain ⟨fs, hout, -⟩ := flushLoop_spec st.buffered st [g]
  exact ⟨fs, hout⟩

/-- The numbers of the generation whose frame the state returns at once. -/
def Takes (epoch : UInt8) (st : SidReorder α) (k : Nat) : Prop :=
  if st.epoch = epoch then k = st.next else newerEpoch epoch st.epoch = true

theorem takes_iff (hne : epoch ≠ 0) {k : Nat} (hk : k < 2 ^ 24) (hs : s.state = some st) :
    (s.feed (probe sid epoch p k)).1 ≠ [] ↔ Takes epoch st k := by
  rw [feed_ofGeneration hne (probe_ofGeneration hk) hs, sseq_probe hk, Takes]
  split
  · split
    next hlt => simp [Nat.ne_of_lt hlt]
    split
    next heq =>
      obtain ⟨fs, hout⟩ := mem_flushReady { st with next := st.next + 1 } (probe sid epoch p k)
      rw [hout]
      simp [heq]
    next hne =>
      split <;> simp [hne]
  · split
    next hnew => simp [hnew]
    next hnew => simp [hnew]

theorem alike_of_takes (h : ∀ k, k < 2 ^ 24 → (Takes epoch st k ↔ Takes epoch st' k)) :
    (DropsAll epoch st ∧ DropsAll epoch st') ∨ (Restarts epoch st ∧ Restarts epoch st') ∨
      (st.epoch = epoch ∧ st'.epoch = epoch ∧ st.next = st'.next) := by
  -- a state of the generation takes one number at most, a restarting state every one
  have mixed {x y : SidReorder α} (hx : x.epoch = epoch) (hy : y.epoch ≠ epoch)
      (hxy : ∀ k, k < 2 ^ 24 → (Takes epoch x k ↔ Takes epoch y k)) : DropsAll epoch x ∧
      DropsAll epoch y := by
    simp only [Takes, hx, hy, if_true, if_false] at hxy
    have hnew : newerEpoch epoch y.epoch = false := by
      by_contra hnew
      have hall : ∀ k, k < 2 ^ 24 → k = x.next := fun k hk => (hxy k hk).mpr (by simpa using hnew)
      have h0 := hall 0 (by decide)
      have h1 := hall 1 (by decide)
      omega
    simp only [DropsAll, hx, hy, if_true, if_false]
    refine ⟨?_, hnew⟩
    by_contra hlt
    have htake := (hxy x.next (by omega)).mp rfl
    simp [hnew] at htake
  by_cases he : st.epoch = epoch
  · by_cases he' : st'.epoch = epoch
    · simp only [Takes, he, he', if_true] at h
      by_cases hn : st.next < 2 ^ 24
      · exact Or.inr (Or.inr ⟨he, he', (h st.next hn).mp rfl⟩)
      · by_cases hn' : st'.next < 2 ^ 24
        · exact Or.inr (Or.inr ⟨he, he', ((h st'.next hn').mpr rfl).symm⟩)
        · simp only [DropsAll, he, he', if_true]
          exact Or.inl ⟨by omega, by omega⟩
    · exact Or.inl (mixed he he' h)
  · by_cases he' : st'.epoch = epoch
    · exact Or.inl (mixed he' he fun k hk => (h k hk).symm).symm
    · have h0 := h 0 (by decide)
      simp only [Takes, he, he', if_false] at h0
      cases hnew : newerEpoch epoch st.epoch with
      | true => exact Or.inr (Or.inl ⟨⟨he, hnew⟩, he', h0.mp hnew⟩)
      | false =>
          simp only [DropsAll, he, he', if_false]
          refine Or.inl ⟨hnew, ?_⟩
          rw [hnew] at h0
          simpa using h0

theorem feed_next (sid : UInt16) (p : α) (hne : epoch ≠ 0) (hn : st.next < 2 ^ 24)
    (hs : s.state = some st) (he : st.epoch = epoch) :
    ∃ fs st', s.feed (probe sid epoch p st.next) =
      (probe sid epoch p st.next :: fs, { s with state := some st' }) ∧
      (∀ i x, fs[i]? = some x → find st.buf (st.next + 1 + i) = some x) ∧
      st'.epoch = epoch ∧ st'.next = st.next + 1 + fs.length ∧ find st'.buf st'.next = none ∧
      (∀ k, st'.next ≤ k → find st'.buf k = find st.buf k) ∧ ∀ k x, find st'.buf k = some x →
      find st.buf k = some x := by
  obtain ⟨fs, hout, hep, hnext, hfs, hbuf⟩ :=
    flushLoop_spec (SidReorder.buffered { st with next := st.next + 1 })
    { st with next := st.next + 1 } [probe sid epoch p st.next]
  refine ⟨fs, (flushReady { st with next := st.next + 1 } [probe sid epoch p st.next]).1, ?_, hfs,
    hep.trans he, hnext, flushReady_gap _ _, fun k hk => ?_, fun k x hx => ?_⟩
  · rw [feed_ofGeneration hne (probe_ofGeneration hn) hs, if_pos he, sseq_probe hn,
      if_neg (Nat.lt_irrefl _), if_pos rfl]
    exact Prod.ext hout rfl
  · rw [flushReady, hnext] at hk
    rw [flushReady, hbuf, if_neg]
    rintro ⟨-, hlt⟩
    omega
  · have hstored := flushReady_stored hx
    exact hstored

theorem differ_of_buffered (sid : UInt16) (p : α) (hne : epoch ≠ 0) (m : Nat) {k : Nat}
    (hk : k < 2 ^ 24) (hm : k = st.next + m) (hpos : m ≠ 0) (hs : s.state = some st)
    (hs' : s'.state = some st') (he : st.epoch = epoch)
    (he' : st'.epoch = epoch) (hnext : st.next = st'.next) (hbuf : find st.buf k = some g)
    (hempty : ∀ i, find st'.buf i = none) :
    ∃ later, (∀ x ∈ later, OfGeneration sid epoch x) ∧
      (Transducer.run Slot.feed s later).1 ≠ (Transducer.run Slot.feed s' later).1 := by
  induction m generalizing s s' st st' with
  | zero => exact absurd rfl hpos
  | succ m ih =>
      have hn : st.next < 2 ^ 24 := by omega
      obtain ⟨fs, st1, hfeed, -, hep1, hnext1, hgap, hkeep, -⟩ := feed_next sid p hne hn hs he
      obtain ⟨fs', st1', hfeed', hstored, hep1', hnext1', -, -, hold⟩ :=
        feed_next sid p hne (hnext ▸ hn) hs' he'
      obtain rfl : fs' = [] := by
        apply List.eq_nil_iff_forall_not_mem.mpr
        intro x hx
        obtain ⟨i, hi⟩ := List.mem_iff_getElem?.mp hx
        have hfind := hstored i x hi
        rw [hempty] at hfind
        simp at hfind
      rw [← hnext] at hfeed' hnext1'
      cases fs with
      | cons x fs =>
          refine ⟨[probe sid epoch p st.next], by simpa using probe_ofGeneration hn, ?_⟩
          simp [hfeed, hfeed']
      | nil =>
          simp only [List.length_nil, Nat.add_zero] at hnext1 hnext1'
          have hbuf1 : find st1.buf k = some g := by rw [hkeep k (by omega), hbuf]
          have hm0 : m ≠ 0 := by
            rintro rfl
            rw [hnext1, ← hm, hbuf1] at hgap
            simp at hgap
          have hempty1 : ∀ i, find st1'.buf i = none := by
            intro i
            by_contra hsome
            obtain ⟨x, hx⟩ := Option.ne_none_iff_exists'.mp hsome
            have hfind := hold i x hx
            rw [hempty] at hfind
            simp at hfind
          have hs1 : ({ s with state := some st1 } : Slot α).state = some st1 := rfl
          have hs1' : ({ s' with state := some st1' } : Slot α).state = some st1' := rfl
          obtain ⟨later, hlater, hdiff⟩ :=
            ih (by omega) hm0 hs1 hs1' hep1 hep1' (by omega) hbuf1 hempty1
          refine ⟨probe sid epoch p st.next :: later,
            List.forall_mem_cons.mpr ⟨probe_ofGeneration hn, hlater⟩, ?_⟩
          rw [Transducer.run_cons, Transducer.run_cons, hfeed, hfeed']
          simpa using hdiff

theorem eq_empty_of_find {K V : Type} [DecidableEq K] {t : Table K V} (h : ∀ k, find t k = none) :
    t = ∅ := by
  apply AList.ext
  apply List.eq_nil_iff_forall_not_mem.mpr
  rintro ⟨k, v⟩ hmem
  have hfind : find t k = some v := AList.mem_lookup_iff.mpr hmem
  rw [h] at hfind
  simp at hfind

/-- Two reorder states, the second with an empty buffer, return the same for all frames of a
generation exactly when they treat it alike. -/
theorem returns_iff_alike (sid : UInt16) (p : α) (hne : epoch ≠ 0) (hs : s.state = some st)
    (hs' : s'.state = some st') (hw : s.waiting = s'.waiting)
    (htidy : ∀ k g, find st.buf k = some g → st.next < k ∧ k < 2 ^ 24)
    (hempty : st'.buf = ∅) :
    (∀ later, (∀ x ∈ later, OfGeneration sid epoch x) →
      (Transducer.run Slot.feed s later).1 = (Transducer.run Slot.feed s' later).1) ↔
      Alike epoch st st' := by
  constructor
  · intro h
    have htakes : ∀ k, k < 2 ^ 24 → (Takes epoch st k ↔ Takes epoch st' k) := by
      intro k hk
      have hrun := h [probe sid epoch p k] (by simpa using probe_ofGeneration hk)
      simp only [Transducer.run_cons, Transducer.run_nil, List.cons.injEq, and_true] at hrun
      rw [← takes_iff hne hk hs, hrun, takes_iff hne hk hs']
    rcases alike_of_takes htakes with hd | hr | ⟨he, he', hnext⟩
    · exact Or.inl hd
    · exact Or.inr (Or.inl hr)
    · refine Or.inr (Or.inr ⟨he, he', hnext, fun k => ?_⟩)
      by_contra hsome
      obtain ⟨g, hg⟩ := Option.ne_none_iff_exists'.mp hsome
      obtain ⟨hlt, hk⟩ := htidy k g hg
      obtain ⟨later, hlater, hdiff⟩ :=
        differ_of_buffered sid p hne (k - st.next) hk (by omega) (by omega) hs hs' he he'
        hnext hg (by simp [hempty])
      exact hdiff (h later hlater)
  · rintro (hd | hr | ⟨he, he', hnext, hnone⟩) later hlater
    · exact run_alike hne later hlater hs hs' hw (Or.inr (Or.inl hd))
    · exact run_alike hne later hlater hs hs' hw (Or.inr (Or.inr hr))
    · have hst : st = st' := by
        have hbuf : st.buf = st'.buf := by rw [hempty, eq_empty_of_find hnone]
        cases st
        cases st'
        simp_all
      exact run_alike hne later hlater hs hs' hw (Or.inl hst)

end Machine

section Reached

variable {α : Type} {s : Slot α} {f : Frame α}

structure Ready (s : Slot α) : Prop where
  settled : Settled s
  ahead : ∀ st, s.state = some st → ∀ k g, find st.buf k = some g → st.next < k ∧ k < 2 ^ 24

theorem flushReady_ahead {st : SidReorder α} {out : List (Frame α)}
    (h : ∀ k g, find st.buf k = some g → st.next ≤ k ∧ k < 2 ^ 24) :
    ∀ k g, find (flushReady st out).1.buf k = some g →
    (flushReady st out).1.next < k ∧ k < 2 ^ 24 := by
  intro k g hk
  exact ⟨flushReady_above (fun k g hk => (h k g hk).1) hk, (h k g (flushReady_stored hk)).2⟩

theorem Ready.feed (h : Ready s) (hd : f.dirAcceptor = false) : Ready (s.feed f).2 := by
  refine ⟨h.settled.feed hd, ?_⟩
  simp only [Slot.feed, hd]
  split
  · exact h.ahead
  split
  · exact h.ahead
  split
  · intro st hst
    obtain rfl := Option.some.inj hst
    apply flushReady_ahead
    intro k g hk
    obtain ⟨-, hn, hb⟩ := mergeWaiting_spec (baseline f) s.waiting
    rcases hb k g hk with hk | ⟨-, rfl, -, hle⟩
    · simp [baseline] at hk
    · rw [hn]
      exact ⟨hle, sseq_lt g⟩
  split
  next st hs =>
    split
    · split
      · exact h.ahead
      split
      · intro st' hst
        obtain rfl := Option.some.inj hst
        apply flushReady_ahead
        intro k g hk
        exact h.ahead st hs k g hk
      split
      next hlt hne _ =>
        intro st' hst k g hk
        obtain rfl := Option.some.inj hst
        rw [find_insert] at hk
        split at hk
        next heq =>
          have hlt' := sseq_lt f
          simp only
          omega
        next => exact h.ahead st hs k g hk
      · exact h.ahead
    split
    · intro st' hst k g hk
      obtain rfl := Option.some.inj hst
      rw [flushReady_baseline] at hk
      simp [baseline] at hk
    · exact h.ahead
  next hs =>
    rw [if_neg (by simp)]
    split
    · exact h.ahead
    · exact h.ahead

theorem waiting_feed_acceptor (hd : f.dirAcceptor = true) :
    (s.feed f).2.waiting = s.waiting ∨ (s.feed f).2.waiting = [] := by
  by_cases ho : f.ftype = .open
  · rw [Slot.feed]
    split
    · exact Or.inl rfl
    split
    · exact Or.inl rfl
    · exact Or.inr rfl
  · obtain ⟨st, w⟩ := s
    rw [Isolation.feed_acceptor st w f hd ho]
    exact Or.inl rfl

def Clean (d : MuxDecoder α) : Prop := ∀ sid, Ready (slotAt d (sid, false))

theorem clean_new : Clean (MuxDecoder.new : MuxDecoder α) := by
  intro sid
  rw [slotAt_new]
  exact ⟨Or.inl rfl, by simp [Slot.empty]⟩

theorem clean_feedFrame {d : MuxDecoder α} (f : Frame α) (h : Clean d) :
    Clean (feedFrame d f).2 := by
  intro sid
  by_cases hsid : f.sessionId = sid
  · cases hd : f.dirAcceptor with
    | false =>
        have hkey : f.key = (sid, false) := Prod.ext hsid hd
        rw [← hkey, slotAt_feedFrame, hkey]
        exact (h sid).feed hd
    | true =>
        obtain ⟨-, hstates, hwait⟩ := feedFrame_eq_slot d f
        have hkey : (sid, false) ≠ f.key :=
          fun hk => by simpa [Frame.key, hd] using congrArg Prod.snd hk
        have hslot : slotAt (feedFrame d f).2 (sid, false) =
            ⟨find d.states (sid, false), ((slotAt d f.key).feed f).2.waiting⟩ := by
          rw [slotAt, hstates, if_neg hkey, hwait, if_pos hsid.symm]
        have hold : (slotAt d f.key).waiting = (slotAt d (sid, false)).waiting :=
          congrArg (waitingOf d) hsid
        rw [hslot]
        refine ⟨?_, (h sid).ahead⟩
        rcases waiting_feed_acceptor (s := slotAt d f.key) hd with hw | hw
        · rcases (h sid).settled with hs | hs
          · exact Or.inl hs
          · exact Or.inr (by rw [hw, hold, hs])
        · exact Or.inr hw
  · rw [slotAt_feedFrame_ne d f _ hsid]
    exact h sid

theorem feedFrame_keeps_state {d : MuxDecoder α} {key : UInt16 × Bool} {st : SidReorder α}
    (f : Frame α) (hs : find d.states key = some st) :
    ∃ st', find (feedFrame d f).2.states key = some st' := by
  obtain ⟨-, hstates, -⟩ := feedFrame_eq_slot d f
  rw [hstates]
  split
  next hkey =>
    subst hkey
    exact Slot.feed_keeps_state (s := slotAt d f.key) hs
  next => exact ⟨st, hs⟩

end Reached

section Server

def receive (d : MuxDecoder Tagged) (g : Msg) : List Msg × MuxDecoder Tagged :=
  feedFrame (countRx d) g

def received (past : List Msg) : MuxDecoder Tagged := (Transducer.run receive .new past).2

theorem clean_received (past : List Msg) : Clean (received past) :=
  Transducer.run_invariant Clean past
    (fun d g _ h => clean_feedFrame g (d := countRx d) h) .new clean_new

theorem opened_received (past : List Msg) (d : MuxDecoder Tagged) {o : Msg} (ho : o.ftype = .open)
    (hne : o.epoch ≠ 0) (h : (∃ st, find d.states o.key = some st) ∨ o ∈ past) :
    ∃ st, find (Transducer.run receive d past).2.states o.key = some st := by
  induction past generalizing d with
  | nil => exact h.resolve_right (by simp)
  | cons g past ih =>
      apply ih
      rcases h with ⟨st, hs⟩ | hmem
      · exact Or.inl (feedFrame_keeps_state (d := countRx d) g hs)
      · rcases List.mem_cons.mp hmem with rfl | hmem
        · refine Or.inl ?_
          obtain ⟨-, hstates, -⟩ := feedFrame_eq_slot (countRx d) o
          rw [receive, hstates, if_pos rfl]
          exact ⟨_, by simp [Slot.feed, ho, hne, usesSessionOrder]; rfl⟩
        · exact Or.inr hmem

theorem run_receive (later : List Msg) (d : MuxDecoder Tagged) {key : UInt16 × Bool}
    (hlater : ∀ g ∈ later, g.key = key) :
    (Transducer.run receive d later).1 = (Transducer.run Slot.feed (slotAt d key) later).1 := by
  induction later generalizing d with
  | nil => rfl
  | cons g later ih =>
      obtain ⟨rfl, hrest⟩ := List.forall_mem_cons.mp hlater
      rw [Transducer.run_cons, Transducer.run_cons, ih _ hrest]
      have hout := (feedFrame_eq_slot (countRx d) g).1
      have hslot := slotAt_feedFrame (countRx d) g
      rw [receive, hout, hslot]
      rfl

theorem serverRecv_eq (s : Sys) (f : Msg) :
    (serverRecv s f).serverDec = (receive s.serverDec f).2 ∧
      (serverRecv s f).serverReg = (receive s.serverDec f).1.foldl regAfter s.serverReg := by
  simp only [serverRecv, serverDec_foldl, serverReg_foldl]
  exact ⟨rfl, rfl⟩

theorem serverReg_run (later : List Msg) (s : Sys) :
    (later.foldl serverRecv s).serverReg =
      (Transducer.run receive s.serverDec later).1.flatten.foldl regAfter s.serverReg := by
  induction later generalizing s with
  | nil => rfl
  | cons g later ih =>
      rw [List.foldl_cons, ih, (serverRecv_eq s g).1, (serverRecv_eq s g).2, Transducer.run_cons,
        List.flatten_cons, List.foldl_append]

/-- The frames of the session's generation that come later are returned, and put into its channel,
in the second state as they are in the first. -/
def Undisturbed (s s' : Sys) (sid : UInt16) (epoch : UInt8) (c : Nat) : Prop :=
  ∀ later, (∀ g ∈ later, OfGeneration sid epoch g) →
    (Transducer.run receive s'.serverDec later).1 = (Transducer.run receive s.serverDec later).1 ∧
      (later.foldl serverRecv s').serverReg.channels[c]? =
        (later.foldl serverRecv s).serverReg.channels[c]?

theorem receive_open {d : MuxDecoder Tagged} (hd : Clean d) {f : Msg} (hopen : f.ftype = .open)
    {st : SidReorder Tagged} (hst : find d.states (f.sessionId, false) = some st) :
    (receive d f).1 = [f] ∧ slotAt (receive d f).2 (f.sessionId, false) =
      if f.epoch = 0 ∨ f.dirAcceptor = true then slotAt d (f.sessionId, false)
      else ⟨some (baseline f), []⟩ := by
  have hwait : waitingOf d f.sessionId = [] :=
    (hd f.sessionId).settled.resolve_left (by simp [slotAt, hst])
  obtain ⟨hout, hstates, hw⟩ := feedFrame_eq_slot (countRx d) f
  have hfeed : (slotAt (countRx d) f.key).feed f =
      if f.epoch = 0 then ([f], slotAt d f.key) else ([f], ⟨some (baseline f), []⟩) := by
    have hwait' : (slotAt (countRx d) f.key).waiting = [] := hwait
    simp only [Slot.feed, hopen, usesSessionOrder, hwait', mergeWaiting, flushReady_baseline]
    simp only [Bool.true_eq_false, if_false, if_true]
    rfl
  have hslot : slotAt (feedFrame (countRx d) f).2 (f.sessionId, false) =
      ⟨find (feedFrame (countRx d) f).2.states (f.sessionId, false),
        waitingOf (feedFrame (countRx d) f).2 f.sessionId⟩ := rfl
  rw [receive, hout, hslot, hstates, hw, hfeed, if_pos rfl]
  by_cases he : f.epoch = 0
  · simp only [he, if_true, true_or]
    refine ⟨trivial, ?_⟩
    split
    next hkey => rw [← hkey]
    next => rfl
  · simp only [he, if_false, false_or]
    refine ⟨trivial, ?_⟩
    cases hdir : f.dirAcceptor with
    | false => simp [Frame.key, hdir]
    | true => simp [Frame.key, hdir, slotAt, hwait, countRx]

/-- An Open refused by the registry leaves the session alone exactly when it has no generation,
carries the flag of the return direction, or happens to install a reorder state that treats the
session's generation as the one it replaces. -/
theorem rejected_open_ignored_iff (s : Sys) (past : List Msg) (hdec : s.serverDec = received past)
    (o : Msg) (ho : o ∈ past) (hoo : o.ftype = .open) (hdir : o.dirAcceptor = false)
    (hne : o.epoch ≠ 0)
    (c : Nat) (hreg : find s.serverReg.sessions o.sessionId = some c)
    (f : Msg) (hopen : f.ftype = .open) (hsid : f.sessionId = o.sessionId) :
    Undisturbed s (serverRecv s f) o.sessionId o.epoch c ↔
      f.epoch = 0 ∨ f.dirAcceptor = true ∨
        ∃ st, find s.serverDec.states (o.sessionId, false) = some st ∧
        Alike o.epoch st (baseline f) := by
  have hkey : o.key = (o.sessionId, false) := Prod.ext rfl hdir
  obtain ⟨st, hst⟩ := opened_received past .new hoo hne (Or.inr ho)
  have hclean : Clean s.serverDec := hdec ▸ clean_received past
  rw [← received, ← hdec, hkey] at hst
  obtain ⟨hout, hslot⟩ := receive_open hclean hopen (hsid ▸ hst)
  rw [hsid] at hslot
  obtain ⟨hdec', hreg'⟩ := serverRecv_eq s f
  have hsame : (serverRecv s f).serverReg = s.serverReg := by
    rw [hreg', hout, List.foldl_cons, List.foldl_nil, regAfter]
    simp [dispatchFrame, hopen, SessionRegistry.registerSpecific, hsid, hreg]
  have hiff : Undisturbed s (serverRecv s f) o.sessionId o.epoch c ↔
      ∀ later, (∀ g ∈ later, OfGeneration o.sessionId o.epoch g) →
        (Transducer.run Slot.feed (slotAt s.serverDec (o.sessionId, false)) later).1 =
          (Transducer.run Slot.feed
            (slotAt (receive s.serverDec f).2 (o.sessionId, false)) later).1 := by
    constructor
    · intro h later hlater
      have hrun := (h later hlater).1
      rw [hdec', run_receive later _ fun g hg => (hlater g hg).key,
        run_receive later _ fun g hg => (hlater g hg).key] at hrun
      exact hrun.symm
    · intro h later hlater
      have hrun : (Transducer.run receive (serverRecv s f).serverDec later).1 =
          (Transducer.run receive s.serverDec later).1 := by
        rw [hdec', run_receive later _ fun g hg => (hlater g hg).key,
          run_receive later _ fun g hg => (hlater g hg).key]
        exact (h later hlater).symm
      refine ⟨hrun, ?_⟩
      rw [serverReg_run, serverReg_run, hrun, hsame]
  rw [hiff, hslot]
  by_cases hpass : f.epoch = 0 ∨ f.dirAcceptor = true
  · rw [if_pos hpass]
    have hleft : f.epoch = 0 ∨ f.dirAcceptor = true ∨
        ∃ st, find s.serverDec.states (o.sessionId, false) = some st ∧
        Alike o.epoch st (baseline f) :=
      hpass.imp id Or.inl
    exact ⟨fun _ => hleft, fun _ _ _ => rfl⟩
  · rw [if_neg hpass]
    have hwait : (slotAt s.serverDec (o.sessionId, false)).waiting = [] :=
      (hclean o.sessionId).settled.resolve_left (by simp [slotAt, hst])
    rw [returns_iff_alike o.sessionId (0, []) hne hst rfl hwait
      ((hclean o.sessionId).ahead st hst) rfl]
    simp only [hst, Option.some.injEq, exists_eq_left', ← or_assoc, hpass, false_or]

/-- The Open comes again, one number before the frame the session waits for. -/
theorem rejected_open_ignored_repeated :
    let o : Msg := ⟨.open, 1, 0x01000000, 0, (0, [])⟩
    Undisturbed (serverRecv (start true) o) (serverRecv (serverRecv (start true) o) o)
      1 o.epoch 0 := by
  intro o
  apply (rejected_open_ignored_iff (serverRecv (start true) o) [o] (serverRecv_eq _ o).1 o
    (by decide) rfl (by decide) (by decide) 0 (by decide) o rfl rfl).mpr
  have hst : find (serverRecv (start true) o).serverDec.states (1, false) = some (baseline o) := by
    have hkey : o.key = (1, false) := by decide
    have hslot := congrArg Slot.state (slotAt_feedFrame (countRx .new) o)
    have hepoch : o.epoch ≠ 0 := by decide
    have hfeed : (Slot.empty.feed o).2.state = some (baseline o) := by
      rw [Slot.feed, if_neg (by decide), if_neg hepoch, if_pos rfl]
      rfl
    rw [(serverRecv_eq _ o).1, ← hkey]
    exact hslot.trans hfeed
  exact Or.inr (Or.inr ⟨baseline o, hst, Or.inr (Or.inr ⟨rfl, rfl, rfl, fun k => rfl⟩)⟩)

/-- An Open of the next generation, refused, has the decoder drop every further frame of the
session. -/
theorem rejected_open_silences_session :
    let o : Msg := ⟨.open, 1, 0x01000000, 0, (0, [])⟩
    let f : Msg := ⟨.open, 1, 0x02000000, 0, (1, [])⟩
    let s := serverRecv (start true) o
    find s.serverReg.sessions 1 = some 0 ∧ (s.serverReg.registerSpecific 1).1 = none ∧
      ¬ Undisturbed s (serverRecv s f) 1 1 0 := by
  intro o f s
  refine ⟨by decide, by decide, fun h => ?_⟩
  have hg : ∀ g ∈ [(⟨.data, 1, 0x01000001, 0, (0, [7])⟩ : Msg)], OfGeneration 1 1 g := by
    intro g hg
    obtain rfl := List.mem_singleton.mp hg
    exact ⟨by decide, by decide, rfl, by decide⟩
  exact absurd (h _ hg).1 (by decide)

end Server

end SrtVpn.RejectedOpen
