import SrtVpn.Runs
import SrtVpn.SessionOrder
import SrtVpn.SessionView

namespace SrtVpn.Duplicates

open BigEndian Tables Wire Decoder Slots SessionView SessionOrder

variable {α : Type}

/-- The slot of the frame is in the generation of the frame. -/
def Current (d : MuxDecoder α) (f : Frame α) : Prop :=
  ∃ st, find d.states f.key = some st ∧ st.epoch = f.epoch

def Passed (d : MuxDecoder α) (f : Frame α) : Prop :=
  ∃ st, find d.states f.key = some st ∧ st.epoch = f.epoch ∧ f.sseq < st.next

def Harmless (d : MuxDecoder Bytes) (msg : Bytes) : Prop :=
  (feed d msg).1 = [] ∧ (feed d msg).2.states = d.states ∧ (feed d msg).2.preopen = d.preopen

/-- An Open of the session comes from the opener and starts a generation other than the one its slot
is in. -/
def FreshOpen (sid : UInt16) (d : MuxDecoder α) (f : Frame α) : Prop :=
  f.ftype = .open → f.epoch ≠ 0 → f.sessionId = sid → f.dirAcceptor = false ∧ ¬ Current d f

/-- What the slots of a session hold: every buffered frame is filed under its own number, in the
generation and the direction of its slot. -/
structure Filed (sid : UInt16) (d : MuxDecoder α) : Prop where
  epoch : ∀ dir st, find d.states (sid, dir) = some st → st.epoch ≠ 0
  buffered : ∀ dir st k g, find d.states (sid, dir) = some st → find st.buf k = some g →
    g.sseq = k ∧ g.epoch = st.epoch ∧ g.key = (sid, dir)
  waiting : ∀ g ∈ waitingOf d sid, g.key = (sid, false)

theorem flushReady_returned {st : SidReorder α} {out : List (Frame α)} {g : Frame α}
    (hkeyed : ∀ k x, find st.buf k = some x → x.sseq = k) (h : g ∈ (flushReady st out).2) :
    g ∈ out ∨ (find st.buf g.sseq = some g ∧ g.sseq < (flushReady st out).1.next) := by
  obtain ⟨fs, hout, -, hnext, hfs, -⟩ := flushLoop_spec st.buffered st out
  rw [flushReady, hout, List.mem_append] at h
  rcases h with h | h
  · exact Or.inl h
  · obtain ⟨i, hi⟩ := List.mem_iff_getElem?.mp h
    have hlt := (List.getElem?_eq_some_iff.mp hi).1
    have hseq := hkeyed _ g (hfs i g hi)
    refine Or.inr ⟨hseq ▸ hfs i g hi, ?_⟩
    rw [flushReady, hnext, hseq]
    omega

section Step

variable {sid : UInt16} {d : MuxDecoder α} {f g : Frame α}

/-- What the slot of a frame holds after the frame was fed, and what was returned. -/
structure Outcome (key : UInt16 × Bool) (st : SidReorder α) (out : List (Frame α)) : Prop where
  epoch : st.epoch ≠ 0
  buffered : ∀ k g, find st.buf k = some g → g.sseq = k ∧ g.epoch = st.epoch ∧ g.key = key
  returned : ∀ g ∈ out, g.key = key ∧ g.epoch = st.epoch ∧ g.sseq < st.next

theorem Outcome.flush {key : UInt16 × Bool} {st : SidReorder α} {out : List (Frame α)}
    (h : Outcome key st out) : Outcome key (flushReady st out).1 (flushReady st out).2 := by
  have hep := flushReady_epoch st out
  refine ⟨by rw [hep]; exact h.epoch, fun k g hk => ?_, fun g hg => ?_⟩
  · rw [hep]
    exact h.buffered k g (flushReady_stored hk)
  · rw [hep]
    rcases flushReady_returned (fun k x hx => (h.buffered k x hx).1) hg with hg | ⟨hbuf, hlt⟩
    · obtain ⟨hkey, he, hlt⟩ := h.returned g hg
      exact ⟨hkey, he, Nat.lt_of_lt_of_le hlt (flushReady_next_le st out)⟩
    · obtain ⟨-, he, hkey⟩ := h.buffered _ g hbuf
      exact ⟨hkey, he, hlt⟩

theorem outcome_baseline (he : f.epoch ≠ 0) : Outcome f.key (baseline f) [f] := by
  refine ⟨he, fun k g hk => by simp [baseline] at hk, fun g hg => ?_⟩
  obtain rfl := List.mem_singleton.mp hg
  exact ⟨rfl, rfl, Nat.lt_succ_self _⟩

theorem Outcome.silent {key : UInt16 × Bool} {st : SidReorder α} {out : List (Frame α)}
    (h : Outcome key st out) : Outcome key st [] := ⟨h.epoch, h.buffered, by simp⟩

structure Ready (f : Frame α) (s : Slot α) : Prop where
  held : ∀ st, s.state = some st → Outcome f.key st []
  waiting : ∀ g ∈ s.waiting, g.key = (f.sessionId, false)

theorem outcome_opened {s : Slot α} (h : Ready f s) (he : f.epoch ≠ 0)
    (hdir : f.dirAcceptor = false) : Outcome f.key (mergeWaiting (baseline f) s.waiting).1 [f] := by
  obtain ⟨hep, hnext, hbuf⟩ := mergeWaiting_spec (baseline f) s.waiting
  have hkey : f.key = (f.sessionId, false) := by rw [Frame.key, hdir]
  refine ⟨by rw [hep]; exact he, fun k g hk => ?_, fun g hg => ?_⟩
  · rcases hbuf k g hk with hk | ⟨hg, hseq, hge, -⟩
    · simp [baseline] at hk
    · exact ⟨hseq, hge.trans hep.symm, (h.waiting g hg).trans hkey.symm⟩
  · obtain rfl := List.mem_singleton.mp hg
    rw [hep, hnext]
    exact ⟨rfl, rfl, Nat.lt_succ_self _⟩

theorem outcome_next {st : SidReorder α} (h : Outcome f.key st []) (he : st.epoch = f.epoch)
    (hseq : f.sseq = st.next) : Outcome f.key { st with next := st.next + 1 } [f] := by
  refine ⟨h.epoch, h.buffered, fun g hg => ?_⟩
  obtain rfl := List.mem_singleton.mp hg
  exact ⟨rfl, he.symm, hseq ▸ Nat.lt_succ_self _⟩

theorem outcome_ahead {st : SidReorder α} (h : Outcome f.key st []) (he : st.epoch = f.epoch) :
    Outcome f.key { st with buf := st.buf.insert f.sseq f } [] := by
  refine ⟨h.epoch, fun k g hk => ?_, by simp⟩
  rw [find_insert] at hk
  split at hk
  next hk' =>
    obtain rfl := Option.some.inj hk
    exact ⟨hk'.symm, he.symm, rfl⟩
  next => exact h.buffered k g hk

theorem feed_outcome {s : Slot α} (h : Ready f s) (hu : usesSessionOrder f.ftype = true)
    (he : f.epoch ≠ 0) (hopen : f.ftype = .open → f.dirAcceptor = false) :
    (∀ st, (s.feed f).2.state = some st → Outcome f.key st (s.feed f).1) ∧
      ((s.feed f).2.state = none → (s.feed f).1 = []) ∧ ∀ g ∈ (s.feed f).2.waiting,
        g.key = (f.sessionId, false) := by
  have same (h' : Ready f s) : (∀ st, s.state = some st → Outcome f.key st []) ∧
      (s.state = none → ([] : List (Frame α)) = []) ∧ ∀ g ∈ s.waiting,
      g.key = (f.sessionId, false) :=
    ⟨h'.held, fun _ => rfl, h'.waiting⟩
  have put {st : SidReorder α} {out : List (Frame α)} (w : List (Frame α))
      (ho : Outcome f.key st out) (hw : ∀ g ∈ w, g.key = (f.sessionId, false)) :
      (∀ st', some st = some st' → Outcome f.key st' out) ∧ (some st = none → out = []) ∧
        ∀ g ∈ w, g.key = (f.sessionId, false) :=
    ⟨fun st' hst => Option.some.inj hst ▸ ho, fun hn => by simp at hn, hw⟩
  rw [Slot.feed, if_neg (by simp [hu]), if_neg he]
  split
  next ho => exact put [] (outcome_opened h he (hopen ho)).flush (by simp)
  split
  next st hst =>
    have hheld := h.held st hst
    split
    next hep =>
      split
      · exact same h
      split
      next hseq => exact put s.waiting (outcome_next hheld hep hseq).flush h.waiting
      split
      · exact put s.waiting (outcome_ahead hheld hep) h.waiting
      · exact same h
    split
    · exact put s.waiting (outcome_baseline he).flush h.waiting
    · exact same h
  next hst =>
    split
    · exact put s.waiting (outcome_baseline he).flush h.waiting
    next hdir =>
      split
      · refine ⟨fun st hs => by simp [hst] at hs, fun _ => rfl, fun g hg => ?_⟩
        rcases List.mem_append.mp hg with hg | hg
        · exact h.waiting g hg
        · obtain rfl := List.mem_singleton.mp hg
          rw [Frame.key, Bool.eq_false_iff.mpr hdir]
      · exact same h

theorem Filed.ready (h : Filed f.sessionId d) : Ready f (slotAt d f.key) := by
  refine ⟨fun st hst => ⟨h.epoch f.dirAcceptor st hst,
    fun k g hk => h.buffered f.dirAcceptor st k g hst hk, by simp⟩, ?_⟩
  exact h.waiting

theorem filed_new : Filed sid (MuxDecoder.new : MuxDecoder α) := by
  refine ⟨fun dir st h => ?_, fun dir st k g h _ => ?_, fun g hg => ?_⟩
  · simp [MuxDecoder.new] at h
  · simp [MuxDecoder.new] at h
  · simp [waitingOf, MuxDecoder.new] at hg

theorem feedFrame_bypass (d : MuxDecoder α) (h : usesSessionOrder f.ftype = false ∨ f.epoch = 0) :
    feedFrame d f = ([f], d) := by
  rw [feedFrame]
  split
  · rfl
  next hu => rw [if_pos (h.resolve_left hu)]

theorem filed_feedFrame (h : Filed sid d) (hfresh : FreshOpen sid d f) :
    Filed sid (feedFrame d f).2 := by
  by_cases hby : usesSessionOrder f.ftype = false ∨ f.epoch = 0
  · rw [feedFrame_bypass d hby]
    exact h
  · obtain ⟨hu, he⟩ := not_or.mp hby
    obtain ⟨-, hst, hw⟩ := feedFrame_eq_slot d f
    by_cases hsid : f.sessionId = sid
    · subst hsid
      obtain ⟨hheld, -, hwait⟩ :=
        feed_outcome h.ready (by simpa using hu) he fun ho => (hfresh ho he rfl).1
      refine ⟨fun dir st hs => ?_, fun dir st k g hs hk => ?_, fun g hg => ?_⟩
      · rw [hst] at hs
        split at hs
        · exact (hheld st hs).epoch
        · exact h.epoch dir st hs
      · rw [hst] at hs
        split at hs
        next hkey =>
          rw [hkey]
          exact (hheld st hs).buffered k g hk
        · exact h.buffered dir st k g hs hk
      · rw [hw, if_pos rfl] at hg
        exact hwait g hg
    · have hkey (dir : Bool) : (sid, dir) ≠ f.key := fun hk => hsid (congrArg Prod.fst hk).symm
      refine ⟨fun dir st hs => ?_, fun dir st k g hs hk => ?_, fun g hg => ?_⟩
      · rw [hst, if_neg (hkey dir)] at hs
        exact h.epoch dir st hs
      · rw [hst, if_neg (hkey dir)] at hs
        exact h.buffered dir st k g hs hk
      · rw [hw, if_neg (Ne.symm hsid)] at hg
        exact h.waiting g hg

theorem passed_of_returned (hsort : Sorted d) (h : Filed g.sessionId d)
    (hfresh : FreshOpen g.sessionId d f) (hu : usesSessionOrder g.ftype = true)
    (hg : g ∈ (feedFrame d f).1) (hcur : Current (feedFrame d f).2 g) :
    Passed (feedFrame d f).2 g := by
  obtain ⟨st, hst, hep⟩ := hcur
  have hfiled := filed_feedFrame h hfresh
  have hne : g.epoch ≠ 0 := fun hz => hfiled.epoch _ st hst (hep.trans hz)
  by_cases hby : usesSessionOrder f.ftype = false ∨ f.epoch = 0
  · rw [feedFrame_bypass d hby] at hg
    obtain rfl := List.mem_singleton.mp hg
    rcases hby with hby | hby
    · rw [hby] at hu
      simp at hu
    · exact absurd hby hne
  · obtain ⟨hu', he⟩ := not_or.mp hby
    obtain ⟨hout, hstates, -⟩ := feedFrame_eq_slot d f
    have hsid := session_of_mem_feedFrame hsort hg
    rw [hsid] at h hfresh
    obtain ⟨hheld, hnone, -⟩ :=
      feed_outcome h.ready (by simpa using hu') he fun ho => (hfresh ho he rfl).1
    rw [hout] at hg
    cases hs : ((slotAt d f.key).feed f).2.state with
    | none =>
        rw [hnone hs] at hg
        simp at hg
    | some st' =>
        obtain ⟨hkey, -, hlt⟩ := (hheld st' hs).returned g hg
        rw [hstates, if_pos hkey, hs] at hst
        obtain rfl := Option.some.inj hst
        exact ⟨st', by rw [hstates, if_pos hkey, hs], hep, hlt⟩

theorem feed_next_le {s : Slot α} {st st' : SidReorder α} (hs : s.state = some st)
    (hs' : (s.feed f).2.state = some st') (he : st'.epoch = st.epoch)
    (hopen : f.ftype = .open → f.epoch ≠ 0 → st.epoch ≠ f.epoch) : st.next ≤ st'.next := by
  have same (h : s.state = some st') : st.next ≤ st'.next := by
    rw [hs] at h
    rw [Option.some.inj h]
  rw [Slot.feed] at hs'
  split at hs'
  · exact same hs'
  split at hs'
  · exact same hs'
  next hz =>
  split at hs'
  next ho =>
    obtain rfl := Option.some.inj hs'
    have hmerge := (mergeWaiting_spec (baseline f) s.waiting).1
    exact absurd (he.symm.trans ((flushReady_epoch _ _).trans hmerge)) (hopen ho hz)
  rw [hs] at hs'
  simp only at hs'
  split at hs'
  next hep =>
    split at hs'
    · exact same hs'
    split at hs'
    · obtain rfl := Option.some.inj hs'
      exact Nat.le_trans (Nat.le_succ st.next)
        (flushReady_next_le { st with next := st.next + 1 } [f])
    split at hs'
    · obtain rfl := Option.some.inj hs'
      exact Nat.le_refl _
    · exact same hs'
  next hne =>
    split at hs'
    · obtain rfl := Option.some.inj hs'
      exact absurd (he.symm.trans (flushReady_epoch _ _)) hne
    · exact same hs'

theorem Passed.feedFrame (h : Passed d g) (hfresh : FreshOpen g.sessionId d f)
    (hcur : Current (feedFrame d f).2 g) : Passed (feedFrame d f).2 g := by
  obtain ⟨st, hst, hep, hlt⟩ := h
  obtain ⟨st', hst', hep'⟩ := hcur
  refine ⟨st', hst', hep', ?_⟩
  obtain ⟨-, hstates, -⟩ := feedFrame_eq_slot d f
  rw [hstates] at hst'
  split at hst'
  next hkey =>
    have hs : (slotAt d f.key).state = some st := by rw [← hkey]; exact hst
    refine Nat.lt_of_lt_of_le hlt (feed_next_le hs hst' (hep'.trans hep.symm) fun ho hz heq => ?_)
    exact (hfresh ho hz (congrArg Prod.fst hkey).symm).2 ⟨st, hs, heq⟩
  next =>
    rw [hst] at hst'
    obtain rfl := Option.some.inj hst'
    exact hlt

end Step

/-- What a repetition of a frame already behind the point reached does: only an Open is acted on. -/
theorem harmless_iff {d : MuxDecoder Bytes} {msg : Bytes} {f : Frame Bytes}
    (hmsg : decodeFrame msg = some f) (hu : usesSessionOrder f.ftype = true) (he : f.epoch ≠ 0)
    (hpast : Passed d f) :
    Harmless d msg ↔ f.ftype ≠ .open := by
  obtain ⟨st, hst, hep, hlt⟩ := hpast
  rw [Harmless, feed_of_decode hmsg]
  constructor
  · rintro ⟨hout, -⟩ ho
    obtain ⟨fs, hfl, -⟩ :=
      flushLoop_spec (mergeWaiting (baseline f) (waitingOf d f.sessionId)).1.buffered
      (mergeWaiting (baseline f) (waitingOf d f.sessionId)).1 [f]
    have hopened : (feedFrame (countRx d) f).1 = [f] ++ fs := by
      rw [feedFrame, if_neg (by simp [hu]), if_neg he, if_pos ho]
      exact hfl
    rw [hopened] at hout
    simp at hout
  · intro ho
    have hfind : find (countRx d).states f.key = some st := hst
    have hdrop : feedFrame (countRx d) f = ([], dropStale (countRx d)) := by
      rw [feedFrame, if_neg (by simp [hu]), if_neg he, if_neg ho, hfind]
      simp only [hep, if_true, feedCurrent, hlt]
    rw [hdrop]
    exact ⟨rfl, rfl, rfl⟩

section Run

/-- In the run over these messages no Open of the session opens a generation that is current
already. -/
def OpensOnce (sid : UInt16) (msgs : List Bytes) : Prop :=
  ∀ past x g, past ++ [x] <+: msgs → decodeFrame x = some g → FreshOpen sid (feedAll .new past).2 g

theorem sorted_feedAll (msgs : List Bytes) : Sorted (feedAll .new msgs).2 := by
  rw [feedAll_frames]
  exact sorted_run (msgs.filterMap decodeFrame) sorted_new

theorem Filed.countRx {sid : UInt16} {d : MuxDecoder α} (h : Filed sid d) : Filed sid (countRx d) :=
  ⟨h.epoch, h.buffered, h.waiting⟩

theorem filed_feedAll {sid : UInt16} {msgs : List Bytes} (h : OpensOnce sid msgs) :
    Filed sid (feedAll .new msgs).2 := by
  induction msgs using List.reverseRecOn with
  | nil => exact filed_new
  | append_singleton msgs x ih =>
      have hpast := ih fun past y g hp => h past y g (hp.trans (List.prefix_append msgs [x]))
      rw [feedAll_snoc]
      cases hx : decodeFrame x with
      | none =>
          rw [feed_of_decode_none hx]
          exact hpast.countRx
      | some g =>
          rw [feed_of_decode hx]
          exact filed_feedFrame hpast.countRx (h msgs x g (List.prefix_refl _) hx)

theorem OpensOnce.before {sid : UInt16} {msgs past : List Bytes} (h : OpensOnce sid msgs)
    (hp : past <+: msgs) : OpensOnce sid past := fun past' x g hp' => h past' x g (hp'.trans hp)

theorem opensOnce_nil (sid : UInt16) : OpensOnce sid [] := by
  intro past x g hp
  exact absurd (List.prefix_nil.mp hp) (by simp)

theorem OpensOnce.snoc {sid : UInt16} {msgs : List Bytes} {x : Bytes} (h : OpensOnce sid msgs)
    (hx : ∀ g, decodeFrame x = some g → FreshOpen sid (feedAll .new msgs).2 g) :
    OpensOnce sid (msgs ++ [x]) := by
  intro past y g hp hy
  rcases Runs.concat_prefix_concat.mp hp with ⟨rfl, rfl⟩ | hp
  · exact hx g hy
  · exact h past y g hp hy

theorem passed_after {msgs : List Bytes} {x : Bytes} {f : Frame Bytes}
    (hu : usesSessionOrder f.ftype = true) (hopens : OpensOnce f.sessionId (msgs ++ [x]))
    (hcur : Current (feedAll .new (msgs ++ [x])).2 f)
    (h : f ∈ (feed (feedAll .new msgs).2 x).1 ∨ Passed (feedAll .new msgs).2 f) :
    Passed (feedAll .new (msgs ++ [x])).2 f := by
  have hfiled := filed_feedAll (hopens.before (List.prefix_append msgs [x]))
  rw [feedAll_snoc] at hcur ⊢
  cases hx : decodeFrame x with
  | none =>
      rw [feed_of_decode_none hx] at h ⊢
      exact h.resolve_left (by simp)
  | some g =>
      have hfresh := hopens msgs x g (List.prefix_refl _) hx
      rw [feed_of_decode hx] at h hcur ⊢
      rcases h with h | h
      · exact passed_of_returned (sorted_feedAll msgs) hfiled.countRx hfresh hu h hcur
      · exact Passed.feedFrame h hfresh hcur

end Run

/-- A session frame that was returned and whose generation has been current since is returned again,
with its slot reset, if it is an Open, and is dropped without a trace if it is not, in every run
that has not opened a generation twice. -/
theorem duplicate_harmless_iff (before after : List Bytes) (m msg : Bytes) (f : Frame Bytes)
    (hmsg : decodeFrame msg = some f) (hu : usesSessionOrder f.ftype = true)
    (hret : f ∈ (feed (feedAll .new before).2 m).1)
    (hcur : ∀ later, later <+: after → Current (feedAll .new (before ++ m :: later)).2 f)
    (hopens : OpensOnce f.sessionId (before ++ m :: after)) :
    Harmless (feedAll .new (before ++ m :: after)).2 msg ↔ f.ftype ≠ .open := by
  have hinit {later : List Bytes} (hp : later <+: after) : before ++ m :: later <+:
      before ++ m :: after := by
    obtain ⟨rest, rfl⟩ := hp
    exact ⟨rest, by simp⟩
  have hpassed (later : List Bytes) (hp : later <+: after) :
      Passed (feedAll .new (before ++ m :: later)).2 f := by
    induction later using List.reverseRecOn with
    | nil => exact passed_after hu (hopens.before (hinit hp)) (hcur [] hp) (Or.inl hret)
    | append_singleton later x ih =>
        have hsnoc : before ++ m :: (later ++ [x]) = (before ++ m :: later) ++ [x] := by simp
        have hbefore := hopens.before (hinit hp)
        have hnow := hcur _ hp
        rw [hsnoc] at hbefore hnow ⊢
        exact passed_after hu hbefore hnow (Or.inr (ih ((List.prefix_append later [x]).trans hp)))
  have hall := hpassed after (List.prefix_refl after)
  obtain ⟨st, hst, hep, -⟩ := id hall
  have hne : f.epoch ≠ 0 := fun hz => (filed_feedAll hopens).epoch _ st hst (hep.trans hz)
  exact harmless_iff hmsg hu hne hall

def firstOpen : Frame Bytes := ⟨.open, 1, 0x01000000, 0, [0, 1, 97, 0, 80]⟩

def firstData : Frame Bytes := ⟨.data, 1, 0x01000001, 0, [7]⟩

theorem decode_firstOpen : decodeFrame (frameBytes firstOpen) = some firstOpen :=
  decodeFrame_frameBytes firstOpen (by decide)

theorem decode_firstData : decodeFrame (frameBytes firstData) = some firstData :=
  decodeFrame_frameBytes firstData (by decide)

theorem duplicate_data_harmless :
    Harmless (feedAll .new [frameBytes firstOpen, frameBytes firstData]).2
      (frameBytes firstData) := by
  have hopens : OpensOnce 1 ([frameBytes firstOpen] ++ [frameBytes firstData]) := by
    apply OpensOnce.snoc
    · apply (opensOnce_nil 1).snoc
      intro g hg _ _ _
      obtain rfl := Option.some.inj (decode_firstOpen.symm.trans hg)
      exact ⟨rfl, fun ⟨st, hst, _⟩ => by simp [feedAll, MuxDecoder.new] at hst⟩
    · intro g hg ho
      obtain rfl := Option.some.inj (decode_firstData.symm.trans hg)
      simp [firstData] at ho
  apply (duplicate_harmless_iff [frameBytes firstOpen] [] (frameBytes firstData)
    (frameBytes firstData) firstData decode_firstData rfl (by decide) _ hopens).mpr (by decide)
  intro later hp
  obtain rfl := List.prefix_nil.mp hp
  have hstate :
      (find (feedAll .new [frameBytes firstOpen, frameBytes firstData]).2.states (1, false)).map
      (fun st => (st.epoch, st.next)) = some (1, 2) := by decide
  obtain ⟨st, hst, heq⟩ := Option.map_eq_some_iff.mp hstate
  exact ⟨st, hst, (Prod.mk.inj heq).1⟩

/-- A repeated Open is returned again, and so is the Data it lets pass a second time. -/
theorem duplicate_open_not_harmless :
    decodeFrame (frameBytes firstOpen) = some firstOpen ∧
    firstOpen ∈ (feed .new (frameBytes firstOpen)).1 ∧
      Current (feedAll .new [frameBytes firstOpen]).2 firstOpen ∧
      ¬ Harmless (feedAll .new [frameBytes firstOpen]).2 (frameBytes firstOpen) ∧
      (feedAll .new [frameBytes firstOpen, frameBytes firstData, frameBytes firstOpen,
        frameBytes firstData]).1 =
        [firstOpen, firstData, firstOpen, firstData] := by
  have hstate : (find (feedAll .new [frameBytes firstOpen]).2.states (1, false)).map
      (fun st => (st.epoch, st.next)) =
      some (1, 1) := by decide
  obtain ⟨st, hst, heq⟩ := Option.map_eq_some_iff.mp hstate
  refine ⟨decode_firstOpen, by decide, ⟨st, hst, (Prod.mk.inj heq).1⟩, fun h => ?_, by decide⟩
  have hout : (feed (feedAll .new [frameBytes firstOpen]).2 (frameBytes firstOpen)).1 =
      [firstOpen] := by decide
  exact absurd (hout.symm.trans h.1) (by simp)

end SrtVpn.Duplicates
