import Mathlib.Data.List.TakeWhile
import SrtVpn.Delivery

namespace SrtVpn.EarlyFrames

open BigEndian Tables Wire Encoder SeqNumbers Decoder Slots SessionView SessionOrder Delivery

section Machine

variable {α : Type} {sid : UInt16} {epoch : UInt8} {sent : List (Frame α)} {s : Slot α}
  {st : SidReorder α} {o f : Frame α}

def early (arrived : List (Frame α)) : List (Frame α) := arrived.takeWhile (!isOpen ·)

/-- The frame is of no use to a session in the given state: of the same generation but not the next
one, or of a generation that does not count as newer. -/
def Ignored (st : SidReorder α) (e : Frame α) : Prop :=
  (e.epoch = st.epoch → e.sseq ≠ st.next) ∧
  (e.epoch ≠ st.epoch → newerEpoch e.epoch st.epoch = false)

structure Stands (st : SidReorder α) (s : Slot α) : Prop where
  state : ∃ st', s.state = some st' ∧ st'.epoch = st.epoch ∧ st'.next = st.next
  waiting : s.waiting = []

theorem feed_other (hg : Generation sid epoch sent) (hf : f ∈ sent) (ho : f.ftype ≠ .open)
    (hs : s.state = some st) (he : f.epoch ≠ st.epoch) :
    s.feed f = if newerEpoch f.epoch st.epoch then
      ([f], { s with state := some (baseline f) }) else ([], s) := by
  have hne : f.epoch ≠ 0 := by rw [hg.epoch_eq f hf]; exact hg.epoch_ne
  simp only [Slot.feed, hg.ordered f hf, hne, ho, hs, if_neg (Ne.symm he), flushReady_baseline]
  simp

theorem Stands.ignore (hg : Generation sid epoch sent) (hf : f ∈ sent) (ho : f.ftype ≠ .open)
    (h : Stands st s) (hi : Ignored st f) : (s.feed f).1 = [] ∧ Stands st (s.feed f).2 := by
  obtain ⟨⟨st', hs, hep, hnext⟩, hw⟩ := h
  by_cases he : f.epoch = st.epoch
  · have hne := hi.1 he
    have hcur : st'.epoch = epoch := by rw [hep, ← he, hg.epoch_eq f hf]
    rw [← hnext] at hne
    rw [feed_current hg.numbered hf ho hs hcur]
    split
    · exact ⟨rfl, ⟨st', hs, hep, hnext⟩, hw⟩
    split
    · exact ⟨rfl, ⟨_, rfl, hep, hnext⟩, hw⟩
    · exact ⟨rfl, ⟨st', hs, hep, hnext⟩, hw⟩
  · rw [feed_other hg hf ho hs (by rw [hep]; exact he), hep, hi.2 he]
    exact ⟨rfl, ⟨st', hs, hep, hnext⟩, hw⟩

theorem Stands.take (hg : Generation sid epoch sent) (hf : f ∈ sent) (ho : f.ftype ≠ .open)
    (h : Stands st s) (hi : ¬ Ignored st f) : ∃ rest, (s.feed f).1 = f :: rest := by
  obtain ⟨⟨st', hs, hep, hnext⟩, -⟩ := h
  by_cases he : f.epoch = st.epoch
  · have heq : f.sseq = st.next := by
      by_contra hne
      exact hi ⟨fun _ => hne, fun h => absurd he h⟩
    have hcur : st'.epoch = epoch := by rw [hep, ← he, hg.epoch_eq f hf]
    obtain ⟨fs, hout, -⟩ := flushLoop_spec (SidReorder.buffered { st' with next := st'.next + 1 })
      { st' with next := st'.next + 1 } [f]
    rw [feed_current hg.numbered hf ho hs hcur, hnext, heq, if_neg (Nat.lt_irrefl _), if_pos rfl,
      ← hnext]
    exact ⟨fs, hout⟩
  · have hnew : newerEpoch f.epoch st.epoch = true := by
      by_contra hn
      exact hi ⟨fun h => absurd h he, fun _ => by simpa using hn⟩
    rw [feed_other hg hf ho hs (by rw [hep]; exact he), hep, hnew]
    exact ⟨[], rfl⟩

theorem Stands.run (hg : Generation sid epoch sent) (h : Stands st s) (fs : List (Frame α))
    (hfs : ∀ f ∈ fs, f ∈ sent ∧ f.ftype ≠ .open ∧ Ignored st f) :
    (Transducer.run Slot.feed s fs).1.flatten = [] ∧
    Stands st (Transducer.run Slot.feed s fs).2 := by
  induction fs generalizing s with
  | nil => exact ⟨rfl, h⟩
  | cons f fs ih =>
      obtain ⟨⟨hf, ho, hi⟩, hrest⟩ := List.forall_mem_cons.mp hfs
      obtain ⟨hout, hnext⟩ := h.ignore hg hf ho hi
      obtain ⟨hout', hend⟩ := ih hnext hrest
      rw [Transducer.run_cons, List.flatten_cons, hout, hout']
      exact ⟨rfl, hend⟩

theorem Stands.reopen (hg : Generation sid epoch sent) (ho : o ∈ sent) (hopen : o.ftype = .open)
    (h : Stands st s) : s.feed o = ([o], ⟨some (baseline o), []⟩) := by
  rw [feed_open hg ho hopen, h.waiting]
  rfl

theorem run_reopened (hg : Generation sid epoch sent) (hhead : sent.head? = some o)
    (fs : List (Frame α)) (hfs : ∀ f ∈ fs, f ∈ sent ∧ f.ftype ≠ .open) :
    o :: (Transducer.run Slot.feed ⟨some (baseline o), []⟩ fs).1.flatten <+: sent := by
  have hstart := (delivered_first hg.numbered hhead).1
  obtain ⟨⟨st, hs⟩, hd⟩ := Transducer.run_history
    (fun _ out s => (∃ st, s.state = some st) ∧ Delivered epoch sent (o :: out) s) fs
    (fun past f out s hpre ⟨⟨st, hs⟩, hd⟩ => by
      obtain ⟨hf, hno⟩ := hfs f (hpre.subset (by simp))
      exact ⟨Slot.feed_keeps_state hs, hd.current hg.numbered hf hno hs⟩)
    ⟨some (baseline o), []⟩ ⟨⟨_, rfl⟩, hstart⟩
  simp only [Delivered, hs] at hd
  rw [hd.2.1]
  exact List.take_prefix _ _

/-- Frames arrive as `before`, then the Open, then the rest. -/
structure Arrival (sent before : List (Frame α)) (o : Frame α) (rest : List (Frame α)) : Prop where
  before_mem : ∀ f ∈ before, f ∈ sent ∧ f.ftype ≠ .open
  opened : o ∈ sent ∧ o.ftype = .open
  rest_mem : ∀ f ∈ rest, f ∈ sent ∧ f.ftype ≠ .open

theorem arrival_of_perm (hg : Generation sid epoch sent) (hne : sent ≠ [])
    {arrived : List (Frame α)} (hperm : arrived.Perm sent) :
    ∃ o rest, arrived = early arrived ++ o :: rest ∧ Arrival sent (early arrived) o rest := by
  have hsplit : early arrived ++ arrived.dropWhile (!isOpen ·) = arrived :=
    List.takeWhile_append_dropWhile
  have hbefore : ∀ f ∈ early arrived, f.ftype ≠ .open := by
    intro f hf
    simpa [isOpen] using List.mem_takeWhile_imp hf
  have hmem : ∀ f ∈ arrived, f ∈ sent := fun f => hperm.mem_iff.mp
  cases hd : arrived.dropWhile (!isOpen ·) with
  | nil =>
      have hlen : 0 < sent.length := List.length_pos_iff.mpr hne
      have hget : sent[0]? = some sent[0] := List.getElem?_eq_getElem hlen
      have hfirst : sent[0] ∈ arrived := hperm.mem_iff.mpr (List.getElem_mem hlen)
      rw [hd, List.append_nil] at hsplit
      rw [← hsplit] at hfirst
      exact absurd ((hg.opened 0 _ hget).mpr rfl) (hbefore _ hfirst)
  | cons o rest =>
      rw [hd] at hsplit
      have ho : o.ftype = .open := by
        have hhead := List.head?_dropWhile_not (!isOpen ·) arrived
        rw [hd] at hhead
        simpa [isOpen] using hhead
      refine ⟨o, rest, hsplit.symm, fun f hf => ⟨hmem f ?_, hbefore f hf⟩, ⟨hmem o ?_, ho⟩,
        fun f hf => ⟨hmem f ?_, ?_⟩⟩
      · rw [← hsplit]
        exact List.mem_append_left _ hf
      · rw [← hsplit]
        simp
      · rw [← hsplit]
        simp [hf]
      · intro hfo
        have honce := hg.open_once hperm
        rw [← hsplit, List.filter_append, List.filter_cons_of_pos (by simp [isOpen, ho]),
          List.length_append, List.length_cons] at honce
        have hpos : 0 < (rest.filter isOpen).length :=
          List.length_pos_of_mem (List.mem_filter.mpr ⟨hf, by simp [isOpen, hfo]⟩)
        omega

variable {before rest : List (Frame α)}

theorem Arrival.head (hg : Generation sid epoch sent) (ha : Arrival sent before o rest) :
    sent.head? = some o := by
  have hz : o.sseq = 0 := (hg.sseq_zero ha.opened.1).mp ha.opened.2
  rw [List.head?_eq_getElem?, ← hz]
  exact hg.numbered.get ha.opened.1

theorem Arrival.run (hg : Generation sid epoch sent) (ha : Arrival sent before o rest)
    (h : Stands st s) (hi : ∀ e ∈ before, Ignored st e) (r : List (Frame α)) :
    Transducer.run Slot.feed s (before ++ o :: r) =
      ((Transducer.run Slot.feed s before).1 ++ [o] ::
        (Transducer.run Slot.feed ⟨some (baseline o), []⟩ r).1,
        (Transducer.run Slot.feed ⟨some (baseline o), []⟩ r).2) := by
  obtain ⟨-, hst⟩ :=
    h.run hg before fun f hf => ⟨(ha.before_mem f hf).1, (ha.before_mem f hf).2, hi f hf⟩
  rw [Transducer.run_append, Transducer.run_cons, hst.reopen hg ha.opened.1 ha.opened.2]

/-- No frame of the generation comes back before its Open. -/
def OpensFirst [DecidableEq α] (sent out : List (Frame α)) : Prop :=
  ∀ g, (out.filter (· ∈ sent)).head? = some g → g.ftype = .open

/-- The early frames are not lost, and what has come back of the generation is in sequence. -/
def Followed (sent before out : List (Frame α)) (s : Slot α) : Prop :=
  out <+: sent ∧ ∀ e ∈ before, e ∈ out ∨ s.Stores e

theorem prefix_append_cons {l r sofar : List (Frame α)} (h : sofar <+: l ++ o :: r) :
    sofar <+: l ∨ ∃ r', r' <+: r ∧ sofar = l ++ o :: r' := by
  rcases List.prefix_or_prefix_of_prefix h (List.prefix_append l (o :: r)) with hl | ⟨t, rfl⟩
  · exact Or.inl hl
  · rw [List.prefix_append_right_inj] at h
    cases t with
    | nil => exact Or.inl (by simp)
    | cons x t =>
        obtain ⟨rfl, ht⟩ := List.cons_prefix_cons.mp h
        exact Or.inr ⟨t, ht, rfl⟩

theorem ignored_of_opensFirst [DecidableEq α] (hg : Generation sid epoch sent)
    (ha : Arrival sent before o rest) (h : Stands st s)
    (hfirst : ∀ sofar, sofar <+: before ++ o :: rest →
      OpensFirst sent (Transducer.run Slot.feed s sofar).1.flatten) :
    ∀ e ∈ before, Ignored st e := by
  have hall (p : List (Frame α)) (hp : p <+: before) : ∀ e ∈ p, Ignored st e := by
    induction p using List.reverseRecOn with
    | nil => simp
    | append_singleton p e ih =>
        have hprev := ih ((List.prefix_append p [e]).trans hp)
        obtain ⟨hes, hno⟩ := ha.before_mem e (hp.subset (by simp))
        apply forall_mem_snoc hprev
        by_contra hi
        obtain ⟨hout, hst⟩ := h.run hg p fun f hf =>
          ⟨(ha.before_mem f (hp.subset (by simp [hf]))).1,
            (ha.before_mem f (hp.subset (by simp [hf]))).2, hprev f hf⟩
        obtain ⟨more, htake⟩ := hst.take hg hes hno hi
        apply hno
        apply hfirst (p ++ [e]) (hp.trans (List.prefix_append _ _)) e
        rw [Transducer.run_append, List.flatten_append, hout]
        simp [htake, hes]
  exact hall before (List.prefix_refl _)

theorem opensFirst_of_ignored [DecidableEq α] (hg : Generation sid epoch sent)
    (ha : Arrival sent before o rest) (h : Stands st s) (hi : ∀ e ∈ before, Ignored st e)
    {sofar : List (Frame α)} (hpre : sofar <+: before ++ o :: rest) :
    OpensFirst sent (Transducer.run Slot.feed s sofar).1.flatten := by
  intro g hgm
  rcases prefix_append_cons hpre with hpre | ⟨r, -, rfl⟩
  · obtain ⟨hout, -⟩ := h.run hg sofar fun f hf =>
      ⟨(ha.before_mem f (hpre.subset hf)).1, (ha.before_mem f (hpre.subset hf)).2,
        hi f (hpre.subset hf)⟩
    simp [hout] at hgm
  · obtain ⟨hout, -⟩ :=
      h.run hg before fun f hf => ⟨(ha.before_mem f hf).1, (ha.before_mem f hf).2, hi f hf⟩
    rw [ha.run hg h hi, List.flatten_append, hout] at hgm
    obtain rfl : o = g := by simpa [ha.opened.1] using hgm
    exact ha.opened.2

theorem lost_at_open (hg : Generation sid epoch sent) (ha : Arrival sent before o rest)
    (h : Stands st s) (hi : ∀ e ∈ before, Ignored st e) {e : Frame α} (he : e ∈ before) :
    ¬ Followed sent before (Transducer.run Slot.feed s (before ++ [o])).1.flatten
      (Transducer.run Slot.feed s (before ++ [o])).2 := by
  rintro ⟨-, hkept⟩
  obtain ⟨hout, -⟩ :=
    h.run hg before fun f hf => ⟨(ha.before_mem f hf).1, (ha.before_mem f hf).2, hi f hf⟩
  have hrun := ha.run hg h hi []
  rw [Transducer.run_nil] at hrun
  rcases hkept e he with hret | ⟨st', k, hst, hk⟩ | hwait
  · rw [hrun, List.flatten_append, hout] at hret
    obtain rfl : e = o := by simpa using hret
    exact (ha.before_mem e he).2 ha.opened.2
  · rw [hrun] at hst
    obtain rfl := Option.some.inj hst
    simp [baseline] at hk
  · simp [hrun] at hwait

theorem machine_waits_iff [DecidableEq α] (hg : Generation sid epoch sent)
    (ha : Arrival sent before o rest) (h : Stands st s) :
    ((∀ p, p <+: before ++ o :: rest → OpensFirst sent (Transducer.run Slot.feed s p).1.flatten) ∧
      (before.length ≤ preopenMax → ∀ p, p <+: before ++ o :: rest → (∃ f ∈ p, f.ftype = .open) →
        Followed sent before (Transducer.run Slot.feed s p).1.flatten
          (Transducer.run Slot.feed s p).2)) ↔
      before = [] ∨ (preopenMax < before.length ∧ ∀ e ∈ before, Ignored st e) := by
  constructor
  · rintro ⟨hfirst, hfollow⟩
    have hi := ignored_of_opensFirst hg ha h hfirst
    cases hb : before with
    | nil => exact Or.inl rfl
    | cons e es =>
        rw [← hb]
        refine Or.inr ⟨?_, hi⟩
        by_contra hle
        have hpre : before ++ [o] <+: before ++ o :: rest := by simp
        exact lost_at_open hg ha h hi (e := e) (by rw [hb]; simp)
          (hfollow (by omega) _ hpre ⟨o, by simp, ha.opened.2⟩)
  · rintro (rfl | ⟨hlong, hi⟩)
    · constructor
      · intro p hp
        exact opensFirst_of_ignored hg ha h (by simp) hp
      · rintro - p hp ⟨f, hf, hfo⟩
        rcases prefix_append_cons hp with hp | ⟨r, hr, rfl⟩
        · rw [List.prefix_nil.mp hp] at hf
          simp at hf
        · rw [ha.run hg h (by simp)]
          refine ⟨?_, by simp⟩
          exact run_reopened hg (ha.head hg) r fun f hf => ha.rest_mem f (hr.subset hf)
    · constructor
      · intro p hp
        exact opensFirst_of_ignored hg ha h hi hp
      · intro hle
        omega

theorem run_settled (fs : List (Frame α)) (hfs : ∀ f ∈ fs, f.dirAcceptor = false) :
    Settled (Transducer.run Slot.feed Slot.empty fs).2 :=
  Transducer.run_invariant Settled fs (fun _ f hf h => h.feed (hfs f hf)) Slot.empty (Or.inl rfl)

theorem run_opened (fs : List (Frame α)) (s : Slot α)
    (h : (∃ st, s.state = some st) ∨ ∃ f ∈ fs, f.ftype = .open ∧ f.epoch ≠ 0) :
    ∃ st, (Transducer.run Slot.feed s fs).2.state = some st := by
  induction fs generalizing s with
  | nil => exact h.resolve_right (by simp)
  | cons f fs ih =>
      apply ih
      rcases h with ⟨st, hs⟩ | ⟨g, hg, hopen, hne⟩
      · exact Or.inl (Slot.feed_keeps_state hs)
      · rcases List.mem_cons.mp hg with rfl | hg
        · exact Or.inl ⟨_, by simp [Slot.feed, hopen, hne, usesSessionOrder]; rfl⟩
        · exact Or.inr ⟨g, hg, hopen, hne⟩

end Machine

theorem stamped_frame {reliable : Bool} {hist : List (Call Bytes)} {old : List Bytes}
    {enc : MuxEncoder} (hhist : encodeAll (MuxEncoder.new reliable) hist = some (old, enc))
    (hflags : ∀ c ∈ hist, c.flags &&& flagDirAccept = 0) {sid : UInt16} {f : Frame Bytes}
    (hf : f ∈ sentFrames sid old) :
    f.dirAcceptor = false ∧ f.epoch ≠ 0 := by
  rw [sentFrames, decode_encodeAll hhist] at hf
  obtain ⟨hf, hof⟩ := List.mem_filter.mp hf
  obtain ⟨enc', c, hc, rfl, hhead⟩ := mem_stampAll hist _ hf
  have hu : usesSessionOrder c.ftype = true := (Bool.and_eq_true _ _ ▸ hof).1
  constructor
  · have hfl : (stamp enc' c).1.flags = headerFlags enc' c.flags := rfl
    rw [Frame.dirAcceptor, hfl, hhead, headerFlags_new, hflags c hc]
    rfl
  · rw [epoch_stamp enc' c hu]
    exact generation_epoch_ne_zero enc' c.ftype c.sessionId

def returnedFrom (d : MuxDecoder Bytes) (sid : UInt16) (msgs : List Bytes) : List (Frame Bytes) :=
  (feedAll d msgs).1.filter (ofSession sid)

/-- Fed from the given state with the frames of a generation, the decoder returns its Open before
any other of its frames, and those that came before the Open, if the queue can hold them, after
it. -/
structure WaitsForOpen (d : MuxDecoder Bytes) (sid : UInt16) (sent : List (Frame Bytes))
    (arrivals : List Bytes) : Prop where
  opensFirst : ∀ sofar, sofar <+: arrivals → OpensFirst sent (returnedFrom d sid sofar)
  followed : (early (sentFrames sid arrivals)).length ≤ preopenMax → ∀ sofar, sofar <+: arrivals →
    (∃ f ∈ sentFrames sid sofar, f.ftype = .open) →
    Followed sent (early (sentFrames sid arrivals)) (returnedFrom d sid sofar)
      (slotAt (feedAll d sofar).2 (sid, false))

theorem feedAll_slot (d : MuxDecoder Bytes) (hd : Sequenced d) (sid : UInt16) {dir : Bool}
    (msgs : List Bytes) (hdir : ∀ f ∈ sentFrames sid msgs, f.dirAcceptor = dir) :
    returnedFrom d sid msgs =
      (Transducer.run Slot.feed (slotAt d (sid, dir)) (sentFrames sid msgs)).1.flatten ∧
      slotAt (feedAll d msgs).2 (sid, dir) =
        (Transducer.run Slot.feed (slotAt d (sid, dir)) (sentFrames sid msgs)).2 := by
  obtain ⟨hout, hslot⟩ := run_ordered sid dir (msgs.filterMap decodeFrame)
    (fun f hf hof => hdir f (List.mem_filter.mpr ⟨hf, hof⟩)) d hd
  rw [returnedFrom, feedAll_frames]
  exact ⟨hout, hslot⟩

theorem sequenced_feedAll (msgs : List Bytes) : Sequenced (feedAll MuxDecoder.new msgs).2 := by
  rw [feedAll_frames]
  exact Transducer.run_invariant Sequenced _ (fun d f _ => sequenced_feedFrame f)
    MuxDecoder.new sequenced_new

theorem waitsForOpen_iff {d : MuxDecoder Bytes} {sid : UInt16} {sent : List (Frame Bytes)}
    {arrivals : List Bytes} (hout : ∀ sofar, sofar <+: arrivals → returnedFrom d sid sofar =
        (Transducer.run Slot.feed (slotAt d (sid, false)) (sentFrames sid sofar)).1.flatten ∧
      slotAt (feedAll d sofar).2 (sid, false) =
        (Transducer.run Slot.feed (slotAt d (sid, false)) (sentFrames sid sofar)).2) :
    WaitsForOpen d sid sent arrivals ↔
      (∀ p, p <+: sentFrames sid arrivals →
        OpensFirst sent (Transducer.run Slot.feed (slotAt d (sid, false)) p).1.flatten) ∧
      ((early (sentFrames sid arrivals)).length ≤ preopenMax → ∀ p, p <+: sentFrames sid arrivals →
        (∃ f ∈ p, f.ftype = .open) → Followed sent (early (sentFrames sid arrivals))
          (Transducer.run Slot.feed (slotAt d (sid, false)) p).1.flatten
          (Transducer.run Slot.feed (slotAt d (sid, false)) p).2) := by
  have hsofar : ∀ p, p <+: sentFrames sid arrivals →
      ∃ sofar, sofar <+: arrivals ∧ p = sentFrames sid sofar := by
    intro p hp
    obtain ⟨l, hl, rfl⟩ := List.prefix_filter_iff.mp hp
    obtain ⟨sofar, hs, rfl⟩ := List.prefix_filterMap_iff.mp hl
    exact ⟨sofar, hs, rfl⟩
  have hframes : ∀ sofar, sofar <+: arrivals → sentFrames sid sofar <+: sentFrames sid arrivals :=
    fun sofar hs => (hs.filterMap _).filter _
  constructor
  · rintro ⟨hfirst, hfollow⟩
    constructor
    · intro p hp
      obtain ⟨sofar, hs, rfl⟩ := hsofar p hp
      rw [← (hout sofar hs).1]
      exact hfirst sofar hs
    · intro hlen p hp hopen
      obtain ⟨sofar, hs, rfl⟩ := hsofar p hp
      rw [← (hout sofar hs).1, ← (hout sofar hs).2]
      exact hfollow hlen sofar hs hopen
  · rintro ⟨hfirst, hfollow⟩
    constructor
    · intro sofar hs
      rw [(hout sofar hs).1]
      exact hfirst _ (hframes sofar hs)
    · intro hlen sofar hs hopen
      rw [(hout sofar hs).1, (hout sofar hs).2]
      exact hfollow hlen _ (hframes sofar hs) hopen

/-- The frames of a later generation of a session wait for their Open exactly when none of them
comes before it, or when so many do that the queue could not hold them and the state the last
generation left behind ignores every one. -/
theorem early_frames_wait_iff (reliable : Bool) (hist calls : List (Call Bytes))
    (old msgs : List Bytes) (enc enc' : MuxEncoder)
    (hhist : encodeAll (MuxEncoder.new reliable) hist = some (old, enc))
    (henc : encodeAll enc calls = some (msgs, enc'))
    (hflags : ∀ c ∈ hist ++ calls, c.flags &&& flagDirAccept = 0)
    (sid : UInt16) (o : Call Bytes) (tail : List (Call Bytes))
    (hcalls : calls.filter (Call.ofSession sid) = o :: tail)
    (ho : o.ftype = .open) (hopen : ∀ c ∈ tail, c.ftype ≠ .open)
    (hlen : (o :: tail).length ≤ 2 ^ 24 - 1)
    (fed : List Bytes) (hfed : ∀ f ∈ sentFrames sid fed, f ∈ sentFrames sid old)
    (hopened : ∃ f ∈ sentFrames sid fed, f.ftype = .open)
    (arrivals : List Bytes) (hperm : (sentFrames sid arrivals).Perm (sentFrames sid msgs)) :
    WaitsForOpen (feedAll MuxDecoder.new fed).2 sid (sentFrames sid msgs) arrivals ↔
      early (sentFrames sid arrivals) = [] ∨
      (preopenMax < (early (sentFrames sid arrivals)).length ∧
        ∀ st, find (feedAll MuxDecoder.new fed).2.states (sid, false) = some st →
          ∀ e ∈ early (sentFrames sid arrivals), Ignored st e) := by
  have hmem : ∀ c ∈ o :: tail, c.flags &&& flagDirAccept = 0 := by
    intro c hc
    rw [← hcalls] at hc
    exact hflags c (List.mem_append_right _ (List.mem_of_mem_filter hc))
  obtain ⟨epoch, hg, hcontent⟩ := generation_sent hhist henc hcalls ho hopen hmem hlen
  have hstamped : ∀ f ∈ sentFrames sid fed, f.dirAcceptor = false ∧ f.epoch ≠ 0 := fun f hf =>
    stamped_frame hhist (fun c hc => hflags c (List.mem_append_left _ hc)) (hfed f hf)
  -- the slot after the frames fed: opened, and nothing waiting
  have hslot := (feedAll_slot MuxDecoder.new sequenced_new sid fed fun f hf => (hstamped f hf).1).2
  rw [slotAt_new] at hslot
  obtain ⟨f, hf, hfo⟩ := hopened
  obtain ⟨st, hst⟩ :=
    run_opened (sentFrames sid fed) Slot.empty (Or.inr ⟨f, hf, hfo, (hstamped f hf).2⟩)
  have hsettled := run_settled (sentFrames sid fed) fun f hf => (hstamped f hf).1
  rw [← hslot] at hst hsettled
  have hstands : Stands st (slotAt (feedAll MuxDecoder.new fed).2 (sid, false)) :=
    ⟨⟨st, hst, rfl, rfl⟩, hsettled.resolve_left (by simp [hst])⟩
  have hne : sentFrames sid msgs ≠ [] := by
    intro hnil
    simp [hnil] at hcontent
  obtain ⟨op, rest, hsplit, ha⟩ := arrival_of_perm hg hne hperm
  have hview : ∀ sofar, sofar <+: arrivals → _ := fun sofar hs =>
    feedAll_slot (feedAll MuxDecoder.new fed).2 (sequenced_feedAll fed) sid sofar fun f hf =>
      hg.dir (hperm.mem_iff.mp (((hs.filterMap _).filter _).subset hf))
  rw [waitsForOpen_iff hview]
  generalize early (sentFrames sid arrivals) = before at hsplit ha ⊢
  rw [hsplit, machine_waits_iff hg ha hstands]
  have hstate : ∀ st', find (feedAll MuxDecoder.new fed).2.states (sid, false) = some st' ↔
      st' = st := by
    intro st'
    have hfind : find (feedAll MuxDecoder.new fed).2.states (sid, false) = some st := hst
    rw [hfind, Option.some.injEq, eq_comm]
  simp only [hstate, forall_eq]

def firstUse : List (Call Bytes) := [⟨.open, 1, 0, []⟩, ⟨.data, 1, 0, [1]⟩, ⟨.close, 1, 0, []⟩]

def secondUse : List (Call Bytes) := [⟨.open, 1, 0, []⟩, ⟨.data, 1, 0, [2]⟩]

def encoded (enc : MuxEncoder) (calls : List (Call Bytes)) : List Bytes :=
  ((encodeAll enc calls).map Prod.fst).getD []

theorem early_frames_wait_in_order :
    let enc := (stampAll (MuxEncoder.new true) firstUse).2
    let old := encoded (MuxEncoder.new true) firstUse
    let msgs := encoded enc secondUse
    WaitsForOpen (feedAll MuxDecoder.new old).2 1 (sentFrames 1 msgs) msgs := by
  intro enc old msgs
  apply (early_frames_wait_iff true firstUse secondUse old msgs enc (stampAll enc secondUse).2 rfl
    rfl (by decide) 1 ⟨.open, 1, 0, []⟩ [⟨.data, 1, 0, [2]⟩] (by decide) rfl (by decide) (by decide)
      old (fun f hf => hf) (by decide) msgs
    (List.Perm.refl _)).mpr
  exact Or.inl (by decide)

/-- The Data frame of the second use overtakes its Open and comes back at once. -/
theorem early_frame_returned_before_open :
    let enc := (stampAll (MuxEncoder.new true) firstUse).2
    let old := encoded (MuxEncoder.new true) firstUse
    let msgs := encoded enc secondUse
    (∃ f ∈ sentFrames 1 old, f.ftype = .open) ∧
      (sentFrames 1 msgs.reverse).Perm (sentFrames 1 msgs) ∧
      ¬ WaitsForOpen (feedAll MuxDecoder.new old).2 1 (sentFrames 1 msgs) msgs.reverse := by
  intro enc old msgs
  refine ⟨by decide, by decide, fun h => ?_⟩
  have hfirst := h.opensFirst (msgs.reverse.take 1) (List.take_prefix _ _)
  have hopen : ((returnedFrom (feedAll MuxDecoder.new old).2 1 (msgs.reverse.take 1)).filter
      (· ∈ sentFrames 1 msgs)).head?.map Frame.ftype = some .data := by decide
  obtain ⟨g, hg, hdata⟩ := Option.map_eq_some_iff.mp hopen
  have hgo := hfirst g hg
  rw [hdata] at hgo
  exact absurd hgo (by decide)

end SrtVpn.EarlyFrames
