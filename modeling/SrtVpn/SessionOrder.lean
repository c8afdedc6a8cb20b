import SrtVpn.SessionView

namespace SrtVpn.SessionOrder

open Tables Wire Decoder Slots SessionView

variable {α : Type}

/-- The frames of one session and direction in send order, all under one epoch and numbered by their
position. -/
structure Numbered (key : UInt16 × Bool) (epoch : UInt8) (sent : List (Frame α)) : Prop where
  epoch_ne : epoch ≠ 0
  key_eq : ∀ f ∈ sent, f.key = key
  epoch_eq : ∀ f ∈ sent, f.epoch = epoch
  ordered : ∀ f ∈ sent, usesSessionOrder f.ftype = true
  position : ∀ i (f : Frame α), sent[i]? = some f → f.sseq = i

/-- The frames of one generation of a session in send order: the Open first, then the others, all
under one epoch and numbered by their position. -/
structure Generation (sid : UInt16) (epoch : UInt8) (sent : List (Frame α)) : Prop where
  epoch_ne : epoch ≠ 0
  key : ∀ f ∈ sent, f.key = (sid, false)
  epoch_eq : ∀ f ∈ sent, f.epoch = epoch
  ordered : ∀ f ∈ sent, usesSessionOrder f.ftype = true
  position : ∀ i (f : Frame α), sent[i]? = some f → f.sseq = i
  opened : ∀ i (f : Frame α), sent[i]? = some f → (f.ftype = .open ↔ i = 0)

/-- Safety: the frames released so far are the first `next` frames of the generation, and whatever
is kept was sent. -/
def Delivered (epoch : UInt8) (sent out : List (Frame α)) (s : Slot α) : Prop :=
  match s.state with
  | none => out = [] ∧ ∀ f ∈ s.waiting, f ∈ sent
  | some st => st.epoch = epoch ∧ out = sent.take st.next ∧ 0 < st.next ∧ st.next ≤ sent.length ∧
      find st.buf st.next = none ∧ ∀ k f, find st.buf k = some f → sent[k]? = some f

def Opened (past : List (Frame α)) (s : Slot α) : Prop :=
  s.state = none ↔ ∀ f ∈ past, f.ftype ≠ .open

/-- Completeness: every frame that arrived has been released or is still kept, and nothing else
is. -/
def Keeps (past : List (Frame α)) (s : Slot α) : Prop :=
  match s.state with
  | none => s.waiting = past
  | some st => (∀ f ∈ past, f.sseq < st.next ∨ find st.buf f.sseq = some f) ∧
      ∀ k f, find st.buf k = some f → f ∈ past ∧ st.next < k

section Lists

theorem take_extend {sent fs : List (Frame α)} {n : Nat} (hn : n ≤ sent.length)
    (h : ∀ i f, fs[i]? = some f → sent[n + i]? = some f) :
    sent.take n ++ fs = sent.take (n + fs.length) ∧ n + fs.length ≤ sent.length := by
  have hlen : n + fs.length ≤ sent.length := by
    cases hl : fs.length with
    | zero => exact hn
    | succ m =>
        have hm : fs[m]? = some fs[m] := List.getElem?_eq_getElem (by omega)
        obtain ⟨hlt, _⟩ := List.getElem?_eq_some_iff.mp (h m _ hm)
        omega
  refine ⟨?_, hlen⟩
  rw [List.take_add]
  congr 1
  apply List.ext_getElem?
  intro i
  rw [List.getElem?_take, List.getElem?_drop]
  by_cases hi : i < fs.length
  · rw [if_pos hi, List.getElem?_eq_getElem hi, h i _ (List.getElem?_eq_getElem hi)]
  · rw [if_neg hi, List.getElem?_eq_none (by omega)]

end Lists

section Flush

variable {epoch : UInt8} {sent : List (Frame α)}

theorem flushReady_delivered (st : SidReorder α) {out released : List (Frame α)}
    (hout : released ++ out = sent.take st.next) (hn : st.next ≤ sent.length)
    (hbuf : ∀ k f, find st.buf k = some f → sent[k]? = some f) :
    released ++ (flushReady st out).2 = sent.take (flushReady st out).1.next ∧
      (flushReady st out).1.next ≤ sent.length := by
  obtain ⟨fs, hfl, _, hnext, hfs, _⟩ := flushLoop_spec st.buffered st out
  obtain ⟨htake, hle⟩ := take_extend hn fun i f hi => hbuf _ f (hfs i f hi)
  rw [flushReady, hfl, hnext, ← List.append_assoc, hout]
  exact ⟨htake, hle⟩

theorem flushReady_next_le (st : SidReorder α) (out : List (Frame α)) :
    st.next ≤ (flushReady st out).1.next := by
  obtain ⟨fs, _, _, hnext, _⟩ := flushLoop_spec st.buffered st out
  rw [flushReady, hnext]
  exact Nat.le_add_right _ _

theorem flushReady_keeps {st : SidReorder α} {out : List (Frame α)} {f : Frame α}
    (h : find st.buf f.sseq = some f) :
    f.sseq < (flushReady st out).1.next ∨ find (flushReady st out).1.buf f.sseq = some f := by
  obtain ⟨fs, _, _, hnext, _, hbuf⟩ := flushLoop_spec st.buffered st out
  rw [flushReady, hnext, hbuf]
  split
  next hk => exact Or.inl hk.2
  next => exact Or.inr h

theorem flushReady_above {st : SidReorder α} {out : List (Frame α)} {k : Nat} {f : Frame α}
    (hbuf : ∀ k f, find st.buf k = some f → st.next ≤ k)
    (h : find (flushReady st out).1.buf k = some f) : (flushReady st out).1.next < k := by
  have hgap := flushReady_gap st out
  obtain ⟨fs, _, _, hnext, _, hb⟩ := flushLoop_spec st.buffered st out
  have hne : k ≠ (flushReady st out).1.next := fun hk => by rw [hk, hgap] at h; simp at h
  have hk := hbuf k f (flushReady_stored h)
  rw [flushReady, hb] at h
  rw [flushReady, hnext] at hne ⊢
  split at h
  next => simp at h
  next hout => omega

end Flush

section Step

variable {key : UInt16 × Bool} {sid : UInt16} {epoch : UInt8} {sent past out : List (Frame α)}
  {s : Slot α} {f : Frame α}

theorem Generation.numbered (hg : Generation sid epoch sent) : Numbered (sid, false) epoch sent :=
  ⟨hg.epoch_ne, hg.key, hg.epoch_eq, hg.ordered, hg.position⟩

theorem Numbered.get (hn : Numbered key epoch sent) (hf : f ∈ sent) : sent[f.sseq]? = some f := by
  obtain ⟨i, hi⟩ := List.mem_iff_getElem?.mp hf
  rw [hn.position i f hi, hi]

theorem Numbered.eq_of_sseq (hn : Numbered key epoch sent) {g : Frame α} (hf : f ∈ sent)
    (h : g ∈ sent) (hs : f.sseq = g.sseq) : f = g := by
  have hget := hn.get hf
  rw [hs, hn.get h] at hget
  exact (Option.some.inj hget).symm

theorem Numbered.nodup (hn : Numbered key epoch sent) : sent.Nodup := by
  apply List.Nodup.of_map Frame.sseq
  have hseqs : sent.map Frame.sseq = List.range sent.length := by
    apply List.ext_getElem?
    intro i
    rw [List.getElem?_map]
    by_cases hi : i < sent.length
    · rw [List.getElem?_range hi, List.getElem?_eq_getElem hi, Option.map_some,
        hn.position i _ (List.getElem?_eq_getElem hi)]
    · rw [List.getElem?_eq_none (by omega), List.getElem?_eq_none (by simp; omega), Option.map_none]
  rw [hseqs]
  exact List.nodup_range

theorem Generation.sseq_zero (hg : Generation sid epoch sent) (hf : f ∈ sent) :
    f.ftype = .open ↔ f.sseq = 0 :=
  hg.opened f.sseq f (hg.numbered.get hf)

theorem Generation.dir (hg : Generation sid epoch sent) (hf : f ∈ sent) : f.dirAcceptor = false :=
  congrArg Prod.snd (hg.key f hf)

theorem feed_open (hg : Generation sid epoch sent) (hf : f ∈ sent) (ho : f.ftype = .open) :
    s.feed f = ((flushReady (mergeWaiting (baseline f) s.waiting).1 [f]).2,
      ⟨some (flushReady (mergeWaiting (baseline f) s.waiting).1 [f]).1, []⟩) := by
  have he : f.epoch ≠ 0 := by rw [hg.epoch_eq f hf]; exact hg.epoch_ne
  simp [Slot.feed, he, ho, usesSessionOrder]

theorem feed_early (hg : Generation sid epoch sent) (hf : f ∈ sent) (ho : f.ftype ≠ .open)
    (hs : s.state = none) : s.feed f = ([], if s.waiting.length < preopenMax then
      { s with waiting := s.waiting ++ [f] } else s) := by
  have he : f.epoch ≠ 0 := by rw [hg.epoch_eq f hf]; exact hg.epoch_ne
  simp only [Slot.feed, hg.ordered f hf, he, ho, hs, hg.dir hf]
  simp only [Bool.true_eq_false, Bool.false_eq_true, if_false]
  split <;> rfl

theorem feed_current (hn : Numbered key epoch sent) (hf : f ∈ sent) (ho : f.ftype ≠ .open)
    {st : SidReorder α} (hs : s.state = some st) (he : st.epoch = epoch) :
    s.feed f = if f.sseq < st.next then ([], s)
      else if f.sseq = st.next then
        ((flushReady { st with next := st.next + 1 } [f]).2,
          { s with state := some (flushReady { st with next := st.next + 1 } [f]).1 })
      else if st.buffered < reorderMax then
        ([], { s with state := some { st with buf := st.buf.insert f.sseq f } })
      else ([], s) := by
  have hne : f.epoch ≠ 0 := by rw [hn.epoch_eq f hf]; exact hn.epoch_ne
  have heq : st.epoch = f.epoch := by rw [he, hn.epoch_eq f hf]
  simp only [Slot.feed, hn.ordered f hf, hne, ho, hs, heq]
  simp

theorem merged_open (hg : Generation sid epoch sent) (hf : f ∈ sent) (ho : f.ftype = .open)
    (hw : ∀ g ∈ s.waiting, g ∈ sent) :
    (mergeWaiting (baseline f) s.waiting).1.epoch = epoch ∧
      (mergeWaiting (baseline f) s.waiting).1.next = 1 ∧
      ∀ k g, find (mergeWaiting (baseline f) s.waiting).1.buf k = some g →
      sent[k]? = some g ∧ 1 ≤ k := by
  obtain ⟨he, hn, hb⟩ := mergeWaiting_spec (baseline f) s.waiting
  have hz : f.sseq = 0 := (hg.sseq_zero hf).mp ho
  refine ⟨he.trans (hg.epoch_eq f hf), by rw [hn]; simp [baseline, hz], fun k g hk => ?_⟩
  rcases hb k g hk with hk | ⟨hmem, rfl, _, hle⟩
  · simp [baseline] at hk
  · exact ⟨hg.numbered.get (hw g hmem), by simpa [baseline, hz] using hle⟩

theorem Delivered.current (hn : Numbered key epoch sent) (h : Delivered epoch sent out s)
    (hf : f ∈ sent) (ho : f.ftype ≠ .open) {st : SidReorder α} (hs : s.state = some st) :
    Delivered epoch sent (out ++ (s.feed f).1) (s.feed f).2 := by
  have hget := hn.get hf
  obtain ⟨hlt, _⟩ := List.getElem?_eq_some_iff.mp hget
  have hd := h
  simp only [Delivered, hs] at h
  obtain ⟨he, rfl, hpos, hle, hgap, hb⟩ := h
  rw [feed_current hn hf ho hs he]
  split
  · simpa using hd
  split
  next heq =>
    have hnext : sent.take st.next ++ [f] = sent.take (st.next + 1) := by
      rw [List.take_add_one, ← heq, hget]
      rfl
    obtain ⟨hout, hle'⟩ := flushReady_delivered { st with next := st.next + 1 } hnext
      (by simp only; omega) hb
    have hge := flushReady_next_le { st with next := st.next + 1 } [f]
    refine ⟨(flushReady_epoch _ _).trans he, hout, ?_, hle', flushReady_gap _ _, fun k g hk => ?_⟩
    · simp only at hge ⊢
      omega
    · have hk' := flushReady_stored hk
      exact hb k g hk'
  split
  next hlt' hne _ =>
    simp only [Delivered, List.append_nil]
    refine ⟨he, trivial, hpos, hle, ?_, fun k g hk => ?_⟩
    · rw [find_insert, if_neg (Ne.symm hne)]
      exact hgap
    · rw [find_insert] at hk
      split at hk
      next hkey =>
        obtain rfl : f = g := by simpa using hk
        rw [hkey]
        exact hget
      next => exact hb k g hk
  · simpa using hd

theorem Delivered.step (hg : Generation sid epoch sent) (h : Delivered epoch sent out s)
    (hf : f ∈ sent) (hopen : f.ftype = .open → s.state = none) :
    Delivered epoch sent (out ++ (s.feed f).1) (s.feed f).2 := by
  have hget := hg.numbered.get hf
  obtain ⟨hlt, _⟩ := List.getElem?_eq_some_iff.mp hget
  by_cases ho : f.ftype = .open
  · simp only [Delivered, hopen ho] at h
    obtain ⟨rfl, hw⟩ := h
    obtain ⟨he, hn, hb⟩ := merged_open hg hf ho hw
    have hz : f.sseq = 0 := (hg.sseq_zero hf).mp ho
    have hfirst : [] ++ [f] = sent.take (mergeWaiting (baseline f) s.waiting).1.next := by
      rw [hn, List.take_one]
      simp [List.head?_eq_getElem?, ← hz, hget]
    obtain ⟨hout, hle⟩ := flushReady_delivered _ hfirst (by omega) fun k g hk => (hb k g hk).1
    have hge := flushReady_next_le (mergeWaiting (baseline f) s.waiting).1 [f]
    rw [feed_open hg hf ho]
    exact ⟨(flushReady_epoch _ _).trans he, hout, by omega, hle, flushReady_gap _ _,
      fun k g hk => (hb k g (flushReady_stored hk)).1⟩
  cases hs : s.state with
  | none =>
      simp only [Delivered, hs] at h
      rw [feed_early hg hf ho hs]
      split
      · simp only [Delivered, hs]
        refine ⟨by simp [h.1], fun g hgm => ?_⟩
        rcases List.mem_append.mp hgm with hgm | hgm
        · exact h.2 g hgm
        · rw [List.mem_singleton.mp hgm]
          exact hf
      · simp only [Delivered, hs]
        exact ⟨by simp [h.1], h.2⟩
  | some st => exact h.current hg.numbered hf ho hs

theorem Opened.step (hg : Generation sid epoch sent) (hd : Delivered epoch sent out s)
    (h : Opened past s) (hf : f ∈ sent) : Opened (past ++ [f]) (s.feed f).2 := by
  have hsplit : (∀ g ∈ past ++ [f], g.ftype ≠ .open) ↔
      (∀ g ∈ past, g.ftype ≠ .open) ∧ f.ftype ≠ .open := by
    simp [or_imp, forall_and]
  rw [Opened, hsplit, ← (show s.state = none ↔ _ from h)]
  by_cases ho : f.ftype = .open
  · simp [feed_open hg hf ho, ho]
  cases hs : s.state with
  | none =>
      rw [feed_early hg hf ho hs]
      split <;> simp [hs, ho]
  | some st =>
      simp only [Delivered, hs] at hd
      rw [feed_current hg.numbered hf ho hs hd.1]
      split
      · simp [hs]
      split
      · simp
      split
      · simp
      · simp [hs]

theorem mergeWaiting_keeps (fs : List (Frame α)) (st : SidReorder α)
    (hfs : ∀ g ∈ fs, g.epoch = st.epoch ∧ st.next ≤ g.sseq)
    (hinj : ∀ g ∈ fs, ∀ g' ∈ fs, g.sseq = g'.sseq → g = g')
    (hold : ∀ g ∈ fs, ∀ g', find st.buf g.sseq = some g' → g' = g)
    (hlen : size st.buf + fs.length ≤ reorderMax) :
    (∀ k g, find st.buf k = some g → find (mergeWaiting st fs).1.buf k = some g) ∧
      ∀ g ∈ fs, find (mergeWaiting st fs).1.buf g.sseq = some g := by
  induction fs generalizing st with
  | nil => exact ⟨fun k g h => h, by simp⟩
  | cons x fs ih =>
      obtain ⟨hx, hrest⟩ := List.forall_mem_cons.mp hfs
      have hcond : ¬(x.epoch ≠ st.epoch ∨ x.sseq < st.next ∨ reorderMax ≤ st.buffered) := by
        simp only [List.length_cons] at hlen
        simp only [SidReorder.buffered, not_or, not_not, not_lt, not_le]
        exact ⟨hx.1, hx.2, by omega⟩
      have hsize := size_insert_le st.buf x.sseq x
      obtain ⟨hkeep, hall⟩ := ih { st with buf := st.buf.insert x.sseq x } hrest
        (fun g hgm g' hgm' => hinj g (List.mem_cons_of_mem _ hgm) g' (List.mem_cons_of_mem _ hgm'))
        (fun g hgm g' hfind => by
          simp only [find_insert] at hfind
          split at hfind
          next heq =>
            obtain rfl : x = g' := by simpa using hfind
            exact hinj x (by simp) g (List.mem_cons_of_mem _ hgm) heq.symm
          next => exact hold g (List.mem_cons_of_mem _ hgm) g' hfind)
        (by simp only [List.length_cons] at hlen ⊢; omega)
      rw [mergeWaiting, if_neg hcond]
      refine ⟨fun k g hk => hkeep k g ?_, List.forall_mem_cons.mpr ⟨hkeep x.sseq x (by simp), hall⟩⟩
      simp only [find_insert]
      split
      next heq =>
        rw [heq] at hk
        rw [hold x (by simp) g hk]
      next => exact hk

theorem forall_mem_snoc {P : Frame α → Prop} (hp : ∀ g ∈ past, P g) (hpf : P f) :
    ∀ g ∈ past ++ [f], P g := by
  intro g hgm
  rcases List.mem_append.mp hgm with hgm | hgm
  · exact hp g hgm
  · rwa [List.mem_singleton.mp hgm]

theorem Keeps.current (hn : Numbered key epoch sent) {st : SidReorder α} (he : st.epoch = epoch)
    (h : Keeps past s) (hpast : ∀ g ∈ past, g ∈ sent) (hf : f ∈ sent) (ho : f.ftype ≠ .open)
    (hs : s.state = some st)
    (hroom : st.next < f.sseq → st.buffered < reorderMax) : Keeps (past ++ [f]) (s.feed f).2 := by
  simp only [Keeps, hs] at h
  obtain ⟨hall, hbuf⟩ := h
  rw [feed_current hn hf ho hs he]
  split
  next hlt =>
    simp only [Keeps, hs]
    exact ⟨forall_mem_snoc hall (Or.inl hlt), fun k g hk =>
      ⟨List.mem_append_left _ (hbuf k g hk).1, (hbuf k g hk).2⟩⟩
  split
  next heq =>
    have hge := flushReady_next_le { st with next := st.next + 1 } [f]
    simp only at hge
    refine ⟨forall_mem_snoc (fun g hgm => ?_) (Or.inl (by omega)), fun k g hk => ⟨?_, ?_⟩⟩
    · rcases hall g hgm with hlt | hfind
      · exact Or.inl (by omega)
      · exact flushReady_keeps hfind
    · have hk' := flushReady_stored hk
      exact List.mem_append_left _ (hbuf k g hk').1
    · exact flushReady_above (fun k g hk => (hbuf k g hk).2) hk
  next hlt hne =>
    have hgt : st.next < f.sseq := by omega
    rw [if_pos (hroom hgt)]
    refine ⟨forall_mem_snoc (fun g hgm => ?_) (Or.inr (by simp)), fun k g hk => ?_⟩
    · simp only [find_insert]
      split
      next heq => exact Or.inr (by rw [hn.eq_of_sseq (hpast g hgm) hf heq])
      next => exact hall g hgm
    · simp only [find_insert] at hk
      split at hk
      next heq =>
        obtain rfl : f = g := by simpa using hk
        exact ⟨by simp, by rw [heq]; exact hgt⟩
      next => exact ⟨List.mem_append_left _ (hbuf k g hk).1, (hbuf k g hk).2⟩

theorem Keeps.step (hg : Generation sid epoch sent) (hd : Delivered epoch sent out s)
    (ho' : Opened past s) (h : Keeps past s) (hpast : ∀ g ∈ past, g ∈ sent) (hf : f ∈ sent)
    (hopen : f.ftype = .open → s.state = none)
    (hearly : s.state = none → (past ++ [f]).length ≤ preopenMax ∨
      f.ftype = .open ∧ past.length ≤ preopenMax)
    (hroom : ∀ st, s.state = some st → st.next < f.sseq → st.buffered < reorderMax) :
    Keeps (past ++ [f]) (s.feed f).2 := by
  by_cases ho : f.ftype = .open
  · have hs := hopen ho
    simp only [Delivered, hs] at hd
    simp only [Keeps, hs] at h
    have hz : f.sseq = 0 := (hg.sseq_zero hf).mp ho
    have hlen : past.length ≤ preopenMax := by
      rcases hearly hs with hl | hl
      · simp only [List.length_append] at hl; omega
      · exact hl.2
    obtain ⟨he, hn, hb⟩ := merged_open hg hf ho hd.2
    obtain ⟨-, hall⟩ := mergeWaiting_keeps s.waiting (baseline f)
      (fun g hgm => by
        have hgs := hd.2 g hgm
        have hno : g.ftype ≠ .open := ho'.mp hs g (h ▸ hgm)
        have hpos : g.sseq ≠ 0 := fun hz => hno ((hg.sseq_zero hgs).mpr hz)
        simp only [baseline, hz, hg.epoch_eq f hf, hg.epoch_eq g hgs]
        exact ⟨trivial, by omega⟩)
      (fun g hgm g' hgm' => hg.numbered.eq_of_sseq (hd.2 g hgm) (hd.2 g' hgm'))
      (fun g _ g' hfind => by simp [baseline] at hfind)
      (by rw [h]; simp only [baseline, preopenMax, reorderMax] at hlen ⊢; exact Nat.le_trans (by simpa [size] using hlen) (by omega))
    rw [feed_open hg hf ho]
    refine ⟨forall_mem_snoc (fun g hgm => flushReady_keeps (hall g (h ▸ hgm))) (Or.inl ?_),
      fun k g hk => ⟨?_, ?_⟩⟩
    · have hge := flushReady_next_le (mergeWaiting (baseline f) s.waiting).1 [f]
      omega
    · exact List.mem_append_left _ (h ▸ mergeBaseline_stored (flushReady_stored hk))
    · exact flushReady_above (fun k g hk => by rw [hn]; exact (hb k g hk).2) hk
  cases hs : s.state with
  | none =>
      have hlen : (past ++ [f]).length ≤ preopenMax := by
        rcases hearly hs with hl | hl
        · exact hl
        · exact absurd hl.1 ho
      simp only [Keeps, hs] at h
      have hfits : past.length < preopenMax := by
        rw [List.length_append, List.length_singleton] at hlen
        exact hlen
      rw [feed_early hg hf ho hs, h, if_pos hfits]
      simp [Keeps, hs]
  | some st =>
      exact h.current hg.numbered (by simp only [Delivered, hs] at hd; exact hd.1) hpast hf ho
        hs (hroom st hs)

theorem delivered_first (hn : Numbered key epoch sent) (hhead : sent.head? = some f) :
    Delivered epoch sent [f] ⟨some (baseline f), []⟩ ∧ Keeps [f] ⟨some (baseline f), []⟩ := by
  have hget : sent[0]? = some f := by rw [← List.head?_eq_getElem?, hhead]
  have hz : f.sseq = 0 := hn.position 0 f hget
  have hf : f ∈ sent := List.mem_of_getElem? hget
  obtain ⟨hlt, _⟩ := List.getElem?_eq_some_iff.mp hget
  constructor
  · refine ⟨hn.epoch_eq f hf, ?_, by simp [baseline], ?_, rfl, fun k g hk => ?_⟩
    · rw [baseline, hz, List.take_one, hhead]
      rfl
    · simp only [baseline, hz]
      omega
    · simp [baseline] at hk
  · refine ⟨?_, fun k g hk => ?_⟩
    · simp [baseline]
    · simp [baseline] at hk

end Step

section Run

variable [DecidableEq α] {key : UInt16 × Bool} {sid : UInt16} {epoch : UInt8}
  {sent past out : List (Frame α)} {s : Slot α} {f : Frame α}

def waitingFrames (sent past : List (Frame α)) : List (Frame α) :=
  past.filter fun f => (sent.take (sent.idxOf f)).any (· ∉ past)

theorem waitingFrames_le (sent arrived : List (Frame α)) (hlen : arrived.length ≤ reorderMax)
    (n : Nat) : (waitingFrames sent (arrived.take n)).length ≤ reorderMax := by
  calc (waitingFrames sent (arrived.take n)).length
      ≤ (arrived.take n).length := List.length_filter_le _ _
    _ ≤ arrived.length := List.length_take_le' n _
    _ ≤ reorderMax := hlen

theorem Numbered.idxOf_eq (hn : Numbered key epoch sent) (hf : f ∈ sent) :
    sent.idxOf f = f.sseq := by
  have hlt : sent.idxOf f < sent.length := List.idxOf_lt_length_of_mem hf
  have hget : sent[sent.idxOf f]? = some f := by
    rw [List.getElem?_eq_getElem hlt, List.getElem_idxOf hlt]
  exact (hn.position _ f hget).symm

theorem buffered_lt (hn : Numbered key epoch sent) (hd : Delivered epoch sent out s)
    (h : Keeps past s) (hpast : ∀ g ∈ past, g ∈ sent) (hf : f ∈ sent) (hnew : f ∉ past)
    (hlen : (waitingFrames sent (past ++ [f])).length ≤ reorderMax) (st : SidReorder α)
    (hs : s.state = some st) (hgt : st.next < f.sseq) : st.buffered < reorderMax := by
  simp only [Delivered, hs] at hd
  simp only [Keeps, hs] at h
  obtain ⟨_, _, _, _, hgap, hbuf⟩ := hd
  obtain ⟨hlt, _⟩ := List.getElem?_eq_some_iff.mp (hn.get hf)
  have hmiss : sent[st.next] ∉ past ++ [f] := by
    have hseq := hn.position st.next _ (List.getElem?_eq_getElem (by omega))
    rw [List.mem_append, List.mem_singleton]
    rintro (hmem | heq)
    · rcases h.1 _ hmem with hless | hfind
      · omega
      · rw [hseq, hgap] at hfind
        simp at hfind
    · rw [heq] at hseq
      omega
  have hwait (g : Frame α) (hmem : g ∈ past ++ [f]) (hg' : g ∈ sent) (hk : st.next < g.sseq) :
      g ∈ waitingFrames sent (past ++ [f]) := by
    rw [waitingFrames, List.mem_filter, List.any_eq_true, hn.idxOf_eq hg']
    refine ⟨hmem, sent[st.next], ?_, by simpa using hmiss⟩
    exact List.mem_take_iff_getElem.mpr ⟨st.next, by omega, rfl⟩
  have hkeys : (f.sseq :: st.buf.keys).Nodup := by
    refine List.nodup_cons.mpr ⟨fun hmem => ?_, st.buf.keys_nodup⟩
    obtain ⟨g, hfind⟩ := (mem_keys_iff st.buf f.sseq).mp hmem
    have hget := hbuf _ g hfind
    rw [hn.get hf] at hget
    obtain rfl : f = g := by simpa using hget
    exact hnew (h.2 _ f hfind).1
  have hsub : f.sseq :: st.buf.keys ⊆ (waitingFrames sent (past ++ [f])).map Frame.sseq := by
    refine List.cons_subset.mpr ⟨List.mem_map_of_mem (hwait f (by simp) hf hgt), fun k hk => ?_⟩
    obtain ⟨g, hfind⟩ := (mem_keys_iff st.buf k).mp hk
    obtain ⟨hmem, hlt'⟩ := h.2 k g hfind
    have hseq := hn.position k g (hbuf k g hfind)
    rw [← hseq] at hlt' ⊢
    exact List.mem_map_of_mem (hwait g (List.mem_append_left _ hmem) (hpast g hmem) hlt')
  have hle := (List.subperm_of_subset hkeys hsub).length_le
  rw [List.length_cons, List.length_map, ← size_eq_keys] at hle
  simp only [SidReorder.buffered]
  omega

def isOpen (f : Frame α) : Bool := f.ftype == .open

omit [DecidableEq α] in
theorem no_earlier_open {arrived : List (Frame α)} (honce : (arrived.filter isOpen).length ≤ 1)
    (hpre : past ++ [f] <+: arrived) (ho : f.ftype = .open) : ∀ g ∈ past, g.ftype ≠ .open := by
  intro g hgm hgo
  obtain ⟨rest, rfl⟩ := hpre
  have hpos : 0 < (past.filter isOpen).length :=
    List.length_pos_of_mem (List.mem_filter.mpr ⟨hgm, by simp [isOpen, hgo]⟩)
  have hone : ([f].filter isOpen).length = 1 := by simp [isOpen, ho]
  simp only [List.filter_append, List.length_append, hone] at honce
  omega

omit [DecidableEq α] in
theorem length_le_takeWhile {arrived : List (Frame α)} (hpre : past <+: arrived)
    (hno : ∀ g ∈ past, g.ftype ≠ .open) : past.length ≤ (arrived.takeWhile (!isOpen ·)).length := by
  obtain ⟨rest, rfl⟩ := hpre
  rw [List.takeWhile_append_of_pos (by simpa [isOpen] using hno), List.length_append]
  omega

omit [DecidableEq α] in
theorem run_delivered (hg : Generation sid epoch sent) (arrived : List (Frame α))
    (hsent : ∀ g ∈ arrived, g ∈ sent) (honce : (arrived.filter isOpen).length ≤ 1) :
    Delivered epoch sent (Transducer.run Slot.feed Slot.empty arrived).1.flatten
        (Transducer.run Slot.feed Slot.empty arrived).2 ∧
      Opened arrived (Transducer.run Slot.feed Slot.empty arrived).2 := by
  refine Transducer.run_history
    (fun past out s => Delivered epoch sent out s ∧ Opened past s) arrived ?_
    Slot.empty ⟨by simp [Delivered, Slot.empty], by simp [Opened, Slot.empty]⟩
  rintro past g out s hpre ⟨hd, ho⟩
  have hgs : g ∈ sent := hsent g (hpre.subset (by simp))
  exact ⟨hd.step hg hgs fun hopen => ho.mpr (no_earlier_open honce hpre hopen), ho.step hg hd hgs⟩

omit [DecidableEq α] in
theorem Generation.open_once (hg : Generation sid epoch sent) {arrived : List (Frame α)}
    (hperm : arrived.Perm sent) : (arrived.filter isOpen).length ≤ 1 := by
  have hnodup : (arrived.filter isOpen).Nodup := (hperm.nodup_iff.mpr hg.numbered.nodup).filter _
  have hzero : ∀ g ∈ arrived.filter isOpen, g ∈ sent ∧ g.sseq = 0 := by
    intro g hgm
    obtain ⟨hmem, hopen⟩ := List.mem_filter.mp hgm
    have hgs := hperm.mem_iff.mp hmem
    exact ⟨hgs, (hg.sseq_zero hgs).mp (by simpa [isOpen] using hopen)⟩
  cases hl : arrived.filter isOpen with
  | nil => simp
  | cons o rest =>
      rw [hl] at hnodup hzero
      have hsub : o :: rest ⊆ [o] := by
        intro g hgm
        have ho := hzero o (by simp)
        have hgz := hzero g hgm
        simp [hg.numbered.eq_of_sseq hgz.1 ho.1 (by rw [hgz.2, ho.2])]
      simpa using (List.subperm_of_subset hnodup hsub).length_le

theorem Keeps.arrive (hg : Generation sid epoch sent) {arrived : List (Frame α)}
    (hperm : arrived.Perm sent) (hearly : (arrived.takeWhile (!isOpen ·)).length ≤ preopenMax)
    (hwait : ∀ n, (waitingFrames sent (arrived.take n)).length ≤ reorderMax)
    (hpre : past ++ [f] <+: arrived) (hd : Delivered epoch sent out s) (ho : Opened past s)
    (h : Keeps past s) : Keeps (past ++ [f]) (s.feed f).2 := by
  have hsent : ∀ g ∈ past ++ [f], g ∈ sent := fun g hgm => hperm.mem_iff.mp (hpre.subset hgm)
  have hpast : ∀ g ∈ past, g ∈ sent := fun g hgm => hsent g (by simp [hgm])
  have hf : f ∈ sent := hsent f (by simp)
  have hnew : f ∉ past := by
    have hnd := hpre.sublist.nodup (hperm.nodup_iff.mpr hg.numbered.nodup)
    rw [List.nodup_append] at hnd
    exact fun hmem => hnd.2.2 f hmem f (by simp) rfl
  apply h.step hg hd ho hpast hf
  · exact fun hopen => ho.mpr (no_earlier_open (hg.open_once hperm) hpre hopen)
  · intro hs
    by_cases hopen : f.ftype = .open
    · have hle := length_le_takeWhile ((List.prefix_append past [f]).trans hpre) (ho.mp hs)
      exact Or.inr ⟨hopen, Nat.le_trans hle hearly⟩
    · have hno : ∀ g ∈ past ++ [f], g.ftype ≠ .open := by
        simpa [or_imp, forall_and, hopen] using ho.mp hs
      exact Or.inl (Nat.le_trans (length_le_takeWhile hpre hno) hearly)
  · apply buffered_lt hg.numbered hd h hpast hf hnew
    rw [List.prefix_iff_eq_take.mp hpre]
    exact hwait _

omit [DecidableEq α] in
theorem Keeps.complete (hn : Numbered key epoch sent) (hd : Delivered epoch sent out s)
    (h : Keeps past s) (hperm : past.Perm sent) {st : SidReorder α} (hs : s.state = some st) :
    out = sent := by
  simp only [Delivered, hs] at hd
  simp only [Keeps, hs] at h
  obtain ⟨_, hout, _, hle, hgap, _⟩ := hd
  rw [hout]
  apply List.take_of_length_le
  by_contra hle'
  have hlt : st.next < sent.length := by omega
  have hget : sent[st.next]? = some sent[st.next] := List.getElem?_eq_getElem hlt
  have hmem := hperm.mem_iff.mpr (List.mem_of_getElem? hget)
  have hseq := hn.position _ _ hget
  rcases h.1 _ hmem with hless | hfind
  · omega
  · rw [hseq, hgap] at hfind
    simp at hfind

/-- When every frame arrives once and never too many have to wait, all of them are released. -/
theorem run_complete (hg : Generation sid epoch sent) (hne : sent ≠ []) (arrived : List (Frame α))
    (hperm : arrived.Perm sent) (hearly : (arrived.takeWhile (!isOpen ·)).length ≤ preopenMax)
    (hwait : ∀ n, (waitingFrames sent (arrived.take n)).length ≤ reorderMax) :
    (Transducer.run Slot.feed Slot.empty arrived).1.flatten = sent := by
  have hsent : ∀ g ∈ arrived, g ∈ sent := fun g => hperm.mem_iff.mp
  obtain ⟨⟨hd, ho⟩, hk⟩ := Transducer.run_history
    (fun past out s => (Delivered epoch sent out s ∧ Opened past s) ∧ Keeps past s) arrived
    (fun past g out s hpre ⟨⟨hd, ho⟩, hk⟩ =>
      have hgs := hsent g (hpre.subset (by simp))
      have hfirst hopen := ho.mpr (no_earlier_open (hg.open_once hperm) hpre hopen)
      ⟨⟨hd.step hg hgs hfirst, ho.step hg hd hgs⟩, hk.arrive hg hperm hearly hwait hpre hd ho⟩)
    Slot.empty ⟨⟨by simp [Delivered, Slot.empty], by simp [Opened, Slot.empty]⟩,
      by simp [Keeps, Slot.empty]⟩
  generalize (Transducer.run Slot.feed Slot.empty arrived).1.flatten = out at hd
  generalize (Transducer.run Slot.feed Slot.empty arrived).2 = s at hd ho hk
  cases hs : s.state with
  | none =>
      have hlen : 0 < sent.length := List.length_pos_iff.mpr hne
      have hget : sent[0]? = some sent[0] := List.getElem?_eq_getElem hlen
      have hfirst : sent[0] ∈ arrived := hperm.mem_iff.mpr (List.getElem_mem hlen)
      exact absurd ((hg.opened 0 _ hget).mpr rfl) (ho.mp hs _ hfirst)
  | some st => exact hk.complete hg.numbered hd hperm hs

end Run

end SrtVpn.SessionOrder
