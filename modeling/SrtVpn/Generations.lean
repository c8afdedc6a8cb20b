import SrtVpn.SeqNumbers
import SrtVpn.Session
import SrtVpn.SessionView

namespace SrtVpn.Generations

open BigEndian Tables Wire Encoder SeqNumbers Decoder Slots SessionView Session

variable {α : Type}

def allocates (enc : MuxEncoder) (c : Call α) : Bool :=
  usesSessionOrder c.ftype &&
    ((sidTx enc c.sessionId).epoch == 0 || c.ftype == .open || seqMask.toNat ≤
      (sidTx enc c.sessionId).seq)

def allocations (enc : MuxEncoder) : List (Call α) → Nat
  | [] => 0
  | c :: cs => (if allocates enc c then 1 else 0) + allocations (stamp enc c).2 cs

/-- The epoch handed out after `n` allocations: the counter is a byte, the epoch skips 0. -/
def epochAfter (n : Nat) : Nat := n % 256 % 255 + 1

theorem epochCtr_generation (enc : MuxEncoder) (ftype : FrameType) (sid : UInt16) :
    (generation enc ftype sid).2.epochCtr = enc.epochCtr +
      if (sidTx enc sid).epoch == 0 || ftype == .open || seqMask.toNat ≤ (sidTx enc sid).seq then 1
      else 0 := by
  by_cases h : (sidTx enc sid).epoch = 0 ∨ ftype = .open
  · rcases h with h | h <;> simp [generation, allocEpoch, h]
  · obtain ⟨he, ho⟩ := not_or.mp h
    by_cases hs : seqMask.toNat ≤ (sidTx enc sid).seq
    · simp [generation, allocEpoch, hs]
    · simp [generation, he, ho, hs]

theorem epochCtr_stamp (enc : MuxEncoder) (c : Call α) :
    (stamp enc c).2.epochCtr = enc.epochCtr + if allocates enc c then 1 else 0 := by
  by_cases hu : usesSessionOrder c.ftype = false
  · simp [stamp, nextSeqField, allocates, hu]
  · have hctr : (stamp enc c).2.epochCtr = (generation enc c.ftype c.sessionId).2.epochCtr := by
      simp [stamp, nextSeqField, hu]
    rw [hctr, epochCtr_generation, allocates, (Bool.not_eq_false _).mp hu, Bool.true_and]

theorem epochCtr_stampAll (cs : List (Call α)) (enc : MuxEncoder) :
    (stampAll enc cs).2.epochCtr = enc.epochCtr + UInt8.ofNat (allocations enc cs) := by
  induction cs generalizing enc with
  | nil => simp [stampAll, allocations]
  | cons c cs ih =>
      have hrun : (stampAll enc (c :: cs)).2 = (stampAll (stamp enc c).2 cs).2 := rfl
      rw [hrun, ih, epochCtr_stamp, allocations, UInt8.ofNat_add, UInt8.add_assoc]
      split <;> rfl

theorem stamp_open (enc : MuxEncoder) (o : Call α) (ho : o.ftype = .open) :
    (stamp enc o).1 = numbered enc ⟨(allocEpoch enc).1, 0⟩ o ∧
      sidTx (stamp enc o).2 o.sessionId = ⟨(allocEpoch enc).1, 1⟩ := by
  have hgen : generation enc o.ftype o.sessionId =
      (⟨(allocEpoch enc).1, 0⟩, (allocEpoch enc).2) := by
    simp [generation, ho]
  have hu : usesSessionOrder o.ftype = true := by simp [ho, usesSessionOrder]
  refine ⟨by rw [stamp_of_session enc o hu, hgen], ?_⟩
  rw [sidTx_stamp, if_pos (Call.ofSession_iff.mpr ⟨hu, rfl⟩), hgen]

theorem toNat_allocEpoch {enc : MuxEncoder} (hnew : enc.epochCtr = 0) (cs : List (Call α)) :
    (allocEpoch (stampAll enc cs).2).1.toNat = epochAfter (allocations enc cs) := by
  have hctr := epochCtr_stampAll cs enc
  rw [hnew, UInt8.zero_add] at hctr
  rw [allocEpoch, epochAfter, hctr]
  simp only [UInt8.toNat_add, UInt8.toNat_mod, UInt8.toNat_ofNat', UInt8.reduceToNat]
  omega

theorem allocEpoch_stampAll (reliable : Bool) (cs : List (Call α)) :
    (allocEpoch (stampAll (MuxEncoder.new reliable) cs).2).1.toNat =
      epochAfter (allocations (MuxEncoder.new reliable) cs) :=
  toNat_allocEpoch rfl cs

/-- A message that, if it belongs to the session's opener direction, carries no Open and one of two
epochs. -/
def OfEpochs (sid : UInt16) (e₁ e₂ : UInt8) (msg : Bytes) : Prop :=
  ∀ g ∈ decodeFrame msg, g.key = (sid, false) → usesSessionOrder g.ftype = true →
    g.ftype ≠ .open ∧ (g.epoch = e₁ ∨ g.epoch = e₂)

/-- After the second Open, whatever came before it and whatever frames of the two generations and of
other sessions come after it, the stale message is dropped without a trace. -/
def Discarded (sid : UInt16) (second stale : Frame Bytes) : Prop :=
  ∀ hist later : List Bytes, (∀ m ∈ later, OfEpochs sid stale.epoch second.epoch m) →
    let d := (feedAll MuxDecoder.new (hist ++ frameBytes second :: later)).2
    (feed d (frameBytes stale)).1 = [] ∧
      find (feed d (frameBytes stale)).2.states (sid, false) = find d.states (sid, false)

def InGeneration (sid : UInt16) (epoch : UInt8) (d : MuxDecoder α) : Prop :=
  ∃ st, find d.states (sid, false) = some st ∧ st.epoch = epoch

theorem feed_behind {s : Slot α} {st : SidReorder α} {f : Frame α} (hs : s.state = some st)
    (hu : usesSessionOrder f.ftype = true) (he : f.epoch ≠ 0) (ho : f.ftype ≠ .open)
    (hne : st.epoch ≠ f.epoch) (hold : newerEpoch f.epoch st.epoch = false) :
    s.feed f = ([], s) := by
  simp [Slot.feed, hu, he, ho, hs, hne, hold]

theorem feed_same_epoch {s : Slot α} {st : SidReorder α} {f : Frame α} (hs : s.state = some st)
    (ho : f.ftype ≠ .open) (he : st.epoch = f.epoch) :
    ∃ st', (s.feed f).2.state = some st' ∧ st'.epoch = st.epoch := by
  unfold Slot.feed
  split
  · exact ⟨st, hs, rfl⟩
  split
  · exact ⟨st, hs, rfl⟩
  rw [hs]
  simp only [if_pos he]
  split
  · exact ⟨st, hs, rfl⟩
  split
  · exact ⟨_, rfl, flushReady_epoch _ _⟩
  split
  · exact ⟨_, rfl, rfl⟩
  · exact ⟨st, hs, rfl⟩

theorem epoch_kept {d : MuxDecoder Bytes} {sid : UInt16} {e₁ e₂ : UInt8} {m : Bytes}
    (hne : e₁ ≠ 0 ∧ e₁ ≠ e₂) (hold : newerEpoch e₁ e₂ = false) (hm : OfEpochs sid e₁ e₂ m)
    (h : InGeneration sid e₂ d) :
    InGeneration sid e₂ (feed d m).2 := by
  obtain ⟨st, hs, he⟩ := h
  rw [InGeneration]
  cases hf : decodeFrame m with
  | none =>
      rw [feed_of_decode_none hf]
      exact ⟨st, hs, he⟩
  | some g =>
      rw [feed_of_decode hf, (feedFrame_eq_slot (countRx d) g).2.1 (sid, false)]
      by_cases hk : g.key = (sid, false)
      · rw [if_pos hk.symm]
        have hslot : (slotAt (countRx d) g.key).state = some st := by rw [hk]; exact hs
        by_cases hu : usesSessionOrder g.ftype = true
        · obtain ⟨ho, hep | hep⟩ := hm g (by simp [hf]) hk hu
          · rw [feed_behind hslot hu (hep ▸ hne.1) ho (by rw [he, hep]; exact hne.2.symm)
              (by rw [he, hep]; exact hold)]
            exact ⟨st, hslot, he⟩
          · obtain ⟨st', hst', hep'⟩ := feed_same_epoch hslot ho (by rw [he, hep])
            exact ⟨st', hst', hep'.trans he⟩
        · exact ⟨st, by simp [Slot.feed, hu, hslot], he⟩
      · rw [if_neg (Ne.symm hk)]
        exact ⟨st, hs, he⟩

theorem epoch_after_open (d : MuxDecoder Bytes) {m : Bytes} {o : Frame Bytes}
    (hm : decodeFrame m = some o) (ho : o.ftype = .open) (he : o.epoch ≠ 0) {sid : UInt16}
    (hk : o.key = (sid, false)) :
    InGeneration sid o.epoch (feed d m).2 := by
  rw [InGeneration, ← hk, feed_of_decode hm, (feedFrame_eq_slot (countRx d) o).2.1, if_pos rfl]
  have hmerge := (mergeWaiting_spec (baseline o) (slotAt (countRx d) o.key).waiting).1
  have hfeed : ((slotAt (countRx d) o.key).feed o).2.state =
      some (flushReady (mergeWaiting (baseline o) (slotAt (countRx d) o.key).waiting).1 [o]).1 := by
    simp [Slot.feed, ho, he, usesSessionOrder]
  exact ⟨_, hfeed, (flushReady_epoch _ _).trans hmerge⟩

theorem feed_admitted {o f : Frame α} (hz : o.sseq = 0) (hu : usesSessionOrder f.ftype = true)
    (he : f.epoch ≠ 0) (ho : f.ftype ≠ .open) (hpos : 0 < f.sseq)
    (hin : o.epoch = f.epoch ∨ newerEpoch f.epoch o.epoch = true)
    (hout : ((Slot.mk (some (baseline o)) []).feed f).1 = []) :
    ((Slot.mk (some (baseline o)) []).feed f).2.state ≠ some (baseline o) := by
  intro hst
  by_cases heq : o.epoch = f.epoch
  · by_cases hone : f.sseq = 1
    · simp [Slot.feed, hu, he, ho, baseline, heq, hone, hz, flushReady, SidReorder.buffered, size,
        flushLoop] at hout
    · have hgt : ¬f.sseq < 1 := by omega
      simp [Slot.feed, hu, he, ho, baseline, heq, hone, hz, hgt, SidReorder.buffered, size,
        reorderMax] at hst
      have hkeys := congrArg AList.keys hst
      simp at hkeys
  · have hnew := hin.resolve_left heq
    simp [Slot.feed, hu, he, ho, baseline, heq, hnew, flushReady, SidReorder.buffered, size,
        flushLoop] at hout

theorem slotAt_after_open {m : Bytes} {o : Frame Bytes} (hm : decodeFrame m = some o)
    (ho : o.ftype = .open) (he : o.epoch ≠ 0) :
    slotAt (feed MuxDecoder.new m).2 o.key = ⟨some (baseline o), []⟩ := by
  have hempty : slotAt (countRx (MuxDecoder.new : MuxDecoder Bytes)) o.key = Slot.empty :=
    slotAt_new o.key
  rw [feed_of_decode hm, slotAt_feedFrame, hempty]
  simp [Slot.feed, ho, he, usesSessionOrder, Slot.empty, mergeWaiting, flushReady_baseline]

/-- The verdict on a stale frame depends on the two epochs alone. -/
theorem discarded_iff {sid : UInt16} (second stale : Frame Bytes)
    (hlen₂ : second.payload.length < 65536) (hlen₁ : stale.payload.length < 65536)
    (hkey₂ : second.key = (sid, false)) (hkey₁ : stale.key = (sid, false))
    (ho : second.ftype = .open)
    (hz : second.sseq = 0) (he₂ : second.epoch ≠ 0) (hu : usesSessionOrder stale.ftype = true)
    (hno : stale.ftype ≠ .open) (hpos : 0 < stale.sseq) (he₁ : stale.epoch ≠ 0) :
    Discarded sid second stale ↔
      stale.epoch ≠ second.epoch ∧ newerEpoch stale.epoch second.epoch = false := by
  have hd₂ := decodeFrame_frameBytes second hlen₂
  have hd₁ := decodeFrame_frameBytes stale hlen₁
  refine ⟨fun h => ?_, fun ⟨hne, hold⟩ hist later hlater => ?_⟩
  · obtain ⟨hout, hst⟩ := h [] [] (by simp)
    have hslot := slotAt_after_open hd₂ ho he₂
    have hrun : (feedAll MuxDecoder.new ([] ++ [frameBytes second])).2 =
      (feed MuxDecoder.new (frameBytes second)).2 := rfl
    obtain ⟨hfeed, hstates, -⟩ :=
      feedFrame_eq_slot (countRx (feed MuxDecoder.new (frameBytes second)).2) stale
    have hcount : slotAt (countRx (feed MuxDecoder.new (frameBytes second)).2) stale.key =
        ⟨some (baseline second), []⟩ := by
      rw [hkey₁, ← hkey₂]
      exact hslot
    rw [hrun, feed_of_decode hd₁, hfeed, hcount] at hout
    rw [hrun, feed_of_decode hd₁, hstates, hkey₁, if_pos rfl, ← hkey₁, hcount] at hst
    have hstate : find (feed MuxDecoder.new (frameBytes second)).2.states stale.key =
        some (baseline second) := congrArg Slot.state hcount
    have hnot : ¬(second.epoch = stale.epoch ∨ newerEpoch stale.epoch second.epoch = true) :=
      fun hin => feed_admitted hz hu he₁ hno hpos hin hout (hst.trans hstate)
    obtain ⟨hne, hold⟩ := not_or.mp hnot
    exact ⟨Ne.symm hne, by simpa using hold⟩
  · intro d
    obtain ⟨st, hs, hep⟩ : InGeneration sid second.epoch d := by
      have hrun : d =
          (Transducer.run feed (feed (feedAll MuxDecoder.new hist).2 (frameBytes second)).2
          later).2 := by
        simp [d, feedAll, Transducer.run_append]
      rw [hrun]
      exact Transducer.run_invariant (InGeneration sid second.epoch) later
        (fun d m hm => epoch_kept ⟨he₁, hne⟩ hold (hlater m hm)) _
          (epoch_after_open _ hd₂ ho he₂ hkey₂)
    obtain ⟨hout, hstates, -⟩ := feedFrame_eq_slot (countRx d) stale
    have hslot : (slotAt (countRx d) stale.key).state = some st := by rw [hkey₁]; exact hs
    have hdrop :=
      feed_behind hslot hu he₁ hno (by rw [hep]; exact hne.symm) (by rw [hep]; exact hold)
    rw [feed_of_decode hd₁, hout, hstates, hdrop, hkey₁, if_pos rfl]
    exact ⟨rfl, rfl⟩

def epochDistance (n₁ n₂ : Nat) : Nat := (epochAfter n₂ + 256 - epochAfter n₁) % 256

theorem behind_iff {e₁ e₂ : UInt8} {n₁ n₂ : Nat} (h₁ : e₁.toNat = epochAfter n₁)
    (h₂ : e₂.toNat = epochAfter n₂) :
    (e₁ ≠ e₂ ∧ newerEpoch e₁ e₂ = false) ↔ 1 ≤ epochDistance n₁ n₂ ∧ epochDistance n₁ n₂ ≤ 128 := by
  have hlt₁ := e₁.toNat_lt
  have hlt₂ := e₂.toNat_lt
  have hne : e₁ ≠ e₂ ↔ e₁.toNat ≠ e₂.toNat := not_congr UInt8.toNat_inj.symm
  rw [hne, newerEpoch, epochDistance, ← h₁, ← h₂, decide_eq_false_iff_not, UInt8.lt_iff_toNat_lt,
    UInt8.toNat_sub]
  simp only [UInt8.reduceToNat]
  omega

/-- The frames of the generation that `first` opens: those that follow it until its sequence numbers
are used up. -/
def firstGeneration (reliable : Bool) (before : List (Call α)) (first : Call α)
    (between : List (Call α)) : List (Frame α) :=
  ((stampAll (stamp (stampAll (MuxEncoder.new reliable) before).2 first).2 between).1.filter
    (ofSession first.sessionId)).take (2 ^ 24 - 2)

theorem mem_firstGeneration {reliable : Bool} {before between : List (Call α)} {first : Call α}
    (ho : first.ftype = .open)
    (hopen : ∀ c ∈ between.filter (Call.ofSession first.sessionId), c.ftype ≠ .open)
    {f : Frame α} (hf : f ∈ firstGeneration reliable before first between) :
    ∃ c ∈ between, c.ofSession first.sessionId = true ∧ ∃ k, 0 < k ∧ k < 2 ^ 24 ∧
      f = numbered (stampAll (MuxEncoder.new reliable) before).2
        ⟨(allocEpoch (stampAll (MuxEncoder.new reliable) before).2).1, k⟩ c := by
  have htx := (stamp_open (stampAll (MuxEncoder.new reliable) before).2 first ho).2
  have hnum := numbered_stamp (stampAll (MuxEncoder.new reliable) before).2 first
  have hcont :=
    stampAll_continues between (stamp (stampAll (MuxEncoder.new reliable) before).2 first).2
    first.sessionId (2 ^ 24 - 2) (by rw [htx]; exact allocEpoch_ne_zero _) hopen
    (by simp only [htx, toNat_seqMask]; omega)
  rw [firstGeneration, hcont, List.mem_mapIdx] at hf
  obtain ⟨i, hi, rfl⟩ := hf
  have hmem := List.mem_of_mem_take (List.getElem_mem hi)
  obtain ⟨hc, hown⟩ := List.mem_filter.mp hmem
  refine ⟨_, hc, hown, 1 + i, by omega, ?_, by rw [htx, hnum]⟩
  rw [List.length_take] at hi
  omega

/-- A stale frame is discarded after the second Open of its session exactly when the epoch of the
second generation is 1 to 128 steps ahead of the first on the ring of bytes. -/
theorem stale_discarded_iff (reliable : Bool) (before between : List (Call Bytes))
    (first second : Call Bytes) (msgs : List Bytes) (enc : MuxEncoder)
    (henc : encodeAll (MuxEncoder.new reliable) (before ++ first :: (between ++ [second])) =
      some (msgs, enc))
    (ho₁ : first.ftype = .open) (ho₂ : second.ftype = .open)
    (hsid : second.sessionId = first.sessionId)
    (hopen : ∀ c ∈ between.filter (Call.ofSession first.sessionId), c.ftype ≠ .open)
    (hflags : ∀ c ∈ between ++ [second], c.flags &&& flagDirAccept = 0) (stale : Frame Bytes)
    (hstale : stale ∈ firstGeneration reliable before first between) :
    Discarded first.sessionId
      (stamp (stampAll (MuxEncoder.new reliable) (before ++ first :: between)).2 second).1
        stale ↔
      let distance := epochDistance (allocations (MuxEncoder.new reliable) before)
        (allocations (MuxEncoder.new reliable) (before ++ first :: between))
      1 ≤ distance ∧ distance ≤ 128 := by
  obtain ⟨hlen, -, -⟩ := encodeAll_eq_some henc
  have hlen' : ∀ c ∈ between ++ [second], c.payload.length < 65536 := fun c hc =>
    Nat.lt_of_le_of_lt (hlen c (by simp at hc ⊢; tauto)) (by decide)
  obtain ⟨c, hc, hown, k, hk, hlt, rfl⟩ := mem_firstGeneration ho₁ hopen hstale
  obtain ⟨hu, hcs⟩ := Call.ofSession_iff.mp hown
  have hno := hopen c (List.mem_filter.mpr ⟨hc, hown⟩)
  have hmem₁ : c ∈ between ++ [second] := List.mem_append_left _ hc
  have hmem₂ : second ∈ between ++ [second] := by simp
  have hdir₁ := dirAcceptor_numbered reliable before
    ⟨(allocEpoch (stampAll (MuxEncoder.new reliable) before).2).1, k⟩ c (hflags c hmem₁)
  rw [(stamp_open _ second ho₂).1]
  have hdir₂ := dirAcceptor_numbered reliable (before ++ first :: between)
    ⟨(allocEpoch (stampAll (MuxEncoder.new reliable) (before ++ first :: between)).2).1, 0⟩ second
    (hflags second hmem₂)
  have hzero : 0 < 2 ^ 24 := by decide
  have hiff := discarded_iff (numbered _ ⟨_, 0⟩ second) (numbered _ ⟨_, k⟩ c) (hlen' second hmem₂)
    (hlen' c hmem₁) (Prod.ext hsid hdir₂) (Prod.ext hcs hdir₁) ho₂ (sseq_numbered _ _ _ hzero)
    (by rw [epoch_numbered _ _ _ hzero]; exact allocEpoch_ne_zero _)
    hu hno (by rw [sseq_numbered _ _ _ hlt]; exact hk)
    (by rw [epoch_numbered _ _ _ hlt]; exact allocEpoch_ne_zero _)
  rw [epoch_numbered _ _ _ hlt, epoch_numbered _ _ _ hzero] at hiff
  rw [hiff]
  exact behind_iff (allocEpoch_stampAll reliable before) (allocEpoch_stampAll reliable _)

theorem stale_discarded_adjacent :
    Discarded 1 ⟨.open, 1, 0x02000000, 0, openPayload 1 [97] 80⟩ ⟨.data, 1, 0x01000001, 0, [7]⟩ :=
  (stale_discarded_iff false [] [⟨.data, 1, 0, [7]⟩] (sendOpen 1 1 [97] 80)
    (sendOpen 1 1 [97] 80) _ _ rfl rfl rfl rfl (by decide) (by decide)
      ⟨.data, 1, 0x01000001, 0, [7]⟩ (by decide)).mpr (by decide)

/-- With 128 sessions opened in between, the old generation counts as the newer one and its Data
frame is delivered to the new session. -/
theorem stale_delivered_after_128_opens :
    let between := ⟨.data, 1, 0, [7]⟩ :: List.replicate 128 (sendOpen 2 1 [97] 80)
    let stale : Frame Bytes := ⟨.data, 1, 0x01000001, 0, [7]⟩
    stale ∈ firstGeneration false [] (sendOpen 1 1 [97] 80) between ∧
      ¬Discarded 1
        (stamp (stampAll (MuxEncoder.new false) ([] ++ sendOpen 1 1 [97] 80 :: between)).2
        (sendOpen 1 1 [97] 80)).1 stale := by
  intro between stale
  refine ⟨by decide +kernel, fun h => ?_⟩
  have hout := (h [] [] (by simp)).1
  revert hout
  decide +kernel

end SrtVpn.Generations
