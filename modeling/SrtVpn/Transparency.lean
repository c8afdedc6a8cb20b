import SrtVpn.Runs
import SrtVpn.SeqNumbers
import SrtVpn.Slots

namespace SrtVpn.Transparency

open BigEndian Tables Wire Encoder SeqNumbers Decoder Slots

variable {α : Type}

def upToDate (tx : SidTx) : Option (SidReorder α) :=
  if tx.epoch = 0 then none else some ⟨tx.epoch, tx.seq, ∅⟩

/-- The decoder stands where the encoder stands, in the direction of the encoder, and holds
nothing. -/
structure Aligned (enc : MuxEncoder) (d : MuxDecoder α) : Prop where
  states : ∀ sid, find d.states (sid, enc.dirAcceptor) = upToDate (sidTx enc sid)
  other : ∀ sid, find d.states (sid, !enc.dirAcceptor) = none
  preopen : ∀ sid, find d.preopen sid = none
  stale : d.staleDropped = 0

/-- The frame opens a generation, continues one, or is the first of the return direction. -/
def Fits (enc : MuxEncoder) (c : Call α) : Prop :=
  usesSessionOrder c.ftype = true → c.ftype ≠ .open →
    (sidTx enc c.sessionId).seq < seqMask.toNat ∧
    (enc.dirAcceptor = false → (sidTx enc c.sessionId).epoch ≠ 0)

section Empty

theorem sum_eq_zero {K V : Type} [DecidableEq K] (t : Table K V) (g : V → Nat)
    (h : ∀ k v, find t k = some v → g v = 0) : (t.entries.map fun e => g e.2).sum = 0 := by
  rw [List.sum_eq_zero_iff_forall_eq_nat]
  intro n hn
  obtain ⟨e, he, rfl⟩ := List.mem_map.mp hn
  exact h e.1 e.2 (AList.mem_lookup_iff.mpr he)

theorem Aligned.bufferedFrames_eq_zero {enc : MuxEncoder} {d : MuxDecoder α} (h : Aligned enc d) :
    bufferedFrames d = 0 := by
  have hstates : ∀ key st, find d.states key = some st → st.buffered = 0 := by
    rintro ⟨sid, dir⟩ st hst
    by_cases hdir : dir = enc.dirAcceptor
    · rw [hdir, h.states, upToDate] at hst
      split at hst
      · simp at hst
      · obtain rfl := Option.some.inj hst
        rfl
    · rw [← Bool.not_eq.mpr (Ne.symm hdir), h.other] at hst
      simp at hst
  have hpreopen : ∀ sid w, find d.preopen sid = some w → w.length = 0 := by
    intro sid w hw
    simp [h.preopen] at hw
  rw [bufferedFrames, sum_eq_zero d.states SidReorder.buffered hstates,
    sum_eq_zero d.preopen List.length hpreopen]

end Empty

section Step

variable {enc : MuxEncoder} {d : MuxDecoder α} {c : Call α}

theorem dirAcceptor_stamp (enc : MuxEncoder) (c : Call α) :
    (stamp enc c).2.dirAcceptor = enc.dirAcceptor := by
  simp only [stamp, nextSeqField]
  split
  · rfl
  · simp only [generation]
    split
    · rfl
    · split <;> rfl

theorem or_flagDirAccept {x y : UInt8} (hx : x &&& flagDirAccept = 0) :
    (x ||| y) &&& flagDirAccept = y &&& flagDirAccept := by
  apply UInt8.toNat_inj.mp
  have hx' : x.toNat &&& flagDirAccept.toNat = 0 := by
    rw [← UInt8.toNat_and, hx]
    rfl
  rw [UInt8.toNat_and, UInt8.toNat_or, Nat.and_or_distrib_right, hx', UInt8.toNat_and]
  exact Nat.zero_or _

theorem stamp_dirAcceptor (enc : MuxEncoder) (hc : c.flags &&& flagDirAccept = 0) :
    (stamp enc c).1.dirAcceptor = enc.dirAcceptor := by
  have hflags : (stamp enc c).1.flags = headerFlags enc c.flags := rfl
  have hrel : (if enc.reliable then c.flags ||| flagReliable else c.flags) &&& flagDirAccept =
      0 := by
    split
    · exact or_flagDirAccept hc
    · exact hc
  rw [Frame.dirAcceptor, hflags, headerFlags]
  cases enc.dirAcceptor with
  | false =>
      rw [if_neg (by simp), hrel]
      rfl
  | true =>
      rw [if_pos rfl, or_flagDirAccept hrel]
      rfl

theorem upToDate_of_epoch_ne {tx : SidTx} (h : tx.epoch ≠ 0) :
    (upToDate tx : Option (SidReorder α)) = some ⟨tx.epoch, tx.seq, ∅⟩ :=
  if_neg h

theorem Aligned.store (h : Aligned enc d) (hu : usesSessionOrder c.ftype = true) (d' : MuxDecoder α)
    (hstates : d'.states = d.states.insert (c.sessionId, enc.dirAcceptor)
      ⟨(generation enc c.ftype c.sessionId).1.epoch,
        (generation enc c.ftype c.sessionId).1.seq + 1, ∅⟩)
    (hpreopen : ∀ sid, find d'.preopen sid = none) (hstale : d'.staleDropped = 0) :
    Aligned (stamp enc c).2 d' := by
  refine ⟨fun sid => ?_, fun sid => ?_, hpreopen, hstale⟩
  · rw [dirAcceptor_stamp, hstates, find_insert, sidTx_stamp]
    by_cases hsid : sid = c.sessionId
    · rw [if_pos (by rw [hsid]), if_pos (by simp [Call.ofSession, hu, hsid]), hsid]
      exact (if_neg (generation_epoch_ne_zero enc c.ftype c.sessionId)).symm
    · rw [if_neg (by simp [hsid]), if_neg (by simp [Call.ofSession, Ne.symm hsid]), h.states]
  · rw [dirAcceptor_stamp, hstates, find_insert, if_neg (by simp), h.other]

theorem aligned_step (h : Aligned enc d) (hc : c.flags &&& flagDirAccept = 0) (hfits : Fits enc c) :
    (feedFrame d (stamp enc c).1).1 = [(stamp enc c).1] ∧
    Aligned (stamp enc c).2 (feedFrame d (stamp enc c).1).2 := by
  have hkey : (stamp enc c).1.key = (c.sessionId, enc.dirAcceptor) :=
    Prod.ext rfl (stamp_dirAcceptor enc hc)
  have htype : (stamp enc c).1.ftype = c.ftype := rfl
  cases hu : usesSessionOrder c.ftype with
  | false =>
      simp only [feedFrame, htype, hu, if_true]
      refine ⟨trivial, fun sid => ?_, fun sid => ?_, h.preopen, h.stale⟩
      · rw [dirAcceptor_stamp, sidTx_stamp, if_neg (by simp [Call.ofSession, hu]), h.states]
      · rw [dirAcceptor_stamp, h.other]
  | true =>
      have hepoch := epoch_stamp enc c hu
      have hsseq := sseq_stamp enc c hu
      have hne := generation_epoch_ne_zero enc c.ftype c.sessionId
      have hbase : baseline (stamp enc c).1 =
          ⟨(generation enc c.ftype c.sessionId).1.epoch,
            (generation enc c.ftype c.sessionId).1.seq + 1, ∅⟩ := by
        rw [baseline, hepoch, hsseq]
      simp only [feedFrame, htype, hu, hepoch, hkey]
      rw [if_neg (by simp), if_neg hne]
      by_cases ho : c.ftype = .open
      · rw [if_pos ho]
        have hwait : (find d.preopen (stamp enc c).1.sessionId).getD [] = [] := by
          rw [h.preopen]; rfl
        simp only [feedOpen, hwait, mergeWaiting, flushReady_baseline]
        refine ⟨trivial, h.store hu _ ?_ ?_ h.stale⟩
        · rw [hkey, hbase]
        · intro sid
          rw [find_erase]
          split
          · rfl
          · exact h.preopen sid
      · rw [if_neg ho, h.states]
        obtain ⟨hseq, hopener⟩ := hfits hu ho
        by_cases he : (sidTx enc c.sessionId).epoch = 0
        · have hacc : (stamp enc c).1.dirAcceptor = true := by
            rw [stamp_dirAcceptor enc hc]
            by_contra hd
            exact hopener (by simpa using hd) he
          rw [upToDate, if_pos he]
          simp only [hacc, if_true, startGeneration, flushReady_baseline]
          refine ⟨trivial, h.store hu _ ?_ h.preopen h.stale⟩
          rw [hkey, hbase]
        · have hgen := generation_continues c.ftype he ho hseq
          rw [hgen] at hsseq
          rw [upToDate_of_epoch_ne he, hgen]
          simp only [feedCurrent, hsseq, Nat.lt_irrefl, if_true, if_false]
          refine ⟨rfl, h.store hu _ ?_ h.preopen h.stale⟩
          rw [hkey, hgen]
          rfl

theorem aligned_feed {enc : MuxEncoder} {d : MuxDecoder Bytes} {c : Call Bytes} (h : Aligned enc d)
    (hc : c.flags &&& flagDirAccept = 0) (hpay : c.payload.length ≤ frameDataMax)
    (hfits : Fits enc c) :
    ∃ f, decodeFrame (frameBytes (stamp enc c).1) = some f ∧
    (feed d (frameBytes (stamp enc c).1)).1 = [f] ∧
      Aligned (stamp enc c).2 (feed d (frameBytes (stamp enc c).1)).2 := by
  have hdec : decodeFrame (frameBytes (stamp enc c).1) = some (stamp enc c).1 := by
    apply decodeFrame_frameBytes
    exact Nat.lt_of_le_of_lt hpay (by decide)
  have hcount : Aligned enc (countRx d) := ⟨h.states, h.other, h.preopen, h.stale⟩
  rw [feed_of_decode hdec]
  exact ⟨_, hdec, aligned_step hcount hc hfits⟩

end Step

section Calls

/-- A stretch of the calls of one session in which only the first may be an Open. -/
def OneGeneration (b : List (Call α)) : Prop := ∀ c ∈ b.tail, c.ftype ≠ .open

theorem OneGeneration.snoc {b : List (Call α)} {c : Call α} (h : OneGeneration b)
    (hc : c.ftype ≠ .open) : OneGeneration (b ++ [c]) := by
  intro x hx
  cases b with
  | nil => simp at hx
  | cons y b =>
      rcases List.mem_append.mp hx with hx | hx
      · exact h x hx
      · obtain rfl : x = c := by simpa using hx
        exact hc

theorem stampAll_snoc (enc : MuxEncoder) (past : List (Call α)) (c : Call α) :
    stampAll enc (past ++ [c]) = ((stampAll enc past).1 ++ [(stamp (stampAll enc past).2 c).1],
      (stamp (stampAll enc past).2 c).2) := by
  simp [stampAll, Transducer.run_append]

theorem stampAll_sofar {enc : MuxEncoder} {calls : List (Call Bytes)} {past : List Bytes}
    {m : Bytes} (h : past ++ [m] <+: (stampAll enc calls).1.map frameBytes) :
    ∃ sofar c, sofar ++ [c] <+: calls ∧ past = (stampAll enc sofar).1.map frameBytes ∧
      m = frameBytes (stamp (stampAll enc sofar).2 c).1 := by
  induction calls using List.reverseRecOn with
  | nil =>
      obtain ⟨r, hr⟩ := h
      simp [stampAll] at hr
  | append_singleton calls c ih =>
      rw [stampAll_snoc, List.map_append, List.map_singleton] at h
      rcases Runs.concat_prefix_concat.mp h with ⟨rfl, hm⟩ | h
      · exact ⟨calls, c, List.prefix_refl _, rfl, hm⟩
      · obtain ⟨sofar, c', hs, hp, hm⟩ := ih h
        exact ⟨sofar, c', hs.trans (List.prefix_append calls [c]), hp, hm⟩

theorem seq_le_generation {enc : MuxEncoder} {sid : UInt16} (hnew : (sidTx enc sid).seq = 0)
    (past : List (Call α)) : ∃ b, b <:+ past.filter (Call.ofSession sid) ∧ OneGeneration b ∧
    (sidTx (stampAll enc past).2 sid).seq ≤ b.length := by
  induction past using List.reverseRecOn with
  | nil => exact ⟨[], List.suffix_refl _, by simp [OneGeneration], Nat.le_of_eq hnew⟩
  | append_singleton past c ih =>
      obtain ⟨b, hb, hone, hle⟩ := ih
      rw [stampAll_snoc, sidTx_stamp, List.filter_append]
      by_cases hc : c.ofSession sid = true
      · rw [if_pos hc, List.filter_singleton, hc]
        by_cases ho : c.ftype = .open
        · refine ⟨[c], List.suffix_append _ _, by simp [OneGeneration], ?_⟩
          simp [generation, ho]
        · refine ⟨b ++ [c], ?_, ?_, ?_⟩
          · obtain ⟨l, hl⟩ := hb
            exact ⟨l, by simp [← hl]⟩
          · exact hone.snoc ho
          · have hgen := generation_seq_le (stampAll enc past).2 c.ftype sid
            simp only [List.length_append, List.length_singleton]
            omega
      · rw [if_neg hc, List.filter_singleton, Bool.eq_false_iff.mpr hc]
        exact ⟨b, by simpa using hb, hone, hle⟩

theorem fits_stampAll {enc : MuxEncoder} {calls past : List (Call α)} {c : Call α}
    (hnew : ∀ sid, (sidTx enc sid).seq = 0)
    (hlen : ∀ sid b, b <:+: calls.filter (Call.ofSession sid) → OneGeneration b →
      b.length ≤ 2 ^ 24 - 1)
    (hopen : enc.dirAcceptor = false → usesSessionOrder c.ftype = true → c.ftype = .open ∨
      ∃ o ∈ past, o.ftype = .open ∧ o.sessionId = c.sessionId)
    (hpre : past ++ [c] <+: calls) (hdir : (stampAll enc past).2.dirAcceptor = enc.dirAcceptor) :
    Fits (stampAll enc past).2 c := by
  intro hu ho
  have hc : c.ofSession c.sessionId = true := Call.ofSession_iff.mpr ⟨hu, rfl⟩
  constructor
  · obtain ⟨b, ⟨l, hl⟩, hone, hle⟩ := seq_le_generation (hnew c.sessionId) past
    have hinf : b ++ [c] <:+: calls.filter (Call.ofSession c.sessionId) := by
      obtain ⟨r, hr⟩ := hpre.filter (Call.ofSession c.sessionId)
      refine ⟨l, r, ?_⟩
      rw [← hr, List.filter_append, ← hl, List.filter_singleton, hc]
      simp
    have hbound := hlen _ _ hinf (hone.snoc ho)
    rw [List.length_append, List.length_singleton] at hbound
    rw [toNat_seqMask]
    omega
  · intro hd
    obtain h | ⟨o, hmem, hoo, hsid⟩ := hopen (hdir.symm.trans hd) hu
    · exact absurd h ho
    · refine ((sidTx_stampAll past enc c.sessionId).2 (Or.inr ?_)).1
      have : o ∈ past.filter (Call.ofSession c.sessionId) := by
        simp [hmem, Call.ofSession, hoo, hsid, usesSessionOrder]
      exact List.ne_nil_of_mem this

theorem dirAcceptor_stampAll (enc : MuxEncoder) (past : List (Call α)) :
    (stampAll enc past).2.dirAcceptor = enc.dirAcceptor :=
  Transducer.run_invariant (fun e => e.dirAcceptor = enc.dirAcceptor) past
    (fun e c _ h => (dirAcceptor_stamp e c).trans h) enc rfl

theorem aligned_new {enc : MuxEncoder} (hnew : ∀ sid, sidTx enc sid = ⟨0, 0⟩) :
    Aligned enc (MuxDecoder.new : MuxDecoder α) := by
  refine ⟨fun sid => ?_, fun _ => rfl, fun _ => rfl, rfl⟩
  rw [hnew]
  rfl

/-- The decoder fed with the messages of a prefix of the calls stands where the encoder stood after
it. -/
theorem aligned_run {enc : MuxEncoder} {calls : List (Call Bytes)}
    (hnew : ∀ sid, sidTx enc sid = ⟨0, 0⟩) (hpay : ∀ c ∈ calls, c.payload.length ≤ frameDataMax)
    (hflags : ∀ c ∈ calls, c.flags &&& flagDirAccept = 0)
    (hfits : ∀ past c, past ++ [c] <+: calls → Fits (stampAll enc past).2 c)
    (past : List (Call Bytes))
    (hpast : past <+: calls) :
    Aligned (stampAll enc past).2
      (feedAll MuxDecoder.new ((stampAll enc past).1.map frameBytes)).2 := by
  induction past using List.reverseRecOn with
  | nil => exact aligned_new hnew
  | append_singleton past c ih =>
      have hc : c ∈ calls := hpast.subset (by simp)
      have hprev := ih ((List.prefix_append past [c]).trans hpast)
      obtain ⟨f, -, -, h⟩ := aligned_feed hprev (hflags c hc) (hpay c hc) (hfits past c hpast)
      rw [stampAll_snoc, List.map_append, List.map_singleton, feedAll_snoc]
      exact h

end Calls

def newEncoder (acceptor reliable : Bool) : MuxEncoder :=
  if acceptor then MuxEncoder.newAcceptor reliable else MuxEncoder.new reliable

/-- Messages fed in the order they were encoded pass one by one, and the reorder layer never holds
or drops anything. -/
theorem reorder_layer_transparent (acceptor reliable : Bool) (calls : List (Call Bytes))
    (msgs : List Bytes) (enc' : MuxEncoder)
    (henc : encodeAll (newEncoder acceptor reliable) calls = some (msgs, enc'))
    (hflags : ∀ c ∈ calls, c.flags &&& flagDirAccept = 0)
    (hlen : ∀ sid b, b <:+: calls.filter (Call.ofSession sid) → OneGeneration b →
      b.length ≤ 2 ^ 24 - 1)
    (hopen : acceptor = false → ∀ past c, past ++ [c] <+: calls → usesSessionOrder c.ftype = true →
      c.ftype = .open ∨ ∃ o ∈ past, o.ftype = .open ∧ o.sessionId = c.sessionId) :
    ∀ past m, past ++ [m] <+: msgs →
    ∃ f, decodeFrame m = some f ∧ (feed (feedAll MuxDecoder.new past).2 m).1 = [f] ∧
      bufferedFrames (feed (feedAll MuxDecoder.new past).2 m).2 = 0 ∧
      (feed (feedAll MuxDecoder.new past).2 m).2.staleDropped = 0 := by
  intro past m hpre
  obtain ⟨hpay, rfl, -⟩ := encodeAll_eq_some henc
  have hnew : ∀ sid, sidTx (newEncoder acceptor reliable) sid = ⟨0, 0⟩ := by
    intro sid
    cases acceptor <;> rfl
  have hdir : (newEncoder acceptor reliable).dirAcceptor = acceptor := by
    cases acceptor <;> rfl
  have hfits : ∀ past c, past ++ [c] <+: calls →
      Fits (stampAll (newEncoder acceptor reliable) past).2 c := by
    intro past c hpre
    apply fits_stampAll (fun sid => by rw [hnew]) hlen _ hpre (dirAcceptor_stampAll _ _)
    intro ha
    exact hopen (hdir.symm.trans ha) past c hpre
  obtain ⟨sofar, c, hcalls, rfl, rfl⟩ := stampAll_sofar hpre
  have hc : c ∈ calls := hcalls.subset (by simp)
  have halign :=
    aligned_run hnew hpay hflags hfits sofar ((List.prefix_append sofar [c]).trans hcalls)
  obtain ⟨f, hdec, hout, hnext⟩ :=
    aligned_feed halign (hflags c hc) (hpay c hc) (hfits sofar c hcalls)
  exact ⟨f, hdec, hout, hnext.bufferedFrames_eq_zero, hnext.stale⟩

theorem reorder_layer_transparent_reopened :
    let calls : List (Call Bytes) :=
  [⟨.open, 1, 0, []⟩, ⟨.data, 1, 0, [1]⟩, ⟨.close, 1, 0, []⟩, ⟨.open, 1, 0, []⟩,
      ⟨.data, 1, 0, [2]⟩]
    let msgs := ((encodeAll (newEncoder false true) calls).map Prod.fst).getD []
    ∃ f, decodeFrame (msgs.getLastD []) = some f ∧
      (feed (feedAll MuxDecoder.new msgs.dropLast).2 (msgs.getLastD [])).1 = [f] ∧
      bufferedFrames (feed (feedAll MuxDecoder.new msgs.dropLast).2 (msgs.getLastD [])).2 = 0 ∧
      (feed (feedAll MuxDecoder.new msgs.dropLast).2 (msgs.getLastD [])).2.staleDropped = 0 := by
  intro calls msgs
  apply reorder_layer_transparent false true calls msgs _ rfl (by decide)
  · intro sid b hb _
    calc b.length ≤ (calls.filter (Call.ofSession sid)).length := hb.length_le
      _ ≤ 5 := List.length_filter_le _ calls
      _ ≤ 2 ^ 24 - 1 := by decide
  · intro _ past c hpre _
    cases past with
    | nil =>
        obtain ⟨r, hr⟩ := hpre
        obtain ⟨rfl, -⟩ := List.cons.inj hr
        exact Or.inl rfl
    | cons o past =>
        have hc : c ∈ calls := hpre.subset (by simp)
        have hsid : ∀ c ∈ calls, c.sessionId = 1 := by decide
        obtain ⟨r, hr⟩ := hpre
        obtain ⟨rfl, -⟩ := List.cons.inj hr
        exact Or.inr ⟨_, List.mem_cons_self, rfl, (hsid c hc).symm⟩
  · decide

end SrtVpn.Transparency
