import SrtVpn.Encoder

namespace SrtVpn.SeqNumbers

open Tables Wire Encoder

variable {α : Type}

theorem toNat_seqField (tx : SidTx) (h : tx.seq < 2 ^ 24) :
    (seqField tx).toNat = tx.epoch.toNat * 2 ^ 24 + tx.seq := by
  have he : tx.epoch.toNat < 256 := tx.epoch.toNat_lt
  have hor := Nat.shiftLeft_add_eq_or_of_lt h tx.epoch.toNat
  rw [Nat.shiftLeft_eq] at hor
  have hshift : (tx.epoch.toUInt32 <<< epochBits).toNat = tx.epoch.toNat * 2 ^ 24 := by
    rw [UInt32.toNat_shiftLeft, UInt8.toNat_toUInt32, show epochBits.toNat % 32 = 24 from rfl,
      Nat.shiftLeft_eq, Nat.mod_eq_of_lt (by omega)]
  have hseq : (UInt32.ofNat tx.seq).toNat = tx.seq := by
    rw [UInt32.toNat_ofNat', Nat.mod_eq_of_lt (by omega)]
  rw [seqField, UInt32.toNat_or, hshift, hseq, hor]

theorem epoch_seqField (tx : SidTx) (h : tx.seq < 2 ^ 24) :
    (seqField tx >>> epochBits).toUInt8 = tx.epoch := by
  have he : tx.epoch.toNat < 256 := tx.epoch.toNat_lt
  apply UInt8.toNat_inj.mp
  rw [UInt32.toNat_toUInt8, UInt32.toNat_shiftRight, toNat_seqField tx h,
    show epochBits.toNat % 32 = 24 from rfl, Nat.shiftRight_eq_div_pow]
  omega

theorem sseq_seqField (tx : SidTx) (h : tx.seq < 2 ^ 24) :
    (seqField tx &&& seqMask).toNat = tx.seq := by
  rw [UInt32.toNat_and, toNat_seqField tx h, toNat_seqMask,
    Nat.and_two_pow_sub_one_eq_mod]
  omega

/-- A frame starts a generation, for one of three reasons, or goes on with the one its session is
in. -/
theorem generation_cases (enc : MuxEncoder) (ftype : FrameType) (sid : UInt16) :
    ((generation enc ftype sid).1 = ⟨(allocEpoch enc).1, 0⟩ ∧
        ((sidTx enc sid).epoch = 0 ∨ ftype = .open ∨ seqMask.toNat ≤ (sidTx enc sid).seq)) ∨
      ((generation enc ftype sid).1 = sidTx enc sid ∧ (sidTx enc sid).epoch ≠ 0 ∧ ftype ≠ .open ∧
        (sidTx enc sid).seq < seqMask.toNat) := by
  rw [generation]
  split
  next h =>
    rcases h with h | h
    · exact Or.inl ⟨rfl, Or.inl h⟩
    · exact Or.inl ⟨rfl, Or.inr (Or.inl h)⟩
  next h =>
    obtain ⟨he, ho⟩ := not_or.mp h
    split
    next hfull => exact Or.inl ⟨rfl, Or.inr (Or.inr hfull)⟩
    next hroom => exact Or.inr ⟨rfl, he, ho, Nat.not_le.mp hroom⟩

theorem generation_seq_lt (enc : MuxEncoder) (ftype : FrameType) (sid : UInt16) :
    (generation enc ftype sid).1.seq < seqMask.toNat := by
  rcases generation_cases enc ftype sid with ⟨hgen, -⟩ | ⟨hgen, -, -, hroom⟩
  · rw [hgen]
    exact Nat.zero_lt_succ _
  · rw [hgen]
    exact hroom

theorem allocEpoch_ne_zero (enc : MuxEncoder) : (allocEpoch enc).1 ≠ 0 := by
  intro h
  have hn := congrArg UInt8.toNat h
  have hc : enc.epochCtr.toNat % 255 < 255 := Nat.mod_lt _ (by omega)
  simp only [allocEpoch, UInt8.toNat_add, UInt8.toNat_mod, UInt8.reduceToNat] at hn
  omega

theorem generation_epoch_ne_zero (enc : MuxEncoder) (ftype : FrameType) (sid : UInt16) :
    (generation enc ftype sid).1.epoch ≠ 0 := by
  rcases generation_cases enc ftype sid with ⟨hgen, -⟩ | ⟨hgen, he, -, -⟩
  · rw [hgen]
    exact allocEpoch_ne_zero enc
  · rw [hgen]
    exact he

def numbered (enc : MuxEncoder) (tx : SidTx) (c : Call α) : Frame α :=
  ⟨c.ftype, c.sessionId, seqField tx, headerFlags enc c.flags, c.payload⟩

theorem epoch_numbered (enc : MuxEncoder) (tx : SidTx) (c : Call α) (h : tx.seq < 2 ^ 24) :
    (numbered enc tx c).epoch = tx.epoch := epoch_seqField tx h

theorem sseq_numbered (enc : MuxEncoder) (tx : SidTx) (c : Call α) (h : tx.seq < 2 ^ 24) :
    (numbered enc tx c).sseq = tx.seq := sseq_seqField tx h

theorem stamp_of_session (enc : MuxEncoder) (c : Call α) (h : usesSessionOrder c.ftype = true) :
    (stamp enc c).1 = numbered enc (generation enc c.ftype c.sessionId).1 c := by
  simp [stamp, nextSeqField, numbered, h]

theorem ofSession_stamp (enc : MuxEncoder) (sid : UInt16) (c : Call α) :
    ofSession sid (stamp enc c).1 = c.ofSession sid := rfl

theorem generation_keeps (enc : MuxEncoder) (ftype : FrameType) (sid : UInt16) :
    (generation enc ftype sid).2.sessionTx = enc.sessionTx ∧
      headerFlags (generation enc ftype sid).2 = headerFlags enc := by
  unfold generation
  split
  · exact ⟨rfl, rfl⟩
  split <;> exact ⟨rfl, rfl⟩

theorem sidTx_stamp (enc : MuxEncoder) (sid : UInt16) (c : Call α) :
    sidTx (stamp enc c).2 sid = if c.ofSession sid then
      ⟨(generation enc c.ftype sid).1.epoch, (generation enc c.ftype sid).1.seq + 1⟩
    else sidTx enc sid := by
  obtain ⟨hgen, _⟩ := generation_keeps enc c.ftype c.sessionId
  cases hu : usesSessionOrder c.ftype with
  | false => simp [stamp, nextSeqField, hu, sidTx, Call.ofSession]
  | true =>
      simp only [stamp, nextSeqField, hu, Bool.true_eq_false, if_false, sidTx, find_insert, hgen,
        Call.ofSession, Bool.true_and]
      by_cases hs : sid = c.sessionId
      · simp [hs]
      · simp [hs, Ne.symm hs]

theorem headerFlags_stamp (enc : MuxEncoder) (c : Call α) :
    headerFlags (stamp enc c).2 = headerFlags enc := by
  obtain ⟨_, hflags⟩ := generation_keeps enc c.ftype c.sessionId
  simp only [stamp, nextSeqField]
  split
  · rfl
  · exact hflags

theorem headerFlags_stampAll (cs : List (Call α)) (enc : MuxEncoder) :
    headerFlags (stampAll enc cs).2 = headerFlags enc :=
  Transducer.run_invariant (fun e => headerFlags e = headerFlags enc) cs
    (fun e c _ h => (headerFlags_stamp e c).trans h) enc rfl

theorem headerFlags_new (reliable : Bool) (flags : UInt8) :
    headerFlags (MuxEncoder.new reliable) flags &&& flagDirAccept = flags &&& flagDirAccept := by
  cases reliable with
  | false => rfl
  | true =>
      apply UInt8.toNat_inj.mp
      rw [headerFlags, MuxEncoder.new, if_neg (by simp), if_pos rfl, UInt8.toNat_and,
        UInt8.toNat_or, Nat.and_or_distrib_right, UInt8.toNat_and]
      exact Nat.or_zero _

theorem dirAcceptor_numbered (reliable : Bool) (hist : List (Call α)) (tx : SidTx) (c : Call α)
    (hc : c.flags &&& flagDirAccept = 0) :
    (numbered (stampAll (MuxEncoder.new reliable) hist).2 tx c).dirAcceptor = false := by
  simp [Frame.dirAcceptor, numbered, headerFlags_stampAll, headerFlags_new, hc]

theorem numbered_stamp (enc : MuxEncoder) (c : Call α) :
    numbered (α := α) (stamp enc c).2 = numbered enc := by
  funext tx c'
  rw [numbered, headerFlags_stamp, numbered]

theorem generation_continues {enc : MuxEncoder} (ftype : FrameType) {sid : UInt16}
    (he : (sidTx enc sid).epoch ≠ 0) (ho : ftype ≠ .open)
    (hs : (sidTx enc sid).seq < seqMask.toNat) :
    (generation enc ftype sid).1 = sidTx enc sid := by
  simp [generation, he, ho, Nat.not_le.mpr hs]

theorem stampAll_tail (enc : MuxEncoder) (c : Call α) (cs : List (Call α)) :
    (stampAll enc (c :: cs)).2 = (stampAll (stamp enc c).2 cs).2 := rfl

theorem sidTx_stampAll_of_none (cs : List (Call α)) (enc : MuxEncoder) (sid : UInt16)
    (h : cs.filter (Call.ofSession sid) = []) : sidTx (stampAll enc cs).2 sid = sidTx enc sid := by
  induction cs generalizing enc with
  | nil => rfl
  | cons c cs ih =>
      obtain ⟨hc, hcs⟩ := List.filter_eq_nil_iff.mp h |> List.forall_mem_cons.mp
      rw [stampAll_tail, ih _ (List.filter_eq_nil_iff.mpr hcs), sidTx_stamp, if_neg hc]

theorem generation_seq_le (enc : MuxEncoder) (ftype : FrameType) (sid : UInt16) :
    (generation enc ftype sid).1.seq ≤ (sidTx enc sid).seq := by
  rcases generation_cases enc ftype sid with ⟨hgen, -⟩ | ⟨hgen, -⟩
  · rw [hgen]
    exact Nat.zero_le _
  · exact Nat.le_of_eq (congrArg SidTx.seq hgen)

theorem sidTx_stampAll (cs : List (Call α)) (enc : MuxEncoder) (sid : UInt16) :
    (sidTx (stampAll enc cs).2 sid).seq ≤
      (sidTx enc sid).seq + (cs.filter (Call.ofSession sid)).length ∧
      (((sidTx enc sid).epoch ≠ 0 ∧ 0 < (sidTx enc sid).seq) ∨ cs.filter (Call.ofSession sid) ≠ [] →
        (sidTx (stampAll enc cs).2 sid).epoch ≠ 0 ∧ 0 < (sidTx (stampAll enc cs).2 sid).seq) := by
  induction cs generalizing enc with
  | nil => exact ⟨Nat.le_refl _, fun h => h.resolve_right (by simp)⟩
  | cons c cs ih =>
      obtain ⟨hle, hpos⟩ := ih (stamp enc c).2
      have htx := sidTx_stamp enc sid c
      have hgen := generation_seq_le enc c.ftype sid
      rw [stampAll_tail, List.filter_cons]
      by_cases hc : c.ofSession sid = true
      · rw [if_pos hc] at htx ⊢
        rw [htx] at hle hpos
        simp only [List.length_cons] at hle ⊢
        exact ⟨by omega, fun _ => hpos (Or.inl ⟨generation_epoch_ne_zero enc c.ftype sid, by simp⟩)⟩
      · rw [if_neg hc] at htx ⊢
        rw [htx] at hle hpos
        exact ⟨hle, hpos⟩

theorem mem_stampAll (cs : List (Call α)) (enc : MuxEncoder) {f : Frame α}
    (h : f ∈ (stampAll enc cs).1) :
    ∃ enc', ∃ c ∈ cs, f = (stamp enc' c).1 ∧ headerFlags enc' = headerFlags enc := by
  induction cs generalizing enc with
  | nil => simp [stampAll] at h
  | cons c cs ih =>
      rw [stampAll_cons] at h
      rcases List.mem_cons.mp h with rfl | h
      · exact ⟨enc, c, by simp, rfl, rfl⟩
      · obtain ⟨enc', c', hc', hf, hflags⟩ := ih (stamp enc c).2 h
        exact ⟨enc', c', List.mem_cons_of_mem _ hc', hf, hflags.trans (headerFlags_stamp enc c)⟩

theorem head_stampAll (cs : List (Call α)) (enc : MuxEncoder) (sid : UInt16) {g : Frame α}
    (h : ((stampAll enc cs).1.filter (ofSession sid)).head? = some g) :
    ∃ enc' c, g = (stamp enc' c).1 ∧ c.ofSession sid = true ∧ sidTx enc' sid = sidTx enc sid := by
  induction cs generalizing enc with
  | nil => simp [stampAll] at h
  | cons c cs ih =>
      rw [stampAll_cons, List.filter_cons, ofSession_stamp] at h
      by_cases hc : c.ofSession sid = true
      · rw [if_pos hc] at h
        exact ⟨enc, c, by simpa using h.symm, hc, rfl⟩
      · rw [if_neg hc] at h
        obtain ⟨enc', c', hg, hc', htx⟩ := ih (stamp enc c).2 h
        exact ⟨enc', c', hg, hc', htx.trans (by rw [sidTx_stamp, if_neg hc])⟩

theorem sseq_stamp (enc : MuxEncoder) (c : Call α) (hu : usesSessionOrder c.ftype = true) :
    (stamp enc c).1.sseq = (generation enc c.ftype c.sessionId).1.seq := by
  have hlt := generation_seq_lt enc c.ftype c.sessionId
  rw [toNat_seqMask] at hlt
  rw [stamp_of_session enc c hu, sseq_numbered enc _ c (by omega)]

theorem epoch_stamp (enc : MuxEncoder) (c : Call α) (hu : usesSessionOrder c.ftype = true) :
    (stamp enc c).1.epoch = (generation enc c.ftype c.sessionId).1.epoch := by
  have hlt := generation_seq_lt enc c.ftype c.sessionId
  rw [toNat_seqMask] at hlt
  rw [stamp_of_session enc c hu, epoch_numbered enc _ c (by omega)]

theorem open_of_sseq_zero (cs : List (Call α)) (enc : MuxEncoder) (sid : UInt16)
    (he : (sidTx enc sid).epoch ≠ 0) (hpos : 0 < (sidTx enc sid).seq)
    (hlen : (sidTx enc sid).seq + (cs.filter (Call.ofSession sid)).length ≤ seqMask.toNat) :
    ∀ f ∈ (stampAll enc cs).1.filter (ofSession sid), f.sseq = 0 → f.ftype = .open := by
  induction cs generalizing enc with
  | nil => simp [stampAll]
  | cons c cs ih =>
      have htx := sidTx_stamp enc sid c
      rw [stampAll_cons, List.filter_cons, ofSession_stamp]
      by_cases hc : c.ofSession sid = true
      · obtain ⟨hu, rfl⟩ := Call.ofSession_iff.mp hc
        have hseq := sseq_stamp enc c hu
        rw [if_pos hc] at htx ⊢
        rw [List.filter_cons_of_pos hc, List.length_cons] at hlen
        have hle := generation_seq_le enc c.ftype c.sessionId
        have hne := generation_epoch_ne_zero enc c.ftype c.sessionId
        refine List.forall_mem_cons.mpr ⟨fun hz => ?_, ih _ ?_ ?_ ?_⟩
        · by_contra ho
          rw [hseq, generation_continues c.ftype he ho (by omega)] at hz
          omega
        · rw [htx]; exact hne
        · rw [htx]; exact Nat.succ_pos _
        · rw [htx]; simp only; omega
      · rw [if_neg hc] at htx ⊢
        rw [List.filter_cons_of_neg hc] at hlen
        exact ih _ (htx ▸ he) (htx ▸ hpos) (htx ▸ hlen)

theorem open_of_sseq_zero_first (cs : List (Call α)) (enc : MuxEncoder) (sid : UInt16)
    (hlen : (cs.filter (Call.ofSession sid)).length ≤ seqMask.toNat)
    (hfirst : ∀ g, ((stampAll enc cs).1.filter (ofSession sid)).head? = some g → g.ftype = .open) :
    ∀ f ∈ (stampAll enc cs).1.filter (ofSession sid), f.sseq = 0 → f.ftype = .open := by
  induction cs generalizing enc with
  | nil => simp [stampAll]
  | cons c cs ih =>
      have htx := sidTx_stamp enc sid c
      rw [stampAll_cons, List.filter_cons, ofSession_stamp] at hfirst ⊢
      by_cases hc : c.ofSession sid = true
      · rw [if_pos hc] at htx hfirst ⊢
        rw [List.filter_cons_of_pos hc, List.length_cons] at hlen
        have ho : c.ftype = .open := hfirst _ rfl
        have hzero : (generation enc c.ftype sid).1.seq = 0 := by simp [generation, ho]
        rw [hzero] at htx
        refine List.forall_mem_cons.mpr ⟨fun _ => ho, open_of_sseq_zero cs _ sid ?_ ?_ ?_⟩
        · rw [htx]; exact generation_epoch_ne_zero enc c.ftype sid
        · rw [htx]; exact Nat.succ_pos _
        · rw [htx]; simp only; omega
      · rw [if_neg hc] at hfirst ⊢
        rw [List.filter_cons_of_neg hc] at hlen
        exact ih _ hlen hfirst

/-- Up to the end of the sequence space the frames of a session that is not reopened are numbered on
from where it stands, whatever other calls come between. -/
theorem stampAll_continues (cs : List (Call α)) (enc : MuxEncoder) (sid : UInt16) (n : Nat)
    (he : (sidTx enc sid).epoch ≠ 0) (hopen : ∀ c ∈ cs.filter (Call.ofSession sid), c.ftype ≠ .open)
    (hn : (sidTx enc sid).seq + n ≤ seqMask.toNat) :
    ((stampAll enc cs).1.filter (ofSession sid)).take n =
      ((cs.filter (Call.ofSession sid)).take n).mapIdx
        fun i c => numbered enc ⟨(sidTx enc sid).epoch, (sidTx enc sid).seq + i⟩ c := by
  induction cs generalizing enc n with
  | nil => simp [stampAll]
  | cons c cs ih =>
      have htx := sidTx_stamp enc sid c
      have hnum := numbered_stamp enc c
      rw [stampAll_cons, List.filter_cons, ofSession_stamp]
      cases hc : c.ofSession sid with
      | false =>
          rw [hc, if_neg (by simp)] at htx
          simp only [List.filter_cons, hc, Bool.false_eq_true, if_false] at hopen ⊢
          rw [ih _ n (htx ▸ he) hopen (htx ▸ hn), htx, hnum]
      | true =>
          obtain ⟨hu, hsid⟩ := Call.ofSession_iff.mp hc
          simp only [List.filter_cons, hc, if_true] at hopen ⊢
          cases n with
          | zero => simp
          | succ n =>
              have hgen := generation_continues c.ftype he (hopen c (by simp)) (by omega)
              rw [hc, if_pos rfl, hgen] at htx
              rw [List.take_succ_cons, List.take_succ_cons,
                ih _ n (by rw [htx]; exact he) (fun c' hc' => hopen c' (List.mem_cons_of_mem _ hc'))
                  (by rw [htx]; simp only; omega), htx, hnum, stamp_of_session enc c hu, hsid, hgen,
                List.mapIdx_cons]
              simp only [Nat.add_zero, Nat.add_assoc, Nat.add_comm 1]

theorem length_stampAll (cs : List (Call α)) (enc : MuxEncoder) (sid : UInt16) :
    ((stampAll enc cs).1.filter (ofSession sid)).length =
      (cs.filter (Call.ofSession sid)).length := by
  induction cs generalizing enc with
  | nil => rfl
  | cons c cs ih =>
      rw [stampAll_cons, List.filter_cons, List.filter_cons, ofSession_stamp]
      cases c.ofSession sid <;> simp [ih]

/-- An Open, or the first frame of a session without one, starts a generation with sequence number 0
under a fresh epoch; its session's frames are numbered consecutively from there. -/
theorem stampAll_starts (cs : List (Call α)) (enc : MuxEncoder) (sid : UInt16) (o : Call α)
    (tail : List (Call α)) (hcs : cs.filter (Call.ofSession sid) = o :: tail)
    (ho : (sidTx enc sid).epoch = 0 ∨ o.ftype = .open)
    (hopen : ∀ c ∈ tail, c.ftype ≠ .open) (hlen : tail.length < seqMask.toNat) :
    ∃ epoch, epoch ≠ 0 ∧ (stampAll enc cs).1.filter (ofSession sid) =
      (o :: tail).mapIdx fun i c => numbered enc ⟨epoch, i⟩ c := by
  induction cs generalizing enc with
  | nil => simp at hcs
  | cons c cs ih =>
      have htx := sidTx_stamp enc sid c
      have hnum := numbered_stamp enc c
      rw [stampAll_cons, List.filter_cons, ofSession_stamp]
      cases hc : c.ofSession sid with
      | false =>
          simp only [List.filter_cons, hc, Bool.false_eq_true, if_false] at hcs ⊢
          rw [hc, if_neg (by simp)] at htx
          obtain ⟨epoch, hne, hall⟩ := ih (stamp enc c).2 hcs (htx ▸ ho)
          exact ⟨epoch, hne, by rw [hall, hnum]⟩
      | true =>
          obtain ⟨hu, hsid⟩ := Call.ofSession_iff.mp hc
          simp only [List.filter_cons, hc, if_true] at hcs ⊢
          obtain ⟨rfl, rfl⟩ := List.cons.inj hcs
          have hzero : (generation enc c.ftype sid).1.seq = 0 := by simp [generation, ho]
          have hfirst : (generation enc c.ftype sid).1 =
              ⟨(generation enc c.ftype sid).1.epoch, 0⟩ := by
            rw [← hzero]
          have hne := generation_epoch_ne_zero enc c.ftype sid
          rw [hc, if_pos rfl, hzero] at htx
          refine ⟨(generation enc c.ftype sid).1.epoch, hne, ?_⟩
          have hall :=
            stampAll_continues cs (stamp enc c).2 sid (cs.filter (Call.ofSession sid)).length
            (by rw [htx]; exact hne) hopen (by rw [htx]; simp only; omega)
          rw [List.take_of_length_le (Nat.le_of_eq (length_stampAll cs _ sid)),
            List.take_length, htx, hnum] at hall
          rw [hall, stamp_of_session enc c hu, hsid, List.mapIdx_cons, hfirst]
          simp only [Nat.zero_add, Nat.add_comm 1]

end SrtVpn.SeqNumbers
