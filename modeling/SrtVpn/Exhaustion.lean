import SrtVpn.Conservation
import SrtVpn.EarlyFrames
import SrtVpn.EpochReuse

namespace SrtVpn.Exhaustion

open BigEndian Tables Wire Encoder SeqNumbers Session Decoder Slots SessionView Delivery EarlyFrames
  Generations Transparency EpochReuse Conservation

variable {α : Type}

/-- The slot of a session whose frames have all been received in order. -/
def mirror (tx : SidTx) : Slot α := ⟨upToDate tx, []⟩

section Steps

variable {enc : MuxEncoder} {c : Call α} {sid : UInt16} {s : Slot α}

theorem mirror_of_epoch_ne {tx : SidTx} (h : tx.epoch ≠ 0) :
    (mirror tx : Slot α) = ⟨some ⟨tx.epoch, tx.seq, ∅⟩, []⟩ := by
  rw [mirror, upToDate_of_epoch_ne h]

theorem stamped (enc : MuxEncoder) (hc : c.ofSession sid = true) :
    usesSessionOrder (stamp enc c).1.ftype = true ∧ (stamp enc c).1.epoch ≠ 0 ∧
      (stamp enc c).1.epoch = (generation enc c.ftype sid).1.epoch ∧
      (stamp enc c).1.sseq = (generation enc c.ftype sid).1.seq := by
  obtain ⟨hu, rfl⟩ := Call.ofSession_iff.mp hc
  rw [epoch_stamp enc c hu, sseq_stamp enc c hu]
  exact ⟨hu, generation_epoch_ne_zero enc c.ftype c.sessionId, rfl, rfl⟩

theorem baseline_stamp (hc : c.ofSession sid = true) :
    (⟨some (baseline (stamp enc c).1), []⟩ : Slot α) = mirror (sidTx (stamp enc c).2 sid) := by
  obtain ⟨-, hne, hepoch, hseq⟩ := stamped enc hc
  rw [sidTx_stamp, if_pos hc, mirror_of_epoch_ne (hepoch ▸ hne), baseline, hepoch, hseq]

theorem feed_open_mirror (hc : c.ofSession sid = true) (ho : c.ftype = .open)
    (hw : s.waiting = []) :
    s.feed (stamp enc c).1 = ([(stamp enc c).1], mirror (sidTx (stamp enc c).2 sid)) := by
  obtain ⟨-, hne, -, -⟩ := stamped enc hc
  have htype : (stamp enc c).1.ftype = .open := ho
  rw [← baseline_stamp hc]
  simp [Slot.feed, hne, htype, hw, usesSessionOrder, mergeWaiting, flushReady_baseline]

theorem feed_first_mirror (hc : c.ofSession sid = true) (ho : c.ftype ≠ .open)
    (hd : (stamp enc c).1.dirAcceptor = true) (hs : s = Slot.empty) :
    s.feed (stamp enc c).1 = ([(stamp enc c).1], mirror (sidTx (stamp enc c).2 sid)) := by
  obtain ⟨hu, hne, -, -⟩ := stamped enc hc
  have htype : (stamp enc c).1.ftype ≠ .open := ho
  rw [feed_unopened hu hne htype (by rw [hs]; rfl), if_pos hd, ← baseline_stamp hc, hs]
  rfl

theorem feed_next_mirror (hc : c.ofSession sid = true) (ho : c.ftype ≠ .open)
    (he : (sidTx enc sid).epoch ≠ 0) (hseq : (sidTx enc sid).seq < seqMask.toNat) :
    (mirror (sidTx enc sid)).feed (stamp enc c).1 =
      ([(stamp enc c).1], mirror (sidTx (stamp enc c).2 sid)) := by
  obtain ⟨hu, hne, hepoch, hsseq⟩ := stamped enc hc
  have htype : (stamp enc c).1.ftype ≠ .open := ho
  have hgen := generation_continues c.ftype he ho hseq
  rw [hgen] at hepoch hsseq
  have htx : sidTx (stamp enc c).2 sid = ⟨(sidTx enc sid).epoch, (sidTx enc sid).seq + 1⟩ := by
    rw [sidTx_stamp, if_pos hc, hgen]
  rw [htx, mirror_of_epoch_ne he, mirror_of_epoch_ne (by exact he),
    feed_same hu hne htype rfl hepoch.symm, if_neg (Nat.not_lt.mpr (Nat.le_of_eq hsseq.symm)),
      if_pos hsseq]
  rfl

theorem feed_switch_mirror (hc : c.ofSession sid = true) (ho : c.ftype ≠ .open)
    (he : (sidTx enc sid).epoch ≠ 0) (hseq : seqMask.toNat ≤ (sidTx enc sid).seq) :
    (mirror (sidTx enc sid)).feed (stamp enc c).1 =
      if (allocEpoch enc).1 ≠ (sidTx enc sid).epoch ∧
      newerEpoch (allocEpoch enc).1 (sidTx enc sid).epoch = true then
        ([(stamp enc c).1], mirror (sidTx (stamp enc c).2 sid))
      else ([], mirror (sidTx enc sid)) := by
  obtain ⟨hu, hne, hepoch, hsseq⟩ := stamped enc hc
  have htype : (stamp enc c).1.ftype ≠ .open := ho
  have hgen : (generation enc c.ftype sid).1 = ⟨(allocEpoch enc).1, 0⟩ := by
    simp [generation, he, ho, hseq]
  rw [hgen] at hepoch hsseq
  have hlt : (stamp enc c).1.sseq < (sidTx enc sid).seq := by
    have hmask : 0 < seqMask.toNat := by decide
    rw [hsseq]
    exact Nat.lt_of_lt_of_le hmask hseq
  rw [← baseline_stamp hc, mirror_of_epoch_ne he]
  by_cases heq : (sidTx enc sid).epoch = (allocEpoch enc).1
  · rw [if_neg (fun h => h.1 heq.symm), feed_same hu hne htype rfl (heq.trans hepoch.symm),
      if_pos hlt]
  · rw [feed_differing hu hne htype rfl (fun h => heq (h.trans hepoch)), hepoch]
    by_cases hnew : newerEpoch (allocEpoch enc).1 (sidTx enc sid).epoch = true
    · rw [if_pos hnew, if_pos ⟨Ne.symm heq, hnew⟩]
    · rw [if_neg hnew, if_neg (fun h => hnew h.2)]

end Steps

/-- The epoch of generation number `n` counts as newer than that of generation number `m`. -/
def Newer (m n : Nat) : Prop := 1 ≤ epochDistance m n ∧ epochDistance m n ≤ 127

theorem newer_iff {e₁ e₂ : UInt8} {m n : Nat} (h₁ : e₁.toNat = epochAfter m)
    (h₂ : e₂.toNat = epochAfter n) : (e₂ ≠ e₁ ∧ newerEpoch e₂ e₁ = true) ↔ Newer m n := by
  have hlt₁ := e₁.toNat_lt
  have hlt₂ := e₂.toNat_lt
  have hne : e₂ ≠ e₁ ↔ e₂.toNat ≠ e₁.toNat := not_congr UInt8.toNat_inj.symm
  rw [hne, newerEpoch, Newer, epochDistance, ← h₁, ← h₂, decide_eq_true_eq, UInt8.lt_iff_toNat_lt,
    UInt8.toNat_sub]
  simp only [UInt8.reduceToNat]
  omega

section Generations

variable {enc : MuxEncoder} {calls past between past' between' : List (Call α)}
  {f f' c : Call α} {sid : UInt16}

/-- The generation that a session is in after some calls: the call that started it, and what came
before and behind. -/
structure Current (enc : MuxEncoder) (sid : UInt16) (calls past : List (Call α)) (f : Call α)
    (between : List (Call α)) : Prop where
  whole : past ++ f :: between = calls
  same : f.sessionId = sid
  starts : allocates (stampAll enc past).2 f = true
  none : ∀ mid c, mid ++ [c] <+: between → c.sessionId = sid →
    allocates (stampAll enc (past ++ f :: mid)).2 c = false

theorem Current.length_le (h : Current enc sid calls past f between)
    (h' : Current enc sid calls past' f' between') : past'.length ≤ past.length := by
  by_contra hlt
  have heq : past ++ f :: between = past' ++ f' :: between' := h.whole.trans h'.whole.symm
  -- then the later start lies behind the earlier one
  rcases List.append_eq_append_iff.mp heq with ⟨as, hpast, hrest⟩ | ⟨as, hpast, -⟩
  · cases as with
    | nil => simp [hpast] at hlt
    | cons a as =>
        obtain ⟨rfl, hbetween⟩ := List.cons.inj hrest
        have hpre : as ++ [f'] <+: between := ⟨between', by simp [hbetween]⟩
        have hnone := h.none as f' hpre h'.same
        rw [← hpast, h'.starts] at hnone
        cases hnone
  · rw [hpast, List.length_append] at hlt
    omega

theorem Current.unique (h : Current enc sid calls past f between)
    (h' : Current enc sid calls past' f' between') :
    past' = past ∧ f' = f ∧ between' = between := by
  have hlen : past'.length = past.length := Nat.le_antisymm (h.length_le h') (h'.length_le h)
  have heq : past' ++ f' :: between' = past ++ f :: between := h'.whole.trans h.whole.symm
  obtain ⟨hpast, hrest⟩ := List.append_inj heq hlen
  exact ⟨hpast, List.cons.inj hrest⟩

theorem Current.snoc (h : Current enc sid calls past f between)
    (hc : c.sessionId = sid → allocates (stampAll enc calls).2 c = false) :
    Current enc sid (calls ++ [c]) past f (between ++ [c]) := by
  refine ⟨by rw [← h.whole]; simp, h.same, h.starts, fun mid c' hpre hsid => ?_⟩
  rcases Runs.concat_prefix_concat.mp hpre with ⟨rfl, rfl⟩ | hpre
  · rw [h.whole]
    exact hc hsid
  · exact h.none mid c' hpre hsid

theorem current_of_starts (hsid : c.sessionId = sid)
    (hc : allocates (stampAll enc calls).2 c = true) : Current enc sid (calls ++ [c]) calls c [] :=
  ⟨rfl, hsid, hc, fun mid c' hpre => by simp at hpre⟩

theorem Current.successive (h : Current enc sid calls past f between) (hsid : c.sessionId = sid)
    (hc : allocates (stampAll enc calls).2 c = true) : Successive enc past f between c :=
  ⟨hsid.trans h.same.symm, h.starts, h.whole ▸ hc,
    fun mid c' hpre hs => h.none mid c' hpre (hs.trans h.same)⟩

theorem current_of_successive (h : Successive enc past f between c) :
    Current enc f.sessionId (past ++ f :: between) past f between :=
  ⟨rfl, rfl, h.starts, h.none⟩

/-- Every switch of the session, from the given call on, goes to an epoch that counts as newer. -/
def AllNewer (enc : MuxEncoder) (sid : UInt16) (start : Nat) (calls : List (Call α)) : Prop :=
  ∀ past f between second, past ++ f :: (between ++ [second]) <+: calls → start ≤ past.length →
    f.sessionId = sid → Successive enc past f between second →
    Newer (allocations enc past) (allocations enc (past ++ f :: between))

theorem prefix_snoc_cases {past between calls : List (Call α)} {f second c : Call α}
    (h : past ++ f :: (between ++ [second]) <+: calls ++ [c]) :
    (past ++ f :: between = calls ∧ second = c) ∨ past ++ f :: (between ++ [second]) <+: calls := by
  have hassoc : past ++ f :: (between ++ [second]) = (past ++ f :: between) ++ [second] := by simp
  rw [hassoc] at h ⊢
  exact Runs.concat_prefix_concat.mp h

theorem AllNewer.of_snoc {start : Nat} (h : AllNewer enc sid start (calls ++ [c])) :
    AllNewer enc sid start calls :=
  fun past f between second hpre =>
    h past f between second (hpre.trans (List.prefix_append calls [c]))

theorem AllNewer.snoc {start : Nat} (h : AllNewer enc sid start calls)
    (hcur : Current enc sid calls past f between)
    (hc : c.sessionId = sid → allocates (stampAll enc calls).2 c = true →
      Newer (allocations enc past) (allocations enc calls)) :
    AllNewer enc sid start (calls ++ [c]) := by
  intro past' f' between' second hpre hstart hsid hsucc
  rcases prefix_snoc_cases hpre with ⟨hwhole, rfl⟩ | hpre
  · have hcur' := current_of_successive hsucc
    rw [hwhole, hsid] at hcur'
    obtain ⟨rfl, -, -⟩ := hcur.unique hcur'
    have hnext := hsucc.next
    rw [hwhole] at hnext ⊢
    exact hc (hsucc.same.trans hsid) hnext
  · exact h past' f' between' second hpre hstart hsid hsucc

end Generations

section Run

/-- A session as its encoder sends it: it begins with its Open or, in the return direction, with the
first frame under its identifier, and goes on without an Open. What was sent under the identifier
before had an Open too. -/
structure SessionRun (acceptor : Bool) (before : List (Call α)) (first : Call α)
    (during : List (Call α)) : Prop where
  session : usesSessionOrder first.ftype = true
  starts : first.ftype = .open ∨
    (acceptor = true ∧ ∀ c ∈ before, c.ofSession first.sessionId = false)
  opened : acceptor = false → ∀ c ∈ before, c.ofSession first.sessionId = true →
    ∃ o ∈ before, o.ftype = .open ∧ o.sessionId = first.sessionId
  stays : ∀ c ∈ during, c.ofSession first.sessionId = true → c.ftype ≠ .open
  flags : ∀ c ∈ before ++ first :: during, c.flags &&& flagDirAccept = 0

def sent (enc : MuxEncoder) (sid : UInt16) (calls : List (Call α)) : List (Frame α) :=
  (stampAll enc calls).1.filter (ofSession sid)

theorem sent_snoc (enc : MuxEncoder) (sid : UInt16) (calls : List (Call α)) (c : Call α) :
    sent enc sid (calls ++ [c]) =
      sent enc sid calls ++
        if c.ofSession sid then [(stamp (stampAll enc calls).2 c).1] else [] := by
  rw [sent, stampAll_snoc, List.filter_append, List.filter_singleton, ofSession_stamp, sent]
  cases c.ofSession sid <;> rfl

theorem calls_snoc (before mid : List (Call α)) (first c : Call α) :
    before ++ first :: (mid ++ [c]) = (before ++ first :: mid) ++ [c] := by simp

theorem encoder_snoc (enc : MuxEncoder) (before mid : List (Call α)) (first c : Call α) :
    (stampAll enc (before ++ first :: (mid ++ [c]))).2 =
      (stamp (stampAll enc (before ++ first :: mid)).2 c).2 := by
  rw [calls_snoc, stampAll_snoc]

theorem stampAll_append (enc : MuxEncoder) (a b : List (Call α)) :
    (stampAll enc (a ++ b)).2 = (stampAll (stampAll enc a).2 b).2 := by
  simp [stampAll, Transducer.run_append]

variable (acceptor reliable : Bool) (before : List (Call α)) (first : Call α) (s : Slot α)

/-- The slot of the session, fed with what is sent after `before`. -/
def received (mid : List (Call α)) : List (List (Frame α)) × Slot α :=
  Transducer.run Slot.feed s
    (sent (stampAll (newEncoder acceptor reliable) before).2 first.sessionId (first :: mid))

/-- All of the session has been received, and all of its switches were to newer epochs. -/
structure Follows (mid : List (Call α)) : Prop where
  returned : (received acceptor reliable before first s mid).1.flatten =
    sent (stampAll (newEncoder acceptor reliable) before).2 first.sessionId (first :: mid)
  slot : (received acceptor reliable before first s mid).2 =
    mirror (sidTx (stampAll (newEncoder acceptor reliable) (before ++ first :: mid)).2
      first.sessionId)
  newer : AllNewer (newEncoder acceptor reliable) first.sessionId before.length
    (before ++ first :: mid)
  current : ∃ past f between,
    Current (newEncoder acceptor reliable) first.sessionId (before ++ first :: mid) past f between ∧
      before.length ≤ past.length ∧
      (sidTx (stampAll (newEncoder acceptor reliable) (before ++ first :: mid)).2
        first.sessionId).epoch.toNat =
        epochAfter (allocations (newEncoder acceptor reliable) past)

/-- A switch was not to a newer epoch, and a frame is missing for good. -/
structure Fallen (mid : List (Call α)) : Prop where
  newer : ¬ AllNewer (newEncoder acceptor reliable) first.sessionId before.length
    (before ++ first :: mid)
  missing : (received acceptor reliable before first s mid).1.flatten.length +
      (held (received acceptor reliable before first s mid).2).length <
    (sent (stampAll (newEncoder acceptor reliable) before).2 first.sessionId (first :: mid)).length

variable {acceptor reliable before first s} {mid during : List (Call α)} {c : Call α}

theorem received_snoc (hc : c.ofSession first.sessionId = true) :
    received acceptor reliable before first s (mid ++ [c]) =
      let g := (stamp (stampAll (newEncoder acceptor reliable) (before ++ first :: mid)).2 c).1
      let r := received acceptor reliable before first s mid
      (r.1 ++ [(r.2.feed g).1], (r.2.feed g).2) := by
  rw [received, ← List.cons_append, sent_snoc, if_pos hc, Transducer.run_append, ← stampAll_append]
  rfl

theorem sent_snoc_of_session (hc : c.ofSession first.sessionId = true) :
    sent (stampAll (newEncoder acceptor reliable) before).2 first.sessionId
      (first :: (mid ++ [c])) =
      sent (stampAll (newEncoder acceptor reliable) before).2 first.sessionId (first :: mid) ++
        [(stamp (stampAll (newEncoder acceptor reliable) (before ++ first :: mid)).2 c).1] := by
  rw [← List.cons_append, sent_snoc, if_pos hc, ← stampAll_append]

theorem sent_snoc_of_other (hc : c.ofSession first.sessionId = false) :
    sent (stampAll (newEncoder acceptor reliable) before).2 first.sessionId
      (first :: (mid ++ [c])) =
      sent (stampAll (newEncoder acceptor reliable) before).2 first.sessionId (first :: mid) := by
  rw [← List.cons_append, sent_snoc, hc]
  simp

theorem not_allocates_of_other {enc : MuxEncoder} {sid : UInt16} (hc : c.ofSession sid = false)
    (hsid : c.sessionId = sid) : allocates enc c = false := by
  have hu : usesSessionOrder c.ftype = false := by simpa [Call.ofSession, hsid] using hc
  rw [allocates, hu, Bool.false_and]

theorem Fallen.step (h : Fallen acceptor reliable before first s mid) :
    Fallen acceptor reliable before first s (mid ++ [c]) := by
  refine ⟨fun hall => h.newer (AllNewer.of_snoc (calls_snoc before mid first c ▸ hall)), ?_⟩
  have hmissing := h.missing
  cases hc : c.ofSession first.sessionId with
  | false =>
      rw [received, sent_snoc_of_other hc]
      exact hmissing
  | true =>
      rw [received_snoc hc, sent_snoc_of_session hc]
      simp only
      obtain ⟨lost, hperm, -, -⟩ := feed_conserves (received acceptor reliable before first s mid).2
        (stamp (stampAll (newEncoder acceptor reliable) (before ++ first :: mid)).2 c).1
      have hlen := hperm.length_eq
      simp only [List.length_cons, List.length_append] at hlen
      simp only [List.flatten_append, List.flatten_singleton, List.length_append,
        List.length_singleton]
      omega

theorem Follows.epoch_ne (h : Follows acceptor reliable before first s mid) :
    (sidTx (stampAll (newEncoder acceptor reliable) (before ++ first :: mid)).2
      first.sessionId).epoch ≠ 0 := by
  obtain ⟨past, f, between, -, -, hpast⟩ := h.current
  intro hzero
  rw [hzero, epochAfter] at hpast
  exact absurd hpast (by simp)

theorem Follows.stay (h : Follows acceptor reliable before first s mid)
    (hstep : c.ofSession first.sessionId = true →
      (received acceptor reliable before first s mid).2.feed
          (stamp (stampAll (newEncoder acceptor reliable) (before ++ first :: mid)).2 c).1 =
        ([(stamp (stampAll (newEncoder acceptor reliable) (before ++ first :: mid)).2 c).1],
          mirror (sidTx (stamp (stampAll (newEncoder acceptor reliable) (before ++ first :: mid)).2
            c).2 first.sessionId)))
    (hepoch : (sidTx (stamp (stampAll (newEncoder acceptor reliable) (before ++ first :: mid)).2
      c).2 first.sessionId).epoch =
      (sidTx (stampAll (newEncoder acceptor reliable) (before ++ first :: mid)).2
        first.sessionId).epoch)
    (hc : c.sessionId = first.sessionId →
      allocates (stampAll (newEncoder acceptor reliable) (before ++ first :: mid)).2 c = false) :
    Follows acceptor reliable before first s (mid ++ [c]) := by
  obtain ⟨past, f, between, hcur, hlen, hpast⟩ := h.current
  have hnewer : AllNewer (newEncoder acceptor reliable) first.sessionId before.length
      (before ++ first :: (mid ++ [c])) := by
    rw [calls_snoc]
    apply h.newer.snoc hcur
    intro hsid hstarts
    rw [hc hsid] at hstarts
    cases hstarts
  refine ⟨?_, ?_, hnewer, past, f, between ++ [c], calls_snoc before mid first c ▸ hcur.snoc hc,
    hlen, ?_⟩
  · cases hown : c.ofSession first.sessionId with
    | false =>
        rw [received, sent_snoc_of_other hown]
        exact h.returned
    | true =>
        rw [received_snoc hown, sent_snoc_of_session hown]
        simp only [List.flatten_append, List.flatten_singleton, hstep hown, h.returned]
  · rw [encoder_snoc]
    cases hown : c.ofSession first.sessionId with
    | false =>
        rw [received, sent_snoc_of_other hown, sidTx_stamp, hown]
        exact h.slot
    | true =>
        rw [received_snoc hown]
        simp only [hstep hown]
  · rw [encoder_snoc, hepoch]
    exact hpast

theorem Follows.switch (h : Follows acceptor reliable before first s mid)
    (hc : c.ofSession first.sessionId = true)
    (hstarts : allocates (stampAll (newEncoder acceptor reliable) (before ++ first :: mid)).2 c =
      true)
    (hnewer : AllNewer (newEncoder acceptor reliable) first.sessionId before.length
      (before ++ first :: (mid ++ [c])))
    (hfeed : (received acceptor reliable before first s mid).2.feed
        (stamp (stampAll (newEncoder acceptor reliable) (before ++ first :: mid)).2 c).1 =
      ([(stamp (stampAll (newEncoder acceptor reliable) (before ++ first :: mid)).2 c).1],
        mirror (sidTx (stamp (stampAll (newEncoder acceptor reliable) (before ++ first :: mid)).2
          c).2 first.sessionId))) :
    Follows acceptor reliable before first s (mid ++ [c]) := by
  obtain ⟨-, hsid⟩ := Call.ofSession_iff.mp hc
  refine ⟨?_, ?_, hnewer, before ++ first :: mid, c, [], ?_, ?_, ?_⟩
  · rw [received_snoc hc, sent_snoc_of_session hc]
    simp only [List.flatten_append, List.flatten_singleton, hfeed, h.returned]
  · rw [encoder_snoc, received_snoc hc]
    simp only [hfeed]
  · rw [calls_snoc]
    exact current_of_starts hsid hstarts
  · rw [List.length_append]
    exact Nat.le_add_right _ _
  · rw [encoder_snoc, sidTx_stamp, if_pos hc, ← hsid, generation_of_allocates hstarts]
    exact toNat_allocEpoch (epochCtr_newEncoder acceptor reliable) (before ++ first :: mid)

theorem Follows.fall (h : Follows acceptor reliable before first s mid)
    (hc : c.ofSession first.sessionId = true)
    (hnewer : ¬ AllNewer (newEncoder acceptor reliable) first.sessionId before.length
      (before ++ first :: (mid ++ [c])))
    (hfeed : (received acceptor reliable before first s mid).2.feed
        (stamp (stampAll (newEncoder acceptor reliable) (before ++ first :: mid)).2 c).1 =
      ([], (received acceptor reliable before first s mid).2)) :
    Fallen acceptor reliable before first s (mid ++ [c]) := by
  have hheld : held (received acceptor reliable before first s mid).2 = [] := by
    rw [h.slot, mirror_of_epoch_ne h.epoch_ne]
    rfl
  refine ⟨hnewer, ?_⟩
  rw [received_snoc hc, sent_snoc_of_session hc]
  simp only [hfeed, hheld, List.flatten_append, List.flatten_singleton, List.append_nil,
    List.length_append, List.length_singleton, List.length_nil, h.returned]
  omega

theorem follows_or_fallen_switch (h : Follows acceptor reliable before first s mid)
    (hc : c.ofSession first.sessionId = true) (ho : c.ftype ≠ .open)
    (hseq : seqMask.toNat ≤
      (sidTx (stampAll (newEncoder acceptor reliable) (before ++ first :: mid)).2
        first.sessionId).seq) :
    Follows acceptor reliable before first s (mid ++ [c]) ∨
    Fallen acceptor reliable before first s (mid ++ [c]) := by
  obtain ⟨past, f, between, hcur, hlen, hpast⟩ := h.current
  obtain ⟨hu, hsid⟩ := Call.ofSession_iff.mp hc
  have hstarts : allocates (stampAll (newEncoder acceptor reliable) (before ++ first :: mid)).2 c =
      true := by
    simp [allocates, hu, hsid, hseq]
  have hiff :=
    newer_iff hpast
      (toNat_allocEpoch (epochCtr_newEncoder acceptor reliable) (before ++ first :: mid))
  have hfeed := feed_switch_mirror hc ho h.epoch_ne hseq
  rw [← h.slot] at hfeed
  by_cases hnew : Newer (allocations (newEncoder acceptor reliable) past)
      (allocations (newEncoder acceptor reliable) (before ++ first :: mid))
  · rw [if_pos (hiff.mpr hnew)] at hfeed
    refine Or.inl (h.switch hc hstarts ?_ hfeed)
    rw [calls_snoc]
    exact h.newer.snoc hcur fun _ _ => hnew
  · rw [if_neg (fun h => hnew (hiff.mp h))] at hfeed
    refine Or.inr (h.fall hc (fun hall => hnew ?_) hfeed)
    have hpre : past ++ f :: (between ++ [c]) <+: before ++ first :: (mid ++ [c]) := by
      rw [calls_snoc before mid first c, ← hcur.whole]
      simp
    have hnewer := hall past f between c hpre hlen hcur.same (hcur.successive hsid hstarts)
    rwa [hcur.whole] at hnewer

theorem follows_nil (h : SessionRun acceptor before first during) (hw : s.waiting = [])
    (hs : first.ftype ≠ .open → s = Slot.empty) : Follows acceptor reliable before first s [] := by
  have hc : first.ofSession first.sessionId = true := Call.ofSession_iff.mpr ⟨h.session, rfl⟩
  have hdir : (stamp (stampAll (newEncoder acceptor reliable) before).2 first).1.dirAcceptor =
      acceptor := by
    rw [stamp_dirAcceptor _ (h.flags first (by simp)), dirAcceptor_stampAll]
    cases acceptor <;> rfl
  have henc : (stampAll (newEncoder acceptor reliable) (before ++ [first])).2 =
      (stamp (stampAll (newEncoder acceptor reliable) before).2 first).2 := by
    rw [stampAll_snoc]
  have hsent : sent (stampAll (newEncoder acceptor reliable) before).2 first.sessionId [first] =
      [(stamp (stampAll (newEncoder acceptor reliable) before).2 first).1] := by
    have hsnoc :=
      sent_snoc (stampAll (newEncoder acceptor reliable) before).2 first.sessionId [] first
    rw [if_pos hc] at hsnoc
    exact hsnoc
  have hstarts : allocates (stampAll (newEncoder acceptor reliable) before).2 first = true := by
    rcases h.starts with ho | ⟨-, hnone⟩
    · simp [allocates, ho, usesSessionOrder]
    · have hfresh :
          (sidTx (stampAll (newEncoder acceptor reliable) before).2 first.sessionId).epoch = 0 := by
        have hfilter : before.filter (Call.ofSession first.sessionId) = [] :=
          List.filter_eq_nil_iff.mpr fun c hmem => by simp [hnone c hmem]
        rw [sidTx_stampAll_of_none before _ _ hfilter]
        cases acceptor <;> rfl
      simp [allocates, h.session, hfresh]
  have hfeed : s.feed (stamp (stampAll (newEncoder acceptor reliable) before).2 first).1 =
      ([(stamp (stampAll (newEncoder acceptor reliable) before).2 first).1],
        mirror (sidTx (stamp (stampAll (newEncoder acceptor reliable) before).2 first).2
          first.sessionId)) := by
    by_cases ho : first.ftype = .open
    · exact feed_open_mirror hc ho hw
    · obtain ⟨hacc, -⟩ := h.starts.resolve_left ho
      exact feed_first_mirror hc ho (hdir.trans hacc) (hs ho)
  refine ⟨?_, ?_, ?_, before, first, [], current_of_starts rfl hstarts, Nat.le_refl _, ?_⟩
  · rw [received, hsent]
    simp [hfeed]
  · rw [received, hsent, henc]
    simp [hfeed]
  · intro past f between second hpre hlen
    have hle := hpre.length_le
    simp only [List.length_append, List.length_cons, List.length_nil] at hle
    omega
  · rw [henc, sidTx_stamp, if_pos hc, generation_of_allocates hstarts]
    exact toNat_allocEpoch (epochCtr_newEncoder acceptor reliable) before

/-- The session is received up to its first switch to an epoch that does not count as newer, and not
beyond. -/
theorem follows_or_fallen (h : SessionRun acceptor before first during) (hw : s.waiting = [])
    (hs : first.ftype ≠ .open → s = Slot.empty) (hmid : mid <+: during) :
    Follows acceptor reliable before first s mid ∨ Fallen acceptor reliable before first s mid := by
  induction mid using List.reverseRecOn with
  | nil => exact Or.inl (follows_nil h hw hs)
  | append_singleton mid c ih =>
      have hmem : c ∈ during := hmid.subset (by simp)
      rcases ih ((List.prefix_append mid [c]).trans hmid) with hfollows | hfallen
      · cases hc : c.ofSession first.sessionId with
        | false =>
            refine Or.inl (hfollows.stay (fun htrue => ?_) ?_ (not_allocates_of_other hc))
            · rw [hc] at htrue
              cases htrue
            · rw [sidTx_stamp, hc]
              rfl
        | true =>
            have ho := h.stays c hmem hc
            by_cases hseq : seqMask.toNat ≤
                (sidTx (stampAll (newEncoder acceptor reliable) (before ++ first :: mid)).2
                  first.sessionId).seq
            · exact follows_or_fallen_switch hfollows hc ho hseq
            · have he := hfollows.epoch_ne
              have hgen := generation_continues c.ftype he ho (Nat.not_le.mp hseq)
              refine Or.inl (hfollows.stay (fun _ => ?_) ?_ fun hsid => ?_)
              · rw [hfollows.slot]
                exact feed_next_mirror hc ho he (Nat.not_le.mp hseq)
              · rw [sidTx_stamp, if_pos hc, hgen]
              · simp [allocates, hsid, he, ho, hseq]
      · exact Or.inr hfallen.step

/-- The slot that takes all the frames of the session in returns them all exactly if every switch
was to a newer epoch. -/
theorem received_lossless_iff (h : SessionRun acceptor before first during) (hw : s.waiting = [])
    (hs : first.ftype ≠ .open → s = Slot.empty) :
    (received acceptor reliable before first s during).1.flatten =
        sent (stampAll (newEncoder acceptor reliable) before).2 first.sessionId (first :: during) ↔
      AllNewer (newEncoder acceptor reliable) first.sessionId before.length
        (before ++ first :: during) := by
  have hrun : Follows acceptor reliable before first s during ∨
      Fallen acceptor reliable before first s during :=
    follows_or_fallen h hw hs (List.prefix_refl during)
  rcases hrun with hfollows | hfallen
  · exact iff_of_true hfollows.returned hfollows.newer
  · refine iff_of_false (fun heq => ?_) hfallen.newer
    have hmissing := hfallen.missing
    rw [heq] at hmissing
    omega

end Run

section Exhausted

variable {enc : MuxEncoder} {before between : List (Call α)} {first second : Call α} {sid : UInt16}

theorem sidTx_continues {calls : List (Call α)} (he : (sidTx enc sid).epoch ≠ 0)
    (hopen : ∀ c ∈ calls, c.ofSession sid = true → c.ftype ≠ .open)
    (hroom : (sidTx enc sid).seq + (calls.filter (Call.ofSession sid)).length ≤ seqMask.toNat) :
    sidTx (stampAll enc calls).2 sid =
      ⟨(sidTx enc sid).epoch,
        (sidTx enc sid).seq + (calls.filter (Call.ofSession sid)).length⟩ := by
  induction calls using List.reverseRecOn with
  | nil => rfl
  | append_singleton calls c ih =>
      rw [List.filter_append, List.filter_singleton, List.length_append] at hroom ⊢
      have hsofar := ih (fun c hc => hopen c (List.mem_append_left _ hc)) (by omega)
      rw [stampAll_snoc, sidTx_stamp]
      cases hc : c.ofSession sid with
      | false =>
          simp only [Bool.false_eq_true, if_false, cond_false, List.length_nil, Nat.add_zero]
          exact hsofar
      | true =>
          simp only [hc, cond_true, List.length_singleton] at hroom
          have hgen : (generation (stampAll enc calls).2 c.ftype sid).1 =
              sidTx (stampAll enc calls).2 sid := by
            apply generation_continues
            · rw [hsofar]
              exact he
            · exact hopen c (by simp) hc
            · rw [hsofar]
              exact hroom
          simp only [if_true, hgen, hsofar, cond_true, List.length_singleton, Nat.add_assoc]

theorem successive_of_exhausted (hstarts : allocates (stampAll enc before).2 first = true)
    (hsecond : second.ofSession first.sessionId = true)
    (hopen : ∀ c ∈ between, c.ofSession first.sessionId = true → c.ftype ≠ .open)
    (hcount : (between.filter (Call.ofSession first.sessionId)).length + 1 = seqMask.toNat) :
    Successive enc before first between second := by
  obtain ⟨hu, -⟩ := Bool.and_eq_true_iff.mp hstarts
  have hfirst : sidTx (stampAll enc (before ++ [first])).2 first.sessionId =
      ⟨(allocEpoch (stampAll enc before).2).1, 1⟩ := by
    rw [stampAll_snoc, sidTx_stamp, if_pos (Call.ofSession_iff.mpr ⟨hu, rfl⟩),
      generation_of_allocates hstarts]
  have he : (sidTx (stampAll enc (before ++ [first])).2 first.sessionId).epoch ≠ 0 := by
    rw [hfirst]
    exact allocEpoch_ne_zero _
  -- where the session stands behind a part of the calls between
  have hat : ∀ mid, mid <+: between →
      sidTx (stampAll enc (before ++ first :: mid)).2 first.sessionId =
      ⟨(allocEpoch (stampAll enc before).2).1,
        1 + (mid.filter (Call.ofSession first.sessionId)).length⟩ := by
    intro mid hmid
    have hle := (hmid.filter (Call.ofSession first.sessionId)).length_le
    have hassoc : before ++ first :: mid = (before ++ [first]) ++ mid := by simp
    have hroom : 1 + (mid.filter (Call.ofSession first.sessionId)).length ≤ seqMask.toNat := by
      omega
    have hcontinues := sidTx_continues he (fun c hc => hopen c (hmid.subset hc)) (by rwa [hfirst])
    rw [hassoc, stampAll_append, hcontinues, hfirst]
  obtain ⟨hu', hsid⟩ := Call.ofSession_iff.mp hsecond
  refine ⟨hsid, hstarts, ?_, fun mid c hpre hown => ?_⟩
  · have hlast := hat between (List.prefix_refl between)
    have hseq : seqMask.toNat ≤
        (sidTx (stampAll enc (before ++ first :: between)).2 second.sessionId).seq := by
      rw [hsid, hlast, ← hcount, Nat.add_comm]
    simp [allocates, hu', hseq]
  · cases hc : c.ofSession first.sessionId with
    | false => exact not_allocates_of_other hc hown
    | true =>
        have hmid := hat mid ((List.prefix_append mid [c]).trans hpre)
        have hle := (hpre.filter (Call.ofSession first.sessionId)).length_le
        rw [List.filter_append, List.filter_singleton, hc, cond_true, List.length_append,
          List.length_singleton] at hle
        have hseq : ¬ seqMask.toNat ≤ 1 + (mid.filter (Call.ofSession first.sessionId)).length := by
          omega
        have hne : (allocEpoch (stampAll enc before).2).1 ≠ 0 := allocEpoch_ne_zero _
        simp [allocates, hown, hmid, hseq, hne, hopen c (hpre.subset (by simp)) hc]

theorem allocations_append (enc : MuxEncoder) (a b : List (Call α)) :
    allocations enc (a ++ b) = allocations enc a + allocations (stampAll enc a).2 b := by
  induction a generalizing enc with
  | nil =>
      rw [List.nil_append, allocations, Nat.zero_add]
      rfl
  | cons c a ih =>
      rw [List.cons_append, allocations, ih, allocations, stampAll_tail, Nat.add_assoc]

theorem allocations_opens {calls : List (Call α)} (h : ∀ c ∈ calls, c.ftype = .open) :
    allocations enc calls = calls.length := by
  induction calls generalizing enc with
  | nil => rfl
  | cons c calls ih =>
      obtain ⟨hopen, hcalls⟩ := List.forall_mem_cons.mp h
      have hstarts : allocates enc c = true := by simp [allocates, hopen, usesSessionOrder]
      rw [allocations, hstarts, if_pos rfl, ih hcalls, List.length_cons, Nat.add_comm]

theorem allocations_continues {calls : List (Call α)} (he : (sidTx enc sid).epoch ≠ 0)
    (hcalls : ∀ c ∈ calls, c.ofSession sid = true ∧ c.ftype ≠ .open)
    (hroom : (sidTx enc sid).seq + calls.length ≤ seqMask.toNat) : allocations enc calls = 0 := by
  induction calls generalizing enc with
  | nil => rfl
  | cons c calls ih =>
      obtain ⟨⟨hc, hopen⟩, hrest⟩ := List.forall_mem_cons.mp hcalls
      obtain ⟨hu, hsid⟩ := Call.ofSession_iff.mp hc
      rw [List.length_cons] at hroom
      have hseq : ¬ seqMask.toNat ≤ (sidTx enc sid).seq := by omega
      have htx : sidTx (stamp enc c).2 sid = ⟨(sidTx enc sid).epoch, (sidTx enc sid).seq + 1⟩ := by
        rw [sidTx_stamp, if_pos hc, generation_continues c.ftype he hopen (Nat.not_le.mp hseq)]
      have hnone : allocates enc c = false := by simp [allocates, hsid, he, hopen, hseq]
      have hnext : allocations (stamp enc c).2 calls = 0 := by
        apply ih
        · rw [htx]
          exact he
        · exact hrest
        · rw [htx, Nat.add_assoc, Nat.add_comm 1]
          exact hroom
      rw [allocations, hnone, hnext]
      rfl

theorem allocations_le_length (enc : MuxEncoder) (calls : List (Call α)) :
    allocations enc calls ≤ calls.length := by
  induction calls generalizing enc with
  | nil => exact Nat.le_refl 0
  | cons c calls ih =>
      have hrest := ih (stamp enc c).2
      rw [allocations, List.length_cons]
      split <;> omega

theorem allNewer_of_few {start : Nat} {calls : List (Call α)} (h : allocations enc calls ≤ 127) :
    AllNewer enc sid start calls := by
  rintro past f between second ⟨rest, rfl⟩ - - hsucc
  rw [allocations_append,
    show past ++ f :: (between ++ [second]) = (past ++ f :: between) ++ [second] by simp,
    allocations_append] at h
  have hstarts : allocations enc (past ++ f :: between) =
      allocations enc past + (1 + allocations (stamp (stampAll enc past).2 f).2 between) := by
    rw [allocations_append, allocations, hsucc.starts, if_pos rfl]
  rw [Newer, epochDistance, epochAfter, epochAfter]
  omega

end Exhausted

section Messages

variable {acceptor reliable : Bool} {before during : List (Call Bytes)}
  {first : Call Bytes} {sid : UInt16}

theorem mem_stampAll_dirAcceptor {calls : List (Call Bytes)}
    (hflags : ∀ c ∈ calls, c.flags &&& flagDirAccept = 0) {f : Frame Bytes}
    (hf : f ∈ (stampAll (newEncoder acceptor reliable) calls).1) : f.dirAcceptor = acceptor := by
  induction calls using List.reverseRecOn with
  | nil => simp [stampAll] at hf
  | append_singleton calls c ih =>
      rw [stampAll_snoc, List.mem_append, List.mem_singleton] at hf
      rcases hf with hf | rfl
      · exact ih (fun c hc => hflags c (List.mem_append_left _ hc)) hf
      · rw [stamp_dirAcceptor _ (hflags c (by simp)), dirAcceptor_stampAll]
        cases acceptor <;> rfl

theorem waiting_feed {s : Slot Bytes} {f : Frame Bytes} (hd : f.dirAcceptor = true)
    (hw : s.waiting = []) : (s.feed f).2.waiting = [] := by
  simp only [Slot.feed, hd]
  split
  · exact hw
  split
  · exact hw
  split
  · rfl
  split
  · split
    · split
      · exact hw
      split
      · exact hw
      split
      · exact hw
      · exact hw
    split
    · exact hw
    · exact hw
  · exact hw

theorem sent_of_none {enc : MuxEncoder} {calls : List (Call Bytes)}
    (h : ∀ c ∈ calls, c.ofSession sid = false) : sent enc sid calls = [] := by
  induction calls using List.reverseRecOn with
  | nil => rfl
  | append_singleton calls c ih =>
      rw [sent_snoc, ih (fun c hc => h c (List.mem_append_left _ hc)), h c (by simp)]
      rfl

theorem mem_sent (enc : MuxEncoder) {calls : List (Call Bytes)} {c : Call Bytes} (hc : c ∈ calls)
    (hown : c.ofSession sid = true) :
    ∃ f ∈ sent enc sid calls, f.ftype = c.ftype ∧ f.epoch ≠ 0 := by
  induction calls using List.reverseRecOn with
  | nil => simp at hc
  | append_singleton calls last ih =>
      rw [sent_snoc]
      rcases List.mem_append.mp hc with hc | hc
      · obtain ⟨f, hf, htype⟩ := ih hc
        exact ⟨f, List.mem_append_left _ hf, htype⟩
      · obtain rfl := List.mem_singleton.mp hc
        obtain ⟨-, hne, -, -⟩ := stamped (stampAll enc calls).2 hown
        rw [if_pos hown]
        exact ⟨_, List.mem_append_right _ (List.mem_singleton_self _), rfl, hne⟩

theorem SessionRun.slot (h : SessionRun acceptor before first during) {s : Slot Bytes}
    (hs : s = (Transducer.run Slot.feed Slot.empty
      (sent (newEncoder acceptor reliable) first.sessionId before)).2) :
    s.waiting = [] ∧ (first.ftype ≠ .open → s = Slot.empty) := by
  have hflags : ∀ c ∈ before, c.flags &&& flagDirAccept = 0 :=
    fun c hc => h.flags c (List.mem_append_left _ hc)
  have hdir : ∀ f ∈ sent (newEncoder acceptor reliable) first.sessionId before,
      f.dirAcceptor = acceptor :=
    fun f hf => mem_stampAll_dirAcceptor hflags (List.mem_of_mem_filter hf)
  constructor
  · cases hacc : acceptor with
    | true =>
        rw [hs]
        exact Transducer.run_invariant (fun s : Slot Bytes => s.waiting = []) _
          (fun s f hf hw => waiting_feed ((hdir f hf).trans hacc) hw) Slot.empty rfl
    | false =>
        have hsettled := run_settled _ fun f hf => (hdir f hf).trans hacc
        rw [← hs] at hsettled
        by_cases hnone : ∀ c ∈ before, c.ofSession first.sessionId = false
        · rw [hs, sent_of_none hnone]
          rfl
        · obtain ⟨c, hc, hown⟩ : ∃ c ∈ before,
              c.ofSession first.sessionId = true := by simpa using hnone
          obtain ⟨o, ho, hopen, hsid⟩ := h.opened hacc c hc hown
          have hoo : o.ofSession first.sessionId = true :=
            Call.ofSession_iff.mpr ⟨by rw [hopen]; rfl, hsid⟩
          obtain ⟨f, hf, htype, hne⟩ := mem_sent (newEncoder acceptor reliable) ho hoo
          obtain ⟨st, hst⟩ := run_opened _ Slot.empty (Or.inr ⟨f, hf, htype.trans hopen, hne⟩)
          rw [← hs] at hst
          exact hsettled.resolve_left (by simp [hst])
  · intro ho
    obtain ⟨-, hnone⟩ := h.starts.resolve_left ho
    rw [hs, sent_of_none hnone]
    rfl

theorem encodeAll_of_short (enc : MuxEncoder) {calls : List (Call Bytes)}
    (h : ∀ c ∈ calls, c.payload.length ≤ frameDataMax) :
    encodeAll enc calls = some ((stampAll enc calls).1.map frameBytes, (stampAll enc calls).2) := by
  induction calls generalizing enc with
  | nil => rfl
  | cons c calls ih =>
      obtain ⟨hc, hcalls⟩ := List.forall_mem_cons.mp h
      rw [encodeAll, encodeFrame, if_pos hc]
      simp only [Option.bind_eq_bind, Option.bind_some, ih (stamp enc c).2 hcalls]
      rfl

theorem sentFrames_encodeAll {enc enc' : MuxEncoder} {calls : List (Call Bytes)} {msgs : List Bytes}
    (h : encodeAll enc calls = some (msgs, enc')) : sentFrames sid msgs = sent enc sid calls := by
  rw [sentFrames, decode_encodeAll h]
  rfl

theorem returnedFrom_eq (h : SessionRun acceptor before first during) {old msgs : List Bytes}
    {enc enc' : MuxEncoder}
    (hold : encodeAll (newEncoder acceptor reliable) before = some (old, enc))
    (henc : encodeAll enc (first :: during) = some (msgs, enc')) :
    ∃ s : Slot Bytes, (s.waiting = [] ∧ (first.ftype ≠ .open → s = Slot.empty)) ∧
      returnedFrom (feedAll MuxDecoder.new old).2 first.sessionId msgs =
        (received acceptor reliable before first s during).1.flatten := by
  obtain ⟨-, -, rfl⟩ := encodeAll_eq_some hold
  have hdir : ∀ f ∈ (stampAll (newEncoder acceptor reliable) (before ++ first :: during)).1,
      f.dirAcceptor = acceptor :=
    fun f hf => mem_stampAll_dirAcceptor h.flags hf
  simp only [stampAll, Transducer.run_append, List.mem_append] at hdir
  have hold' := (feedAll_slot MuxDecoder.new sequenced_new first.sessionId old fun f hf =>
    hdir f (Or.inl (List.mem_of_mem_filter (sentFrames_encodeAll hold ▸ hf)))).2
  have hmsgs :=
    (feedAll_slot (feedAll MuxDecoder.new old).2 (sequenced_feedAll old) first.sessionId
      msgs fun f hf =>
    hdir f (Or.inr (List.mem_of_mem_filter (sentFrames_encodeAll henc ▸ hf)))).1
  rw [sentFrames_encodeAll hold, slotAt_new] at hold'
  rw [sentFrames_encodeAll henc, hold'] at hmsgs
  exact ⟨_, h.slot rfl, hmsgs⟩

end Messages

/-- Fed in the order of encoding, the decoder returns every frame of a session exactly once and in
order, however many there are, exactly if each time the session has used up its sequence numbers,
the epoch it goes on with counts as newer than the one it had. -/
theorem exhaustion_lossless_iff (acceptor reliable : Bool) (before during : List (Call Bytes))
    (first : Call Bytes) (h : SessionRun acceptor before first during) (old msgs : List Bytes)
    (enc enc' : MuxEncoder)
    (hold : encodeAll (newEncoder acceptor reliable) before = some (old, enc))
    (henc : encodeAll enc (first :: during) = some (msgs, enc')) :
    returnedFrom (feedAll MuxDecoder.new old).2 first.sessionId msgs =
      sent enc first.sessionId (first :: during) ↔
      AllNewer (newEncoder acceptor reliable) first.sessionId before.length
        (before ++ first :: during) := by
  obtain ⟨s, ⟨hw, hs⟩, hreturned⟩ := returnedFrom_eq h hold henc
  obtain ⟨-, -, rfl⟩ := encodeAll_eq_some hold
  rw [hreturned]
  exact received_lossless_iff h hw hs

def exhausting (n others : Nat) : List (Call Bytes) :=
  List.replicate n ⟨.data, 1, 0, []⟩ ++
    (List.replicate others (sendOpen 2 1 [97] 80) ++ [⟨.data, 1, 0, [7]⟩])

section Exhausting

variable {n others : Nat}

theorem mem_exhausting {c : Call Bytes} (h : c ∈ exhausting n others) :
    c = ⟨.data, 1, 0, []⟩ ∨ c = sendOpen 2 1 [97] 80 ∨ c = ⟨.data, 1, 0, [7]⟩ := by
  simp only [exhausting, List.mem_append, List.mem_replicate, List.mem_singleton] at h
  tauto

theorem sessionRun_exhausting (n others : Nat) :
    SessionRun false [] (sendOpen 1 1 [97] 80) (exhausting n others) := by
  refine ⟨rfl, Or.inl rfl, by simp, fun c hc => ?_, fun c hc => ?_⟩
  · rcases mem_exhausting hc with rfl | rfl | rfl <;> decide
  · rcases List.mem_cons.mp hc with rfl | hc
    · rfl
    · rcases mem_exhausting hc with rfl | rfl | rfl <;> rfl

theorem encodeAll_exhausting (n others : Nat) :
    encodeAll (newEncoder false true) (sendOpen 1 1 [97] 80 :: exhausting n others) =
    some ((stampAll (newEncoder false true) (sendOpen 1 1 [97] 80 :: exhausting n others)).1.map
      frameBytes, (stampAll (newEncoder false true)
        (sendOpen 1 1 [97] 80 :: exhausting n others)).2) := by
  apply encodeAll_of_short
  intro c hc
  rcases List.mem_cons.mp hc with rfl | hc
  · decide
  · rcases mem_exhausting hc with rfl | rfl | rfl <;> decide

theorem allocations_exhausting (hn : n + 1 ≤ seqMask.toNat) (others : Nat) :
    allocations (newEncoder false true)
    (sendOpen 1 1 [97] 80 :: (List.replicate n (⟨.data, 1, 0, []⟩ : Call Bytes) ++
      List.replicate others (sendOpen 2 1 [97] 80))) =
      1 + others := by
  have hstand : sidTx (stamp (newEncoder false true) (sendOpen 1 1 [97] 80)).2 1 = ⟨1, 1⟩ := by
    decide
  have hquiet : allocations (stamp (newEncoder false true) (sendOpen 1 1 [97] 80)).2
      (List.replicate n (⟨.data, 1, 0, []⟩ : Call Bytes)) = 0 := by
    have hroom : 1 + (List.replicate n (⟨.data, 1, 0, []⟩ : Call Bytes)).length ≤
        seqMask.toNat := by
      rw [List.length_replicate, Nat.add_comm]
      exact hn
    have he : (sidTx (stamp (newEncoder false true) (sendOpen 1 1 [97] 80)).2 1).epoch ≠ 0 := by
      decide
    refine allocations_continues he (fun c hc => ?_) (by rwa [hstand])
    obtain ⟨-, rfl⟩ := List.mem_replicate.mp hc
    decide
  rw [allocations, allocations_append, hquiet, allocations_opens, List.length_replicate,
    Nat.zero_add]
  · rfl
  · intro c hc
    obtain ⟨-, rfl⟩ := List.mem_replicate.mp hc
    rfl

theorem allNewer_exhausting (hn : n + 1 ≤ seqMask.toNat) (hfew : others ≤ 125) :
    AllNewer (newEncoder false true) 1 0 (sendOpen 1 1 [97] 80 :: exhausting n others) := by
  have hsplit : sendOpen 1 1 [97] 80 :: exhausting n others =
      (sendOpen 1 1 [97] 80 ::
        (List.replicate n ⟨.data, 1, 0, []⟩ ++ List.replicate others (sendOpen 2 1 [97] 80))) ++
        [⟨.data, 1, 0, [7]⟩] := by
    simp [exhausting]
  apply allNewer_of_few
  rw [hsplit, allocations_append, allocations_exhausting hn others]
  have hlast := allocations_le_length (stampAll (newEncoder false true) (sendOpen 1 1 [97] 80 ::
    (List.replicate n ⟨.data, 1, 0, []⟩ ++ List.replicate others (sendOpen 2 1 [97] 80)))).2
      [(⟨.data, 1, 0, [7]⟩ : Call Bytes)]
  rw [List.length_singleton] at hlast
  omega

end Exhausting

/-- With only 100 sessions opened meanwhile the session goes on when its numbers are used up. -/
theorem exhausted_lossless : ∃ msgs enc',
    encodeAll (newEncoder false true) (sendOpen 1 1 [97] 80 :: exhausting (2 ^ 24 - 2) 100) =
      some (msgs, enc') ∧
      returnedFrom (feedAll MuxDecoder.new []).2 1 msgs =
        sent (newEncoder false true) 1 (sendOpen 1 1 [97] 80 :: exhausting (2 ^ 24 - 2) 100) := by
  have henc := encodeAll_exhausting (2 ^ 24 - 2) 100
  refine ⟨_, _, henc, ?_⟩
  have hlast : 2 ^ 24 - 2 + 1 ≤ seqMask.toNat := by decide
  refine (exhaustion_lossless_iff false true [] _ _ (sessionRun_exhausting (2 ^ 24 - 2) 100) [] _ _
    _ rfl henc).mpr ?_
  exact allNewer_exhausting hlast (by decide)

theorem not_allNewer_exhausting {n : Nat} (hn : n + 1 = seqMask.toNat) :
    ¬ AllNewer (newEncoder false true) 1 0 (sendOpen 1 1 [97] 80 :: exhausting n 127) := by
  intro hall
  let between : List (Call Bytes) :=
    List.replicate n ⟨.data, 1, 0, []⟩ ++ List.replicate 127 (sendOpen 2 1 [97] 80)
  have hwhole : [] ++ sendOpen 1 1 [97] 80 :: (between ++ [⟨.data, 1, 0, [7]⟩]) =
      sendOpen 1 1 [97] 80 :: exhausting n 127 := by
    simp [between, exhausting]
  have hdata : Call.ofSession (α := Bytes) 1 ⟨.data, 1, 0, []⟩ = true := rfl
  have hother : Call.ofSession 1 (sendOpen 2 1 [97] 80) = false := rfl
  have hcount : (between.filter (Call.ofSession 1)).length + 1 = seqMask.toNat := by
    rw [List.filter_append, List.filter_replicate, List.filter_replicate, if_pos hdata,
      if_neg (by simp [hother]), List.append_nil, List.length_replicate, hn]
  have hopen : ∀ c ∈ between, c.ofSession 1 = true → c.ftype ≠ .open := by
    intro c hc hown
    rcases List.mem_append.mp hc with hc | hc
    · obtain ⟨-, rfl⟩ := List.mem_replicate.mp hc
      decide
    · obtain ⟨-, rfl⟩ := List.mem_replicate.mp hc
      exact absurd hown (by decide)
  have hsucc : Successive (newEncoder false true) [] (sendOpen 1 1 [97] 80) between
      ⟨.data, 1, 0, [7]⟩ :=
    successive_of_exhausted rfl rfl hopen hcount
  have hsecond : allocations (newEncoder false true) ([] ++ sendOpen 1 1 [97] 80 :: between) =
      128 :=
    allocations_exhausting (Nat.le_of_eq hn) 127
  have hpre : [] ++ sendOpen 1 1 [97] 80 :: (between ++ [⟨.data, 1, 0, [7]⟩]) <+:
      sendOpen 1 1 [97] 80 :: exhausting n 127 :=
    ⟨[], (List.append_nil _).trans hwhole⟩
  have hnewer :=
    hall [] (sendOpen 1 1 [97] 80) between ⟨.data, 1, 0, [7]⟩ hpre (Nat.zero_le 0) rfl hsucc
  rw [hsecond] at hnewer
  exact absurd hnewer.2 (by decide)

/-- A session uses up its sequence numbers while 127 others are opened: the next frame, and all
behind it, are lost. -/
theorem exhausted_behind_other_opens :
    ∃ msgs enc', SessionRun false [] (sendOpen 1 1 [97] 80) (exhausting (2 ^ 24 - 2) 127) ∧
      encodeAll (newEncoder false true) (sendOpen 1 1 [97] 80 :: exhausting (2 ^ 24 - 2) 127) =
        some (msgs, enc') ∧
      returnedFrom (feedAll MuxDecoder.new []).2 1 msgs ≠
        sent (newEncoder false true) 1 (sendOpen 1 1 [97] 80 :: exhausting (2 ^ 24 - 2) 127) := by
  have hrun := sessionRun_exhausting (2 ^ 24 - 2) 127
  have henc := encodeAll_exhausting (2 ^ 24 - 2) 127
  refine ⟨_, _, hrun, henc, fun heq => ?_⟩
  have hold : encodeAll (newEncoder false true) [] = some ([], newEncoder false true) := rfl
  obtain ⟨s, ⟨hw, hs⟩, hreturned⟩ := returnedFrom_eq hrun hold henc
  have hlast : 2 ^ 24 - 2 + 1 = seqMask.toNat := by decide
  exact not_allNewer_exhausting hlast
    ((received_lossless_iff hrun hw hs).mp (hreturned.symm.trans heq))

end SrtVpn.Exhaustion
