import Mathlib.Data.List.Chain
import SrtVpn.Exhaustion

namespace SrtVpn.SequenceDiscipline

open BigEndian Tables Wire Encoder SeqNumbers Session Delivery Transparency Exhaustion

variable {α : Type}

/-- The frames of one generation: one epoch, the numbers from 0 on, and no Open but in front. -/
structure Numbered (epoch : Nat) (frames : List (Frame α)) : Prop where
  epoch_pos : 1 ≤ epoch
  epoch_le : epoch ≤ 255
  nonempty : frames ≠ []
  fields : frames.map (fun f => f.seq.toNat) =
    (List.range frames.length).map fun i => epoch * 2 ^ 24 + i
  length_le : frames.length ≤ 2 ^ 24 - 1
  opens : ∀ f ∈ frames.tail, f.ftype ≠ .open

/-- A generation is followed by another one for one of two reasons. -/
def NextGeneration (g next : List (Frame α)) : Prop :=
  (∃ f, next.head? = some f ∧ f.ftype = .open) ∨ g.length = 2 ^ 24 - 1

/-- The frames of a session, split into its generations. -/
structure Split (gens : List (List (Frame α))) (frames : List (Frame α)) : Prop where
  whole : gens.flatten = frames
  numbered : ∀ g ∈ gens, ∃ epoch, Numbered epoch g
  follows : gens.IsChain NextGeneration

def Standing (tx : SidTx) (gens : List (List (Frame α))) : Prop :=
  (gens = [] ∧ tx = ⟨0, 0⟩) ∨ ∃ past current, gens = past ++ [current] ∧
  Numbered tx.epoch.toNat current ∧ tx.seq = current.length

section Splitting

variable {gens past : List (List (Frame α))} {frames current : List (Frame α)}
  {f : Frame α} {epoch : Nat}

theorem numbered_singleton (hpos : 1 ≤ epoch) (hle : epoch ≤ 255)
    (hf : f.seq.toNat = epoch * 2 ^ 24) : Numbered epoch [f] := by
  refine ⟨hpos, hle, List.cons_ne_nil _ _, ?_, ?_, by simp⟩
  · simp only [List.map_singleton, hf, List.length_singleton, List.range_one, Nat.add_zero]
  · rw [List.length_singleton]
    omega

theorem Numbered.concat (h : Numbered epoch current)
    (hf : f.seq.toNat = epoch * 2 ^ 24 + current.length) (ho : f.ftype ≠ .open)
    (hlt : current.length < 2 ^ 24 - 1) : Numbered epoch (current ++ [f]) := by
  refine ⟨h.epoch_pos, h.epoch_le, by simp, ?_, ?_, ?_⟩
  · rw [List.length_append, List.length_singleton, List.range_succ, List.map_append,
      List.map_append, h.fields, List.map_singleton, List.map_singleton, hf]
  · rw [List.length_append, List.length_singleton]
    exact hlt
  · intro g hg
    rw [List.tail_append_of_ne_nil h.nonempty] at hg
    rcases List.mem_append.mp hg with hg | hg
    · exact h.opens g hg
    · obtain rfl := List.mem_singleton.mp hg
      exact ho

theorem Split.starts (h : Split gens frames) (hf : Numbered epoch [f])
    (hends : ∀ g ∈ gens.getLast?, f.ftype = .open ∨ g.length = 2 ^ 24 - 1) :
    Split (gens ++ [[f]]) (frames ++ [f]) := by
  refine ⟨by simp [h.whole], ?_, ?_⟩
  · intro g hg
    rcases List.mem_append.mp hg with hg | hg
    · exact h.numbered g hg
    · obtain rfl := List.mem_singleton.mp hg
      exact ⟨epoch, hf⟩
  · apply List.isChain_append.mpr
    refine ⟨h.follows, List.isChain_singleton _, ?_⟩
    intro g hg next hnext
    obtain rfl := Option.some.inj hnext
    rcases hends g hg with ho | hfull
    · exact Or.inl ⟨f, rfl, ho⟩
    · exact Or.inr hfull

theorem Split.continues (h : Split (past ++ [current]) frames) (hne : current ≠ [])
    (hnext : Numbered epoch (current ++ [f])) :
    Split (past ++ [current ++ [f]]) (frames ++ [f]) := by
  refine ⟨by simp [← h.whole], ?_, ?_⟩
  · intro g hg
    rcases List.mem_append.mp hg with hg | hg
    · exact h.numbered g (List.mem_append_left _ hg)
    · obtain rfl := List.mem_singleton.mp hg
      exact ⟨epoch, hnext⟩
  · obtain ⟨hpast, -, hlast⟩ := List.isChain_append.mp h.follows
    apply List.isChain_append.mpr
    refine ⟨hpast, List.isChain_singleton _, ?_⟩
    intro g hg next hnext
    obtain rfl := Option.some.inj hnext
    rcases hlast g hg current rfl with ⟨o, ho, htype⟩ | hfull
    · refine Or.inl ⟨o, ?_, htype⟩
      rw [List.head?_append_of_ne_nil _ hne]
      exact ho
    · exact Or.inr hfull

end Splitting

section Encoding

variable {enc : MuxEncoder} {sid : UInt16} {gens : List (List (Frame α))}
  {frames : List (Frame α)} {c : Call α}

theorem field_stamp (enc : MuxEncoder) (hc : c.ofSession sid = true) :
    (stamp enc c).1.seq.toNat =
      (generation enc c.ftype sid).1.epoch.toNat * 2 ^ 24 + (generation enc c.ftype sid).1.seq := by
  obtain ⟨hu, rfl⟩ := Call.ofSession_iff.mp hc
  have hlt := generation_seq_lt enc c.ftype c.sessionId
  rw [toNat_seqMask] at hlt
  rw [stamp_of_session enc c hu, numbered]
  exact toNat_seqField _ (by omega)

theorem Standing.step (hs : Split gens frames) (hstand : Standing (sidTx enc sid) gens)
    (hc : c.ofSession sid = true) :
    ∃ gens', Split gens' (frames ++ [(stamp enc c).1]) ∧
    Standing (sidTx (stamp enc c).2 sid) gens' := by
  have hfield := field_stamp enc hc
  have hmask := toNat_seqMask
  rw [sidTx_stamp, if_pos hc]
  rcases generation_cases enc c.ftype sid with ⟨hgen, hwhy⟩ | ⟨hgen, he, ho, hroom⟩
  · rw [hgen] at hfield ⊢
    have hpos : 1 ≤ (allocEpoch enc).1.toNat := by
      have hne := allocEpoch_ne_zero enc
      rw [Ne, ← UInt8.toNat_inj] at hne
      exact Nat.pos_of_ne_zero hne
    have hle : (allocEpoch enc).1.toNat ≤ 255 := Nat.le_of_lt_succ (allocEpoch enc).1.toNat_lt
    rw [Nat.add_zero] at hfield
    have hnew : Numbered (allocEpoch enc).1.toNat [(stamp enc c).1] :=
      numbered_singleton hpos hle hfield
    refine ⟨gens ++ [[(stamp enc c).1]], hs.starts hnew ?_, Or.inr ⟨gens, _, rfl, hnew, rfl⟩⟩
    intro g hg
    rcases hstand with ⟨rfl, -⟩ | ⟨past, current, rfl, hcurrent, hseq⟩
    · cases hg
    · rw [List.getLast?_concat] at hg
      obtain rfl := Option.some.inj hg
      rcases hwhy with hzero | hopen | hfull
      · have hpos := hcurrent.epoch_pos
        rw [hzero] at hpos
        cases hpos
      · exact Or.inl hopen
      · have hlength := hcurrent.length_le
        exact Or.inr (by omega)
  · rw [hgen] at hfield ⊢
    rcases hstand with ⟨-, htx⟩ | ⟨past, current, rfl, hcurrent, hseq⟩
    · rw [htx] at he
      exact absurd rfl he
    · rw [hseq] at hfield
      have hnext := hcurrent.concat hfield ho (by omega)
      refine ⟨past ++ [current ++ [(stamp enc c).1]], hs.continues hcurrent.nonempty hnext,
        Or.inr ⟨past, _, rfl, hnext, ?_⟩⟩
      rw [List.length_append, hseq]
      rfl

theorem sidTx_newEncoder (acceptor reliable : Bool) (sid : UInt16) :
    sidTx (newEncoder acceptor reliable) sid = ⟨0, 0⟩ := by
  cases acceptor <;> rfl

/-- In every run the frames of a session fall into generations. -/
theorem split_sent (acceptor reliable : Bool) (calls : List (Call α)) (sid : UInt16) :
    ∃ gens, Split gens (sent (newEncoder acceptor reliable) sid calls) ∧
      Standing (sidTx (stampAll (newEncoder acceptor reliable) calls).2 sid) gens := by
  induction calls using List.reverseRecOn with
  | nil =>
      refine ⟨[], ⟨rfl, by simp, List.isChain_nil⟩, Or.inl ⟨rfl, ?_⟩⟩
      exact sidTx_newEncoder acceptor reliable sid
  | append_singleton calls c ih =>
      obtain ⟨gens, hs, hstand⟩ := ih
      rw [sent_snoc, stampAll_snoc]
      by_cases hc : c.ofSession sid = true
      · rw [if_pos hc]
        exact hstand.step hs hc
      · rw [if_neg hc, List.append_nil, sidTx_stamp, if_neg hc]
        exact ⟨gens, hs, hstand⟩

end Encoding

section Independence

variable {sid : UInt16}

def numbers : Nat → List FrameType → List Nat
  | _, [] => []
  | next, ftype :: ftypes =>
      let n := if ftype = .open ∨ seqMask.toNat ≤ next then 0 else next
      n :: numbers (n + 1) ftypes

theorem generation_seq {enc : MuxEncoder} (ftype : FrameType)
    (h : (sidTx enc sid).epoch = 0 → (sidTx enc sid).seq = 0) : (generation enc ftype sid).1.seq =
      if ftype = .open ∨ seqMask.toNat ≤ (sidTx enc sid).seq then 0 else (sidTx enc sid).seq := by
  rcases generation_cases enc ftype sid with ⟨hgen, hzero | hwhy⟩ | ⟨hgen, -, ho, hroom⟩
  · rw [hgen, h hzero, ite_self]
  · rw [hgen, if_pos hwhy]
  · rw [hgen, if_neg (not_or.mpr ⟨ho, Nat.not_le.mpr hroom⟩)]

theorem sseq_sent (calls : List (Call α)) (enc : MuxEncoder)
    (h : (sidTx enc sid).epoch = 0 → (sidTx enc sid).seq = 0) :
    (sent enc sid calls).map Frame.sseq =
      numbers (sidTx enc sid).seq ((calls.filter (Call.ofSession sid)).map Call.ftype) := by
  induction calls generalizing enc with
  | nil => rfl
  | cons c calls ih =>
      have htx := sidTx_stamp enc sid c
      rw [sent, stampAll_cons, List.filter_cons, List.filter_cons, ofSession_stamp]
      by_cases hc : c.ofSession sid = true
      · obtain ⟨-, -, -, hseq⟩ := stamped enc hc
        have hne := generation_epoch_ne_zero enc c.ftype sid
        rw [if_pos hc] at htx
        have hrest := ih (stamp enc c).2 fun hzero => absurd (by rwa [htx] at hzero) hne
        rw [sent, htx] at hrest
        rw [if_pos hc, if_pos hc, List.map_cons, List.map_cons, hrest, numbers, hseq,
          generation_seq c.ftype h]
      · rw [if_neg hc] at htx
        have hrest := ih (stamp enc c).2 (by rw [htx]; exact h)
        rw [sent, htx] at hrest
        rw [if_neg hc, if_neg hc, hrest]

theorem contents_sent (calls : List (Call α)) (enc : MuxEncoder) (sid : UInt16) :
    (sent enc sid calls).map (fun f => (f.ftype, f.payload)) =
      (calls.filter (Call.ofSession sid)).map fun c => (c.ftype, c.payload) := by
  induction calls generalizing enc with
  | nil => rfl
  | cons c calls ih =>
      have hrest := ih (stamp enc c).2
      rw [sent] at hrest
      rw [sent, stampAll_cons, List.filter_cons, List.filter_cons, ofSession_stamp]
      by_cases hc : c.ofSession sid = true
      · rw [if_pos hc, if_pos hc, List.map_cons, List.map_cons, hrest]
        rfl
      · rw [if_neg hc, if_neg hc, hrest]

end Independence

section Messages

def fits (c : Call Bytes) : Bool := decide (c.payload.length ≤ frameDataMax)

/-- One call of `encode_frame`. If its assertion fails, it sends nothing and leaves the encoder as
it was. -/
def attempt (enc : MuxEncoder) (c : Call Bytes) : List Bytes × MuxEncoder :=
  match encodeFrame enc c with
  | some (msg, enc) => ([msg], enc)
  | none => ([], enc)

def encoded (enc : MuxEncoder) (calls : List (Call Bytes)) : List Bytes :=
  (Transducer.run attempt enc calls).1.flatten

theorem encoded_eq (calls : List (Call Bytes)) (enc : MuxEncoder) :
    encoded enc calls = (stampAll enc (calls.filter fits)).1.map frameBytes := by
  induction calls generalizing enc with
  | nil => rfl
  | cons c calls ih =>
      rw [encoded, Transducer.run_cons, List.flatten_cons, ← encoded, ih, List.filter_cons]
      by_cases hc : c.payload.length ≤ frameDataMax
      · have hattempt : attempt enc c = ([frameBytes (stamp enc c).1], (stamp enc c).2) := by
          rw [attempt, encodeFrame, if_pos hc]
        have hfits : fits c = true := decide_eq_true hc
        rw [hattempt, if_pos hfits, stampAll_cons, List.map_cons]
        rfl
      · have hattempt : attempt enc c = ([], enc) := by rw [attempt, encodeFrame, if_neg hc]
        have hfits : ¬ fits c = true := fun h => hc (of_decide_eq_true h)
        rw [hattempt, if_neg hfits]
        rfl

theorem sentFrames_encoded (calls : List (Call Bytes)) (enc : MuxEncoder) (sid : UInt16) :
    sentFrames sid (encoded enc calls) = sent enc sid (calls.filter fits) := by
  rw [encoded_eq]
  apply sentFrames_encodeAll
  apply encodeAll_of_short
  intro c hc
  have hfits : fits c = true := List.of_mem_filter hc
  exact of_decide_eq_true hfits

/-- In every run of an encoder the frames of a session, in the order of its calls, fall into
generations, and how they are numbered depends on the session's own calls only. -/
theorem sequence_discipline (acceptor reliable : Bool) (calls : List (Call Bytes)) (sid : UInt16) :
    (∃ gens, Split gens (sentFrames sid (encoded (newEncoder acceptor reliable) calls))) ∧
      (sentFrames sid (encoded (newEncoder acceptor reliable) calls)).map
        (fun f => (f.ftype, f.payload)) =
        ((calls.filter fits).filter (Call.ofSession sid)).map (fun c => (c.ftype, c.payload)) ∧
      (sentFrames sid (encoded (newEncoder acceptor reliable) calls)).map Frame.sseq =
        (sentFrames sid (encoded (newEncoder acceptor reliable)
          (calls.filter (Call.ofSession sid)))).map Frame.sseq := by
  have hstart : (sidTx (newEncoder acceptor reliable) sid).epoch = 0 →
      (sidTx (newEncoder acceptor reliable) sid).seq = 0 := by
    intro _
    rw [sidTx_newEncoder]
  rw [sentFrames_encoded, sentFrames_encoded]
  refine ⟨?_, contents_sent _ _ sid, ?_⟩
  · obtain ⟨gens, hs, -⟩ := split_sent acceptor reliable (calls.filter fits) sid
    exact ⟨gens, hs⟩
  · rw [sseq_sent _ _ hstart, sseq_sent _ _ hstart]
    congr 2
    simp only [List.filter_filter]
    apply List.filter_congr
    intro c _
    cases Call.ofSession sid c <;> cases fits c <;> rfl

end Messages

end SrtVpn.SequenceDiscipline
