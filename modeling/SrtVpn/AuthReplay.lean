import SrtVpn.Session
import SrtVpn.Sync

namespace SrtVpn.AuthReplay

open BigEndian Wire Encoder SeqNumbers Decoder Slots SessionView Session Sync

variable {α : Type}

/-- The loop of `authenticate`: every message is decoded on its own, the frames that can be replayed
are kept, and the first Response ends the wait. -/
def awaitResponse : List Bytes → List (Frame Bytes) → Option (List (Frame Bytes) × List Bytes)
  | [], _ => none
  | msg :: rest, buffered =>
      match decodeFrame msg with
      | none => awaitResponse rest buffered
      | some f =>
          if f.ftype = .response then some (buffered, rest)
          else if usesSessionOrder f.ftype then awaitResponse rest (buffered ++ [f])
          else awaitResponse rest buffered

/-- The frames `handle_client` passes to `dispatch_one_frame`: first the replayed ones, then what
its own decoder returns. -/
def dispatched (msgs : List Bytes) : Option (List (Frame Bytes)) :=
  (awaitResponse msgs []).map fun (buffered, rest) => buffered ++ (feedAll MuxDecoder.new rest).1

def sessionFrame (f : Frame α) : Bool := usesSessionOrder f.ftype

/-- The session frames dispatched are those one decoder would have returned for the whole
sequence. -/
def ReplayAgrees (msgs : List Bytes) : Prop :=
  (dispatched msgs).map (List.filter sessionFrame) =
    some ((feedAll MuxDecoder.new msgs).1.filter sessionFrame)

instance : DecidablePred ReplayAgrees := fun msgs =>
  inferInstanceAs (Decidable ((dispatched msgs).map (List.filter sessionFrame) = some _))

/-- Where the Response may stand: before it every generation starts with an Open, and no session
that has a frame before it goes on after it without a new Open. -/
structure CleanCut (pre post : List (Frame α)) : Prop where
  opens : ∀ f ∈ pre, sessionFrame f = true → f.sseq = 0 → f.ftype = .open
  reopens : ∀ f ∈ pre, sessionFrame f = true →
    ∀ g, (post.filter (ofSession f.sessionId)).head? = some g → g.ftype = .open

theorem awaitResponse_append (before : List Bytes) (msg : Bytes) (after : List Bytes)
    (buffered : List (Frame Bytes)) (hno : ∀ f ∈ before.filterMap decodeFrame, f.ftype ≠ .response)
    {r : Frame Bytes} (hr : decodeFrame msg = some r) (hresp : r.ftype = .response) :
    awaitResponse (before ++ msg :: after) buffered =
      some (buffered ++ (before.filterMap decodeFrame).filter sessionFrame, after) := by
  induction before generalizing buffered with
  | nil => simp [awaitResponse, hr, hresp]
  | cons m before ih =>
      rw [List.cons_append, awaitResponse]
      cases hm : decodeFrame m with
      | none =>
          rw [List.filterMap_cons_none hm] at hno ⊢
          exact ih buffered hno
      | some f =>
          rw [List.filterMap_cons_some hm] at hno ⊢
          obtain ⟨hf, hrest⟩ := List.forall_mem_cons.mp hno
          simp only [if_neg hf]
          cases hs : sessionFrame f with
          | true =>
              rw [if_pos (by exact hs), ih _ hrest, List.filter_cons_of_pos hs]
              simp
          | false =>
              rw [if_neg (by simpa [sessionFrame] using hs), ih _ hrest,
                List.filter_cons_of_neg (by simp [hs])]

section SameOutput

/-- Two decoders that agree on a session, or will once its next frame, an Open, has come. -/
def Alike (d d' : MuxDecoder α) (fs : List (Frame α)) : Prop :=
  ∀ sid, slotAt d (sid, false) = slotAt d' (sid, false) ∨
    (waitingOf d sid = [] ∧ waitingOf d' sid = [] ∧
      ∀ g, (fs.filter (ofSession sid)).head? = some g → g.ftype = .open)

theorem alike_step {d d' : MuxDecoder α} {f : Frame α} {fs : List (Frame α)}
    (h : Alike d d' (f :: fs)) (hdir : f.dirAcceptor = false)
    (he : sessionFrame f = true → f.epoch ≠ 0) :
    (feedFrame d f).1 = (feedFrame d' f).1 ∧ Alike (feedFrame d f).2 (feedFrame d' f).2 fs := by
  by_cases hu : usesSessionOrder f.ftype = false
  · rw [feedFrame_unordered d hu, feedFrame_unordered d' hu]
    refine ⟨rfl, fun sid => ?_⟩
    have hs := h sid
    rwa [List.filter_cons_of_neg (by simp [ofSession, hu])] at hs
  · have hu' := (Bool.not_eq_false _).mp hu
    have hkey : f.key = (f.sessionId, false) := Prod.ext rfl hdir
    have hfeed : (slotAt d f.key).feed f = (slotAt d' f.key).feed f := by
      rw [hkey]
      rcases h f.sessionId with heq | ⟨hw, hw', hopen⟩
      · rw [heq]
      · have ho := hopen f (by rw [List.filter_cons_of_pos (by simp [ofSession, hu'])]; rfl)
        exact feed_open_congr ho (he hu') (hw.trans hw'.symm)
    refine ⟨?_, fun sid => ?_⟩
    · rw [(feedFrame_eq_slot d f).1, (feedFrame_eq_slot d' f).1, hfeed]
    · by_cases hs : f.sessionId = sid
      · left
        rw [← hs, ← hkey, slotAt_feedFrame, slotAt_feedFrame, hfeed]
      · have hkeep := slotAt_feedFrame_ne d f (sid, false) hs
        have hkeep' := slotAt_feedFrame_ne d' f (sid, false) hs
        rcases h sid with heq | ⟨hw, hw', hopen⟩
        · left
          rw [hkeep, hkeep', heq]
        · right
          rw [List.filter_cons_of_neg (by simp [ofSession, hs])] at hopen
          have hwait := congrArg Slot.waiting hkeep
          have hwait' := congrArg Slot.waiting hkeep'
          exact ⟨hwait.trans hw, hwait'.trans hw', hopen⟩

theorem alike_run (fs : List (Frame α)) {d d' : MuxDecoder α} (h : Alike d d' fs)
    (hdir : ∀ f ∈ fs, f.dirAcceptor = false) (he : ∀ f ∈ fs, sessionFrame f = true → f.epoch ≠ 0) :
    (Transducer.run feedFrame d fs).1 = (Transducer.run feedFrame d' fs).1 := by
  induction fs generalizing d d' with
  | nil => rfl
  | cons f fs ih =>
      obtain ⟨hdf, hdfs⟩ := List.forall_mem_cons.mp hdir
      obtain ⟨hef, hefs⟩ := List.forall_mem_cons.mp he
      obtain ⟨hout, hnext⟩ := alike_step h hdf hef
      rw [Transducer.run_cons, Transducer.run_cons, hout, ih hnext hdfs hefs]

end SameOutput

section FirstFrame

theorem filter_session (sid : UInt16) (fs : List (Frame α)) :
    fs.filter (ofSession sid) = (fs.filter (bySession sid)).filter sessionFrame := by
  rw [List.filter_filter]
  rfl

theorem feed_unordered_slot {s : Slot α} {f : Frame α} (h : ¬sessionFrame f = true) :
    s.feed f = ([f], s) := by
  have hu : usesSessionOrder f.ftype = false := by simpa [sessionFrame] using h
  simp [Slot.feed, hu]

theorem run_starts_open (fs : List (Frame α)) {s : Slot α} (hs : s.state = none)
    (hdir : ∀ f ∈ fs, f.dirAcceptor = false) (he : ∀ f ∈ fs, sessionFrame f = true → f.epoch ≠ 0)
    {g : Frame α}
    (hg : ((Transducer.run Slot.feed s fs).1.flatten.filter sessionFrame).head? = some g) :
    g.ftype = .open := by
  induction fs generalizing s with
  | nil => simp at hg
  | cons f fs ih =>
      obtain ⟨hdf, hdfs⟩ := List.forall_mem_cons.mp hdir
      obtain ⟨hef, hefs⟩ := List.forall_mem_cons.mp he
      rw [Transducer.run_cons, List.flatten_cons, List.filter_append] at hg
      by_cases hu : sessionFrame f = true
      · have hu' : usesSessionOrder f.ftype = true := hu
        by_cases ho : f.ftype = .open
        · obtain ⟨rest, hfl, -⟩ := flushLoop_spec (mergeWaiting (baseline f) s.waiting).1.buffered
            (mergeWaiting (baseline f) s.waiting).1 [f]
          have hfeed : (s.feed f).1 = f :: rest := by
            simp [Slot.feed, ho, hef hu, usesSessionOrder, flushReady, hfl]
          rw [hfeed, List.filter_cons_of_pos hu] at hg
          obtain rfl : f = g := by simpa using hg
          exact ho
        · have hfeed : (s.feed f).1 = [] ∧ (s.feed f).2.state = none := by
            simp only [Slot.feed, hu', hef hu, ho, hs, hdf]
            simp only [Bool.true_eq_false, Bool.false_eq_true, if_false]
            split <;> simp [hs]
          rw [hfeed.1] at hg
          exact ih hfeed.2 hdfs hefs hg
      · have hfeed : s.feed f = ([f], s) := feed_unordered_slot hu
        rw [hfeed, List.filter_cons_of_neg hu] at hg
        exact ih hs hdfs hefs hg

theorem run_head (fs : List (Frame α)) {s : Slot α} {g : Frame α}
    (hg : (fs.filter sessionFrame).head? = some g) (hfeed : (s.feed g).1 = [g]) :
    ((Transducer.run Slot.feed s fs).1.flatten.filter sessionFrame).head? = some g := by
  induction fs with
  | nil => simp at hg
  | cons f fs ih =>
      rw [Transducer.run_cons, List.flatten_cons, List.filter_append]
      by_cases hu : sessionFrame f = true
      · rw [List.filter_cons_of_pos hu] at hg
        obtain rfl : f = g := by simpa using hg
        rw [hfeed, List.filter_cons_of_pos hu]
        rfl
      · rw [List.filter_cons_of_neg hu] at hg
        rw [feed_unordered_slot hu, List.filter_cons_of_neg hu]
        exact ih hg

end FirstFrame

section Cut

theorem stampAll_opener (reliable : Bool) {enc : MuxEncoder} {cs : List (Call α)}
    (henc : headerFlags enc = headerFlags (MuxEncoder.new reliable))
    (hflags : ∀ c ∈ cs, c.flags &&& flagDirAccept = 0) :
    ∀ f ∈ (stampAll enc cs).1, f.dirAcceptor = false := by
  intro f hf
  obtain ⟨enc', c, hc, rfl, hsame⟩ := mem_stampAll cs enc hf
  have hbits : (stamp enc' c).1.flags &&& flagDirAccept = 0 := by
    have hfl : (stamp enc' c).1.flags = headerFlags enc' c.flags := rfl
    rw [hfl, hsame, henc, headerFlags_new, hflags c hc]
  simp [Frame.dirAcceptor, hbits]

theorem stampAll_epoch {enc : MuxEncoder} {cs : List (Call α)} :
    ∀ f ∈ (stampAll enc cs).1, sessionFrame f = true → f.epoch ≠ 0 := by
  intro f hf hu
  obtain ⟨enc', c, _, rfl, _⟩ := mem_stampAll cs enc hf
  rw [epoch_stamp enc' c hu]
  exact generation_epoch_ne_zero enc' c.ftype c.sessionId

structure Cut (reliable : Bool) (pre : List (Call α)) (resp : Call α) (post : List (Call α))
    (P : List (Frame α)) (R : Frame α) (Q : List (Frame α)) : Prop where
  before : (stampAll (MuxEncoder.new reliable) pre).1 = P
  response : (stamp (stampAll (MuxEncoder.new reliable) pre).2 resp).1 = R
  after : (stampAll (stamp (stampAll (MuxEncoder.new reliable) pre).2 resp).2 post).1 = Q
  is_response : resp.ftype = .response
  opener : ∀ c ∈ pre ++ resp :: post, c.flags &&& flagDirAccept = 0

variable {reliable : Bool} {pre post : List (Call α)} {resp : Call α}
  {P Q : List (Frame α)} {R : Frame α}

theorem Cut.dir_before (h : Cut reliable pre resp post P R Q) : ∀ f ∈ P, f.dirAcceptor = false := by
  rw [← h.before]
  exact stampAll_opener reliable rfl fun c hc => h.opener c (List.mem_append_left _ hc)

theorem Cut.dir_after (h : Cut reliable pre resp post P R Q) : ∀ f ∈ Q, f.dirAcceptor = false := by
  rw [← h.after]
  refine stampAll_opener reliable ?_ fun c hc => h.opener c (by simp [hc])
  rw [headerFlags_stamp, headerFlags_stampAll]

theorem Cut.epoch_before (h : Cut reliable pre resp post P R Q) :
    ∀ f ∈ P, sessionFrame f = true → f.epoch ≠ 0 := by
  rw [← h.before]
  exact stampAll_epoch

theorem Cut.epoch_after (h : Cut reliable pre resp post P R Q) :
    ∀ f ∈ Q, sessionFrame f = true → f.epoch ≠ 0 := by
  rw [← h.after]
  exact stampAll_epoch

theorem Cut.unordered (h : Cut reliable pre resp post P R Q) :
    usesSessionOrder R.ftype = false := by
  have hft : R.ftype = resp.ftype := by rw [← h.response]; rfl
  rw [hft, h.is_response]
  rfl

theorem Cut.in_sync (h : Cut reliable pre resp post P R Q)
    (hopens : ∀ f ∈ P, sessionFrame f = true → f.sseq = 0 → f.ftype = .open) :
    (Transducer.run feedFrame MuxDecoder.new (P ++ R :: Q)).1.flatten =
        P ++ R :: (Transducer.run feedFrame
          (Transducer.run feedFrame MuxDecoder.new P).2 Q).1.flatten ∧
      InSync (stampAll (MuxEncoder.new reliable) pre).2
        (Transducer.run feedFrame MuxDecoder.new P).2 := by
  obtain ⟨hout, hsync⟩ :=
    inSync_run pre (inSync_new reliable) (by rw [h.before]; exact h.dir_before)
    (by rw [h.before]; exact hopens)
  rw [h.before] at hout hsync
  refine ⟨?_, hsync⟩
  rw [Transducer.run_append, Transducer.run_cons, feedFrame_unordered _ h.unordered]
  simp [hout]

theorem Cut.mem_sid (h : Cut reliable pre resp post P R Q) {f : Frame α} (hf : f ∈ P)
    (hu : sessionFrame f = true) : pre.filter (Call.ofSession f.sessionId) ≠ [] := by
  intro hnil
  have hlen := length_stampAll pre (MuxEncoder.new reliable) f.sessionId
  rw [h.before, hnil, List.length_nil, List.length_eq_zero_iff, List.filter_eq_nil_iff] at hlen
  have hu' : usesSessionOrder f.ftype = true := hu
  exact hlen f hf (by simp [ofSession, hu'])

/-- At a clean cut a fresh decoder does behind the Response what the one before it would have
done. -/
theorem Cut.agrees (h : Cut reliable pre resp post P R Q) (hclean : CleanCut P Q) :
    (Transducer.run feedFrame MuxDecoder.new (P ++ R :: Q)).1.flatten =
      P ++ R :: (Transducer.run feedFrame MuxDecoder.new Q).1.flatten := by
  obtain ⟨hout, hsync⟩ := h.in_sync hclean.opens
  have halike : Alike (Transducer.run feedFrame MuxDecoder.new P).2 MuxDecoder.new Q := by
    intro sid
    have hslot := hsync sid
    by_cases hnone : pre.filter (Call.ofSession sid) = []
    · left
      rw [hslot, sidTx_stampAll_of_none pre _ sid hnone, slotAt_new]
      rfl
    · right
      refine ⟨?_, rfl, ?_⟩
      · have hw := congrArg Slot.waiting hslot
        apply hw.trans
        rw [expected]
        split <;> rfl
      · obtain ⟨f, hf⟩ : ∃ f, f ∈ P.filter (ofSession sid) := by
          apply List.exists_mem_of_length_pos
          rw [← h.before, length_stampAll]
          exact List.length_pos_iff.mpr hnone
        obtain ⟨hmem, hown⟩ := List.mem_filter.mp hf
        obtain ⟨hu, rfl⟩ : usesSessionOrder f.ftype = true ∧ f.sessionId = sid := by
          simpa [ofSession] using hown
        exact hclean.reopens f hmem hu
  rw [hout, alike_run Q halike h.dir_after h.epoch_after]

theorem fresh_starts_open {fs : List (Frame α)} (hdir : ∀ f ∈ fs, f.dirAcceptor = false)
    (he : ∀ f ∈ fs, sessionFrame f = true → f.epoch ≠ 0) (sid : UInt16) {g : Frame α}
    (hg : ((Transducer.run feedFrame MuxDecoder.new fs).1.flatten.filter (ofSession sid)).head? =
      some g) :
    g.ftype = .open := by
  rw [filter_session, (run_session sid false fs (fun f hf _ => hdir f hf) _ sorted_new).1,
    slotAt_new] at hg
  exact run_starts_open _ rfl (fun f hf => hdir f (List.mem_of_mem_filter hf))
    (fun f hf => he f (List.mem_of_mem_filter hf)) hg

theorem Cut.dir_all (h : Cut reliable pre resp post P R Q) :
    ∀ f ∈ P ++ R :: Q, f.dirAcceptor = false := by
  have hR : R.dirAcceptor = false := by
    rw [← h.response]
    have hone : ∀ f ∈ (stampAll (stampAll (MuxEncoder.new reliable) pre).2 [resp]).1,
        f.dirAcceptor = false :=
      stampAll_opener reliable (headerFlags_stampAll pre _) fun c hc => h.opener c (by
        rw [List.mem_singleton.mp hc]
        simp)
    exact hone _ (by simp [stampAll])
  intro f hf
  rcases List.mem_append.mp hf with hf | hf
  · exact h.dir_before f hf
  · rcases List.mem_cons.mp hf with rfl | hf
    · exact hR
    · exact h.dir_after f hf

theorem Cut.epoch_all (h : Cut reliable pre resp post P R Q) :
    ∀ f ∈ P ++ R :: Q, sessionFrame f = true → f.epoch ≠ 0 := by
  intro f hf hu
  rcases List.mem_append.mp hf with hf | hf
  · exact h.epoch_before f hf hu
  · rcases List.mem_cons.mp hf with rfl | hf
    · rw [sessionFrame, h.unordered] at hu
      simp at hu
    · exact h.epoch_after f hf hu

theorem filter_sessionFrame (sid : UInt16) (fs : List (Frame α)) :
    (fs.filter sessionFrame).filter (ofSession sid) = fs.filter (ofSession sid) := by
  rw [List.filter_filter]
  congr 1
  funext f
  simp only [ofSession, sessionFrame]
  cases usesSessionOrder f.ftype <;> simp

theorem Cut.continues (h : Cut reliable pre resp post P R Q)
    (hbound : ∀ sid, (pre.filter (Call.ofSession sid)).length < 2 ^ 24 - 1) {sid : UInt16}
    (hsome : pre.filter (Call.ofSession sid) ≠ []) {g : Frame α}
    (hg : (Q.filter (ofSession sid)).head? = some g) (ho : g.ftype ≠ .open) :
    ((expected (sidTx (stampAll (MuxEncoder.new reliable) pre).2 sid)).feed g).1 = [g] := by
  rw [← h.after] at hg
  obtain ⟨enc', c, rfl, hc, htx⟩ := head_stampAll post _ sid hg
  obtain ⟨hu, rfl⟩ := Call.ofSession_iff.mp hc
  rw [sidTx_stamp, if_neg (by simp [Call.ofSession, h.is_response, usesSessionOrder])] at htx
  obtain ⟨hle, hpos⟩ := sidTx_stampAll pre (MuxEncoder.new reliable) c.sessionId
  obtain ⟨hne, hpos⟩ := hpos (Or.inr hsome)
  have hzero : (sidTx (MuxEncoder.new reliable) c.sessionId).seq = 0 := rfl
  have hb := hbound c.sessionId
  have hcont : (generation enc' c.ftype c.sessionId).1 = sidTx enc' c.sessionId := by
    apply generation_continues c.ftype (htx ▸ hne) ho
    rw [htx, toNat_seqMask]
    omega
  rw [← htx, expected_feed hu fun hz => ?_]
  rw [sseq_stamp enc' c hu, hcont, htx] at hz
  omega

/-- Where the replay agrees the cut is clean, as long as no session uses up its sequence numbers
before the Response. -/
theorem Cut.clean (h : Cut reliable pre resp post P R Q)
    (hbound : ∀ sid, (pre.filter (Call.ofSession sid)).length < 2 ^ 24 - 1)
    (hagree : P.filter sessionFrame ++
        (Transducer.run feedFrame MuxDecoder.new Q).1.flatten.filter sessionFrame =
      (Transducer.run feedFrame MuxDecoder.new (P ++ R :: Q)).1.flatten.filter sessionFrame) :
    CleanCut P Q := by
  have hsid (sid : UInt16) : P.filter (ofSession sid) ++
        (Transducer.run feedFrame MuxDecoder.new Q).1.flatten.filter (ofSession sid) =
      (Transducer.run feedFrame MuxDecoder.new (P ++ R :: Q)).1.flatten.filter (ofSession sid) := by
    have hproj := congrArg (List.filter (ofSession sid)) hagree
    rwa [List.filter_append, filter_sessionFrame, filter_sessionFrame, filter_sessionFrame] at hproj
  have hopens : ∀ f ∈ P, sessionFrame f = true → f.sseq = 0 → f.ftype = .open := by
    intro f hf hu
    have hfirst : ∀ g, (P.filter (ofSession f.sessionId)).head? = some g → g.ftype = .open := by
      intro g hg
      apply fresh_starts_open h.dir_all h.epoch_all f.sessionId
      rw [← hsid, List.head?_append, hg]
      rfl
    have hu' : usesSessionOrder f.ftype = true := hu
    have hzero := open_of_sseq_zero_first pre (MuxEncoder.new reliable) f.sessionId
      (by have hb := hbound f.sessionId; rw [toNat_seqMask]; omega) (by rw [h.before]; exact hfirst)
    rw [h.before] at hzero
    exact hzero f (List.mem_filter.mpr ⟨hf, by simp [ofSession, hu']⟩)
  refine ⟨hopens, fun f hf hu g hg => ?_⟩
  by_contra ho
  obtain ⟨hout, hsync⟩ := h.in_sync hopens
  -- the decoder that saw everything returns `g` next, the fresh one waits for an Open
  have hrest := hsid f.sessionId
  rw [hout, List.filter_append, List.filter_cons_of_neg (by simp [ofSession, h.unordered])] at hrest
  have hrest' := List.append_cancel_left hrest
  have hhead :
      ((Transducer.run feedFrame (Transducer.run feedFrame MuxDecoder.new P).2 Q).1.flatten.filter
      (ofSession f.sessionId)).head? = some g := by
    rw [filter_session, (run_session f.sessionId false Q (fun f hf _ => h.dir_after f hf) _
      (sorted_run P sorted_new)).1, hsync f.sessionId]
    apply run_head
    · rw [← filter_session]
      exact hg
    · exact h.continues hbound (h.mem_sid hf hu) hg ho
  rw [← hrest'] at hhead
  exact ho (fresh_starts_open h.dir_after h.epoch_after f.sessionId hhead)

end Cut

theorem encodeFrame_eq_some {enc enc' : MuxEncoder} {c : Call Bytes} {msg : Bytes}
    (h : encodeFrame enc c = some (msg, enc')) :
    decodeFrame msg = some (stamp enc c).1 ∧ enc' = (stamp enc c).2 := by
  rw [encodeFrame] at h
  split at h
  next hlen =>
    simp only [Option.some.injEq, Prod.mk.injEq] at h
    obtain ⟨rfl, rfl⟩ := h
    refine ⟨decodeFrame_frameBytes _ ?_, rfl⟩
    exact Nat.lt_of_le_of_lt hlen (by decide)
  next => simp at h

/-- The replay of the authentication window agrees with the normal path at a clean cut, and, as long
as no session uses up its sequence numbers before the Response, at no other. -/
theorem replay_agrees_iff_clean (reliable : Bool) (pre post : List (Call Bytes)) (resp : Call Bytes)
    (before after : List Bytes) (msg : Bytes) (enc₁ enc₂ enc₃ : MuxEncoder)
    (hpre : encodeAll (MuxEncoder.new reliable) pre = some (before, enc₁))
    (hmsg : encodeFrame enc₁ resp = some (msg, enc₂))
    (hpost : encodeAll enc₂ post = some (after, enc₃))
    (hresp : resp.ftype = .response) (hno : ∀ c ∈ pre, c.ftype ≠ .response)
    (hflags : ∀ c ∈ pre ++ resp :: post, c.flags &&& flagDirAccept = 0) :
    (CleanCut (before.filterMap decodeFrame) (after.filterMap decodeFrame) →
        ReplayAgrees (before ++ msg :: after)) ∧
      ((∀ sid, (pre.filter (Call.ofSession sid)).length < 2 ^ 24 - 1) →
        ReplayAgrees (before ++ msg :: after) →
        CleanCut (before.filterMap decodeFrame) (after.filterMap decodeFrame)) := by
  obtain ⟨-, -, rfl⟩ := encodeAll_eq_some hpre
  obtain ⟨hR, rfl⟩ := encodeFrame_eq_some hmsg
  have hcut : Cut reliable pre resp post (before.filterMap decodeFrame)
      (stamp (stampAll (MuxEncoder.new reliable) pre).2 resp).1 (after.filterMap decodeFrame) :=
    ⟨(decode_encodeAll hpre).symm, rfl, (decode_encodeAll hpost).symm, hresp, hflags⟩
  have hnone : ∀ f ∈ before.filterMap decodeFrame, f.ftype ≠ .response := by
    intro f hf
    rw [← hcut.before] at hf
    obtain ⟨enc', c, hc, rfl, -⟩ := mem_stampAll pre _ hf
    exact hno c hc
  have hwait := awaitResponse_append before msg after [] hnone hR hresp
  have hwhole : (before ++ msg :: after).filterMap decodeFrame = before.filterMap decodeFrame ++
      (stamp (stampAll (MuxEncoder.new reliable) pre).2 resp).1 :: after.filterMap decodeFrame := by
    rw [List.filterMap_append, List.filterMap_cons_some hR]
  have hiff : ReplayAgrees (before ++ msg :: after) ↔
      (before.filterMap decodeFrame).filter sessionFrame ++
          (Transducer.run feedFrame MuxDecoder.new (after.filterMap decodeFrame)).1.flatten.filter
            sessionFrame =
        (Transducer.run feedFrame MuxDecoder.new (before.filterMap decodeFrame ++
          (stamp (stampAll (MuxEncoder.new reliable) pre).2 resp).1 ::
            after.filterMap decodeFrame)).1.flatten.filter sessionFrame := by
    rw [ReplayAgrees, dispatched, hwait, Option.map_some, Option.map_some, Option.some.injEq]
    simp only [feedAll_returns, hwhole, List.nil_append, List.filter_append, List.filter_filter,
      Bool.and_self]
  rw [hiff]
  refine ⟨fun hclean => ?_, fun hbound hagree => hcut.clean hbound hagree⟩
  rw [hcut.agrees hclean, List.filter_append, List.filter_cons_of_neg]
  simp [sessionFrame, hcut.unordered]

theorem replay_agrees_between_sessions :
    ReplayAgrees
      (frameBytes ⟨.open, 1, 0x01000000, 0, [1]⟩ :: frameBytes ⟨.close, 1, 0x01000001, 0, []⟩ ::
      frameBytes ⟨.response, 0, 0, 0, []⟩ :: [frameBytes ⟨.open, 2, 0x02000000, 0, [1]⟩]) :=
  (replay_agrees_iff_clean false [⟨.open, 1, 0, [1]⟩, ⟨.close, 1, 0, []⟩] [⟨.open, 2, 0, [1]⟩]
    ⟨.response, 0, 0, []⟩ _ _ _ _ _ _ rfl rfl rfl rfl (by decide) (by decide)).1
    ⟨by decide, by decide⟩

/-- A session opened before the Response sends its first Data after it: the Data frame is not
dispatched. -/
theorem replay_loses_open_session :
    let msgs := ((encodeAll (MuxEncoder.new false) [⟨.open, 1, 0, [1]⟩, ⟨.response, 0, 0, []⟩,
      ⟨.data, 1, 0, [7]⟩]).map Prod.fst).getD []
    ¬ReplayAgrees msgs ∧ (dispatched msgs).map List.length = some 1 ∧
      (feedAll MuxDecoder.new msgs).1.length = 3 := by
  decide

end SrtVpn.AuthReplay
