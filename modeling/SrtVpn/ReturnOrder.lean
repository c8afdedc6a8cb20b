import SrtVpn.Delivery

namespace SrtVpn.ReturnOrder

open BigEndian Tables Wire Encoder SeqNumbers Decoder Slots SessionView SessionOrder Delivery

section Machine

variable {α : Type} {sid : UInt16} {epoch : UInt8} {sent past out : List (Frame α)}
  {s : Slot α} {f : Frame α}

theorem feed_first (hn : Numbered (sid, true) epoch sent) (hf : f ∈ sent) (ho : f.ftype ≠ .open) :
    Slot.empty.feed f = ([f], ⟨some (baseline f), []⟩) := by
  have hne : f.epoch ≠ 0 := by rw [hn.epoch_eq f hf]; exact hn.epoch_ne
  have hdir : f.dirAcceptor = true := congrArg Prod.snd (hn.key_eq f hf)
  simp [Slot.feed, Slot.empty, hn.ordered f hf, hne, ho, hdir, flushReady_baseline]

variable [DecidableEq α]

structure Follows (epoch : UInt8) (sent past out : List (Frame α)) (s : Slot α) : Prop where
  delivered : Delivered epoch sent out s
  keeps : Keeps past s
  started : ∃ st, s.state = some st

omit [DecidableEq α] in
theorem follows_first (hn : Numbered (sid, true) epoch sent) (hhead : sent.head? = some f) :
    Follows epoch sent [f] [f] ⟨some (baseline f), []⟩ :=
  ⟨(delivered_first hn hhead).1, (delivered_first hn hhead).2, baseline f, rfl⟩

theorem Follows.arrive (hn : Numbered (sid, true) epoch sent) (hopen : ∀ f ∈ sent, f.ftype ≠ .open)
    {arrived : List (Frame α)} (hperm : arrived.Perm sent)
    (hwait : ∀ n, (waitingFrames sent (arrived.take n)).length ≤ reorderMax)
    (hpre : past ++ [f] <+: arrived) (h : Follows epoch sent past out s) :
    Follows epoch sent (past ++ [f]) (out ++ (s.feed f).1) (s.feed f).2 := by
  obtain ⟨hd, hk, st, hs⟩ := h
  have hmem : ∀ g ∈ past ++ [f], g ∈ sent := fun g hg => hperm.mem_iff.mp (hpre.subset hg)
  have hpast : ∀ g ∈ past, g ∈ sent := fun g hg => hmem g (by simp [hg])
  have hf : f ∈ sent := hmem f (by simp)
  have hnew : f ∉ past := by
    have hnd := hpre.sublist.nodup (hperm.nodup_iff.mpr hn.nodup)
    rw [List.nodup_append] at hnd
    exact fun hm => hnd.2.2 f hm f (by simp) rfl
  have hroom : st.next < f.sseq → st.buffered < reorderMax := by
    apply buffered_lt hn hd hk hpast hf hnew _ st hs
    rw [List.prefix_iff_eq_take.mp hpre]
    exact hwait _
  have he : st.epoch = epoch := by
    simp only [Delivered, hs] at hd
    exact hd.1
  exact ⟨hd.current hn hf (hopen f hf) hs, hk.current hn he hpast hf (hopen f hf) hs hroom,
    Slot.feed_keeps_state hs⟩

theorem run_return (hn : Numbered (sid, true) epoch sent) (hopen : ∀ f ∈ sent, f.ftype ≠ .open)
    (arrived : List (Frame α)) (hperm : arrived.Perm sent)
    (hwait : ∀ n, (waitingFrames sent (arrived.take n)).length ≤ reorderMax) :
    (Transducer.run Slot.feed Slot.empty arrived).1.flatten = sent ↔
    arrived.head? = sent.head? := by
  cases arrived with
  | nil =>
      obtain rfl := hperm.nil_eq
      simp
  | cons f rest =>
      have hf : f ∈ sent := hperm.mem_iff.mp (by simp)
      rw [Transducer.run_cons, feed_first hn hf (hopen f hf), List.flatten_cons]
      constructor
      · intro h
        rw [← h]
        rfl
      · intro hhead
        have hstep (past : List (Frame α)) (g : Frame α) (out : List (Frame α)) (s : Slot α)
            (hpre : past ++ [g] <+: rest) (h : Follows epoch sent (f :: past) (f :: out) s) :
            Follows epoch sent (f :: (past ++ [g])) (f :: (out ++ (s.feed g).1)) (s.feed g).2 :=
          h.arrive hn hopen hperm hwait ((List.prefix_cons_inj f).mpr hpre)
        obtain ⟨hd, hk, st, hs⟩ := Transducer.run_history
          (fun past out s => Follows epoch sent (f :: past) (f :: out) s) rest hstep _
            (follows_first hn hhead.symm)
        exact hk.complete hn hd hperm hs

end Machine

theorem dirAcceptor_newAcceptor {α : Type} (reliable : Bool) (tx : SidTx) (c : Call α) :
    (numbered (MuxEncoder.newAcceptor reliable) tx c).dirAcceptor = true := by
  have hor (x : UInt8) : (x ||| flagDirAccept) &&& flagDirAccept ≠ 0 := by
    intro h
    have hn := congrArg UInt8.toNat h
    rw [UInt8.toNat_and, UInt8.toNat_or, Nat.and_or_distrib_right, Nat.and_self] at hn
    have hle : flagDirAccept.toNat ≤ x.toNat &&& flagDirAccept.toNat ||| flagDirAccept.toNat :=
      Nat.right_le_or
    rw [hn] at hle
    exact absurd hle (by decide)
  simpa [Frame.dirAcceptor, numbered, headerFlags, MuxEncoder.newAcceptor] using hor _

def returnedFrames (sid : UInt16) (msgs : List Bytes) : List (Frame Bytes) :=
  (feedAll MuxDecoder.new msgs).1.filter (ofSession sid)

/-- Return direction: what comes back in the end is what was sent, in order, exactly when the first
frame to arrive is the first one sent. -/
theorem return_in_order_iff_first (reliable : Bool) (calls : List (Call Bytes)) (msgs : List Bytes)
    (enc' : MuxEncoder)
    (henc : encodeAll (MuxEncoder.newAcceptor reliable) calls = some (msgs, enc')) (sid : UInt16)
    (hopen : ∀ c ∈ calls, c.ofSession sid = true → c.ftype ≠ .open)
    (hlen : (calls.filter (Call.ofSession sid)).length ≤ 2 ^ 24 - 1) (arrivals : List Bytes)
    (hperm : (sentFrames sid arrivals).Perm (sentFrames sid msgs))
    (hwait : ∀ n, (waitingFrames (sentFrames sid msgs) ((sentFrames sid arrivals).take n)).length ≤
      reorderMax) :
    returnedFrames sid arrivals = sentFrames sid msgs ↔
      (sentFrames sid arrivals).head? = (sentFrames sid msgs).head? := by
  have hsent : ∃ epoch, Numbered (sid, true) epoch (sentFrames sid msgs) ∧
      ∀ f ∈ sentFrames sid msgs, f.ftype ≠ .open := by
    rw [sentFrames, decode_encodeAll henc]
    cases hcs : calls.filter (Call.ofSession sid) with
    | nil =>
        have hnil : (stampAll (MuxEncoder.newAcceptor reliable) calls).1.filter (ofSession sid) =
            [] := by
          rw [← List.length_eq_zero_iff, length_stampAll, hcs]
          rfl
        rw [hnil]
        exact ⟨1, ⟨by decide, by simp, by simp, by simp, by simp⟩, by simp⟩
    | cons c cs =>
        have hmem : ∀ x ∈ c :: cs, (usesSessionOrder x.ftype = true ∧ x.sessionId = sid) ∧
            x.ftype ≠ .open := by
          intro x hx
          rw [← hcs] at hx
          obtain ⟨hx, hof⟩ := List.mem_filter.mp hx
          exact ⟨Call.ofSession_iff.mp hof, hopen x hx hof⟩
        rw [hcs] at hlen
        obtain ⟨epoch, hne, hall⟩ :=
          stampAll_starts calls (MuxEncoder.newAcceptor reliable) sid c cs hcs (Or.inl rfl)
          (fun x hx => (hmem x (List.mem_cons_of_mem _ hx)).2) hlen
        rw [hall]
        refine ⟨epoch, numbered_sent hne hlen (fun x hx => (hmem x hx).1) ?_, ?_⟩
        · intro tx x _
          exact dirAcceptor_newAcceptor reliable tx x
        · intro f hf
          obtain ⟨i, x, hx, -, rfl⟩ := mem_numbered hlen hf
          exact (hmem x hx).2
  obtain ⟨epoch, hn, hno⟩ := hsent
  have hdir : ∀ f ∈ arrivals.filterMap decodeFrame, ofSession sid f = true →
      f.dirAcceptor = true := by
    intro f hf hof
    have hmem := hperm.mem_iff.mp (List.mem_filter.mpr ⟨hf, hof⟩)
    exact congrArg Prod.snd (hn.key_eq f hmem)
  rw [returnedFrames, feedAll_returns, (run_ordered sid true _ hdir _ sequenced_new).1, slotAt_new]
  exact run_return hn hno _ hperm hwait

theorem return_in_order_first_ahead :
    let calls : List (Call Bytes) := [⟨.data, 1, 0, [1]⟩, ⟨.data, 1, 0, [2]⟩, ⟨.fin, 1, 0, []⟩]
    let msgs := ((encodeAll (MuxEncoder.newAcceptor true) calls).map Prod.fst).getD []
    let arrivals := msgs.take 1 ++ (msgs.drop 1).reverse
    returnedFrames 1 arrivals = sentFrames 1 msgs ∧ arrivals ≠ msgs := by
  intro calls msgs arrivals
  refine ⟨?_, by decide⟩
  exact (return_in_order_iff_first true calls msgs _ rfl 1 (by decide) (by decide)
    arrivals (by decide) (waitingFrames_le _ _ (by decide))).mpr (by decide)

/-- Two frames that change places on the way: the second becomes the baseline, the first is dropped
as a duplicate. -/
theorem swapped_first_frame_lost :
    let calls : List (Call Bytes) := [⟨.data, 1, 0, [1]⟩, ⟨.data, 1, 0, [2]⟩]
    let msgs := ((encodeAll (MuxEncoder.newAcceptor true) calls).map Prod.fst).getD []
    (sentFrames 1 msgs.reverse).Perm (sentFrames 1 msgs) ∧
      (∀ n, (waitingFrames (sentFrames 1 msgs) ((sentFrames 1 msgs.reverse).take n)).length ≤
        reorderMax) ∧
      (returnedFrames 1 msgs.reverse).map Frame.payload = [[2]] ∧
      returnedFrames 1 msgs.reverse ≠ sentFrames 1 msgs := by
  intro calls msgs
  exact ⟨by decide, waitingFrames_le _ _ (by decide), by decide, by decide⟩

end SrtVpn.ReturnOrder
