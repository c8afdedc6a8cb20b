import SrtVpn.SeqNumbers
import SrtVpn.Session
import SrtVpn.SessionOrder

namespace SrtVpn.Delivery

open BigEndian Wire Encoder SeqNumbers Decoder Slots SessionView SessionOrder Session

def framesOf (sid : UInt16) (msgs : List Bytes) : List (Frame Bytes) :=
  (msgs.filterMap decodeFrame).filter (bySession sid)

def sentFrames (sid : UInt16) (msgs : List Bytes) : List (Frame Bytes) :=
  (msgs.filterMap decodeFrame).filter (ofSession sid)

def returned (sid : UInt16) (msgs : List Bytes) : List (Frame Bytes) :=
  (feedAll MuxDecoder.new msgs).1.filter (bySession sid)

theorem returned_eq_slot (sid : UInt16) (dir : Bool) (msgs : List Bytes)
    (hdir : ∀ f ∈ framesOf sid msgs, f.dirAcceptor = dir) :
    returned sid msgs = (Transducer.run Slot.feed Slot.empty (framesOf sid msgs)).1.flatten := by
  rw [returned, feedAll_returns, ← slotAt_new (sid, dir)]
  refine (run_session sid dir _ (fun f hf hsid => hdir f ?_) MuxDecoder.new sorted_new).1
  exact List.mem_filter.mpr ⟨hf, by simp [bySession, hsid]⟩

section Sent

variable {enc : MuxEncoder} {epoch : UInt8} {cs : List (Call Bytes)}

theorem getElem?_numbered {i : Nat} {f : Frame Bytes} (hlen : cs.length ≤ 2 ^ 24 - 1)
    (h : (cs.mapIdx fun i c => numbered enc ⟨epoch, i⟩ c)[i]? = some f) :
    ∃ c, cs[i]? = some c ∧ i < 2 ^ 24 ∧ f = numbered enc ⟨epoch, i⟩ c := by
  rw [List.getElem?_mapIdx, Option.map_eq_some_iff] at h
  obtain ⟨c, hc, rfl⟩ := h
  obtain ⟨hlt, _⟩ := List.getElem?_eq_some_iff.mp hc
  exact ⟨c, hc, by omega, rfl⟩

theorem mem_numbered {f : Frame Bytes} (hlen : cs.length ≤ 2 ^ 24 - 1)
    (h : f ∈ cs.mapIdx fun i c => numbered enc ⟨epoch, i⟩ c) :
    ∃ i c, c ∈ cs ∧ i < 2 ^ 24 ∧ f = numbered enc ⟨epoch, i⟩ c := by
  obtain ⟨i, hi⟩ := List.mem_iff_getElem?.mp h
  obtain ⟨c, hc, hlt, rfl⟩ := getElem?_numbered hlen hi
  exact ⟨i, c, List.mem_of_getElem? hc, hlt, rfl⟩

theorem numbered_sent {sid : UInt16} {dir : Bool} (hne : epoch ≠ 0) (hlen : cs.length ≤ 2 ^ 24 - 1)
    (hcs : ∀ c ∈ cs, usesSessionOrder c.ftype = true ∧ c.sessionId = sid)
    (hdir : ∀ tx, ∀ c ∈ cs, (numbered enc tx c).dirAcceptor = dir) :
    Numbered (sid, dir) epoch (cs.mapIdx fun i c => numbered enc ⟨epoch, i⟩ c) := by
  refine ⟨hne, ?_, ?_, ?_, ?_⟩
  · intro f hf
    obtain ⟨i, c, hc, -, rfl⟩ := mem_numbered hlen hf
    exact Prod.ext (hcs c hc).2 (hdir _ c hc)
  · intro f hf
    obtain ⟨i, c, hc, hlt, rfl⟩ := mem_numbered hlen hf
    exact epoch_seqField ⟨epoch, i⟩ hlt
  · intro f hf
    obtain ⟨i, c, hc, -, rfl⟩ := mem_numbered hlen hf
    exact (hcs c hc).1
  · intro i f hi
    obtain ⟨c, -, hlt, rfl⟩ := getElem?_numbered hlen hi
    exact sseq_seqField ⟨epoch, i⟩ hlt

theorem map_numbered :
    (cs.mapIdx fun i c => numbered enc ⟨epoch, i⟩ c).map (fun f => (f.ftype, f.payload)) =
    cs.map fun c => (c.ftype, c.payload) := by
  apply List.ext_getElem?
  intro i
  simp only [List.getElem?_map, List.getElem?_mapIdx, Option.map_map]
  rfl

end Sent

theorem generation_sent {reliable : Bool} {hist calls : List (Call Bytes)} {old msgs : List Bytes}
    {enc enc' : MuxEncoder} (hhist : encodeAll (MuxEncoder.new reliable) hist = some (old, enc))
    (henc : encodeAll enc calls = some (msgs, enc')) {sid : UInt16} {o : Call Bytes}
    {tail : List (Call Bytes)}
    (hcalls : calls.filter (Call.ofSession sid) = o :: tail) (ho : o.ftype = .open)
    (hopen : ∀ c ∈ tail, c.ftype ≠ .open) (hflags : ∀ c ∈ o :: tail, c.flags &&& flagDirAccept = 0)
    (hlen : (o :: tail).length ≤ 2 ^ 24 - 1) :
    ∃ epoch, Generation sid epoch (sentFrames sid msgs) ∧
      (sentFrames sid msgs).map (fun f => (f.ftype, f.payload)) =
        (o :: tail).map fun c => (c.ftype, c.payload) := by
  obtain ⟨-, -, rfl⟩ := encodeAll_eq_some hhist
  obtain ⟨epoch, hne, hsent⟩ :=
    stampAll_starts calls (stampAll (MuxEncoder.new reliable) hist).2 sid o tail
    hcalls (Or.inr ho) hopen (by rw [List.length_cons] at hlen; exact hlen)
  rw [← decode_encodeAll henc, ← sentFrames] at hsent
  have hmem : ∀ c ∈ o :: tail, usesSessionOrder c.ftype = true ∧ c.sessionId = sid := by
    intro c hc
    rw [← hcalls] at hc
    exact Call.ofSession_iff.mp (List.of_mem_filter hc)
  have hdir : ∀ tx, ∀ c ∈ o :: tail,
      (numbered (stampAll (MuxEncoder.new reliable) hist).2 tx c).dirAcceptor = false := by
    intro tx c hc
    exact dirAcceptor_numbered reliable hist tx c (hflags c hc)
  rw [hsent]
  obtain ⟨h1, h2, h3, h4, h5⟩ := numbered_sent hne hlen hmem hdir
  refine ⟨epoch, ⟨h1, h2, h3, h4, h5, ?_⟩, map_numbered⟩
  intro i f hi
  obtain ⟨c, hc, -, rfl⟩ := getElem?_numbered hlen hi
  cases i with
  | zero =>
      obtain rfl : o = c := by simpa using hc
      simp [numbered, ho]
  | succ i =>
      have hno := hopen c (List.mem_of_getElem? (by simpa using hc))
      simp [numbered, hno]

theorem data_payloads {sent : List (Frame Bytes)} {cs : List (Call Bytes)}
    (h : sent.map (fun f => (f.ftype, f.payload)) = cs.map fun c => (c.ftype, c.payload)) :
    ((sent.filter (·.ftype = .data)).map Frame.payload).flatten =
      ((cs.filter (·.ftype = .data)).map Call.payload).flatten := by
  have h' := congrArg (fun l => ((l.filter (·.1 = FrameType.data)).map Prod.snd).flatten) h
  simpa [List.filter_map, Function.comp_def] using h'

/-- A session is delivered in order. Whatever is lost, duplicated or delayed after the Open, and
whatever arrives for other sessions, the receiver sees a prefix of what was sent; if nothing is lost
or duplicated and the bounds on waiting frames are kept, it sees all of it. -/
theorem session_delivered_in_order (reliable : Bool) (hist calls : List (Call Bytes))
    (old msgs : List Bytes) (enc enc' : MuxEncoder)
    (hhist : encodeAll (MuxEncoder.new reliable) hist = some (old, enc))
    (henc : encodeAll enc calls = some (msgs, enc'))
    (sid : UInt16) (proto : UInt8) (host : Bytes) (port : UInt16) (ops : List SessionOp)
    (hcalls : calls.filter (Call.ofSession sid) = sessionCalls sid proto host port ops)
    (hlen : (sessionCalls sid proto host port ops).length ≤ 2 ^ 24 - 1) (arrivals : List Bytes)
    (hsent : ∀ f ∈ framesOf sid arrivals, f ∈ sentFrames sid msgs)
    (honce : ((framesOf sid arrivals).filter isOpen).length ≤ 1) :
    (∀ sofar, sofar <+: arrivals → returned sid sofar <+: sentFrames sid msgs) ∧
      ((framesOf sid arrivals).Perm (sentFrames sid msgs) →
        ((framesOf sid arrivals).takeWhile (!isOpen ·)).length ≤ preopenMax →
        (∀ n, (waitingFrames (sentFrames sid msgs) ((framesOf sid arrivals).take n)).length ≤
          reorderMax) →
        returned sid arrivals = sentFrames sid msgs ∧
          (((returned sid arrivals).filter (·.ftype = .data)).map Frame.payload).flatten =
            ops.flatMap SessionOp.data) := by
  have hflags : ∀ c ∈ sessionCalls sid proto host port ops, c.flags = 0 := by
    intro c hc
    rcases List.mem_cons.mp hc with rfl | hc
    · rfl
    · obtain ⟨op, _, hop⟩ := List.mem_flatMap.mp hc
      exact (mem_calls hop).2
  have hopen : ∀ c ∈ ops.flatMap (SessionOp.calls sid), c.ftype ≠ .open := by
    intro c hc
    obtain ⟨op, _, hop⟩ := List.mem_flatMap.mp hc
    exact (mem_calls hop).1
  obtain ⟨epoch, hg, hcontent⟩ := generation_sent hhist henc hcalls rfl hopen
    (fun c hc => by rw [hflags c hc]; rfl) hlen
  have hdir : ∀ f ∈ framesOf sid arrivals, f.dirAcceptor = false := fun f hf => hg.dir (hsent f hf)
  constructor
  · intro sofar hpre
    have hsub : (framesOf sid sofar) <+: (framesOf sid arrivals) := (hpre.filterMap _).filter _
    rw [returned_eq_slot sid false sofar fun f hf => hdir f (hsub.subset hf)]
    obtain ⟨hd, -⟩ := run_delivered hg (framesOf sid sofar) (fun f hf => hsent f (hsub.subset hf))
      (Nat.le_trans (hsub.filter _).length_le honce)
    generalize Transducer.run Slot.feed Slot.empty (framesOf sid sofar) = r at hd
    cases hs : r.2.state with
    | none =>
        simp only [Delivered, hs] at hd
        simp [hd.1]
    | some st =>
        simp only [Delivered, hs] at hd
        rw [hd.2.1]
        exact List.take_prefix _ _
  · intro hperm hearly hwait
    have hne : sentFrames sid msgs ≠ [] := by
      intro hnil
      simp [hnil] at hcontent
    have hall : returned sid arrivals = sentFrames sid msgs := by
      rw [returned_eq_slot sid false arrivals hdir]
      exact run_complete hg hne _ hperm hearly hwait
    refine ⟨hall, ?_⟩
    rw [hall, data_payloads hcontent, ← data_calls sid ops]
    rfl

theorem session_delivered_in_order_reversed :
    let msgs := ((encodeAll (MuxEncoder.new true)
      (sessionCalls 1 1 [97] 80 [.batch [1, 2], .fin])).map Prod.fst).getD []
    returned 1 msgs.reverse = sentFrames 1 msgs ∧
      (((returned 1 msgs.reverse).filter (·.ftype = .data)).map Frame.payload).flatten =
        [1, 2] := by
  intro msgs
  refine (session_delivered_in_order true []
    (sessionCalls 1 1 [97] 80 [.batch [1, 2], .fin]) [] msgs (MuxEncoder.new true) _ rfl rfl 1 1
      [97] 80 [.batch [1, 2], .fin] (by decide) (by decide) msgs.reverse
    (by decide) (by decide)).2 (by decide) (by decide) ?_
  exact waitingFrames_le _ _ (by decide)

end SrtVpn.Delivery
