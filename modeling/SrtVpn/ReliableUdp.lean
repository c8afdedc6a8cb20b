import SrtVpn.Connection
import SrtVpn.EarlyFrames
import SrtVpn.Runs

namespace SrtVpn.ReliableUdp

open BigEndian Wire Encoder SeqNumbers Decoder Slots SessionView SessionOrder Delivery
  EarlyFrames Connection Runs

/-- The way of a UDP session's frames from the client's encoder to the server's decoder, with what
was sent, what has arrived and what the decoder has returned since the session was allocated. -/
structure Path where
  enc : MuxEncoder
  link : Link Bytes
  dec : MuxDecoder Bytes
  calls : List (Call Bytes)
  msgs : List Bytes
  arrived : List Bytes
  returned : List (Frame Bytes)

/-- The session's own calls, where `sendUnreliable` is one chunk of the datagram, the calls of the
others, and what the sending thread and the server's reader do. -/
inductive Act
  | sendOpen (proto : UInt8) (host : Bytes) (port : UInt16)
  | sendControl (ftype : FrameType) (payload : Bytes)
  | sendUnreliable (chunk : Bytes)
  | others (c : Call Bytes) (priority : Bool)
  | runSendLoop (alive : Bool)
  | feed
  deriving DecidableEq, Repr

/-- With datagrams switched off every message is a reliable one, whichever queue it is put in. -/
def Path.send (p : Path) (c : Call Bytes) (priority : Bool) : Option Path :=
  (encodeFrame p.enc c).map fun (msg, enc) =>
    { p with
      enc := enc
      link := p.link.sendItemTo priority ⟨msg, true⟩
      calls := p.calls ++ [c]
      msgs := p.msgs ++ [msg] }

def Path.session (p : Path) (sid : UInt16) : List (Call Bytes) :=
  p.calls.filter (Call.ofSession sid)

def step (sid : UInt16) (p : Path) : Act → Option Path
  | .sendOpen proto host port =>
      if p.session sid = [] then p.send (Session.sendOpen sid proto host port) false else none
  | .sendControl ftype payload =>
      if p.session sid ≠ [] ∧ ftype ≠ .open then
        p.send (Session.sendControl sid ftype payload) false
      else none
  | .sendUnreliable chunk => if p.session sid ≠ [] then p.send ⟨.data, sid, 0, chunk⟩ true else none
  | .others c priority => if c.ofSession sid then none else p.send c priority
  | .runSendLoop alive => some { p with link := p.link.runSendLoop alive }
  | .feed =>
      match p.link.wire with
      | [] => none
      | m :: wire => some { p with
          link := { p.link with wire := wire }
          dec := (Decoder.feed p.dec m).2
          arrived := p.arrived ++ [m]
          returned := p.returned ++ (Decoder.feed p.dec m).1 }

/-- The session's frames have come back one for one with its calls, by their numbers, the Open
first. -/
structure AllReturned (sid : UInt16) (p : Path) : Prop where
  contents : (p.returned.filter (ofSession sid)).map (fun f => (f.ftype, f.payload)) =
    (p.session sid).map fun c => (c.ftype, c.payload)
  inSequence : ∀ i (f : Frame Bytes), (p.returned.filter (ofSession sid))[i]? = some f → f.sseq = i
  opened : ∀ i (f : Frame Bytes), (p.returned.filter (ofSession sid))[i]? = some f →
    (f.ftype = .open ↔ i = 0)

def Delivers (sid : UInt16) (p : Path) : Prop :=
  p.link.rel = [] → p.link.prio = [] → p.link.wire = [] → AllReturned sid p

section Queues

variable {M : Type} {l : Link M}

def queued (l : Link M) : List M := l.rel.map SendItem.msg ++ l.prio.map SendItem.msg

/-- What the sending thread hands to the socket in its next operation. -/
def handing (l : Link M) : List M :=
  match l.pc with
  | .drain | .flush => (l.prio.take 1).map SendItem.msg
  | .wait => (l.rel.take 1).map SendItem.msg
  | .exited => []

theorem length_handing (l : Link M) : (handing l).length ≤ 1 := by
  unfold handing
  split <;> simp only [List.length_map, List.length_take, List.length_nil, Nat.min_le_left,
    Nat.zero_le]

/-- The sending thread is at work and has only reliable messages to send. -/
structure Running (l : Link M) : Prop where
  opened : l.closed = false
  pc : l.pc = .drain ∨ l.pc = .wait
  reliable : ∀ x ∈ l.rel ++ l.prio, x.reliable = true

theorem Running.send (h : Running l) (priority : Bool) (m : M) :
    Running (l.sendItemTo priority ⟨m, true⟩) ∧ (l.sendItemTo priority ⟨m, true⟩).wire = l.wire ∧
      (queued (l.sendItemTo priority ⟨m, true⟩)).Perm (queued l ++ [m]) := by
  obtain ⟨hopen, hpc, hrel⟩ := h
  cases priority with
  | false =>
      have hnext : l.sendItemTo false ⟨m, true⟩ = { l with rel := l.rel ++ [⟨m, true⟩] } := by
        simp [Link.sendItemTo, hopen]
      rw [hnext]
      refine ⟨⟨hopen, hpc, ?_⟩, rfl, ?_⟩
      · simp only [List.mem_append, List.mem_singleton] at hrel ⊢
        rintro x ((hx | rfl) | hx)
        · exact hrel x (Or.inl hx)
        · rfl
        · exact hrel x (Or.inr hx)
      · simp only [queued, List.map_append, List.append_assoc]
        apply List.Perm.append_left
        exact List.perm_append_comm
  | true =>
      have hnext : l.sendItemTo true ⟨m, true⟩ = { l with prio := l.prio ++ [⟨m, true⟩] } := by
        simp [Link.sendItemTo, hopen]
      rw [hnext]
      refine ⟨⟨hopen, hpc, ?_⟩, rfl, by simp [queued]⟩
      simp only [List.mem_append, List.mem_singleton] at hrel ⊢
      rintro x (hx | hx | rfl)
      · exact hrel x (Or.inl hx)
      · exact hrel x (Or.inr hx)
      · rfl

theorem Running.work (h : Running l) :
    Running (l.runSendLoop true) ∧ (l.runSendLoop true).wire = l.wire ++ handing l ∧
      (handing l ++ queued (l.runSendLoop true)).Perm (queued l) := by
  obtain ⟨rel, prio, closed, pc, wire, loose⟩ := l
  obtain ⟨hopen, hpc, hrel⟩ := h
  dsimp only at hopen hpc hrel
  subst hopen
  rcases hpc with rfl | rfl
  · cases prio with
    | nil => exact ⟨⟨rfl, Or.inr rfl, hrel⟩, by simp [Link.runSendLoop, handing], List.Perm.refl _⟩
    | cons x prio =>
        have hx : x.reliable = true := hrel x (by simp)
        simp only [Link.runSendLoop, Link.sendOne, hx, if_true, handing, queued]
        have hmove : (x.msg :: (rel.map SendItem.msg ++ prio.map SendItem.msg)).Perm
            (rel.map SendItem.msg ++ x.msg :: prio.map SendItem.msg) := List.perm_middle.symm
        refine ⟨⟨rfl, Or.inl rfl, fun y hy => hrel y ?_⟩, rfl, hmove⟩
        rcases List.mem_append.mp hy with hy | hy
        · exact List.mem_append_left _ hy
        · exact List.mem_append_right _ (List.mem_cons_of_mem x hy)
  · cases rel with
    | nil => exact ⟨⟨rfl, Or.inl rfl, hrel⟩, by simp [Link.runSendLoop, handing], List.Perm.refl _⟩
    | cons x rel =>
        have hx : x.reliable = true := hrel x (by simp)
        simp only [Link.runSendLoop, Link.sendOne, hx, if_true, handing, queued]
        exact ⟨⟨rfl, Or.inl rfl, fun y hy => hrel y (List.mem_cons_of_mem x hy)⟩, rfl,
          List.Perm.refl _⟩

end Queues

/-- The server's decoder holds frames that come before the Open only while it knows no earlier
session of that id. -/
def earlyRoom (d : MuxDecoder Bytes) (sid : UInt16) : Nat :=
  if (slotAt d (sid, false)).state.isNone then preopenMax else 0

/-- The session's frames handed to the socket once the sending thread has done its next
operation. -/
def Path.handedNext (p : Path) (sid : UInt16) : List (Frame Bytes) :=
  sentFrames sid (p.arrived ++ p.link.wire ++ handing p.link)

/-- The socket stays in order, the session has sequence numbers left, and what overtakes a frame
that is still queued finds room at a server that started from the given decoder. -/
def Absorbed (sid : UInt16) (d : MuxDecoder Bytes) (p : Path) : Act → Prop
  | .sendControl _ _ => (p.session sid).length < 2 ^ 24 - 1
  | .sendUnreliable _ => (p.session sid).length < 2 ^ 24 - 1
  | .runSendLoop alive => alive = true ∧ (early (p.handedNext sid)).length ≤ earlyRoom d sid ∧
      (waitingFrames (sentFrames sid p.msgs) (p.handedNext sid)).length ≤ reorderMax
  | _ => True

instance (sid : UInt16) (d : MuxDecoder Bytes) (p : Path) :
    (a : Act) → Decidable (Absorbed sid d p a)
  | .sendControl _ _ => inferInstanceAs (Decidable (_ < _))
  | .sendUnreliable _ => inferInstanceAs (Decidable (_ < _))
  | .runSendLoop _ => inferInstanceAs (Decidable (_ ∧ _ ≤ _ ∧ _ ≤ _))
  | .sendOpen _ _ _ | .others _ _ | .feed => isTrue trivial

structure Ready (sid : UInt16) (p : Path) : Prop where
  encoder : ∃ reliable hist old, encodeAll (MuxEncoder.new reliable) hist = some (old, p.enc)
  decoder : ∃ fed, p.dec = (feedAll MuxDecoder.new fed).2
  waiting : (slotAt p.dec (sid, false)).waiting = []
  running : Running p.link
  quiet : sentFrames sid (p.link.wire ++ queued p.link) = []
  log : p.calls = [] ∧ p.msgs = [] ∧ p.arrived = [] ∧ p.returned = []

section Frames

variable {sid : UInt16}

theorem sentFrames_append (sid : UInt16) (ms ms' : List Bytes) :
    sentFrames sid (ms ++ ms') = sentFrames sid ms ++ sentFrames sid ms' := by
  rw [sentFrames, List.filterMap_append, List.filter_append]
  rfl

theorem sentFrames_perm (sid : UInt16) {ms ms' : List Bytes} (h : ms.Perm ms') :
    (sentFrames sid ms).Perm (sentFrames sid ms') :=
  (h.filterMap _).filter _

theorem prefix_handed {ms ms' : List Bytes} {past : List (Frame Bytes)} (hlen : ms'.length ≤ 1)
    (h : past <+: sentFrames sid (ms ++ ms')) :
    past <+: sentFrames sid ms ∨ past = sentFrames sid (ms ++ ms') := by
  have hone : (sentFrames sid ms').length ≤ 1 :=
    calc (sentFrames sid ms').length ≤ (ms'.filterMap decodeFrame).length :=
      List.length_filter_le _ _
      _ ≤ ms'.length := List.length_filterMap_le _ _
      _ ≤ 1 := hlen
  rw [sentFrames_append] at h ⊢
  match hms : sentFrames sid ms' with
  | [] =>
      rw [hms, List.append_nil] at h
      exact Or.inl h
  | [f] =>
      rw [hms] at h
      exact (List.prefix_concat_iff.mp h).symm
  | f :: g :: fs => simp [hms] at hone

theorem waitingFrames_append {sent past more : List (Frame Bytes)} (h : ∀ f ∈ past, f ∈ sent) :
    waitingFrames (sent ++ more) past = waitingFrames sent past := by
  apply List.filter_congr
  intro f hf
  have hmem := h f hf
  rw [List.idxOf_append_of_mem hmem,
    List.take_append_of_le_length (List.idxOf_lt_length_of_mem hmem).le]

end Frames

/-- What the session has called: nothing yet, or an Open and then no other, with numbers to
spare. -/
structure Opening (cs : List (Call Bytes)) : Prop where
  first : ∀ o tail, cs = o :: tail → o.ftype = .open ∧ ∀ c ∈ tail, c.ftype ≠ .open
  flags : ∀ c ∈ cs, c.flags = 0
  length : cs.length ≤ 2 ^ 24 - 1

theorem Opening.snoc {cs : List (Call Bytes)} {c : Call Bytes} (h : Opening cs)
    (hflags : c.flags = 0) (hopen : c.ftype = .open ↔ cs = []) (hlen : cs.length < 2 ^ 24 - 1) :
    Opening (cs ++ [c]) := by
  refine ⟨?_, ?_, ?_⟩
  · intro o tail heq
    cases cs with
    | nil =>
        obtain ⟨rfl, rfl⟩ := List.cons.inj heq
        exact ⟨hopen.mpr rfl, by simp⟩
    | cons x xs =>
        obtain ⟨rfl, rfl⟩ := List.cons.inj heq
        obtain ⟨hx, hxs⟩ := h.first x xs rfl
        refine ⟨hx, fun d hd => ?_⟩
        rcases List.mem_append.mp hd with hd | hd
        · exact hxs d hd
        · rw [List.mem_singleton.mp hd]
          exact fun ho => absurd (hopen.mp ho) (by simp)
  · intro d hd
    rcases List.mem_append.mp hd with hd | hd
    · exact h.flags d hd
    · rw [List.mem_singleton.mp hd]
      exact hflags
  · rw [List.length_append, List.length_singleton]
    exact hlen

theorem encodeAll_snoc {enc enc' enc'' : MuxEncoder} {cs : List (Call Bytes)} {c : Call Bytes}
    {msgs : List Bytes} {m : Bytes} (h : encodeAll enc cs = some (msgs, enc'))
    (hc : encodeFrame enc' c = some (m, enc'')) :
    encodeAll enc (cs ++ [c]) = some (msgs ++ [m], enc'') := by
  induction cs generalizing enc msgs with
  | nil =>
      obtain ⟨rfl, rfl⟩ := Prod.mk.inj (Option.some.inj h)
      simp [encodeAll, hc]
  | cons d cs ih =>
      simp only [encodeAll, Option.bind_eq_bind, Option.bind_eq_some_iff] at h
      obtain ⟨⟨m', e⟩, hd, ⟨ms, e'⟩, hcs, heq⟩ := h
      obtain ⟨rfl, rfl⟩ := Prod.mk.inj (Option.some.inj heq)
      simp [encodeAll, hd, ih hcs]

/-- One invariant of every run: nothing is lost or made on the way, and what has been handed over
fits. -/
structure Inv (sid : UInt16) (p₀ p : Path) : Prop where
  encoded : encodeAll p₀.enc p.calls = some (p.msgs, p.enc)
  session : Opening (p.session sid)
  running : Running p.link
  kept : (p.arrived ++ p.link.wire ++ queued p.link).Perm (p₀.link.wire ++ queued p₀.link ++ p.msgs)
  fed : feedAll p₀.dec p.arrived = (p.returned, p.dec)
  early : (early (sentFrames sid (p.arrived ++ p.link.wire))).length ≤ earlyRoom p₀.dec sid
  waiting : ∀ past, past <+: sentFrames sid (p.arrived ++ p.link.wire) →
    (waitingFrames (sentFrames sid p.msgs) past).length ≤ reorderMax

variable {sid : UInt16} {p₀ p p' : Path}

theorem inv_start (h : Ready sid p) : Inv sid p p := by
  obtain ⟨hcalls, hmsgs, harr, hret⟩ := h.log
  have hquiet : sentFrames sid p.link.wire = [] := by
    have hq := h.quiet
    rw [sentFrames_append] at hq
    exact (List.append_eq_nil_iff.mp hq).1
  refine ⟨?_, ?_, h.running, ?_, ?_, ?_, ?_⟩
  · rw [hcalls, hmsgs]
    rfl
  · rw [Path.session, hcalls]
    exact ⟨by simp, by simp, by simp⟩
  · rw [harr, hmsgs]
    simp
  · rw [harr, hret]
    rfl
  · rw [harr, List.nil_append, hquiet]
    exact Nat.zero_le _
  · intro past hpast
    rw [harr, List.nil_append, hquiet, List.prefix_nil] at hpast
    rw [hpast]
    exact Nat.zero_le _

theorem Inv.handed_sent (h : Inv sid p₀ p)
    (hquiet : sentFrames sid (p₀.link.wire ++ queued p₀.link) = []) :
    (sentFrames sid (p.arrived ++ p.link.wire) ++ sentFrames sid (queued p.link)).Perm
      (sentFrames sid p.msgs) := by
  have hk := sentFrames_perm sid h.kept
  rw [sentFrames_append, sentFrames_append sid _ p.msgs, hquiet, List.nil_append] at hk
  exact hk

theorem session_send {c : Call Bytes} {priority : Bool} (hs : p.send c priority = some p') :
    p'.session sid = p.session sid ++ [c].filter (Call.ofSession sid) := by
  obtain ⟨⟨m, enc⟩, -, rfl⟩ := Option.map_eq_some_iff.mp hs
  exact List.filter_append p.calls [c]

theorem Inv.send {c : Call Bytes} {priority : Bool} (h : Inv sid p₀ p)
    (hquiet : sentFrames sid (p₀.link.wire ++ queued p₀.link) = [])
    (hs : p.send c priority = some p')
    (hopening : Opening (p'.session sid)) : Inv sid p₀ p' := by
  obtain ⟨⟨m, enc⟩, hm, rfl⟩ := Option.map_eq_some_iff.mp hs
  obtain ⟨hrun, hwire, hqueued⟩ := h.running.send priority m
  refine ⟨encodeAll_snoc h.encoded hm, hopening, hrun, ?_, h.fed, ?_, ?_⟩
  · rw [hwire]
    calc (p.arrived ++ p.link.wire ++ queued (p.link.sendItemTo priority ⟨m, true⟩)).Perm
          (p.arrived ++ p.link.wire ++ (queued p.link ++ [m])) := hqueued.append_left _
      _ = p.arrived ++ p.link.wire ++ queued p.link ++ [m] := by
        rw [List.append_assoc _ (queued p.link)]
      List.Perm _ (p₀.link.wire ++ queued p₀.link ++ p.msgs ++ [m]) := h.kept.append_right _
      _ = p₀.link.wire ++ queued p₀.link ++ (p.msgs ++ [m]) := by rw [List.append_assoc _ p.msgs]
  · rw [hwire]
    exact h.early
  · rw [hwire, sentFrames_append sid p.msgs]
    intro past hpast
    rw [waitingFrames_append]
    · exact h.waiting past hpast
    · intro f hf
      exact (h.handed_sent hquiet).subset (List.mem_append_left _ (hpast.subset hf))

theorem Inv.work (h : Inv sid p₀ p)
    (hearly : (EarlyFrames.early (p.handedNext sid)).length ≤ earlyRoom p₀.dec sid)
    (hwait : (waitingFrames (sentFrames sid p.msgs) (p.handedNext sid)).length ≤ reorderMax) :
    Inv sid p₀ { p with link := p.link.runSendLoop true } := by
  obtain ⟨hrun, hwire, hmoved⟩ := h.running.work
  rw [Path.handedNext, List.append_assoc, ← hwire] at hearly hwait
  refine ⟨h.encoded, h.session, hrun, ?_, h.fed, hearly, ?_⟩
  · have hmove :
        (p.arrived ++ p.link.wire ++ handing p.link ++ queued (p.link.runSendLoop true)).Perm
        (p.arrived ++ p.link.wire ++ queued p.link) := by
      rw [List.append_assoc _ (handing p.link)]
      exact hmoved.append_left _
    rw [hwire, ← List.append_assoc]
    exact hmove.trans h.kept
  · intro past hpast
    dsimp only at hpast ⊢
    rw [hwire, ← List.append_assoc] at hpast hwait
    rcases prefix_handed (length_handing p.link) hpast with hpast | rfl
    · exact h.waiting past hpast
    · exact hwait

theorem Inv.feed {m : Bytes} {wire : List Bytes} (h : Inv sid p₀ p) (hw : p.link.wire = m :: wire) :
    Inv sid p₀ { p with
      link := { p.link with wire := wire }
      dec := (Decoder.feed p.dec m).2
      arrived := p.arrived ++ [m]
      returned := p.returned ++ (Decoder.feed p.dec m).1 } := by
  have hmoved : p.arrived ++ [m] ++ wire = p.arrived ++ p.link.wire := by
    rw [hw, List.append_assoc, List.singleton_append]
  obtain ⟨henc, hsession, hrun, hkept, hfed, hearly, hwait⟩ := h
  rw [← hmoved] at hkept hearly hwait
  refine ⟨henc, hsession, ⟨hrun.opened, hrun.pc, hrun.reliable⟩, hkept, ?_, hearly, hwait⟩
  rw [feedAll_snoc, hfed]

/-- A slot with nothing waiting runs as a fresh one does if no earlier session has left a state
there, or if the Open comes first. -/
theorem run_as_fresh {s : Slot Bytes} {fs : List (Frame Bytes)} (hw : s.waiting = [])
    (hroom : s.state = none ∨ early fs = []) (hepoch : ∀ f ∈ fs, f.epoch ≠ 0) :
    (Transducer.run Slot.feed s fs).1 = (Transducer.run Slot.feed Slot.empty fs).1 := by
  rcases hroom with hs | hearly
  · have hempty : s = Slot.empty := by
      obtain ⟨state, waiting⟩ := s
      dsimp only at hs hw
      rw [hs, hw, Slot.empty]
    rw [hempty]
  · cases fs with
    | nil => rfl
    | cons f fs =>
        have hopen : f.ftype = .open := by
          by_contra hno
          rw [early, List.takeWhile_cons_of_pos (by simpa [isOpen] using hno)] at hearly
          simp at hearly
        have hsame : s.feed f = Slot.empty.feed f := feed_open_congr hopen (hepoch f (by simp)) hw
        rw [Transducer.run_cons, Transducer.run_cons, hsame]

theorem sentFrames_none {hist : MuxEncoder} (h : encodeAll hist p.calls = some (p.msgs, p.enc))
    (hnone : p.session sid = []) : sentFrames sid p.msgs = [] := by
  have hlen := length_stampAll p.calls hist sid
  rw [← Path.session, hnone, ← decode_encodeAll h] at hlen
  exact List.length_eq_zero_iff.mp hlen

theorem Inv.returned_run (hready : Ready sid p₀) (h : Inv sid p₀ p)
    (hdir : ∀ f ∈ sentFrames sid p.arrived, f.dirAcceptor = false) :
    p.returned.filter (ofSession sid) =
      (Transducer.run Slot.feed (slotAt p₀.dec (sid, false))
        (sentFrames sid p.arrived)).1.flatten := by
  obtain ⟨fed, hfed⟩ := hready.decoder
  have hseq : Sequenced p₀.dec := by
    rw [hfed]
    exact sequenced_feedAll fed
  have hslot := (feedAll_slot p₀.dec hseq sid p.arrived hdir).1
  rw [returnedFrom, h.fed] at hslot
  exact hslot

theorem Inv.returned_sent (hready : Ready sid p₀) (h : Inv sid p₀ p) {epoch : UInt8}
    (hg : Generation sid epoch (sentFrames sid p.msgs)) (hne : sentFrames sid p.msgs ≠ [])
    (hperm : (sentFrames sid p.arrived).Perm (sentFrames sid p.msgs)) (hwire : p.link.wire = []) :
    p.returned.filter (ofSession sid) = sentFrames sid p.msgs := by
  have hearly := h.early
  have hwait := h.waiting
  rw [hwire, List.append_nil] at hearly hwait
  have hsent : ∀ f ∈ sentFrames sid p.arrived, f ∈ sentFrames sid p.msgs :=
    fun f => hperm.mem_iff.mp
  have hroom : (slotAt p₀.dec (sid, false)).state = none ∨
      EarlyFrames.early (sentFrames sid p.arrived) = [] := by
    cases hst : (slotAt p₀.dec (sid, false)).state with
    | none => exact Or.inl rfl
    | some st =>
        right
        rw [earlyRoom, hst] at hearly
        exact List.length_eq_zero_iff.mp (Nat.le_zero.mp hearly)
  have hbound : (EarlyFrames.early (sentFrames sid p.arrived)).length ≤ preopenMax := by
    apply hearly.trans
    rw [earlyRoom]
    split
    · exact Nat.le_refl _
    · exact Nat.zero_le _
  rw [h.returned_run hready fun f hf => hg.dir (hsent f hf), run_as_fresh hready.waiting hroom]
  · exact run_complete hg hne _ hperm hbound fun n => hwait _ (List.take_prefix n _)
  · intro f hf
    rw [hg.epoch_eq f (hsent f hf)]
    exact hg.epoch_ne

theorem Inv.delivers (hready : Ready sid p₀) (h : Inv sid p₀ p) : Delivers sid p := by
  intro hrel hprio hwire
  have hperm := h.handed_sent hready.quiet
  have hqueued : sentFrames sid (queued p.link) = [] := by
    rw [queued, hrel, hprio]
    rfl
  rw [hwire, hqueued, List.append_nil, List.append_nil] at hperm
  obtain ⟨reliable, hist, old, hhist⟩ := hready.encoder
  cases hses : p.session sid with
  | nil =>
      have hnone := sentFrames_none h.encoded hses
      rw [hnone, List.perm_nil] at hperm
      have hret := h.returned_run hready (by simp [hperm])
      rw [hperm, Transducer.run_nil, List.flatten_nil] at hret
      exact ⟨by rw [hret, hses]; rfl, by simp [hret], by simp [hret]⟩
  | cons o tail =>
      obtain ⟨ho, htail⟩ := h.session.first o tail hses
      have hshape := h.session
      rw [hses] at hshape
      obtain ⟨epoch, hg, hcontent⟩ := generation_sent hhist h.encoded hses ho htail
        (fun c hc => by rw [hshape.flags c hc]; rfl) hshape.length
      have hne : sentFrames sid p.msgs ≠ [] := by
        intro hnil
        simp [hnil] at hcontent
      have hret := h.returned_sent hready hg hne hperm hwire
      refine ⟨?_, ?_, ?_⟩
      · rw [hret, hses]
        exact hcontent
      · rw [hret]
        exact hg.position
      · rw [hret]
        exact hg.opened

theorem inv_step {a : Act} (hready : Ready sid p₀) (h : Inv sid p₀ p)
    (hok : Absorbed sid p₀.dec p a) (hs : step sid p a = some p') : Inv sid p₀ p' := by
  have hown {c : Call Bytes} {priority : Bool} (hsend : p.send c priority = some p')
      (hflags : c.flags = 0) (hopen : c.ofSession sid = true →
        (c.ftype = .open ↔ p.session sid = []))
      (hlen : (p.session sid).length < 2 ^ 24 - 1) : Inv sid p₀ p' := by
    apply h.send hready.quiet hsend
    rw [session_send hsend]
    cases hc : c.ofSession sid with
    | false =>
        rw [List.filter_cons_of_neg (by simp [hc]), List.filter_nil, List.append_nil]
        exact h.session
    | true =>
        rw [List.filter_cons_of_pos hc, List.filter_nil]
        exact h.session.snoc hflags (hopen hc) hlen
  cases a with
  | sendOpen proto host port =>
      rw [step] at hs
      split at hs
      next hnone => exact hown hs rfl (fun _ => iff_of_true rfl hnone) (by rw [hnone]; decide)
      next => simp at hs
  | sendControl ftype payload =>
      rw [step] at hs
      split at hs
      next hopened => exact hown hs rfl (fun _ => iff_of_false hopened.2 hopened.1) hok
      next => simp at hs
  | sendUnreliable chunk =>
      rw [step] at hs
      split at hs
      next hopened => exact hown hs rfl (fun _ => iff_of_false (by simp) hopened) hok
      next => simp at hs
  | others c priority =>
      rw [step] at hs
      split at hs
      next => simp at hs
      next hc =>
        apply h.send hready.quiet hs
        rw [session_send hs, List.filter_cons_of_neg hc, List.filter_nil, List.append_nil]
        exact h.session
  | runSendLoop alive =>
      obtain rfl := Option.some.inj hs
      obtain ⟨rfl, hearly, hwait⟩ := hok
      exact h.work hearly hwait
  | feed =>
      rw [step] at hs
      split at hs
      next => simp at hs
      next m wire hw =>
        obtain rfl := Option.some.inj hs
        exact h.feed hw

/-- As long as what overtakes the frames left in the reliable queue finds room at the server,
everything the session sends arrives, whatever the others send and however the sending thread is
scheduled. -/
theorem reliable_udp_delivers (sid : UInt16) (p₀ : Path) (hready : Ready sid p₀) (acts : List Act)
    (hok : EachStep (step sid) (Absorbed sid p₀.dec) p₀ acts) :
    Throughout (step sid) (Delivers sid) p₀ acts := by
  have hinv : Throughout (step sid) (Inv sid p₀) p₀ acts :=
    throughout_of_eachStep (inv_start hready) (fun _ _ _ h hok hs => inv_step hready h hok hs) hok
  exact hinv.mono fun _ h => h.delivers hready

def fresh : Path := ⟨MuxEncoder.new true, Link.new, MuxDecoder.new, [], [], [], []⟩

theorem ready_fresh (sid : UInt16) : Ready sid fresh :=
  ⟨⟨true, [], [], rfl⟩, ⟨[], rfl⟩, rfl, ⟨rfl, Or.inl rfl, by simp [fresh, Link.new]⟩, rfl, rfl, rfl,
    rfl, rfl⟩

def openAny : Act := .sendOpen 1 [48, 46, 48, 46, 48, 46, 48] 0

def overtaking : List Act :=
  [openAny, .sendUnreliable [7], .runSendLoop true, .runSendLoop true, .runSendLoop true, .feed,
    .feed]

theorem reliable_udp_delivers_overtaking :
    ∃ p, exec (step 1) fresh overtaking = some p ∧ AllReturned 1 p := by
  have hrun : (exec (step 1) fresh overtaking).map (fun p =>
      (p.link.rel.length, p.link.prio.length, p.link.wire.length)) = some (0, 0, 0) := by
    decide +kernel
  obtain ⟨p, hp, hlens⟩ := Option.map_eq_some_iff.mp hrun
  simp only [Prod.mk.injEq, List.length_eq_zero_iff] at hlens
  obtain ⟨hrel, hprio, hwire⟩ := hlens
  have hall := reliable_udp_delivers 1 fresh (ready_fresh 1) overtaking (by decide +kernel)
  exact ⟨p, hp, hall overtaking (List.prefix_refl _) p hp hrel hprio hwire⟩

/-- A burst of 65 datagrams that the sending thread takes before it looks at the reliable queue
again. -/
def burst : List Act :=
  openAny :: List.replicate 65 (.sendUnreliable [7]) ++ List.replicate 67 (.runSendLoop true) ++
    List.replicate 66 .feed

/-- The last of the 65 finds the queue for frames before the Open full. -/
theorem burst_overtakes_open : Ready 1 fresh ∧ ¬ Throughout (step 1) (Delivers 1) fresh burst := by
  refine ⟨ready_fresh 1, fun h => ?_⟩
  have hrun : (exec (step 1) fresh burst).map (fun p =>
      (p.link.rel.length, p.link.prio.length, p.link.wire.length, (p.session 1).length,
        (p.returned.filter (ofSession 1)).length)) = some (0, 0, 0, 66, 65) := by
    decide +kernel
  obtain ⟨p, hp, hlens⟩ := Option.map_eq_some_iff.mp hrun
  simp only [Prod.mk.injEq, List.length_eq_zero_iff] at hlens
  obtain ⟨hrel, hprio, hwire, hsent, hret⟩ := hlens
  have hall := congrArg List.length (h burst (List.prefix_refl _) p hp hrel hprio hwire).contents
  rw [List.length_map, List.length_map, hsent, hret] at hall
  exact absurd hall (by decide)

end SrtVpn.ReliableUdp
