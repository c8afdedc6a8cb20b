import SrtVpn.Downlink
import SrtVpn.Ownership
import SrtVpn.ServerTasks
import SrtVpn.Tunnel

namespace SrtVpn.Downstream

open HalfClose (Side)
open Tables Wire Encoder SeqNumbers Decoder Dispatch Connection Transparency Endpoints ServerTasks
  Ownership Tunnel Downlink Runs

/-- What the server says in a TCP session; all of it goes by the reliable queue. -/
def spoken (f : Msg) : Bool := usesSessionOrder f.ftype || f.ftype = .rst

def about (i : Nat) (f : Msg) : Option (SessionEvent Tagged) :=
  if owner f = i then eventOf f else none

def answerOf (f : Msg) : Option Tagged := if f.ftype = .data then some f.payload else none

theorem event_of_not_spoken {f : Msg} (h : spoken f = false) (hcast : f.ftype ≠ .datagram) :
    eventOf f = none := by
  cases htype : f.ftype <;> simp_all [spoken, eventOf, usesSessionOrder]

section Followed

variable {E : Type} {live running running' : Prop} {had had' coming coming' sent : List E}

/-- A session has been given what was sent for it up to some point; while it is there the rest is
still to come, and none of it is lost while the link runs. -/
def Followed (live running : Prop) (had coming sent : List E) : Prop :=
  had <+: sent ∧ (live → ∃ lost, had ++ coming ++ lost = sent ∧ (running → lost = []))

theorem Followed.send (h : Followed live running had coming sent) (hrunning : running)
    (more : List E) : Followed live running' had (coming ++ more) (sent ++ more) := by
  refine ⟨h.1.trans (List.prefix_append _ _), fun hlive => ?_⟩
  obtain ⟨lost, heq, hlost⟩ := h.2 hlive
  rw [hlost hrunning, List.append_nil] at heq
  exact ⟨[], by rw [← heq, List.append_nil, List.append_assoc], fun _ => rfl⟩

theorem Followed.lose (h : Followed live running had coming sent) (hrunning : ¬ running')
    (more : List E) : Followed live running' had coming (sent ++ more) := by
  refine ⟨h.1.trans (List.prefix_append _ _), fun hlive => ?_⟩
  obtain ⟨lost, heq, -⟩ := h.2 hlive
  exact ⟨lost ++ more, by rw [← List.append_assoc, heq], fun hrun => absurd hrun hrunning⟩

theorem Followed.arrive {first gone : List E} (h : Followed live running had coming sent)
    (hcoming : coming = first ++ coming' ++ gone) (hrunning : running' → running)
    (hgone : running' → gone = [])
    (hlive : live → had' = had ++ first) (hdead : ¬ live → had' = had) :
    Followed live running' had' coming' sent := by
  have hrest (hl : live) : ∃ lost, had' ++ coming' ++ lost = sent ∧ (running' → lost = []) := by
    obtain ⟨lost, heq, hlost⟩ := h.2 hl
    refine ⟨gone ++ lost, ?_,
      fun hrun => by rw [hgone hrun, hlost (hrunning hrun), List.append_nil]⟩
    rw [← heq, hlive hl, hcoming]
    simp only [List.append_assoc]
  refine ⟨?_, hrest⟩
  by_cases hl : live
  · obtain ⟨lost, heq, -⟩ := hrest hl
    exact ⟨coming' ++ lost, by rw [← heq, List.append_assoc]⟩
  · rw [hdead hl]
    exact h.1

theorem Followed.mono {live' : Prop} (h : Followed live running had coming sent)
    (hlive : live' → live) : Followed live' running had coming sent :=
  ⟨h.1, fun hl => h.2 (hlive hl)⟩

end Followed

def Live (s : Sys) (i : Nat) : Prop := ∀ x, s.instances[i]? = some x → x.phase ≠ .dropped

/-- The frames under way to the client are in order, and their sessions follow them. -/
structure Flow (s : Sys) (sent : List Msg) : Prop where
  acceptor : s.serverEnc.dirAcceptor = true
  laned : Laned spoken s.down
  synced : Synced spoken s.serverEnc s.down s.clientDec
  casts : ∀ f ∈ s.down.msgs, f.ftype = .datagram → isUdp s (owner f) = true
  followed : ∀ i, isUdp s i = false → Followed (Live s i) (Running s.down) (eventsFor s.routed i)
    ((held spoken s.down).filterMap (about i)) (sent.filterMap (about i))

/-- What a step of the server has added: frames in the reliable queue, and these answers among
them. -/
def Grown (s : Sys) (sent : List Msg) (answers : List Tagged) (t : Sys) : Prop :=
  ∃ new, t.down.rel = s.down.rel ++ new ∧ t.down.closed = s.down.closed ∧
    (s.down.closed = false → (new.map SendItem.msg).filterMap answerOf = answers) ∧
    Flow t (sent ++ new.map SendItem.msg)

section Say

variable {s t u : Sys} {sent : List Msg} {c : Call Tagged}

theorem flow_start (reliable : Bool) : Flow (Endpoints.start reliable) [] := by
  refine ⟨rfl, laned_new spoken, ?_, by simp [Endpoints.start, Link.new, Link.msgs], fun i _ => ?_⟩
  · intro _
    refine ⟨fun sid => ?_, fun sid => rfl, fun sid => rfl, rfl⟩
    simp [upToDate, sidTx, Endpoints.start, MuxEncoder.newAcceptor, MuxEncoder.new, MuxDecoder.new]
  · exact ⟨List.nil_prefix, fun _ => ⟨[], rfl, fun _ => rfl⟩⟩

theorem Flow.same (h : Flow s sent) (hdown : t.down = s.down) (henc : t.serverEnc = s.serverEnc)
    (hdec : t.clientDec = s.clientDec) (hrouted : t.routed = s.routed)
    (hudp : ∀ i, isUdp s i = true → isUdp t i = true)
    (hlive : ∀ i, Live t i → Live s i) : Flow t sent := by
  refine ⟨henc ▸ h.acceptor, hdown ▸ h.laned, ?_, ?_, fun i hi => ?_⟩
  · rw [hdown, henc, hdec]
    exact h.synced
  · rw [hdown]
    exact fun f hf hcast => hudp _ (h.casts f hf hcast)
  · have hi' : isUdp s i = false := by
      by_contra hne
      rw [hudp i (by simpa using hne)] at hi
      simp at hi
    rw [hdown, hrouted]
    exact (h.followed i hi').mono (hlive i)

theorem Flow.quiet (h : Flow s sent) (hdown : t.down = s.down) (henc : t.serverEnc = s.serverEnc)
    (hdec : t.clientDec = s.clientDec) (hrouted : t.routed = s.routed)
    (hinst : t.instances = s.instances) : Flow t sent := by
  refine h.same hdown henc hdec hrouted (fun i hi => ?_) fun i hl => ?_
  · rw [isUdp, hinst]
    exact hi
  · rw [Live, hinst] at hl
    exact hl

theorem Flow.quietly (h : Flow s sent) (hdown : t.down = s.down) (henc : t.serverEnc = s.serverEnc)
    (hdec : t.clientDec = s.clientDec) (hrouted : t.routed = s.routed)
    (hinst : t.instances = s.instances) : Grown s sent [] t := by
  refine ⟨[], by rw [hdown, List.append_nil], by rw [hdown], fun _ => rfl, ?_⟩
  rw [List.map_nil, List.append_nil]
  exact h.quiet hdown henc hdec hrouted hinst

theorem Flow.grown (h : Flow t sent) (hrel : t.down.rel = s.down.rel)
    (hclosed : t.down.closed = s.down.closed) : Grown s sent [] t :=
  ⟨[], by rw [hrel, List.append_nil], hclosed, fun _ => rfl, by rw [List.map_nil, List.append_nil]; exact h⟩

theorem Grown.of_down {answers : List Tagged} (h : Grown s sent answers t)
    (hdown : u.down = s.down) : Grown u sent answers t := by
  obtain ⟨new, hrel, hclosed, hanswers, hflow⟩ := h
  exact ⟨new, by rw [hdown]; exact hrel, by rw [hdown]; exact hclosed, by rw [hdown]; exact hanswers, hflow⟩

/-- What may be sent: a frame of a session that has room for it by the reliable queue, a Datagram of
a UDP session by the priority queue, anything without a session. -/
structure Sayable (s : Sys) (priority : Bool) (c : Call Tagged) : Prop where
  flags : c.flags = 0
  fits : Fits s.serverEnc c
  way : priority = true → usesSessionOrder c.ftype = false ∧ c.ftype ≠ .rst
  cast : c.ftype = .datagram → priority = true ∧ isUdp s c.payload.1 = true

theorem rel_sendItemTo (l : Link Msg) (item : SendItem Msg) :
    (l.sendItemTo false item).rel = l.rel ++ if l.closed then [] else [item] := by
  rw [Link.sendItemTo]
  cases l.closed <;> simp

theorem Flow.serverSend (h : Flow s sent) {priority : Bool} (hc : Sayable s priority c) :
    Grown s sent (if c.ftype = .data then [c.payload] else []) (serverSend s priority c) := by
  have hflags : c.flags &&& flagDirAccept = 0 := by rw [hc.flags]; rfl
  have hclosed : (Endpoints.serverSend s priority c).down.closed = s.down.closed := by
    simp only [Endpoints.serverSend, Link.sendItemTo]
    split
    · rfl
    · split <;> rfl
  have hcasts : ∀ f ∈ (Endpoints.serverSend s priority c).down.msgs, f.ftype = .datagram →
      isUdp s (owner f) = true := by
    intro f hf hcast
    rcases mem_msgs_sendItemTo hf with rfl | hf
    · exact (hc.cast hcast).2
    · exact h.casts f hf hcast
  cases hspoken : spoken (stamp s.serverEnc c).1 with
  | true =>
      have hpriority : priority = false := by
        by_contra hp
        obtain ⟨hu, hr⟩ := hc.way (by simpa using hp)
        simp [spoken, stamp, hu, hr] at hspoken
      have hreliable : c.ftype ≠ .datagram := by
        intro hcast
        simp [spoken, stamp, hcast, usesSessionOrder] at hspoken
      subst hpriority
      have hdown : (Endpoints.serverSend s false c).down =
          s.down.sendItemTo false ⟨(stamp s.serverEnc c).1, true⟩ := by
        simp [Endpoints.serverSend, hreliable]
      refine ⟨_, by rw [hdown]; exact rel_sendItemTo _ _, hclosed, fun hopen => ?_, ?_, ?_, ?_,
        hcasts, fun i hi => ?_⟩
      · rw [if_neg (by simp [hopen])]
        by_cases hdata : c.ftype = .data <;> simp [answerOf, stamp, hdata]
      · exact (dirAcceptor_stamp _ _).trans h.acceptor
      · rw [hdown]
        exact laned_send h.laned fun _ => ⟨rfl, rfl⟩
      · rw [hdown]
        exact h.synced.send hflags hc.fits hspoken
      · have hsend := held_send (l := s.down) hspoken
        have hrouted : (Endpoints.serverSend s false c).routed = s.routed := rfl
        rw [hdown, hrouted, List.filterMap_append]
        by_cases hrun : Running s.down
        · rw [hsend.1 hrun, List.filterMap_append, if_neg (by simp [hrun.1]), List.map_singleton]
          exact (h.followed i hi).send hrun _
        · rw [hsend.2 hrun]
          exact (h.followed i hi).lose (fun hrun' => hrun ((running_send _ _).mp hrun')) _
  | false =>
      have hother : usesSessionOrder c.ftype = false ∧ c.ftype ≠ .rst := by
        cases htype : c.ftype <;> simp_all [spoken, stamp, usesSessionOrder]
      have hdata : c.ftype ≠ .data := by
        intro hdata
        simp [hdata, usesSessionOrder] at hother
      rw [if_neg hdata]
      have hflow : ∀ new : List Msg, (∀ f ∈ new, eventOf f = none) →
          Flow (Endpoints.serverSend s priority c) (sent ++ new) := by
        intro new hnew
        refine ⟨(dirAcceptor_stamp _ _).trans h.acceptor, ?_,
          h.synced.send_other hflags hother.1 hspoken, hcasts, fun i hi => ?_⟩
        · exact laned_send h.laned fun hs => absurd hs (by rw [hspoken]; simp)
        · have hnone : new.filterMap (about i) = [] := by
            rw [List.filterMap_eq_nil_iff]
            intro f hf
            simp [about, hnew f hf]
          have hheld : held spoken (Endpoints.serverSend s priority c).down = held spoken s.down :=
            held_send_other hspoken
          have hrunning : Running (Endpoints.serverSend s priority c).down ↔ Running s.down :=
            running_send _ _
          have hrouted : (Endpoints.serverSend s priority c).routed = s.routed := rfl
          rw [hheld, hrunning, hrouted, List.filterMap_append, hnone, List.append_nil]
          exact h.followed i hi
      cases priority with
      | true =>
          have hrel : (Endpoints.serverSend s true c).down.rel = s.down.rel := by
            simp only [Endpoints.serverSend, Link.sendItemTo]
            split <;> rfl
          have hsame := hflow [] (by simp)
          rw [List.append_nil] at hsame
          exact hsame.grown hrel hclosed
      | false =>
          have hcast : c.ftype ≠ .datagram := fun hcast => absurd (hc.cast hcast).1 (by simp)
          have hnone : eventOf (stamp s.serverEnc c).1 = none := event_of_not_spoken hspoken hcast
          refine ⟨_, rel_sendItemTo _ _, hclosed, fun hopen => ?_, hflow _ fun f hf => ?_⟩
          · simp [hopen, answerOf, stamp, hdata]
          · obtain ⟨x, hx, rfl⟩ := List.mem_map.mp hf
            split at hx
            · simp at hx
            · rw [List.mem_singleton.mp hx]
              exact hnone

theorem Grown.trans {answers more : List Tagged} (h : Grown s sent answers t)
    (hnext : ∀ sent', Flow t sent' → Grown t sent' more u) : Grown s sent (answers ++ more) u := by
  obtain ⟨new, hrel, hclosed, hanswers, hflow⟩ := h
  obtain ⟨new', hrel', hclosed', hmore, hflow'⟩ := hnext _ hflow
  refine ⟨new ++ new',
    by rw [hrel', hrel, List.append_assoc], hclosed'.trans hclosed, fun hopen => ?_, ?_⟩
  · rw [List.map_append, List.filterMap_append, hanswers hopen, hmore (hclosed.trans hopen)]
  · rw [List.map_append, ← List.append_assoc]
    exact hflow'

def roomOf (s : Sys) (n : Nat) : Prop := ∀ sid, (sidTx s.serverEnc sid).seq + n ≤ seqMask.toNat

theorem roomOf_serverSend {n : Nat} (h : roomOf s (n + 1)) (priority : Bool) (c : Call Tagged) :
    roomOf (serverSend s priority c) n := by
  intro sid
  have hsid := h sid
  have hle := generation_seq_le s.serverEnc c.ftype sid
  have htx : sidTx (serverSend s priority c).serverEnc sid = sidTx (stamp s.serverEnc c).2 sid :=
    rfl
  rw [htx, sidTx_stamp]
  split
  · dsimp only
    omega
  · omega

theorem sayable (priority : Bool) (h : Flow s sent) (hroom : roomOf s 1) (hflags : c.flags = 0)
    (hway : priority = true → usesSessionOrder c.ftype = false ∧ c.ftype ≠ .rst)
    (hcast : c.ftype = .datagram → priority = true ∧ isUdp s c.payload.1 = true) :
    Sayable s priority c := by
  refine ⟨hflags, fun _ _ => ⟨hroom c.sessionId, fun hopener => ?_⟩, hway, hcast⟩
  rw [h.acceptor] at hopener
  simp at hopener

theorem Flow.dispatchOneFrame {n : Nat} (h : Flow s sent) (hroom : roomOf s (n + 1)) (f : Msg) :
    Grown s sent [] (dispatchOneFrame s f) ∧ roomOf (dispatchOneFrame s f) n := by
  have hkeep (u : Sys) (hdown : u.down = s.down) (henc : u.serverEnc = s.serverEnc)
      (hdec : u.clientDec = s.clientDec) (hrouted : u.routed = s.routed)
        (hinst : u.instances = s.instances) : Grown s sent [] u ∧ roomOf u n := by
    refine ⟨h.quietly hdown henc hdec hrouted hinst, fun sid => ?_⟩
    rw [henc]
    exact Nat.le_of_succ_le (hroom sid)
  have hsay (u : Sys) (hdown : u.down = s.down) (henc : u.serverEnc = s.serverEnc)
      (hdec : u.clientDec = s.clientDec) (hrouted : u.routed = s.routed)
        (hinst : u.instances = s.instances) (c : Call Tagged) (hflags : c.flags = 0)
      (htype : c.ftype ≠ .datagram) (hdata : c.ftype ≠ .data) : Grown s sent []
        (Endpoints.serverSend u false c) ∧ roomOf (Endpoints.serverSend u false c) n := by
    have hflow := h.quiet hdown henc hdec hrouted hinst
    have hroom' : roomOf u (n + 1) := by
      rw [roomOf, henc]
      exact hroom
    have hone : roomOf u 1 := fun sid => by have := hroom' sid; omega
    have hgrown :=
      hflow.serverSend (sayable false hflow hone hflags (by simp) fun hcast => absurd hcast htype)
    rw [if_neg hdata] at hgrown
    exact ⟨hgrown.of_down hdown.symm, roomOf_serverSend hroom' false c⟩
  have hd := dispatched s f
  generalize Endpoints.dispatchOneFrame s f = t at hd ⊢
  cases hd with
  | quiet reg => exact hkeep _ rfl rfl rfl rfl rfl
  | accept reg => exact hkeep _ rfl rfl rfl rfl rfl
  | reset reg =>
      apply hsay
      all_goals first | rfl | simp
  | refuse reg =>
      apply hsay
      all_goals first | rfl | simp
  | pong reg =>
      apply hsay
      all_goals first | rfl | simp

theorem Flow.dispatchAll (out : List Msg) (h : Flow s sent) (hroom : roomOf s out.length) :
    Grown s sent [] (out.foldl Endpoints.dispatchOneFrame s) := by
  induction out generalizing s sent with
  | nil => exact h.grown rfl rfl
  | cons f out ih =>
      obtain ⟨hgrown, hrest⟩ := h.dispatchOneFrame hroom f
      exact hgrown.trans fun sent' hflow => ih hflow hrest

def burst (s : Sys) : Endpoints.Label → Nat
  | .up a =>
      match s.up.act a with
      | some (some f, _) => (feedFrame (countRx s.serverDec) f).1.length
      | _ => 0
  | .task _ _ => 1
  | .control _ _ _ => 1
  | _ => 0

theorem Flow.upStep {a : LinkAct} (h : Flow s sent) (hroom : roomOf s (burst s (.up a)))
    (hstep : Endpoints.step s (.up a) = some t) : Grown s sent [] t := by
  rcases up_cases hstep with ⟨f, link, hact, rfl⟩ | ⟨link, -, rfl⟩
  · rw [burst, hact] at hroom
    have hflow : Flow { s with
        up := link
        serverDec := (feedFrame (countRx s.serverDec) f).2
        arrived := if f.ftype = .open then s.arrived ++ [owner f] else s.arrived } sent :=
          h.quiet rfl rfl rfl rfl rfl
    exact (hflow.dispatchAll (feedFrame (countRx s.serverDec) f).1 hroom).of_down rfl
  · exact h.quietly rfl rfl rfl rfl rfl

theorem Flow.taskStep {j : Nat} {a : TaskAct} (h : Flow s sent) (hroom : roomOf s 1)
    (hallowed : allowed s (.task j a) = true) (hstep : taskAct s j a = some t) :
    Grown s sent (replied s (.task j a)) t := by
  obtain ⟨x, hx, hstep⟩ := Option.bind_eq_some_iff.mp hstep
  have hsession (ftype : FrameType) (payload : BigEndian.Bytes) (htype : ftype ≠ .datagram) :
      Grown s sent (if ftype = .data then [(x.owner, payload)] else [])
        (Endpoints.serverSend s false ⟨ftype, x.sid, 0, (x.owner, payload)⟩) :=
    h.serverSend (sayable false h hroom rfl (by simp) fun hcast => absurd hcast htype)
  cases a with
  | data payload =>
      obtain ⟨-, rfl⟩ := Option.ite_some_none_eq_some.mp hstep
      simp only [replied, hx]
      exact hsession .data payload (by simp)
  | fin =>
      obtain ⟨-, rfl⟩ := Option.ite_some_none_eq_some.mp hstep
      exact hsession .fin [] (by simp)
  | datagram payload =>
      obtain ⟨-, rfl⟩ := Option.ite_some_none_eq_some.mp hstep
      have hudp : isUdp s x.owner = true := by simpa [allowed, hx] using hallowed
      exact h.serverSend (sayable true h hroom rfl (fun _ => ⟨rfl, by simp⟩) fun _ => ⟨rfl, hudp⟩)
  | drop session =>
      obtain ⟨-, rfl⟩ := Option.ite_some_none_eq_some.mp hstep
      exact h.quietly rfl rfl rfl rfl rfl
  | notify =>
      obtain ⟨-, rfl⟩ := Option.ite_some_none_eq_some.mp hstep
      obtain ⟨new, hrel, hclosed, hanswers, hflow⟩ := hsession .close [] (by simp)
      exact ⟨new, hrel, hclosed, hanswers, hflow.quiet rfl rfl rfl rfl rfl⟩
  | cleanup =>
      obtain ⟨-, rfl⟩ := Option.ite_some_none_eq_some.mp hstep
      exact h.quietly rfl rfl rfl rfl rfl

theorem Flow.controlStep {priority : Bool} {ftype : FrameType} {payload : BigEndian.Bytes}
    (h : Flow s sent) (hroom : roomOf s 1)
    (hstep : Endpoints.step s (.control priority ftype payload) = some t) : Grown s sent [] t := by
  obtain ⟨hcontrol, rfl⟩ := Option.ite_some_none_eq_some.mp hstep
  obtain ⟨hdata, hdatagram, -⟩ := isControl_ne hcontrol
  have hother : usesSessionOrder ftype = false ∧ ftype ≠ .rst := by
    cases ftype <;> simp_all [isControl, usesSessionOrder]
  have hgrown :=
    h.serverSend (sayable priority h hroom (c := ⟨ftype, 0, 0, (0, payload)⟩) rfl (fun _ => hother)
    fun hcast => absurd hcast hdatagram)
  rw [if_neg hdata] at hgrown
  exact hgrown

end Say

section Hear

variable {s t : Sys} {sent : List Msg} {f : Msg} {i : Nat}

/-- The channel of an instance is read until the instance is dropped. -/
def Attached (s : Sys) : Prop :=
  ∀ (i : Nat) (x : Instance), s.instances[i]? = some x → ∃ ch, s.clientReg.channels[i]? = some ch ∧
  (ch.receiver = true ↔ x.phase ≠ .dropped)

theorem attached_start (reliable : Bool) : Attached (Endpoints.start reliable) := by
  intro i x hx
  simp [Endpoints.start] at hx

theorem Attached.setPhase {x : Instance} {p : Phase} (h : Attached s)
    (hx : s.instances[i]? = some x) (hphase : x.phase ≠ .dropped)
    (hp : p ≠ .dropped) : Attached (setPhase s i p) := by
  intro k y hy
  rcases getElem?_setPhase hy with ⟨rfl, rfl, z, hz, -⟩ | ⟨-, hy⟩
  · obtain rfl := Option.some.inj (hx.symm.trans hz)
    obtain ⟨ch, hch, hreceiver⟩ := h i x hx
    exact ⟨ch, hch, fun _ => hp, fun _ => hreceiver.mpr hphase⟩
  · exact h k y hy

theorem channel_remove (reg : SessionRegistry Tagged) (sid : UInt16) {k : Nat} {ch : Channel Tagged}
    (h : reg.channels[k]? = some ch) :
    ∃ ch', (reg.remove sid).channels[k]? = some ch' ∧ ch'.receiver = ch.receiver := by
  rw [SessionRegistry.remove]
  split
  next c _ =>
    simp only [List.getElem?_modify, h]
    refine ⟨_, rfl, ?_⟩
    split <;> rfl
  next => exact ⟨ch, h, rfl⟩

theorem Attached.drop (h : Attached s) (sid : UInt16) :
    Attached (Endpoints.setPhase { s with clientReg := dropReceiver (s.clientReg.remove sid) i }
      i .dropped) := by
  intro k y hy
  rcases getElem?_setPhase hy with ⟨rfl, hdropped, z, hz, -⟩ | ⟨hik, hy⟩
  · obtain ⟨ch, hch, -⟩ := h i z hz
    obtain ⟨ch', hch', -⟩ := channel_remove s.clientReg sid hch
    refine ⟨ch'.dropReceiver, ?_, fun hr => ?_, fun hlive => absurd hdropped hlive⟩
    · simp [Endpoints.setPhase, dropReceiver, hch']
    · simp [Channel.dropReceiver] at hr
  · obtain ⟨ch, hch, hreceiver⟩ := h k y hy
    obtain ⟨ch', hch', heq⟩ := channel_remove s.clientReg sid hch
    refine ⟨ch', ?_, by rw [heq]; exact hreceiver⟩
    simp [Endpoints.setPhase, dropReceiver, hik, hch']

theorem Attached.clientAct {a : ClientAct} (h : Attached s)
    (hlength : s.clientReg.channels.length = s.instances.length)
    (hact : clientAct s a = some t) : Attached t := by
  cases acted hact with
  | allocated udp sid c reg halloc =>
      obtain ⟨-, -, hchannels⟩ := SessionRegistry.allocate_eq_some halloc
      intro k y hy
      simp only [hchannels]
      rw [List.getElem?_append] at hy ⊢
      split at hy
      next hk =>
        rw [if_pos (hlength ▸ hk)]
        exact h k y hy
      next hk =>
        rw [if_neg (hlength ▸ hk), hlength]
        have hlt := (List.getElem?_eq_some_iff.mp hy).1
        obtain rfl := List.mem_singleton.mp (List.mem_of_getElem? hy)
        have hzero : k - s.instances.length = 0 := by simpa using hlt
        exact ⟨Channel.new, by rw [hzero]; rfl, by simp [Channel.new]⟩
  | exhausted udp reg halloc =>
      obtain ⟨-, hchannels⟩ := SessionRegistry.allocate_eq_none halloc
      intro k y hy
      simp only [hchannels]
      exact h k y hy
  | opened a i x payload hx hphase =>
      have hsent : Attached (clientSend s false ⟨.open, x.sid, 0, (i, payload)⟩) := h
      exact hsent.setPhase hx (by simp [hphase]) (by simp)
  | closed a i x hx hlive =>
      have hsent : Attached (clientSend s false ⟨.close, x.sid, 0, (i, [])⟩) := h
      exact hsent.setPhase hx hlive (by simp)
  | dropped a i x hx hlive => exact h.drop x.sid
  | sent a i x ftype payload hx hphase htype => exact h
  | cast a i x payload hx hphase => exact h
  | controlled a priority ftype payload hcontrol => exact h

theorem Attached.clientDispatch (h : Attached s) (f : Msg) : Attached (clientDispatch s f) := by
  intro k y hy
  obtain ⟨ch, hch, hreceiver⟩ := h k y hy
  have hlt : k < (dispatchFrame f s.clientReg).2.channels.length := by
    rw [length_dispatchFrame]
    exact (List.getElem?_eq_some_iff.mp hch).1
  have hch' := List.getElem?_eq_getElem hlt
  refine ⟨_, hch', ?_⟩
  rcases channel_dispatchFrame hch' with ⟨hsame, -⟩ | ⟨e, ch₀, -, -, hch₀, -, heq⟩
  · obtain rfl := Option.some.inj (hch.symm.trans hsame)
    exact hreceiver
  · obtain rfl := Option.some.inj (hch.symm.trans hch₀)
    rw [heq]
    exact hreceiver

theorem Attached.of_clientSide (h : Attached s) (heq : clientSide t = clientSide s) :
    Attached t := by
  simp only [clientSide, Prod.mk.injEq] at heq
  rw [Attached, heq.1, heq.2.1]
  exact h

theorem landing_eq {e : SessionEvent Tagged} (howned : Owned s) (hattached : Attached s)
    (hf : InDown s f) (he : eventOf f = some e) :
    (Live s (owner f) → landing s.clientReg f = some (owner f)) ∧
    (¬ Live s (owner f) → landing s.clientReg f = none) := by
  have hlatest := howned.sent.down f hf (by simp [Lands, he])
  obtain ⟨x, hx, hsid⟩ : ∃ x, s.instances[owner f]? = some x ∧ x.sid = f.sessionId := by
    have hmine := hlatest.1
    rw [sids, List.getElem?_map] at hmine
    obtain ⟨x, hx, hsid⟩ := Option.map_eq_some_iff.mp hmine
    exact ⟨x, hx, hsid⟩
  obtain ⟨ch, hch, hreceiver⟩ := hattached _ x hx
  rw [landing_some he]
  constructor
  · intro hlive
    have hfind := howned.live _ x hx (hlive x hx)
    rw [hsid] at hfind
    rw [if_pos, hfind]
    simp [SessionRegistry.route, hfind, hch, Channel.send, hreceiver.mpr (hlive x hx)]
  · intro hgone
    have hdropped : x.phase = .dropped := by
      by_contra hphase
      refine hgone fun y hy => ?_
      obtain rfl := Option.some.inj (hx.symm.trans hy)
      exact hphase
    cases hfind : find s.clientReg.sessions f.sessionId with
    | none => simp
    | some c =>
        obtain rfl : owner f = c := hlatest.unique (howned.registered _ c hfind)
        have hoff : ch.receiver = false := by
          by_contra hon
          exact hreceiver.mp (by simpa using hon) hdropped
        simp [SessionRegistry.route, hfind, hch, Channel.send, hoff]

theorem clientRecv_of_feedFrame (h : (feedFrame (countRx s.clientDec) f).1 = [f]) :
    clientRecv s f = Endpoints.clientDispatch
      { s with clientDec := (feedFrame (countRx s.clientDec) f).2 } f := by
  rw [clientRecv]
  generalize feedFrame (countRx s.clientDec) f = r at h ⊢
  obtain ⟨out, dec⟩ := r
  obtain rfl : out = [f] := h
  rfl

theorem heard (howned : Owned s) (hattached : Attached s) (hf : InDown s f)
    (hcast : f.ftype = .datagram → owner f ≠ i) :
    (Live s i → eventsFor (s.routed ++ (landing s.clientReg f).toList.map fun c => (c, f)) i =
        eventsFor s.routed i ++ ((some f).toList.filter spoken).filterMap (about i)) ∧
      (¬ Live s i → eventsFor (s.routed ++ (landing s.clientReg f).toList.map fun c => (c, f)) i =
        eventsFor s.routed i) := by
  cases he : eventOf f with
  | none =>
      have hnowhere : landing s.clientReg f = none := by simp [landing, he]
      have hnothing : ((some f).toList.filter spoken).filterMap (about i) = [] := by
        cases hspoken : spoken f <;> simp [about, he, hspoken]
      rw [hnowhere, hnothing]
      simp
  | some e =>
      obtain ⟨hlive, hdead⟩ := landing_eq howned hattached hf he
      by_cases hmine : owner f = i
      · subst hmine
        have hspoken : spoken f = true := by
          by_contra hs
          simp [event_of_not_spoken (by simpa using hs) fun h => hcast h rfl] at he
        constructor
        · intro hl
          rw [hlive hl]
          simp [eventsFor_append he, about, he, hspoken]
        · intro hd
          rw [hdead hd]
          simp
      · have hnothing : ((some f).toList.filter spoken).filterMap (about i) = [] := by
          cases hspoken : spoken f <;> simp [about, hmine, hspoken]
        have hother : eventsFor (s.routed ++ (landing s.clientReg f).toList.map fun c => (c, f)) i =
            eventsFor s.routed i := by
          by_cases hl : Live s (owner f)
          · rw [hlive hl]
            simp [eventsFor_append he, hmine]
          · rw [hdead hl]
            simp
        rw [hother, hnothing, List.append_nil]
        exact ⟨fun _ => rfl, fun _ => rfl⟩

theorem Flow.downStep {a : LinkAct} (h : Flow s sent) (howned : Owned s) (hattached : Attached s)
    (hstep : Endpoints.step s (.down a) = some t) :
    Flow t sent ∧ Attached t ∧ ∃ more, t.routed = s.routed ++ more := by
  rcases down_cases hstep with ⟨f, link, hact, rfl⟩ | ⟨link, hact, rfl⟩
  · have hpassed := passed_act h.laned hact
    have hmem := (mem_msgs_act hact).2 f rfl
    have hfed : (feedFrame (countRx s.clientDec) f).1 = [f] ∧
        Synced spoken s.serverEnc link (feedFrame (countRx s.clientDec) f).2 := by
      cases hspoken : spoken f with
      | true => exact h.synced.arrive h.laned hact hspoken
      | false =>
          have hu : usesSessionOrder f.ftype = false := by
            cases htype : f.ftype <;> simp_all [spoken, usesSessionOrder]
          rw [feedFrame_unordered _ hu]
          refine ⟨rfl, h.synced.other h.laned hact (fun g hg => ?_) _⟩
          obtain rfl := Option.some.inj hg
          exact hspoken
    rw [clientRecv_of_feedFrame (s := { s with down := link }) hfed.1]
    have hrouted :
        (Endpoints.clientDispatch
          { s with down := link, clientDec := (feedFrame (countRx s.clientDec) f).2 } f).routed =
        s.routed ++ (landing s.clientReg f).toList.map fun c => (c, f) := rfl
    refine ⟨⟨h.acceptor, hpassed.laned, hfed.2, fun g hg => h.casts g ((mem_msgs_act hact).1 g hg),
      fun i (hi : isUdp s i = false) => ?_⟩,
      Attached.clientDispatch
        (s := { s with down := link, clientDec := (feedFrame (countRx s.clientDec) f).2 })
          hattached f, _, hrouted⟩
    obtain ⟨lost, hheld, hlost⟩ := hpassed.held
    have hcoming : (held spoken s.down).filterMap (about i) =
        ((some f).toList.filter spoken).filterMap (about i) ++
          (held spoken link).filterMap (about i) ++ lost.filterMap (about i) := by
      rw [hheld, List.filterMap_append, List.filterMap_append]
    have hcast (htype : f.ftype = .datagram) : owner f ≠ i := by
      rintro rfl
      rw [h.casts f hmem htype] at hi
      simp at hi
    obtain ⟨hlive, hdead⟩ := heard howned hattached (.inl hmem) hcast
    rw [hrouted]
    exact (h.followed i hi).arrive hcoming hpassed.running
      (fun hrun => by rw [hlost hrun, List.filterMap_nil]) hlive hdead
  · have hpassed := passed_act h.laned hact
    refine ⟨⟨h.acceptor, hpassed.laned, h.synced.other h.laned hact (by simp) s.clientDec.rxFrames,
      ?_, fun i hi => ?_⟩, hattached, [], (List.append_nil _).symm⟩
    · exact fun g hg => h.casts g ((mem_msgs_act hact).1 g hg)
    · obtain ⟨lost, hheld, hlost⟩ := hpassed.held
      have hcoming : (held spoken s.down).filterMap (about i) =
          [] ++ (held spoken link).filterMap (about i) ++ lost.filterMap (about i) := by
        rw [hheld, List.filterMap_append, List.filterMap_append]
        rfl
      exact (h.followed i hi).arrive hcoming hpassed.running
        (fun hrun => by rw [hlost hrun, List.filterMap_nil])
          (fun _ => (List.append_nil _).symm) fun _ => rfl

end Hear

section Run

variable {s t : Sys} {sent : List Msg} {i : Nat}

theorem isUdp_setPhase (s : Sys) (i : Nat) (p : Phase) (k : Nat) :
    isUdp (setPhase s i p) k = isUdp s k := by
  rw [isUdp, isUdp, setPhase, List.getElem?_modify]
  by_cases hik : i = k
  · cases s.instances[k]? <;> simp [hik]
  · cases s.instances[k]? <;> simp [hik]

theorem live_of_setPhase {x : Instance} {p : Phase} {k : Nat} (hx : s.instances[i]? = some x)
    (hphase : x.phase ≠ .dropped) (h : Live (setPhase s i p) k) : Live s k := by
  intro y hy
  by_cases hik : i = k
  · subst hik
    obtain rfl := Option.some.inj (hx.symm.trans hy)
    exact hphase
  · exact h y (by simp [setPhase, hik, hy])

theorem Flow.clientStep {a : ClientAct} (h : Flow s sent) (hact : clientAct s a = some t) :
    Flow t sent ∧ t.down = s.down ∧ t.routed = s.routed := by
  have hphase (u : Sys) (i : Nat) (x : Instance) (p : Phase) (hx : s.instances[i]? = some x)
      (hlive : x.phase ≠ .dropped) (hu : Flow u sent) (hinst : u.instances = s.instances) :
        Flow (setPhase u i p) sent := by
    refine hu.same rfl rfl rfl rfl (fun k hk => by rw [isUdp_setPhase]; exact hk) fun k hk => ?_
    exact live_of_setPhase (by rw [hinst]; exact hx) hlive hk
  cases acted hact with
  | allocated udp sid c reg halloc =>
      refine ⟨h.same rfl rfl rfl rfl (fun k hk => ?_) (fun k hk y hy => ?_), rfl, rfl⟩
      · rw [isUdp] at hk ⊢
        cases hy : s.instances[k]? with
        | none => simp [hy] at hk
        | some y =>
            rw [List.getElem?_append_left (List.getElem?_eq_some_iff.mp hy).1]
            exact hk
      · apply hk y
        rw [List.getElem?_append_left (List.getElem?_eq_some_iff.mp hy).1]
        exact hy
  | exhausted udp reg halloc => exact ⟨h.quiet rfl rfl rfl rfl rfl, rfl, rfl⟩
  | opened a i x payload hx hal =>
      exact ⟨hphase _ i x .opened hx (by simp [hal]) (h.quiet rfl rfl rfl rfl rfl) rfl, rfl, rfl⟩
  | closed a i x hx hlive =>
      exact ⟨hphase _ i x .closed hx hlive (h.quiet rfl rfl rfl rfl rfl) rfl, rfl, rfl⟩
  | dropped a i x hx hlive =>
      exact ⟨hphase _ i x .dropped hx hlive (h.quiet rfl rfl rfl rfl rfl) rfl, rfl, rfl⟩
  | sent a i x ftype payload hx hal htype => exact ⟨h.quiet rfl rfl rfl rfl rfl, rfl, rfl⟩
  | cast a i x payload hx hal => exact ⟨h.quiet rfl rfl rfl rfl rfl, rfl, rfl⟩
  | controlled a priority ftype payload hcontrol => exact ⟨h.quiet rfl rfl rfl rfl rfl, rfl, rfl⟩

def queuedBy (s t : Sys) : List Msg := (t.down.rel.drop s.down.rel.length).map SendItem.msg

/-- What the server sends and what comes of it, over one step. -/
structure Advanced (s : Sys) (sent : List Msg) (answers : List Tagged) (t : Sys) : Prop where
  flow : Flow t (sent ++ queuedBy s t)
  attached : Attached t
  routed : ∃ more, t.routed = s.routed ++ more
  answers : t.down.closed = false →
    s.down.closed = false ∧ (queuedBy s t).filterMap answerOf = answers

theorem Grown.advanced {answers : List Tagged} (h : Grown s sent answers t) (hattached : Attached t)
    (hrouted : t.routed = s.routed) : Advanced s sent answers t := by
  obtain ⟨new, hrel, hclosed, hanswers, hflow⟩ := h
  have hqueued : queuedBy s t = new.map SendItem.msg := by rw [queuedBy, hrel, List.drop_left]
  refine ⟨hqueued ▸ hflow, hattached, ⟨[], by rw [hrouted, List.append_nil]⟩, fun hopen => ?_⟩
  rw [hclosed] at hopen
  rw [hqueued]
  exact ⟨hopen, hanswers hopen⟩

theorem rel_act {l l' : Link Msg} {a : LinkAct} {out : Option Msg}
    (hact : l.act a = some (out, l')) :
    l'.rel.length ≤ l.rel.length ∧ (l'.closed = false → l.closed = false) := by
  have hsend (l₀ : Link Msg) (item : SendItem Msg) :
      (Link.sendOne l₀ item).rel = l₀.rel ∧ (Link.sendOne l₀ item).closed = l₀.closed := by
    rw [Link.sendOne]
    split <;> exact ⟨rfl, rfl⟩
  cases a with
  | work alive =>
      obtain ⟨rfl, rfl⟩ := Prod.mk.inj (Option.some.inj hact)
      rw [Link.runSendLoop]
      split
      · split
        · split <;> simp [hsend]
        · simp
      · split
        next item rel hrel => split <;> simp [hsend, hrel]
        next => simp
      · split
        · split <;> simp [hsend]
        · simp
      · simp
  | deliver =>
      simp only [Link.act] at hact
      split at hact
      · obtain ⟨rfl, rfl⟩ := Prod.mk.inj (Option.some.inj hact)
        simp
      · simp at hact
  | deliverLoose k =>
      obtain ⟨m, -, heq⟩ := Option.map_eq_some_iff.mp hact
      obtain ⟨rfl, rfl⟩ := Prod.mk.inj heq
      simp
  | lose k =>
      obtain ⟨-, heq⟩ := Option.ite_none_right_eq_some.mp hact
      obtain ⟨rfl, rfl⟩ := Prod.mk.inj (Option.some.inj heq)
      simp
  | close =>
      obtain ⟨rfl, rfl⟩ := Prod.mk.inj (Option.some.inj hact)
      simp

theorem down_clientRecv (s : Sys) (f : Msg) : (clientRecv s f).down = s.down := by
  apply clientRecv_induction (P := fun u => u.down = s.down) rfl
  exact fun u hu g _ => hu

theorem down_downStep {a : LinkAct} (hstep : Endpoints.step s (.down a) = some t) :
    t.down.rel.length ≤ s.down.rel.length ∧ (t.down.closed = false → s.down.closed = false) := by
  rcases down_cases hstep with ⟨f, link, hact, rfl⟩ | ⟨link, hact, rfl⟩
  · rw [down_clientRecv]
    exact rel_act hact
  · exact rel_act hact

theorem Flow.sysStep {l : Endpoints.Label} (h : Flow s sent) (howned : Owned s)
    (hattached : Attached s) (hroom : roomOf s (burst s l)) (hallowed : allowed s l = true)
    (hstep : Endpoints.step s l = some t) : Advanced s sent (replied s l) t := by
  cases l with
  | client a =>
      obtain ⟨hflow, hdown, hrouted⟩ := h.clientStep hstep
      have hgrown : Grown s sent [] t := hflow.grown (by rw [hdown]) (by rw [hdown])
      exact hgrown.advanced (hattached.clientAct howned.channels hstep) hrouted
  | up a =>
      have hside : clientSide t = clientSide s := by
        rcases up_cases hstep with ⟨f, link, -, rfl⟩ | ⟨link, -, rfl⟩
        · exact clientSide_serverRecv _ f
        · rfl
      exact (h.upStep hroom hstep).advanced (hattached.of_clientSide hside)
        (congrArg (fun p => p.2.2) hside)
  | task j a =>
      have hside := clientSide_taskAct hstep
      exact (h.taskStep hroom hallowed hstep).advanced (hattached.of_clientSide hside)
        (congrArg (fun p => p.2.2) hside)
  | control priority ftype payload =>
      have hgrown := h.controlStep hroom hstep
      obtain ⟨-, rfl⟩ := Option.ite_some_none_eq_some.mp hstep
      exact hgrown.advanced hattached rfl
  | down a =>
      obtain ⟨hflow, hattached', hrouted⟩ := h.downStep howned hattached hstep
      obtain ⟨hlength, hclosed⟩ := down_downStep hstep
      have hnone : queuedBy s t = [] := by
        rw [queuedBy, List.drop_eq_nil_of_le hlength, List.map_nil]
      refine ⟨?_, hattached', hrouted, fun hopen => ⟨hclosed hopen, by rw [hnone]; rfl⟩⟩
      rw [hnone, List.append_nil]
      exact hflow

end Run

section Watch

/-- The tunnel, with a record of the frames the server has put into its reliable queue. -/
structure Watch where
  net : Net
  sent : List Msg

def watch (w : Watch) (l : Tunnel.Label) : Option Watch :=
  (Tunnel.step w.net l).map fun t => ⟨t, w.sent ++ queuedBy w.net.sys t.sys⟩

def Watch.start (reliable : Bool) : Watch := ⟨Tunnel.start reliable, []⟩

/-- The client gives out an id only after all of its earlier sessions has passed, and what a step
can make the server send has room in the sequence space of every id. -/
def Unhurried (w : Watch) : Tunnel.Label → Prop
  | .sys l => Patient w.net.sys l ∧ roomOf w.net.sys (burst w.net.sys l)
  | _ => True

/-- The loops of the client write the Data their channels begin with; the channel of a TCP session
has what was sent for it, in order, up to some point, and all of it once it has arrived over a
running link to a session that is still there. -/
structure Faithful (w : Watch) : Prop where
  answers : w.net.sys.down.closed = false → w.sent.filterMap answerOf = w.net.replies
  written : ∀ i, (w.net.workers .client i).writes.map .data <+: queueOf w.net.sys.clientReg i
  in_order : ∀ i, isUdp w.net.sys i = false →
    queueOf w.net.sys.clientReg i <+: w.sent.filterMap (about i)
  complete : ∀ i x, w.net.sys.instances[i]? = some x → x.udp = false → x.phase ≠ .dropped →
    Running w.net.sys.down →
    held spoken w.net.sys.down = [] → queueOf w.net.sys.clientReg i = w.sent.filterMap (about i)

structure Carried (w : Watch) : Prop where
  owned : Owned w.net.sys
  recorded : Recorded w.net.sys
  attached : Attached w.net.sys
  flow : Flow w.net.sys w.sent
  answers : w.net.sys.down.closed = false → w.sent.filterMap answerOf = w.net.replies
  reads : ∀ i, (w.net.workers .client i).Reads (eventsFor w.net.sys.routed i)

variable {w w' : Watch} {l : Tunnel.Label}

theorem carried_start (reliable : Bool) : Carried (Watch.start reliable) := by
  have hrecorded := recorded_throughout reliable [] [] (List.prefix_refl _) _ rfl
  exact ⟨owned_start reliable, hrecorded, attached_start reliable, flow_start reliable,
    fun _ => rfl, fun _ => Worker.reads_idle⟩

theorem queueOf_recorded {s : Sys} (h : Recorded s) (i : Nat) :
    queueOf s.clientReg i = eventsFor s.routed i := by
  cases hch : s.clientReg.channels[i]? with
  | none =>
      rw [queueOf_none hch, eventsFor_unknown]
      intro p hp heq
      have hlt := h.known p hp
      have hle := List.getElem?_eq_none_iff.mp hch
      omega
  | some ch => rw [queueOf_some hch, h.queue i ch hch]

theorem Carried.faithful (h : Carried w) : Faithful w := by
  refine ⟨h.answers, fun i => ?_, fun i hi => ?_, fun i x hx hudp hphase hrun hheld => ?_⟩
  · rw [queueOf_recorded h.recorded]
    exact (h.reads i).writes
  · rw [queueOf_recorded h.recorded]
    exact (h.flow.followed i hi).1
  · have hi : isUdp w.net.sys i = false := by simp [isUdp, hx, hudp]
    have hlive : Live w.net.sys i := by
      intro y hy
      obtain rfl := Option.some.inj (hx.symm.trans hy)
      exact hphase
    obtain ⟨lost, heq, hlost⟩ := (h.flow.followed i hi).2 hlive
    rw [hheld, hlost hrun, List.filterMap_nil, List.append_nil, List.append_nil] at heq
    rw [queueOf_recorded h.recorded, heq]

theorem Carried.setWorker {x : Side} {k : Nat} {v : Worker} (h : Carried w)
    (hv : x = .client → v.Reads (eventsFor w.net.sys.routed k)) :
    Carried ⟨setWorker w.net x k v, w.sent⟩ := by
  refine ⟨h.owned, h.recorded, h.attached, h.flow, h.answers, fun j => ?_⟩
  change ((Tunnel.setWorker w.net x k v).workers .client j).Reads _
  rw [workers_setWorker]
  split
  next heq =>
    obtain ⟨hx, rfl⟩ := heq
    exact hv hx.symm
  next => exact h.reads j

theorem queuedBy_self (s : Sys) : queuedBy s s = [] := by
  rw [queuedBy, List.drop_length, List.map_nil]

theorem Carried.step (h : Carried w) (hok : Unhurried w l) (hstep : watch w l = some w') :
    Carried w' := by
  obtain ⟨t, hnet, rfl⟩ := Option.map_eq_some_iff.mp hstep
  cases l with
  | sys l =>
      obtain ⟨hallowed, hnet⟩ := Option.ite_none_right_eq_some.mp hnet
      obtain ⟨u, hu, rfl⟩ := Option.map_eq_some_iff.mp hnet
      have hadvanced := h.flow.sysStep h.owned h.attached hok.2 hallowed hu
      refine ⟨h.owned.step hok.1 hu, h.recorded.step hu, hadvanced.attached, hadvanced.flow,
        fun hopen => ?_, fun i => ?_⟩
      · obtain ⟨hbefore, hanswers⟩ := hadvanced.answers hopen
        rw [List.filterMap_append, h.answers hbefore, hanswers]
      · obtain ⟨more, hmore⟩ := hadvanced.routed
        apply (h.reads i).mono
        change eventsFor w.net.sys.routed i <+: eventsFor u.routed i
        rw [hmore, eventsFor, eventsFor, List.filterMap_append]
        exact List.prefix_append _ _
  | begin x k now =>
      obtain ⟨i, -, hnet⟩ := Option.bind_eq_some_iff.mp hnet
      obtain ⟨ch, -, hnet⟩ := Option.bind_eq_some_iff.mp hnet
      obtain ⟨⟨-, -, hidle⟩, rfl⟩ := Option.ite_some_none_eq_some.mp hnet
      change Carried ⟨_, w.sent ++ queuedBy w.net.sys w.net.sys⟩
      rw [queuedBy_self, List.append_nil]
      apply h.setWorker
      rintro rfl
      refine ⟨(h.reads k).writes, fun _ => (h.reads k).taken ?_⟩
      intro l hl
      rw [hidle] at hl
      simp at hl
  | turn x k b =>
      obtain ⟨ch, hch, hnet⟩ := Option.bind_eq_some_iff.mp hnet
      obtain ⟨-, hnet⟩ := Option.ite_none_right_eq_some.mp hnet
      obtain ⟨v, hv, rfl⟩ := Option.map_eq_some_iff.mp hnet
      change Carried ⟨_, w.sent ++ queuedBy w.net.sys w.net.sys⟩
      rw [queuedBy_self, List.append_nil]
      apply h.setWorker
      rintro rfl
      have hqueue : ch.queue = eventsFor w.net.sys.routed k := h.recorded.queue k ch hch
      have hreads := h.reads k
      rw [← hqueue] at hreads ⊢
      exact hreads.turn hv

/-- However the tasks and threads of both sides are scheduled, and whatever UDP sessions run beside,
a TCP session of the client hears exactly what the server's tasks say in it, in order, and no other
session's. -/
theorem answers_in_order (reliable : Bool) (ls : List Tunnel.Label)
    (h : EachStep watch Unhurried (Watch.start reliable) ls) :
    Throughout watch Faithful (Watch.start reliable) ls := by
  have hrun : Throughout watch Carried (Watch.start reliable) ls :=
    throughout_of_eachStep (carried_start reliable) (fun w l w' hw hok hstep => hw.step hok hstep) h
  exact hrun.mono fun w hw => hw.faithful

theorem roomOf_of_entries {s : Sys} {n : Nat}
    (h : ∀ e ∈ s.serverEnc.sessionTx.entries, e.2.seq + n ≤ seqMask.toNat)
    (hn : n ≤ seqMask.toNat) : roomOf s n := by
  intro sid
  rw [sidTx]
  cases hfind : find s.serverEnc.sessionTx sid with
  | none => simpa using hn
  | some tx => exact h ⟨sid, tx⟩ (AList.mem_lookup_iff.mp hfind)

/-- The label gives out no id, and the ids in use have room for what it can make the server send. -/
def roomy (w : Watch) : Tunnel.Label → Bool
  | .sys (.client (.allocate _)) => false
  | .sys l =>
      (w.net.sys.serverEnc.sessionTx.entries.all fun e =>
        e.2.seq + burst w.net.sys l ≤ seqMask.toNat) && burst w.net.sys l ≤ seqMask.toNat
  | _ => true

theorem unhurried_of_roomy (h : roomy w l = true) : Unhurried w l := by
  have hroom {k : Endpoints.Label}
      (hk : ((w.net.sys.serverEnc.sessionTx.entries.all fun e => e.2.seq + burst w.net.sys k ≤
        seqMask.toNat) &&
      burst w.net.sys k ≤ seqMask.toNat) = true) : roomOf w.net.sys (burst w.net.sys k) := by
    obtain ⟨hentries, hn⟩ := Bool.and_eq_true_iff.mp hk
    exact roomOf_of_entries (by simpa using hentries) (by simpa using hn)
  cases l with
  | sys l =>
      cases l with
      | client a =>
          cases a with
          | allocate udp => simp [roomy] at h
          | _ => exact ⟨trivial, hroom h⟩
      | _ => exact ⟨trivial, hroom h⟩
  | _ => trivial

theorem eachStep_of_roomy {ls : List Tunnel.Label}
    (h : EachStep watch (fun w l => roomy w l = true) w ls) : EachStep watch Unhurried w ls :=
  fun past l t t' hinit ht hl => unhurried_of_roomy (h past l t t' hinit ht hl)

def answered : List Tunnel.Label :=
  [.sys (.client (.allocate false)), .sys (.client (.open 0 [0, 0, 80])), .sys (.up (.work true)),
    .sys (.up (.work true)), .sys (.up .deliver), .begin .client 0 0, .sys (.task 0 (.data [7])),
    .sys (.task 0 .fin), .sys (.down (.work true)),
    .sys (.down (.work true)), .sys (.down (.work true)), .sys (.down (.work true)),
    .sys (.down .deliver), .sys (.down .deliver),
    .turn .client 0 (.recv 0 (.ok ()))]

theorem answers_in_order_answered :
    ∃ w, exec watch (Watch.start true) answered = some w ∧
    (w.net.workers .client 0).writes = [(0, [7])] ∧
      queueOf w.net.sys.clientReg 0 = [.data (0, [7]), .fin] ∧ Faithful w := by
  have hrun : EachStep watch Unhurried (Watch.start true) answered := by
    refine eachStep_cons ⟨fun sid c reg _ => ⟨?_, ?_, ?_⟩, ?_⟩ fun w hw => ?_
    · intro f hf
      exact absurd hf (not_inUp_start true f)
    · simp [Watch.start, Tunnel.start, Endpoints.start]
    · intro f hf
      exact absurd hf (not_inDown_start true f)
    · exact roomOf_of_entries
        (by simp [Watch.start, Tunnel.start, Endpoints.start, MuxEncoder.newAcceptor, MuxEncoder.new]) (by simp [burst])
    · obtain rfl := Option.some.inj hw
      apply eachStep_of_roomy
      decide +kernel
  refine ⟨_, rfl, rfl, rfl, ?_⟩
  exact answers_in_order true answered hrun answered (List.prefix_refl _) _ rfl

end Watch

end SrtVpn.Downstream
