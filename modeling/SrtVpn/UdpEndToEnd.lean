import SrtVpn.FragmentSizes
import SrtVpn.UdpForward

namespace SrtVpn.UdpEndToEnd

open BigEndian Utf8 Wire Encoder UdpFrames UdpTargets Reassembly Dispatch Attempts SocketAddrs
  PartialRuns UdpChannel FragmentSizes
open UdpRelay
  (Relay requestFrames responseDatagram sendUnreliable firstSource length_parseUdpDatagram)
open UdpForward (Forward Send resolve socketOf responseFrames)
open HostileFragments (Swollen)

/-- A datagram with the address it goes to or comes from: host, port and payload. -/
abbrev Parts := Bytes × UInt16 × Bytes

def framesOf (p : Parts) : List Bytes := splitUdpFrames (encodeUdpAddrHeaderHost p.1 p.2.1) p.2.2

/-- What the session at the other end gets for a call, if it is data; the number of its frame does
not matter. -/
def carried (c : Call Bytes) : Option Bytes :=
  (eventOf ⟨c.ftype, c.sessionId, 0, c.flags, c.payload⟩).bind fun
    | .data frame => some frame
    | _ => none

def bursts (calls : List (List (Call Bytes))) : List (List Bytes) :=
  (calls.map fun sent => sent.filterMap carried).filter (· ≠ [])

/-- The host fits its length byte, and a payload that is sent in one frame does not look like a
fragment. -/
def Carriable (p : Parts) : Prop :=
  p.1.length ≤ 255 ∧ p.2.2.length ≤ 65535 ∧
    (p.2.2.length + ((encodeUdpAddrHeaderHost p.1 p.2.1).length + 5) ≤ frameDataMax →
      p.2.2 ≠ [] ∧ p.2.2.head? ≠ some udpFragMark)

instance (p : Parts) : Decidable (Carriable p) := inferInstanceAs (Decidable (_ ∧ _ ∧ (_ → _)))

def NeedsFragments (p : Parts) : Prop :=
  frameDataMax < p.2.2.length + ((encodeUdpAddrHeaderHost p.1 p.2.1).length + 5)

instance (p : Parts) : Decidable (NeedsFragments p) := inferInstanceAs (Decidable (_ < _))

/-- No two datagrams that need fragments have the same address and the same length. -/
def Unmistakable (ps : List Parts) : Prop :=
  ps.Pairwise fun p q => NeedsFragments p → (p.1, p.2.1) = (q.1, q.2.1) →
  p.2.2.length ≠ q.2.2.length

instance (ps : List Parts) : Decidable (Unmistakable ps) :=
  inferInstanceAs (Decidable (List.Pairwise _ _))

def parts (m : Message) : Parts := (m.host, m.port, m.payload)

section Sender

variable {p : Parts} {ps : List Parts} {datagrams : Bool} {sid : UInt16}

theorem exists_messages (h : ∀ p ∈ ps, Valid p.1 ∧ Carriable p) :
    ∃ ms : List Message, ms.map parts = ps := by
  induction ps with
  | nil => exact ⟨[], rfl⟩
  | cons p ps ih =>
      obtain ⟨⟨hvalid, hhost, hpayload, hunmarked⟩, hrest⟩ := List.forall_mem_cons.mp h
      obtain ⟨ms, rfl⟩ := ih hrest
      exact ⟨⟨p.1, p.2.1, p.2.2, hvalid, hhost, hpayload, hunmarked⟩ :: ms, rfl⟩

theorem apart_of_unmistakable {ms : List Message} (h : Unmistakable (ms.map parts)) : Apart ms := by
  apply List.Pairwise.imp _ (List.pairwise_map.mp h)
  intro m n hmn hlarge htarget
  exact hmn hlarge htarget

theorem carried_take (hhost : p.1.length ≤ 765) (n : Nat) :
    (((framesOf p).flatMap (sendUnreliable datagrams sid)).take n).filterMap carried =
      (framesOf p).take n := by
  have hheader : (encodeUdpAddrHeaderHost p.1 p.2.1).length ≤ 768 := by
    rw [length_header]
    omega
  have hne : encodeUdpAddrHeaderHost p.1 p.2.1 ≠ [] := by simp [encodeUdpAddrHeaderHost]
  have hcalls : (framesOf p).flatMap (sendUnreliable datagrams sid) = _ :=
    flatMap_sendUnreliable fun frame hframe =>
      ⟨ne_nil_of_mem hne hframe, length_le_of_mem hheader hframe⟩
  rw [hcalls, ← List.map_take, List.filterMap_map]
  apply Eq.trans (List.filterMap_congr _) List.filterMap_some
  intro frame _
  cases datagrams <;> rfl

theorem framesOf_ne_nil (hhost : p.1.length ≤ 765) : framesOf p ≠ [] := by
  obtain ⟨frame, frames, -, hframes⟩ : ∃ frame frames, frame ≠ [] ∧ framesOf p = frame :: frames :=
    UdpRelay.splitUdpFrames_cons hhost
  rw [hframes]
  exact List.cons_ne_nil _ _

section Run

/-- In this turn a sender sends the frames of the datagram it is given, as far as they are
accepted. -/
def Speaks {S L O : Type} (act : S → L → Option (O × S)) (frames : O → List (Call Bytes))
    (spoken : L → Option Parts) (accepts : L → Nat) (l : L) : Prop :=
  ∀ s o s', act s l = some (o, s') →
  (frames o).filterMap carried = (((spoken l).map framesOf).getD []).take (accepts l)

variable {S L O : Type} {act : S → L → Option (O × S)} {frames : O → List (Call Bytes)}
  {spoken : L → Option Parts} {accepts : L → Nat} {s s' : S} {ls : List L} {outs : List O}

theorem bursts_run (hact : ∀ l ∈ ls, Speaks act frames spoken accepts l)
    (hhost : ∀ l ∈ ls, ∀ p, spoken l = some p → p.1.length ≤ 765)
    (htakes : ∀ l ∈ ls, ∀ p, spoken l = some p → (framesOf p).length ≤ accepts l)
    (hrun : run act s ls = some (outs, s')) :
    bursts (outs.map frames) = (ls.filterMap spoken).map framesOf := by
  induction ls generalizing s outs with
  | nil =>
      obtain ⟨rfl, -⟩ := run_nil_eq.mp hrun
      rfl
  | cons l ls ih =>
      obtain ⟨o, u, rest, hfirst, hrest, rfl⟩ := run_cons_eq.mp hrun
      obtain ⟨hactl, hact⟩ := List.forall_mem_cons.mp hact
      obtain ⟨hhostl, hhost⟩ := List.forall_mem_cons.mp hhost
      obtain ⟨htakesl, htakes⟩ := List.forall_mem_cons.mp htakes
      have hsent := hactl s o u hfirst
      have ih := ih hact hhost htakes hrest
      rw [bursts] at ih ⊢
      rw [List.map_cons, List.map_cons, hsent]
      cases hspoken : spoken l with
      | none =>
          rw [List.filterMap_cons_none hspoken, List.filter_cons_of_neg (by simp)]
          exact ih
      | some p =>
          have hall : (((some p).map framesOf).getD []).take (accepts l) = framesOf p :=
            List.take_of_length_le (htakesl p hspoken)
          rw [List.filterMap_cons_some hspoken, List.map_cons, hall,
            List.filter_cons_of_pos (by simpa using framesOf_ne_nil (hhostl p hspoken)), ih]

theorem mem_bursts_run {frame : Bytes} (hact : ∀ l ∈ ls, Speaks act frames spoken accepts l)
    (hrun : run act s ls = some (outs, s')) (hmem : frame ∈ (bursts (outs.map frames)).flatten) :
    ∃ p ∈ ls.filterMap spoken, frame ∈ framesOf p := by
  obtain ⟨burst, hburst, hframe⟩ := List.mem_flatten.mp hmem
  obtain ⟨sent, hsent, rfl⟩ := List.mem_map.mp (List.mem_of_mem_filter hburst)
  obtain ⟨o, ho, rfl⟩ := List.mem_map.mp hsent
  clear hmem hburst hsent
  induction ls generalizing s outs with
  | nil =>
      obtain ⟨rfl, -⟩ := run_nil_eq.mp hrun
      cases ho
  | cons l ls ih =>
      obtain ⟨out, u, rest, hfirst, hrest, rfl⟩ := run_cons_eq.mp hrun
      obtain ⟨hactl, hact⟩ := List.forall_mem_cons.mp hact
      rcases List.mem_cons.mp ho with rfl | ho
      · rw [hactl s o u hfirst] at hframe
        cases hspoken : spoken l with
        | none =>
            rw [hspoken] at hframe
            cases List.mem_of_mem_take hframe
        | some p =>
            rw [hspoken] at hframe
            exact ⟨p, List.mem_filterMap.mpr ⟨l, List.mem_cons_self, hspoken⟩,
              List.mem_of_mem_take hframe⟩
      · obtain ⟨p, hp, hmem⟩ := ih hact hrest ho
        obtain ⟨l', hl', hspoken⟩ := List.mem_filterMap.mp hp
        exact ⟨p, List.mem_filterMap.mpr ⟨l', List.mem_cons_of_mem l hl', hspoken⟩, hmem⟩

end Run

end Sender

def asked {A : Type} (t : UdpRelay.Turn A) : Option Parts :=
  match t.event with
  | .received (.ok (_, datagram)) => parseUdpDatagram datagram
  | _ => none

/-- What is sent for a datagram whose last frame comes in this turn. -/
def delivery (t : UdpForward.Turn) (p : Parts) : List Send :=
  ((resolve t.lookup p.1 p.2.1).map fun addr => ⟨socketOf addr, addr, p.2.2⟩).toList

section Upstream

variable {A : Type} {datagrams : Bool} {sid : UInt16}

theorem valid_asked {t : UdpRelay.Turn A} {p : Parts} (h : asked t = some p) :
    Valid p.1 ∧ p.1.length ≤ 765 := by
  rw [asked] at h
  split at h
  · exact ⟨valid_of_parseUdpDatagram h, length_parseUdpDatagram h⟩
  · cases h

theorem speaks_asked (t : UdpRelay.Turn A) :
    Speaks (Relay.act datagrams sid) UdpRelay.Effects.frames asked UdpRelay.Turn.accepts t := by
  intro s out s' h
  rcases UdpRelay.act_cases h with ⟨hsource, heq⟩ | ⟨src, datagram, hevent, rfl, -⟩ |
      ⟨data, hevent, heq⟩
  · have hasked : asked t = none := by
      rw [UdpRelay.Turn.source] at hsource
      rw [asked]
      split
      next hevent =>
        rw [hevent] at hsource
        cases hsource
      next => rfl
    obtain ⟨rfl, -⟩ := Prod.mk.inj heq
    rw [hasked, Option.map_none, Option.getD_none, List.take_nil, List.filterMap_eq_nil_iff]
    intro c hc
    rw [List.mem_singleton.mp (List.mem_of_mem_take hc)]
    rfl
  · have hasked : asked t = parseUdpDatagram datagram := by rw [asked, hevent]
    rw [hasked, requestFrames]
    cases hparse : parseUdpDatagram datagram with
    | none => simp
    | some p => exact carried_take (p := p) (length_parseUdpDatagram hparse) t.accepts
  · have hasked : asked t = none := by rw [asked, hevent]
    have hnone :=
      (UdpRelay.respond_spec { s with deadline := t.now + UdpRelay.udpIdleTimeout } t.now data).1
    rw [← heq] at hnone
    rw [hasked, show out.frames = [] from hnone]
    simp

theorem meant_full (t : UdpForward.Turn) (m : Message) : t.meant m.full = delivery t (parts m) := by
  rw [UdpForward.Turn.meant, m.parse_full]
  rfl

theorem carriable_asked {asks : List (UdpRelay.Turn A)}
    (h : ∀ p ∈ asks.filterMap asked, Carriable p) :
    ∃ ms : List Message, ms.map parts = asks.filterMap asked := by
  apply exists_messages
  intro p hp
  obtain ⟨t, -, hasked⟩ := List.mem_filterMap.mp hp
  exact ⟨(valid_asked hasked).1, h p hp⟩

def query : UdpRelay.Turn Unit := ⟨0, 1, .received (.ok ((), [0, 0, 0, 1, 1, 2, 3, 4, 0, 53, 7]))⟩

def queryArrives : UdpForward.Turn :=
  ⟨5, 6, 0, .ok [], .ok (), .recvEvent (some (.data [7, 49, 46, 50, 46, 51, 46, 52, 0, 53, 7]))⟩

end Upstream

/-- The frame that a turn of the relay takes from the tunnel. -/
def response? {A : Type} (t : UdpRelay.Turn A) : Option Bytes :=
  match t.event with
  | .response resp => resp
  | _ => none

def heard (t : UdpForward.Turn) : Option Parts :=
  t.received?.map fun r => (ipToString r.1, portOf r.1, r.2)

def toClient {A : Type} (client : A) (full : Bytes) : List (A × Bytes) :=
  ((parseUdpAddrHeader full).map fun p => (client, responseDatagram p.1 p.2.1 p.2.2)).toList

section Relay

variable {A : Type} {datagrams : Bool} {sid : UInt16} {client : A} {s s' : Relay A}
  {t : UdpRelay.Turn A} {turns : List (UdpRelay.Turn A)} {out : UdpRelay.Effects A}
    {outs : List (UdpRelay.Effects A)}

theorem respond_cases (hclient : s.clientAddr = some client) (now : Nat) (data : Bytes) :
    (push now s.reassembler data = none ∧ (s.respond now data).2.stage = .panicked) ∨
      ∃ full, push now s.reassembler data = some (full, (s.respond now data).2.reassembler) ∧
        (s.respond now data).2.stage = s.stage ∧
        (s.respond now data).1.replies = (full.map (toClient client)).getD [] := by
  rw [Relay.respond]
  cases hpush : push now s.reassembler data with
  | none => exact Or.inl ⟨rfl, rfl⟩
  | some pushed =>
      obtain ⟨full, r⟩ := pushed
      right
      simp only [hclient]
      cases full with
      | none => exact ⟨none, rfl, rfl, rfl⟩
      | some full =>
          rw [Option.bind_some]
          cases hparse : parseUdpAddrHeader full with
          | none => exact ⟨some full, rfl, rfl,
              by rw [Option.map_some, Option.getD_some, toClient, hparse]; rfl⟩
          | some p => exact ⟨some full, rfl, rfl,
              by rw [Option.map_some, Option.getD_some, toClient, hparse]; rfl⟩

/-- A relay that knows its client: what its reassembler sees, and what the client gets. -/
structure RelayHistory (client : A) (s : Relay A) (turns : List (UdpRelay.Turn A))
    (outs : List (UdpRelay.Effects A)) (s' : Relay A)
    (hist : List (UdpRelay.Turn A × Receipt)) : Prop
    extends Observes response? UdpRelay.Turn.now s.reassembler turns hist s'.reassembler where
  known : s'.clientAddr = some client
  replies_eq : outs.flatMap UdpRelay.Effects.replies = told (fun _ => toClient client) hist

theorem respond_of_response {data : Bytes} (hresponse : response? t = some data)
    (hact : s.act datagrams sid t = some (out, s')) :
    (out, s') = { s with deadline := t.now + UdpRelay.udpIdleTimeout }.respond t.now data := by
  have hevent : t.event = .response (some data) := by
    rw [response?] at hresponse
    split at hresponse
    next hevent => rw [hevent, hresponse]
    next => cases hresponse
  rw [Relay.act, hevent, Option.ite_none_left_eq_some] at hact
  exact (Option.some.inj hact.2).symm

theorem quiet_of_no_response (hresponse : response? t = none)
    (hact : s.act datagrams sid t = some (out, s')) :
    out.replies = [] ∧ s'.reassembler = s.reassembler ∧
    (s.stage = .running → s'.stage ≠ .panicked) := by
  rcases UdpRelay.act_cases hact with ⟨-, heq⟩ | ⟨src, datagram, -, rfl, rfl⟩ | ⟨data, hevent, -⟩
  · obtain ⟨rfl, rfl⟩ := Prod.mk.inj heq
    exact ⟨rfl, rfl, fun _ => UdpRelay.Stage.noConfusion⟩
  · exact ⟨rfl, rfl, fun hrunning => by rw [hrunning]; decide⟩
  · rw [response?, hevent] at hresponse
    cases hresponse

theorem running_of_act (hact : s.act datagrams sid t = some (out, s')) : s.stage = .running := by
  rw [Relay.act, Option.ite_none_left_eq_some, not_not] at hact
  exact hact.1

theorem RelayHistory.step {u : Relay A} {hist : List (UdpRelay.Turn A × Receipt)}
    (h : RelayHistory client s turns outs u hist) (hact : u.act datagrams sid t = some (out, s'))
    (hsafe : s'.stage ≠ .panicked) :
    ∃ hist', RelayHistory client s (turns ++ [t]) (outs ++ [out]) s' hist' := by
  have hknown : s'.clientAddr = some client := by
    rw [UdpRelay.clientAddr_act hact, h.known]
    rfl
  have hflat : (outs ++ [out]).flatMap UdpRelay.Effects.replies =
      outs.flatMap UdpRelay.Effects.replies ++ out.replies := by
    rw [List.flatMap_append, List.flatMap_singleton]
  cases hresponse : response? t with
  | none =>
      obtain ⟨hnone, hsame, -⟩ := quiet_of_no_response hresponse hact
      refine ⟨hist, ?_, hknown, by rw [hflat, hnone, List.append_nil, h.replies_eq]⟩
      rw [hsame]
      exact h.toObserves.quiet hresponse
  | some data =>
      have heq := respond_of_response hresponse hact
      have hout : out = _ := congrArg Prod.fst heq
      have hnext : s' = _ := congrArg Prod.snd heq
      rcases respond_cases (s := { u with deadline := t.now + UdpRelay.udpIdleTimeout })
        h.known t.now data with ⟨-, hpanic⟩ | ⟨full, hpush, -, hreplies⟩
      · rw [← hnext] at hpanic
        exact absurd hpanic hsafe
      · rw [← hnext] at hpush
        refine ⟨hist ++ [(t, ⟨t.now, data, full⟩)], h.toObserves.taken hresponse (Or.inl rfl) hpush,
          hknown, ?_⟩
        rw [hflat, h.replies_eq, told_append, told_singleton, hout, hreplies]

theorem relayHistory_run (hclient : s.clientAddr = some client)
    (h : run (Relay.act datagrams sid) s turns = some (outs, s'))
    (hsafe : s'.stage ≠ .panicked) : ∃ hist, RelayHistory client s turns outs s' hist := by
  induction turns using List.reverseRecOn generalizing outs s' with
  | nil =>
      obtain ⟨rfl, rfl⟩ := run_nil_eq.mp h
      exact ⟨[], .nil _, hclient, rfl⟩
  | append_singleton turns t ih =>
      obtain ⟨past, u, out, hpast, hact, rfl⟩ := run_snoc_eq.mp h
      obtain ⟨hist, hhist⟩ := ih hpast (by rw [running_of_act hact]; decide)
      exact hhist.step hact hsafe

theorem relay_safe_run (hclient : s.clientAddr = some client) (hreach : Reachable s.reassembler)
    (hstart : s.stage ≠ .panicked) (h : run (Relay.act datagrams sid) s turns = some (outs, s'))
    (hframes : ∀ t ∈ turns, ∀ frame, response? t = some frame → ¬ Swollen frame) :
    s'.stage ≠ .panicked := by
  rcases List.eq_nil_or_concat turns with rfl | ⟨past, t, rfl⟩
  · obtain ⟨-, rfl⟩ := run_nil_eq.mp h
    exact hstart
  · rw [List.concat_eq_append] at h hframes
    obtain ⟨_, u, out, hpast, hact, -⟩ := run_snoc_eq.mp h
    have hrunning := running_of_act hact
    cases hresponse : response? t with
    | none => exact (quiet_of_no_response hresponse hact).2.2 hrunning
    | some data =>
        obtain ⟨hist, hhist⟩ := relayHistory_run hclient hpast (by rw [hrunning]; decide)
        have hsized := FragmentOrder.sized_of_reachable (hhist.receives.reachable hreach)
        obtain ⟨full, r, hreturns⟩ := hsized.push_returns t.now (hframes t (by simp) data hresponse)
        rw [show s' = _ from congrArg Prod.snd (respond_of_response hresponse hact)]
        rcases respond_cases (s := { u with deadline := t.now + UdpRelay.udpIdleTimeout })
          hhist.known t.now data with ⟨hnone, -⟩ | ⟨full, -, hstage, -⟩
        · rw [show push t.now u.reassembler data = none from hnone] at hreturns
          cases hreturns
        · rw [hstage.trans hrunning]
          decide

theorem relay_before {start : Nat}
    (h : run (Relay.act datagrams sid) (.new start) turns = some (outs, s))
    (hquiet : ∀ t ∈ turns, response? t = none) :
    s.clientAddr = firstSource turns ∧ s.reassembler = .new ∧ s.stage ≠ .panicked ∧
    outs.flatMap UdpRelay.Effects.replies = [] := by
  induction turns using List.reverseRecOn generalizing outs s with
  | nil =>
      obtain ⟨rfl, rfl⟩ := run_nil_eq.mp h
      exact ⟨rfl, rfl, UdpRelay.Stage.noConfusion, rfl⟩
  | append_singleton turns t ih =>
      obtain ⟨past, u, out, hpast, hact, rfl⟩ := run_snoc_eq.mp h
      obtain ⟨hknown, hnew, -, hnothing⟩ :=
        ih hpast fun t ht => hquiet t (List.mem_append_left _ ht)
      obtain ⟨hnone, hsame, hsafe⟩ := quiet_of_no_response (hquiet t (by simp)) hact
      refine ⟨?_, hsame.trans hnew, hsafe (running_of_act hact), ?_⟩
      · rw [UdpRelay.clientAddr_act hact, hknown, UdpRelay.firstSource_append_singleton]
      · rw [List.flatMap_append, hnothing, List.flatMap_singleton, hnone]
        rfl

end Relay

section Downstream

variable {A : Type} {datagrams : Bool} {sid : UInt16}

theorem speaks_heard {t : UdpForward.Turn} (hwell : ∀ r, t.received? = some r → Wellformed r.1) :
    Speaks (Forward.act datagrams sid) UdpForward.Effects.frames heard
      UdpForward.Turn.accepts t := by
  intro s out s' h
  obtain ⟨-, ⟨frame, hframe, heq⟩ | ⟨r, hreceived, -, heq⟩ | ⟨-, hnone, heq, -⟩⟩ :=
    UdpForward.act_cases h
  · have hheard : heard t = none := by
      rw [UdpForward.Turn.frame?] at hframe
      split at hframe
      next hevent => rw [heard, UdpForward.Turn.received?, hevent]; rfl
      next => cases hframe
    have hnothing : out.frames = [] := by
      rw [show out = _ from congrArg Prod.fst heq]
      rcases UdpForward.data_cases s t frame with ⟨_, _, _, hout, _⟩ |
          ⟨_, _, _, _, _, ⟨hout, _⟩ | ⟨hout, _⟩⟩ <;> rw [hout]
    rw [hheard, hnothing, Option.map_none, Option.getD_none, List.take_nil, List.filterMap_nil]
  · obtain ⟨rfl, -⟩ := Prod.mk.inj heq
    rw [heard, hreceived]
    exact carried_take (p := (ipToString r.1, portOf r.1, r.2))
      (Nat.le_trans (length_ipToString_le (hwell r hreceived)) (by decide)) _
  · obtain ⟨rfl, -⟩ := Prod.mk.inj heq
    rw [heard, hnone, Option.map_none, Option.map_none, Option.getD_none, List.take_nil,
      List.filterMap_nil]

theorem heard_eq_some {t : UdpForward.Turn} {p : Parts} (h : heard t = some p) :
    ∃ r, t.received? = some r ∧ p = (ipToString r.1, portOf r.1, r.2) := by
  obtain ⟨r, hreceived, rfl⟩ := Option.map_eq_some_iff.mp h
  exact ⟨r, hreceived, rfl⟩

variable {turns : List UdpForward.Turn}

theorem carriable_heard (h : ∀ p ∈ turns.filterMap heard, Carriable p) :
    ∃ ms : List Message, ms.map parts = turns.filterMap heard := by
  apply exists_messages
  intro p hp
  obtain ⟨t, -, hheard⟩ := List.mem_filterMap.mp hp
  obtain ⟨r, -, rfl⟩ := heard_eq_some hheard
  exact ⟨valid_ipToString r.1, h _ hp⟩

theorem parse_toClient (hwell : ∀ t ∈ turns, ∀ r, t.received? = some r → Wellformed r.1)
    {m : Message} (hm : parts m ∈ turns.filterMap heard) (client : A) :
    (toClient client m.full).map (fun x => (x.1, parseUdpDatagram x.2)) =
      [(client, some (parts m))] := by
  obtain ⟨t, ht, hheard⟩ := List.mem_filterMap.mp hm
  obtain ⟨r, hreceived, hparts⟩ := heard_eq_some hheard
  have hclient : toClient client m.full =
      [(client, responseDatagram (parts m).1 (parts m).2.1 (parts m).2.2)] := by
    rw [toClient, m.parse_full]
    rfl
  rw [hclient, hparts, List.map_singleton, parseUdpDatagram_ipToString (hwell t ht r hreceived)]

def reply : UdpForward.Turn :=
  ⟨8, 9, 1, .ok [], .ok (), .recvFrom .v4 (.ok (.v4 [1, 2, 3, 4] 53, [9]))⟩

def replyArrives : UdpRelay.Turn Unit :=
  ⟨9, 0, .response (some [7, 49, 46, 50, 46, 51, 46, 52, 0, 53, 9])⟩

end Downstream

end SrtVpn.UdpEndToEnd
