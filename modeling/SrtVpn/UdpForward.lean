import SrtVpn.Dispatch
import SrtVpn.PartialRuns
import SrtVpn.SocketAddrs
import SrtVpn.UdpChannel

namespace SrtVpn.UdpForward

open BigEndian Wire Encoder UdpFrames Reassembly Dispatch Attempts SocketAddrs PartialRuns
open HostileFragments (Swollen)
open UdpRelay (sendUnreliable udpIdleTimeout)
open UdpChannel (Receipt Receives Observes told told_append told_singleton)

inductive Socket
  | v4
  | v6
  deriving DecidableEq, Repr

structure Send where
  socket : Socket
  addr : SocketAddr
  payload : Bytes
  deriving DecidableEq, Repr

inductive Event
  | idle
  | recvEvent (event : Option (SessionEvent Bytes))
  | recvFrom (socket : Socket) (r : Except String (SocketAddr × Bytes))

/-- One turn of the loop: what happens, when it begins and when it is over, and what the system
answers meanwhile: how many messages the connection takes, what a name resolves to, whether there
can be a socket for IPv6. -/
structure Turn where
  now : Nat
  finished : Nat
  accepts : Nat
  lookup : Except String (List SocketAddr)
  bind : Except String Unit
  event : Event

structure Forward where
  socketV6 : Bool
  reassembler : UdpReassembler Bytes
  activityCount : Nat
  deadline : Nat
  stage : UdpRelay.Stage

structure Effects where
  sends : List Send
  frames : List (Call Bytes)

def resolve (lookup : Except String (List SocketAddr)) (host : Bytes) (port : UInt16) :
    Option SocketAddr :=
  match parseIpAddr host port with
  | some addr => some addr
  | none =>
      match lookup with
      | .ok addrs => addrs.head?
      | .error _ => none

def socketOf : SocketAddr → Socket
  | .v4 _ _ => .v4
  | .v6 _ _ => .v6

def responseFrames (datagrams : Bool) (sid : UInt16) (src : SocketAddr) (payload : Bytes) :
    List (Call Bytes) :=
  (splitUdpFrames (encodeUdpAddrHeaderHost (ipToString src) (portOf src)) payload).flatMap
    (sendUnreliable datagrams sid)

section Loop

variable (datagrams : Bool) (sid : UInt16)

def Forward.new (now : Nat) : Forward := ⟨false, .new, 0, now + udpIdleTimeout, .running⟩

/-- The socket for IPv6 is made when the first target needs it. -/
def Forward.socketFor (s : Forward) (bind : Except String Unit) :
    SocketAddr → Option (Socket × Forward)
  | .v4 _ _ => some (.v4, s)
  | .v6 _ _ =>
      if s.socketV6 then some (.v6, s)
      else match bind with
        | .ok () => some (.v6, { s with socketV6 := true })
        | .error _ => none

/-- `none` where the source leaves the turn with `continue`. -/
def Forward.sendTo (s : Forward) (t : Turn) (full : Bytes) : Option (List Send × Forward) :=
  match parseUdpAddrHeader full with
  | none => some ([], s)
  | some (host, port, payload) =>
      match resolve t.lookup host port with
      | none => some ([], s)
      | some addr => (s.socketFor t.bind addr).map fun (socket, s) => ([⟨socket, addr, payload⟩], s)

def Forward.reset (s : Forward) (t : Turn) :
    Forward := { s with deadline := t.finished + udpIdleTimeout }

def Forward.data (s : Forward) (t : Turn) (frame : Bytes) : Effects × Forward :=
  let count := s.activityCount + 1
  let kept := if count % 64 = 0 then cleanupExpired t.now s.reassembler else s.reassembler
  match push t.now kept frame with
  | none => (⟨[], []⟩, { s with activityCount := count, reassembler := kept, stage := .panicked })
  | some (full, reassembler) =>
      let s := { s with activityCount := count, reassembler }
      match full with
      | none => (⟨[], []⟩, s.reset t)
      | some full =>
          match s.sendTo t full with
          | some (sends, s) => (⟨sends, []⟩, s.reset t)
          | none => (⟨[], []⟩, s)

def Forward.ends (s : Forward) : Effects × Forward := (⟨[], []⟩, { s with stage := .ended })

def Forward.listens (s : Forward) : Socket → Bool
  | .v4 => true
  | .v6 => s.socketV6

/-- One turn of a session that is running. -/
def Forward.act (s : Forward) (t : Turn) : Option (Effects × Forward) :=
  if s.stage ≠ .running then none
  else match t.event with
  | .idle => if s.deadline ≤ t.now then some s.ends else none
  | .recvEvent (some (.data frame)) => some (s.data t frame)
  | .recvEvent _ => some s.ends
  | .recvFrom socket r =>
      if s.listens socket = false then none
      else match r with
        | .ok (src, payload) =>
            some (⟨[], (responseFrames datagrams sid src payload).take t.accepts⟩, s.reset t)
        | .error _ => some s.ends

end Loop

/-- The frame that a turn takes from the tunnel. -/
def Turn.frame? (t : Turn) : Option Bytes :=
  match t.event with
  | .recvEvent (some (.data frame)) => some frame
  | _ => none

def Turn.received? (t : Turn) : Option (SocketAddr × Bytes) :=
  match t.event with
  | .recvFrom _ (.ok r) => some r
  | _ => none

/-- What is to be sent for a reassembled datagram, as the names resolve in that turn. -/
def Turn.meant (t : Turn) (full : Bytes) : List Send :=
  match parseUdpAddrHeader full with
  | none => []
  | some (host, port, payload) =>
      ((resolve t.lookup host port).map fun addr => ⟨socketOf addr, addr, payload⟩).toList

section Step

variable {datagrams : Bool} {sid : UInt16} {s s' : Forward} {t : Turn}
  {out : Effects} {frame : Bytes}

theorem socketFor_spec {bind : Except String Unit} {addr : SocketAddr} {socket : Socket}
    (h : s.socketFor bind addr = some (socket, s')) :
    socket = socketOf addr ∧ s'.reassembler = s.reassembler ∧ s'.stage = s.stage := by
  cases addr with
  | v4 ip port =>
      obtain ⟨rfl, rfl⟩ := Prod.mk.inj (Option.some.inj h)
      exact ⟨rfl, rfl, rfl⟩
  | v6 ip port =>
      rw [Forward.socketFor.eq_def] at h
      simp only at h
      split at h
      · obtain ⟨rfl, rfl⟩ := Prod.mk.inj (Option.some.inj h)
        exact ⟨rfl, rfl, rfl⟩
      · split at h
        · obtain ⟨rfl, rfl⟩ := Prod.mk.inj (Option.some.inj h)
          exact ⟨rfl, rfl, rfl⟩
        · cases h

theorem sendTo_cases (s : Forward) (t : Turn) (full : Bytes) :
    (∃ s', s.sendTo t full = some (t.meant full, s') ∧ s'.reassembler = s.reassembler ∧
      s'.stage = s.stage) ∨
      (s.sendTo t full = none ∧ t.bind ≠ .ok ()) := by
  rw [Forward.sendTo, Turn.meant]
  cases parseUdpAddrHeader full with
  | none => exact Or.inl ⟨s, rfl, rfl, rfl⟩
  | some parsed =>
      obtain ⟨host, port, payload⟩ := parsed
      simp only
      cases resolve t.lookup host port with
      | none => exact Or.inl ⟨s, rfl, rfl, rfl⟩
      | some addr =>
          simp only
          cases hsocket : s.socketFor t.bind addr with
          | none =>
              refine Or.inr ⟨rfl, fun hbind => ?_⟩
              cases addr with
              | v4 ip port => cases hsocket
              | v6 ip port =>
                  rw [Forward.socketFor.eq_def, hbind] at hsocket
                  simp only at hsocket
                  split at hsocket <;> cases hsocket
          | some found =>
              obtain ⟨socket, s'⟩ := found
              obtain ⟨rfl, hsame, hstage⟩ := socketFor_spec hsocket
              exact Or.inl ⟨s', rfl, hsame, hstage⟩

theorem data_cases (s : Forward) (t : Turn) (frame : Bytes) :
    (∃ r₀, (r₀ = s.reassembler ∨ r₀ = cleanupExpired t.now s.reassembler) ∧
      push t.now r₀ frame = none ∧
        (s.data t frame).1 = ⟨[], []⟩ ∧ (s.data t frame).2.stage = .panicked) ∨
      ∃ r₀ full, (r₀ = s.reassembler ∨ r₀ = cleanupExpired t.now s.reassembler) ∧
        push t.now r₀ frame = some (full, (s.data t frame).2.reassembler) ∧
        (s.data t frame).2.stage = s.stage ∧
        ((s.data t frame).1 = ⟨(full.map t.meant).getD [], []⟩ ∧
          (s.data t frame).2.deadline = t.finished + udpIdleTimeout ∨
          (s.data t frame).1 = ⟨[], []⟩ ∧ (s.data t frame).2.deadline = s.deadline ∧
            t.bind ≠ .ok ()) := by
  have hkept :
      (if (s.activityCount + 1) % 64 = 0 then cleanupExpired t.now s.reassembler
        else s.reassembler) = s.reassembler ∨
      (if (s.activityCount + 1) % 64 = 0 then cleanupExpired t.now s.reassembler
        else s.reassembler) = cleanupExpired t.now s.reassembler := by
    split
    · exact Or.inr rfl
    · exact Or.inl rfl
  rw [Forward.data]
  generalize (if (s.activityCount + 1) % 64 = 0 then cleanupExpired t.now s.reassembler
    else s.reassembler) = r₀ at hkept
  simp only
  cases hpush : push t.now r₀ frame with
  | none => exact Or.inl ⟨r₀, hkept, hpush, rfl, rfl⟩
  | some pushed =>
      obtain ⟨full, r₁⟩ := pushed
      cases full with
      | none => exact Or.inr ⟨r₀, none, hkept, hpush, rfl, Or.inl ⟨rfl, rfl⟩⟩
      | some full =>
          simp only
          rcases sendTo_cases { s with activityCount := s.activityCount + 1, reassembler := r₁ } t
            full with ⟨u, hsend, hsame, hstage⟩ | ⟨hsend, hbind⟩
          · rw [hsend]
            refine Or.inr ⟨r₀, some full, hkept, ?_, hstage, Or.inl ⟨rfl, rfl⟩⟩
            rw [hpush, show (u.reset t).reassembler = r₁ from hsame]
          · rw [hsend]
            exact Or.inr ⟨r₀, some full, hkept, hpush, rfl, Or.inr ⟨rfl, rfl, hbind⟩⟩

theorem act_cases (h : s.act datagrams sid t = some (out, s')) : s.stage = .running ∧
    ((∃ frame, t.frame? = some frame ∧ (out, s') = s.data t frame) ∨
      (∃ r, t.received? = some r ∧ t.frame? = none ∧
        (out, s') = (⟨[], (responseFrames datagrams sid r.1 r.2).take t.accepts⟩, s.reset t)) ∨
      (t.frame? = none ∧ t.received? = none ∧ (out, s') = s.ends ∧
        (t.event = .idle → s.deadline ≤ t.now))) := by
  obtain ⟨now, finished, accepts, lookup, bind, event⟩ := t
  rw [Forward.act, Option.ite_none_left_eq_some, not_not] at h
  obtain ⟨hrunning, h⟩ := h
  refine ⟨hrunning, ?_⟩
  cases event with
  | idle =>
      simp only [Option.ite_none_right_eq_some, Option.some.injEq] at h
      exact Or.inr (Or.inr ⟨rfl, rfl, h.2.symm, fun _ => h.1⟩)
  | recvEvent event =>
      cases event with
      | none => exact Or.inr (Or.inr ⟨rfl, rfl, (Option.some.inj h).symm, nofun⟩)
      | some event =>
          cases event with
          | data frame => exact Or.inl ⟨frame, rfl, (Option.some.inj h).symm⟩
          | fin => exact Or.inr (Or.inr ⟨rfl, rfl, (Option.some.inj h).symm, nofun⟩)
          | close => exact Or.inr (Or.inr ⟨rfl, rfl, (Option.some.inj h).symm, nofun⟩)
  | recvFrom socket r =>
      simp only [Option.ite_none_left_eq_some] at h
      cases r with
      | error e => exact Or.inr (Or.inr ⟨rfl, rfl, (Option.some.inj h.2).symm, nofun⟩)
      | ok r => exact Or.inr (Or.inl ⟨r, rfl, rfl, (Option.some.inj h.2).symm⟩)

end Step

/-- A run as its reassembler sees it, and the datagrams that are sent. -/
structure History (s : Forward) (turns : List Turn) (outs : List Effects) (s' : Forward)
    (hist : List (Turn × Receipt)) :
    Prop extends Observes Turn.frame? Turn.now s.reassembler turns hist s'.reassembler where
  sends_sublist : (outs.flatMap Effects.sends).Sublist (told Turn.meant hist)
  sends_eq : (∀ t ∈ turns, t.bind = .ok ()) → outs.flatMap Effects.sends = told Turn.meant hist

section Run

variable {datagrams : Bool} {sid : UInt16} {s s' u : Forward} {t : Turn} {turns : List Turn}
  {out : Effects} {outs : List Effects} {hist : List (Turn × Receipt)}

theorem History.quiet (h : History s turns outs u hist) (hframe : t.frame? = none)
    (hsends : out.sends = []) (hsame : s'.reassembler = u.reassembler) :
    History s (turns ++ [t]) (outs ++ [out]) s' hist := by
  have hflat : (outs ++ [out]).flatMap Effects.sends = outs.flatMap Effects.sends := by
    rw [List.flatMap_append, List.flatMap_singleton, hsends, List.append_nil]
  refine ⟨?_, by rw [hflat]; exact h.sends_sublist, fun hbind => ?_⟩
  · rw [hsame]
    exact h.toObserves.quiet hframe
  · rw [hflat]
    exact h.sends_eq fun t ht => hbind t (List.mem_append_left _ ht)

theorem History.step (h : History s turns outs u hist)
    (hact : u.act datagrams sid t = some (out, s')) (hsafe : s'.stage ≠ .panicked) :
    ∃ hist', History s (turns ++ [t]) (outs ++ [out]) s' hist' := by
  obtain ⟨-, ⟨frame, hframe, heq⟩ | ⟨r, -, hframe, heq⟩ | ⟨hframe, -, heq, -⟩⟩ := act_cases hact
  · have hout : out = (u.data t frame).1 := congrArg Prod.fst heq
    have hnext : s' = (u.data t frame).2 := congrArg Prod.snd heq
    rcases data_cases u t frame with ⟨-, -, -, -, hpanic⟩ | ⟨r₀, full, hclean, hpush, -, hsends⟩
    · rw [← hnext] at hpanic
      exact absurd hpanic hsafe
    · rw [← hnext] at hpush
      refine ⟨hist ++ [(t, ⟨t.now, frame, full⟩)], h.toObserves.taken hframe hclean hpush, ?_,
        fun hbind => ?_⟩
      · rw [told_append, told_singleton, List.flatMap_append, List.flatMap_singleton]
        apply h.sends_sublist.append
        rcases hsends with ⟨hsent, -⟩ | ⟨hnone, -⟩
        · rw [hout, hsent]
        · rw [hout, hnone]
          exact List.nil_sublist _
      · rw [told_append, told_singleton, List.flatMap_append, List.flatMap_singleton,
          h.sends_eq fun t ht => hbind t (List.mem_append_left _ ht)]
        rcases hsends with ⟨hsent, -⟩ | ⟨-, -, hfails⟩
        · rw [hout, hsent]
        · exact absurd (hbind t (by simp)) hfails
  · obtain ⟨rfl, rfl⟩ := Prod.mk.inj heq
    exact ⟨hist, h.quiet hframe rfl rfl⟩
  · obtain ⟨rfl, rfl⟩ := Prod.mk.inj heq
    exact ⟨hist, h.quiet hframe rfl rfl⟩

/-- Every run that has not ended in a panic has a history. -/
theorem history_run (h : run (Forward.act datagrams sid) s turns = some (outs, s'))
    (hsafe : s'.stage ≠ .panicked) : ∃ hist, History s turns outs s' hist := by
  induction turns using List.reverseRecOn generalizing outs s' with
  | nil =>
      obtain ⟨rfl, rfl⟩ := run_nil_eq.mp h
      exact ⟨[], .nil _, List.Sublist.refl _, fun _ => rfl⟩
  | append_singleton turns t ih =>
      obtain ⟨past, u, out, hpast, hact, rfl⟩ := run_snoc_eq.mp h
      have hrunning := (act_cases hact).1
      obtain ⟨hist, hhist⟩ := ih hpast (by rw [hrunning]; decide)
      exact hhist.step hact hsafe

end Run

/-- A frame from the tunnel or a datagram from a socket: a turn that keeps the session alive. -/
def Turn.active (t : Turn) : Bool := t.frame?.isSome || t.received?.isSome

def lastUse (start : Nat) (turns : List Turn) : Nat := (turns.getLast?.map Turn.finished).getD start

section Watchdog

variable {datagrams : Bool} {sid : UInt16} {start : Nat} {s s' : Forward} {t : Turn}
  {turns : List Turn} {out : Effects} {outs : List Effects}

theorem reachable_run (h : run (Forward.act datagrams sid) (.new start) turns = some (outs, s))
    (hsafe : s.stage ≠ .panicked) : Reachable s.reassembler := by
  obtain ⟨hist, hhist⟩ := history_run h hsafe
  exact hhist.receives.reachable .new

theorem data_running (hreach : Reachable s.reassembler) (hrunning : s.stage = .running)
    {frame : Bytes} (hframe : ¬ Swollen frame) : (s.data t frame).2.stage = .running := by
  rcases data_cases s t frame with ⟨r₀, hclean, hpush, -, -⟩ | ⟨r₀, full, -, -, hstage, -⟩
  · have hsized : FragmentOrder.Sized r₀ := by
      rcases hclean with rfl | rfl
      · exact FragmentOrder.sized_of_reachable hreach
      · exact FragmentOrder.sized_of_reachable (hreach.cleanup _)
    obtain ⟨out, r', hreturns⟩ := hsized.push_returns t.now hframe
    rw [hpush] at hreturns
    cases hreturns
  · exact hstage.trans hrunning

theorem safe_run (h : run (Forward.act datagrams sid) (.new start) turns = some (outs, s))
    (hframes : ∀ t ∈ turns, ∀ frame, t.frame? = some frame → ¬ Swollen frame) :
    s.stage ≠ .panicked := by
  rcases List.eq_nil_or_concat turns with rfl | ⟨past, t, rfl⟩
  · obtain ⟨-, rfl⟩ := run_nil_eq.mp h
    exact UdpRelay.Stage.noConfusion
  · rw [List.concat_eq_append] at h hframes
    obtain ⟨_, u, out, hpast, hact, -⟩ := run_snoc_eq.mp h
    obtain ⟨hrunning, ⟨frame, hframe, heq⟩ | ⟨r, -, -, heq⟩ | ⟨-, -, heq, -⟩⟩ := act_cases hact
    · have hreach := reachable_run hpast (by rw [hrunning]; decide)
      rw [show s = (u.data t frame).2 from congrArg Prod.snd heq,
        data_running hreach hrunning (hframes t (by simp) frame hframe)]
      decide
    · rw [show s = u.reset t from congrArg Prod.snd heq, show (u.reset t).stage = u.stage from rfl,
        hrunning]
      decide
    · rw [show s = u.ends.2 from congrArg Prod.snd heq, show u.ends.2.stage = .ended from rfl]
      decide

theorem deadline_act (hact : s.act datagrams sid t = some (out, s'))
    (hrunning : s'.stage = .running) (hbind : t.bind = .ok ()) :
    s'.deadline = t.finished + udpIdleTimeout := by
  obtain ⟨-, ⟨frame, -, heq⟩ | ⟨r, -, -, heq⟩ | ⟨-, -, heq, -⟩⟩ := act_cases hact
  · obtain rfl : s' = (s.data t frame).2 := congrArg Prod.snd heq
    rcases data_cases s t frame with ⟨-, -, -, -, hpanic⟩ |
        ⟨-, -, -, -, -, ⟨-, hdeadline⟩ | ⟨-, -, hfails⟩⟩
    · rw [hpanic] at hrunning
      cases hrunning
    · exact hdeadline
    · exact absurd hbind hfails
  · obtain rfl : s' = s.reset t := congrArg Prod.snd heq
    rfl
  · obtain rfl : s' = s.ends.2 := congrArg Prod.snd heq
    cases hrunning

theorem deadline_run (h : run (Forward.act datagrams sid) (.new start) turns = some (outs, s))
    (hrunning : s.stage = .running) (hbind : ∀ t ∈ turns, t.bind = .ok ()) :
    s.deadline = lastUse start turns + udpIdleTimeout := by
  rcases List.eq_nil_or_concat turns with rfl | ⟨past, t, rfl⟩
  · obtain ⟨-, rfl⟩ := run_nil_eq.mp h
    rfl
  · rw [List.concat_eq_append] at h hbind ⊢
    obtain ⟨_, u, out, -, hact, -⟩ := run_snoc_eq.mp h
    rw [deadline_act hact hrunning (hbind t (by simp)), lastUse, List.getLast?_concat]
    rfl

end Watchdog

end SrtVpn.UdpForward
