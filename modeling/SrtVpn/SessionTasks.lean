import SrtVpn.ForwardLoop
import SrtVpn.OpenTargets
import SrtVpn.Speech
import SrtVpn.TextFields
import SrtVpn.UdpForward

namespace SrtVpn.SessionTasks

open BigEndian Text TextFields Wire Encoder Session Dispatch SocketAddrs ForwardLoop
  PartialRuns Speech
open Attempts (SocketAddr)
open LocalConn (protoTcp)
open OpenTargets (OpenRequest parseOpenPayload)
open Reassembly (Reachable)
open HostileFragments (Swollen)
open UdpForward (Forward responseFrames)
open UdpRelay (Relay requestFrames)

/-- The three kinds of session task: at the server for an Open; at the client for a connection, with
what is told to the application and sent ahead; at the client for a relay of datagrams. -/
inductive Job
  | handleOpen (payload : Bytes)
  | forward (dst : Bytes) (dstPort : UInt16) (reply prepend : Bytes)
  | associate

inductive Stage
  | connecting (target : Bytes)
  | binding
  | opening
  | replying
  | prepending
  | forwarding
  | relaying (s : Forward)
  | associating (s : Relay SocketAddr)
  | shutting
  | notifying (r : Except Bytes Unit)
  | done (r : Except Bytes Unit)
  | panicked

inductive Event
  | lost
  | arrives (frame : Frame Bytes)
  | unregistered
  | connected (now : Nat) (r : Option (Except String Unit))
  | bound (now : Nat) (r : Except String Unit)
  | opens (now : Nat)
  | replied (now : Nat) (r : Except String Unit)
  | prepends (now accepts : Nat)
  | idle (now : Nat)
  | reads (now accepts : Nat) (result : Except String Bytes)
  | takes (now : Nat) (written : Except String Unit)
  | relayed (t : UdpForward.Turn)
  | associated (t : UdpRelay.Turn SocketAddr)
  | shutdown (r : Except String Unit)
  | notifies

/-- A session task: whether the connection to the other end is gone, the state of the loop, which is
there before it turns, and where the task is. -/
structure Task where
  closed : Bool
  loop : ForwardLoop.State
  stage : Stage

def closedText : String := "SRT 连接已关闭"

def controlError : String := "发送控制帧失败: " ++ closedText

def dataError : String := "发送数据帧失败: " ++ closedText

def targetOf (request : OpenRequest) : Bytes := request.host ++ 0x3A :: decimal request.port.toNat

namespace Job

def variant (sid : UInt16) : Job → Variant
  | .handleOpen _ => startTcpForward sid
  | _ => forwardLoop

def leave : Job → Exit → Stage
  | .handleOpen _, .broke => .shutting
  | _, .broke => .notifying (.ok ())
  | _, .returned e => .notifying (.error (utf8 e))

/-- The Open, unless it is too long for a frame: then an assertion fails. -/
def opening (sid : UInt16) : Job → List (Call Bytes)
  | .handleOpen _ => []
  | .forward dst dstPort _ _ =>
      if (openPayload protoTcp dst dstPort).length ≤ frameDataMax then
        [sendOpen sid protoTcp dst dstPort]
      else []
  | .associate => [sendOpen sid 1 (ascii "0.0.0.0") 0]

def prepend : Job → Bytes
  | .forward _ _ _ prepend => prepend
  | _ => []

def start : Job → Stage
  | .handleOpen payload =>
      match parseOpenPayload payload with
      | none => .notifying (.error (utf8 "Open 载荷格式无效"))
      | some request =>
          if request.proto = protoTcp then .connecting (targetOf request)
          else if request.proto = 1 then .binding
          else .notifying (.error (utf8 ("未知协议类型: " ++ toString request.proto.toNat)))
  | _ => .opening

/-- The server speaks about a session that the other end has opened. -/
def voice : Job → Voice
  | .handleOpen _ => .talking
  | _ => .silent

end Job

def readCalls (sid : UInt16) : Except String Bytes → List (Call Bytes)
  | .ok [] => [sendControl sid .fin []]
  | .ok data => sendDataBatch sid data
  | .error _ => []

def readError : Except String Bytes → String
  | .ok [] => controlError
  | _ => dataError

def relayCalls (datagrams : Bool) (sid : UInt16) (t : UdpForward.Turn) : List (Call Bytes) :=
  match t.received? with
  | some r => responseFrames datagrams sid r.1 r.2
  | none => []

def associateCalls (datagrams : Bool) (sid : UInt16) (t : UdpRelay.Turn SocketAddr) :
    List (Call Bytes) :=
  match t.event with
  | .received (.ok (_, datagram)) => requestFrames datagrams sid datagram
  | .response (some _) => []
  | _ => [sendControl sid .close []]

namespace Task

def new (job : Job) : Task := ⟨false, ForwardLoop.start 0, job.start⟩

/-- How many messages the connection takes: none once it is gone. -/
def room (s : Task) (accepts : Nat) : Nat := if s.closed then 0 else accepts

/-- A message is only refused by a connection that is gone. -/
def said (s : Task) (calls taken : List (Call Bytes)) :
    Task := { s with closed := s.closed || decide (taken ≠ calls) }

def enter (s : Task) (now : Nat) : Task :=
  { s with loop := { s.loop with idleDeadline := now + idleDuration }, stage := .forwarding }

def after (s : Task) (job : Job) (loop : ForwardLoop.State) : Task :=
  { s with loop, stage := match loop.exit with
      | none => .forwarding
      | some e => job.leave e }

def prepared (s : Task) (job : Job) (now : Nat) : Task :=
  if job.prepend ≠ [] then { s with stage := .prepending } else s.enter now

def opened (s : Task) (now : Nat) : Job → Task
  | .associate => { s with stage := .associating (.new now) }
  | .forward dst dstPort reply prepend =>
      if reply ≠ [] then { s with stage := .replying }
      else s.prepared (.forward dst dstPort reply prepend) now
  | .handleOpen _ => s

/-- A relay that cannot be opened is given up without a Close. -/
def unopened (s : Task) : Job → Task
  | .associate => { s with stage := .done (.error (utf8 controlError)) }
  | _ => { s with stage := .notifying (.error (utf8 controlError)) }

section Turns

variable (job : Job) (datagrams : Bool) (sid : UInt16)

def sendOpen (s : Task) (now : Nat) : Option (List (Call Bytes) × Task) :=
  let calls := job.opening sid
  let taken := calls.take (s.room 1)
  if calls = [] then some ([], { s with stage := .panicked })
  else if taken = calls then some (taken, (s.said calls taken).opened now job)
  else some (taken, (s.said calls taken).unopened job)

def sendPrepend (s : Task) (now accepts : Nat) : Option (List (Call Bytes) × Task) :=
  let calls := sendDataBatch sid job.prepend
  let taken := calls.take (s.room accepts)
  if taken = calls then some (taken, (s.said calls taken).enter now)
  else some (taken, { s.said calls taken with stage := .notifying (.error (utf8 dataError)) })

def notifySessionClosed (s : Task) (r : Except Bytes Unit) : Option (List (Call Bytes) × Task) :=
  let calls := [sendControl sid .close []]
  let taken := calls.take (s.room 1)
  some (taken, { s.said calls taken with stage := .done r })

def read (s : Task) (now accepts : Nat) (result : Except String Bytes) :
    Option (List (Call Bytes) × Task) :=
  let calls := readCalls sid result
  let taken := calls.take (s.room accepts)
  let sent := if taken = calls then .ok () else .error (readError result)
  (turn (job.variant sid) s.loop (.read now result sent)).map fun p =>
    (taken, (s.said calls taken).after job p.2)

def relay (s : Task) (f : Forward) (t : UdpForward.Turn) : Option (List (Call Bytes) × Task) :=
  (f.act datagrams sid { t with accepts := s.room t.accepts }).map fun p =>
    (p.1.frames, { s.said (relayCalls datagrams sid t) p.1.frames with stage := match p.2.stage with
      | .running => .relaying p.2
      | .ended => .notifying (.ok ())
      | .panicked => .panicked })

def associate (s : Task) (r : Relay SocketAddr) (t : UdpRelay.Turn SocketAddr) :
    Option (List (Call Bytes) × Task) :=
  (r.act datagrams sid { t with accepts := s.room t.accepts }).map fun p =>
    (p.1.frames,
      { s.said (associateCalls datagrams sid t) p.1.frames with stage := match p.2.stage with
      | .running => .associating p.2
      | .ended => .done (.ok ())
      | .panicked => .panicked })

/-- One turn of a task, with the messages that the connection takes. -/
def act (s : Task) (e : Event) : Option (List (Call Bytes) × Task) :=
  match s.stage, e with
  | _, .lost => some ([], { s with closed := true })
  | _, .arrives frame =>
      (ForwardLoop.step (job.variant sid) s.loop (.dispatch frame)).map fun loop =>
        ([], { s with loop })
  | _, .unregistered => (ForwardLoop.step (job.variant sid) s.loop .unregister).map fun loop =>
      ([], { s with loop })
  | .connecting target, .connected now r =>
      match r with
      | none => some
          ([], { s with stage := .notifying (.error (utf8 "连接目标 " ++ target ++ utf8 " 超时")) })
      | some (.error e) => some ([],
          { s with stage := .notifying (.error (utf8 "连接目标 " ++ target ++ utf8 (" 失败: " ++ e))) })
      | some (.ok ()) => some ([], s.enter now)
  | .binding, .bound now r =>
      match r with
      | .ok () => some ([], { s with stage := .relaying (.new now) })
      | .error e =>
          some ([], { s with stage := .notifying (.error (utf8 ("UDP socket bind 失败: " ++ e))) })
  | .opening, .opens now => s.sendOpen job sid now
  | .replying, .replied now r =>
      match r with
      | .ok () => some ([], s.prepared job now)
      | .error e =>
          some ([], { s with stage := .notifying (.error (utf8 ("写 CONNECT 响应失败: " ++ e))) })
  | .prepending, .prepends now accepts => s.sendPrepend job sid now accepts
  | .forwarding, .idle now => (turn (job.variant sid) s.loop (.idle now)).map fun p =>
      ([], s.after job p.2)
  | .forwarding, .reads now accepts result => s.read job sid now accepts result
  | .forwarding, .takes now written =>
      (turn (job.variant sid) s.loop (.recv now written)).map fun p => ([], s.after job p.2)
  | .relaying f, .relayed t => s.relay datagrams sid f t
  | .associating r, .associated t => s.associate datagrams sid r t
  | .shutting, .shutdown r =>
      match r with
      | .ok () => some ([], { s with stage := .notifying (.ok ()) })
      | .error e => some ([], { s with stage := .notifying (.error (utf8 ("关闭目标连接失败: " ++ e))) })
  | .notifying r, .notifies => s.notifySessionClosed sid r
  | _, _ => none

end Turns

end Task

def asked (job : Job) (datagrams : Bool) (sid : UInt16) : Event → List (Call Bytes)
  | .opens _ => job.opening sid
  | .prepends _ _ => sendDataBatch sid job.prepend
  | .reads _ _ result => readCalls sid result
  | .relayed t => relayCalls datagrams sid t
  | .associated t => associateCalls datagrams sid t
  | .notifies => [sendControl sid .close []]
  | _ => []

/-- An assertion fails for an Open with a host that is too long, and for a frame with a host that
swells. -/
def Job.Panics (events : List Event) : Job → Prop
  | .handleOpen _ => ∃ t frame, Event.relayed t ∈ events ∧ t.frame? = some frame ∧ Swollen frame
  | .forward dst dstPort _ _ => frameDataMax < (openPayload protoTcp dst dstPort).length
  | .associate =>
      ∃ t frame, Event.associated t ∈ events ∧ t.event = .response (some frame) ∧ Swollen frame

section Loop

variable {v : Variant} {l l' : ForwardLoop.State} {effects : List Effect} {now : Nat}

theorem turn_idle_spec (h : turn v l (.idle now) = some (effects, l')) : l'.exit ≠ none := by
  rw [turn, Option.ite_none_left_eq_some] at h
  obtain ⟨-, heq⟩ := Option.ite_none_right_eq_some.mp h.2
  obtain ⟨-, rfl⟩ := Prod.mk.inj (Option.some.inj heq)
  exact Option.some_ne_none _

theorem turn_recv_spec {written : Except String Unit}
    (h : turn v l (.recv now written) = some (effects, l')) : l'.localEof = l.localEof := by
  rw [turn, Option.ite_none_left_eq_some] at h
  have hevent (s : ForwardLoop.State) (event : Option (SessionEvent Bytes)) :
      (onRecv v s now event written).2.localEof = s.localEof := by
    cases event with
    | none => rfl
    | some event =>
        cases event with
        | data data => cases written <;> rfl
        | fin =>
            rw [onRecv]
            simp only
            split <;> rfl
        | close => rfl
  obtain ⟨-, h⟩ := Option.ite_none_left_eq_some.mp h.2
  split at h
  next e queue hqueue =>
    obtain rfl : l' = _ := (congrArg Prod.snd (Option.some.inj h)).symm
    exact hevent _ _
  next hqueue =>
    obtain ⟨-, h⟩ := Option.ite_none_left_eq_some.mp h
    obtain rfl : l' = _ := (congrArg Prod.snd (Option.some.inj h)).symm
    exact hevent _ _

theorem turn_read_spec {result : Except String Bytes} {sent : Except String Unit}
    (h : turn v l (.read now result sent) = some (effects, l')) :
    l.localEof = false ∧ l' = (onRead v l now result sent).2 := by
  rw [turn, Option.ite_none_left_eq_some] at h
  obtain ⟨heof, h⟩ := Option.ite_none_left_eq_some.mp h.2
  exact ⟨by simpa using heof, (congrArg Prod.snd (Option.some.inj h)).symm⟩

theorem step_dispatch_spec {frame : Frame Bytes}
    (h : ForwardLoop.step v l (.dispatch frame) = some l') :
    l'.localEof = l.localEof ∧ l'.exit = l.exit := by
  rw [ForwardLoop.step] at h
  split at h
  · obtain rfl := Option.some.inj h
    rw [ForwardLoop.State.deliver]
    split <;> exact ⟨rfl, rfl⟩
  · obtain rfl := Option.some.inj h
    exact ⟨rfl, rfl⟩

end Loop

section Relays

variable {datagrams : Bool} {sid : UInt16}

theorem data_spec {f : Forward} (hreach : Reachable f.reassembler) (hrunning : f.stage = .running)
    (t : UdpForward.Turn) (frame : Bytes) : (f.data t frame).1.frames = [] ∧
      (((f.data t frame).2.stage = .running ∧ Reachable (f.data t frame).2.reassembler) ∨
        ((f.data t frame).2.stage = .panicked ∧ Swollen frame)) := by
  rcases UdpForward.data_cases f t frame with ⟨r₀, -, -, hout, hpanic⟩ |
      ⟨r₀, full, hclean, hpush, hstage, hout⟩
  · refine ⟨by rw [hout], Or.inr ⟨hpanic, ?_⟩⟩
    by_contra hframe
    rw [UdpForward.data_running hreach hrunning hframe] at hpanic
    cases hpanic
  · refine ⟨by rcases hout with ⟨hout, -⟩ | ⟨hout, -⟩ <;> rw [hout],
      Or.inl ⟨hstage.trans hrunning, ?_⟩⟩
    rcases hclean with rfl | rfl
    · exact hreach.push hpush
    · exact (hreach.cleanup _).push hpush

theorem respond_spec {r : Relay SocketAddr} (hreach : Reachable r.reassembler)
    (hrunning : r.stage = .running) (now : Nat) (data : Bytes) :
    (r.respond now data).1.frames = [] ∧
      (((r.respond now data).2.stage = .running ∧ Reachable (r.respond now data).2.reassembler) ∨
        ((r.respond now data).2.stage = .panicked ∧ Swollen data)) := by
  refine ⟨(UdpRelay.respond_spec r now data).1, ?_⟩
  rw [Relay.respond]
  cases hpush : Reassembly.push now r.reassembler data with
  | none =>
      refine Or.inr ⟨rfl, ?_⟩
      by_contra hframe
      obtain ⟨out, r', hreturns⟩ :=
        (FragmentOrder.sized_of_reachable hreach).push_returns now hframe
      rw [hpush] at hreturns
      cases hreturns
  | some pushed =>
      refine Or.inl ?_
      simp only
      split <;> exact ⟨hrunning, hreach.push hpush⟩

theorem received_eq_none {t : UdpForward.Turn} {frame : Bytes} (h : t.frame? = some frame) :
    t.received? = none := by
  obtain ⟨now, finished, accepts, lookup, bind, event⟩ := t
  cases event with
  | idle => rfl
  | recvEvent event => rfl
  | recvFrom socket r => cases h

theorem relay_spec {f f' : Forward} {t : UdpForward.Turn} {n : Nat} {out : UdpForward.Effects}
    (hreach : Reachable f.reassembler) (hrunning : f.stage = .running)
    (h : f.act datagrams sid { t with accepts := n } = some (out, f')) :
    out.frames = (relayCalls datagrams sid t).take n ∧
    ((f'.stage = .running ∧ Reachable f'.reassembler) ∨ f'.stage = .ended ∨
      (f'.stage = .panicked ∧ ∃ frame, t.frame? = some frame ∧ Swollen frame)) := by
  obtain ⟨-, ⟨frame, hframe, heq⟩ | ⟨r, hreceived, -, heq⟩ | ⟨-, hreceived, heq, -⟩⟩ :=
    UdpForward.act_cases h
  · obtain ⟨hout, hstage⟩ := data_spec hreach hrunning { t with accepts := n } frame
    have hnone : t.received? = none := received_eq_none (show t.frame? = some frame from hframe)
    rw [show out = (f.data { t with accepts := n } frame).1 from congrArg Prod.fst heq,
      show f' = (f.data { t with accepts := n } frame).2 from congrArg Prod.snd heq, hout,
        relayCalls, hnone]
    refine ⟨List.take_nil.symm, ?_⟩
    rcases hstage with hstage | ⟨hstage, hswollen⟩
    · exact Or.inl hstage
    · exact Or.inr (Or.inr ⟨hstage, frame, hframe, hswollen⟩)
  · obtain ⟨rfl, rfl⟩ := Prod.mk.inj heq
    refine ⟨?_, Or.inl ⟨hrunning, hreach⟩⟩
    rw [relayCalls, show t.received? = some r from hreceived]
  · obtain ⟨rfl, rfl⟩ := Prod.mk.inj heq
    refine ⟨?_, Or.inr (Or.inl rfl)⟩
    rw [relayCalls, show t.received? = none from hreceived]
    exact List.take_nil.symm

theorem content_relayCalls (datagrams : Bool) (sid : UInt16) (t : UdpForward.Turn) :
    ∀ c ∈ relayCalls datagrams sid t, Content sid c := by
  rw [relayCalls]
  split
  · exact content_sendUnreliable datagrams sid _
  · exact List.forall_mem_nil _

theorem content_requestFrames (datagrams : Bool) (sid : UInt16) (datagram : Bytes) :
    ∀ c ∈ requestFrames datagrams sid datagram, Content sid c := by
  rw [requestFrames]
  split
  · exact content_sendUnreliable datagrams sid _
  · exact List.forall_mem_nil _

theorem associate_spec {r r' : Relay SocketAddr} {t : UdpRelay.Turn SocketAddr} {n : Nat}
    {out : UdpRelay.Effects SocketAddr} (hreach : Reachable r.reassembler)
    (hrunning : r.stage = .running)
    (h : r.act datagrams sid { t with accepts := n } = some (out, r')) :
    out.frames = (associateCalls datagrams sid t).take n ∧
      ((r'.stage = .running ∧ Reachable r'.reassembler ∧ ∀ c ∈ associateCalls datagrams sid t,
        Content sid c) ∨
        (r'.stage = .ended ∧ associateCalls datagrams sid t = [sendControl sid .close []]) ∨
        (r'.stage = .panicked ∧ associateCalls datagrams sid t = [] ∧
          ∃ frame, t.event = .response (some frame) ∧ Swollen frame)) := by
  obtain ⟨now, accepts, event⟩ := t
  rw [Relay.act, Option.ite_none_left_eq_some] at h
  replace h := h.2
  have hends {r₀ : Relay SocketAddr} (heq : some (r₀.close sid n) = some (out, r'))
      (hcalls : associateCalls datagrams sid ⟨now, accepts, event⟩ = [sendControl sid .close []]) :
      out.frames = (associateCalls datagrams sid ⟨now, accepts, event⟩).take n ∧
      r'.stage = .ended := by
    obtain ⟨rfl, rfl⟩ := Prod.mk.inj (Option.some.inj heq)
    rw [hcalls]
    exact ⟨rfl, rfl⟩
  cases event with
  | idle =>
      obtain ⟨hout, hstage⟩ := hends (Option.ite_none_right_eq_some.mp h).2 rfl
      exact ⟨hout, Or.inr (Or.inl ⟨hstage, rfl⟩)⟩
  | control read =>
      obtain ⟨hout, hstage⟩ := hends h rfl
      exact ⟨hout, Or.inr (Or.inl ⟨hstage, rfl⟩)⟩
  | received r₁ =>
      cases r₁ with
      | error e =>
          obtain ⟨hout, hstage⟩ := hends h rfl
          exact ⟨hout, Or.inr (Or.inl ⟨hstage, rfl⟩)⟩
      | ok p =>
          obtain ⟨rfl, rfl⟩ := Prod.mk.inj (Option.some.inj h)
          exact ⟨rfl, Or.inl ⟨hrunning, hreach, content_requestFrames datagrams sid p.2⟩⟩
  | response resp =>
      cases resp with
      | none =>
          obtain ⟨hout, hstage⟩ := hends h rfl
          exact ⟨hout, Or.inr (Or.inl ⟨hstage, rfl⟩)⟩
      | some data =>
          have hspec :=
            respond_spec (r := { r with deadline := now + UdpRelay.udpIdleTimeout }) hreach
              hrunning now data
          have hout : out = _ := (congrArg Prod.fst (Option.some.inj h)).symm
          have hnext : r' = _ := (congrArg Prod.snd (Option.some.inj h)).symm
          rw [hout, hnext]
          refine ⟨hspec.1.trans List.take_nil.symm, ?_⟩
          rcases hspec.2 with ⟨hstage, hreach'⟩ | ⟨hstage, hswollen⟩
          · exact Or.inl ⟨hstage, hreach', List.forall_mem_nil _⟩
          · exact Or.inr (Or.inr ⟨hstage, rfl, data, rfl, hswollen⟩)

end Relays

end SrtVpn.SessionTasks
