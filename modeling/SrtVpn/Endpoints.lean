import SrtVpn.Connection
import SrtVpn.Dispatch
import SrtVpn.Encoder
import SrtVpn.SessionView

namespace SrtVpn.Endpoints

open BigEndian Tables Wire Encoder Decoder Slots Dispatch Connection

/-- A payload with the client session instance on whose behalf its frame is sent. Nothing in the
endpoints looks at the instance. -/
abbrev Tagged := Nat × Bytes

abbrev Msg := Frame Tagged

def owner (f : Msg) : Nat := f.payload.1

inductive Phase
  | allocated
  | opened
  | closed
  | dropped
  deriving DecidableEq, Repr

/-- A session of the client, known by the place of its channel: its id, whether it is a UDP session,
how far it has come. -/
structure Instance where
  sid : UInt16
  udp : Bool
  phase : Phase
  deriving DecidableEq, Repr

/-- A session task of the server, known by the place of its channel: its id, the instance whose Open
started it, whether its Close notice is out and whether it has ended. -/
structure Task where
  sid : UInt16
  owner : Nat
  notified : Bool
  ended : Bool
  deriving DecidableEq, Repr

inductive Answer
  | opened (i : Nat)
  | reset (i : Nat)
  deriving DecidableEq, Repr

/-- Both endpoints after the handshake, and the two directions of the connection. The last three
fields only record: the Opens that have arrived at the server, its answers, and which frame the
client put into which channel. -/
structure Sys where
  clientEnc : MuxEncoder
  clientReg : SessionRegistry Tagged
  clientDec : MuxDecoder Tagged
  instances : List Instance
  up : Link Msg
  serverEnc : MuxEncoder
  serverReg : SessionRegistry Tagged
  serverDec : MuxDecoder Tagged
  tasks : List Task
  down : Link Msg
  arrived : List Nat
  answers : List Answer
  routed : List (Nat × Msg)

def start (reliable : Bool) : Sys :=
  ⟨.new reliable, .new, .new, [], .new, .newAcceptor reliable, .new, .new, [], .new, [], [], []⟩

/-- Encode a frame at the client and queue it; Datagram frames are the unreliable ones. -/
def clientSend (s : Sys) (priority : Bool) (c : Call Tagged) : Sys :=
  { s with
    clientEnc := (stamp s.clientEnc c).2
    up := s.up.sendItemTo priority ⟨(stamp s.clientEnc c).1, c.ftype ≠ .datagram⟩ }

def serverSend (s : Sys) (priority : Bool) (c : Call Tagged) : Sys :=
  { s with
    serverEnc := (stamp s.serverEnc c).2
    down := s.down.sendItemTo priority ⟨(stamp s.serverEnc c).1, c.ftype ≠ .datagram⟩ }

def isControl : FrameType → Bool
  | .ack | .nack | .challenge | .response | .heartbeat => true
  | _ => false

inductive ClientAct
  | allocate (udp : Bool)
  | «open» (i : Nat) (payload : Bytes)
  | data (i : Nat) (payload : Bytes)
  | fin (i : Nat)
  | datagram (i : Nat) (payload : Bytes)
  | close (i : Nat)
  | drop (i : Nat)
  | control (priority : Bool) (ftype : FrameType) (payload : Bytes)
  deriving DecidableEq

def setPhase (s : Sys) (i : Nat) (p : Phase) : Sys :=
  { s with instances := s.instances.modify i fun x => { x with phase := p } }

def dropReceiver (reg : SessionRegistry Tagged) (c : Nat) : SessionRegistry Tagged :=
  { reg with channels := reg.channels.modify c Channel.dropReceiver }

/-- A session of the client opens first, then sends; its Close is the last it sends before its
session object goes. -/
def clientAct (s : Sys) : ClientAct → Option Sys
  | .allocate udp =>
      match s.clientReg.allocate with
      | (some (sid, _), reg) => some { s with
          clientReg := reg
          instances := s.instances ++ [⟨sid, udp, .allocated⟩] }
      | (none, reg) => some { s with clientReg := reg }
  | .open i payload => do
      let x ← s.instances[i]?
      if x.phase = .allocated then
        some (setPhase (clientSend s false ⟨.open, x.sid, 0, (i, payload)⟩) i .opened)
      else none
  | .data i payload => do
      let x ← s.instances[i]?
      if x.phase = .opened ∧ x.udp = false then
        some (clientSend s false ⟨.data, x.sid, 0, (i, payload)⟩)
      else none
  | .fin i => do
      let x ← s.instances[i]?
      if x.phase = .opened ∧ x.udp = false then
        some (clientSend s false ⟨.fin, x.sid, 0, (i, [])⟩)
      else none
  | .datagram i payload => do
      let x ← s.instances[i]?
      if x.phase = .opened ∧ x.udp = true then
        some (clientSend s true ⟨.datagram, x.sid, 0, (i, payload)⟩)
      else none
  | .close i => do
      let x ← s.instances[i]?
      if x.phase = .allocated ∨ x.phase = .opened then
        some (setPhase (clientSend s false ⟨.close, x.sid, 0, (i, [])⟩) i .closed)
      else none
  | .drop i => do
      let x ← s.instances[i]?
      if x.phase = .dropped then none
      else some (setPhase { s with clientReg := dropReceiver (s.clientReg.remove x.sid) i } i
        .dropped)
  | .control priority ftype payload =>
      if isControl ftype then some (clientSend s priority ⟨ftype, 0, 0, (0, payload)⟩) else none

def dispatchOneFrame (s : Sys) (f : Msg) : Sys :=
  let (action, reg) := dispatchFrame f s.serverReg
  let s : Sys := { s with serverReg := reg }
  match action with
  | .unknownSession sid =>
      serverSend { s with answers := s.answers ++ [.reset (owner f)] } false
        ⟨.rst, sid, 0, (owner f, [])⟩
  | .open sid _ =>
      let s : Sys := { s with answers := s.answers ++ [.opened (owner f)] }
      match s.serverReg.registerSpecific sid with
      | (some _, reg) =>
          { s with serverReg := reg, tasks := s.tasks ++ [⟨sid, owner f, false, false⟩] }
      | (none, reg) => serverSend { s with serverReg := reg } false ⟨.close, sid, 0, (owner f, [])⟩
  | .other => if f.ftype = .heartbeat then serverSend s false ⟨.heartbeat, 0, 0, f.payload⟩ else s
  | _ => s

def serverRecv (s : Sys) (f : Msg) : Sys :=
  let (out, dec) := feedFrame (countRx s.serverDec) f
  let arrived := if f.ftype = .open then s.arrived ++ [owner f] else s.arrived
  out.foldl dispatchOneFrame { s with serverDec := dec, arrived := arrived }

inductive TaskAct
  | data (payload : Bytes)
  | fin
  | datagram (payload : Bytes)
  | drop (session : Bool)
  | notify
  | cleanup

def setTask (s : Sys) (j : Nat) (t : Task) : Sys := { s with tasks := s.tasks.set j t }

def holdsReceiver (reg : SessionRegistry Tagged) (j : Nat) : Bool :=
  (reg.channels[j]?.map Channel.receiver).getD false

/-- A task sends while it holds its channel. It lets go of the channel, with its registry entry if
it had a session object, sends the Close notice, and at last removes the entry of its id once
more. -/
def taskAct (s : Sys) (j : Nat) (a : TaskAct) : Option Sys := do
  let t ← s.tasks[j]?
  match a with
  | .data payload =>
      if t.notified = false ∧ holdsReceiver s.serverReg j then
        some (serverSend s false ⟨.data, t.sid, 0, (t.owner, payload)⟩)
      else none
  | .fin =>
      if t.notified = false ∧ holdsReceiver s.serverReg j then
        some (serverSend s false ⟨.fin, t.sid, 0, (t.owner, [])⟩)
      else none
  | .datagram payload =>
      if t.notified = false ∧ holdsReceiver s.serverReg j then
        some (serverSend s true ⟨.datagram, t.sid, 0, (t.owner, payload)⟩)
      else none
  | .drop session =>
      if holdsReceiver s.serverReg j then
        let reg := if session then s.serverReg.remove t.sid else s.serverReg
        some { s with serverReg := dropReceiver reg j }
      else none
  | .notify =>
      if t.notified = false then
        some (setTask (serverSend s false ⟨.close, t.sid, 0, (t.owner, [])⟩) j
          { t with notified := true })
      else none
  | .cleanup =>
      if t.notified = true ∧ t.ended = false then
        some (setTask { s with serverReg := s.serverReg.remove t.sid } j { t with ended := true })
      else none

def landing (reg : SessionRegistry Tagged) (f : Msg) : Option Nat := do
  let e ← eventOf f
  if (reg.route f.sessionId e).1 then find reg.sessions f.sessionId else none

def clientDispatch (s : Sys) (f : Msg) : Sys :=
  { s with
    clientReg := (dispatchFrame f s.clientReg).2
    routed := s.routed ++ (landing s.clientReg f).toList.map fun c => (c, f) }

def clientRecv (s : Sys) (f : Msg) : Sys :=
  let (out, dec) := feedFrame (countRx s.clientDec) f
  out.foldl clientDispatch { s with clientDec := dec }

inductive Label
  | client (a : ClientAct)
  | up (a : LinkAct)
  | task (j : Nat) (a : TaskAct)
  | control (priority : Bool) (ftype : FrameType) (payload : Bytes)
  | down (a : LinkAct)

def step (s : Sys) : Label → Option Sys
  | .client a => clientAct s a
  | .up a => do
      let (m, link) ← s.up.act a
      match m with
      | some f => some (serverRecv { s with up := link } f)
      | none => some { s with up := link }
  | .task j a => taskAct s j a
  | .control priority ftype payload =>
      if isControl ftype then some (serverSend s priority ⟨ftype, 0, 0, (0, payload)⟩) else none
  | .down a => do
      let (m, link) ← s.down.act a
      match m with
      | some f => some (clientRecv { s with down := link } f)
      | none => some { s with down := link }

/-- The frames of a session the server may act on beyond handing them to its task. -/
def Speaks (f : Msg) : Prop := f.ftype = .data ∨ f.ftype = .datagram ∨ f.ftype = .open

theorem isControl_ne {t : FrameType} (h : isControl t = true) :
    t ≠ .data ∧ t ≠ .datagram ∧ t ≠ .open := by
  cases t <;> simp_all [isControl]

def Holds (d : MuxDecoder Tagged) (f : Msg) : Prop := ∃ key, (slotAt d key).Stores f

theorem not_holds_new (f : Msg) : ¬ Holds .new f := by
  rintro ⟨key, h⟩
  rw [SessionView.slotAt_new] at h
  rcases h with ⟨st, k, hst, -⟩ | h
  · simp [Slot.empty] at hst
  · simp [Slot.empty] at h

/-- Whether the decoder keeps no frame back. -/
def keepsNone (d : MuxDecoder Tagged) : Bool :=
  d.preopen.entries.isEmpty && d.states.entries.all fun e => e.2.buf.entries.isEmpty

theorem not_holds_of_keepsNone {d : MuxDecoder Tagged} (h : keepsNone d = true) (f : Msg) :
    ¬ Holds d f := by
  rw [keepsNone, Bool.and_eq_true, List.isEmpty_iff, List.all_eq_true] at h
  rintro ⟨key, ⟨st, k, hst, hfind⟩ | hwaiting⟩
  · have hbuf := List.isEmpty_iff.mp (h.2 _ (AList.mem_lookup_iff.mp hst))
    have hentry : ⟨k, f⟩ ∈ st.buf.entries := AList.mem_lookup_iff.mp hfind
    rw [hbuf] at hentry
    cases hentry
  · have hnone : find d.preopen key.1 = none := by
      rw [show d.preopen = ∅ from AList.ext h.1, find_empty]
    simp [slotAt, waitingOf, hnone] at hwaiting

theorem mem_feedFrame {d : MuxDecoder Tagged} {f g : Msg} (h : g ∈ (feedFrame (countRx d) f).1) :
    g = f ∨ Holds d g := by
  rw [(feedFrame_eq_slot (countRx d) f).1] at h
  exact (((slotAt d f.key).feed_mem f g).1 h).imp id fun hs => ⟨f.key, hs⟩

theorem holds_feedFrame {d : MuxDecoder Tagged} {f g : Msg}
    (h : Holds (feedFrame (countRx d) f).2 g) : g = f ∨ Holds d g := by
  obtain ⟨key, hkey⟩ := h
  rcases SessionView.stores_feedFrame hkey with hs | ⟨-, rfl | hs⟩
  · exact .inr ⟨key, hs⟩
  · exact .inl rfl
  · exact .inr ⟨f.key, hs⟩

/-- Everything a session of the client can do. -/
inductive Acted (s : Sys) : ClientAct → Sys → Prop
  | allocated (udp : Bool) (sid : UInt16) (c : Nat) (reg : SessionRegistry Tagged) :
      s.clientReg.allocate = (some (sid, c), reg) →
      Acted s (.allocate udp)
        { s with clientReg := reg, instances := s.instances ++ [⟨sid, udp, .allocated⟩] }
  | exhausted (udp : Bool) (reg : SessionRegistry Tagged) : s.clientReg.allocate = (none, reg) →
      Acted s (.allocate udp) { s with clientReg := reg }
  | opened (a : ClientAct) (i : Nat) (x : Instance) (payload : Bytes) :
      s.instances[i]? = some x → x.phase = .allocated →
      Acted s a (setPhase (clientSend s false ⟨.open, x.sid, 0, (i, payload)⟩) i .opened)
  | sent (a : ClientAct) (i : Nat) (x : Instance) (ftype : FrameType) (payload : Bytes) :
      s.instances[i]? = some x → x.phase = .opened → ftype = .data ∨ ftype = .fin →
      Acted s a (clientSend s false ⟨ftype, x.sid, 0, (i, payload)⟩)
  | cast (a : ClientAct) (i : Nat) (x : Instance) (payload : Bytes) :
      s.instances[i]? = some x → x.phase = .opened →
      Acted s a (clientSend s true ⟨.datagram, x.sid, 0, (i, payload)⟩)
  | closed (a : ClientAct) (i : Nat) (x : Instance) :
      s.instances[i]? = some x → x.phase ≠ .dropped →
      Acted s a (setPhase (clientSend s false ⟨.close, x.sid, 0, (i, [])⟩) i .closed)
  | dropped (a : ClientAct) (i : Nat) (x : Instance) :
      s.instances[i]? = some x → x.phase ≠ .dropped →
      Acted s a (setPhase { s with clientReg := dropReceiver (s.clientReg.remove x.sid) i } i
        .dropped)
  | controlled (a : ClientAct) (priority : Bool) (ftype : FrameType) (payload : Bytes) :
      isControl ftype = true → Acted s a (clientSend s priority ⟨ftype, 0, 0, (0, payload)⟩)

theorem acted {s t : Sys} {a : ClientAct} (h : clientAct s a = some t) : Acted s a t := by
  cases a with
  | allocate udp =>
      rw [clientAct] at h
      split at h
      next sid c reg halloc =>
        obtain rfl := Option.some.inj h
        exact .allocated udp sid c reg halloc
      next reg halloc =>
        obtain rfl := Option.some.inj h
        exact .exhausted udp reg halloc
  | «open» i payload =>
      obtain ⟨x, hx, h⟩ := Option.bind_eq_some_iff.mp h
      obtain ⟨hphase, rfl⟩ := Option.ite_some_none_eq_some.mp h
      exact .opened _ i x payload hx hphase
  | data i payload =>
      obtain ⟨x, hx, h⟩ := Option.bind_eq_some_iff.mp h
      obtain ⟨hphase, rfl⟩ := Option.ite_some_none_eq_some.mp h
      exact .sent _ i x .data payload hx hphase.1 (.inl rfl)
  | fin i =>
      obtain ⟨x, hx, h⟩ := Option.bind_eq_some_iff.mp h
      obtain ⟨hphase, rfl⟩ := Option.ite_some_none_eq_some.mp h
      exact .sent _ i x .fin [] hx hphase.1 (.inr rfl)
  | datagram i payload =>
      obtain ⟨x, hx, h⟩ := Option.bind_eq_some_iff.mp h
      obtain ⟨hphase, rfl⟩ := Option.ite_some_none_eq_some.mp h
      exact .cast _ i x payload hx hphase.1
  | close i =>
      obtain ⟨x, hx, h⟩ := Option.bind_eq_some_iff.mp h
      obtain ⟨hphase, rfl⟩ := Option.ite_some_none_eq_some.mp h
      exact .closed _ i x hx (by rcases hphase with h | h <;> simp [h])
  | drop i =>
      obtain ⟨x, hx, h⟩ := Option.bind_eq_some_iff.mp h
      obtain ⟨hphase, h⟩ := Option.ite_none_left_eq_some.mp h
      obtain rfl := Option.some.inj h
      exact .dropped _ i x hx hphase
  | control priority ftype payload =>
      obtain ⟨hcontrol, rfl⟩ := Option.ite_some_none_eq_some.mp h
      exact .controlled _ priority ftype payload hcontrol

/-- Everything a frame can make the server do. -/
inductive Dispatched (s : Sys) (f : Msg) : Sys → Prop
  | quiet (reg : SessionRegistry Tagged) : f.ftype ≠ .open →
    Dispatched s f { s with serverReg := reg }
  | reset (reg : SessionRegistry Tagged) : f.ftype = .data ∨ f.ftype = .datagram →
      (s.serverReg.route f.sessionId (.data f.payload)).1 = false →
      Dispatched s f
        (serverSend { s with serverReg := reg, answers := s.answers ++ [.reset (owner f)] } false
        ⟨.rst, f.sessionId, 0, (owner f, [])⟩)
  | accept (reg : SessionRegistry Tagged) : f.ftype = .open → Dispatched s f { s with
      serverReg := reg
      answers := s.answers ++ [.opened (owner f)]
      tasks := s.tasks ++ [⟨f.sessionId, owner f, false, false⟩] }
  | refuse (reg : SessionRegistry Tagged) : f.ftype = .open →
      Dispatched s f
        (serverSend { s with serverReg := reg, answers := s.answers ++ [.opened (owner f)] } false
        ⟨.close, f.sessionId, 0, (owner f, [])⟩)
  | pong (reg : SessionRegistry Tagged) : f.ftype = .heartbeat →
      Dispatched s f (serverSend { s with serverReg := reg } false ⟨.heartbeat, 0, 0, f.payload⟩)

theorem dispatchOneFrame_data {s : Sys} {f : Msg} (htype : f.ftype = .data ∨ f.ftype = .datagram) :
    dispatchOneFrame s f =
      if (s.serverReg.route f.sessionId (.data f.payload)).1 then
        { s with serverReg := (s.serverReg.route f.sessionId (.data f.payload)).2 }
      else serverSend { s with
        serverReg := (s.serverReg.route f.sessionId (.data f.payload)).2
        answers := s.answers ++ [.reset (owner f)] } false
          ⟨.rst, f.sessionId, 0, (owner f, [])⟩ := by
  have hframe : dispatchFrame f s.serverReg =
      (if (s.serverReg.route f.sessionId (.data f.payload)).1 then .routed else .unknownSession
        f.sessionId, (s.serverReg.route f.sessionId (.data f.payload)).2) := by
    rcases htype with h | h <;> rw [dispatchFrame, h]
  cases hroute : (s.serverReg.route f.sessionId (.data f.payload)).1 with
  | true =>
      rw [dispatchOneFrame, hframe, hroute]
      rfl
  | false =>
      rw [dispatchOneFrame, hframe, hroute]
      rfl

theorem dispatched (s : Sys) (f : Msg) : Dispatched s f (dispatchOneFrame s f) := by
  have hdata (htype : f.ftype = .data ∨ f.ftype = .datagram) :
      Dispatched s f (dispatchOneFrame s f) := by
    rw [dispatchOneFrame_data htype]
    split
    next => exact .quiet _ (by rcases htype with h | h <;> simp [h])
    next hroute => exact .reset _ htype (by simpa using hroute)
  have hroute (e : SessionEvent Tagged) (htype : f.ftype ≠ .open)
      (h : dispatchOneFrame s f = { s with serverReg := (s.serverReg.route f.sessionId e).2 }) :
      Dispatched s f (dispatchOneFrame s f) := by
    rw [h]
    exact .quiet _ htype
  cases htype : f.ftype with
  | data => exact hdata (.inl htype)
  | datagram => exact hdata (.inr htype)
  | «open» =>
      cases hreg : s.serverReg.registerSpecific f.sessionId with
      | mk r reg =>
          cases r with
          | some c =>
              simp only [dispatchOneFrame, dispatchFrame, htype, hreg]
              exact .accept reg htype
          | none =>
              simp only [dispatchOneFrame, dispatchFrame, htype, hreg]
              exact .refuse reg htype
  | heartbeat =>
      simp only [dispatchOneFrame, dispatchFrame, htype, if_true]
      exact .pong s.serverReg htype
  | fin => exact hroute .fin (by simp [htype]) (by simp only [dispatchOneFrame, dispatchFrame, htype])
  | close => exact hroute .close (by simp [htype]) (by simp only [dispatchOneFrame, dispatchFrame, htype])
  | rst => exact hroute .close (by simp [htype]) (by simp only [dispatchOneFrame, dispatchFrame, htype])
  | _ =>
      have hself : dispatchOneFrame s f = { s with serverReg := s.serverReg } := by
        simp [dispatchOneFrame, dispatchFrame, htype]
      rw [hself]
      exact .quiet s.serverReg (by simp [htype])

def regAfter (reg : SessionRegistry Tagged) (f : Msg) : SessionRegistry Tagged :=
  match dispatchFrame f reg with
  | (.open sid _, reg) => (reg.registerSpecific sid).2
  | (_, reg) => reg

theorem serverReg_dispatchOneFrame (s : Sys) (f : Msg) :
    (dispatchOneFrame s f).serverReg = regAfter s.serverReg f := by
  rw [dispatchOneFrame, regAfter]
  generalize dispatchFrame f s.serverReg = r
  obtain ⟨action, reg⟩ := r
  cases action with
  | «open» sid payload =>
      simp only
      cases hr : reg.registerSpecific sid with
      | mk x reg' => cases x <;> rfl
  | other =>
      simp only
      split <;> rfl
  | _ => rfl

theorem serverReg_foldl (out : List Msg) (s : Sys) :
    (out.foldl dispatchOneFrame s).serverReg = out.foldl regAfter s.serverReg := by
  induction out generalizing s with
  | nil => rfl
  | cons f out ih => rw [List.foldl_cons, List.foldl_cons, ih, serverReg_dispatchOneFrame]

theorem serverDec_foldl (out : List Msg) (s : Sys) :
    (out.foldl dispatchOneFrame s).serverDec = s.serverDec := by
  induction out generalizing s with
  | nil => rfl
  | cons f out ih =>
      rw [List.foldl_cons, ih]
      have h := dispatched s f
      generalize dispatchOneFrame s f = t at h ⊢
      cases h <;> rfl

/-- What the receive loop of the server keeps for every frame its decoder gives out, it keeps for a
message. -/
theorem serverRecv_induction {P : Sys → Prop} {s : Sys} {f : Msg}
    (h : P { s with
      serverDec := (feedFrame (countRx s.serverDec) f).2
      arrived := if f.ftype = .open then s.arrived ++ [owner f] else s.arrived })
    (hdispatch : ∀ u, P u → ∀ g ∈ (feedFrame (countRx s.serverDec) f).1,
      P (dispatchOneFrame u g)) : P (serverRecv s f) :=
  List.foldlRecOn _ _ h hdispatch

theorem clientRecv_induction {P : Sys → Prop} {s : Sys} {f : Msg}
    (h : P { s with clientDec := (feedFrame (countRx s.clientDec) f).2 })
    (hdispatch : ∀ u, P u → ∀ g ∈ (feedFrame (countRx s.clientDec) f).1, P (clientDispatch u g)) : P
      (clientRecv s f) :=
  List.foldlRecOn _ _ h hdispatch

theorem up_cases {s t : Sys} {act : LinkAct} (h : step s (.up act) = some t) :
    (∃ f link, s.up.act act = some (some f, link) ∧ t = serverRecv { s with up := link } f) ∨
      ∃ link, s.up.act act = some (none, link) ∧ t = { s with up := link } := by
  obtain ⟨⟨m, link⟩, hact, h⟩ := Option.bind_eq_some_iff.mp h
  cases m with
  | some f => exact .inl ⟨f, link, hact, (Option.some.inj h).symm⟩
  | none => exact .inr ⟨link, hact, (Option.some.inj h).symm⟩

theorem down_cases {s t : Sys} {act : LinkAct} (h : step s (.down act) = some t) :
    (∃ f link, s.down.act act = some (some f, link) ∧ t = clientRecv { s with down := link } f) ∨
      ∃ link, s.down.act act = some (none, link) ∧ t = { s with down := link } := by
  obtain ⟨⟨m, link⟩, hact, h⟩ := Option.bind_eq_some_iff.mp h
  cases m with
  | some f => exact .inl ⟨f, link, hact, (Option.some.inj h).symm⟩
  | none => exact .inr ⟨link, hact, (Option.some.inj h).symm⟩

/-- The frame is an Open the registry has room for. -/
def Opens (s : Sys) (f : Msg) : Prop :=
  f.ftype = .open ∧ f.sessionId ≠ 0 ∧ find s.serverReg.sessions f.sessionId = none

instance (s : Sys) (f : Msg) : Decidable (Opens s f) := inferInstanceAs (Decidable (_ ∧ _ ∧ _))

theorem registerSpecific_eq (s : Sys) {f : Msg} (h : f.ftype = .open) :
    s.serverReg.registerSpecific f.sessionId =
      if Opens s f then (some s.serverReg.channels.length, s.serverReg.register f.sessionId)
      else (none, s.serverReg) := by
  rw [SessionRegistry.registerSpecific]
  by_cases hz : f.sessionId = 0
  · rw [if_pos hz, if_neg fun ho => ho.2.1 hz]
  rw [if_neg hz]
  cases hfind : find s.serverReg.sessions f.sessionId with
  | none => rw [if_neg (by simp), if_pos ⟨h, hz, hfind⟩]
  | some c => rw [if_pos (by simp), if_neg fun ho => by simp [ho.2.2] at hfind]

theorem regAfter_eq (s : Sys) (f : Msg) : regAfter s.serverReg f =
    if Opens s f then s.serverReg.register f.sessionId else (dispatchFrame f s.serverReg).2 := by
  by_cases hopen : f.ftype = .open
  · have hframe : dispatchFrame f s.serverReg = (.open f.sessionId f.payload, s.serverReg) := by
      rw [dispatchFrame, hopen]
    simp only [regAfter, hframe, registerSpecific_eq s hopen]
    split <;> rfl
  · rw [if_neg fun ho => hopen ho.1, regAfter, dispatchFrame]
    cases htype : f.ftype with
    | «open» => exact absurd htype hopen
    | data => rcases s.serverReg.route f.sessionId (.data f.payload) with ⟨ok, reg⟩; cases ok
        <;> rfl
    | datagram =>
        rcases s.serverReg.route f.sessionId (.data f.payload) with ⟨ok, reg⟩; cases ok <;> rfl
    | _ => rfl

theorem tasks_dispatchOneFrame (s : Sys) (f : Msg) : (dispatchOneFrame s f).tasks =
    if Opens s f then s.tasks ++ [⟨f.sessionId, owner f, false, false⟩] else s.tasks := by
  by_cases hopen : f.ftype = .open
  · have hframe : dispatchFrame f s.serverReg = (.open f.sessionId f.payload, s.serverReg) := by
      rw [dispatchFrame, hopen]
    simp only [dispatchOneFrame, hframe, registerSpecific_eq s hopen]
    split
    next r reg hr =>
      split at hr
      next ho => rw [if_pos ho]
      next => simp at hr
    next reg hr =>
      split at hr
      next => simp at hr
      next ho => rw [if_neg ho]; rfl
  · rw [if_neg fun ho => hopen ho.1]
    have h := dispatched s f
    generalize dispatchOneFrame s f = t at h ⊢
    cases h with
    | quiet => rfl
    | reset => rfl
    | pong => rfl
    | accept _ ho => exact absurd ho hopen
    | refuse _ ho => exact absurd ho hopen

theorem taskAct_cases {s t : Sys} {j : Nat} {a : TaskAct} (h : taskAct s j a = some t) :
    ∃ x, s.tasks[j]? = some x ∧
      ((x.notified = false ∧ ∃ priority c, c.sessionId = x.sid ∧ c.payload.1 = x.owner ∧
        t = serverSend s priority c) ∨
      (∃ reg, t = { s with serverReg := reg }) ∨
      (x.notified = false ∧
        t = setTask (serverSend s false ⟨.close, x.sid, 0, (x.owner, [])⟩) j
          { x with notified := true }) ∨
      (x.notified = true ∧ ∃ reg,
        t = setTask { s with serverReg := reg } j { x with ended := true })) := by
  obtain ⟨x, hx, h⟩ := Option.bind_eq_some_iff.mp h
  refine ⟨x, hx, ?_⟩
  cases a with
  | data payload =>
      obtain ⟨hguard, heq⟩ := Option.ite_some_none_eq_some.mp h
      exact .inl ⟨hguard.1, false, _, rfl, rfl, heq.symm⟩
  | fin =>
      obtain ⟨hguard, heq⟩ := Option.ite_some_none_eq_some.mp h
      exact .inl ⟨hguard.1, false, _, rfl, rfl, heq.symm⟩
  | datagram payload =>
      obtain ⟨hguard, heq⟩ := Option.ite_some_none_eq_some.mp h
      exact .inl ⟨hguard.1, true, _, rfl, rfl, heq.symm⟩
  | drop session =>
      obtain ⟨-, heq⟩ := Option.ite_some_none_eq_some.mp h
      exact .inr (.inl ⟨_, heq.symm⟩)
  | notify =>
      obtain ⟨hguard, heq⟩ := Option.ite_some_none_eq_some.mp h
      exact .inr (.inr (.inl ⟨hguard, heq.symm⟩))
  | cleanup =>
      obtain ⟨hguard, heq⟩ := Option.ite_some_none_eq_some.mp h
      exact .inr (.inr (.inr ⟨hguard.1, _, heq.symm⟩))

end SrtVpn.Endpoints
