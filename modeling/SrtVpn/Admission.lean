import SrtVpn.AuthReplay
import SrtVpn.Dispatch
import SrtVpn.Heartbeats
import SrtVpn.Runs
import SrtVpn.StreamToken
import SrtVpn.TimeWindow

namespace SrtVpn.Admission

open BigEndian Text TextFields Wire Encoder Decoder Dispatch Runs Handshake AuthReplay

/-- What a connection brings along, and what the server's configuration says about it. -/
structure Setup where
  passphrase : Bytes
  streamid : Option Bytes
  reliable : Bool
  heartbeatSecs : Nat

/-- In milliseconds. -/
def heartbeatDur (c : Setup) : Nat := max c.heartbeatSecs 1 * 1000

def heartbeatDeadAfter : Nat := 3

def responseTimeout : Nat := 10000

def batchMax : Nat := 512

inductive Exit
  | closed
  | dead
  | unsent
  | panicked
  deriving DecidableEq, Repr

/-- Where the server's task for one client stands: `authenticate` up to `refused`, `handle_client`
from `serving` on. -/
inductive Stage
  | arrived
  | waiting (since : Nat) (nonce : Bytes) (serverTs : Int64) (buffered : List (Frame Bytes))
  | refused (error : String)
  | serving (dec : MuxDecoder Bytes) (since : Nat) (deadCount : Nat)
  | ended (why : Exit)

/-- One client at the server. The messages handed to the connection are kept with whether they went
into the priority queue, the forwarding tasks with the id and the payload of their Open. The last
five fields only record. -/
structure Visit where
  clock : Nat
  stage : Stage
  registry : SessionRegistry Bytes
  enc : MuxEncoder
  sent : List (Bool × Bytes)
  spawned : List (UInt16 × Bytes)
  received : List Bytes
  dispatched : List (Frame Bytes)
  checkedAt : Option (Int64 × Int64)
  heard : Nat
  beats : List Nat

def arrive (c : Setup) : Visit :=
  ⟨0, .arrived, .new, .newAcceptor c.reliable, [], [], [], [], none, 0, []⟩

def Visit.send (v : Visit) (call : Call Bytes) : Option Visit :=
  (encodeFrame v.enc call).map fun (msg, enc) =>
    { v with enc := enc, sent := v.sent ++ [(false, msg)] }

/-- Without a value where `encode_frame` fails its assertion. -/
def dispatchOneFrame (v : Visit) (frame : Frame Bytes) : Option Visit :=
  let (action, registry) := dispatchFrame frame v.registry
  let v : Visit := { v with registry := registry, dispatched := v.dispatched ++ [frame] }
  match action with
  | .unknownSession sid => v.send ⟨.rst, sid, 0, []⟩
  | .open sid payload =>
      match v.registry.registerSpecific sid with
      | (some _, registry) =>
          some { v with registry := registry, spawned := v.spawned ++ [(sid, payload)] }
      | (none, registry) => Visit.send { v with registry := registry } ⟨.close, sid, 0, []⟩
  | .other => if frame.ftype = .heartbeat then v.send ⟨.heartbeat, 0, 0, frame.payload⟩ else some v
  | _ => some v

def dispatchAll (v : Visit) : List (Frame Bytes) → Visit
  | [] => v
  | frame :: frames =>
      match dispatchOneFrame v frame with
      | some v => dispatchAll v frames
      | none => { v with stage := .ended .panicked }

def Visit.refuse (v : Visit) (error : String) : Visit := { v with stage := .refused error }

def Visit.leave (v : Visit) (why : Exit) :
    Visit := { v with stage := .ended why, registry := v.registry.closeAll.2 }

inductive Label
  | begin (buf : Bytes) (serverTs : Int64) (failure : Option String)
  | message (msg : Bytes) (now now' : Int64)
  | batch (msgs : List Bytes)
  | gone
  | timeout
  | tick (nowMs : Int64) (failure : Option String)
  | wait (ms : Nat)
  | task (registry : SessionRegistry Bytes) (enc : MuxEncoder) (msgs : List (Bool × Bytes))

def admitted : Stage → Bool
  | .serving .. | .ended _ => true
  | _ => false

section Source

variable (hmac : Bytes → Bytes → Bytes) (hex : Hex) (c : Setup)

def challenge (nonce : Bytes) (serverTs : Int64) : Call Bytes :=
  ⟨.challenge, 0, 0, challengePayload nonce serverTs⟩

/-- `authenticate` up to its wait, with the bytes that were drawn, the clock and what `send`
returned. -/
def greet (v : Visit) (buf : Bytes) (serverTs : Int64) (failure : Option String) : Visit :=
  match c.streamid with
  | none => v.refuse "客户端未提供 streamid"
  | some sid =>
      if StreamToken.verifyToken hmac hex sid c.passphrase = false then v.refuse "streamid 静态令牌校验失败"
      else
        match encodeFrame (.new true) (challenge (generateNonce hex buf) serverTs) with
        | none => { v with stage := .ended .panicked }
        | some (msg, _) =>
            let v : Visit := { v with sent := v.sent ++ [(false, msg)] }
            match failure with
            | some e => v.refuse ("发送 CHALLENGE 失败: " ++ e)
            | none => { v with stage := .waiting v.clock (generateNonce hex buf) serverTs [] }

/-- `handle_client` up to its loop. -/
def letIn (v : Visit) (buffered : List (Frame Bytes)) : Visit :=
  dispatchAll { v with stage := .serving .new v.clock 0, heard := v.clock } buffered

/-- A message that arrives while `authenticate` waits. -/
def hear (v : Visit) (since : Nat) (nonce : Bytes) (serverTs : Int64)
    (buffered : List (Frame Bytes)) (msg : Bytes) (now now' : Int64) : Visit :=
  let v : Visit := { v with received := v.received ++ [msg] }
  match decodeFrame msg with
  | none => v
  | some f =>
      if f.ftype = .response then
        match acceptResponse hmac hex now now' c.passphrase nonce serverTs f.payload with
        | .error e => v.refuse e
        | .ok _ => letIn { v with checkedAt := some (now, now') } buffered
      else if usesSessionOrder f.ftype then
        { v with stage := .waiting since nonce serverTs (buffered ++ [f]) }
      else v

def receive (v : Visit) (dec : MuxDecoder Bytes) (msgs : List Bytes) : Visit :=
  let (frames, dec) := feedAll dec msgs
  dispatchAll { v with received := v.received ++ msgs, heard := v.clock, stage := .serving dec v.clock 0 } frames

def beat (v : Visit) (dec : MuxDecoder Bytes) (deadCount : Nat) (nowMs : Int64)
    (failure : Option String) : Visit :=
  if heartbeatDeadAfter ≤ deadCount + 1 then v.leave .dead
  else
    match encodeFrame v.enc ⟨.heartbeat, 0, 0, Heartbeats.encodeHeartbeat nowMs⟩ with
    | none => { v with stage := .ended .panicked }
    | some (msg, enc) =>
        let v : Visit := { v with enc := enc, sent := v.sent ++ [(true, msg)], beats := v.beats ++ [v.clock] }
        match failure with
        | some _ => v.leave .unsent
        | none => { v with stage := .serving dec v.clock (deadCount + 1) }

/-- Between two iterations of either loop no time passes. What the forwarding tasks do to the
registry, the encoder and the connection may be anything, once there is one. -/
def step (v : Visit) : Label → Option Visit
  | .begin buf serverTs failure =>
      match v.stage with
      | .arrived => if buf.length = 16 then some (greet hmac hex c v buf serverTs failure) else none
      | _ => none
  | .message msg now now' =>
      match v.stage with
      | .waiting since nonce serverTs buffered =>
          some (hear hmac hex c v since nonce serverTs buffered msg now now')
      | _ => none
  | .batch msgs =>
      match v.stage with
      | .serving dec _ _ =>
          if msgs ≠ [] ∧ msgs.length ≤ batchMax then some (receive v dec msgs) else none
      | _ => none
  | .gone =>
      match v.stage with
      | .waiting .. => some (v.refuse "等待客户端 RESPONSE 超时或连接断开")
      | .serving .. => some (v.leave .closed)
      | _ => none
  | .timeout =>
      match v.stage with
      | .waiting since _ _ _ =>
          if since + responseTimeout ≤ v.clock then some (v.refuse "等待 RESPONSE 超时（10s）") else none
      | _ => none
  | .tick nowMs failure =>
      match v.stage with
      | .serving dec since deadCount =>
          if since + heartbeatDur c ≤ v.clock then some (beat v dec deadCount nowMs failure)
          else none
      | _ => none
  | .wait ms => some { v with clock := v.clock + ms }
  | .task registry enc msgs =>
      if v.spawned = [] then none
      else some { v with registry := registry, enc := enc, sent := v.sent ++ msgs }

end Source

section Dispatching

variable {v v' : Visit} {frame : Frame Bytes} {frames : List (Frame Bytes)}

structure Along (v v' : Visit) : Prop where
  clock : v'.clock = v.clock
  received : v'.received = v.received
  checkedAt : v'.checkedAt = v.checkedAt
  heard : v'.heard = v.heard
  beats : v'.beats = v.beats
  sent : v.sent <+: v'.sent

theorem Along.trans {v'' : Visit} (h : Along v v') (h' : Along v' v'') : Along v v'' :=
  ⟨h'.clock.trans h.clock, h'.received.trans h.received, h'.checkedAt.trans h.checkedAt,
    h'.heard.trans h.heard, h'.beats.trans h.beats, h.sent.trans h'.sent⟩

theorem send_along {call : Call Bytes} (h : v.send call = some v') :
    Along v v' ∧ v'.stage = v.stage ∧ v'.dispatched = v.dispatched := by
  obtain ⟨⟨msg, enc⟩, -, rfl⟩ := Option.map_eq_some_iff.mp h
  exact ⟨⟨rfl, rfl, rfl, rfl, rfl, List.prefix_append _ _⟩, rfl, rfl⟩

theorem dispatchOneFrame_along (h : dispatchOneFrame v frame = some v') :
    Along v v' ∧ v'.stage = v.stage ∧ v'.dispatched = v.dispatched ++ [frame] := by
  have hsame (registry : SessionRegistry Bytes) (spawned : List (UInt16 × Bytes)) :
      Along v { v with
        registry := registry
        spawned := spawned
        dispatched := v.dispatched ++ [frame] } :=
    ⟨rfl, rfl, rfl, rfl, rfl, List.prefix_rfl⟩
  rw [dispatchOneFrame] at h
  cases hdispatch : dispatchFrame frame v.registry with
  | mk action registry =>
      rw [hdispatch] at h
      cases action with
      | unknownSession sid =>
          obtain ⟨halong, hstage, hdispatched⟩ := send_along h
          exact ⟨(hsame _ _).trans halong, hstage, hdispatched⟩
      | «open» sid payload =>
          dsimp only at h
          split at h
          next =>
            obtain rfl := Option.some.inj h
            exact ⟨hsame _ _, rfl, rfl⟩
          next =>
            obtain ⟨halong, hstage, hdispatched⟩ := send_along h
            exact ⟨(hsame _ _).trans halong, hstage, hdispatched⟩
      | other =>
          dsimp only at h
          split at h
          next =>
            obtain ⟨halong, hstage, hdispatched⟩ := send_along h
            exact ⟨(hsame _ _).trans halong, hstage, hdispatched⟩
          next =>
            obtain rfl := Option.some.inj h
            exact ⟨hsame _ _, rfl, rfl⟩
      | routed | fin | closed | rst =>
          obtain rfl := Option.some.inj h
          exact ⟨hsame _ _, rfl, rfl⟩

theorem dispatchAll_along (v : Visit) (frames : List (Frame Bytes)) :
    Along v (dispatchAll v frames) ∧
    ∃ done, done <+: frames ∧ (dispatchAll v frames).dispatched = v.dispatched ++ done ∧
      (((dispatchAll v frames).stage = v.stage ∧ done = frames) ∨
        (dispatchAll v frames).stage = .ended .panicked) := by
  induction frames generalizing v with
  | nil => exact ⟨⟨rfl, rfl, rfl, rfl, rfl, List.prefix_rfl⟩, [], List.prefix_rfl,
      (List.append_nil _).symm, .inl ⟨rfl, rfl⟩⟩
  | cons frame frames ih =>
      rw [dispatchAll]
      cases hone : dispatchOneFrame v frame with
      | none =>
          exact ⟨⟨rfl, rfl, rfl, rfl, rfl, List.prefix_rfl⟩, [], List.nil_prefix,
            (List.append_nil _).symm, .inr rfl⟩
      | some v' =>
          obtain ⟨halong, hstage, hdispatched⟩ := dispatchOneFrame_along hone
          obtain ⟨halong', done, hdone, hall, hend⟩ := ih v'
          refine ⟨halong.trans halong', frame :: done, (List.prefix_cons_inj frame).mpr hdone,
            ?_, ?_⟩
          · rw [hall, hdispatched, List.append_assoc, List.singleton_append]
          · rcases hend with ⟨hsame, rfl⟩ | hpanic
            · exact .inl ⟨hsame.trans hstage, rfl⟩
            · exact .inr hpanic

end Dispatching

section Steps

variable {hmac : Bytes → Bytes → Bytes} {hex : Hex} {c : Setup} {v v' : Visit}

theorem begin_eq {buf : Bytes} {serverTs : Int64} {failure : Option String}
    (h : step hmac hex c v (.begin buf serverTs failure) = some v') :
    v.stage = .arrived ∧ buf.length = 16 ∧ v' = greet hmac hex c v buf serverTs failure := by
  simp only [step] at h
  split at h
  next hstage =>
    obtain ⟨hbuf, heq⟩ := Option.ite_none_right_eq_some.mp h
    exact ⟨hstage, hbuf, (Option.some.inj heq).symm⟩
  next => cases h

theorem message_eq {msg : Bytes} {now now' : Int64}
    (h : step hmac hex c v (.message msg now now') = some v') :
    ∃ since nonce serverTs buffered, v.stage = .waiting since nonce serverTs buffered ∧
      v' = hear hmac hex c v since nonce serverTs buffered msg now now' := by
  simp only [step] at h
  split at h
  next since nonce serverTs buffered hstage =>
    exact ⟨since, nonce, serverTs, buffered, hstage, (Option.some.inj h).symm⟩
  next => cases h

theorem batch_eq {msgs : List Bytes} (h : step hmac hex c v (.batch msgs) = some v') :
    ∃ dec since deadCount, v.stage = .serving dec since deadCount ∧
    (msgs ≠ [] ∧ msgs.length ≤ batchMax) ∧ v' = receive v dec msgs := by
  simp only [step] at h
  split at h
  next dec since deadCount hstage =>
    obtain ⟨hmsgs, heq⟩ := Option.ite_none_right_eq_some.mp h
    exact ⟨dec, since, deadCount, hstage, hmsgs, (Option.some.inj heq).symm⟩
  next => cases h

theorem gone_eq (h : step hmac hex c v .gone = some v') :
    (∃ since nonce serverTs buffered, v.stage = .waiting since nonce serverTs buffered ∧
      v' = v.refuse "等待客户端 RESPONSE 超时或连接断开") ∨
    ∃ dec since deadCount, v.stage = .serving dec since deadCount ∧ v' = v.leave .closed := by
  simp only [step] at h
  split at h
  next since nonce serverTs buffered hstage =>
    exact .inl ⟨since, nonce, serverTs, buffered, hstage, (Option.some.inj h).symm⟩
  next dec since deadCount hstage =>
    exact .inr ⟨dec, since, deadCount, hstage, (Option.some.inj h).symm⟩
  next => cases h

theorem timeout_eq (h : step hmac hex c v .timeout = some v') :
    ∃ since nonce serverTs buffered, v.stage = .waiting since nonce serverTs buffered ∧
      since + responseTimeout ≤ v.clock ∧ v' = v.refuse "等待 RESPONSE 超时（10s）" := by
  simp only [step] at h
  split at h
  next since nonce serverTs buffered hstage =>
    obtain ⟨hdue, heq⟩ := Option.ite_none_right_eq_some.mp h
    exact ⟨since, nonce, serverTs, buffered, hstage, hdue, (Option.some.inj heq).symm⟩
  next => cases h

theorem tick_eq {nowMs : Int64} {failure : Option String}
    (h : step hmac hex c v (.tick nowMs failure) = some v') :
    ∃ dec since deadCount, v.stage = .serving dec since deadCount ∧
      since + heartbeatDur c ≤ v.clock ∧ v' = beat v dec deadCount nowMs failure := by
  simp only [step] at h
  split at h
  next dec since deadCount hstage =>
    obtain ⟨hdue, heq⟩ := Option.ite_none_right_eq_some.mp h
    exact ⟨dec, since, deadCount, hstage, hdue, (Option.some.inj heq).symm⟩
  next => cases h

theorem task_eq {registry : SessionRegistry Bytes} {enc : MuxEncoder} {msgs : List (Bool × Bytes)}
    (h : step hmac hex c v (.task registry enc msgs) = some v') :
    v.spawned ≠ [] ∧ v' = { v with registry := registry, enc := enc, sent := v.sent ++ msgs } := by
  obtain ⟨hspawned, heq⟩ := Option.ite_none_left_eq_some.mp h
  exact ⟨hspawned, (Option.some.inj heq).symm⟩

end Steps

section Gate

variable {hmac : Bytes → Bytes → Bytes} {hex : Hex} {c : Setup} {v v' : Visit}

theorem length_formatI64_le (n : Int64) : (formatI64 n).length ≤ 20 := by
  have hlow := n.le_toInt
  have hhigh := n.toInt_lt
  have hdigits : (decimal n.toInt.natAbs).length ≤ 19 := by
    rw [decimal, List.length_map, Nat.length_toDigits_le_iff (by decide) (by decide)]
    omega
  rw [formatI64]
  split
  · rw [List.length_cons]
    omega
  · omega

def challengeMsg (nonce : Bytes) (serverTs : Int64) : Bytes :=
  frameBytes (stamp (.new true) (challenge nonce serverTs)).1

theorem encode_challenge {buf : Bytes} (hbuf : buf.length = 16) (serverTs : Int64) :
    encodeFrame (.new true) (challenge (generateNonce hex buf) serverTs) =
      some (challengeMsg (generateNonce hex buf) serverTs,
        (stamp (.new true) (challenge (generateNonce hex buf) serverTs)).2) := by
  have hts := length_formatI64_le serverTs
  have hnonce : (generateNonce hex buf).length = 2 * buf.length := hex.length_encode buf
  have hlength : (challenge (generateNonce hex buf) serverTs).payload.length ≤ frameDataMax := by
    simp only [challenge, challengePayload, List.length_append, hnonce, hbuf,
      show (ascii "nonce=").length =
          6 by decide +kernel, show (ascii ",ts=").length = 4 by decide +kernel, frameDataMax]
    omega
  exact if_pos hlength

/-- Nothing has been done for the client, but that the Challenge may have been sent. -/
structure Outside (c : Setup) (v : Visit) : Prop where
  registry : v.registry = .new
  enc : v.enc = .newAcceptor c.reliable
  spawned : v.spawned = []
  dispatched : v.dispatched = []
  sent : v.sent = [] ∨ ∃ nonce serverTs, v.sent = [(false, challengeMsg nonce serverTs)]

def Fresh (now ts : Int64) : Prop := (now - ts).abs ≤ authTimeWindowSecs

/-- The payload of a Response made with the passphrase, for the server's own time or one of the
client's that the server's clock bears out. -/
def Answers (hmac : Bytes → Bytes → Bytes) (hex : Hex) (passphrase nonce : Bytes)
    (serverTs now now' : Int64) (payload : Bytes) : Prop :=
  ∃ ts resp, parseResponse payload = .ok (ts, resp) ∧
    (resp = computeResponse hmac hex passphrase nonce serverTs ∧ Fresh now serverTs ∨
      resp = computeResponse hmac hex passphrase nonce ts ∧ Fresh now' ts)

theorem accepted_dual {passphrase nonce payload : Bytes} {serverTs now now' delta : Int64}
    (h : acceptResponse hmac hex now now' passphrase nonce serverTs payload = .ok delta) :
    ∃ ts resp, parseResponse payload = .ok (ts, resp) ∧
      verifyResponseDual hmac hex now now' passphrase nonce serverTs ts resp =
        .ok (true, delta) := by
  rw [acceptResponse] at h
  cases hparse : parseResponse payload with
  | error e =>
      rw [hparse] at h
      cases h
  | ok read =>
      obtain ⟨ts, resp⟩ := read
      rw [hparse] at h
      refine ⟨ts, resp, rfl, ?_⟩
      simp only [bind, Except.bind] at h
      cases hdual : verifyResponseDual hmac hex now now' passphrase nonce serverTs ts resp with
      | error e =>
          rw [hdual] at h
          cases h
      | ok verdict =>
          obtain ⟨ok, clockDelta⟩ := verdict
          rw [hdual] at h
          cases ok with
          | true =>
              obtain rfl := Except.ok.inj h
              rfl
          | false =>
              simp only [Except.mapError, Bool.false_eq_true, if_false] at h
              split at h
              all_goals cases h

theorem answers_of_accepted {passphrase nonce payload : Bytes} {serverTs now now' delta : Int64}
    (h : acceptResponse hmac hex now now' passphrase nonce serverTs payload = .ok delta) :
    Answers hmac hex passphrase nonce serverTs now now' payload := by
  obtain ⟨ts, resp, hparse, hdual⟩ := accepted_dual h
  refine ⟨ts, resp, hparse, ?_⟩
  rw [verifyResponseDual] at hdual
  split at hdual
  next hserver =>
    split at hdual
    next hfresh => exact .inl ⟨hserver.symm, hfresh⟩
    next => simp at hdual
  next =>
    cases hok : verifyResponse hmac hex now' passphrase nonce ts resp with
    | error e =>
        rw [hok] at hdual
        cases hdual
    | ok verdict =>
        rw [hok] at hdual
        obtain ⟨rfl, -⟩ := Prod.mk.inj (Except.ok.inj hdual)
        obtain ⟨hfresh, hresp⟩ :=
          (TimeWindow.verifyResponse_iff hmac hex passphrase nonce resp now' ts).mp hok
        exact .inr ⟨hresp, hfresh⟩

def Token (hmac : Bytes → Bytes → Bytes) (hex : Hex) (c : Setup) : Prop :=
  ∃ sid, c.streamid = some sid ∧ StreamToken.verifyToken hmac hex sid c.passphrase = true

/-- The first Response among the messages answered the Challenge that was sent first. -/
structure Entry (hmac : Bytes → Bytes → Bytes) (hex : Hex) (c : Setup) (v : Visit)
    (before : List Bytes) (msg : Bytes) (after : List Bytes) : Prop where
  token : Token hmac hex c
  received : v.received = before ++ msg :: after
  first : ∀ f ∈ before.filterMap decodeFrame, f.ftype ≠ .response
  answered : ∃ buf serverTs f now now', buf.length = 16 ∧
    v.sent.head? = some (false, challengeMsg (generateNonce hex buf) serverTs) ∧
    decodeFrame msg = some f ∧ f.ftype = .response ∧
    v.checkedAt = some (now, now') ∧
    Answers hmac hex c.passphrase (generateNonce hex buf) serverTs now now' f.payload

/-- The session frames in front of the Response as they came, then what the decoder of
`handle_client` returns. -/
def toDispatch (before after : List Bytes) : List (Frame Bytes) :=
  (before.filterMap decodeFrame).filter sessionFrame ++ (feedAll .new after).1

/-- The task dispatches what its two functions do on the messages as a whole. -/
theorem Entry.dispatched {before after : List Bytes} {msg : Bytes}
    (h : Entry hmac hex c v before msg after) :
    dispatched v.received = some (toDispatch before after) := by
  obtain ⟨-, -, f, -, -, -, -, hdecode, hresponse, -⟩ := h.answered
  rw [AuthReplay.dispatched, h.received,
    awaitResponse_append before msg after [] h.first hdecode hresponse]
  rfl

/-- The client has shown that it knows the passphrase; all that was dispatched came from it. -/
def Inside (hmac : Bytes → Bytes → Bytes) (hex : Hex) (c : Setup) (v : Visit) : Prop :=
  ∃ before msg after, Entry hmac hex c v before msg after ∧
  v.dispatched <+: toDispatch before after ∧
    (v.stage ≠ .ended .panicked → v.dispatched = toDispatch before after)

structure Awaits (hmac : Bytes → Bytes → Bytes) (hex : Hex) (c : Setup) (v : Visit) (nonce : Bytes)
    (serverTs : Int64) (buffered : List (Frame Bytes)) : Prop where
  outside : Outside c v
  token : Token hmac hex c
  drawn : ∃ buf, buf.length = 16 ∧ nonce = generateNonce hex buf
  sent : v.sent = [(false, challengeMsg nonce serverTs)]
  first : ∀ f ∈ v.received.filterMap decodeFrame, f.ftype ≠ .response
  buffered : buffered = (v.received.filterMap decodeFrame).filter sessionFrame

def Guarded (hmac : Bytes → Bytes → Bytes) (hex : Hex) (c : Setup) (v : Visit) : Prop :=
  match v.stage with
  | .arrived => Outside c v ∧ v.sent = [] ∧ v.received = []
  | .waiting _ nonce serverTs buffered => Awaits hmac hex c v nonce serverTs buffered
  | .refused _ => Outside c v
  | .serving dec _ _ => ∃ before msg after, Entry hmac hex c v before msg after ∧
      v.dispatched = toDispatch before after ∧ dec = (feedAll .new after).2
  | .ended _ => Inside hmac hex c v

theorem Outside.same (h : Outside c v) (hregistry : v'.registry = v.registry)
    (henc : v'.enc = v.enc) (hspawned : v'.spawned = v.spawned)
    (hdispatched : v'.dispatched = v.dispatched) (hsent : v'.sent = v.sent) : Outside c v' :=
  ⟨hregistry.trans h.registry, henc.trans h.enc, hspawned.trans h.spawned,
    hdispatched.trans h.dispatched, by rw [hsent]; exact h.sent⟩

theorem Entry.keep {before after more : List Bytes} {msg : Bytes}
    (h : Entry hmac hex c v before msg after) (hreceived : v'.received = v.received ++ more)
    (hchecked : v'.checkedAt = v.checkedAt) (hsent : v.sent <+: v'.sent) :
    Entry hmac hex c v' before msg (after ++ more) := by
  obtain ⟨buf, serverTs, f, now, now', hbuf, hhead, hrest⟩ := h.answered
  obtain ⟨rest, hsent⟩ := hsent
  refine ⟨h.token,
    by rw [hreceived, h.received, List.append_assoc, List.cons_append], h.first, buf, serverTs, f,
    now, now', hbuf, ?_, ?_⟩
  · rw [← hsent, List.head?_append, hhead, Option.some_or]
  · rw [hchecked]
    exact hrest

theorem feedAll_append (d : MuxDecoder Bytes) (msgs more : List Bytes) : feedAll d (msgs ++ more) =
    ((feedAll d msgs).1 ++ (feedAll (feedAll d msgs).2 more).1,
      (feedAll (feedAll d msgs).2 more).2) := by
  simp [feedAll, Transducer.run_append]

theorem guarded_dispatchAll {before after : List Bytes} {msg : Bytes} {frames : List (Frame Bytes)}
    {since deadCount : Nat} (h : Entry hmac hex c v before msg after)
    (hstage : v.stage = .serving (feedAll .new after).2 since deadCount)
    (hframes : v.dispatched ++ frames = toDispatch before after) :
    Guarded hmac hex c (dispatchAll v frames) := by
  obtain ⟨halong, done, hdone, hdispatched, hend⟩ := dispatchAll_along v frames
  have hentry : Entry hmac hex c (dispatchAll v frames) before msg (after ++ []) :=
    h.keep (halong.received.trans (List.append_nil _).symm) halong.checkedAt halong.sent
  rw [List.append_nil] at hentry
  rcases hend with ⟨hsame, rfl⟩ | hpanic
  · rw [Guarded, hsame, hstage]
    exact ⟨before, msg, after, hentry, hdispatched.trans hframes, rfl⟩
  · rw [Guarded, hpanic]
    refine ⟨before, msg, after, hentry, ?_, fun hne => absurd hpanic hne⟩
    rw [hdispatched, ← hframes]
    exact (List.prefix_append_right_inj _).mpr hdone

theorem guarded_greet (h : Outside c v) (hsent : v.sent = []) (hreceived : v.received = [])
    {buf : Bytes} (hbuf : buf.length = 16) (serverTs : Int64) (failure : Option String) :
    Guarded hmac hex c (greet hmac hex c v buf serverTs failure) := by
  rw [greet]
  cases hstreamid : c.streamid with
  | none => exact h.same rfl rfl rfl rfl rfl
  | some sid =>
      simp only
      by_cases htoken : StreamToken.verifyToken hmac hex sid c.passphrase = false
      · rw [if_pos htoken]
        exact h.same rfl rfl rfl rfl rfl
      · have hout (stage : Stage) :
            Outside c { v with stage := stage, sent := v.sent ++
              [(false, challengeMsg (generateNonce hex buf) serverTs)] } :=
          ⟨h.registry, h.enc, h.spawned, h.dispatched,
            .inr ⟨generateNonce hex buf, serverTs, by rw [hsent]; rfl⟩⟩
        rw [if_neg htoken, encode_challenge hbuf]
        cases failure with
        | some e => exact hout _
        | none =>
            exact ⟨hout _, ⟨sid, hstreamid, (Bool.not_eq_false _).mp htoken⟩, ⟨buf, hbuf, rfl⟩,
              by rw [hsent]; rfl, by simp [hreceived], by simp [hreceived]⟩

theorem guarded_hear {since : Nat} {nonce : Bytes} {serverTs : Int64}
    {buffered : List (Frame Bytes)} (h : Awaits hmac hex c v nonce serverTs buffered)
    (hstage : v.stage = .waiting since nonce serverTs buffered) (msg : Bytes)
    (now now' : Int64) :
    Guarded hmac hex c (hear hmac hex c v since nonce serverTs buffered msg now now') := by
  have hout (stage : Stage) (checkedAt : Option (Int64 × Int64)) :
      Outside c { v with stage := stage, received := v.received ++ [msg], checkedAt := checkedAt } :=
    h.outside.same rfl rfl rfl rfl rfl
  have hstay {buffered' : List (Frame Bytes)} (hnone : ∀ f ∈ [msg].filterMap decodeFrame,
      f.ftype ≠ .response) (hbuffered : buffered' =
        buffered ++ ([msg].filterMap decodeFrame).filter sessionFrame) :
      Awaits hmac hex c
        { v with stage := .waiting since nonce serverTs buffered', received := v.received ++ [msg] }
        nonce serverTs buffered' := by
    refine ⟨hout _ _, h.token, h.drawn, h.sent, ?_, ?_⟩
    · intro f hf
      rw [List.filterMap_append] at hf
      rcases List.mem_append.mp hf with hf | hf
      · exact h.first f hf
      · exact hnone f hf
    · rw [hbuffered, h.buffered, List.filterMap_append, List.filter_append]
  rw [hear]
  cases hdecode : decodeFrame msg with
  | none =>
      simp only [Guarded, hstage]
      exact hstay (by simp [hdecode]) (by simp [hdecode])
  | some f =>
      simp only
      by_cases hresponse : f.ftype = .response
      · rw [if_pos hresponse]
        cases haccept : acceptResponse hmac hex now now' c.passphrase nonce serverTs f.payload with
        | error e => exact hout _ _
        | ok delta =>
            obtain ⟨buf, hbuf, rfl⟩ := h.drawn
            have hentry : Entry hmac hex c { v with
                received := v.received ++ [msg]
                checkedAt := some (now, now')
                stage := .serving .new v.clock 0
                heard := v.clock } v.received msg [] :=
              ⟨h.token, rfl, h.first, buf, serverTs, f, now, now', hbuf,
                by rw [h.sent]; rfl, hdecode, hresponse, rfl, answers_of_accepted haccept⟩
            refine guarded_dispatchAll hentry rfl ?_
            rw [h.outside.dispatched, h.buffered]
            exact (List.append_nil _).symm
      · rw [if_neg hresponse]
        have hnone : ∀ g ∈ [msg].filterMap decodeFrame, g.ftype ≠ .response := by
          simp [hdecode, hresponse]
        by_cases horder : usesSessionOrder f.ftype = true
        · rw [if_pos horder]
          exact hstay hnone (by simp [hdecode, sessionFrame, horder])
        · rw [if_neg horder]
          simp only [Guarded, hstage]
          exact hstay hnone (by simp [hdecode, sessionFrame, horder])

theorem guarded_receive {before after msgs : List Bytes} {msg : Bytes}
    (h : Entry hmac hex c v before msg after)
    (hdispatched : v.dispatched = toDispatch before after) :
    Guarded hmac hex c (receive v (feedAll .new after).2 msgs) := by
  have hmore := feedAll_append .new after msgs
  have hstage : (feedAll (feedAll .new after).2 msgs).2 = (feedAll .new (after ++ msgs)).2 := by
    rw [hmore]
  refine guarded_dispatchAll (h.keep rfl rfl List.prefix_rfl)
    (congrArg (fun d => Stage.serving d v.clock 0) hstage) ?_
  rw [hdispatched, toDispatch, toDispatch, hmore, List.append_assoc]
  rfl

theorem Entry.inside {before after : List Bytes} {msg : Bytes}
    (h : Entry hmac hex c v before msg after) (hdispatched : v.dispatched = toDispatch before after)
    (hreceived : v'.received = v.received) (hchecked : v'.checkedAt = v.checkedAt)
    (hsent : v.sent <+: v'.sent) (hsame : v'.dispatched = v.dispatched) : Inside hmac hex c v' := by
  have hentry : Entry hmac hex c v' before msg (after ++ []) :=
    h.keep (hreceived.trans (List.append_nil _).symm) hchecked hsent
  rw [List.append_nil] at hentry
  have hall := hsame.trans hdispatched
  exact ⟨before, msg, after, hentry, hall ▸ List.prefix_rfl, fun _ => hall⟩

theorem guarded_beat {before after : List Bytes} {msg : Bytes}
    (h : Entry hmac hex c v before msg after) (hdispatched : v.dispatched = toDispatch before after)
    (deadCount : Nat) (nowMs : Int64) (failure : Option String) :
    Guarded hmac hex c (beat v (feedAll .new after).2 deadCount nowMs failure) := by
  rw [beat]
  split
  · exact h.inside hdispatched rfl rfl List.prefix_rfl rfl
  · split
    next => exact h.inside hdispatched rfl rfl List.prefix_rfl rfl
    next msg' enc henc =>
      cases failure with
      | some e => exact h.inside hdispatched rfl rfl (List.prefix_append _ _) rfl
      | none =>
          have hentry : Entry hmac hex c { v with
              enc := enc
              sent := v.sent ++ [(true, msg')]
              beats := v.beats ++ [v.clock]
              stage := .serving (feedAll .new after).2 v.clock (deadCount + 1) } before msg
                (after ++ []) :=
            h.keep (List.append_nil _).symm rfl (List.prefix_append _ _)
          rw [List.append_nil] at hentry
          exact ⟨before, msg, after, hentry, hdispatched, rfl⟩

theorem Guarded.outside (h : Guarded hmac hex c v) (hout : admitted v.stage = false) :
    Outside c v := by
  rw [Guarded] at h
  cases hstage : v.stage with
  | arrived =>
      rw [hstage] at h
      exact h.1
  | waiting since nonce serverTs buffered =>
      rw [hstage] at h
      exact Awaits.outside h
  | refused error =>
      rw [hstage] at h
      exact h
  | serving dec since deadCount =>
      rw [hstage] at hout
      cases hout
  | ended why =>
      rw [hstage] at hout
      cases hout

theorem Guarded.inside (h : Guarded hmac hex c v) (hin : admitted v.stage = true) :
    Inside hmac hex c v := by
  rw [Guarded] at h
  cases hstage : v.stage with
  | serving dec since deadCount =>
      rw [hstage] at h
      obtain ⟨before, msg, after, hentry, hdispatched, -⟩ := h
      exact hentry.inside hdispatched rfl rfl List.prefix_rfl rfl
  | ended why =>
      rw [hstage] at h
      exact h
  | arrived =>
      rw [hstage] at hin
      cases hin
  | waiting since nonce serverTs buffered =>
      rw [hstage] at hin
      cases hin
  | refused error =>
      rw [hstage] at hin
      cases hin

theorem Guarded.admitted_of_spawned (h : Guarded hmac hex c v) (hspawned : v.spawned ≠ []) :
    admitted v.stage = true := by
  by_contra hout
  exact hspawned (h.outside (Bool.not_eq_true _ ▸ hout)).spawned

theorem Guarded.onward (h : Guarded hmac hex c v) (hin : admitted v.stage = true)
    (hstage : v'.stage = v.stage) (hreceived : v'.received = v.received)
    (hchecked : v'.checkedAt = v.checkedAt) (hsent : v.sent <+: v'.sent)
    (hdispatched : v'.dispatched = v.dispatched) : Guarded hmac hex c v' := by
  have hentry {before after : List Bytes} {msg : Bytes} (h : Entry hmac hex c v before msg after) :
      Entry hmac hex c v' before msg after := by
    have hkeep : Entry hmac hex c v' before msg (after ++ []) :=
      h.keep (hreceived.trans (List.append_nil _).symm) hchecked hsent
    rwa [List.append_nil] at hkeep
  rw [Guarded, hstage]
  rw [Guarded] at h
  cases hv : v.stage with
  | serving dec since deadCount =>
      rw [hv] at h
      obtain ⟨before, msg, after, hold, hall, hdec⟩ := h
      exact ⟨before, msg, after, hentry hold, hdispatched.trans hall, hdec⟩
  | ended why =>
      rw [hv] at h
      obtain ⟨before, msg, after, hold, hpre, hall⟩ := h
      refine ⟨before, msg, after, hentry hold, hdispatched ▸ hpre, fun hne => ?_⟩
      exact hdispatched.trans (hall (hstage ▸ hne))
  | arrived =>
      rw [hv] at hin
      cases hin
  | waiting since nonce serverTs buffered =>
      rw [hv] at hin
      cases hin
  | refused error =>
      rw [hv] at hin
      cases hin

theorem Guarded.step {l : Label} (h : Guarded hmac hex c v)
    (hstep : step hmac hex c v l = some v') : Guarded hmac hex c v' := by
  cases l with
  | begin buf serverTs failure =>
      obtain ⟨hstage, hbuf, rfl⟩ := begin_eq hstep
      rw [Guarded, hstage] at h
      exact guarded_greet h.1 h.2.1 h.2.2 hbuf serverTs failure
  | message msg now now' =>
      obtain ⟨since, nonce, serverTs, buffered, hstage, rfl⟩ := message_eq hstep
      rw [Guarded, hstage] at h
      exact guarded_hear h hstage msg now now'
  | batch msgs =>
      obtain ⟨dec, since, deadCount, hstage, -, rfl⟩ := batch_eq hstep
      rw [Guarded, hstage] at h
      obtain ⟨before, msg, after, hentry, hdispatched, rfl⟩ := h
      exact guarded_receive hentry hdispatched
  | gone =>
      rcases gone_eq hstep with ⟨since, nonce, serverTs, buffered, hstage, rfl⟩ |
          ⟨dec, since, deadCount, hstage, rfl⟩
      · rw [Guarded, hstage] at h
        exact h.outside.same rfl rfl rfl rfl rfl
      · rw [Guarded, hstage] at h
        obtain ⟨before, msg, after, hentry, hdispatched, -⟩ := h
        exact hentry.inside hdispatched rfl rfl List.prefix_rfl rfl
  | timeout =>
      obtain ⟨since, nonce, serverTs, buffered, hstage, -, rfl⟩ := timeout_eq hstep
      rw [Guarded, hstage] at h
      exact h.outside.same rfl rfl rfl rfl rfl
  | tick nowMs failure =>
      obtain ⟨dec, since, deadCount, hstage, -, rfl⟩ := tick_eq hstep
      rw [Guarded, hstage] at h
      obtain ⟨before, msg, after, hentry, hdispatched, rfl⟩ := h
      exact guarded_beat hentry hdispatched deadCount nowMs failure
  | wait ms =>
      obtain rfl := Option.some.inj hstep
      cases hstage : v.stage with
      | arrived =>
          rw [Guarded, hstage] at h
          exact ⟨h.1.same rfl rfl rfl rfl rfl, h.2⟩
      | waiting since nonce serverTs buffered =>
          rw [Guarded, hstage] at h
          exact ⟨h.outside.same rfl rfl rfl rfl rfl, h.token, h.drawn, h.sent, h.first, h.buffered⟩
      | refused error =>
          rw [Guarded, hstage] at h
          exact h.same rfl rfl rfl rfl rfl
      | serving dec since deadCount =>
          exact h.onward (by rw [hstage]; rfl) hstage.symm rfl rfl List.prefix_rfl rfl
      | ended why => exact h.onward (by rw [hstage]; rfl) hstage.symm rfl rfl List.prefix_rfl rfl
  | task registry enc msgs =>
      obtain ⟨hspawned, rfl⟩ := task_eq hstep
      exact h.onward (h.admitted_of_spawned hspawned) rfl rfl rfl (List.prefix_append _ _) rfl

theorem guarded_arrive (hmac : Bytes → Bytes → Bytes) (hex : Hex) (c : Setup) :
    Guarded hmac hex c (arrive c) :=
  ⟨⟨rfl, rfl, rfl, rfl, .inl rfl⟩, rfl, rfl⟩

def Gated (hmac : Bytes → Bytes → Bytes) (hex : Hex) (c : Setup) (v : Visit) : Prop :=
  if admitted v.stage then Inside hmac hex c v else Outside c v

/-- In every state of every run the client has shown that it knows the passphrase, or nothing has
been done for it: no session, no task, no frame dispatched, nothing sent but the one Challenge. -/
theorem admission_gated (hmac : Bytes → Bytes → Bytes) (hex : Hex) (c : Setup) (ls : List Label) :
    Throughout (step hmac hex c) (Gated hmac hex c) (arrive c) ls := by
  have hall : Throughout (step hmac hex c) (Guarded hmac hex c) (arrive c) ls :=
    throughout_of_step (guarded_arrive hmac hex c) fun v l v' h hstep => h.step hstep
  refine hall.mono fun v h => ?_
  rw [Gated]
  split
  next hin => exact h.inside hin
  next hout => exact h.outside (Bool.not_eq_true _ ▸ hout)

end Gate

/-- The HMACs that are asked for with the token and with the first nonce. -/
def sampleHmac (_ text : Bytes) : Bytes :=
  if text = ascii "srtvpn-token-v1" then StreamToken.tokenTag else sampleTag

def withToken : Setup :=
  ⟨ascii "test-passphrase-123", some (ascii "k=" ++ Hex.lower.encode StreamToken.tokenTag), true, 5⟩

end SrtVpn.Admission
