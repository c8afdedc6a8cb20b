import SrtVpn.Addresses
import SrtVpn.Reassembly
import SrtVpn.Runs
import SrtVpn.Session
import SrtVpn.UdpTargets

namespace SrtVpn.UdpRelay

open BigEndian Chunks Utf8 Utf8Chars Text Wire Encoder Session UdpFrames UdpTargets
  Reassembly Addresses Runs

/-- Source addresses are only compared and sent to. -/
inductive Event (A : Type)
  | idle
  | control (read : Except String Nat)
  | received (r : Except String (A × Bytes))
  | response (resp : Option Bytes)

/-- One turn of the loop: what happens, when, and how many messages the connection takes
meanwhile. -/
structure Turn (A : Type) where
  now : Nat
  accepts : Nat
  event : Event A

inductive Stage
  | running
  | ended
  | panicked
  deriving DecidableEq

structure Relay (A : Type) where
  clientAddr : Option A
  reassembler : UdpReassembler Bytes
  deadline : Nat
  stage : Stage

structure Effects (A : Type) where
  frames : List (Call Bytes)
  replies : List (A × Bytes)

def udpIdleTimeout : Nat := 300 * 10 ^ 9

def sendUnreliable (datagrams : Bool) (sid : UInt16) (frame : Bytes) : List (Call Bytes) :=
  (chunks frameDataMax frame).map fun chunk =>
    ⟨if datagrams then .datagram else .data, sid, 0, chunk⟩

def requestFrames (datagrams : Bool) (sid : UInt16) (datagram : Bytes) : List (Call Bytes) :=
  match parseUdpDatagram datagram with
  | some (host, port, payload) =>
      (splitUdpFrames (encodeUdpAddrHeaderHost host port) payload).flatMap
        (sendUnreliable datagrams sid)
  | none => []

def responseDatagram (host : Bytes) (port : UInt16) (payload : Bytes) : Bytes :=
  let address := match parseIpv4Addr host with
    | some ip => 0x01 :: ip
    | none =>
        match parseIpv6Addr host with
        | some ip => 0x04 :: ip
        | none => 0x03 :: UInt8.ofNat host.length :: host
  [0, 0, 0] ++ address ++ toBytes 2 port.toNat ++ payload

section Loop

variable {A : Type} (datagrams : Bool) (sid : UInt16)

def Relay.new (now : Nat) : Relay A := ⟨none, .new, now + udpIdleTimeout, .running⟩

def Relay.close (s : Relay A) (accepts : Nat) : Effects A × Relay A :=
  (⟨[sendControl sid .close []].take accepts, []⟩, { s with stage := .ended })

def Relay.respond (s : Relay A) (now : Nat) (data : Bytes) : Effects A × Relay A :=
  match push now s.reassembler data with
  | none => (⟨[], []⟩, { s with stage := .panicked })
  | some (full, reassembler) =>
      let s := { s with reassembler }
      match full.bind parseUdpAddrHeader, s.clientAddr with
      | some (host, port, payload), some addr =>
          (⟨[], [(addr, responseDatagram host port payload)]⟩, s)
      | _, _ => (⟨[], []⟩, s)

/-- One turn of a relay that is running. -/
def Relay.act (s : Relay A) (t : Turn A) : Option (Effects A × Relay A) :=
  if s.stage ≠ .running then none
  else match t.event with
    | .idle => if s.deadline ≤ t.now then some (s.close sid t.accepts) else none
    | .control _ => some (s.close sid t.accepts)
    | .received (.ok (src, datagram)) =>
        -- the first source is kept, whether its datagram can be parsed or not
        some (⟨(requestFrames datagrams sid datagram).take t.accepts, []⟩,
          { s with clientAddr := some (s.clientAddr.getD src), deadline := t.now + udpIdleTimeout })
    | .received (.error _) => some (s.close sid t.accepts)
    | .response (some data) =>
        some ({ s with deadline := t.now + udpIdleTimeout }.respond t.now data)
    | .response none => some (s.close sid t.accepts)

def Relay.step (s : Relay A) (t : Turn A) : Option (Relay A) := (s.act datagrams sid t).map Prod.snd

def Turn.source (t : Turn A) : Option A :=
  match t.event with
  | .received (.ok (src, _)) => some src
  | _ => none

def firstSource (turns : List (Turn A)) : Option A := turns.findSome? Turn.source

variable {datagrams sid} {s s' : Relay A} {t : Turn A} {out : Effects A}
  {turns past : List (Turn A)}

theorem act_cases (h : s.act datagrams sid t = some (out, s')) :
    (t.source = none ∧ (out, s') = s.close sid t.accepts) ∨
      (∃ src datagram, t.event = .received (.ok (src, datagram)) ∧
        out = ⟨(requestFrames datagrams sid datagram).take t.accepts, []⟩ ∧
        s' = { s with clientAddr := some (s.clientAddr.getD src), deadline := t.now +
          udpIdleTimeout }) ∨
      ∃ data, t.event = .response (some data) ∧
        (out, s') = { s with deadline := t.now + udpIdleTimeout }.respond t.now data := by
  obtain ⟨now, accepts, event⟩ := t
  simp only [Relay.act, Option.ite_none_left_eq_some] at h
  obtain ⟨-, h⟩ := h
  cases event with
  | idle =>
      simp only [Option.ite_none_right_eq_some, Option.some.injEq] at h
      exact Or.inl ⟨rfl, h.2.symm⟩
  | control read => exact Or.inl ⟨rfl, (Option.some.inj h).symm⟩
  | received r =>
      cases r with
      | error e => exact Or.inl ⟨rfl, (Option.some.inj h).symm⟩
      | ok p =>
          obtain ⟨hout, hs⟩ := Prod.mk.inj (Option.some.inj h)
          exact Or.inr (Or.inl ⟨p.1, p.2, rfl, hout.symm, hs.symm⟩)
  | response resp =>
      cases resp with
      | none => exact Or.inl ⟨rfl, (Option.some.inj h).symm⟩
      | some data => exact Or.inr (Or.inr ⟨data, rfl, (Option.some.inj h).symm⟩)

theorem respond_spec (s : Relay A) (now : Nat) (data : Bytes) :
    (s.respond now data).1.frames = [] ∧ (s.respond now data).2.clientAddr = s.clientAddr ∧
      ∀ r ∈ (s.respond now data).1.replies, s.clientAddr = some r.1 := by
  unfold Relay.respond
  split
  · exact ⟨rfl, rfl, by simp⟩
  · simp only
    split
    next hclient =>
      refine ⟨rfl, rfl, fun r hr => ?_⟩
      rw [List.mem_singleton.mp hr]
      exact hclient
    next => exact ⟨rfl, rfl, by simp⟩

theorem clientAddr_act (h : s.act datagrams sid t = some (out, s')) :
    s'.clientAddr = s.clientAddr.or t.source := by
  rcases act_cases h with ⟨hsource, heq⟩ | ⟨src, datagram, hevent, -, rfl⟩ | ⟨data, hevent, heq⟩
  · obtain ⟨-, rfl⟩ := Prod.mk.inj heq
    rw [hsource, Option.or_none]
  · rw [Turn.source, hevent]
    cases s.clientAddr <;> rfl
  · have hkept := (respond_spec { s with deadline := t.now + udpIdleTimeout } t.now data).2.1
    rw [← heq] at hkept
    rw [hkept, Turn.source, hevent, Option.or_none]

theorem replies_act (h : s.act datagrams sid t = some (out, s')) :
    ∀ r ∈ out.replies, s.clientAddr = some r.1 := by
  rcases act_cases h with ⟨-, heq⟩ | ⟨src, datagram, -, rfl, -⟩ | ⟨data, -, heq⟩
  · obtain ⟨rfl, -⟩ := Prod.mk.inj heq
    simp
  · simp
  · obtain ⟨rfl, -⟩ := Prod.mk.inj heq
    exact (respond_spec { s with deadline := t.now + udpIdleTimeout } _ _).2.2

theorem frames_act {src : A} {datagram : Bytes} (hevent : t.event = .received (.ok (src, datagram)))
    (h : s.act datagrams sid t = some (out, s')) :
    out.frames = (requestFrames datagrams sid datagram).take t.accepts := by
  rw [Relay.act, hevent, Option.ite_none_left_eq_some] at h
  rw [← (Prod.mk.inj (Option.some.inj h.2)).1]

theorem firstSource_append_singleton (past : List (Turn A)) (t : Turn A) :
    firstSource (past ++ [t]) = (firstSource past).or t.source := by
  rw [firstSource, firstSource, List.findSome?_append]
  simp

/-- The client that the relay knows is the source of the first datagram, in every run. -/
theorem clientAddr_run {now : Nat} (h : exec (Relay.step datagrams sid) (.new now) turns = some s) :
    s.clientAddr = firstSource turns := by
  induction turns using List.reverseRecOn generalizing s with
  | nil =>
      obtain rfl := Option.some.inj h
      rfl
  | append_singleton turns t ih =>
      rw [exec_append_singleton, Option.bind_eq_some_iff] at h
      obtain ⟨u, hu, hstep⟩ := h
      obtain ⟨⟨out, s'⟩, hact, rfl⟩ := Option.map_eq_some_iff.mp hstep
      rw [clientAddr_act hact, ih hu, firstSource_append_singleton]

end Loop

section Requests

variable {host : Bytes} {port : UInt16} {payload : Bytes} {datagram : Bytes}
  {datagrams : Bool} {sid : UInt16}

theorem length_targetHost {pos : Nat} (h : targetHost datagram = some (host, pos)) :
    host.length ≤ 765 := by
  simp only [targetHost] at h
  split at h
  · simp only [Option.ite_none_left_eq_some, Option.some.injEq, Prod.mk.injEq] at h
    have hle := length_ipv4ToString_le ((datagram.drop 4).take 4)
    rw [List.length_take] at hle
    rw [← h.2.1]
    omega
  split at h
  · simp only [Option.ite_none_left_eq_some, Option.some.injEq, Prod.mk.injEq] at h
    have hbyte := (datagram.getD 4 0).toNat_lt
    have hle := length_fromUtf8Lossy_le ((datagram.drop 5).take (datagram.getD 4 0).toNat)
    rw [List.length_take] at hle
    rw [← h.2.2.1]
    omega
  split at h
  · simp only [Option.ite_none_left_eq_some, Option.some.injEq, Prod.mk.injEq] at h
    have hle := length_ipv6ToString_le (List.length_take_le 16 (datagram.drop 4))
    rw [← h.2.1]
    omega
  · simp at h

theorem length_parseUdpDatagram (h : parseUdpDatagram datagram = some (host, port, payload)) :
    host.length ≤ 765 := by
  simp only [parseUdpDatagram, Option.ite_none_left_eq_some, Option.bind_eq_bind,
    Option.bind_eq_some_iff] at h
  obtain ⟨-, -, ⟨host', pos⟩, htarget, -, heq⟩ := h
  obtain ⟨rfl, -, -⟩ : host' = host ∧ _ := by simpa using heq
  exact length_targetHost htarget

theorem splitUdpFrames_cons (hlen : host.length ≤ 765) : ∃ frame frames, frame ≠ [] ∧
    splitUdpFrames (encodeUdpAddrHeaderHost host port) payload = frame :: frames := by
  by_cases hsmall : payload.length + ((encodeUdpAddrHeaderHost host port).length + 5) ≤ frameDataMax
  · refine ⟨encodeUdpAddrHeaderHost host port ++ payload, [], by simp [encodeUdpAddrHeaderHost], ?_⟩
    rw [splitUdpFrames, if_pos hsmall]
  · obtain ⟨hsplit, hmany⟩ := length_split hlen (Nat.not_le.mp hsmall)
    obtain ⟨count, hcount⟩ := Nat.exists_eq_succ_of_ne_zero (Nat.ne_zero_of_lt hmany)
    rw [hsplit, hcount, List.range_succ_eq_map, List.map_cons]
    exact ⟨_, _, by simp [fragment], rfl⟩

theorem requestFrames_eq_nil_iff :
    requestFrames datagrams sid datagram = [] ↔ parseUdpDatagram datagram = none := by
  rw [requestFrames]
  split
  next host port payload hparse =>
    obtain ⟨frame, frames, hne, hframes⟩ : ∃ frame frames, frame ≠ [] ∧
        splitUdpFrames (encodeUdpAddrHeaderHost host port) payload = frame :: frames :=
      splitUdpFrames_cons (length_parseUdpDatagram hparse)
    have hchunks : chunks frameDataMax frame ≠ [] := by
      intro hnil
      have hwhole := flatten_chunks (by decide : 0 < frameDataMax) frame
      rw [hnil] at hwhole
      exact hne hwhole.symm
    rw [hframes, List.flatMap_cons, hparse]
    simp [sendUnreliable, hchunks]
  next hparse => simp [hparse]

theorem parseUdpDatagram_responseDatagram (a b c d : UInt8) (port : UInt16) (payload : Bytes) :
    parseUdpDatagram (responseDatagram (ipv4ToString [a, b, c, d]) port payload) =
      some (ipv4ToString [a, b, c, d], port, payload) := by
  have hport := ofBytes_toBytes 2 (show port.toNat < 256 ^ 2 from port.toNat_lt)
  obtain ⟨x, y, hxy⟩ : ∃ x y, toBytes 2 port.toNat = [x, y] := ⟨_, _, rfl⟩
  rw [hxy] at hport
  rw [responseDatagram, parseIpv4Addr_ipv4ToString, hxy]
  have htarget : targetHost (0 :: 0 :: 0 :: 0x01 :: a :: b :: c :: d :: x :: y :: payload) =
      some (ipv4ToString [a, b, c, d], 8) := by
    rw [targetHost]
    simp only [List.getD_cons_succ, List.getD_cons_zero, if_true, List.length_cons]
    rw [if_neg (by omega)]
    rfl
  simp only [List.cons_append, List.nil_append, parseUdpDatagram, htarget, List.getD_cons_succ,
    List.getD_cons_zero, List.length_cons, Option.bind_eq_bind, Option.bind_some]
  rw [if_neg (by omega), if_neg (by simp), if_neg (by omega)]
  simp [hport]

end Requests

section Client

variable {A : Type} (datagrams : Bool) (sid : UInt16) (now : Nat)

/-- The relay serves the client that it heard first: for the datagrams of others nothing is sent
into the tunnel, and every response is sent to the client. -/
def ServesOne (turns : List (Turn A)) : Prop :=
  ∀ past t s out s', past ++ [t] <+: turns →
  exec (Relay.step datagrams sid) (.new now) past = some s →
    s.act datagrams sid t = some (out, s') → ∀ a, firstSource past = some a →
    (∀ src, t.source = some src → src ≠ a → out.frames = []) ∧ ∀ r ∈ out.replies, r.1 = a

/-- The relay serves one client exactly if no datagram that comes from another source can be parsed
while the connection takes messages. -/
theorem servesOne_iff (turns : List (Turn A)) : ServesOne datagrams sid now turns ↔
    ∀ past t s, past ++ [t] <+: turns → exec (Relay.step datagrams sid) (.new now) past = some s →
      s.stage = .running →
      ∀ a src datagram, firstSource past = some a → t.event = .received (.ok (src, datagram)) →
        src ≠ a → parseUdpDatagram datagram = none ∨ t.accepts = 0 := by
  constructor
  · intro h past t s hpre hrun hstage a src datagram hfirst hevent hne
    obtain ⟨⟨out, s'⟩, hact⟩ : ∃ p, s.act datagrams sid t = some p := by
      rw [Relay.act, hevent, if_neg (by simp [hstage])]
      exact ⟨_, rfl⟩
    have hsource : t.source = some src := by rw [Turn.source, hevent]
    have hnone := (h past t s out s' hpre hrun hact a hfirst).1 src hsource hne
    rw [frames_act hevent hact, List.take_eq_nil_iff, requestFrames_eq_nil_iff] at hnone
    exact hnone.symm
  · intro h past t s out s' hpre hrun hact a hfirst
    have hclient := clientAddr_run hrun
    constructor
    · intro src hsource hne
      obtain ⟨datagram, hevent⟩ : ∃ datagram, t.event = .received (.ok (src, datagram)) := by
        rw [Turn.source] at hsource
        split at hsource
        next src' datagram hevent =>
          obtain rfl := Option.some.inj hsource
          exact ⟨datagram, hevent⟩
        next => cases hsource
      have hstage : s.stage = .running := by
        by_contra hstage
        rw [Relay.act, if_pos hstage] at hact
        cases hact
      rw [frames_act hevent hact, List.take_eq_nil_iff, requestFrames_eq_nil_iff]
      exact (h past t s hpre hrun hstage a src datagram hfirst hevent hne).symm
    · intro r hr
      have hto := replies_act hact r hr
      rw [hclient, hfirst] at hto
      exact (Option.some.inj hto).symm

/-- A datagram from a second source goes into the tunnel. -/
theorem second_source_served :
    let first : Turn (Bytes × UInt16) :=
  ⟨0, 1, .received (.ok (([127, 0, 0, 1], 5000), [0, 0, 0, 1, 1, 2, 3, 4, 0, 53, 7]))⟩
    let second : Turn (Bytes × UInt16) :=
      ⟨1, 1, .received (.ok (([10, 0, 0, 9], 6000), [0, 0, 0, 1, 1, 2, 3, 4, 0, 53, 8]))⟩
    ¬ ServesOne true 1 0 [first, second] := by
  intro first second h
  let s : Relay (Bytes × UInt16) :=
    ⟨some ([127, 0, 0, 1], 5000), .new, 0 + udpIdleTimeout, .running⟩
  have hact : s.act true 1 second =
      some (⟨(requestFrames true 1 [0, 0, 0, 1, 1, 2, 3, 4, 0, 53, 8]).take 1, []⟩,
    { s with deadline := 1 + udpIdleTimeout }) := rfl
  have hnone := (h [first] second s _ _ (List.prefix_refl _) rfl hact ([127, 0, 0, 1], 5000) rfl).1
    ([10, 0, 0, 9], 6000) rfl (by decide)
  rw [List.take_eq_nil_iff, requestFrames_eq_nil_iff] at hnone
  exact absurd hnone (by decide)

end Client


end SrtVpn.UdpRelay
