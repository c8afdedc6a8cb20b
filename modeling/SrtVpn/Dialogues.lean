import SrtVpn.AuthGate
import SrtVpn.OpenTargets
import SrtVpn.Segments
import SrtVpn.SocketAddrs

namespace SrtVpn.Dialogues

open BigEndian Utf8 Utf8Chars Text Wire Encoder Session Dispatch Programs LocalConn HttpProxy Socks5
  OpenTargets Attempts SocketAddrs
open AuthGate (readByte_cons)
open Addresses (length_ipv4ToString_le length_ipv6ToString_le)
open TextParts (valid_ipv4ToString valid_ipv6ToString)
open Segments (Willing)

/-- The address in a SOCKS5 request. -/
inductive Target
  | ipv4 (ip : Bytes)
  | domain (name : Bytes)
  | ipv6 (ip : Bytes)
  deriving DecidableEq, Repr

namespace Target

def Wellformed : Target → Prop
  | .ipv4 ip => ip.length = 4
  | .domain name => name.length ≤ 255
  | .ipv6 ip => ip.length = 16

instance : (a : Target) → Decidable a.Wellformed
  | .ipv4 ip => inferInstanceAs (Decidable (ip.length = 4))
  | .domain name => inferInstanceAs (Decidable (name.length ≤ 255))
  | .ipv6 ip => inferInstanceAs (Decidable (ip.length = 16))

def atyp : Target → UInt8
  | .ipv4 _ => 0x01
  | .domain _ => 0x03
  | .ipv6 _ => 0x04

def bytes : Target → Bytes
  | .ipv4 ip => ip
  | .domain name => UInt8.ofNat name.length :: name
  | .ipv6 ip => ip

def host : Target → Bytes
  | .ipv4 ip => ipv4ToString ip
  | .domain name => fromUtf8Lossy name
  | .ipv6 ip => ipv6ToString ip

def address? (port : UInt16) : Target → Option SocketAddr
  | .ipv4 ip => some (.v4 ip port)
  | .domain _ => none
  | .ipv6 ip => some (.v6 ip port)

end Target

inductive Command
  | connect
  | associate
  deriving DecidableEq, Repr

def Command.byte : Command → UInt8
  | .connect => 0x01
  | .associate => 0x03

/-- What a SOCKS5 client says: the methods it offers, its name and password, and its request. -/
structure Dialogue where
  methods : Bytes
  credentials : Option (Bytes × Bytes)
  command : Command
  rsv : UInt8
  target : Target
  port : UInt16

namespace Dialogue

def login : Option (Bytes × Bytes) → Bytes
  | none => []
  | some (username, password) =>
      0x01 :: UInt8.ofNat username.length :: (username ++ UInt8.ofNat password.length :: password)

def request (d : Dialogue) : Bytes :=
  [socks5Version, d.command.byte, d.rsv, d.target.atyp] ++
    (d.target.bytes ++ toBytes 2 d.port.toNat)

def bytes (d : Dialogue) : Bytes :=
  socks5Version :: UInt8.ofNat d.methods.length :: (d.methods ++ (login d.credentials ++ d.request))

def methodOf (cfg : Socks5Config) : UInt8 := if cfg.hasAuth then methodUserPass else methodNoAuth

/-- The client offers the method that is configured and, where a password is needed, knows one. -/
structure Accepted (verify : Bytes → Bytes → Except String Bool) (cfg : Socks5Config)
    (d : Dialogue) : Prop where
  methods_le : d.methods.length ≤ 255
  offers : methodOf cfg ∈ d.methods
  open_login : cfg.hasAuth = false → d.credentials = none
  checked_login : cfg.hasAuth = true → ∃ username password,
    d.credentials = some (username, password) ∧ username.length ≤ 255 ∧
    password.length ≤ 255 ∧
    validateCredential verify (fromUtf8Lossy username) (fromUtf8Lossy password) cfg = true
  target : d.target.Wellformed

def greeting (cfg : Socks5Config) : Bytes :=
  [socks5Version, methodOf cfg] ++ if cfg.hasAuth then [0x01, 0x00] else []

end Dialogue

def put (c : Conn) (input written : Bytes) : Conn := { c with input, written }

section Reading

variable {c : Conn} {verify : Bytes → Bytes → Except String Bool} {cfg : Socks5Config}
  {written rest : Bytes}

theorem readExact_put (context : String) (bs : Bytes) {n : Nat} (hn : n = bs.length) :
    exec (readExact context n) (put c (bs ++ rest) written) = (.ok bs, put c rest written) := by
  rw [readExact, exec_of, hn, put, if_neg (by rw [List.length_append]; omega), List.take_left,
    List.drop_left]
  rfl

theorem readByte_put (context : String) (b : UInt8) :
    exec (readByte context) (put c (b :: rest) written) = (.ok b, put c rest written) :=
  readByte_cons context rfl

theorem writeAll_put (context : String) (bytes : Bytes) {input : Bytes} (h : c.writeErrors = []) :
    exec (writeAll context bytes) (put c input written) =
      (.ok (), put c input (written ++ bytes)) := by
  simp only [writeAll, exec_of, put, h]
  rfl

theorem selectMethod_checked {methods : Bytes} (h : methodUserPass ∈ methods)
    (selected : Option UInt8) : selectMethod true methods selected = some methodUserPass := by
  induction methods generalizing selected with
  | nil => cases h
  | cons m ms ih =>
      rw [selectMethod]
      split
      · rfl
      next hm =>
        apply ih
        rcases List.mem_cons.mp h with rfl | h
        · exact absurd ⟨rfl, rfl⟩ hm
        · exact h

theorem selectMethod_open {methods : Bytes} (selected : Option UInt8)
    (h : methodNoAuth ∈ methods ∨ selected = some methodNoAuth) :
    selectMethod false methods selected = some methodNoAuth := by
  induction methods generalizing selected with
  | nil => exact h.resolve_left List.not_mem_nil
  | cons m ms ih =>
      rw [selectMethod, if_neg (by simp)]
      apply ih
      by_cases hm : m = methodNoAuth
      · exact Or.inr (if_pos ⟨hm, by simp⟩)
      · rw [if_neg (fun hand => hm hand.1)]
        rcases h with h | h
        · exact Or.inl ((List.mem_cons.mp h).resolve_left (Ne.symm hm))
        · exact Or.inr h

theorem selectMethod_offered {methods : Bytes} (h : Dialogue.methodOf cfg ∈ methods) :
    selectMethod cfg.hasAuth methods none = some (Dialogue.methodOf cfg) := by
  rw [Dialogue.methodOf] at h ⊢
  cases hauth : cfg.hasAuth with
  | true =>
      rw [hauth, if_pos rfl] at h
      exact selectMethod_checked h none
  | false =>
      rw [hauth, if_neg (by decide)] at h
      exact selectMethod_open none (Or.inl h)

theorem toNat_ofNat_length {bs : Bytes} (h : bs.length ≤ 255) :
    (UInt8.ofNat bs.length).toNat = bs.length := by
  rw [UInt8.toNat_ofNat', Nat.mod_eq_of_lt (by omega)]

theorem negotiate_put {methods : Bytes} (hlen : methods.length ≤ 255)
    (hoffer : Dialogue.methodOf cfg ∈ methods) (hc : c.writeErrors = []) :
    exec (negotiate cfg) (put c (UInt8.ofNat methods.length :: (methods ++ rest)) written) =
      (.ok (Dialogue.methodOf cfg),
        put c rest (written ++ [socks5Version, Dialogue.methodOf cfg])) := by
  rw [negotiate, exec_bind_ok (readByte_put _ _),
    exec_bind_ok (readExact_put _ methods (toNat_ofNat_length hlen))]
  simp only [selectMethod_offered hoffer]
  rw [exec_bind_ok (writeAll_put _ _ hc)]
  rfl

theorem authenticate_put {username password : Bytes} (huser : username.length ≤ 255)
    (hpass : password.length ≤ 255)
    (hvalid : validateCredential verify (fromUtf8Lossy username) (fromUtf8Lossy password) cfg =
      true) (hc : c.writeErrors = []) :
    exec (authenticate verify cfg)
      (put c (Dialogue.login (some (username, password)) ++ rest) written) =
      (.ok (), put c rest (written ++ [0x01, 0x00])) := by
  have hinput : Dialogue.login (some (username, password)) ++ rest =
      0x01 :: UInt8.ofNat username.length ::
        (username ++ (UInt8.ofNat password.length :: (password ++ rest))) := by
    simp [Dialogue.login]
  rw [hinput, authenticate, exec_bind_ok (readByte_put _ _), exec_bind_ok (readByte_put _ _),
    if_neg (fun hne => hne rfl), exec_bind_ok (readExact_put _ username (toNat_ofNat_length huser)),
    exec_bind_ok (readByte_put _ _),
    exec_bind_ok (readExact_put _ password (toNat_ofNat_length hpass)), if_pos hvalid]
  exact writeAll_put _ _ hc

theorem readAddress_put {a : Target} (ha : a.Wellformed) :
    exec (readAddress a.atyp) (put c (a.bytes ++ rest) written) =
      (.ok a.host, put c rest written) := by
  cases a with
  | ipv4 ip =>
      rw [readAddress, show Target.atyp (.ipv4 ip) = 0x01 from rfl, if_pos rfl,
        show Target.bytes (.ipv4 ip) = ip from rfl, exec_bind_ok (readExact_put _ ip (Eq.symm ha))]
      rfl
  | domain name =>
      rw [readAddress, show Target.atyp (.domain name) = 0x03 from rfl, if_neg (by decide),
        if_pos rfl, show Target.bytes (.domain name) ++ rest =
          UInt8.ofNat name.length :: (name ++ rest) from rfl,
        exec_bind_ok (readByte_put _ _),
          exec_bind_ok (readExact_put _ name (toNat_ofNat_length ha))]
      rfl
  | ipv6 ip =>
      rw [readAddress, show Target.atyp (.ipv6 ip) = 0x04 from rfl, if_neg (by decide),
        if_neg (by decide), if_pos rfl, show Target.bytes (.ipv6 ip) = ip from rfl,
          exec_bind_ok (readExact_put _ ip (Eq.symm ha))]
      rfl

end Reading

/-- The connection with a session in the registry and the calls that it makes. -/
def granted (c : Conn) (sid : UInt16) (reg : SessionRegistry Bytes) (calls : List (Call Bytes)) :
    Conn :=
  { c with tunnel := ⟨reg, c.tunnel.allocated ++ [sid], c.tunnel.sent ++ calls⟩ }

section Granting

variable {c : Conn} {written rest : Bytes} {sid : UInt16} {ch : Nat} {reg : SessionRegistry Bytes}

theorem allocate_put (halloc : c.tunnel.registry.allocate = (some (sid, ch), reg)) :
    exec allocate (put c rest written) =
      (.ok (some sid), put (granted c sid reg []) rest written) := by
  have hput : (put c rest written).tunnel.registry.allocate = (some (sid, ch), reg) := halloc
  simp only [allocate, exec_of, hput]
  rw [granted, List.append_nil]
  rfl

theorem sendCall_put (context : String) {call : Call Bytes} (calls : List (Call Bytes))
    (hlen : call.payload.length ≤ frameDataMax) (hc : c.sendErrors = []) :
    exec (sendCall context call) (put (granted c sid reg calls) rest written) =
      (.ok (), put (granted c sid reg (calls ++ [call])) rest written) := by
  simp only [sendCall, exec_of, put, granted, hc]
  rw [if_neg (Nat.not_lt.mpr hlen), List.append_assoc]
  rfl

theorem sendBatch_put (more : List (Call Bytes)) (calls : List (Call Bytes))
    (hlen : ∀ call ∈ more, call.payload.length ≤ frameDataMax) (hc : c.sendErrors = []) :
    exec (sendBatch more) (put (granted c sid reg calls) rest written) =
      (.ok (), put (granted c sid reg (calls ++ more)) rest written) := by
  induction more generalizing calls with
  | nil =>
      rw [List.append_nil]
      rfl
  | cons call more ih =>
      obtain ⟨hcall, hmore⟩ := List.forall_mem_cons.mp hlen
      change exec (sendCall "发送数据帧失败: " call >>= fun _ => sendBatch more) _ = _
      rw [exec_bind_ok (sendCall_put _ calls hcall hc), ih _ hmore, List.append_assoc]
      rfl

theorem sendPrepend_put (prepend : Bytes) (calls : List (Call Bytes)) (hc : c.sendErrors = []) :
    exec (sendPrepend sid prepend) (put (granted c sid reg calls) rest written) =
      (.ok (), put (granted c sid reg (calls ++ sendDataBatch sid prepend)) rest written) := by
  rw [sendPrepend]
  split
  · refine sendBatch_put _ calls (fun call hcall => ?_) hc
    simp only [sendDataBatch, Chunks.chunks, List.mem_map] at hcall
    obtain ⟨chunk, ⟨i, -, rfl⟩, rfl⟩ := hcall
    exact List.length_take_le _ _
  next hnil =>
    obtain rfl := Classical.not_not.mp hnil
    have hnone : sendDataBatch sid [] = [] := rfl
    rw [hnone, List.append_nil]
    rfl

theorem writeReply_put (reply : Bytes) (hc : c.writeErrors = []) :
    exec (writeReply reply) (put c rest written) = (.ok (), put c rest (written ++ reply)) := by
  rw [writeReply]
  split
  · exact writeAll_put _ _ hc
  next hnil =>
    rw [Classical.not_not.mp hnil, List.append_nil]
    rfl

theorem startForwardWithReply_put (hc : Willing c)
    (halloc : c.tunnel.registry.allocate = (some (sid, ch), reg)) {dst : Bytes}
    (port : UInt16) (reply prepend : Bytes) (hlen : dst.length ≤ 765) :
    exec (startForwardWithReply dst port reply prepend) (put c rest written) =
      (.ok (.forwarding sid),
        put (granted c sid reg (sendOpen sid protoTcp dst port :: sendDataBatch sid prepend)) rest
          (written ++ reply)) := by
  have hfits : (sendOpen sid protoTcp dst port).payload.length ≤ frameDataMax := by
    rw [show (sendOpen sid protoTcp dst port).payload = openPayload protoTcp dst port from rfl,
      length_openPayload, frameDataMax]
    omega
  have hwrites : (granted c sid reg ([] ++ [sendOpen sid protoTcp dst port])).writeErrors = [] :=
    hc.writes
  have hopen : exec (openForward sid dst port reply prepend)
      (put (granted c sid reg []) rest written) = (.ok (.forwarding sid),
      put (granted c sid reg (sendOpen sid protoTcp dst port :: sendDataBatch sid prepend)) rest
        (written ++ reply)) := by
    rw [openForward, sendControlFrame, exec_bind_ok (sendCall_put _ [] hfits hc.sends),
      exec_bind_ok (writeReply_put _ hwrites), exec_bind_ok (sendPrepend_put prepend _ hc.sends)]
    rfl
  rw [startForwardWithReply, exec_bind_ok (allocate_put halloc)]
  simp only [closing, exec_of, hopen]

theorem startTcpForward_put (hc : Willing c)
    (halloc : c.tunnel.registry.allocate = (some (sid, ch), reg)) {dst : Bytes}
    (port : UInt16) (hlen : dst.length ≤ 765) :
    exec (startTcpForward dst port) (put c rest written) =
      (.ok (.forwarding sid), put (granted c sid reg [sendOpen sid protoTcp dst port]) rest
        (written ++ [0x05, 0x00, 0x00, 0x01, 127, 0, 0, 1, 0, 0])) :=
  startForwardWithReply_put hc halloc port [0x05, 0x00, 0x00, 0x01, 127, 0, 0, 1, 0, 0] [] hlen

theorem startUdpAssociate_put (hc : Willing c)
    (halloc : c.tunnel.registry.allocate = (some (sid, ch), reg))
    (hbind : c.relayBind = .ok ()) {relay : Bytes × UInt16} (haddr : c.relayAddr = .ok relay) :
    exec startUdpAssociate (put c rest written) =
      (.ok (.relaying sid), put (granted c sid reg [sendOpen sid 1 (ascii "0.0.0.0") 0]) rest
        (written ++ buildReply 0x00 0x01 relay.1 relay.2)) := by
  have hrelay : exec bindRelay (put c rest written) = (.ok relay, put c rest written) := by
    simp only [bindRelay, exec_of, put, hbind, haddr]
  have hfits : (sendOpen sid 1 (ascii "0.0.0.0") 0).payload.length ≤ frameDataMax := by
    change (openPayload 1 (ascii "0.0.0.0") 0).length ≤ frameDataMax
    decide +kernel
  have hopen : exec (openRelay sid)
      (put (granted c sid reg []) rest (written ++ buildReply 0x00 0x01 relay.1 relay.2)) =
      (.ok (.relaying sid), put (granted c sid reg [sendOpen sid 1 (ascii "0.0.0.0") 0]) rest
        (written ++ buildReply 0x00 0x01 relay.1 relay.2)) := by
    simp only [openRelay, exec_of, sendControlFrame, sendCall_put _ [] hfits hc.sends,
      List.nil_append]
  rw [startUdpAssociate, exec_bind_ok hrelay]
  simp only
  rw [exec_bind_ok (writeAll_put _ _ hc.writes), exec_bind_ok (allocate_put halloc)]
  exact hopen

theorem length_host_le {a : Target} (ha : a.Wellformed) : a.host.length ≤ 765 := by
  cases a with
  | ipv4 ip =>
      have hle := length_ipv4ToString_le ip
      have hip : ip.length = 4 := ha
      rw [show Target.host (.ipv4 ip) = ipv4ToString ip from rfl]
      omega
  | domain name =>
      have hle := length_fromUtf8Lossy_le name
      have hname : name.length ≤ 255 := ha
      rw [show Target.host (.domain name) = fromUtf8Lossy name from rfl]
      omega
  | ipv6 ip =>
      have hle := length_ipv6ToString_le (Nat.le_of_eq (show ip.length = 16 from ha))
      rw [show Target.host (.ipv6 ip) = ipv6ToString ip from rfl]
      omega

end Granting

/-- What the client gets: the session, the reply to its request, and what is opened at the other
end. -/
def Dialogue.result (d : Dialogue) (sid : UInt16) (relay : Bytes × UInt16) :
    Stage × Bytes × Call Bytes :=
  match d.command with
  | .connect =>
      (.forwarding sid, [0x05, 0x00, 0x00, 0x01, 127, 0, 0, 1, 0, 0],
        sendOpen sid protoTcp d.target.host d.port)
  | .associate =>
      (.relaying sid, buildReply 0x00 0x01 relay.1 relay.2, sendOpen sid 1 (ascii "0.0.0.0") 0)

section Whole

variable {c : Conn} {verify : Bytes → Bytes → Except String Bool} {cfg : Socks5Config}
  {written rest : Bytes} {sid : UInt16} {ch : Nat} {reg : SessionRegistry Bytes}
    {relay : Bytes × UInt16} {d : Dialogue}

theorem command_put (htarget : d.target.Wellformed) (hc : Willing c)
    (halloc : c.tunnel.registry.allocate = (some (sid, ch), reg))
    (hrelay : d.command = .associate → c.relayBind = .ok () ∧ c.relayAddr = .ok relay) :
    exec command (put c (d.request ++ rest) written) =
      (.ok (d.result sid relay).1, put (granted c sid reg [(d.result sid relay).2.2]) rest
        (written ++ (d.result sid relay).2.1)) := by
  have hport := ofBytes_toBytes 2 (show d.port.toNat < 256 ^ 2 from d.port.toNat_lt)
  have htail : d.request ++ rest =
      [socks5Version, d.command.byte, d.rsv, d.target.atyp] ++
        (d.target.bytes ++ (toBytes 2 d.port.toNat ++ rest)) := by
    simp only [Dialogue.request, List.append_assoc]
  have hhead :
      exec (readExact "读命令头失败: " 4) (put c ([socks5Version, d.command.byte, d.rsv, d.target.atyp] ++
      (d.target.bytes ++ (toBytes 2 d.port.toNat ++ rest))) written) = _ := readExact_put _ _ rfl
  rw [htail, command, exec_bind_ok hhead, if_neg (fun hne => hne rfl)]
  simp only [List.getD_cons_succ, List.getD_cons_zero]
  rw [exec_bind_ok (readAddress_put htarget),
    exec_bind_ok (readExact_put _ _ (length_toBytes 2 d.port.toNat).symm), hport,
    UInt16.ofNat_toNat]
  cases hcommand : d.command with
  | connect =>
      rw [if_pos (by decide)]
      simp only [Dialogue.result, hcommand]
      exact startTcpForward_put hc halloc d.port (length_host_le htarget)
  | associate =>
      rw [if_neg (by decide), if_pos (by decide)]
      simp only [Dialogue.result, hcommand]
      obtain ⟨hbind, haddr⟩ := hrelay hcommand
      exact startUdpAssociate_put hc halloc hbind haddr

theorem handleConnection_put (hacc : d.Accepted verify cfg) (hc : Willing c)
    (halloc : c.tunnel.registry.allocate = (some (sid, ch), reg))
    (hrelay : d.command = .associate → c.relayBind = .ok () ∧ c.relayAddr = .ok relay) :
    exec (handleConnection verify cfg) (put c (d.bytes ++ rest) written) =
      (.ok (d.result sid relay).1, put (granted c sid reg [(d.result sid relay).2.2]) rest
        (written ++ Dialogue.greeting cfg ++ (d.result sid relay).2.1)) := by
  have hinput : d.bytes ++ rest = socks5Version :: UInt8.ofNat d.methods.length ::
      (d.methods ++ (Dialogue.login d.credentials ++ (d.request ++ rest))) := by
    simp [Dialogue.bytes]
  rw [hinput, handleConnection, exec_bind_ok (readByte_put _ _), afterFirst,
    if_neg (fun hand => hand.1 rfl), if_neg (fun hne => hne rfl),
    exec_bind_ok (negotiate_put hacc.methods_le hacc.offers hc.writes)]
  cases hauth : cfg.hasAuth with
  | true =>
      obtain ⟨username, password, hcredentials, huser, hpass, hvalid⟩ := hacc.checked_login hauth
      have hmethod : Dialogue.methodOf cfg = methodUserPass := by
        rw [Dialogue.methodOf, hauth, if_pos rfl]
      rw [hcredentials, if_pos hmethod,
        exec_bind_ok (authenticate_put huser hpass hvalid hc.writes),
        command_put hacc.target hc halloc hrelay]
      simp [Dialogue.greeting, hauth]
  | false =>
      have hmethod : Dialogue.methodOf cfg ≠ methodUserPass := by
        rw [Dialogue.methodOf, hauth]
        decide
      rw [hacc.open_login hauth, if_neg hmethod]
      change exec command
          (put c (d.request ++ rest) (written ++ [socks5Version, Dialogue.methodOf cfg])) = _
      rw [command_put hacc.target hc halloc hrelay]
      simp [Dialogue.greeting, hauth]

theorem parseIpAddr_host {a : Target} (ha : a.Wellformed) {port : UInt16} {addr : SocketAddr}
    (h : a.address? port = some addr) : parseIpAddr a.host port = some addr := by
  cases a with
  | ipv4 ip =>
      obtain rfl := Option.some.inj h
      exact parseIpAddr_ipToString (a := .v4 ip port) ha
  | domain name => cases h
  | ipv6 ip =>
      obtain rfl := Option.some.inj h
      exact parseIpAddr_ipToString (a := .v6 ip port) ha

theorem valid_host (a : Target) : Valid a.host := by
  cases a with
  | ipv4 ip => exact valid_ipv4ToString ip
  | domain name => exact valid_fromUtf8Lossy name
  | ipv6 ip => exact valid_ipv6ToString ip

end Whole

/-- A SOCKS5 client that offers what is configured, knows a password where one is needed and asks
for a connection or a relay: whatever the pieces in which its bytes arrive, it gets one session, if
there is a free one, and exactly the replies of the protocol, one Open is sent, and what it says
behind its request is left to be forwarded. The Open of a connection is read by the server as the
target that was asked for, if its host fits the length byte, and an address is the address that the
client gave. -/
theorem dialogue_served (verify : Bytes → Bytes → Except String Bool) (cfg : Socks5Config)
    (d : Dialogue) (hacc : d.Accepted verify cfg) (c : Conn) (rest : Bytes)
    (hinput : c.input = d.bytes ++ rest) (hc : Willing c) (sid : UInt16) (ch : Nat)
    (reg : SessionRegistry Bytes) (halloc : c.tunnel.registry.allocate = (some (sid, ch), reg))
    (relay : Bytes × UInt16)
    (hrelay : d.command = .associate → c.relayBind = .ok () ∧ c.relayAddr = .ok relay) :
    exec (handleConnection verify cfg) c = (.ok (d.result sid relay).1, { c with
        input := rest
        written := c.written ++ Dialogue.greeting cfg ++ (d.result sid relay).2.1
        tunnel := ⟨reg, c.tunnel.allocated ++ [sid],
          c.tunnel.sent ++ [(d.result sid relay).2.2]⟩ }) ∧
      (d.command = .connect → d.target.host.length ≤ 255 →
        parseOpenPayload (d.result sid relay).2.2.payload =
          some ⟨protoTcp, d.target.host, d.port⟩) ∧
      ∀ addr, d.target.address? d.port = some addr →
      parseIpAddr d.target.host d.port = some addr := by
  refine ⟨?_, fun hconnect hlen => ?_, fun addr haddress => parseIpAddr_host hacc.target haddress⟩
  · have hput : c = put c (d.bytes ++ rest) c.written := by
      rw [put, ← hinput]
    conv_lhs => rw [hput]
    exact handleConnection_put hacc hc halloc hrelay
  · simp only [Dialogue.result, hconnect]
    exact parseOpenPayload_of_fits (valid_host d.target) hlen

def asksConnection : Dialogue := ⟨[0x00, 0x02], none, .connect, 0, .ipv4 [10, 0, 0, 1], 80⟩

theorem dialogue_served_connection : exec (handleConnection (fun _ _ => .ok false) ⟨none, none, []⟩)
    (sending (asksConnection.bytes ++ [1, 2, 3])) = (.ok (.forwarding 1), { sending [1, 2, 3] with
      written := [5, 0, 5, 0, 0, 1, 127, 0, 0, 1, 0, 0]
      tunnel := ⟨(SessionRegistry.new (α := Bytes)).allocate.2, [1],
        [sendOpen 1 protoTcp (ipv4ToString [10, 0, 0, 1]) 80]⟩ }) :=
  (dialogue_served (fun _ _ => .ok false) ⟨none, none, []⟩ asksConnection
    ⟨by decide, by decide, fun _ => rfl, (fun hauth => nomatch hauth), by decide⟩ _ [1, 2, 3] rfl
      ⟨rfl, rfl⟩ 1 0 _ rfl
    ([0, 0, 0, 0], 0) (fun hassociate => nomatch hassociate)).1

end SrtVpn.Dialogues
