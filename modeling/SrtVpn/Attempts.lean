import Mathlib.Data.Finset.Basic
import Mathlib.Data.Finset.Lattice.Fold
import Mathlib.Order.Lattice.Nat
import SrtVpn.BigEndian
import SrtVpn.Programs
import SrtVpn.Runs

namespace SrtVpn.Attempts

open BigEndian Programs

inductive SrtSockopt
  | transtype | messageapi | payloadsize | tsbpdmode | rcvlatency | peerlatency | fc | sndbuf | rcvbuf | udpSndbuf
  | udpRcvbuf | maxbw | mininputbw | lossmaxttl | snddropdelay | retransmitalgo | passphrase | pbkeylen
  | enforcedencryption | streamid | tlpktdrop | peeridletimeo | sndsyn | rcvsyn
  deriving DecidableEq, Repr

def SrtSockopt.name : SrtSockopt → String
  | .transtype => "SRTO_TRANSTYPE"
  | .messageapi => "SRTO_MESSAGEAPI"
  | .payloadsize => "SRTO_PAYLOADSIZE"
  | .tsbpdmode => "SRTO_TSBPDMODE"
  | .rcvlatency => "SRTO_RCVLATENCY"
  | .peerlatency => "SRTO_PEERLATENCY"
  | .fc => "SRTO_FC"
  | .sndbuf => "SRTO_SNDBUF"
  | .rcvbuf => "SRTO_RCVBUF"
  | .udpSndbuf => "SRTO_UDP_SNDBUF"
  | .udpRcvbuf => "SRTO_UDP_RCVBUF"
  | .maxbw => "SRTO_MAXBW"
  | .mininputbw => "SRTO_MININPUTBW"
  | .lossmaxttl => "SRTO_LOSSMAXTTL"
  | .snddropdelay => "SRTO_SNDDROPDELAY"
  | .retransmitalgo => "SRTO_RETRANSMITALGO"
  | .passphrase => "SRTO_PASSPHRASE"
  | .pbkeylen => "SRTO_PBKEYLEN"
  | .enforcedencryption => "SRTO_ENFORCEDENCRYPTION"
  | .streamid => "SRTO_STREAMID"
  | .tlpktdrop => "SRTO_TLPKTDROP"
  | .peeridletimeo => "SRTO_PEERIDLETIMEO"
  | .sndsyn => "SRTO_SNDSYN"
  | .rcvsyn => "SRTO_RCVSYN"

/-- The places that call the library; an attempt comes to each at most once. The first epoll is the
one that waits for the connection. -/
inductive SrtCall
  | startup | createSocket | setsockopt (opt : SrtSockopt) | connect | bind | listen | accept
  | connEpollCreate | connEpollAdd | connEpollWait | connEpollRelease
  | epollCreate | epollAdd | epollRelease | close
  deriving DecidableEq, Repr

inductive SrtError
  | init (text : String)
  | connect (text : String)
  | param (text : String)
  deriving DecidableEq, Repr

def optionError (opt : SrtSockopt) (err : String) : SrtError :=
  .param (match opt with
    | .passphrase => "设置 passphrase 失败: " ++ err
    | .streamid => "设置 streamid 失败: " ++ err
    | _ => "设置选项 " ++ opt.name ++ " 失败: " ++ err)

/-- What the library answers in one attempt: which calls fail and with which text, the handle a call
that makes one picks, and the sockets the wait for the connection reports. -/
structure Libsrt where
  fails : SrtCall → Bool
  error : SrtCall → String
  pick : SrtCall → Finset Nat → Nat
  fresh : ∀ call taken, pick call taken ∉ taken
  events : List Nat

/-- The handles that are open, and whether the one call of `srt_startup` has been made. -/
structure Handles where
  started : Bool
  sockets : Finset Nat
  epolls : Finset Nat
  deriving DecidableEq

inductive SocketAddr
  | v4 (ip : Bytes) (port : UInt16)
  | v6 (ip : Bytes) (port : UInt16)
  deriving DecidableEq, Repr

def SocketAddr.isV4 : SocketAddr → Bool
  | .v4 _ _ => true
  | .v6 _ _ => false

structure SrtConfig where
  peerAddr : SocketAddr
  passphrase : Bytes
  streamid : Option Bytes
  reliable : Bool

structure SrtConnection where
  socket : Nat
  eid : Nat

structure SrtListener where
  sock : Nat

abbrev Attempt (α : Type) := Prog Handles SrtError α

section Source

variable (lib : Libsrt)

/-- The call is made once in the life of the process, also if it fails. -/
def srtGlobalInit : Attempt Unit := .of fun h =>
  if h.started = false ∧ lib.fails .startup then
    (.error (.init (lib.error .startup)), { h with started := true })
  else (.ok (), { h with started := true })

/-- A socket from `srt_create_socket` or `srt_accept`. -/
def openSocket (call : SrtCall) (e : String → SrtError) : Attempt Nat := .of fun h =>
  if lib.fails call then (.error (e (lib.error call)), h)
  else (.ok (lib.pick call h.sockets),
    { h with sockets := insert (lib.pick call h.sockets) h.sockets })

def srtClose (sock : Nat) : Attempt Unit := .of fun h =>
  (.ok (), if lib.fails .close then h else { h with sockets := h.sockets.erase sock })

def srtEpollRelease (call : SrtCall) (eid : Nat) : Attempt Unit := .of fun h =>
  (.ok (), if lib.fails call then h else { h with epolls := h.epolls.erase eid })

def orElse (call : SrtCall) (e : String → SrtError) (cleanup : Attempt Unit) : Attempt Unit :=
  if lib.fails call then do
    cleanup
    throw (e (lib.error call))
  else pure ()

def srtEpollCreate (call : SrtCall) (sock : Nat) : Attempt Nat := do
  orElse lib call .init (srtClose lib sock)
  .of fun h => (.ok (lib.pick call h.epolls),
    { h with epolls := insert (lib.pick call h.epolls) h.epolls })

def srtEpollAddUsock (call release : SrtCall) (eid sock : Nat) : Attempt Unit :=
  orElse lib call .init (do
    srtEpollRelease lib release eid
    srtClose lib sock)

def setOption (opt : SrtSockopt) : Attempt Unit :=
  orElse lib (.setsockopt opt) (optionError opt) (pure ())

def optionsOf (cfg : SrtConfig) : List SrtSockopt :=
  [.transtype, .messageapi, .payloadsize, .tsbpdmode, .rcvlatency, .peerlatency, .fc, .sndbuf,
    .rcvbuf, .udpSndbuf, .udpRcvbuf, .maxbw, .mininputbw, .lossmaxttl, .snddropdelay,
      .retransmitalgo] ++
  (if cfg.passphrase = [] then [] else [.passphrase, .pbkeylen, .enforcedencryption]) ++
  (if cfg.streamid.isSome then [.streamid] else []) ++
  (if cfg.reliable then [] else [.tlpktdrop]) ++ [.peeridletimeo]

def applyOptions (cfg : SrtConfig) : Attempt Unit := (optionsOf cfg).forM (setOption lib)

def sockaddrFrom : SocketAddr → Attempt Unit
  | .v4 _ _ => pure ()
  | .v6 _ _ => throw (.param "IPv6 暂不支持（P1 仅 IPv4）")

/-- Both options are set before either result is looked at. -/
def setNonblocking : Attempt Unit :=
  if lib.fails (.setsockopt .sndsyn) ∨ lib.fails (.setsockopt .rcvsyn) then
    throw (.param ("设置非阻塞失败: " ++ lib.error (.setsockopt .rcvsyn)))
  else pure ()

/-- The second half of `connect` and of `accept_from_listener`: the threads it ends in take the
handles over. -/
def startEventLoop (sock : Nat) : Attempt SrtConnection := do
  setNonblocking lib
  let eid ← srtEpollCreate lib .epollCreate sock
  srtEpollAddUsock lib .epollAdd .epollRelease eid sock
  return ⟨sock, eid⟩

def awaitConnection (connEid sock : Nat) : Attempt Unit := do
  srtEpollRelease lib .connEpollRelease connEid
  if lib.fails .connEpollWait = false ∧ sock ∈ lib.events then pure ()
  else do
    srtClose lib sock
    throw (.connect ("连接超时: " ++ lib.error .connEpollWait))

def connect (cfg : SrtConfig) : Attempt SrtConnection := do
  srtGlobalInit lib
  let sock ← openSocket lib .createSocket .init
  applyOptions lib cfg
  sockaddrFrom cfg.peerAddr
  orElse lib .connect .connect (srtClose lib sock)
  let connEid ← srtEpollCreate lib .connEpollCreate sock
  srtEpollAddUsock lib .connEpollAdd .connEpollRelease connEid sock
  awaitConnection lib connEid sock
  startEventLoop lib sock

def bindListener (cfg : SrtConfig) : Attempt SrtListener := do
  srtGlobalInit lib
  let sock ← openSocket lib .createSocket .init
  applyOptions lib cfg
  sockaddrFrom cfg.peerAddr
  orElse lib .bind .connect (srtClose lib sock)
  orElse lib .listen .connect (srtClose lib sock)
  return ⟨sock⟩

def acceptOne : Attempt SrtConnection := do
  let accepted ← openSocket lib .accept .connect
  startEventLoop lib accepted

end Source

def Restored (h t : Handles) : Prop := t.sockets = h.sockets ∧ t.epolls = h.epolls

section Calls

variable {lib : Libsrt} {call release : SrtCall} {e : String → SrtError} {cleanup : Attempt Unit}
  {h s t : Handles} {sock eid : Nat}

def closed (lib : Libsrt) (sock : Nat) (s : Handles) : Handles :=
  if lib.fails .close then s else { s with sockets := s.sockets.erase sock }

def released (lib : Libsrt) (call : SrtCall) (eid : Nat) (s : Handles) : Handles :=
  if lib.fails call then s else { s with epolls := s.epolls.erase eid }

theorem exec_srtClose : exec (srtClose lib sock) s = (.ok (), closed lib sock s) := rfl

theorem exec_srtEpollRelease :
    exec (srtEpollRelease lib call eid) s = (.ok (), released lib call eid s) := rfl

@[simp] theorem epolls_closed : (closed lib sock s).epolls = s.epolls := by
  rw [closed]
  split <;> rfl

@[simp] theorem sockets_released : (released lib call eid s).sockets = s.sockets := by
  rw [released]
  split <;> rfl

theorem exec_openSocket (hf : lib.fails call = false) : exec (openSocket lib call e) s =
    (.ok (lib.pick call s.sockets),
      { s with sockets := insert (lib.pick call s.sockets) s.sockets }) := by
  simp [openSocket, hf]

theorem exec_openSocket_fails (hf : lib.fails call = true) :
    exec (openSocket lib call e) s = (.error (e (lib.error call)), s) := by
  simp [openSocket, hf]

theorem exec_orElse (hf : lib.fails call = false) :
    exec (orElse lib call e cleanup) s = (.ok (), s) := by
  simp [orElse, hf]

theorem exec_orElse_fails (hf : lib.fails call = true) (hc : exec cleanup s = (.ok (), t)) :
    exec (orElse lib call e cleanup) s = (.error (e (lib.error call)), t) := by
  rw [orElse, if_pos hf, exec_bind_ok hc]
  rfl

theorem exec_srtEpollCreate (hf : lib.fails call = false) : exec (srtEpollCreate lib call sock) s =
    (.ok (lib.pick call s.epolls),
      { s with epolls := insert (lib.pick call s.epolls) s.epolls }) := by
  rw [srtEpollCreate, exec_bind_ok (exec_orElse hf)]
  rfl

theorem exec_srtEpollCreate_fails (hf : lib.fails call = true) :
    exec (srtEpollCreate lib call sock) s =
      (.error (.init (lib.error call)), closed lib sock s) := by
  rw [srtEpollCreate, exec_bind, exec_orElse_fails hf exec_srtClose]

theorem onError_orElse {α : Type} {P : Handles → Prop} {f : Unit → Attempt α}
    (hc : exec cleanup s = (.ok (), t)) : OnError P (orElse lib call e cleanup >>= f) s ↔
      (lib.fails call = true → P t) ∧ (lib.fails call = false → OnError P (f ()) s) := by
  cases hf : lib.fails call with
  | true =>
      rw [onError_bind_error (exec_orElse_fails hf hc)]
      simp
  | false =>
      rw [onError_bind_ok (exec_orElse hf)]
      simp

theorem exec_setOptions (lib : Libsrt) (s : Handles) (opts : List SrtSockopt) :
    ((∀ opt ∈ opts, lib.fails (.setsockopt opt) = false) ∧
      exec (opts.forM (setOption lib)) s = (.ok (), s)) ∨
      ((¬ ∀ opt ∈ opts, lib.fails (.setsockopt opt) = false) ∧ ∃ e,
        exec (opts.forM (setOption lib)) s = (.error e, s)) := by
  induction opts with
  | nil => exact Or.inl ⟨by simp, rfl⟩
  | cons opt opts ih =>
      have hcons : exec ((opt :: opts).forM (setOption lib)) s =
          exec (setOption lib opt >>= fun _ => opts.forM (setOption lib)) s := rfl
      rw [hcons, List.forall_mem_cons]
      cases hf : lib.fails (.setsockopt opt) with
      | true =>
          have hopt : exec (setOption lib opt) s = (.error _, s) :=
            exec_orElse_fails hf (exec_pure () s)
          refine Or.inr ⟨by simp, optionError opt (lib.error (.setsockopt opt)), ?_⟩
          rw [exec_bind, hopt]
      | false =>
          have hopt : exec (setOption lib opt) s = (.ok (), s) := exec_orElse hf
          rw [exec_bind_ok hopt]
          simpa using ih

theorem onError_applyOptions {α : Type} {P : Handles → Prop} {f : Unit → Attempt α}
    {cfg : SrtConfig} (hs : ¬ P s) : OnError P (applyOptions lib cfg >>= f) s ↔
      (∀ opt ∈ optionsOf cfg, lib.fails (.setsockopt opt) = false) ∧ OnError P (f ()) s := by
  rw [applyOptions]
  rcases exec_setOptions lib s (optionsOf cfg) with ⟨hall, hexec⟩ | ⟨hsome, e, hexec⟩
  · rw [onError_bind_ok hexec]
    exact (and_iff_right hall).symm
  · rw [onError_bind_error hexec]
    exact iff_of_false hs fun h => hsome h.1

theorem onError_sockaddrFrom {α : Type} {P : Handles → Prop} {f : Unit → Attempt α}
    {addr : SocketAddr} (hs : ¬ P s) :
    OnError P (sockaddrFrom addr >>= f) s ↔ addr.isV4 ∧ OnError P (f ()) s := by
  cases addr with
  | v4 ip port =>
      have hv : exec (sockaddrFrom (.v4 ip port)) s = (.ok (), s) := rfl
      rw [onError_bind_ok hv]
      exact (and_iff_right rfl).symm
  | v6 ip port =>
      have hv : exec (sockaddrFrom (.v6 ip port)) s = (.error (.param "IPv6 暂不支持（P1 仅 IPv4）"), s) :=
        rfl
      rw [onError_bind_error hv]
      exact iff_of_false hs fun h => Bool.false_ne_true h.1

end Calls

section Attempts

variable {lib : Libsrt} {h s : Handles} {sock connEid : Nat}

/-- One more socket is open, and the epolls that were open still are. -/
structure Holding (h : Handles) (sock : Nat) (s : Handles) : Prop where
  sockets : s.sockets = insert sock h.sockets
  fresh : sock ∉ h.sockets
  epolls : h.epolls ⊆ s.epolls

theorem Holding.not_restored (hs : Holding h sock s) : ¬ Restored h s := by
  intro hr
  apply hs.fresh
  rw [← hr.1, hs.sockets]
  exact Finset.mem_insert_self sock h.sockets

theorem Holding.restored_closed (hs : Holding h sock s) :
    Restored h (closed lib sock s) ↔ lib.fails .close = false ∧ s.epolls = h.epolls := by
  cases hf : lib.fails .close with
  | true =>
      have heq : closed lib sock s = s := if_pos hf
      rw [heq]
      exact iff_of_false hs.not_restored fun hc => Bool.noConfusion hc.1
  | false =>
      have hsockets : (closed lib sock s).sockets = h.sockets := by
        rw [closed, if_neg (by simp [hf]), hs.sockets]
        exact Finset.erase_insert hs.fresh
      rw [Restored, epolls_closed, and_iff_right hsockets, and_iff_right rfl]

theorem Holding.insert_epoll (hs : Holding h sock s) (eid : Nat) :
    Holding h sock { s with epolls := insert eid s.epolls } :=
  ⟨hs.sockets, hs.fresh, hs.epolls.trans (Finset.subset_insert eid s.epolls)⟩

theorem epolls_released {call : SrtCall} {eid : Nat} (hfresh : eid ∉ s.epolls) :
    (released lib call eid { s with epolls := insert eid s.epolls }).epolls =
      if lib.fails call then insert eid s.epolls else s.epolls := by
  rw [released]
  split
  · rfl
  · exact Finset.erase_insert hfresh

theorem Holding.released (hs : Holding h sock s) {call : SrtCall} {eid : Nat}
    (hfresh : eid ∉ s.epolls) :
    Holding h sock (released lib call eid { s with epolls := insert eid s.epolls }) := by
  refine ⟨by rw [sockets_released, hs.sockets], hs.fresh, ?_⟩
  rw [epolls_released hfresh]
  split
  · exact (hs.insert_epoll eid).epolls
  · exact hs.epolls

theorem Holding.epolls_released_iff (hs : Holding h sock s) {call : SrtCall} {eid : Nat}
    (hfresh : eid ∉ s.epolls) :
    (Attempts.released lib call eid { s with epolls := insert eid s.epolls }).epolls = h.epolls ↔
      lib.fails call = false ∧ s.epolls = h.epolls := by
  rw [epolls_released hfresh]
  cases lib.fails call with
  | true =>
      refine iff_of_false (fun hc => hfresh ?_) fun hc => Bool.noConfusion hc.1
      exact hs.epolls (hc ▸ Finset.mem_insert_self eid s.epolls)
  | false => simp

/-- The options of the event loop are set, and where the epoll cannot be made or given the socket,
what was opened can be closed again. -/
def StartCleans (lib : Libsrt) (othersKept : Prop) : Prop :=
  lib.fails (.setsockopt .sndsyn) = false ∧ lib.fails (.setsockopt .rcvsyn) = false ∧
  (lib.fails .epollCreate = true → lib.fails .close = false ∧ othersKept) ∧
  (lib.fails .epollCreate = false → lib.fails .epollAdd = true →
    lib.fails .epollRelease = false ∧ lib.fails .close = false ∧ othersKept)

theorem onError_setNonblocking {α : Type} {P : Handles → Prop} {f : Unit → Attempt α} (hs : ¬ P s) :
    OnError P (setNonblocking lib >>= f) s ↔
      (lib.fails (.setsockopt .sndsyn) = false ∧ lib.fails (.setsockopt .rcvsyn) = false) ∧
      OnError P (f ()) s := by
  by_cases hf : lib.fails (.setsockopt .sndsyn) = true ∨ lib.fails (.setsockopt .rcvsyn) = true
  · rw [setNonblocking, if_pos hf, onError_bind_error (exec_throw _ s)]
    refine iff_of_false hs fun h => ?_
    simp [h.1] at hf
  · rw [setNonblocking, if_neg hf, onError_bind_ok (exec_pure () s)]
    simp only [not_or, Bool.not_eq_true] at hf
    exact (and_iff_right hf).symm

theorem onError_srtEpollCreate {α : Type} {P : Handles → Prop} {f : Nat → Attempt α}
    {call : SrtCall} : OnError P (srtEpollCreate lib call sock >>= f) s ↔
      (lib.fails call = true → P (closed lib sock s)) ∧
      (lib.fails call = false →
        OnError P (f (lib.pick call s.epolls))
          { s with epolls := insert (lib.pick call s.epolls) s.epolls }) := by
  cases hf : lib.fails call with
  | true =>
      rw [onError_bind_error (exec_srtEpollCreate_fails hf)]
      simp
  | false =>
      rw [onError_bind_ok (exec_srtEpollCreate hf)]
      simp

theorem onError_srtEpollAddUsock {α : Type} {P : Handles → Prop} {f : Unit → Attempt α}
    {call release : SrtCall} {eid : Nat} :
    OnError P (srtEpollAddUsock lib call release eid sock >>= f) s ↔
      (lib.fails call = true → P (closed lib sock (released lib release eid s))) ∧
      (lib.fails call = false → OnError P (f ()) s) := by
  apply onError_orElse
  rw [exec_bind_ok exec_srtEpollRelease, exec_srtClose]

theorem onError_startEventLoop (hs : Holding h sock s) :
    OnError (Restored h) (startEventLoop lib sock) s ↔ StartCleans lib (s.epolls = h.epolls) := by
  rw [startEventLoop, onError_setNonblocking hs.not_restored, onError_srtEpollCreate,
    onError_srtEpollAddUsock, onError_of_ok (exec_pure _ _), hs.restored_closed,
    (hs.released (lib.fresh _ _)).restored_closed,
    hs.epolls_released_iff (lib.fresh _ _), StartCleans]
  simp [and_assoc, and_left_comm]

theorem onError_openSocket {α : Type} {P : Handles → Prop} {f : Nat → Attempt α} {call : SrtCall}
    {e : String → SrtError} : OnError P (openSocket lib call e >>= f) s ↔
      (lib.fails call = true → P s) ∧ (lib.fails call = false →
        OnError P (f (lib.pick call s.sockets))
          { s with sockets := insert (lib.pick call s.sockets) s.sockets }) := by
  cases hf : lib.fails call with
  | true =>
      rw [onError_bind_error (exec_openSocket_fails hf)]
      simp
  | false =>
      rw [onError_bind_ok (exec_openSocket hf)]
      simp

theorem onError_srtGlobalInit {α : Type} {P : Handles → Prop} {f : Unit → Attempt α} :
    OnError P (srtGlobalInit lib >>= f) s ↔
      ((s.started = false ∧ lib.fails .startup = true) → P { s with started := true }) ∧
      (¬ (s.started = false ∧ lib.fails .startup = true) →
        OnError P (f ()) { s with started := true }) := by
  by_cases hf : s.started = false ∧ lib.fails .startup = true
  · have hexec : exec (srtGlobalInit lib) s =
        (.error (.init (lib.error .startup)), { s with started := true }) := if_pos hf
    rw [onError_bind_error hexec]
    simp [hf]
  · have hexec : exec (srtGlobalInit lib) s = (.ok (), { s with started := true }) := if_neg hf
    rw [onError_bind_ok hexec]
    simp [hf]

theorem holding_opened (lib : Libsrt) (call : SrtCall) (h : Handles) :
    Holding h (lib.pick call h.sockets)
    { h with started := true, sockets := insert (lib.pick call h.sockets) h.sockets } :=
  ⟨rfl, lib.fresh call h.sockets, Finset.Subset.refl _⟩

/-- What has to hold of the first calls of an attempt, up to the use of the address, and of the
calls after them: no socket is opened, or its options are set and the address can be used. -/
def OpenCleans (lib : Libsrt) (cfg : SrtConfig) (h : Handles) (rest : Prop) : Prop :=
  (h.started = false ∧ lib.fails .startup = true) ∨ lib.fails .createSocket = true ∨
    ((∀ opt ∈ optionsOf cfg, lib.fails (.setsockopt opt) = false) ∧ cfg.peerAddr.isV4 = true ∧ rest)

theorem onError_opening {α : Type} {cfg : SrtConfig} {f : Nat → Attempt α} {rest : Prop}
    (hrest : ∀ sock s, sock = lib.pick .createSocket h.sockets → s.epolls = h.epolls →
      Holding h sock s →
      (OnError (Restored h) (f sock) s ↔ rest)) :
    OnError (Restored h) (do
      srtGlobalInit lib
      let sock ← openSocket lib .createSocket .init
      applyOptions lib cfg
      sockaddrFrom cfg.peerAddr
      f sock) h ↔ OpenCleans lib cfg h rest := by
  have hheld := holding_opened lib .createSocket h
  have hback : Restored h { h with started := true } := ⟨rfl, rfl⟩
  have hopened : OnError (Restored h) (f (lib.pick .createSocket h.sockets))
      { h with started := true, sockets := insert (lib.pick .createSocket h.sockets) h.sockets } ↔
      rest := by
    apply hrest
    · rfl
    · rfl
    · exact hheld
  rw [onError_srtGlobalInit, onError_openSocket, onError_applyOptions hheld.not_restored,
    onError_sockaddrFrom hheld.not_restored, hopened, OpenCleans]
  cases h.started <;> cases lib.fails .startup <;> cases lib.fails .createSocket <;> simp [hback]

/-- Whatever is opened before one of the three calls that make the socket a listener can be closed
again. -/
def BindListenerCleans (lib : Libsrt) (cfg : SrtConfig) (h : Handles) : Prop :=
  OpenCleans lib cfg h (lib.fails .bind = true ∨ lib.fails .listen = true →
    lib.fails .close = false)

theorem onError_bindListener {cfg : SrtConfig} :
    OnError (Restored h) (bindListener lib cfg) h ↔ BindListenerCleans lib cfg h := by
  apply onError_opening
  rintro sock s - hepolls hs
  rw [onError_orElse exec_srtClose, onError_orElse exec_srtClose, onError_of_ok (exec_pure _ _),
    hs.restored_closed]
  cases lib.fails .bind <;> cases lib.fails .listen <;> simp [hepolls]

theorem onError_acceptOne : OnError (Restored h) (acceptOne lib) h ↔
    (lib.fails .accept = true ∨ StartCleans lib True) := by
  have hheld : Holding h (lib.pick .accept h.sockets)
      { h with sockets := insert (lib.pick .accept h.sockets) h.sockets } :=
    ⟨rfl, lib.fresh .accept h.sockets, Finset.Subset.refl _⟩
  have hback : Restored h h := ⟨rfl, rfl⟩
  rw [acceptOne, onError_openSocket, onError_startEventLoop hheld]
  cases lib.fails .accept <;> simp [hback]

theorem onError_awaitConnection {α : Type} {P : Handles → Prop} {f : Unit → Attempt α} :
    OnError P (awaitConnection lib connEid sock >>= f) s ↔
      if lib.fails .connEpollWait = false ∧ sock ∈ lib.events then
        OnError P (f ()) (released lib .connEpollRelease connEid s)
      else P (closed lib sock (released lib .connEpollRelease connEid s)) := by
  by_cases hc : lib.fails .connEpollWait = false ∧ sock ∈ lib.events
  · have hexec : exec (awaitConnection lib connEid sock) s =
        (.ok (), released lib .connEpollRelease connEid s) := by
      rw [awaitConnection, exec_bind_ok exec_srtEpollRelease, if_pos hc, exec_pure]
    rw [onError_bind_ok hexec, if_pos hc]
  · have hexec : exec (awaitConnection lib connEid sock) s =
        (.error (.connect ("连接超时: " ++ lib.error .connEpollWait)),
          closed lib sock (released lib .connEpollRelease connEid s)) := by
      rw [awaitConnection, exec_bind_ok exec_srtEpollRelease, if_neg hc, exec_bind_ok exec_srtClose,
        exec_throw]
    rw [onError_bind_error hexec, if_neg hc]

/-- Where the connection is not made, or the event loop cannot be started, what was opened can be
closed again. -/
def ConnectingCleans (lib : Libsrt) (sock : Nat) : Prop :=
  if lib.fails .connect = true ∨ lib.fails .connEpollCreate = true then lib.fails .close = false
  else if lib.fails .connEpollAdd = true ∨
    ¬ (lib.fails .connEpollWait = false ∧ sock ∈ lib.events) then
    lib.fails .connEpollRelease = false ∧ lib.fails .close = false
  else StartCleans lib (lib.fails .connEpollRelease = false)

def ConnectCleans (lib : Libsrt) (cfg : SrtConfig) (h : Handles) : Prop :=
  OpenCleans lib cfg h (ConnectingCleans lib (lib.pick .createSocket h.sockets))

theorem onError_connect {cfg : SrtConfig} :
    OnError (Restored h) (connect lib cfg) h ↔ ConnectCleans lib cfg h := by
  apply onError_opening
  rintro sock s rfl hepolls hs
  have hfresh := lib.fresh .connEpollCreate s.epolls
  rw [onError_orElse exec_srtClose, onError_srtEpollCreate, onError_srtEpollAddUsock,
    onError_awaitConnection, onError_startEventLoop (hs.released hfresh), hs.restored_closed,
    (hs.released hfresh).restored_closed,
    hs.epolls_released_iff hfresh, ConnectingCleans]
  simp only [hepolls, and_true]
  cases lib.fails .connect <;> cases lib.fails .connEpollCreate <;> cases lib.fails .connEpollAdd
  case false.false.false =>
    by_cases hc : lib.fails .connEpollWait = false ∧ lib.pick .createSocket h.sockets ∈ lib.events
    · simp [hc]
    · simp [hc, and_comm]
  all_goals simp [and_comm]

end Attempts

/-- An attempt, with what the library answers in it, or handles that others close in between. -/
inductive Action
  | connect (lib : Libsrt) (cfg : SrtConfig)
  | bindListener (lib : Libsrt) (cfg : SrtConfig)
  | acceptOne (lib : Libsrt)
  | ended (sockets epolls : Finset Nat)

def next (h : Handles) : Action → Handles
  | .connect lib cfg => (exec (connect lib cfg) h).2
  | .bindListener lib cfg => (exec (bindListener lib cfg) h).2
  | .acceptOne lib => (exec (acceptOne lib) h).2
  | .ended sockets epolls => { h with sockets := h.sockets \ sockets, epolls := h.epolls \ epolls }

/-- If the attempt returns an error, the open handles are those from before it. -/
def LeaksNothing (h : Handles) : Action → Prop
  | .connect lib cfg => OnError (Restored h) (connect lib cfg) h
  | .bindListener lib cfg => OnError (Restored h) (bindListener lib cfg) h
  | .acceptOne lib => OnError (Restored h) (acceptOne lib) h
  | .ended _ _ => True

def Cleans (h : Handles) : Action → Prop
  | .connect lib cfg => ConnectCleans lib cfg h
  | .bindListener lib cfg => BindListenerCleans lib cfg h
  | .acceptOne lib => lib.fails .accept = true ∨ StartCleans lib True
  | .ended _ _ => True

theorem leaksNothing_iff (h : Handles) (a : Action) : LeaksNothing h a ↔ Cleans h a := by
  cases a with
  | connect lib cfg => exact onError_connect
  | bindListener lib cfg => exact onError_bindListener
  | acceptOne lib => exact onError_acceptOne
  | ended sockets epolls => exact Iff.rfl

/-- In every sequence of attempts, those that fail leave the open sockets and epolls as they were,
exactly if each is one of those that clean up. -/
theorem attempts_leakNothing_iff (h : Handles) (actions : List Action) :
    (∀ past a, past ++ [a] <+: actions → LeaksNothing (past.foldl next h) a) ↔
      ∀ past a, past ++ [a] <+: actions → Cleans (past.foldl next h) a := by
  apply forall_congr'
  intro past
  apply forall_congr'
  intro a
  rw [leaksNothing_iff]

/-- A library that never fails. -/
def working : Libsrt where
  fails := fun _ => false
  error := fun _ => ""
  pick := fun _ taken => taken.sup id + 1
  fresh := fun _ taken htaken => by
    have hle : taken.sup id + 1 ≤ taken.sup id := Finset.le_sup (f := id) htaken
    omega
  events := [1]

/-- A client that is given an IPv6 address opens a socket and forgets it. -/
theorem connect_ipv6_leaks :
    ¬ ∀ (h : Handles) (actions : List Action) (past : List Action) (a : Action),
    past ++ [a] <+: actions → LeaksNothing (past.foldl next h) a := by
  intro hall
  have hleak :=
    hall ⟨false, ∅, ∅⟩ [.connect working ⟨.v6 (List.replicate 15 0 ++ [1]) 9000, [], none, true⟩] []
      _ (List.prefix_refl _)
    (.param "IPv6 暂不支持（P1 仅 IPv4）") ⟨true, {1}, ∅⟩ rfl
  exact Finset.singleton_ne_empty 1 hleak.1

end SrtVpn.Attempts
