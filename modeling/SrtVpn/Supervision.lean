import SrtVpn.Configuration
import SrtVpn.Runs

namespace SrtVpn.Supervision

open SrtVpn.Configuration (ReconnectConfig)
open Runs

inductive Event
  | connected (r : Except String Unit)
  | woken
  | bound (r : Except String Unit)
  | accepted (r : Except String Unit)
  | tunnelClosed

structure Turn where
  now : Nat
  event : Event

/-- A connection is being made, or a new attempt waits for its time; the proxy opens its port, or
serves; `run` returned. -/
inductive Stage
  | connecting
  | sleeping (due : Nat)
  | binding
  | serving
  | stopped (r : Except String Unit)

structure Client where
  firstConnect : Bool
  attempt : Nat
  stage : Stage
  active : Int
  total : Nat

structure Settings where
  reconnect : Option ReconnectConfig
  listenAddr : String

def Settings.interval (cfg : Settings) : Nat :=
  ((cfg.reconnect.map ReconnectConfig.intervalSecs).getD 5).toNat * 10 ^ 9

def Settings.maxRetries (cfg : Settings) : Int :=
  ((cfg.reconnect.map ReconnectConfig.maxRetries).getD 10).toInt

def startsWith (e pre : String) : Bool := pre.toList.isPrefixOf e.toList

def firstError (cfg : Settings) (e : String) : String :=
  "SRT 连接失败（已达最大重试 " ++ toString cfg.maxRetries ++ " 次）: " ++ e

def retryError (cfg : Settings) : String :=
  "SRT 连接失败（已达最大重试 " ++ toString cfg.maxRetries ++ " 次）。若服务端日志报\"时钟\"，请先校准本机系统时间（NTP）再启动"

def listenError (cfg : Settings) (e : String) : String :=
  "listen:SOCKS5 监听失败 " ++ cfg.listenAddr ++ ": " ++ e

def acceptError (e : String) : String := "SOCKS5 accept 失败: " ++ e

def closedError : String := "隧道已断开，等待重连"

namespace Client

/-- The metrics start at zero, with or without a metrics port. -/
def new : Client := ⟨true, 0, .connecting, 0, 0⟩

/-- The next attempt is due after the interval, unless there were as many as are allowed. -/
def retry (cfg : Settings) (s : Client) (now : Nat) (e : String) : Client :=
  let s := { s with attempt := s.attempt + 1 }
  if 0 ≤ cfg.maxRetries ∧ cfg.maxRetries < s.attempt then { s with stage := .stopped (.error e) }
  else { s with stage := .sleeping (now + cfg.interval) }

/-- Behind `serve`: an error of the port is final, any other leads to a new connection. -/
def afterServe (cfg : Settings) (s : Client) (now : Nat) (r : Except String Unit) : Client :=
  let s := { s with active := s.active - 1 }
  match r with
  | .ok () => { s with stage := .stopped (.ok ()) }
  | .error e =>
      if startsWith e "listen:" then { s with stage := .stopped (.error e) }
      else s.retry cfg now (retryError cfg)

/-- One turn of `run`, with `connect_with_retry` for the first connection and `serve` for the
proxy. -/
def step (cfg : Settings) (s : Client) (t : Turn) : Option Client :=
  match s.stage, t.event with
  | .connecting, .connected (.ok ()) =>
      some { s with
        firstConnect := false
        attempt := 0
        stage := .binding
        active := s.active + 1
        total := s.total + 1 }
  | .connecting, .connected (.error e) =>
      some (s.retry cfg t.now (if s.firstConnect then firstError cfg e else retryError cfg))
  | .sleeping due, .woken => if due ≤ t.now then some { s with stage := .connecting } else none
  | .binding, .bound (.ok ()) => some { s with stage := .serving }
  | .binding, .bound (.error e) => some (s.afterServe cfg t.now (.error (listenError cfg e)))
  | .serving, .accepted (.ok ()) => some s
  | .serving, .accepted (.error e) => some (s.afterServe cfg t.now (.error (acceptError e)))
  | .serving, .tunnelClosed => some (s.afterServe cfg t.now (.error closedError))
  | _, _ => none

end Client

theorem toList_listen : "listen:".toList = ['l', 'i', 's', 't', 'e', 'n', ':'] := by decide +kernel

theorem startsWith_append {e pre : String} (h : startsWith e pre = true) (more : String) :
    startsWith (e ++ more) pre = true := by
  rw [startsWith, List.isPrefixOf_iff_prefix] at h ⊢
  rw [String.toList_append]
  exact h.trans (List.prefix_append _ _)

theorem startsWith_listenError (cfg : Settings) (e : String) :
    startsWith (listenError cfg e) "listen:" = true := by
  have hhead : startsWith "listen:SOCKS5 监听失败 " "listen:" = true := by decide +kernel
  exact startsWith_append (startsWith_append (startsWith_append hhead cfg.listenAddr) ": ") e

theorem startsWith_of_head {e : String} {c : Char} (hhead : e.toList.head? = some c)
    (hc : c ≠ 'l') : startsWith e "listen:" = false := by
  obtain ⟨rest, hrest⟩ := List.head?_eq_some_iff.mp hhead
  rw [startsWith, toList_listen, hrest, List.isPrefixOf_cons_cons, Bool.and_eq_false_iff]
  exact Or.inl (beq_false_of_ne hc.symm)

theorem head?_toList_append {e : String} {c : Char} (h : e.toList.head? = some c) (more : String) :
    (e ++ more).toList.head? = some c := by
  rw [String.toList_append, List.head?_append, h, Option.some_or]

theorem startsWith_acceptError (e : String) : startsWith (acceptError e) "listen:" = false := by
  have hhead : ("SOCKS5 accept 失败: ".toList).head? = some 'S' := by decide +kernel
  exact startsWith_of_head (head?_toList_append hhead e) (by decide)

theorem startsWith_closedError : startsWith closedError "listen:" = false :=
  startsWith_of_head (c := '隧') (by decide +kernel) (by decide)

def failures (turns : List Turn) : Nat :=
  turns.foldl (fun n t => match t.event with
    | .connected (.ok ()) => 0
    | .connected (.error _) => n + 1
    | _ => n) 0

def succeeded (turns : List Turn) : Bool :=
  turns.any fun t => match t.event with
    | .connected (.ok ()) => true
    | _ => false

def lost (turns : List Turn) : Bool :=
  turns.foldl (fun b t => match t.event with
    | .connected (.ok ()) => false
    | .accepted (.error _) => true
    | .tunnelClosed => true
    | _ => b) false

/-- Why `run` returns: the port cannot be opened; the first connection failed once more often than
it is tried again; after a connection was lost, all attempts failed. -/
def Returns (cfg : Settings) (turns : List Turn) (r : Except String Unit) : Prop :=
  (lost turns = false ∧ ∃ t e, turns.getLast? = some t ∧ t.event = .bound (.error e) ∧
    r = .error (listenError cfg e)) ∨
    (succeeded turns = false ∧ 0 ≤ cfg.maxRetries ∧ failures turns = cfg.maxRetries + 1 ∧
      ∃ t e, turns.getLast? = some t ∧ t.event = .connected (.error e) ∧
        r = .error (firstError cfg e)) ∨
    (succeeded turns = true ∧ lost turns = true ∧ 0 ≤ cfg.maxRetries ∧
      failures turns = cfg.maxRetries ∧
      r = .error (retryError cfg))

section Counters

variable (turns : List Turn) {t : Turn}

theorem counters_ok (h : t.event = .connected (.ok ())) :
    failures (turns ++ [t]) = 0 ∧ succeeded (turns ++ [t]) = true ∧
    lost (turns ++ [t]) = false := by
  simp [failures, succeeded, lost, List.foldl_append, h]

theorem counters_failed {e : String} (h : t.event = .connected (.error e)) :
    failures (turns ++ [t]) = failures turns + 1 ∧ succeeded (turns ++ [t]) = succeeded turns ∧
    lost (turns ++ [t]) = lost turns := by
  simp [failures, succeeded, lost, List.foldl_append, h]

theorem counters_left (h : (∃ e, t.event = .accepted (.error e)) ∨ t.event = .tunnelClosed) :
    failures (turns ++ [t]) = failures turns ∧ succeeded (turns ++ [t]) = succeeded turns ∧
    lost (turns ++ [t]) = true := by
  rcases h with ⟨e, h⟩ | h <;> simp [failures, succeeded, lost, List.foldl_append, h]

theorem counters_other
    (h : (∃ r, t.event = .bound r) ∨ t.event = .woken ∨ t.event = .accepted (.ok ())) :
    failures (turns ++ [t]) = failures turns ∧ succeeded (turns ++ [t]) = succeeded turns ∧
    lost (turns ++ [t]) = lost turns := by
  rcases h with ⟨r, h⟩ | h | h <;> simp [failures, succeeded, lost, List.foldl_append, h]

end Counters

/-- What the counters of the client say about the turns so far. -/
structure Agrees (cfg : Settings) (turns : List Turn) (s : Client) : Prop where
  first : s.firstConnect = !succeeded turns
  trying : s.stage = .connecting ∨ (∃ due, s.stage = .sleeping due) →
    (s.attempt : Int) = failures turns + (if s.firstConnect then 0 else 1) ∧
      (s.firstConnect = false → lost turns = true) ∧
      (0 ≤ cfg.maxRetries → s.attempt ≤ cfg.maxRetries)
  serving : s.stage = .binding ∨ s.stage = .serving →
    s.firstConnect = false ∧ s.attempt = 0 ∧ failures turns = 0 ∧ lost turns = false
  running : (∀ r, s.stage ≠ .stopped r) → ∀ t, turns.getLast? = some t →
    ∀ e, t.event ≠ .bound (.error e)
  stopped : ∀ r, s.stage = .stopped r → Returns cfg turns r

section Step

variable {cfg : Settings} {turns : List Turn} {s s' : Client} {t : Turn}

theorem retry_cases (cfg : Settings) (s : Client) (now : Nat) (e : String) :
    (0 ≤ cfg.maxRetries ∧ cfg.maxRetries < s.attempt + 1 ∧
        s.retry cfg now e = { s with attempt := s.attempt + 1, stage := .stopped (.error e) }) ∨
      ((0 ≤ cfg.maxRetries → s.attempt + 1 ≤ cfg.maxRetries) ∧
        s.retry cfg now e =
          { s with attempt := s.attempt + 1, stage := .sleeping (now + cfg.interval) }) := by
  rw [Client.retry]
  simp only
  split
  next hspent => exact Or.inl ⟨hspent.1, by simpa using hspent.2, rfl⟩
  next hleft =>
    refine Or.inr ⟨fun hmax => ?_, rfl⟩
    by_contra hlt
    exact hleft ⟨hmax, by simpa using hlt⟩

theorem step_cases (h : s.step cfg t = some s') :
    (s.stage = .connecting ∧ t.event = .connected (.ok ()) ∧
        s' = { s with
          firstConnect := false
          attempt := 0
          stage := .binding
          active := s.active + 1
          total := s.total + 1 }) ∨
      (s.stage = .connecting ∧ ∃ e, t.event = .connected (.error e) ∧
        s' = s.retry cfg t.now (if s.firstConnect then firstError cfg e else retryError cfg)) ∨
      (∃ due, s.stage = .sleeping due ∧ t.event = .woken ∧ due ≤ t.now ∧
        s' = { s with stage := .connecting }) ∨
      (s.stage = .binding ∧ t.event = .bound (.ok ()) ∧ s' = { s with stage := .serving }) ∨
      (s.stage = .binding ∧ ∃ e, t.event = .bound (.error e) ∧
        s' = { s with active := s.active - 1, stage := .stopped (.error (listenError cfg e)) }) ∨
      (s.stage = .serving ∧ t.event = .accepted (.ok ()) ∧ s' = s) ∨
      (s.stage = .serving ∧ ((∃ e, t.event = .accepted (.error e)) ∨ t.event = .tunnelClosed) ∧
        s' = ({ s with active := s.active - 1 } : Client).retry cfg t.now (retryError cfg)) := by
  rw [Client.step] at h
  split at h
  next hstage hevent => exact Or.inl ⟨hstage, hevent, (Option.some.inj h).symm⟩
  next e hstage hevent => exact Or.inr (Or.inl ⟨hstage, e, hevent, (Option.some.inj h).symm⟩)
  next due hstage hevent =>
    obtain ⟨hdue, rfl⟩ := Option.ite_some_none_eq_some.mp h
    exact Or.inr (Or.inr (Or.inl ⟨due, hstage, hevent, hdue, rfl⟩))
  next hstage hevent =>
    exact Or.inr (Or.inr (Or.inr (Or.inl ⟨hstage, hevent, (Option.some.inj h).symm⟩)))
  next e hstage hevent =>
    rw [Client.afterServe] at h
    simp only [startsWith_listenError, if_true] at h
    exact Or.inr (Or.inr (Or.inr (Or.inr (Or.inl ⟨hstage, e, hevent, (Option.some.inj h).symm⟩))))
  next hstage hevent =>
    exact Or.inr
      (Or.inr (Or.inr (Or.inr (Or.inr (Or.inl ⟨hstage, hevent, (Option.some.inj h).symm⟩)))))
  next e hstage hevent =>
    rw [Client.afterServe] at h
    simp only [startsWith_acceptError] at h
    exact Or.inr
      (Or.inr (Or.inr
        (Or.inr (Or.inr (Or.inr ⟨hstage, Or.inl ⟨e, hevent⟩, (Option.some.inj h).symm⟩)))))
  next hstage hevent =>
    rw [Client.afterServe] at h
    simp only [startsWith_closedError] at h
    exact Or.inr
      (Or.inr (Or.inr (Or.inr (Or.inr (Or.inr ⟨hstage, Or.inr hevent, (Option.some.inj h).symm⟩)))))
  next => cases h

theorem agrees_new (cfg : Settings) : Agrees cfg [] .new := by
  refine ⟨rfl, fun _ => ⟨rfl, nofun, id⟩, ?_, fun _ t ht => ?_, nofun⟩
  · rintro (h | h) <;> cases h
  · cases ht

theorem agrees_retry {turns' : List Turn} {e : String} (hfirst : s.firstConnect = !succeeded turns')
    (hcount : ((s.attempt : Int) + 1 = failures turns' + (if s.firstConnect then 0 else 1)))
    (hlost : s.firstConnect = false → lost turns' = true)
    (hlast : ∀ t, turns'.getLast? = some t → ∀ e, t.event ≠ .bound (.error e))
    (hreturns : 0 ≤ cfg.maxRetries → failures turns' =
      cfg.maxRetries + (if s.firstConnect then 1 else 0) → Returns cfg turns' (.error e))
    (hwithin : 0 ≤ cfg.maxRetries → s.attempt ≤ cfg.maxRetries) (now : Nat) :
    Agrees cfg turns' (s.retry cfg now e) := by
  rcases retry_cases cfg s now e with ⟨hmax, hspent, heq⟩ | ⟨hleft, heq⟩
  · rw [heq]
    refine ⟨hfirst, ?_, ?_, fun hrunning => absurd rfl (hrunning (.error e)), ?_⟩
    · rintro (h | ⟨due, h⟩) <;> cases h
    · rintro (h | h) <;> cases h
    · intro r hr
      obtain rfl := Stage.stopped.inj hr
      apply hreturns hmax
      have hle := hwithin hmax
      cases hf : s.firstConnect with
      | true =>
          rw [hf, if_pos rfl] at hcount
          rw [if_pos rfl]
          omega
      | false =>
          rw [hf, if_neg (by decide)] at hcount
          rw [if_neg (by decide)]
          omega
  · rw [heq]
    refine ⟨hfirst, fun _ => ⟨hcount, hlost, hleft⟩, ?_, fun _ => hlast, nofun⟩
    rintro (h | h) <;> cases h

theorem Agrees.step (h : Agrees cfg turns s) (hstep : s.step cfg t = some s') :
    Agrees cfg (turns ++ [t]) s' := by
  have hlast (he : ∀ e, t.event ≠ .bound (.error e)) : ∀ t', (turns ++ [t]).getLast? = some t' →
      ∀ e, t'.event ≠ .bound (.error e) := by
    intro t' ht'
    rw [List.getLast?_concat] at ht'
    obtain rfl := Option.some.inj ht'
    exact he
  rcases step_cases hstep with ⟨-, hevent, rfl⟩ | ⟨hstage, e, hevent, rfl⟩ |
      ⟨due, hstage, hevent, -, rfl⟩ | ⟨hstage, hevent, rfl⟩ |
    ⟨hstage, e, hevent, rfl⟩ | ⟨hstage, hevent, rfl⟩ | ⟨hstage, hevent, rfl⟩
  · obtain ⟨hfailures, hsucceeded, hlost⟩ := counters_ok turns hevent
    refine ⟨by rw [hsucceeded]; rfl, ?_, fun _ => ⟨rfl, rfl, hfailures, hlost⟩,
      fun _ => hlast (by simp [hevent]), nofun⟩
    rintro (h | ⟨due, h⟩) <;> cases h
  · obtain ⟨hfailures, hsucceeded, hlost⟩ := counters_failed turns hevent
    obtain ⟨hcount, hgone, hwithin⟩ := h.trying (Or.inl hstage)
    have hfirst := h.first
    apply agrees_retry _ _ _ (hlast (by simp [hevent])) _ hwithin
    · rw [hsucceeded, hfirst]
    · rw [hfailures, hcount]
      push_cast
      omega
    · rw [hlost]
      exact hgone
    · intro hmax hcnt
      cases hf : s.firstConnect with
      | true =>
          rw [hf] at hcnt hfirst
          refine Or.inr (Or.inl ⟨?_, hmax, hcnt, t, e, List.getLast?_concat, hevent, rfl⟩)
          rw [hsucceeded]
          simpa using hfirst
      | false =>
          rw [hf] at hcnt hfirst
          refine Or.inr (Or.inr ⟨?_, ?_, hmax, by simpa using hcnt, rfl⟩)
          · rw [hsucceeded]
            simpa using hfirst
          · rw [hlost]
            exact hgone hf
  · obtain ⟨hfailures, hsucceeded, hlost⟩ := counters_other turns (Or.inr (Or.inl hevent))
    refine ⟨by rw [hsucceeded]; exact h.first, fun _ => ?_, ?_, fun _ => hlast (by simp [hevent]), nofun⟩
    · rw [hfailures, hlost]
      exact h.trying (Or.inr ⟨due, hstage⟩)
    · rintro (h | h) <;> cases h
  · obtain ⟨hfailures, hsucceeded, hlost⟩ := counters_other turns (Or.inl ⟨_, hevent⟩)
    refine ⟨by rw [hsucceeded]; exact h.first, ?_, fun _ => ?_, fun _ => hlast (by simp [hevent]), nofun⟩
    · rintro (h | ⟨due, h⟩) <;> cases h
    · rw [hfailures, hlost]
      exact h.serving (Or.inl hstage)
  · obtain ⟨hfailures, hsucceeded, hlost⟩ := counters_other turns (Or.inl ⟨_, hevent⟩)
    refine ⟨by rw [hsucceeded]; exact h.first, ?_, ?_, fun hrunning => absurd rfl (hrunning _), ?_⟩
    · rintro (h | ⟨due, h⟩) <;> cases h
    · rintro (h | h) <;> cases h
    · intro r hr
      obtain rfl := Stage.stopped.inj hr
      refine Or.inl ⟨?_, t, e, List.getLast?_concat, hevent, rfl⟩
      rw [hlost]
      exact (h.serving (Or.inl hstage)).2.2.2
  · obtain ⟨hfailures, hsucceeded, hlost⟩ := counters_other turns (Or.inr (Or.inr hevent))
    refine ⟨by rw [hsucceeded]; exact h.first, ?_, fun _ => ?_, fun _ => hlast (by simp [hevent]),
      fun r hr => ?_⟩
    · rw [hstage]
      rintro (h | ⟨due, h⟩) <;> cases h
    · rw [hfailures, hlost]
      exact h.serving (Or.inr hstage)
    · rw [hstage] at hr
      cases hr
  · obtain ⟨hfailures, hsucceeded, hlost⟩ := counters_left turns hevent
    obtain ⟨hf, hattempt, hnone, -⟩ := h.serving (Or.inr hstage)
    have hfirst := h.first
    rw [hf] at hfirst
    apply agrees_retry (s := { s with active := s.active - 1 })
    · rw [hsucceeded]
      exact h.first
    · simp [hfailures, hattempt, hnone, hf]
    · exact fun _ => hlost
    · exact hlast (by rcases hevent with ⟨e, hevent⟩ | hevent <;> simp [hevent])
    · intro hmax hcnt
      refine Or.inr (Or.inr ⟨?_, hlost, hmax, by simpa [hf] using hcnt, rfl⟩)
      rw [hsucceeded]
      simpa using hfirst
    · intro hmax
      simp only [hattempt]
      exact_mod_cast hmax

end Step

theorem agrees_run {cfg : Settings} {turns : List Turn} {s : Client}
    (h : exec (Client.step cfg) .new turns = some s) : Agrees cfg turns s := by
  induction turns using List.reverseRecOn generalizing s with
  | nil =>
      obtain rfl := Option.some.inj h
      exact agrees_new cfg
  | append_singleton turns t ih =>
      rw [exec_append_singleton, Option.bind_eq_some_iff] at h
      obtain ⟨u, hu, hstep⟩ := h
      exact (ih hu).step hstep

section Reasons

variable {cfg : Settings} {turns : List Turn} {s : Client} {r r' : Except String Unit}

theorem Returns.unique (h : Returns cfg turns r) (h' : Returns cfg turns r') : r = r' := by
  rcases h with ⟨hlost, t, e, ht, hevent, rfl⟩ | ⟨hnever, -, -, t, e, ht, hevent, rfl⟩ |
      ⟨honce, hlost, -, -, rfl⟩ <;>
    rcases h' with ⟨hlost', t', e', ht', hevent', rfl⟩ |
        ⟨hnever', -, -, t', e', ht', hevent', rfl⟩ | ⟨honce', hlost', -, -, rfl⟩ <;>
    simp_all

theorem Agrees.not_returns_trying (h : Agrees cfg turns s)
    (hstage : s.stage = .connecting ∨ ∃ due, s.stage = .sleeping due)
    (r : Except String Unit) : ¬ Returns cfg turns r := by
  obtain ⟨hcount, -, hwithin⟩ := h.trying hstage
  have hrunning : ∀ r, s.stage ≠ .stopped r := by
    intro r hr
    rcases hstage with hstage | ⟨due, hstage⟩ <;> rw [hstage] at hr <;> cases hr
  rintro (⟨-, t, e, ht, hevent, -⟩ | ⟨hnever, hmax, hspent, -⟩ | ⟨honce, -, hmax, hspent, -⟩)
  · exact h.running hrunning t ht e hevent
  · have hfirst : s.firstConnect = true := by rw [h.first, hnever]; rfl
    have hle := hwithin hmax
    rw [hfirst, if_pos rfl] at hcount
    omega
  · have hfirst : s.firstConnect = false := by rw [h.first, honce]; rfl
    have hle := hwithin hmax
    rw [hfirst, if_neg (by decide)] at hcount
    omega

theorem Agrees.not_returns_serving (h : Agrees cfg turns s)
    (hstage : s.stage = .binding ∨ s.stage = .serving) (r : Except String Unit) :
    ¬ Returns cfg turns r := by
  obtain ⟨hfirst, -, -, hlost⟩ := h.serving hstage
  have hrunning : ∀ r, s.stage ≠ .stopped r := by
    intro r hr
    rcases hstage with hstage | hstage <;> rw [hstage] at hr <;> cases hr
  rintro (⟨-, t, e, ht, hevent, -⟩ | ⟨hnever, -⟩ | ⟨-, hgone, -⟩)
  · exact h.running hrunning t ht e hevent
  · rw [h.first, hnever] at hfirst
    cases hfirst
  · rw [hlost] at hgone
    cases hgone

end Reasons

def Turn.isAttempt (t : Turn) : Bool :=
  match t.event with
  | .connected _ => true
  | _ => false

def Wakes (cfg : Settings) (before : List Turn) (w : Turn) : Prop :=
  w.event = .woken ∧ ∀ t ∈ before, t.isAttempt = true → t.now + cfg.interval ≤ w.now

structure Spaced (cfg : Settings) (turns : List Turn) (s : Client) : Prop where
  sleeping : ∀ due, s.stage = .sleeping due → ∀ t ∈ turns, t.isAttempt = true →
    t.now + cfg.interval ≤ due
  connecting : s.stage = .connecting → turns = [] ∨ ∃ before w, turns = before ++ [w] ∧
    Wakes cfg before w

section Spacing

variable {cfg : Settings} {turns : List Turn} {s s' : Client} {t : Turn}

theorem spaced_retry {u : Client} {e : String} (hclock : ∀ t' ∈ turns, t'.now ≤ t.now) :
    Spaced cfg (turns ++ [t]) (u.retry cfg t.now e) := by
  rcases retry_cases cfg u t.now e with ⟨-, -, heq⟩ | ⟨-, heq⟩
  · rw [heq]
    exact ⟨nofun, nofun⟩
  · rw [heq]
    refine ⟨fun due hdue t' ht' _ => ?_, nofun⟩
    obtain rfl := Stage.sleeping.inj hdue
    apply Nat.add_le_add_right
    rcases List.mem_append.mp ht' with ht' | ht'
    · exact hclock t' ht'
    · exact Nat.le_of_eq (by rw [List.mem_singleton.mp ht'])

theorem Spaced.step (h : Spaced cfg turns s) (hclock : ∀ t' ∈ turns, t'.now ≤ t.now)
    (hstep : s.step cfg t = some s') : Spaced cfg (turns ++ [t]) s' := by
  rcases step_cases hstep with ⟨-, -, rfl⟩ | ⟨-, e, -, rfl⟩ | ⟨due, hstage, hevent, hdue, rfl⟩ |
      ⟨-, -, rfl⟩ | ⟨-, e, -, rfl⟩ |
    ⟨hstage, -, rfl⟩ | ⟨-, -, rfl⟩
  · exact ⟨nofun, nofun⟩
  · exact spaced_retry hclock
  · refine ⟨nofun, fun _ => Or.inr ⟨turns, t, rfl, hevent, fun t' ht' hattempt => ?_⟩⟩
    exact Nat.le_trans (h.sleeping due hstage t' ht' hattempt) hdue
  · exact ⟨nofun, nofun⟩
  · exact ⟨nofun, nofun⟩
  · constructor
    · intro due hdue
      rw [hstage] at hdue
      cases hdue
    · intro hconnecting
      rw [hstage] at hconnecting
      cases hconnecting
  · exact spaced_retry hclock

theorem spaced_run (h : exec (Client.step cfg) .new turns = some s)
    (hclock : turns.Pairwise fun t u => t.now ≤ u.now) : Spaced cfg turns s := by
  induction turns using List.reverseRecOn generalizing s with
  | nil =>
      obtain rfl := Option.some.inj h
      exact ⟨nofun, fun _ => Or.inl rfl⟩
  | append_singleton turns t ih =>
      rw [exec_append_singleton, Option.bind_eq_some_iff] at h
      obtain ⟨u, hu, hstep⟩ := h
      rw [List.pairwise_append] at hclock
      obtain ⟨hbefore, -, hlast⟩ := hclock
      exact (ih hu hbefore).step (fun t' ht' => hlast t' ht' t (by simp)) hstep

end Spacing

/-- Every attempt to connect but the first follows a wake-up, and this lies the interval or more
behind the end of every attempt before it, whether that failed or its connection was lost. -/
theorem attempts_spaced (cfg : Settings) (past : List Turn) (t : Turn) (s s' : Client)
    (h : exec (Client.step cfg) .new past = some s) (hstep : s.step cfg t = some s')
    (hattempt : t.isAttempt = true)
    (hclock : past.Pairwise fun t u => t.now ≤ u.now) :
    past = [] ∨ ∃ before w, past = before ++ [w] ∧ Wakes cfg before w := by
  apply (spaced_run h hclock).connecting
  rcases step_cases hstep with ⟨hstage, -⟩ | ⟨hstage, -⟩ | ⟨due, -, hevent, -⟩ | ⟨-, hevent, -⟩ |
      ⟨-, e, hevent, -⟩ | ⟨-, hevent, -⟩ |
    ⟨-, ⟨e, hevent⟩ | hevent, -⟩
  · exact hstage
  · exact hstage
  all_goals
    rw [Turn.isAttempt, hevent] at hattempt
    cases hattempt

/-- The second attempt, a second after the first. -/
theorem attempts_spaced_second :
    [(⟨0, .connected (.error "a")⟩ : Turn), ⟨10 ^ 9, .woken⟩] = [] ∨ ∃ before w,
    [(⟨0, .connected (.error "a")⟩ : Turn), ⟨10 ^ 9, .woken⟩] = before ++ [w] ∧
    Wakes ⟨some ⟨1, 2⟩, ""⟩ before w :=
  attempts_spaced ⟨some ⟨1, 2⟩, ""⟩ _ ⟨2 * 10 ^ 9, .connected (.ok ())⟩ _ _ rfl rfl rfl (by simp)

def Stage.holds : Stage → Bool
  | .binding => true
  | .serving => true
  | _ => false

def Turn.connects (t : Turn) : Bool :=
  match t.event with
  | .connected (.ok ()) => true
  | _ => false

section Metrics

variable {cfg : Settings} {turns : List Turn} {s s' : Client} {t : Turn}

theorem counted_retry (cfg : Settings) (s : Client) (now : Nat) (e : String) :
    (s.retry cfg now e).active = s.active ∧
    (s.retry cfg now e).total = s.total ∧ (s.retry cfg now e).stage.holds = false := by
  rcases retry_cases cfg s now e with ⟨-, -, heq⟩ | ⟨-, heq⟩ <;> rw [heq] <;> exact ⟨rfl, rfl, rfl⟩

theorem counted_step (h : s.active = if s.stage.holds then 1 else 0)
    (hstep : s.step cfg t = some s') :
    (s'.active = if s'.stage.holds then 1 else 0) ∧
    s'.total = s.total + if t.connects then 1 else 0 := by
  rcases step_cases hstep with ⟨hstage, hevent, rfl⟩ | ⟨hstage, e, hevent, rfl⟩ |
      ⟨due, hstage, hevent, -, rfl⟩ | ⟨hstage, hevent, rfl⟩ |
    ⟨hstage, e, hevent, rfl⟩ | ⟨hstage, hevent, rfl⟩ | ⟨hstage, hevent, rfl⟩
  · have hzero : s.active = 0 := by rw [h, hstage]; rfl
    exact ⟨by rw [hzero]; rfl, by rw [Turn.connects, hevent]; rfl⟩
  · obtain ⟨hactive, htotal, hstage'⟩ :=
      counted_retry cfg s t.now (if s.firstConnect then firstError cfg e else retryError cfg)
    rw [hactive, htotal, hstage', h, hstage]
    simp [Turn.connects, hevent, Stage.holds]
  · simpa [hstage, hevent, Stage.holds, Turn.connects] using h
  · simpa [hstage, hevent, Stage.holds, Turn.connects] using h
  · have hone : s.active = 1 := by rw [h, hstage]; rfl
    exact ⟨by rw [hone]; rfl, by rw [Turn.connects, hevent]; rfl⟩
  · exact ⟨h, by simp [Turn.connects, hevent]⟩
  · obtain ⟨hactive, htotal, hstage'⟩ :=
      counted_retry cfg { s with active := s.active - 1 } t.now (retryError cfg)
    rw [hactive, htotal, hstage']
    rcases hevent with ⟨e, hevent⟩ | hevent <;> simp [h, hstage, Turn.connects, hevent, Stage.holds]

end Metrics

/-- In every state of every run the gauge counts the connection that the client has, and the total
those that it made. -/
theorem connections_counted (cfg : Settings) (turns : List Turn) (s : Client)
    (h : exec (Client.step cfg) .new turns = some s) :
    (s.active = if s.stage.holds then 1 else 0) ∧ s.total = turns.countP Turn.connects := by
  induction turns using List.reverseRecOn generalizing s with
  | nil =>
      obtain rfl := Option.some.inj h
      exact ⟨rfl, rfl⟩
  | append_singleton turns t ih =>
      rw [exec_append_singleton, Option.bind_eq_some_iff] at h
      obtain ⟨u, hu, hstep⟩ := h
      obtain ⟨hactive, htotal⟩ := ih u hu
      obtain ⟨hactive', htotal'⟩ := counted_step hactive hstep
      refine ⟨hactive', ?_⟩
      rw [htotal', htotal, List.countP_append, List.countP_singleton]

theorem connections_counted_one :
    ∃ s, exec (Client.step ⟨none, ""⟩) .new [⟨0, .connected (.ok ())⟩] = some s ∧
    s.active = 1 ∧ s.total = 1 :=
  ⟨_, rfl, connections_counted ⟨none, ""⟩ [⟨0, .connected (.ok ())⟩] _ rfl⟩

end SrtVpn.Supervision
