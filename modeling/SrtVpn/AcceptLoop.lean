import SrtVpn.Counters
import SrtVpn.Runs

namespace SrtVpn.AcceptLoop

open Counters Runs

/-- Where `accept_loop` stands. A refused accept still holds its reservation, and after an error
there is a pause. -/
inductive MainLoop
  | checking
  | sleeping
  | reserving
  | accepting
  | refused (backOff : Bool)
  | accepted
  deriving DecidableEq, Repr

def MainLoop.reserved : MainLoop → Bool
  | .accepting | .refused _ | .accepted => true
  | _ => false

/-- Where the tasks of one client stand: the first authenticates and, if that succeeds, starts the
second, which handles the client. Each of them gives the slot back on its own path. -/
inductive Client
  | authenticating
  | rejected
  | admitted
  | handling
  | ended
  | released
  deriving DecidableEq, Repr

inductive ClientEvent
  | passes
  | fails
  | starts
  | ends
  | releases
  deriving DecidableEq, Repr

def Client.next : Client → ClientEvent → Option Client
  | .authenticating, .passes => some .admitted
  | .authenticating, .fails => some .rejected
  | .admitted, .starts => some .handling
  | .handling, .ends => some .ended
  | .rejected, .releases => some .released
  | .ended, .releases => some .released
  | _, _ => none

def Client.active (c : Client) : Bool := c ≠ .released

/-- What `accept_one` gives, or the task around it. -/
inductive Accepted
  | conn
  | error
  | panicked
  deriving DecidableEq, Repr

/-- The counter is read with `Relaxed`: `seen` are its values since the loop last changed it, and a
load may give any of them. -/
structure Server where
  clientCount : UInt64
  seen : List UInt64
  mainLoop : MainLoop
  clients : List Client

inductive Event
  | load (cur : UInt64)
  | wake
  | reserve
  | accept (result : Accepted)
  | giveBack
  | spawn
  | client (i : Nat) (e : ClientEvent)
  deriving DecidableEq, Repr

def start : Server := ⟨0, [0], .checking, []⟩

/-- The loop's own change of the counter, behind which it sees no older value. -/
def Server.setCount (s : Server) (count : UInt64) (pc : MainLoop) : Server :=
  { s with clientCount := count, seen := [count], mainLoop := pc }

/-- A task of the client `i` moves on; the last of its steps gives the slot back. -/
def Server.clientStep (s : Server) (i : Nat) (e : ClientEvent) (c : Client) : Server :=
  if e = .releases then
    { s with
      clientCount := fetchSub s.clientCount 1
      seen := s.seen ++ [fetchSub s.clientCount 1]
      clients := s.clients.set i c }
  else { s with clients := s.clients.set i c }

def step (maxClients : UInt64) (s : Server) : Event → Option Server
  | .load cur =>
      if s.mainLoop = .checking ∧ cur ∈ s.seen then
        some { s with mainLoop := if maxClients ≤ cur then .sleeping else .reserving }
      else none
  | .wake => if s.mainLoop = .sleeping then some { s with mainLoop := .checking } else none
  | .reserve =>
      if s.mainLoop = .reserving then some (s.setCount (fetchAdd s.clientCount 1) .accepting)
      else none
  | .accept result =>
      if s.mainLoop = .accepting then
        some { s with mainLoop := match result with
          | .conn => .accepted
          | .error => .refused true
          | .panicked => .refused false }
      else none
  | .giveBack =>
      match s.mainLoop with
      | .refused backOff =>
          some (s.setCount (fetchSub s.clientCount 1) (if backOff then .sleeping else .checking))
      | _ => none
  | .spawn =>
      if s.mainLoop = .accepted then
        some { s with mainLoop := .checking, clients := s.clients ++ [.authenticating] }
      else none
  | .client i e => (s.clients[i]?).bind fun c => (c.next e).map (s.clientStep i e)

def Server.active (s : Server) : Nat := s.clients.countP Client.active

section Step

variable {maxClients : UInt64} {s t : Server} {ev : Event}

/-- Everything a step can do: the loop moves and keeps what it holds, makes a reservation, gives it
back or hands it to a new client; or a task moves. -/
theorem step_cases (h : step maxClients s ev = some t) :
    (∃ pc, t = { s with mainLoop := pc } ∧ pc.reserved = s.mainLoop.reserved ∧
        (pc = .reserving → ∃ cur ∈ s.seen, cur < maxClients) ∧ ∀ i, ev ≠ .client i .releases) ∨
      (ev = .reserve ∧ s.mainLoop = .reserving ∧
        t = s.setCount (fetchAdd s.clientCount 1) .accepting) ∨
      (∃ pc, ev = .giveBack ∧ s.mainLoop.reserved = true ∧ pc.reserved = false ∧ pc ≠ .reserving ∧
        t = s.setCount (fetchSub s.clientCount 1) pc) ∨
      (ev = .spawn ∧ s.mainLoop = .accepted ∧
        t = { s with mainLoop := .checking, clients := s.clients ++ [.authenticating] }) ∨
      ∃ i e c c', ev = .client i e ∧ s.clients[i]? = some c ∧ c.next e = some c' ∧
      t = s.clientStep i e c' := by
  cases ev with
  | load cur =>
      obtain ⟨⟨hpc, hcur⟩, rfl⟩ := Option.ite_some_none_eq_some.mp h
      refine Or.inl ⟨_, rfl, ?_, ?_, by simp⟩
      · rw [hpc]
        split <;> rfl
      · intro hres
        split at hres
        · cases hres
        next hlt => exact ⟨cur, hcur, UInt64.not_le.mp hlt⟩
  | wake =>
      obtain ⟨hpc, rfl⟩ := Option.ite_some_none_eq_some.mp h
      exact Or.inl ⟨.checking, rfl, by rw [hpc]; rfl, by simp, by simp⟩
  | reserve =>
      obtain ⟨hpc, rfl⟩ := Option.ite_some_none_eq_some.mp h
      exact Or.inr (Or.inl ⟨rfl, hpc, rfl⟩)
  | accept result =>
      obtain ⟨hpc, rfl⟩ := Option.ite_some_none_eq_some.mp h
      refine Or.inl ⟨_, rfl, ?_, ?_, by simp⟩
      · rw [hpc]
        cases result <;> rfl
      · cases result <;> simp
  | giveBack =>
      cases hpc : s.mainLoop with
      | refused backOff =>
          simp only [step, hpc] at h
          obtain rfl := Option.some.inj h
          refine Or.inr (Or.inr (Or.inl ⟨_, rfl, rfl, ?_, ?_, rfl⟩))
          · cases backOff <;> rfl
          · cases backOff <;> simp
      | checking | sleeping | reserving | accepting | accepted => simp [step, hpc] at h
  | spawn =>
      obtain ⟨hpc, rfl⟩ := Option.ite_some_none_eq_some.mp h
      exact Or.inr (Or.inr (Or.inr (Or.inl ⟨rfl, hpc, rfl⟩)))
  | client i e =>
      obtain ⟨c, hc, h⟩ := Option.bind_eq_some_iff.mp h
      obtain ⟨c', hc', rfl⟩ := Option.map_eq_some_iff.mp h
      exact Or.inr (Or.inr (Or.inr (Or.inr ⟨i, e, c, c', rfl, hc, hc', rfl⟩)))

theorem Client.active_next {c c' : Client} {e : ClientEvent} (h : c.next e = some c') :
    c.active = true ∧ (c'.active = true ↔ e ≠ .releases) := by
  cases c <;> cases e <;> cases h <;> exact ⟨by decide, by decide⟩

/-- One slot for every client and one for the reservation, and nothing the loop still sees of the
counter is too low. -/
structure Counted (maxClients : UInt64) (s : Server) : Prop where
  count : s.clientCount.toNat = s.active + s.mainLoop.reserved.toNat
  bound : s.clientCount ≤ maxClients
  seen : ∀ v ∈ s.seen, s.clientCount ≤ v
  room : s.mainLoop = .reserving → s.clientCount < maxClients

theorem counted_start (maxClients : UInt64) : Counted maxClients start :=
  ⟨rfl, UInt64.zero_le, by simp [start], by simp [start]⟩

theorem Counted.reserve (hs : Counted maxClients s) (hpc : s.mainLoop = .reserving) :
    Counted maxClients (s.setCount (fetchAdd s.clientCount 1) .accepting) := by
  have hlt := UInt64.lt_iff_toNat_lt.mp (hs.room hpc)
  have hcount := hs.count
  rw [hpc] at hcount
  have hadd : (fetchAdd s.clientCount 1).toNat = s.active + 1 := by
    have hmax := maxClients.toNat_lt
    exact toNat_fetchAdd_one hcount (by omega)
  refine ⟨hadd, ?_, ?_, by simp [Server.setCount]⟩
  · rw [Server.setCount, UInt64.le_iff_toNat_le, hadd]
    omega
  · intro v hv
    rw [List.mem_singleton.mp hv]
    exact UInt64.le_refl _

theorem Counted.giveBack (hs : Counted maxClients s) (hres : s.mainLoop.reserved = true)
    {pc : MainLoop} (hfree : pc.reserved = false) (hpc : pc ≠ .reserving) :
    Counted maxClients (s.setCount (fetchSub s.clientCount 1) pc) := by
  have hcount := hs.count
  rw [hres] at hcount
  have hsub : (fetchSub s.clientCount 1).toNat = s.active := toNat_fetchSub hcount
  refine ⟨?_, ?_, ?_, fun h => absurd h hpc⟩
  · rw [Server.setCount, hfree]
    exact hsub
  · have hle := UInt64.le_iff_toNat_le.mp hs.bound
    rw [Server.setCount, UInt64.le_iff_toNat_le, hsub]
    omega
  · intro v hv
    rw [List.mem_singleton.mp hv]
    exact UInt64.le_refl _

theorem Counted.spawn (hs : Counted maxClients s) (hpc : s.mainLoop = .accepted) :
    Counted maxClients
      { s with mainLoop := .checking, clients := s.clients ++ [.authenticating] } := by
  have hcount := hs.count
  rw [hpc] at hcount
  refine ⟨?_, hs.bound, hs.seen, by simp⟩
  rw [Server.active, countP_eq_tally, tally_concat, ← countP_eq_tally]
  exact hcount

theorem Counted.client (hs : Counted maxClients s) {i : Nat} {e : ClientEvent} {c c' : Client}
    (hc : s.clients[i]? = some c) (hnext : c.next e = some c') :
    Counted maxClients (s.clientStep i e c') := by
  obtain ⟨hactive, hactive'⟩ := Client.active_next hnext
  have hset := tally_set (f := fun c => c.active.toNat) hc c'
  rw [← countP_eq_tally, ← countP_eq_tally] at hset
  have hcount := hs.count
  rw [hactive] at hset
  by_cases he : e = .releases
  · have hfree : c'.active = false := by simpa [he] using hactive'
    rw [hfree] at hset
    have hone : (s.clients.set i c').countP Client.active + 1 = s.clients.countP Client.active :=
      hset
    have hsub : (fetchSub s.clientCount 1).toNat =
        (s.clients.set i c').countP Client.active + s.mainLoop.reserved.toNat := by
      apply toNat_fetchSub
      rw [hcount, Server.active, ← hone]
      exact Nat.add_right_comm _ _ _
    have hle : fetchSub s.clientCount 1 ≤ s.clientCount := by
      rw [UInt64.le_iff_toNat_le, hsub, hcount, Server.active]
      apply Nat.add_le_add_right
      exact Nat.le_of_succ_le hone.le
    rw [Server.clientStep, if_pos he]
    refine ⟨hsub, UInt64.le_trans hle hs.bound, ?_,
      fun hpc => UInt64.lt_of_le_of_lt hle (hs.room hpc)⟩
    intro v hv
    rcases List.mem_append.mp hv with hv | hv
    · exact UInt64.le_trans hle (hs.seen v hv)
    · rw [List.mem_singleton.mp hv]
      exact UInt64.le_refl _
  · rw [hactive'.mpr he] at hset
    rw [Server.clientStep, if_neg he]
    refine ⟨?_, hs.bound, hs.seen, hs.room⟩
    rw [Server.active, Nat.add_right_cancel hset]
    exact hcount

theorem Counted.step (hs : Counted maxClients s) (h : step maxClients s ev = some t) :
    Counted maxClients t := by
  rcases step_cases h with ⟨pc, rfl, hres, hroom, -⟩ | ⟨-, hpc, rfl⟩ |
      ⟨pc, -, hres, hfree, hpc, rfl⟩ | ⟨-, hpc, rfl⟩ |
    ⟨i, e, c, c', -, hc, hnext, rfl⟩
  · refine ⟨?_, hs.bound, hs.seen, ?_⟩
    · rw [hres]
      exact hs.count
    · intro hpc
      obtain ⟨cur, hcur, hlt⟩ := hroom hpc
      exact UInt64.lt_of_le_of_lt (hs.seen cur hcur) hlt
  · exact hs.reserve hpc
  · exact hs.giveBack hres hfree hpc
  · exact hs.spawn hpc
  · exact hs.client hc hnext

theorem released_step (h : step maxClients s ev = some t) (i : Nat) :
    (t.clients[i]? = some .released ↔ s.clients[i]? = some .released ∨ ev = .client i .releases) ∧
      (s.clients[i]? = some .released → ev ≠ .client i .releases) := by
  rcases step_cases h with ⟨pc, rfl, -, -, hev⟩ | ⟨rfl, -, rfl⟩ | ⟨pc, rfl, -, -, -, rfl⟩ |
      ⟨rfl, -, rfl⟩ |
    ⟨j, e, c, c', rfl, hc, hnext, rfl⟩
  · exact ⟨by simp [hev i], fun _ => hev i⟩
  · exact ⟨by simp [Server.setCount], by simp⟩
  · exact ⟨by simp [Server.setCount], by simp⟩
  · refine ⟨?_, by simp⟩
    rw [List.getElem?_append]
    split
    · simp
    next hi =>
      rw [List.getElem?_eq_none (Nat.le_of_not_lt hi)]
      cases i - s.clients.length <;> simp
  · have hclients : (s.clientStep j e c').clients = s.clients.set j c' := by
      rw [Server.clientStep]
      split <;> rfl
    rw [hclients]
    by_cases hij : j = i
    · subst hij
      have hi : j < s.clients.length := (List.getElem?_eq_some_iff.mp hc).1
      rw [List.getElem?_set_self hi, hc]
      cases c <;> cases e <;> cases hnext <;> exact ⟨by simp, by simp⟩
    · rw [List.getElem?_set_ne hij]
      simp [hij]

end Step

section Run

variable {maxClients : UInt64}

theorem count_releases {events : List Event} {s : Server}
    (h : exec (step maxClients) start events = some s) (i : Nat) :
    events.count (.client i .releases) = if s.clients[i]? = some .released then 1 else 0 := by
  induction events using List.reverseRecOn generalizing s with
  | nil =>
      obtain rfl := Option.some.inj h
      simp [start]
  | append_singleton events ev ih =>
      rw [exec_append_singleton, Option.bind_eq_some_iff] at h
      obtain ⟨u, hu, hstep⟩ := h
      obtain ⟨hreleased, honce⟩ := released_step hstep i
      rw [List.count_append, ih hu, List.count_singleton]
      by_cases hbefore : u.clients[i]? = some .released
      · simp [hreleased, hbefore, honce hbefore]
      · simp [hreleased, hbefore]

theorem counted_throughout (maxClients : UInt64) (events : List Event) :
    Throughout (step maxClients) (Counted maxClients) start events :=
  throughout_of_step (counted_start maxClients) fun _ _ _ hs h => hs.step h

theorem Client.released_of_over {c : Client} (h : ∀ e, c.next e = none) : c = .released := by
  cases c with
  | authenticating => exact absurd (h .passes) (by simp [Client.next])
  | rejected => exact absurd (h .releases) (by simp [Client.next])
  | admitted => exact absurd (h .starts) (by simp [Client.next])
  | handling => exact absurd (h .ends) (by simp [Client.next])
  | ended => exact absurd (h .releases) (by simp [Client.next])
  | released => rfl

end Run

end SrtVpn.AcceptLoop
