import SrtVpn.Endpoints
import SrtVpn.ForwardLoop
import SrtVpn.HalfClose

namespace SrtVpn.Tunnel

open BigEndian Wire Dispatch Endpoints ForwardLoop Runs
open HalfClose (Side)

/-- A TCP loop at the end of a channel: its state once it runs, how many events it has taken, and
the payloads it has written to its peer. A write that fails counts in full. -/
structure Worker where
  loop : Option State
  taken : Nat
  writes : List Tagged

def Worker.idle : Worker := ⟨none, 0, []⟩

def untag : SessionEvent Tagged → SessionEvent Bytes
  | .data p => .data p.2
  | .fin => .fin
  | .close => .close

def remaining (ch : Channel Tagged) (n : Nat) : Channel Bytes :=
  ⟨(ch.queue.drop n).map untag, ch.sender, ch.receiver⟩

def writtenBy (head : Option (SessionEvent Tagged)) : Effect → Option Tagged
  | .writeLocal data =>
      match head with
      | some (.data p) => some (p.1, data)
      | _ => none
  | _ => none

def Worker.turn (v : Variant) (ch : Channel Tagged) (w : Worker) (b : Branch) : Option Worker := do
  let l ← w.loop
  let (effects, l') ← ForwardLoop.turn v { l with channel := remaining ch w.taken } b
  some ⟨some l', ch.queue.length - l'.channel.queue.length,
    w.writes ++ effects.filterMap (writtenBy ch.queue[w.taken]?)⟩

/-- The endpoints with the TCP loops of both sides. `log` records what the client's sessions have
done, `replies` the Data frames the server's tasks have sent. -/
structure Net where
  sys : Sys
  workers : Side → Nat → Worker
  log : List ClientAct
  replies : List Tagged

def start (reliable : Bool) : Net := ⟨Endpoints.start reliable, fun _ _ => .idle, [], []⟩

def instanceOf (s : Sys) : Side → Nat → Option Nat
  | .client, i => some i
  | .server, j => s.tasks[j]?.map Task.owner

def isUdp (s : Sys) (i : Nat) : Bool := (s.instances[i]?.map Instance.udp).getD false

def channelOf (s : Sys) : Side → Nat → Option (Channel Tagged)
  | .client, i => s.clientReg.channels[i]?
  | .server, j => s.serverReg.channels[j]?

def variantOf (s : Sys) : Side → Nat → Variant
  | .client, _ => forwardLoop
  | .server, j => startTcpForward ((s.tasks[j]?.map Task.sid).getD 0)

/-- Only the task of a UDP session sends Datagrams, and a task notifies when its handler has
returned. -/
def allowed (s : Sys) : Endpoints.Label → Bool
  | .task j (.datagram _) => (s.tasks[j]?.map fun t => isUdp s t.owner).getD false
  | .task j .notify => !holdsReceiver s.serverReg j
  | _ => true

def logged : Endpoints.Label → List ClientAct
  | .client a => [a]
  | _ => []

def replied (s : Sys) : Endpoints.Label → List Tagged
  | .task j (.data payload) => (s.tasks[j]?.map fun t => (t.owner, payload)).toList
  | _ => []

inductive Label
  | sys (l : Endpoints.Label)
  | begin (x : Side) (k : Nat) (now : Nat)
  | turn (x : Side) (k : Nat) (b : Branch)

def setWorker (s : Net) (x : Side) (k : Nat) (w : Worker) : Net :=
  { s with workers := Function.update s.workers x (Function.update (s.workers x) k w) }

theorem workers_setWorker (s : Net) (x y : Side) (j k : Nat) (w : Worker) :
    (setWorker s x k w).workers y j = if y = x ∧ j = k then w else s.workers y j := by
  rw [setWorker]
  by_cases hx : y = x
  · subst hx
    by_cases hj : j = k <;> simp [hj]
  · simp [hx]

/-- A loop begins once its peer is connected, and goes on while its channel is there. What a turn
sends goes out by steps of the endpoint, whenever it likes. -/
def step (s : Net) : Label → Option Net
  | .sys l =>
      if allowed s.sys l then
        (Endpoints.step s.sys l).map fun t =>
          { s with sys := t, log := s.log ++ logged l, replies := s.replies ++ replied s.sys l }
      else none
  | .begin x k now => do
      let i ← instanceOf s.sys x k
      let ch ← channelOf s.sys x k
      if isUdp s.sys i = false ∧ ch.receiver ∧ (s.workers x k).loop = none then
        some (setWorker s x k { s.workers x k with loop := some (ForwardLoop.start now) })
      else none
  | .turn x k b => do
      let ch ← channelOf s.sys x k
      if ch.receiver then ((s.workers x k).turn (variantOf s.sys x k) ch b).map (setWorker s x k)
      else none

section Worker

variable {v : Variant} {ch : Channel Tagged} {w w' : Worker} {b : Branch}

theorem turn_writes {s t : State} {effects : List Effect}
    (h : ForwardLoop.turn v s b = some (effects, t)) : s.exit = none ∧
      ((s.peerFin = false ∧ ∃ d queue, s.channel.queue = .data d :: queue ∧
        effects = [.writeLocal d] ∧ t.channel.queue = queue) ∨
          (∀ d, .writeLocal d ∉ effects) ∧ (t.exit = none → t.peerFin = false →
            s.peerFin = false ∧ t.channel.queue = s.channel.queue)) := by
  refine ⟨turn_running h, ?_⟩
  cases turn_turned h with
  | ended _ _ hquiet hexit => exact Or.inr ⟨hquiet, fun hrun => absurd hrun hexit⟩
  | read data now => exact Or.inr ⟨by simp, fun _ hfin => ⟨hfin, rfl⟩⟩
  | halfClosed hfin => exact Or.inr ⟨by simp, fun _ _ => ⟨hfin, rfl⟩⟩
  | wrote d queue _ hfin hqueue htaken => exact Or.inl ⟨hfin, d, queue, hqueue, rfl, htaken⟩
  | finTaken queue => exact Or.inr ⟨by simp, by simp⟩

def Worker.Reading (w : Worker) : Prop := ∀ l, w.loop = some l → l.exit = none ∧ l.peerFin = false

/-- A loop writes the Data events its channel begins with, one after the other. -/
structure Worker.Reads (w : Worker) (queue : List (SessionEvent Tagged)) : Prop where
  writes : w.writes.map .data <+: queue
  taken : w.Reading → w.taken = w.writes.length

theorem Worker.reads_idle : Worker.idle.Reads [] := ⟨List.nil_prefix, fun _ => rfl⟩

theorem Worker.Reads.mono {queue queue' : List (SessionEvent Tagged)} (h : w.Reads queue)
    (hp : queue <+: queue') : w.Reads queue' :=
  ⟨h.writes.trans hp, h.taken⟩

theorem Worker.Reads.turn (h : w.Reads ch.queue) (hturn : w.turn v ch b = some w') :
    w'.Reads ch.queue := by
  obtain ⟨l, hl, hturn⟩ := Option.bind_eq_some_iff.mp hturn
  obtain ⟨⟨effects, l'⟩, hl', hturn⟩ := Option.bind_eq_some_iff.mp hturn
  obtain rfl := Option.some.inj hturn
  obtain ⟨hexit, hcase⟩ := turn_writes hl'
  have hreading (hfin : l.peerFin = false) : w.Reading := by
    intro l₁ h₁
    obtain rfl : l = l₁ := Option.some.inj (hl.symm.trans h₁)
    exact ⟨hexit, hfin⟩
  obtain ⟨rest, hrest⟩ := h.writes
  have hdrop : ch.queue.drop w.writes.length = rest := by
    rw [← hrest]
    simp
  rcases hcase with ⟨hfin, d, queue, hqueue, rfl, hleft⟩ | ⟨hnone, hkept⟩
  · have htaken := h.taken (hreading hfin)
    rw [htaken] at hqueue ⊢
    simp only [remaining, hdrop] at hqueue
    cases rest with
    | nil => simp at hqueue
    | cons e rest =>
        obtain ⟨he, hmap⟩ := List.cons.inj hqueue
        obtain ⟨p, rfl⟩ : ∃ p, e = .data p := by
          cases e with
          | data p => exact ⟨p, rfl⟩
          | fin => simp [untag] at he
          | close => simp [untag] at he
        obtain rfl := SessionEvent.data.inj he
        have hat : ch.queue[w.writes.length]? = some (.data p) := by
          rw [← hrest]
          simp
        constructor
        · refine ⟨rest, ?_⟩
          rw [hat, ← hrest]
          simp [writtenBy]
        · intro _
          dsimp only
          rw [hleft, ← hmap, hat, ← hrest]
          simp [writtenBy]
          omega
  · have hsame : effects.filterMap (writtenBy ch.queue[w.taken]?) = [] := by
      rw [List.filterMap_eq_nil_iff]
      intro e he
      cases e with
      | writeLocal d => exact absurd he (hnone d)
      | _ => rfl
    rw [hsame, List.append_nil]
    refine ⟨h.writes, fun hread => ?_⟩
    obtain ⟨hexit', hfin'⟩ := hread l' rfl
    obtain ⟨hfin, hqueue⟩ := hkept hexit' hfin'
    have hle := h.writes.length_le
    dsimp only
    rw [hqueue, h.taken (hreading hfin)]
    simp only [remaining, List.length_map, List.length_drop] at hle ⊢
    omega

end Worker

end SrtVpn.Tunnel
