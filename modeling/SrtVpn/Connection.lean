import Mathlib.Data.List.Basic

namespace SrtVpn.Connection

variable {M : Type}

structure SendItem (M : Type) where
  msg : M
  reliable : Bool

/-- Where the sending thread stands: draining the priority queue, at the reliable queue, draining
the priority queue for the last time, gone. -/
inductive Pc
  | drain
  | wait
  | flush
  | exited
  deriving DecidableEq, Repr

/-- One direction of a connection: the two send queues, the sending thread, the reliable messages
under way in order and the unreliable ones under way. -/
structure Link (M : Type) where
  rel : List (SendItem M)
  prio : List (SendItem M)
  closed : Bool
  pc : Pc
  wire : List M
  loose : List M

def Link.new : Link M := ⟨[], [], false, .drain, [], []⟩

def Link.sendItemTo (l : Link M) (priority : Bool) (item : SendItem M) : Link M :=
  if l.closed then l
  else if priority then { l with prio := l.prio ++ [item] }
  else { l with rel := l.rel ++ [item] }

def Link.sendOne (l : Link M) (item : SendItem M) : Link M :=
  if item.reliable then { l with wire := l.wire ++ [item.msg] }
  else { l with loose := l.loose ++ [item.msg] }

/-- One operation of the sending thread. A send that finds the socket broken ends it. -/
def Link.runSendLoop (l : Link M) (alive : Bool) : Link M :=
  match l.pc with
  | .drain =>
      match l.prio with
      | item :: prio =>
          if alive then Link.sendOne { l with prio := prio } item
          else { l with prio := prio, pc := .exited }
      | [] => { l with pc := .wait }
  | .wait =>
      match l.rel with
      | item :: rel =>
          if alive then { Link.sendOne { l with rel := rel } item with pc := .drain }
          else { l with rel := rel, pc := .exited }
      | [] => { l with pc := if l.closed then .flush else .drain }
  | .flush =>
      match l.prio with
      | item :: prio =>
          if alive then Link.sendOne { l with prio := prio } item
          else { l with prio := prio, pc := .exited }
      | [] => { l with pc := .exited }
  | .exited => l

inductive LinkAct
  | work (alive : Bool)
  | deliver
  | deliverLoose (k : Nat)
  | lose (k : Nat)
  | close
  deriving DecidableEq, Repr

def Link.act (l : Link M) : LinkAct → Option (Option M × Link M)
  | .work alive => some (none, l.runSendLoop alive)
  | .deliver =>
      match l.wire with
      | m :: wire => some (some m, { l with wire := wire })
      | [] => none
  | .deliverLoose k => l.loose[k]?.map fun m => (some m, { l with loose := l.loose.eraseIdx k })
  | .lose k =>
      if k < l.loose.length then some (none, { l with loose := l.loose.eraseIdx k }) else none
  | .close => some (none, { l with closed := true })

def Link.msgs (l : Link M) : List M :=
  l.rel.map SendItem.msg ++ l.prio.map SendItem.msg ++ l.wire ++ l.loose

theorem mem_msgs {l : Link M} {m : M} :
    m ∈ l.msgs ↔ (∃ x ∈ l.rel, x.msg = m) ∨ (∃ x ∈ l.prio, x.msg = m) ∨ m ∈ l.wire ∨
    m ∈ l.loose := by
  simp [Link.msgs]

theorem mem_msgs_sendItemTo {l : Link M} {priority : Bool} {item : SendItem M} {m : M}
    (h : m ∈ (l.sendItemTo priority item).msgs) : m = item.msg ∨ m ∈ l.msgs := by
  rw [Link.sendItemTo] at h
  split at h
  · exact .inr h
  · split at h
    all_goals
      simp only [mem_msgs, List.mem_append, List.mem_singleton] at h ⊢
      grind

theorem mem_msgs_sendOne {l : Link M} {item : SendItem M} {m : M} (h : m ∈ (l.sendOne item).msgs) :
    m = item.msg ∨ m ∈ l.msgs := by
  rw [Link.sendOne] at h
  split at h
  all_goals
    simp only [mem_msgs, List.mem_append, List.mem_singleton] at h ⊢
    grind

theorem mem_msgs_runSendLoop {l : Link M} {alive : Bool} {m : M}
    (h : m ∈ (l.runSendLoop alive).msgs) : m ∈ l.msgs := by
  rw [Link.runSendLoop] at h
  have hprio {item : SendItem M} {prio : List (SendItem M)} (hp : l.prio = item :: prio)
      (h : m = item.msg ∨ m ∈ ({ l with prio := prio } : Link M).msgs) : m ∈ l.msgs := by
    simp only [mem_msgs, hp, List.mem_cons] at h ⊢
    grind
  have hrel {item : SendItem M} {rel : List (SendItem M)} (hr : l.rel = item :: rel)
      (h : m = item.msg ∨ m ∈ ({ l with rel := rel } : Link M).msgs) : m ∈ l.msgs := by
    simp only [mem_msgs, hr, List.mem_cons] at h ⊢
    grind
  split at h
  · split at h
    next item prio hp =>
      split at h
      · exact hprio hp (mem_msgs_sendOne h)
      · exact hprio hp (.inr h)
    next => exact h
  · split at h
    next item rel hr =>
      split at h
      · exact hrel hr (mem_msgs_sendOne h)
      · exact hrel hr (.inr h)
    next => exact h
  · split at h
    next item prio hp =>
      split at h
      · exact hprio hp (mem_msgs_sendOne h)
      · exact hprio hp (.inr h)
    next => exact h
  · exact h

theorem mem_msgs_act {l l' : Link M} {a : LinkAct} {out : Option M} (h : l.act a = some (out, l')) :
    (∀ m ∈ l'.msgs, m ∈ l.msgs) ∧ ∀ m, out = some m → m ∈ l.msgs := by
  have herase {k : Nat} {m : M}
      (hm : m ∈ ({ l with loose := l.loose.eraseIdx k } : Link M).msgs) : m ∈ l.msgs := by
    simp only [mem_msgs] at hm ⊢
    exact hm.imp id (Or.imp id (Or.imp id List.mem_of_mem_eraseIdx))
  cases a with
  | work alive =>
      obtain ⟨rfl, rfl⟩ := Prod.mk.inj (Option.some.inj h)
      exact ⟨fun m hm => mem_msgs_runSendLoop hm, by simp⟩
  | deliver =>
      rw [Link.act] at h
      split at h
      next m wire hw =>
        obtain ⟨rfl, rfl⟩ := Prod.mk.inj (Option.some.inj h)
        refine ⟨fun m' hm => ?_, fun m' hm => ?_⟩
        · simp only [mem_msgs, hw, List.mem_cons] at hm ⊢
          exact hm.imp id (Or.imp id (Or.imp .inr id))
        · obtain rfl := Option.some.inj hm
          simp [mem_msgs, hw]
      next => simp at h
  | deliverLoose k =>
      obtain ⟨m, hm, heq⟩ := Option.map_eq_some_iff.mp h
      obtain ⟨rfl, rfl⟩ := Prod.mk.inj heq
      refine ⟨fun m' hm' => herase hm', fun m' hm' => ?_⟩
      obtain rfl := Option.some.inj hm'
      exact mem_msgs.mpr (.inr (.inr (.inr (List.mem_of_getElem? hm))))
  | lose k =>
      rw [Link.act] at h
      split at h
      · obtain ⟨rfl, rfl⟩ := Prod.mk.inj (Option.some.inj h)
        exact ⟨fun m hm => herase hm, by simp⟩
      · simp at h
  | close =>
      obtain ⟨rfl, rfl⟩ := Prod.mk.inj (Option.some.inj h)
      exact ⟨fun m hm => hm, by simp⟩

end SrtVpn.Connection
