import SrtVpn.BigEndian
import SrtVpn.Runs

namespace SrtVpn.BatchReceive

open BigEndian Runs

/-- A message as the channel carries it; the empty one tells of the end of the connection. -/
abbrev Message := Bytes

/-- How far the receive thread is: it sends an empty message where a poll reports an error, another
behind its loop, and then drops the sender. -/
inductive Thread
  | running
  | broken
  | ended
  | dropped
  deriving DecidableEq, Repr

inductive Call
  | recvAsync
  | recvBatchAsync (max : Nat)
  deriving DecidableEq, Repr

/-- The receiver is behind a lock: the call that has it waits for a first message, or collects a
batch without waiting. -/
inductive Holder
  | free
  | waiting (call : Call)
  | collecting (max : Nat) (batch : List Message)
  deriving DecidableEq, Repr

inductive Reply
  | message (m : Message)
  | batch (ms : List Message)
  | closed
  deriving DecidableEq, Repr

/-- The queue of the channel, and what the calls have returned so far. -/
structure Receiving where
  queue : List Message
  thread : Thread
  holder : Holder
  returned : List Reply
  deriving DecidableEq, Repr

def start : Receiving := ⟨[], .running, .free, []⟩

/-- A call that is given up while it waits for the lock leaves no trace, so only the one that has
the lock is seen here; it may be given up while it waits for its first message. -/
inductive Event
  | data (m : Message)
  | errorEvent
  | finish
  | dropSender
  | lock (call : Call)
  | cancel
  | recv
  | tryRecv
  deriving DecidableEq, Repr

def Receiving.reply (s : Receiving) (r : Reply) :
    Receiving := { s with holder := .free, returned := s.returned ++ [r] }

/-- The waiting call has its first message, or learns that none will come. -/
def first (s : Receiving) (call : Call) : Option Message → Receiving
  | none => s.reply .closed
  | some m =>
      if m = [] then s.reply .closed
      else match call with
        | .recvAsync => s.reply (.message m)
        | .recvBatchAsync max => { s with holder := .collecting max [m] }

def step (s : Receiving) : Event → Option Receiving
  | .data m =>
      if s.thread = .running ∧ m ≠ [] then some { s with queue := s.queue ++ [m] } else none
  | .errorEvent =>
      if s.thread = .running then some { s with thread := .broken, queue := s.queue ++ [[]] }
      else none
  | .finish =>
      if s.thread = .running ∨ s.thread = .broken then
        some { s with thread := .ended, queue := s.queue ++ [[]] }
      else none
  | .dropSender => if s.thread = .ended then some { s with thread := .dropped } else none
  | .lock call => if s.holder = .free then some { s with holder := .waiting call } else none
  | .cancel =>
      match s.holder with
      | .waiting _ => some { s with holder := .free }
      | _ => none
  | .recv =>
      match s.holder, s.queue with
      | .waiting call, m :: queue => some (first { s with queue := queue } call (some m))
      | .waiting call, [] => if s.thread = .dropped then some (first s call none) else none
      | _, _ => none
  | .tryRecv =>
      match s.holder with
      | .collecting max batch =>
          if batch.length < max then
            match s.queue with
            | m :: queue =>
                if m = [] then some ({ s with queue := queue }.reply (.batch batch))
                else some { s with queue := queue, holder := .collecting max (batch ++ [m]) }
            | [] => some (s.reply (.batch batch))
          else some (s.reply (.batch batch))
      | _ => none

/-- The messages that the thread has put into the channel. -/
def enqueued (events : List Event) : List Message :=
  events.filterMap fun
    | .data m => some m
    | _ => none

def Reply.messages : Reply → List Message
  | .message m => [m]
  | .batch ms => ms
  | .closed => []

def Receiving.delivered (s : Receiving) : List Message := s.returned.flatMap Reply.messages

def Receiving.inHand (s : Receiving) : List Message :=
  match s.holder with
  | .collecting _ batch => batch
  | _ => []

def Receiving.waitingData (s : Receiving) : List Message := s.queue.filter (· ≠ [])

/-- What the channel owes its readers: every message that went in is delivered, in hand or in the
queue, in this order; behind an empty message there are only empty ones; and the end is told when
there is nothing left, and from then on. -/
structure Sound (sent : List Message) (s : Receiving) : Prop where
  order : sent = s.delivered ++ s.inHand ++ s.waitingData
  tail : s.queue.Pairwise fun a b => a = [] → b = []
  running : s.thread = .running → ∀ m ∈ s.queue, m ≠ []
  begun : ∀ max batch, s.holder = .collecting max batch → batch ≠ []
  closed : .closed ∈ s.returned → s.thread ≠ .running ∧ s.inHand = [] ∧ s.waitingData = []
  later : s.returned.Pairwise fun a b => a = .closed → b = .closed

section Step

variable {sent : List Message} {s t : Receiving} {queue : List Message} {m : Message}

theorem waitingData_cons (hm : m ≠ []) :
    (m :: queue).filter (· ≠ []) = m :: queue.filter (· ≠ []) := by
  rw [List.filter_cons_of_pos]
  exact decide_eq_true hm

theorem waitingData_cons_nil (queue : List Message) :
    ([] :: queue).filter (· ≠ []) = queue.filter (· ≠ []) := by
  rw [List.filter_cons_of_neg]
  simp

theorem delivered_reply (s : Receiving) (r : Reply) :
    (s.reply r).delivered = s.delivered ++ r.messages := by
  simp [Receiving.delivered, Receiving.reply, List.flatMap_append]

theorem Sound.not_closed (hs : Sound sent s) (h : s.inHand ≠ [] ∨ s.waitingData ≠ []) :
    .closed ∉ s.returned := by
  intro hmem
  obtain ⟨-, hhand, hdata⟩ := hs.closed hmem
  rcases h with h | h
  · exact h hhand
  · exact h hdata

theorem Sound.deliver (hs : Sound sent s) (hq : queue <:+ s.queue) {r : Reply} (hr : r ≠ .closed)
    (howed : s.inHand ++ s.waitingData = r.messages ++ queue.filter (· ≠ []))
    (hsome : r.messages ≠ []) :
    Sound sent ({ s with queue := queue }.reply r) := by
  have hopen : .closed ∉ s.returned := by
    apply hs.not_closed
    by_contra hnone
    simp only [not_or, not_not] at hnone
    rw [hnone.1, hnone.2] at howed
    exact hsome (List.append_eq_nil_iff.mp howed.symm).1
  refine ⟨?_, hs.tail.sublist hq.sublist, fun h m hm => hs.running h m (hq.subset hm),
    by simp [Receiving.reply], ?_, ?_⟩
  · rw [hs.order, List.append_assoc, howed, delivered_reply, ← List.append_assoc]
    exact congrArg (· ++ _) (List.append_nil _).symm
  · intro hmem
    rcases List.mem_append.mp hmem with hmem | hmem
    · exact absurd hmem hopen
    · exact absurd (List.mem_singleton.mp hmem).symm hr
  · apply List.pairwise_append.mpr
    refine ⟨hs.later, List.pairwise_singleton _ _, ?_⟩
    intro a ha b _ hclosed
    exact absurd (hclosed ▸ ha) hopen

theorem Sound.close (hs : Sound sent s) (hq : queue <:+ s.queue) (hthread : s.thread ≠ .running)
    (hhand : s.inHand = []) (hdata : s.waitingData = []) :
    Sound sent ({ s with queue := queue }.reply .closed) := by
  have hnone : queue.filter (· ≠ []) = [] := by
    apply List.filter_eq_nil_iff.mpr
    intro m hm
    exact List.filter_eq_nil_iff.mp hdata m (hq.subset hm)
  refine ⟨?_, hs.tail.sublist hq.sublist, fun h m hm => hs.running h m (hq.subset hm),
    by simp [Receiving.reply], fun _ => ⟨hthread, rfl, hnone⟩, ?_⟩
  · rw [hs.order, hhand, hdata, delivered_reply]
    change s.delivered ++ [] ++ [] = s.delivered ++ [] ++ [] ++ queue.filter (· ≠ [])
    simp only [hnone, List.append_nil]
  · apply List.pairwise_append.mpr
    refine ⟨hs.later, List.pairwise_singleton _ _, ?_⟩
    intro a _ b hb _
    exact List.mem_singleton.mp hb

theorem Sound.collect (hs : Sound sent s) (hq : s.queue = m :: queue) (hm : m ≠ []) (max : Nat) :
    Sound sent { s with queue := queue, holder := .collecting max (s.inHand ++ [m]) } := by
  have hdata : s.waitingData = m :: queue.filter (· ≠ []) := by
    rw [Receiving.waitingData, hq, waitingData_cons hm]
  have hopen : .closed ∉ s.returned := hs.not_closed (Or.inr (by simp [hdata]))
  have hsuffix : queue <:+ s.queue := hq ▸ List.suffix_cons m queue
  refine ⟨?_, hs.tail.sublist hsuffix.sublist, fun h m hm => hs.running h m (hsuffix.subset hm), ?_,
    fun hmem => absurd hmem hopen, hs.later⟩
  · rw [hs.order, hdata]
    simp [Receiving.delivered, Receiving.inHand, Receiving.waitingData]
  · intro max' batch hbatch
    obtain ⟨-, rfl⟩ := Holder.collecting.inj hbatch
    simp

theorem Sound.enqueue (hs : Sound sent s) (hthread : s.thread = .running ∨ m = []) (thread : Thread)
    (hrun : thread = .running → s.thread = .running ∧ m ≠ []) :
    Sound (sent ++ [m].filter (· ≠ [])) { s with queue := s.queue ++ [m], thread := thread } := by
  refine ⟨?_, ?_, ?_, hs.begun, ?_, hs.later⟩
  · rw [hs.order, List.append_assoc]
    simp [Receiving.delivered, Receiving.inHand, Receiving.waitingData]
  · apply List.pairwise_append.mpr
    refine ⟨hs.tail, List.pairwise_singleton _ _, ?_⟩
    intro a ha b hb hnil
    rcases hthread with hthread | hm
    · exact absurd hnil (hs.running hthread a ha)
    · rw [List.mem_singleton.mp hb, hm]
  · intro h x hx
    obtain ⟨hrunning, hm⟩ := hrun h
    rcases List.mem_append.mp hx with hx | hx
    · exact hs.running hrunning x hx
    · rw [List.mem_singleton.mp hx]
      exact hm
  · intro hmem
    obtain ⟨hold, hhand, hdata⟩ := hs.closed hmem
    have hm : m = [] := hthread.resolve_left hold
    refine ⟨fun h => hold (hrun h).1, hhand, ?_⟩
    rw [Receiving.waitingData, List.filter_append, hm]
    exact List.append_eq_nil_iff.mpr ⟨hdata, rfl⟩

theorem Sound.first (hs : Sound sent s) {call : Call} (hwait : s.holder = .waiting call)
    (hq : s.queue = m :: queue) : Sound sent (first { s with queue := queue } call (some m)) := by
  have hhand : s.inHand = [] := by rw [Receiving.inHand, hwait]
  have hsuffix : queue <:+ s.queue := hq ▸ List.suffix_cons m queue
  simp only [BatchReceive.first]
  split
  next hm =>
    have hall : ∀ x ∈ s.queue, x = [] := by
      intro x hx
      rw [hq] at hx
      have htail := hs.tail
      rw [hq] at htail
      rcases List.mem_cons.mp hx with rfl | hx
      · exact hm
      · exact (List.pairwise_cons.mp htail).1 x hx hm
    apply hs.close hsuffix
    · intro hrun
      exact hs.running hrun m (hq ▸ List.mem_cons_self) hm
    · exact hhand
    · apply List.filter_eq_nil_iff.mpr
      intro x hx
      simp [hall x hx]
  next hm =>
    have hdata : s.waitingData = m :: queue.filter (· ≠ []) := by
      rw [Receiving.waitingData, hq, waitingData_cons hm]
    cases call with
    | recvAsync =>
        apply hs.deliver hsuffix
        · simp
        · rw [hhand, hdata]
          rfl
        · simp [Reply.messages]
    | recvBatchAsync max =>
        have hcollect := hs.collect hq hm max
        rw [hhand] at hcollect
        exact hcollect

theorem Sound.tryRecv (hs : Sound sent s) (h : step s .tryRecv = some t) : Sound sent t := by
  cases hholder : s.holder with
  | free => simp [step, hholder] at h
  | waiting call => simp [step, hholder] at h
  | collecting max batch =>
      have hhand : s.inHand = batch := by rw [Receiving.inHand, hholder]
      have hbegun := hs.begun max batch hholder
      have hgive : ∀ queue, queue <:+ s.queue → queue.filter (· ≠ []) = s.waitingData →
          Sound sent ({ s with queue := queue }.reply (.batch batch)) := by
        intro queue hq hsame
        apply hs.deliver hq
        · simp
        · rw [hhand, hsame]
          rfl
        · exact hbegun
      simp only [step, hholder] at h
      split at h
      · split at h
        next m queue hq =>
          have hsuffix : queue <:+ s.queue := hq ▸ List.suffix_cons m queue
          split at h
          next hm =>
            obtain rfl := Option.some.inj h
            apply hgive queue hsuffix
            rw [Receiving.waitingData, hq, hm, waitingData_cons_nil]
          next hm =>
            obtain rfl := Option.some.inj h
            have hcollect := hs.collect hq hm max
            rw [hhand] at hcollect
            exact hcollect
        · obtain rfl := Option.some.inj h
          exact hgive s.queue (List.suffix_refl _) rfl
      · obtain rfl := Option.some.inj h
        exact hgive s.queue (List.suffix_refl _) rfl

theorem Sound.frame (hs : Sound sent s) {holder : Holder} {thread : Thread}
    (hhand : { s with holder := holder, thread := thread }.inHand = s.inHand)
    (hholder : ∀ max batch, holder = .collecting max batch → s.holder = .collecting max batch)
    (hthread : thread = .running → s.thread = .running) : Sound sent
      { s with holder := holder, thread := thread } := by
  refine ⟨?_, hs.tail, fun h => hs.running (hthread h),
    fun max batch h => hs.begun max batch (hholder max batch h), ?_,
    hs.later⟩
  · rw [hhand]
    exact hs.order
  · intro hmem
    obtain ⟨hold, hnone, hdata⟩ := hs.closed hmem
    exact ⟨fun h => hold (hthread h), hhand.trans hnone, hdata⟩

theorem Sound.step (hs : Sound sent s) (ev : Event) (h : step s ev = some t) :
    Sound (sent ++ enqueued [ev]) t := by
  have hsame : ev ≠ .errorEvent ∧ ev ≠ .finish ∧ (∀ m, ev ≠ .data m) →
      sent ++ enqueued [ev] = sent := by
    rintro ⟨-, -, hdata⟩
    cases ev with
    | data m => exact absurd rfl (hdata m)
    | errorEvent | finish | dropSender | lock call | cancel | recv | tryRecv =>
        exact List.append_nil sent
  cases ev with
  | data m =>
      obtain ⟨⟨hrun, hm⟩, rfl⟩ := Option.ite_some_none_eq_some.mp h
      have hput := hs.enqueue (m := m) (Or.inl hrun) s.thread fun h => ⟨h, hm⟩
      rw [waitingData_cons hm] at hput
      exact hput
  | errorEvent =>
      obtain ⟨hrun, rfl⟩ := Option.ite_some_none_eq_some.mp h
      exact hs.enqueue (m := []) (Or.inr rfl) .broken (by simp)
  | finish =>
      obtain ⟨hrun, rfl⟩ := Option.ite_some_none_eq_some.mp h
      exact hs.enqueue (m := []) (Or.inr rfl) .ended (by simp)
  | dropSender =>
      obtain ⟨hended, rfl⟩ := Option.ite_some_none_eq_some.mp h
      rw [hsame (by simp)]
      exact hs.frame rfl (fun _ _ h => h) (by simp)
  | lock call =>
      obtain ⟨hfree, rfl⟩ := Option.ite_some_none_eq_some.mp h
      rw [hsame (by simp)]
      apply hs.frame
      · rw [Receiving.inHand, Receiving.inHand, hfree]
      · simp
      · exact id
  | cancel =>
      rw [hsame (by simp)]
      cases hholder : s.holder with
      | free => simp [BatchReceive.step, hholder] at h
      | waiting call =>
          simp only [BatchReceive.step, hholder] at h
          obtain rfl := Option.some.inj h
          apply hs.frame
          · rw [Receiving.inHand, Receiving.inHand, hholder]
          · simp
          · exact id
      | collecting max batch => simp [BatchReceive.step, hholder] at h
  | recv =>
      rw [hsame (by simp)]
      cases hholder : s.holder with
      | free => simp [BatchReceive.step, hholder] at h
      | waiting call =>
          cases hq : s.queue with
          | nil =>
              simp only [BatchReceive.step, hholder, hq] at h
              obtain ⟨hdropped, rfl⟩ := Option.ite_some_none_eq_some.mp h
              apply hs.close (List.suffix_refl _)
              · rw [hdropped]
                simp
              · rw [Receiving.inHand, hholder]
              · rw [Receiving.waitingData, hq]
                rfl
          | cons m queue =>
              simp only [BatchReceive.step, hholder, hq] at h
              obtain rfl := Option.some.inj h
              exact hs.first hholder hq
      | collecting max batch => simp [BatchReceive.step, hholder] at h
  | tryRecv =>
      rw [hsame (by simp)]
      exact hs.tryRecv h

theorem sound_start : Sound [] start :=
  ⟨rfl, List.Pairwise.nil, by simp [start], by simp [start], by simp [start], List.Pairwise.nil⟩

/-- How many more calls can return before one of them tells of the end, once the sender is
dropped. -/
def Receiving.rounds (s : Receiving) : Nat :=
  s.queue.length + match s.holder with
    | .collecting _ _ => 1
    | _ => 0

theorem rounds_first {call : Call} (hwait : s.holder = .waiting call) (hq : s.queue = m :: queue) :
    .closed ∈ (first { s with queue := queue } call (some m)).returned ∨
      (first { s with queue := queue } call (some m)).rounds +
        (first { s with queue := queue } call (some m)).returned.length =
          s.rounds + s.returned.length := by
  simp only [first]
  split
  · exact Or.inl (List.mem_append_right _ List.mem_cons_self)
  · refine Or.inr ?_
    rw [Receiving.rounds, Receiving.rounds, hwait, hq]
    cases call with
    | recvAsync =>
        simp only [Receiving.reply, List.length_append, List.length_cons, List.length_nil]
        omega
    | recvBatchAsync max =>
        simp only [List.length_cons]

theorem rounds_step {ev : Event} (hdropped : s.thread = .dropped) (h : step s ev = some t) :
    t.thread = .dropped ∧
    (.closed ∈ t.returned ∨ t.rounds + t.returned.length ≤ s.rounds + s.returned.length) := by
  cases ev with
  | data m | errorEvent | finish | dropSender => simp [step, hdropped] at h
  | lock call =>
      obtain ⟨hfree, rfl⟩ := Option.ite_some_none_eq_some.mp h
      refine ⟨hdropped, Or.inr ?_⟩
      simp [Receiving.rounds, hfree]
  | cancel =>
      cases hholder : s.holder with
      | free | collecting max batch => simp [step, hholder] at h
      | waiting call =>
          simp only [step, hholder] at h
          obtain rfl := Option.some.inj h
          refine ⟨hdropped, Or.inr ?_⟩
          simp [Receiving.rounds, hholder]
  | recv =>
      cases hholder : s.holder with
      | free | collecting max batch => simp [step, hholder] at h
      | waiting call =>
          cases hq : s.queue with
          | nil =>
              simp only [step, hholder, hq] at h
              obtain ⟨-, rfl⟩ := Option.ite_some_none_eq_some.mp h
              exact ⟨hdropped, Or.inl (List.mem_append_right _ List.mem_cons_self)⟩
          | cons m queue =>
              simp only [step, hholder, hq] at h
              obtain rfl := Option.some.inj h
              refine ⟨?_, (rounds_first hholder hq).imp_right Nat.le_of_eq⟩
              rw [← hdropped]
              simp only [first]
              split
              · rfl
              · cases call <;> rfl
  | tryRecv =>
      cases hholder : s.holder with
      | free | waiting call => simp [step, hholder] at h
      | collecting max batch =>
          simp only [step, hholder] at h
          split at h
          · split at h
            next m queue hq =>
              split at h
              · obtain rfl := Option.some.inj h
                refine ⟨hdropped, Or.inr ?_⟩
                simp only [Receiving.rounds, Receiving.reply, hholder, hq, List.length_append,
                  List.length_cons, List.length_nil]
                omega
              · obtain rfl := Option.some.inj h
                refine ⟨hdropped, Or.inr ?_⟩
                simp only [Receiving.rounds, hholder, hq, List.length_cons]
                omega
            next =>
              obtain rfl := Option.some.inj h
              refine ⟨hdropped, Or.inr ?_⟩
              simp only [Receiving.rounds, Receiving.reply, hholder, List.length_append,
                List.length_cons, List.length_nil]
              omega
          · obtain rfl := Option.some.inj h
            refine ⟨hdropped, Or.inr ?_⟩
            simp only [Receiving.rounds, Receiving.reply, hholder, List.length_append,
              List.length_cons, List.length_nil]
            omega

theorem returned_reply {u : Receiving} (hu : u.returned = s.returned) (r : Reply) :
    s.returned <+: (u.reply r).returned := hu ▸ List.prefix_append _ _

theorem returned_first {u : Receiving} (hu : u.returned = s.returned) (call : Call)
    (m : Option Message) : s.returned <+: (first u call m).returned := by
  fun_cases first u call m
  · exact returned_reply hu .closed
  · exact returned_reply hu .closed
  · exact returned_reply hu _
  · exact hu ▸ List.prefix_refl _

theorem returned_step {ev : Event} (h : step s ev = some t) : s.returned <+: t.returned := by
  revert h
  fun_cases step s ev
  all_goals
    intro h
    cases h
  all_goals
    first
      | exact List.prefix_refl _
      | exact returned_reply rfl _
      | (apply returned_first; rfl)

theorem rounds_run (more : List Event) (hdropped : s.thread = .dropped)
    (h : exec step s more = some t) : t.thread = .dropped ∧
      (.closed ∈ t.returned ∨ t.rounds + t.returned.length ≤ s.rounds + s.returned.length) := by
  induction more using List.reverseRecOn generalizing t with
  | nil =>
      obtain rfl := Option.some.inj h
      exact ⟨hdropped, Or.inr (Nat.le_refl _)⟩
  | append_singleton more ev ih =>
      rw [exec_append_singleton, Option.bind_eq_some_iff] at h
      obtain ⟨u, hu, hstep⟩ := h
      obtain ⟨hd, hrounds⟩ := ih hu
      obtain ⟨hd', hrounds'⟩ := rounds_step hd hstep
      refine ⟨hd', ?_⟩
      rcases hrounds with hclosed | hle
      · exact Or.inl ((returned_step hstep).subset hclosed)
      · exact hrounds'.imp_right fun hle' => Nat.le_trans hle' hle

end Step

theorem sound_run (events : List Event) {s : Receiving} (h : exec step start events = some s) :
    Sound (enqueued events) s := by
  induction events using List.reverseRecOn generalizing s with
  | nil =>
      obtain rfl := Option.some.inj h
      exact sound_start
  | append_singleton events ev ih =>
      rw [exec_append_singleton, Option.bind_eq_some_iff] at h
      obtain ⟨u, hu, hstep⟩ := h
      have hsound := (ih hu).step ev hstep
      rw [enqueued, List.filterMap_append]
      exact hsound

/-- Every message that the thread has put into the channel has been returned, or waits in the batch
of a call or in the queue, all in their order. A call tells of the end only when all of them have
been returned, and then every later one does. Once the sender is dropped no call waits in vain, and
one of those that return, at most two more than there are messages left, tells of the end. -/
theorem receive_loses_nothing (events : List Event) {s : Receiving}
    (h : exec step start events = some s) :
    enqueued events = s.delivered ++ s.inHand ++ s.waitingData ∧
    (.closed ∈ s.returned → s.delivered = enqueued events) ∧
    s.returned.Pairwise (fun a b => a = .closed → b = .closed) ∧
    (s.thread = .dropped →
      (∀ call, s.holder = .waiting call → (step s .recv).isSome) ∧
      ∀ more t, exec step s more = some t →
      s.returned.length + s.queue.length + 2 ≤ t.returned.length →
        .closed ∈ t.returned) := by
  have hs := sound_run events h
  refine ⟨hs.order, ?_, hs.later, ?_⟩
  · intro hclosed
    obtain ⟨-, hhand, hdata⟩ := hs.closed hclosed
    rw [hs.order, hhand, hdata, List.append_nil, List.append_nil]
  · intro hdropped
    constructor
    · intro call hwait
      cases hq : s.queue <;> simp [step, hwait, hq, hdropped]
    · intro more t ht hlong
      refine (rounds_run more hdropped ht).2.resolve_right fun hle => ?_
      have hrounds : s.rounds ≤ s.queue.length + 1 := by
        rw [Receiving.rounds]
        split
        · exact Nat.le_refl _
        · exact Nat.le_succ _
      omega

def swallowed : List Event :=
  [.lock (.recvBatchAsync 512), .cancel, .data [1], .data [2], .errorEvent,
    .lock (.recvBatchAsync 512), .recv, .tryRecv, .finish, .tryRecv, .dropSender, .lock .recvAsync,
      .recv]

theorem receive_loses_nothing_swallowed : ∃ s, exec step start swallowed = some s ∧
    s.returned = [.batch [[1], [2]], .closed] ∧ s.delivered = enqueued swallowed :=
  ⟨_, rfl, rfl,
    (receive_loses_nothing swallowed rfl).2.1 (List.mem_cons_of_mem _ List.mem_cons_self)⟩

end SrtVpn.BatchReceive
