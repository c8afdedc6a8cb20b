import SrtVpn.BigEndian
import SrtVpn.PartialRuns

namespace SrtVpn.SendOrder

open BigEndian PartialRuns

structure SendItem where
  data : Bytes
  reliable : Bool
  ttlMs : Int
  deriving DecidableEq, Repr

inductive Queue
  | rel
  | prio
  deriving DecidableEq, Repr

/-- Where the sending thread stands; the message that it has taken and not yet sent. -/
inductive Pc
  | drain
  | sendPrio (item : SendItem)
  | wait
  | sendRel (item : SendItem)
  | flush
  | sendLast (item : SendItem)
  | exited
  deriving DecidableEq, Repr

/-- What the library answers to `srt_sendmsg2`: the message is taken, or it is not, with the socket
still there or gone. -/
inductive Reply
  | sent
  | full
  | broken
  deriving DecidableEq, Repr

/-- The flag, whether each queue still has its sender, the two queues, the calls that are past the
flag, and the thread. -/
structure Sender where
  closed : Bool
  relTx : Bool
  prioTx : Bool
  rel : List SendItem
  prio : List SendItem
  calls : List (Queue × SendItem)
  pc : Pc

inductive Label
  | enter (q : Queue) (item : SendItem)
  | post (k : Nat)
  | setClosed
  | dropRel
  | dropPrio
  | work (r : Reply)

inductive Out
  | accepted (q : Queue) (item : SendItem)
  | refused
  | handed (q : Queue) (item : SendItem)
  | lost (q : Queue) (item : SendItem)
  | quiet
  deriving DecidableEq, Repr

namespace Sender

def new : Sender := ⟨false, true, true, [], [], [], .drain⟩

def tx (s : Sender) : Queue → Bool
  | .rel => s.relTx
  | .prio => s.prioTx

def queue (s : Sender) : Queue → List SendItem
  | .rel => s.rel
  | .prio => s.prio

def push (s : Sender) (item : SendItem) : Queue → Sender
  | .rel => { s with rel := s.rel ++ [item] }
  | .prio => { s with prio := s.prio ++ [item] }

/-- One round of `send_one`: an empty message is skipped, and a full buffer makes it try again. -/
def sendOne (s : Sender) (q : Queue) (item : SendItem) (next : Pc) (r : Reply) : Out × Sender :=
  if item.data = [] then (.handed q item, { s with pc := next })
  else match r with
    | .sent => (.handed q item, { s with pc := next })
    | .full => (.quiet, s)
    | .broken => (.lost q item, { s with pc := .exited })

/-- One step of the thread; the wait for a reliable message ends with one, or after 5 ms, or because
there is no sender any more. -/
def runSendLoop (s : Sender) (r : Reply) : Option (Out × Sender) :=
  match s.pc with
  | .drain =>
      match s.prio with
      | item :: prio => some (.quiet, { s with prio, pc := .sendPrio item })
      | [] => some (.quiet, { s with pc := .wait })
  | .sendPrio item => some (s.sendOne .prio item .drain r)
  | .wait =>
      match s.rel with
      | item :: rel => some (.quiet, { s with rel, pc := .sendRel item })
      | [] => some (.quiet, { s with pc := if s.relTx then .drain else .flush })
  | .sendRel item => some (s.sendOne .rel item .drain r)
  | .flush =>
      match s.prio with
      | item :: prio => some (.quiet, { s with prio, pc := .sendLast item })
      | [] => some (.quiet, { s with pc := .exited })
  | .sendLast item => some (s.sendOne .prio item .flush r)
  | .exited => none

/-- A call of `send_item_to` reads the flag, and later takes the lock of its queue; the thread takes
the receivers with it when it ends. -/
def act (s : Sender) : Label → Option (Out × Sender)
  | .enter q item =>
      some (if s.closed then (.refused, s)
        else (.quiet, { s with calls := s.calls ++ [(q, item)] }))
  | .post k => s.calls[k]?.map fun call =>
      let s := { s with calls := s.calls.eraseIdx k }
      if s.tx call.1 = true ∧ s.pc ≠ .exited then (.accepted call.1 call.2, s.push call.2 call.1)
      else (.refused, s)
  | .setClosed => some (.quiet, { s with closed := true })
  | .dropRel => some (.quiet, { s with relTx := false })
  | .dropPrio => some (.quiet, { s with prioTx := false })
  | .work r => s.runSendLoop r

def inHand (s : Sender) : Queue → List SendItem
  | .rel => match s.pc with
    | .sendRel item => [item]
    | _ => []
  | .prio => match s.pc with
    | .sendPrio item => [item]
    | .sendLast item => [item]
    | _ => []

def pending (s : Sender) (q : Queue) : List SendItem := s.inHand q ++ s.queue q

end Sender

def Out.accepted? : Out → Option (Queue × SendItem)
  | .accepted q item => some (q, item)
  | _ => none

def Out.handed? : Out → Option (Queue × SendItem)
  | .handed q item => some (q, item)
  | _ => none

def Out.lost? : Out → Option (Queue × SendItem)
  | .lost q item => some (q, item)
  | _ => none

def on (f : Out → Option (Queue × SendItem)) (q : Queue) (outs : List Out) : List SendItem :=
  ((outs.filterMap f).filter (·.1 = q)).map Prod.snd

section Logs

variable (f : Out → Option (Queue × SendItem)) (q : Queue) (outs outs' : List Out)

theorem on_append : on f q (outs ++ outs') = on f q outs ++ on f q outs' := by
  rw [on, on, on, List.filterMap_append, List.filter_append, List.map_append]

variable {f}

theorem on_quiet {o : Out} (h : f o = none) : on f q (outs ++ [o]) = on f q outs := by
  rw [on_append, show on f q [o] = [] by simp [on, h], List.append_nil]

theorem on_own {o : Out} {item : SendItem} (h : f o = some (q, item)) :
    on f q (outs ++ [o]) = on f q outs ++ [item] := by
  rw [on_append, show on f q [o] = [item] by simp [on, h]]

theorem on_other {o : Out} {q' : Queue} {item : SendItem} (h : f o = some (q', item))
    (hne : q' ≠ q) : on f q (outs ++ [o]) = on f q outs := by
  rw [on_append, show on f q [o] = [] by simp [on, h, hne], List.append_nil]

end Logs

/-- The thread has seen that the reliable queue is empty and without a sender. -/
def Pc.ending : Pc → Bool
  | .flush => true
  | .sendLast _ => true
  | .exited => true
  | _ => false

/-- What is accepted into a queue is handed over in order; a message whose sending fails is the last
one taken. -/
structure Kept (outs : List Out) (s : Sender) : Prop where
  balance : ∀ q, on Out.accepted? q outs =
    on Out.handed? q outs ++ on Out.lost? q outs ++ s.pending q
  lost_exited : outs.filterMap Out.lost? ≠ [] → s.pc = .exited
  lost_le : (outs.filterMap Out.lost?).length ≤ 1
  ending : outs.filterMap Out.lost? = [] → s.pc.ending = true → s.relTx = false ∧ s.rel = []

section Step

variable {outs : List Out} {s s' : Sender} {o : Out} {l : Label}

theorem kept_new : Kept [] .new :=
  ⟨fun q => by cases q <;> rfl, fun h => absurd rfl h, Nat.zero_le 1, fun _ h => by cases h⟩

theorem lost_quiet (h : o.lost? = none) :
    (outs ++ [o]).filterMap Out.lost? = outs.filterMap Out.lost? := by
  rw [List.filterMap_append, show [o].filterMap Out.lost? = [] by simp [h], List.append_nil]

theorem Kept.frame (h : Kept outs s) (ho : o = .quiet ∨ o = .refused) (hpc : s'.pc = s.pc)
    (hrel : s'.rel = s.rel) (hprio : s'.prio = s.prio) (htx : s.relTx = false → s'.relTx = false) :
    Kept (outs ++ [o]) s' := by
  have hnone : o.accepted? = none ∧ o.handed? = none ∧ o.lost? = none := by
    rcases ho with rfl | rfl <;> exact ⟨rfl, rfl, rfl⟩
  obtain ⟨haccepted, hhanded, hlost⟩ := hnone
  constructor
  · intro q
    rw [on_quiet q outs haccepted, on_quiet q outs hhanded, on_quiet q outs hlost, h.balance q]
    cases q <;> simp only [Sender.pending, Sender.inHand, Sender.queue, hpc, hrel, hprio]
  · rw [lost_quiet hlost, hpc]
    exact h.lost_exited
  · rw [lost_quiet hlost]
    exact h.lost_le
  · rw [lost_quiet hlost, hpc, hrel]
    exact fun hl he => ⟨htx (h.ending hl he).1, (h.ending hl he).2⟩

theorem Kept.move (h : Kept outs s) (hsame : ∀ q, s'.pending q = s.pending q)
    (hrunning : s.pc ≠ .exited) (hending : s'.pc.ending = true → s'.relTx = false ∧ s'.rel = []) :
    Kept (outs ++ [.quiet]) s' := by
  constructor
  · intro q
    rw [on_quiet q outs rfl, on_quiet q outs rfl, on_quiet q outs rfl, h.balance q, hsame q]
  · rw [lost_quiet rfl]
    exact fun hl => absurd (h.lost_exited hl) hrunning
  · rw [lost_quiet rfl]
    exact h.lost_le
  · exact fun _ => hending

theorem Kept.nothing_lost (h : Kept outs s) (hrunning : s.pc ≠ .exited) :
    outs.filterMap Out.lost? = [] := by
  by_contra hne
  exact hrunning (h.lost_exited hne)

theorem Kept.nothing_lost_on (h : Kept outs s) (hrunning : s.pc ≠ .exited) (q : Queue) :
    on Out.lost? q outs = [] := by
  rw [on, h.nothing_lost hrunning]
  rfl

theorem Kept.sendOne (h : Kept outs s) {q : Queue} {item : SendItem} {next : Pc} {r : Reply}
    (hrunning : s.pc ≠ .exited) (hown : s.pending q = item :: s.queue q)
    (hother : ∀ q', q' ≠ q → s.pending q' = s.queue q')
    (hnext : ∀ q', ({ s with pc := next } : Sender).pending q' = s.queue q')
      (hending : next.ending = true → s.pc.ending = true)
    (hsend : (o, s') = s.sendOne q item next r) : Kept (outs ++ [o]) s' := by
  have hnone := h.nothing_lost_on hrunning
  have hhanded : Kept (outs ++ [.handed q item]) { s with pc := next } := by
    constructor
    · intro q'
      have haccepted : Out.accepted? (.handed q item) = none := rfl
      have hlost : Out.lost? (.handed q item) = none := rfl
      rw [on_quiet q' outs haccepted, on_quiet q' outs hlost, h.balance q', hnone q', hnext q',
        List.append_nil, List.append_nil]
      by_cases hq : q' = q
      · have hhere : Out.handed? (.handed q item) = some (q, item) := rfl
        rw [hq, on_own q outs hhere, hown, List.append_assoc, List.singleton_append]
      · rw [on_other q' outs (o := .handed q item) rfl (Ne.symm hq), hother q' hq]
    · rw [lost_quiet rfl, h.nothing_lost hrunning]
      exact fun hne => absurd rfl hne
    · rw [lost_quiet rfl]
      exact h.lost_le
    · rw [lost_quiet rfl]
      exact fun hl he => h.ending hl (hending he)
  have hlost : Kept (outs ++ [.lost q item]) { s with pc := .exited } := by
    have hone : (outs ++ [Out.lost q item]).filterMap Out.lost? = [(q, item)] := by
      rw [List.filterMap_append, h.nothing_lost hrunning]
      rfl
    constructor
    · intro q'
      have haccepted : Out.accepted? (.lost q item) = none := rfl
      have hhanded : Out.handed? (.lost q item) = none := rfl
      have hgone : ({ s with pc := .exited } : Sender).pending q' = s.queue q' := by
        cases q' <;> rfl
      rw [on_quiet q' outs haccepted, on_quiet q' outs hhanded, h.balance q', hgone]
      by_cases hq : q' = q
      · have hhere : Out.lost? (.lost q item) = some (q, item) := rfl
        rw [hq, on_own q outs hhere, hown, List.append_assoc, List.append_assoc, List.append_assoc,
          List.singleton_append]
      · rw [on_other q' outs (o := .lost q item) rfl (Ne.symm hq), hother q' hq]
    · exact fun _ => rfl
    · exact Nat.le_of_eq (congrArg List.length hone)
    · rw [hone]
      exact fun hl => absurd hl (List.cons_ne_nil _ _)
  rw [Sender.sendOne.eq_def] at hsend
  split at hsend
  · obtain ⟨rfl, rfl⟩ := Prod.mk.inj hsend
    exact hhanded
  · cases r with
    | sent =>
        obtain ⟨rfl, rfl⟩ := Prod.mk.inj hsend
        exact hhanded
    | full =>
        obtain ⟨rfl, rfl⟩ := Prod.mk.inj hsend
        exact h.frame (Or.inl rfl) rfl rfl rfl id
    | broken =>
        obtain ⟨rfl, rfl⟩ := Prod.mk.inj hsend
        exact hlost

theorem Kept.runSendLoop (h : Kept outs s) {r : Reply} (hwork : s.runSendLoop r = some (o, s')) :
    Kept (outs ++ [o]) s' := by
  rw [Sender.runSendLoop] at hwork
  split at hwork
  next hpc =>
    split at hwork
    next item prio hprio =>
      obtain ⟨rfl, rfl⟩ := Prod.mk.inj (Option.some.inj hwork)
      refine h.move (fun q => ?_) (by rw [hpc]; decide) (by rintro ⟨⟩)
      cases q <;> simp [Sender.pending, Sender.inHand, Sender.queue, hpc, hprio]
    next =>
      obtain ⟨rfl, rfl⟩ := Prod.mk.inj (Option.some.inj hwork)
      refine h.move (fun q => ?_) (by rw [hpc]; decide) (by rintro ⟨⟩)
      cases q <;> simp [Sender.pending, Sender.inHand, Sender.queue, hpc]
  next item hpc =>
    apply h.sendOne (q := .prio) (by simp [hpc]) (by simp [Sender.pending, Sender.inHand, hpc]) _ _
      (by rintro ⟨⟩) (Option.some.inj hwork).symm
    · intro q hq
      cases q <;> simp_all [Sender.pending, Sender.inHand]
    · intro q
      cases q <;> rfl
  next hpc =>
    split at hwork
    next item rel hrel =>
      obtain ⟨rfl, rfl⟩ := Prod.mk.inj (Option.some.inj hwork)
      refine h.move (fun q => ?_) (by rw [hpc]; decide) (by rintro ⟨⟩)
      cases q <;> simp [Sender.pending, Sender.inHand, Sender.queue, hpc, hrel]
    next hrel =>
      obtain ⟨rfl, rfl⟩ := Prod.mk.inj (Option.some.inj hwork)
      apply h.move _ (by rw [hpc]; decide)
      · intro hending
        refine ⟨?_, hrel⟩
        cases htx : s.relTx with
        | false => rfl
        | true => simp [htx, Pc.ending] at hending
      · intro q
        cases s.relTx <;> cases q <;> simp [Sender.pending, Sender.inHand, Sender.queue, hpc]
  next item hpc =>
    apply h.sendOne (q := .rel) (by simp [hpc]) (by simp [Sender.pending, Sender.inHand, hpc]) _ _
      (by rintro ⟨⟩) (Option.some.inj hwork).symm
    · intro q hq
      cases q <;> simp_all [Sender.pending, Sender.inHand]
    · intro q
      cases q <;> rfl
  next hpc =>
    have hstays := h.ending (h.nothing_lost (by simp [hpc])) (by rw [hpc]; rfl)
    split at hwork
    next item prio hprio =>
      obtain ⟨rfl, rfl⟩ := Prod.mk.inj (Option.some.inj hwork)
      refine h.move (fun q => ?_) (by rw [hpc]; decide) fun _ => hstays
      cases q <;> simp [Sender.pending, Sender.inHand, Sender.queue, hpc, hprio]
    next =>
      obtain ⟨rfl, rfl⟩ := Prod.mk.inj (Option.some.inj hwork)
      refine h.move (fun q => ?_) (by rw [hpc]; decide) fun _ => hstays
      cases q <;> simp [Sender.pending, Sender.inHand, Sender.queue, hpc]
  next item hpc =>
    apply h.sendOne (q := .prio) (by simp [hpc]) (by simp [Sender.pending, Sender.inHand, hpc]) _ _
      (fun _ => by rw [hpc]; rfl) (Option.some.inj hwork).symm
    · intro q hq
      cases q <;> simp_all [Sender.pending, Sender.inHand]
    · intro q
      cases q <;> rfl
  next => cases hwork

theorem Kept.accept (h : Kept outs s) {q : Queue} {item : SendItem} (htx : s.tx q = true) :
    Kept (outs ++ [.accepted q item]) (s.push item q) := by
  have hpc : (s.push item q).pc = s.pc ∧ (s.push item q).relTx = s.relTx := by
    cases q <;> exact ⟨rfl, rfl⟩
  constructor
  · intro q'
    have hhanded : Out.handed? (.accepted q item) = none := rfl
    have hlost : Out.lost? (.accepted q item) = none := rfl
    rw [on_quiet q' outs hhanded, on_quiet q' outs hlost]
    by_cases hq : q' = q
    · have hhere : Out.accepted? (.accepted q item) = some (q, item) := rfl
      have hpush : (s.push item q).pending q = s.pending q ++ [item] := by
        cases q <;> simp [Sender.pending, Sender.inHand, Sender.queue, Sender.push]
      rw [hq, on_own q outs hhere, h.balance q, hpush, List.append_assoc, List.append_assoc]
    · have hpush : (s.push item q).pending q' = s.pending q' := by
        cases q <;> cases q' <;> first | rfl | exact absurd rfl hq
      rw [on_other q' outs (o := .accepted q item) rfl (Ne.symm hq), h.balance q', hpush]
  · rw [lost_quiet rfl, hpc.1]
    exact h.lost_exited
  · rw [lost_quiet rfl]
    exact h.lost_le
  · rw [lost_quiet rfl, hpc.1, hpc.2]
    intro hl he
    obtain ⟨hgone, hempty⟩ := h.ending hl he
    refine ⟨hgone, ?_⟩
    cases q with
    | rel =>
        rw [show s.tx .rel = s.relTx from rfl, hgone] at htx
        cases htx
    | prio => exact hempty

theorem Kept.step (h : Kept outs s) (hact : s.act l = some (o, s')) : Kept (outs ++ [o]) s' := by
  cases l with
  | enter q item =>
      rw [Sender.act] at hact
      split at hact
      · obtain ⟨rfl, rfl⟩ := Prod.mk.inj (Option.some.inj hact)
        exact h.frame (Or.inr rfl) rfl rfl rfl id
      · obtain ⟨rfl, rfl⟩ := Prod.mk.inj (Option.some.inj hact)
        exact h.frame (Or.inl rfl) rfl rfl rfl id
  | post k =>
      obtain ⟨call, -, heq⟩ := Option.map_eq_some_iff.mp hact
      have hleft : Kept outs { s with calls := s.calls.eraseIdx k } :=
        ⟨h.balance, h.lost_exited, h.lost_le, h.ending⟩
      simp only at heq
      split at heq
      next hopen =>
        obtain ⟨rfl, rfl⟩ := Prod.mk.inj heq
        exact hleft.accept hopen.1
      next =>
        obtain ⟨rfl, rfl⟩ := Prod.mk.inj heq
        exact h.frame (Or.inr rfl) rfl rfl rfl id
  | setClosed =>
      obtain ⟨rfl, rfl⟩ := Prod.mk.inj (Option.some.inj hact)
      exact h.frame (Or.inl rfl) rfl rfl rfl id
  | dropRel =>
      obtain ⟨rfl, rfl⟩ := Prod.mk.inj (Option.some.inj hact)
      exact h.frame (Or.inl rfl) rfl rfl rfl fun _ => rfl
  | dropPrio =>
      obtain ⟨rfl, rfl⟩ := Prod.mk.inj (Option.some.inj hact)
      exact h.frame (Or.inl rfl) rfl rfl rfl id
  | work r => exact h.runSendLoop hact

/-- The thread is between its look at the priority queue and the end of a reliable message. -/
def Pc.midway : Pc → Bool
  | .wait => true
  | .sendRel _ => true
  | _ => false

theorem sendOne_cases {q : Queue} {item : SendItem} {next : Pc} {r : Reply}
    (h : s.sendOne q item next r = (o, s')) :
    (o = .handed q item ∧ s'.pc = next) ∨ (o = .quiet ∧ s' = s) ∨
    (o = .lost q item ∧ s'.pc = .exited) := by
  rw [Sender.sendOne.eq_def] at h
  split at h
  · obtain ⟨rfl, rfl⟩ := Prod.mk.inj h
    exact Or.inl ⟨rfl, rfl⟩
  · cases r with
    | sent =>
        obtain ⟨rfl, rfl⟩ := Prod.mk.inj h
        exact Or.inl ⟨rfl, rfl⟩
    | full =>
        obtain ⟨rfl, rfl⟩ := Prod.mk.inj h
        exact Or.inr (Or.inl ⟨rfl, rfl⟩)
    | broken =>
        obtain ⟨rfl, rfl⟩ := Prod.mk.inj h
        exact Or.inr (Or.inr ⟨rfl, rfl⟩)

theorem pc_act (hact : s.act l = some (o, s')) :
    (s'.pc = s.pc ∧ o.handed? = none ∧ o.lost? = none) ∨ ∃ r, s.runSendLoop r = some (o, s') := by
  cases l with
  | enter q item =>
      rw [Sender.act] at hact
      split at hact <;> obtain ⟨rfl, rfl⟩ := Prod.mk.inj (Option.some.inj hact)
        <;> exact Or.inl ⟨rfl, rfl, rfl⟩
  | post k =>
      obtain ⟨call, -, heq⟩ := Option.map_eq_some_iff.mp hact
      simp only at heq
      split at heq
      · obtain ⟨rfl, rfl⟩ := Prod.mk.inj heq
        exact Or.inl ⟨by cases call.1 <;> rfl, rfl, rfl⟩
      · obtain ⟨rfl, rfl⟩ := Prod.mk.inj heq
        exact Or.inl ⟨rfl, rfl, rfl⟩
  | work r => exact Or.inr ⟨r, hact⟩
  | _ =>
      obtain ⟨rfl, rfl⟩ := Prod.mk.inj (Option.some.inj hact)
      exact Or.inl ⟨rfl, rfl, rfl⟩

theorem midway_work {r : Reply} (hwork : s.runSendLoop r = some (o, s')) :
    (s'.pc.midway = true → o.handed? = none ∧
      (s.pc.midway = true ∨ (s.pc ≠ .exited ∧ s.pending .prio = []))) ∧
      (∀ item, o = .handed .rel item → s.pc.midway = true ∧ s'.pc.midway = false) := by
  rw [Sender.runSendLoop] at hwork
  split at hwork
  next hpc =>
    split at hwork
    · obtain ⟨rfl, rfl⟩ := Prod.mk.inj (Option.some.inj hwork)
      exact ⟨by rintro ⟨⟩, nofun⟩
    next hprio =>
      obtain ⟨rfl, rfl⟩ := Prod.mk.inj (Option.some.inj hwork)
      exact ⟨fun _ => ⟨rfl, Or.inr
        ⟨by simp [hpc], by simp [Sender.pending, Sender.inHand, Sender.queue, hpc, hprio]⟩⟩, nofun⟩
  next item hpc =>
    rcases sendOne_cases (Option.some.inj hwork) with ⟨rfl, hnext⟩ | ⟨rfl, rfl⟩ |
        ⟨rfl, hnext⟩ <;> simp_all [Pc.midway]
  next hpc =>
    split at hwork
    · obtain ⟨rfl, rfl⟩ := Prod.mk.inj (Option.some.inj hwork)
      exact ⟨fun _ => ⟨rfl, Or.inl (by rw [hpc]; rfl)⟩, nofun⟩
    · obtain ⟨rfl, rfl⟩ := Prod.mk.inj (Option.some.inj hwork)
      exact ⟨fun _ => ⟨rfl, Or.inl (by rw [hpc]; rfl)⟩, nofun⟩
  next item hpc =>
    rcases sendOne_cases (Option.some.inj hwork) with ⟨rfl, hnext⟩ | ⟨rfl, rfl⟩ |
        ⟨rfl, hnext⟩ <;> simp_all [Pc.midway, Out.handed?]
  next hpc =>
    split at hwork <;> obtain ⟨rfl, rfl⟩ := Prod.mk.inj (Option.some.inj hwork)
      <;> exact ⟨by rintro ⟨⟩, nofun⟩
  next item hpc =>
    rcases sendOne_cases (Option.some.inj hwork) with ⟨rfl, hnext⟩ | ⟨rfl, rfl⟩ |
        ⟨rfl, hnext⟩ <;> simp_all [Pc.midway]
  next => cases hwork

theorem exited_work {r : Reply} (hwork : s.runSendLoop r = some (o, s'))
    (hexited : s'.pc = .exited) :
    (s.pc = .flush ∧ s.prio = [] ∧ o.lost? = none) ∨ o.lost? ≠ none := by
  rw [Sender.runSendLoop] at hwork
  split at hwork
  next hpc =>
    split at hwork <;> obtain ⟨rfl, rfl⟩ := Prod.mk.inj (Option.some.inj hwork) <;> cases hexited
  next item hpc =>
    rcases sendOne_cases (Option.some.inj hwork) with ⟨rfl, hnext⟩ | ⟨rfl, rfl⟩ |
        ⟨rfl, hnext⟩ <;> simp_all [Out.lost?]
  next hpc =>
    split at hwork
    · obtain ⟨rfl, rfl⟩ := Prod.mk.inj (Option.some.inj hwork)
      cases hexited
    · obtain ⟨rfl, rfl⟩ := Prod.mk.inj (Option.some.inj hwork)
      cases htx : s.relTx <;> simp [htx] at hexited
  next item hpc =>
    rcases sendOne_cases (Option.some.inj hwork) with ⟨rfl, hnext⟩ | ⟨rfl, rfl⟩ |
        ⟨rfl, hnext⟩ <;> simp_all [Out.lost?]
  next hpc =>
    split at hwork
    · obtain ⟨rfl, rfl⟩ := Prod.mk.inj (Option.some.inj hwork)
      cases hexited
    next hprio =>
      obtain ⟨rfl, rfl⟩ := Prod.mk.inj (Option.some.inj hwork)
      exact Or.inl ⟨hpc, hprio, rfl⟩
  next item hpc =>
    rcases sendOne_cases (Option.some.inj hwork) with ⟨rfl, hnext⟩ | ⟨rfl, rfl⟩ |
        ⟨rfl, hnext⟩ <;> simp_all [Out.lost?]
  next => cases hwork

end Step

section Run

variable {s u : Sender} {outs outs' : List Out} {past later : List Label}

theorem kept_run (h : run Sender.act .new past = some (outs, s)) : Kept outs s :=
  run_history (fun _ outs s => Kept outs s)
    (fun _ _ _ _ _ _ hkept hact => hkept.step hact) kept_new h

/-- Whatever the callers, the library and `close` do, at any moment: what is accepted into a queue
has been handed over in order and once, but for at most one message which failed and which ended the
thread, and for those still waiting. -/
theorem sends_in_order (past : List Label) (outs : List Out) (s : Sender)
    (h : run Sender.act .new past = some (outs, s)) :
    (∀ q, on Out.accepted? q outs = on Out.handed? q outs ++ on Out.lost? q outs ++ s.pending q) ∧
      (outs.filterMap Out.lost?).length ≤ 1 ∧ (outs.filterMap Out.lost? ≠ [] → s.pc = .exited) :=
  ⟨(kept_run h).balance, (kept_run h).lost_le, (kept_run h).lost_exited⟩

/-- A stream frame and a datagram, the datagram accepted when the thread is about to take the
frame. -/
def frame : SendItem := ⟨[1], true, -1⟩

def datagram : SendItem := ⟨[2], false, 400⟩

def bothAccepted : List Label :=
  [.enter .rel frame, .post 0, .work .sent, .enter .prio datagram, .post 0]

def bothSent : List Label := [.work .sent, .work .full, .work .sent, .work .sent, .work .sent]

theorem sends_in_order_both :
    ∃ outs s, run Sender.act .new (bothAccepted ++ bothSent) = some (outs, s) ∧
    on Out.accepted? .prio outs = on Out.handed? .prio outs ++ on Out.lost? .prio outs ++
      s.pending .prio :=
  ⟨_, _, rfl, (sends_in_order (bothAccepted ++ bothSent) _ _ rfl).1 .prio⟩

theorem kept_later (hpast : Kept outs u) (hlater : run Sender.act u later = some (outs', s)) :
    Kept (outs ++ outs') s := by
  apply run_history (fun _ outs' s => Kept (outs ++ outs') s) _
    (by rw [List.append_nil]; exact hpast) hlater
  intro _ outs' t l o t' hkept hact
  rw [← List.append_assoc]
  exact hkept.step hact

def Waits (n : Nat) (outs : List Out) : Prop := (on Out.handed? .prio outs).length < n

instance (n : Nat) (outs : List Out) : Decidable (Waits n outs) :=
  inferInstanceAs (Decidable (_ < _))

theorem waits_before {n : Nat} (h : Waits n (outs ++ outs')) : Waits n outs := by
  rw [Waits, on_append, List.length_append] at h
  exact Nat.lt_of_le_of_lt (Nat.le_add_right _ _) h

/-- The thread is at the reliable queue only if it has handed nothing over from there since. -/
structure Overtaken (n : Nat) (outs outs' : List Out) (s : Sender) : Prop where
  kept : Kept (outs ++ outs') s
  accepted : n ≤ (on Out.accepted? .prio (outs ++ outs')).length
  once : Waits n (outs ++ outs') → (on Out.handed? .rel outs').length ≤ 1
  midway : Waits n (outs ++ outs') → s.pc.midway = true → on Out.handed? .rel outs' = []

theorem Overtaken.step {n : Nat} {s' : Sender} {l : Label} {o : Out} (h : Overtaken n outs outs' s)
    (hact : s.act l = some (o, s')) : Overtaken n outs (outs' ++ [o]) s' := by
  have hkept := h.kept.step hact
  rw [List.append_assoc] at hkept
  have hbefore (hw : Waits n (outs ++ (outs' ++ [o]))) : Waits n (outs ++ outs') := by
    rw [← List.append_assoc] at hw
    exact waits_before hw
  have haccepted : n ≤ (on Out.accepted? .prio (outs ++ (outs' ++ [o]))).length := by
    rw [← List.append_assoc, on_append, List.length_append]
    exact Nat.le_trans h.accepted (Nat.le_add_right _ _)
  -- as long as one of the messages waits, the thread does not find the priority queue empty
  have hfull (hw : Waits n (outs ++ outs')) (hrunning : s.pc ≠ .exited) : s.pending .prio ≠ [] := by
    intro hempty
    have hall := h.kept.balance .prio
    rw [h.kept.nothing_lost_on hrunning .prio, hempty, List.append_nil, List.append_nil] at hall
    have hle := h.accepted
    rw [hall] at hle
    exact absurd hw (Nat.not_lt.mpr hle)
  rcases pc_act hact with ⟨hpc, hhanded, -⟩ | ⟨r, hwork⟩
  · have hsame : on Out.handed? .rel (outs' ++ [o]) = on Out.handed? .rel outs' :=
      on_quiet .rel outs' hhanded
    refine ⟨hkept, haccepted, fun hw => ?_, fun hw hmid => ?_⟩
    · rw [hsame]
      exact h.once (hbefore hw)
    · rw [hsame]
      exact h.midway (hbefore hw) (by rw [← hpc]; exact hmid)
  · obtain ⟨hreaches, hleaves⟩ := midway_work hwork
    refine ⟨hkept, haccepted, fun hw => ?_, fun hw hmid => ?_⟩
    · by_cases hrel : ∃ item, o = .handed .rel item
      · obtain ⟨item, rfl⟩ := hrel
        apply Nat.le_of_eq
        rw [on_append, h.midway (hbefore hw) (hleaves item rfl).1]
        rfl
      · rw [on_append, show on Out.handed? .rel [o] = [] from ?_, List.append_nil]
        · exact h.once (hbefore hw)
        · cases o with
          | handed q item => cases q with
            | rel => exact absurd ⟨item, rfl⟩ hrel
            | prio => rfl
          | _ => rfl
    · obtain ⟨hhanded, hmid | ⟨hrunning, hempty⟩⟩ := hreaches hmid
      · rw [on_quiet .rel outs' hhanded]
        exact h.midway (hbefore hw) hmid
      · exact absurd hempty (hfull (hbefore hw) hrunning)

/-- While a message waits that was accepted into the priority queue, at most one reliable message is
handed over. -/
theorem overtaken_once (past later : List Label) (outs outs' : List Out) (u s : Sender)
    (hpast : run Sender.act .new past = some (outs, u))
    (hlater : run Sender.act u later = some (outs', s))
    (hwaits : Waits (on Out.accepted? .prio outs).length (outs ++ outs')) :
    (on Out.handed? .rel outs').length ≤ 1 := by
  have hstart : Overtaken (on Out.accepted? .prio outs).length outs [] u := by
    constructor
    · rw [List.append_nil]
      exact kept_run hpast
    · exact Nat.le_of_eq (by rw [List.append_nil])
    · exact fun _ => Nat.zero_le 1
    · exact fun _ _ => rfl
  have hend :=
    run_history (fun _ outs' s => Overtaken (on Out.accepted? .prio outs).length outs outs' s)
    (fun _ _ _ _ _ _ h hact => h.step hact) hstart hlater
  exact hend.once hwaits

theorem overtaken_once_both : ∃ outs u outs' s, run Sender.act .new bothAccepted = some (outs, u) ∧
    run Sender.act u (bothSent.take 3) = some (outs', s) ∧ (on Out.handed? .rel outs').length ≤ 1 :=
  ⟨_, _, _, _, rfl, rfl, overtaken_once bothAccepted (bothSent.take 3) _ _ _ _ rfl rfl (by decide)⟩

/-- The thread that ends by itself has handed over what was accepted before `close` took the
sender. -/
structure Finished (n : Nat) (outs outs' : List Out) (s : Sender) : Prop where
  kept : Kept (outs ++ outs') s
  accepted : n ≤ (on Out.accepted? .prio (outs ++ outs')).length
  done : s.pc = .exited → (outs ++ outs').filterMap Out.lost? = [] → ¬ Waits n (outs ++ outs')

theorem Finished.step {n : Nat} {s' : Sender} {l : Label} {o : Out} (h : Finished n outs outs' s)
    (hact : s.act l = some (o, s')) : Finished n outs (outs' ++ [o]) s' := by
  have hkept := h.kept.step hact
  rw [List.append_assoc] at hkept
  refine ⟨hkept, ?_, fun hexited hclean hw => ?_⟩
  · rw [← List.append_assoc, on_append, List.length_append]
    exact Nat.le_trans h.accepted (Nat.le_add_right _ _)
  · rw [← List.append_assoc] at hclean hw
    rw [List.filterMap_append, List.append_eq_nil_iff] at hclean
    rcases pc_act hact with ⟨hpc, -, -⟩ | ⟨r, hwork⟩
    · exact h.done (by rw [← hpc]; exact hexited) hclean.1 (waits_before hw)
    · rcases exited_work hwork hexited with ⟨hflush, hempty, -⟩ | hlost
      · have hall := h.kept.balance .prio
        rw [h.kept.nothing_lost_on (by simp [hflush]) .prio,
          show s.pending .prio =
              [] by simp [Sender.pending, Sender.inHand, Sender.queue, hflush, hempty], List.append_nil,
          List.append_nil] at hall
        have hle := h.accepted
        rw [hall] at hle
        exact absurd (waits_before hw) (Nat.not_lt.mpr hle)
      · cases ho : o.lost? with
        | none => exact hlost ho
        | some p => simp [ho] at hclean

/-- When the thread ends and the socket has not failed it, it leaves nothing behind: every reliable
message that was accepted is handed over, and every priority message that was accepted while the
reliable queue still had its sender. -/
theorem nothing_left_behind (past later : List Label) (outs outs' : List Out) (u s : Sender)
    (hpast : run Sender.act .new past = some (outs, u))
    (hlater : run Sender.act u later = some (outs', s)) (hopen : u.relTx = true)
    (hexited : s.pc = .exited) (hclean : (outs ++ outs').filterMap Out.lost? = []) :
    on Out.handed? .rel (outs ++ outs') = on Out.accepted? .rel (outs ++ outs') ∧
      on Out.accepted? .prio outs <+: on Out.handed? .prio (outs ++ outs') := by
  have hkept := kept_later (kept_run hpast) hlater
  have hnone (q : Queue) : on Out.lost? q (outs ++ outs') = [] := by
    rw [on, hclean]
    rfl
  constructor
  · obtain ⟨-, hempty⟩ := hkept.ending hclean (by rw [hexited]; rfl)
    rw [hkept.balance .rel, hnone .rel,
      show s.pending .rel =
          [] by simp [Sender.pending, Sender.inHand, Sender.queue, hexited, hempty],
      List.append_nil, List.append_nil]
  · have hstart : Finished (on Out.accepted? .prio outs).length outs [] u := by
      refine ⟨by rw [List.append_nil]; exact kept_run hpast, Nat.le_of_eq (by rw [List.append_nil]),
        fun hgone hcl => ?_⟩
      rw [List.append_nil] at hcl
      rw [((kept_run hpast).ending hcl (by rw [hgone]; rfl)).1] at hopen
      cases hopen
    have hend :=
      run_history (fun _ outs' s => Finished (on Out.accepted? .prio outs).length outs outs' s)
      (fun _ _ _ _ _ _ h hact => h.step hact) hstart hlater
    have hlong := Nat.not_lt.mp (hend.done hexited hclean)
    apply List.prefix_of_prefix_length_le _ _ hlong
    · exact on Out.accepted? .prio (outs ++ outs')
    · rw [on_append]
      exact List.prefix_append _ _
    · rw [hkept.balance .prio, hnone .prio, List.append_nil]
      exact List.prefix_append _ _

/-- Closed after both are accepted. -/
theorem nothing_left_behind_both :
    ∃ outs u outs' s, run Sender.act .new bothAccepted = some (outs, u) ∧
    run Sender.act u (bothSent ++ [.setClosed, .dropRel, .work .sent, .work .sent, .work .sent]) =
      some (outs', s) ∧
      on Out.handed? .rel (outs ++ outs') = on Out.accepted? .rel (outs ++ outs') ∧
      on Out.accepted? .prio outs <+: on Out.handed? .prio (outs ++ outs') :=
  ⟨_, _, _, _, rfl, rfl, nothing_left_behind bothAccepted
    (bothSent ++ [.setClosed, .dropRel, .work .sent, .work .sent, .work .sent])
    _ _ _ _ rfl rfl rfl rfl rfl⟩

end Run

end SrtVpn.SendOrder
