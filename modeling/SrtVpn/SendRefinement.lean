import SrtVpn.Connection
import SrtVpn.SendOrder

namespace SrtVpn.SendRefinement

open BigEndian (Bytes)
open Connection (Link LinkAct)
open SendOrder PartialRuns

/-- What is done to a link: a call queues a message, or the link does something of its own. -/
inductive Move
  | send (priority : Bool) (item : Connection.SendItem Bytes)
  | act (a : LinkAct)

def move (l : Link Bytes) : Move → Link Bytes
  | .send priority item => l.sendItemTo priority item
  | .act a => ((l.act a).map Prod.snd).getD l

def moves (ms : List Move) : Link Bytes := ms.foldl move .new

def asItem (item : SendItem) : Connection.SendItem Bytes := ⟨item.data, item.reliable⟩

def place : Pc → Connection.Pc
  | .drain => .drain
  | .sendPrio _ => .drain
  | .wait => .wait
  | .sendRel _ => .wait
  | .flush => .flush
  | .sendLast _ => .flush
  | .exited => .exited

def handedOver (reliable : Bool) (outs : List Out) : List Bytes :=
  ((outs.filterMap Out.handed?).filter fun p => p.2.reliable = reliable).map fun p => p.2.data

/-- The link stands where the thread stands, with all that is pending in its queues and all that was
handed over under way. Its senders are gone once the thread knows it. -/
structure Simulates (outs : List Out) (s : Sender) (l : Link Bytes) : Prop where
  pc : l.pc = place s.pc
  wire : l.wire = handedOver true outs
  loose : l.loose = handedOver false outs
  rel : s.pc ≠ .exited → l.rel = (s.pending .rel).map asItem
  prio : s.pc ≠ .exited → l.prio = (s.pending .prio).map asItem
  closed : s.pc ≠ .exited → l.closed = s.pc.ending
  senderless : s.pc ≠ .exited → s.pc.ending = true → s.relTx = false

/-- No priority message is accepted once the thread drains their queue for the last time. -/
def OnTime (s : Sender) : Label → Prop
  | .post k => ∀ item, s.calls[k]? = some (.prio, item) → s.pc.ending = true → s.pc ≠ .exited →
    s.prioTx = false
  | _ => True

section HandedOver

variable (reliable : Bool) (outs : List Out)

theorem handedOver_quiet {o : Out} (h : o.handed? = none) :
    handedOver reliable (outs ++ [o]) = handedOver reliable outs := by
  rw [handedOver, List.filterMap_append, List.filterMap_cons_none h, List.filterMap_nil,
    List.append_nil]
  rfl

theorem handedOver_handed (q : Queue) (item : SendItem) :
    handedOver reliable (outs ++ [.handed q item]) =
    handedOver reliable outs ++ if item.reliable = reliable then [item.data] else [] := by
  rw [handedOver, List.filterMap_append, List.filter_append, List.map_append]
  apply congrArg (handedOver reliable outs ++ ·)
  by_cases h : item.reliable = reliable
  · simp [Out.handed?, h]
  · simp [Out.handed?, h]

end HandedOver

section Link

variable {l : Link Bytes} {x : Connection.SendItem Bytes} {rest : List (Connection.SendItem Bytes)}

theorem sendOne_eq (l : Link Bytes) (x : Connection.SendItem Bytes) : l.sendOne x = { l with
    wire := l.wire ++ if x.reliable = true then [x.msg] else []
    loose := l.loose ++ if x.reliable = false then [x.msg] else [] } := by
  rw [Link.sendOne]
  cases x.reliable with
  | true => simp
  | false => simp

theorem work_prio (hpc : l.pc = .drain ∨ l.pc = .flush) (hprio : l.prio = x :: rest)
    (alive : Bool) : l.runSendLoop alive =
    if alive then { Link.sendOne { l with prio := rest } x with pc := l.pc }
    else { l with prio := rest, pc := .exited } := by
  have hstays : Link.sendOne { l with prio := rest } x =
    { Link.sendOne { l with prio := rest } x with pc := l.pc } := by
    rw [sendOne_eq]
  rw [← hstays]
  rcases hpc with hpc | hpc
  · rw [Link.runSendLoop, hpc, hprio]
  · rw [Link.runSendLoop, hpc, hprio]

theorem work_rel (hpc : l.pc = .wait) (hrel : l.rel = x :: rest) (alive : Bool) :
    l.runSendLoop alive =
    if alive then { Link.sendOne { l with rel := rest } x with pc := .drain }
    else { l with rel := rest, pc := .exited } := by
  rw [Link.runSendLoop, hpc, hrel]

end Link

section Step

variable {outs : List Out} {s s' : Sender} {l : Link Bytes} {o : Out} {lbl : Label}

theorem simulates_new : Simulates [] .new .new where
  pc := rfl
  wire := rfl
  loose := rfl
  rel _ := rfl
  prio _ := rfl
  closed _ := rfl
  senderless _ h := by cases h

theorem Simulates.queues (h : Simulates outs s l) {l' : Link Bytes} (ho : o.handed? = none)
    (hlink : l' = { l with rel := l'.rel, prio := l'.prio }) (hpc : s'.pc = s.pc)
    (hrel : s.pc ≠ .exited → l'.rel = (s'.pending .rel).map asItem)
    (hprio : s.pc ≠ .exited → l'.prio = (s'.pending .prio).map asItem)
    (htx : s.relTx = false → s'.relTx = false) : Simulates (outs ++ [o]) s' l' := by
  constructor
  · rw [hlink, hpc]
    exact h.pc
  · rw [handedOver_quiet true outs ho, hlink]
    exact h.wire
  · rw [handedOver_quiet false outs ho, hlink]
    exact h.loose
  · rw [hpc]
    exact hrel
  · rw [hpc]
    exact hprio
  · rw [hlink, hpc]
    exact h.closed
  · rw [hpc]
    exact fun hrunning hending => htx (h.senderless hrunning hending)

theorem Simulates.frame (h : Simulates outs s l) (ho : o.handed? = none) (hpc : s'.pc = s.pc)
    (hrel : s'.rel = s.rel) (hprio : s'.prio = s.prio) (htx : s.relTx = false → s'.relTx = false) :
    Simulates (outs ++ [o]) s' l := by
  have hpending : ∀ q, s'.pending q = s.pending q := by
    intro q
    cases q <;> simp only [Sender.pending, Sender.inHand, Sender.queue, hpc, hrel, hprio]
  apply h.queues ho rfl hpc _ _ htx
  · rw [hpending]
    exact h.rel
  · rw [hpending]
    exact h.prio

theorem Simulates.moved (h : Simulates outs s l) {l' : Link Bytes} (hrunning : s.pc ≠ .exited)
    (hpc : l'.pc = place s'.pc) (hsame : ∀ q, s'.pending q = s.pending q)
    (hkept : l' = { l with pc := l'.pc, closed := l'.closed })
    (hclosed : s'.pc ≠ .exited → l'.closed = s'.pc.ending) (htx : s'.pc ≠ .exited →
      s'.pc.ending = true → s'.relTx = false) :
    Simulates (outs ++ [.quiet]) s' l' := by
  constructor
  · exact hpc
  · rw [handedOver_quiet true outs rfl, hkept]
    exact h.wire
  · rw [handedOver_quiet false outs rfl, hkept]
    exact h.loose
  · rw [hsame, hkept]
    exact fun _ => h.rel hrunning
  · rw [hsame, hkept]
    exact fun _ => h.prio hrunning
  · exact hclosed
  · exact htx

theorem Simulates.sendOne (h : Simulates outs s l) {q : Queue} {item : SendItem} {next : Pc}
    {r : Reply} (hrunning : s.pc ≠ .exited) (hending : next.ending = s.pc.ending)
    (hqueued : ∀ q, ({ s with pc := next } : Sender).pending q = s.queue q)
    (hwork : ∀ alive, l.runSendLoop alive =
      if alive then { Link.sendOne { l with rel := s.rel.map asItem, prio := s.prio.map asItem }
        (asItem item) with pc := place next }
      else { l with rel := s.rel.map asItem, prio := s.prio.map asItem, pc := .exited })
    (hsend : (o, s') = s.sendOne q item next r) : ∃ ms : List Move,
      Simulates (outs ++ [o]) s' (ms.foldl move l) := by
  have hhanded : Simulates (outs ++ [.handed q item]) { s with pc := next }
    (l.runSendLoop true) := by
    rw [hwork, if_pos rfl, sendOne_eq]
    constructor
    · rfl
    · rw [handedOver_handed, ← h.wire]
      rfl
    · rw [handedOver_handed, ← h.loose]
      rfl
    · rw [hqueued]
      exact fun _ => rfl
    · rw [hqueued]
      exact fun _ => rfl
    · exact fun _ => (h.closed hrunning).trans hending.symm
    · exact fun _ hlast => h.senderless hrunning (hending ▸ hlast)
  have hlost : Simulates (outs ++ [.lost q item]) { s with pc := .exited }
    (l.runSendLoop false) := by
    rw [hwork, if_neg (by decide)]
    constructor
    · rfl
    · rw [handedOver_quiet true outs rfl]
      exact h.wire
    · rw [handedOver_quiet false outs rfl]
      exact h.loose
    · exact fun hne => absurd rfl hne
    · exact fun hne => absurd rfl hne
    · exact fun hne => absurd rfl hne
    · exact fun hne => absurd rfl hne
  rw [Sender.sendOne.eq_def] at hsend
  split at hsend
  · obtain ⟨rfl, rfl⟩ := Prod.mk.inj hsend
    exact ⟨[.act (.work true)], hhanded⟩
  · cases r with
    | sent =>
        obtain ⟨rfl, rfl⟩ := Prod.mk.inj hsend
        exact ⟨[.act (.work true)], hhanded⟩
    | full =>
        obtain ⟨rfl, rfl⟩ := Prod.mk.inj hsend
        exact ⟨[], h.frame rfl rfl rfl rfl id⟩
    | broken =>
        obtain ⟨rfl, rfl⟩ := Prod.mk.inj hsend
        exact ⟨[.act (.work false)], hlost⟩

theorem Simulates.takes (h : Simulates outs s l) (hrunning : s.pc ≠ .exited)
    (hplace : place s'.pc = place s.pc) (hsame : ∀ q, s'.pending q = s.pending q)
    (hending : s'.pc.ending = s.pc.ending) (htx : s'.relTx = s.relTx) :
    ∃ ms : List Move, Simulates (outs ++ [.quiet]) s' (ms.foldl move l) := by
  refine ⟨[], h.moved hrunning (h.pc.trans hplace.symm) hsame rfl (fun _ => ?_) (fun _ hlast => ?_)⟩
  · exact (h.closed hrunning).trans hending.symm
  · rw [htx]
    exact h.senderless hrunning (hending ▸ hlast)

theorem Simulates.runSendLoop (h : Simulates outs s l) {r : Reply}
    (hwork : s.runSendLoop r = some (o, s')) :
    ∃ ms : List Move, Simulates (outs ++ [o]) s' (ms.foldl move l) := by
  have hpc := h.pc
  rw [Sender.runSendLoop] at hwork
  cases hat : s.pc with
  | drain =>
      have hrunning : s.pc ≠ .exited := by rw [hat]; decide
      rw [hat] at hwork hpc
      cases hqueue : s.prio with
      | cons item prio =>
          rw [hqueue] at hwork
          obtain ⟨rfl, rfl⟩ := Prod.mk.inj (Option.some.inj hwork)
          refine h.takes hrunning (by rw [hat]; rfl) (fun q => ?_) (by rw [hat]; rfl) rfl
          cases q <;> simp [Sender.pending, Sender.inHand, Sender.queue, hat, hqueue]
      | nil =>
          rw [hqueue] at hwork
          obtain ⟨rfl, rfl⟩ := Prod.mk.inj (Option.some.inj hwork)
          have hnone : l.prio = [] := by
            rw [h.prio hrunning, Sender.pending, Sender.inHand, hat, Sender.queue, hqueue]; rfl
          have hmove : move l (.act (.work true)) = { l with pc := .wait } := by
            change l.runSendLoop true = _
            rw [Link.runSendLoop, hpc, hnone]
            rfl
          refine ⟨[.act (.work true)], ?_⟩
          rw [List.foldl_cons, List.foldl_nil, hmove]
          refine h.moved hrunning rfl (fun q => ?_) rfl (fun _ => ?_)
            (fun _ hlast => by cases hlast)
          · cases q <;> simp [Sender.pending, Sender.inHand, Sender.queue, hat, hqueue]
          · exact (h.closed hrunning).trans (by rw [hat]; rfl)
  | sendPrio item =>
      have hrunning : s.pc ≠ .exited := by simp [hat]
      have hrel := h.rel hrunning
      have hprio := h.prio hrunning
      simp only [Sender.pending, Sender.inHand, Sender.queue, hat, List.nil_append] at hrel
      simp only [Sender.pending, Sender.inHand, Sender.queue, hat, List.singleton_append,
        List.map_cons] at hprio
      rw [hat] at hwork hpc
      refine h.sendOne hrunning (by rw [hat]; rfl) (fun q => ?_) (fun alive => ?_)
        (Option.some.inj hwork).symm
      · cases q <;> rfl
      · rw [work_prio (Or.inl hpc) hprio alive, ← hrel, hpc]
        rfl
  | wait =>
      have hrunning : s.pc ≠ .exited := by rw [hat]; decide
      have hclosed := h.closed hrunning
      rw [hat] at hwork hpc hclosed
      cases hqueue : s.rel with
      | cons item rel =>
          rw [hqueue] at hwork
          obtain ⟨rfl, rfl⟩ := Prod.mk.inj (Option.some.inj hwork)
          refine h.takes hrunning (by rw [hat]; rfl) (fun q => ?_) (by rw [hat]; rfl) rfl
          cases q <;> simp [Sender.pending, Sender.inHand, Sender.queue, hat, hqueue]
      | nil =>
          rw [hqueue] at hwork
          obtain ⟨rfl, rfl⟩ := Prod.mk.inj (Option.some.inj hwork)
          have hnone : l.rel = [] := by
            rw [h.rel hrunning, Sender.pending, Sender.inHand, hat, Sender.queue, hqueue]; rfl
          cases htx : s.relTx with
          | true =>
              have hmove : move l (.act (.work true)) = { l with pc := .drain } := by
                change l.runSendLoop true = _
                rw [Link.runSendLoop, hpc, hnone]
                simp only [hclosed]
                rfl
              refine ⟨[.act (.work true)], ?_⟩
              rw [List.foldl_cons, List.foldl_nil, hmove]
              refine h.moved hrunning rfl (fun q => ?_) rfl (fun _ => hclosed)
                (fun _ hlast => by cases hlast)
              cases q <;> simp [Sender.pending, Sender.inHand, Sender.queue, hat, hqueue]
          | false =>
              -- only now do the senders of the link go
              have hmove : move (move l (.act .close)) (.act (.work true)) =
                  { l with pc := .flush, closed := true } := by
                change Link.runSendLoop { l with closed := true } true = _
                rw [Link.runSendLoop, hpc, hnone]
                rfl
              refine ⟨[.act .close, .act (.work true)], ?_⟩
              rw [List.foldl_cons, List.foldl_cons, List.foldl_nil, hmove]
              refine h.moved hrunning rfl (fun q => ?_) rfl (fun _ => rfl) (fun _ _ => rfl)
              cases q <;> simp [Sender.pending, Sender.inHand, Sender.queue, hat, hqueue]
  | sendRel item =>
      have hrunning : s.pc ≠ .exited := by simp [hat]
      have hrel := h.rel hrunning
      have hprio := h.prio hrunning
      simp only [Sender.pending, Sender.inHand, Sender.queue, hat, List.singleton_append,
        List.map_cons] at hrel
      simp only [Sender.pending, Sender.inHand, Sender.queue, hat, List.nil_append] at hprio
      rw [hat] at hwork hpc
      refine h.sendOne hrunning (by rw [hat]; rfl) (fun q => ?_) (fun alive => ?_)
        (Option.some.inj hwork).symm
      · cases q <;> rfl
      · rw [work_rel hpc hrel alive, ← hprio]
        rfl
  | flush =>
      have hrunning : s.pc ≠ .exited := by rw [hat]; decide
      rw [hat] at hwork hpc
      cases hqueue : s.prio with
      | cons item prio =>
          rw [hqueue] at hwork
          obtain ⟨rfl, rfl⟩ := Prod.mk.inj (Option.some.inj hwork)
          refine h.takes hrunning (by rw [hat]; rfl) (fun q => ?_) (by rw [hat]; rfl) rfl
          cases q <;> simp [Sender.pending, Sender.inHand, Sender.queue, hat, hqueue]
      | nil =>
          rw [hqueue] at hwork
          obtain ⟨rfl, rfl⟩ := Prod.mk.inj (Option.some.inj hwork)
          have hnone : l.prio = [] := by
            rw [h.prio hrunning, Sender.pending, Sender.inHand, hat, Sender.queue, hqueue]; rfl
          have hmove : move l (.act (.work true)) = { l with pc := .exited } := by
            change l.runSendLoop true = _
            rw [Link.runSendLoop, hpc, hnone]
            rfl
          refine ⟨[.act (.work true)], ?_⟩
          rw [List.foldl_cons, List.foldl_nil, hmove]
          refine h.moved hrunning rfl (fun q => ?_) rfl (fun hne => absurd rfl hne)
            (fun hne => absurd rfl hne)
          cases q <;> simp [Sender.pending, Sender.inHand, Sender.queue, hat, hqueue]
  | sendLast item =>
      have hrunning : s.pc ≠ .exited := by simp [hat]
      have hrel := h.rel hrunning
      have hprio := h.prio hrunning
      simp only [Sender.pending, Sender.inHand, Sender.queue, hat, List.nil_append] at hrel
      simp only [Sender.pending, Sender.inHand, Sender.queue, hat, List.singleton_append,
        List.map_cons] at hprio
      rw [hat] at hwork hpc
      refine h.sendOne hrunning (by rw [hat]; rfl) (fun q => ?_) (fun alive => ?_)
        (Option.some.inj hwork).symm
      · cases q <;> rfl
      · rw [work_prio (Or.inr hpc) hprio alive, ← hrel, hpc]
        rfl
  | exited =>
      rw [hat] at hwork
      cases hwork

theorem Simulates.accept (h : Simulates outs s l) {q : Queue} {item : SendItem}
    (hrunning : s.pc ≠ .exited) (hopen : s.pc.ending = false) (k : Nat) :
    ∃ ms : List Move, Simulates (outs ++ [.accepted q item])
      (Sender.push { s with calls := s.calls.eraseIdx k } item q) (ms.foldl move l) := by
  have hclosed : l.closed = false := (h.closed hrunning).trans hopen
  cases q with
  | rel =>
      refine ⟨[.send false (asItem item)], ?_⟩
      have hmove : move l (.send false (asItem item)) =
          { l with rel := l.rel ++ [asItem item] } := by
        rw [move, Link.sendItemTo, hclosed]
        rfl
      rw [List.foldl_cons, List.foldl_nil, hmove]
      refine h.queues ?_ ?_ ?_ (fun _ => ?_) h.prio id
      · rfl
      · rfl
      · rfl
      · change l.rel ++ [asItem item] = (s.inHand .rel ++ (s.rel ++ [item])).map asItem
        rw [h.rel hrunning, ← List.append_assoc, List.map_append]
        rfl
  | prio =>
      refine ⟨[.send true (asItem item)], ?_⟩
      have hmove : move l (.send true (asItem item)) =
          { l with prio := l.prio ++ [asItem item] } := by
        rw [move, Link.sendItemTo, hclosed]
        rfl
      rw [List.foldl_cons, List.foldl_nil, hmove]
      refine h.queues ?_ ?_ ?_ h.rel (fun _ => ?_) id
      · rfl
      · rfl
      · rfl
      · change l.prio ++ [asItem item] = (s.inHand .prio ++ (s.prio ++ [item])).map asItem
        rw [h.prio hrunning, ← List.append_assoc, List.map_append]
        rfl

theorem Simulates.step (h : Simulates outs s l) (hok : OnTime s lbl)
    (hact : s.act lbl = some (o, s')) :
    ∃ ms : List Move, Simulates (outs ++ [o]) s' (ms.foldl move l) := by
  cases lbl with
  | enter q item =>
      obtain ⟨rfl, rfl⟩ | ⟨rfl, rfl⟩ : (o = .refused ∧ s' = s) ∨
          (o = .quiet ∧ s' = { s with calls := s.calls ++ [(q, item)] }) := by
        have heq := Option.some.inj hact
        split at heq
        · exact Or.inl (Prod.mk.inj heq.symm)
        · exact Or.inr (Prod.mk.inj heq.symm)
      · exact ⟨[], h.frame rfl rfl rfl rfl id⟩
      · exact ⟨[], h.frame rfl rfl rfl rfl id⟩
  | post k =>
      obtain ⟨⟨q, item⟩, hcall, heq⟩ := Option.map_eq_some_iff.mp hact
      by_cases hgo : ({ s with calls := s.calls.eraseIdx k } : Sender).tx q = true ∧ s.pc ≠ .exited
      · rw [if_pos hgo] at heq
        obtain ⟨rfl, rfl⟩ := Prod.mk.inj heq
        apply h.accept hgo.2
        cases hlast : s.pc.ending with
        | false => rfl
        | true =>
            have hgone : ({ s with calls := s.calls.eraseIdx k } : Sender).tx q = false := by
              cases q with
              | rel => exact h.senderless hgo.2 hlast
              | prio => exact hok item hcall hlast hgo.2
            rw [hgone] at hgo
            exact absurd hgo.1 (by decide)
      · rw [if_neg hgo] at heq
        obtain ⟨rfl, rfl⟩ := Prod.mk.inj heq
        exact ⟨[], h.frame rfl rfl rfl rfl id⟩
  | setClosed =>
      obtain ⟨rfl, rfl⟩ := Prod.mk.inj (Option.some.inj hact)
      exact ⟨[], h.frame rfl rfl rfl rfl id⟩
  | dropRel =>
      obtain ⟨rfl, rfl⟩ := Prod.mk.inj (Option.some.inj hact)
      exact ⟨[], h.frame rfl rfl rfl rfl fun _ => rfl⟩
  | dropPrio =>
      obtain ⟨rfl, rfl⟩ := Prod.mk.inj (Option.some.inj hact)
      exact ⟨[], h.frame rfl rfl rfl rfl id⟩
  | work r => exact h.runSendLoop hact

end Step

/-- What the sending thread, its callers and `close` do in small steps is a run of the link, with
the same messages handed over in the same order. -/
theorem sender_refines_link (ls : List Label) (outs : List Out) (s : Sender)
    (hok : EachStep Sender.act OnTime .new ls) (hrun : run Sender.act .new ls = some (outs, s)) :
    ∃ ms : List Move, Simulates outs s (moves ms) := by
  refine run_history_of_eachStep (fun _ outs s => ∃ ms : List Move, Simulates outs s (moves ms)) ?_
    ⟨[], simulates_new⟩ hok hrun
  rintro past outs s lbl o s' ⟨ms, hms⟩ hok hact
  obtain ⟨more, hmore⟩ := hms.step hok hact
  refine ⟨ms ++ more, ?_⟩
  rw [moves, List.foldl_append]
  exact hmore

end SrtVpn.SendRefinement
