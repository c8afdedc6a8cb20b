import SrtVpn.Connection
import SrtVpn.Transparency

namespace SrtVpn.Downlink

open Wire Encoder Decoder Connection Transparency

section Link

variable {M : Type} {p : M → Bool} {l l' : Link M}

def held (p : M → Bool) (l : Link M) : List M :=
  (l.wire ++ if l.pc = .exited then [] else l.rel.map SendItem.msg).filter p

def Running (l : Link M) : Prop := l.closed = false ∧ l.pc ≠ .exited

/-- Messages of the kind `p` go by the reliable queue only; whatever else is sent may overtake
them. -/
structure Laned (p : M → Bool) (l : Link M) : Prop where
  rel : ∀ x ∈ l.rel, p x.msg = true → x.reliable = true
  prio : ∀ x ∈ l.prio, p x.msg = false
  loose : ∀ m ∈ l.loose, p m = false

theorem laned_new (p : M → Bool) : Laned p Link.new :=
  ⟨by simp [Link.new], by simp [Link.new], by simp [Link.new]⟩

/-- What a step of the link does to the messages to come: they stay, or the thread has ended and
those it had not sent are lost. -/
structure Passed (p : M → Bool) (l l' : Link M) (out : List M) : Prop where
  laned : Laned p l'
  running : Running l' → Running l
  held : ∃ lost, held p l = out ++ Downlink.held p l' ++ lost ∧ (Running l' → lost = [])

theorem passed_exited (ho : Laned p l') (hwire : l'.wire = l.wire) (hpc : l'.pc = .exited) :
    Passed p l l' [] := by
  have hn : ¬ Running l' := fun h => h.2 hpc
  refine ⟨ho, fun h => absurd h hn,
    (if l.pc = .exited then [] else l.rel.map SendItem.msg).filter p, ?_, fun h => absurd h hn⟩
  rw [held, held, hpc, if_pos rfl, hwire, List.append_nil, List.filter_append]
  rfl

theorem passed_same (ho : Laned p l') (hrunning : Running l' → Running l)
    (hheld : held p l' = held p l) : Passed p l l' [] :=
  ⟨ho, hrunning, [], by rw [hheld, List.append_nil, List.nil_append], fun _ => rfl⟩

theorem laned_sendOne {item : SendItem M} (h : Laned p l) (hitem : p item.msg = false) :
    Laned p (l.sendOne item) ∧ held p (l.sendOne item) = held p l := by
  rw [Link.sendOne]
  split
  · refine ⟨⟨h.rel, h.prio, h.loose⟩, ?_⟩
    simp [held, hitem]
  · refine ⟨⟨h.rel, h.prio, fun m hm => ?_⟩, rfl⟩
    rcases List.mem_append.mp hm with hm | hm
    · exact h.loose m hm
    · exact List.mem_singleton.mp hm ▸ hitem

theorem running_sendOne (l : Link M) (item : SendItem M) :
    Running (l.sendOne item) ↔ Running l := by
  rw [Link.sendOne]
  split <;> rfl

theorem passed_priority {item : SendItem M} {prio : List (SendItem M)} (h : Laned p l)
    (hp : l.prio = item :: prio) (alive : Bool) :
    Passed p l (if alive then Link.sendOne { l with prio := prio }
      item else { l with prio := prio, pc := .exited }) [] := by
  have hitem := h.prio item (by rw [hp]; exact List.mem_cons_self)
  have hprio : ∀ x ∈ prio, p x.msg = false := by
    intro x hx
    exact h.prio x (by rw [hp]; exact List.mem_cons_of_mem _ hx)
  cases alive with
  | true =>
      have hrest : Laned p { l with prio := prio } := ⟨h.rel, hprio, h.loose⟩
      obtain ⟨hlaned, hheld⟩ := laned_sendOne hrest hitem
      exact passed_same hlaned (running_sendOne _ item).mp hheld
  | false => exact passed_exited ⟨h.rel, hprio, h.loose⟩ rfl rfl

theorem passed_runSendLoop (h : Laned p l) (alive : Bool) : Passed p l (l.runSendLoop alive) [] := by
  rw [Link.runSendLoop]
  cases hpc : l.pc with
  | drain =>
      cases hp : l.prio with
      | nil =>
          refine passed_same ⟨h.rel, by simp, h.loose⟩ (fun hr => ⟨hr.1, by simp [hpc]⟩) ?_
          simp [held, hpc]
      | cons item prio =>
          have hpassed := passed_priority h hp alive
          rw [hpc] at hpassed
          exact hpassed
  | wait =>
      cases hr : l.rel with
      | nil =>
          refine passed_same ⟨by simp, h.prio, h.loose⟩ (fun hrun => ⟨hrun.1, by simp [hpc]⟩) ?_
          cases hc : l.closed <;> simp [held, hpc, hr]
      | cons item rel =>
          have hitem := h.rel item (by rw [hr]; exact List.mem_cons_self)
          have hrel : ∀ x ∈ rel, p x.msg = true → x.reliable = true :=
            fun x hx => h.rel x (by rw [hr]; exact List.mem_cons_of_mem _ hx)
          cases alive with
          | false => exact passed_exited ⟨hrel, h.prio, h.loose⟩ rfl rfl
          | true =>
              have hrun : ∀ l' : Link M, l'.closed = l.closed → Running l' → Running l :=
                fun l' hc hrun => ⟨hc ▸ hrun.1, by simp [hpc]⟩
              simp only [if_true, Link.sendOne]
              split
              next => exact passed_same ⟨hrel, h.prio, h.loose⟩ (hrun _ rfl) (by simp [held, hpc, hr])
              next hloose =>
                have hkind : p item.msg = false := by
                  by_contra hkind
                  exact hloose (hitem (by simpa using hkind))
                refine passed_same ⟨hrel, h.prio, fun m hm => ?_⟩ (hrun _ rfl)
                  (by simp [held, hpc, hr, hkind])
                rcases List.mem_append.mp hm with hm | hm
                · exact h.loose m hm
                · exact List.mem_singleton.mp hm ▸ hkind
  | flush =>
      cases hp : l.prio with
      | nil => exact passed_exited ⟨h.rel, by simp, h.loose⟩ rfl rfl
      | cons item prio =>
          have hpassed := passed_priority h hp alive
          rw [hpc] at hpassed
          exact hpassed
  | exited => exact passed_same h id rfl

theorem passed_act {a : LinkAct} {out : Option M} (h : Laned p l)
    (hact : l.act a = some (out, l')) : Passed p l l' (out.toList.filter p) := by
  cases a with
  | work alive =>
      obtain ⟨rfl, rfl⟩ := Prod.mk.inj (Option.some.inj hact)
      exact passed_runSendLoop h alive
  | deliver =>
      simp only [Link.act] at hact
      split at hact
      next m wire hw =>
        obtain ⟨rfl, rfl⟩ := Prod.mk.inj (Option.some.inj hact)
        refine ⟨⟨h.rel, h.prio, h.loose⟩, id, [], ?_, fun _ => rfl⟩
        rw [held, held, hw, List.cons_append, List.append_nil]
        exact List.filter_append [m] _
      next => simp at hact
  | deliverLoose k =>
      obtain ⟨m, hm, heq⟩ := Option.map_eq_some_iff.mp hact
      obtain ⟨rfl, rfl⟩ := Prod.mk.inj heq
      have hkind : p m = false := h.loose m (List.mem_of_getElem? hm)
      have hnone : (some m).toList.filter p = [] := by simp [hkind]
      rw [hnone]
      exact passed_same ⟨h.rel, h.prio, fun x hx => h.loose x (List.mem_of_mem_eraseIdx hx)⟩ id rfl
  | lose k =>
      obtain ⟨-, heq⟩ := Option.ite_none_right_eq_some.mp hact
      obtain ⟨rfl, rfl⟩ := Prod.mk.inj (Option.some.inj heq)
      exact passed_same ⟨h.rel, h.prio, fun x hx => h.loose x (List.mem_of_mem_eraseIdx hx)⟩ id rfl
  | close =>
      obtain ⟨rfl, rfl⟩ := Prod.mk.inj (Option.some.inj hact)
      refine passed_same ⟨h.rel, h.prio, h.loose⟩ (fun hrun => ?_) rfl
      simp [Running] at hrun

theorem held_send {m : M} (hm : p m = true) :
    (Running l → held p (l.sendItemTo false ⟨m, true⟩) = held p l ++ [m]) ∧
      (¬ Running l → held p (l.sendItemTo false ⟨m, true⟩) = held p l) := by
  rw [Link.sendItemTo]
  constructor
  · intro hrun
    rw [if_neg (by simp [hrun.1]), if_neg (by simp)]
    simp [held, hrun.2, hm]
  · intro hrun
    split
    · rfl
    next hc =>
      have hpc : l.pc = .exited := by
        by_contra hpc
        exact hrun ⟨by simpa using hc, hpc⟩
      rw [if_neg (by simp)]
      simp [held, hpc]

theorem held_send_other {priority : Bool} {item : SendItem M} (hitem : p item.msg = false) :
    held p (l.sendItemTo priority item) = held p l := by
  rw [Link.sendItemTo]
  split
  · rfl
  · split
    · rfl
    · rw [held, held]
      dsimp only
      split
      · rfl
      · simp [hitem]

theorem running_send (priority : Bool) (item : SendItem M) :
    Running (l.sendItemTo priority item) ↔ Running l := by
  rw [Link.sendItemTo]
  split
  · rfl
  · split <;> rfl

theorem laned_send (h : Laned p l) {priority : Bool} {item : SendItem M}
    (hitem : p item.msg = true → priority = false ∧ item.reliable = true) :
    Laned p (l.sendItemTo priority item) := by
  rw [Link.sendItemTo]
  split
  · exact h
  · split
    next hpriority =>
      refine ⟨h.rel, fun x hx => ?_, h.loose⟩
      rcases List.mem_append.mp hx with hx | hx
      · exact h.prio x hx
      · obtain rfl := List.mem_singleton.mp hx
        by_contra hkind
        simp [hpriority] at hitem
        exact absurd hitem hkind
    next =>
      refine ⟨fun x hx hkind => ?_, h.prio, h.loose⟩
      rcases List.mem_append.mp hx with hx | hx
      · exact h.rel x hx hkind
      · obtain rfl := List.mem_singleton.mp hx
        exact (hitem hkind).2

end Link

section Decoder

variable {α : Type} {d : MuxDecoder α} {f : Frame α} {fs gs : List (Frame α)}
  {P Q : MuxDecoder α → Prop}

/-- Fed in this order every frame is returned at once, and `P` holds of the decoder then. -/
def Passes (P : MuxDecoder α → Prop) : MuxDecoder α → List (Frame α) → Prop
  | d, [] => P d
  | d, f :: fs => (feedFrame d f).1 = [f] ∧ Passes P (feedFrame d f).2 fs

theorem Passes.mono (h : Passes P d fs) (hPQ : ∀ d, P d → Q d) : Passes Q d fs := by
  induction fs generalizing d with
  | nil => exact hPQ d h
  | cons f fs ih => exact ⟨h.1, ih h.2⟩

theorem Passes.initial (h : Passes P d (fs ++ gs)) : Passes (fun _ => True) d fs := by
  induction fs generalizing d with
  | nil => trivial
  | cons f fs ih => exact ⟨h.1, ih h.2⟩

theorem Passes.snoc (h : Passes P d fs)
    (hf : ∀ d, P d → (feedFrame d f).1 = [f] ∧ Q (feedFrame d f).2) :
    Passes Q d (fs ++ [f]) := by
  induction fs generalizing d with
  | nil => exact hf d h
  | cons g fs ih => exact ⟨h.1, ih h.2⟩

theorem Passes.countRx (h : Passes P d fs)
    (hP : ∀ d n, P d → P { d with rxFrames := n }) (n : Nat) : Passes P
      { d with rxFrames := n } fs := by
  induction fs generalizing d with
  | nil => exact hP d n h
  | cons f fs ih =>
      rw [Passes, feedFrame_rxFrames]
      exact ⟨h.1, ih h.2⟩

variable {enc : MuxEncoder} {l l' : Link (Frame α)} {dec : MuxDecoder α} {p : Frame α → Bool}

def Synced (p : Frame α → Bool) (enc : MuxEncoder) (l : Link (Frame α)) (dec : MuxDecoder α) :
    Prop :=
  Passes (fun d => Running l → Aligned enc d) dec (held p l)

theorem Synced.countRx (h : Synced p enc l dec) (n : Nat) :
    Synced p enc l { dec with rxFrames := n } := by
  refine Passes.countRx h (fun d n hd hrun => ?_) n
  have haligned := hd hrun
  exact ⟨haligned.states, haligned.other, haligned.preopen, haligned.stale⟩

theorem Synced.arrive {a : LinkAct} (h : Synced p enc l dec) (ho : Laned p l)
    (hact : l.act a = some (some f, l')) (hf : p f = true) :
    (feedFrame (Decoder.countRx dec) f).1 = [f] ∧
    Synced p enc l' (feedFrame (Decoder.countRx dec) f).2 := by
  obtain ⟨-, hrunning, lost, hheld, hlost⟩ := passed_act ho hact
  have hhead : (some f).toList.filter p = [f] := by simp [hf]
  rw [hhead, List.append_assoc, List.singleton_append] at hheld
  have hcount := h.countRx (dec.rxFrames + 1)
  rw [Synced, hheld] at hcount
  refine ⟨hcount.1, ?_⟩
  by_cases hrun : Running l'
  · have hrest := hcount.2
    rw [hlost hrun, List.append_nil] at hrest
    exact hrest.mono fun d hd hrun' => hd (hrunning hrun')
  · exact hcount.2.initial.mono fun d _ hrun' => absurd hrun' hrun

theorem Synced.other {a : LinkAct} {out : Option (Frame α)} (h : Synced p enc l dec)
    (ho : Laned p l) (hact : l.act a = some (out, l')) (hout : ∀ f, out = some f → p f = false)
    (n : Nat) :
    Synced p enc l' { dec with rxFrames := n } := by
  obtain ⟨-, hrunning, lost, hheld, hlost⟩ := passed_act ho hact
  have hhead : out.toList.filter p = [] := by
    cases out with
    | none => rfl
    | some f => simp [hout f rfl]
  rw [hhead, List.nil_append] at hheld
  have hcount := h.countRx n
  rw [Synced, hheld] at hcount
  by_cases hrun : Running l'
  · rw [hlost hrun, List.append_nil] at hcount
    exact hcount.mono fun d hd hrun' => hd (hrunning hrun')
  · exact hcount.initial.mono fun d _ hrun' => absurd hrun' hrun

theorem Synced.send {c : Call α} (h : Synced p enc l dec) (hflags : c.flags &&& flagDirAccept = 0)
    (hfits : Fits enc c) (hp : p (stamp enc c).1 = true) :
    Synced p (stamp enc c).2 (l.sendItemTo false ⟨(stamp enc c).1, true⟩) dec := by
  have hsend := held_send (l := l) hp
  rw [Synced]
  by_cases hrun : Running l
  · rw [hsend.1 hrun]
    refine Passes.snoc h fun d hd => ?_
    obtain ⟨hout, haligned⟩ := aligned_step (hd hrun) hflags hfits
    exact ⟨hout, fun _ => haligned⟩
  · rw [hsend.2 hrun]
    exact Passes.mono h fun d _ hrun' => absurd ((running_send _ _).mp hrun') hrun

theorem Synced.send_other {c : Call α} {priority reliable : Bool} (h : Synced p enc l dec)
    (hflags : c.flags &&& flagDirAccept = 0) (hc : usesSessionOrder c.ftype = false)
    (hp : p (stamp enc c).1 = false) :
    Synced p (stamp enc c).2 (l.sendItemTo priority ⟨(stamp enc c).1, reliable⟩) dec := by
  rw [Synced, held_send_other hp]
  refine Passes.mono h fun d hd hrun => ?_
  have hfits : Fits enc c := fun hu => absurd hu (by simp [hc])
  have haligned := (aligned_step (hd ((running_send _ _).mp hrun)) hflags hfits).2
  rw [feedFrame_unordered d hc] at haligned
  exact haligned

end Decoder

end SrtVpn.Downlink
