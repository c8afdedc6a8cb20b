import SrtVpn.Connection
import SrtVpn.Sync

namespace SrtVpn.Uplink

open Wire Encoder SeqNumbers Decoder Slots SessionView Sync Connection

variable {α : Type}

def pending (l : Link (Frame α)) : List (Frame α) :=
  (l.wire ++ if l.pc = .exited then [] else l.rel.map SendItem.msg).filter fun f =>
    usesSessionOrder f.ftype

def Healthy (l : Link (Frame α)) : Prop := l.closed = false ∧ l.pc ≠ .exited

/-- Everything goes by the reliable channel, and no session frame by the priority queue. -/
structure Ordered (l : Link (Frame α)) : Prop where
  loose : l.loose = []
  rel : ∀ x ∈ l.rel, x.reliable = true
  prio : ∀ x ∈ l.prio, x.reliable = true ∧ usesSessionOrder x.msg.ftype = false

section Work

variable {l : Link (Frame α)}

theorem sendOne_reliable {item : SendItem (Frame α)} (h : item.reliable = true) :
    l.sendOne item = { l with wire := l.wire ++ [item.msg] } := by
  rw [Link.sendOne, if_pos h]

/-- What a turn of the sending thread does to what is pending: nothing, or the thread ends and what
it had not sent is lost. -/
structure Kept (l l' : Link (Frame α)) : Prop where
  ordered : Ordered l'
  healthy : Healthy l' → Healthy l
  pending : ∃ lost, pending l = Uplink.pending l' ++ lost ∧ (Healthy l' → lost = [])

theorem kept_exited {l' : Link (Frame α)} (ho : Ordered l') (hwire : l'.wire = l.wire)
    (hpc : l'.pc = .exited) : Kept l l' := by
  have hn : ¬ Healthy l' := fun h => h.2 hpc
  refine ⟨ho, fun h => absurd h hn, (if l.pc = .exited then [] else l.rel.map SendItem.msg).filter
    fun f => usesSessionOrder f.ftype, ?_, fun h => absurd h hn⟩
  rw [pending, pending, hpc, if_pos rfl, hwire, List.append_nil, List.filter_append]

theorem kept_same {l' : Link (Frame α)} (ho : Ordered l') (hhealthy : Healthy l' → Healthy l)
    (hp : pending l' = pending l) : Kept l l' :=
  ⟨ho, hhealthy, [], by rw [hp, List.append_nil], fun _ => rfl⟩

theorem kept_priority {item : SendItem (Frame α)} {prio : List (SendItem (Frame α))} (h : Ordered l)
    (hp : l.prio = item :: prio) (alive : Bool) :
    Kept l (if alive then Link.sendOne { l with prio := prio }
      item else { l with prio := prio, pc := .exited }) := by
  have hitem := h.prio item (by rw [hp]; exact List.mem_cons_self)
  have hprio : ∀ x ∈ prio, x.reliable = true ∧ usesSessionOrder x.msg.ftype = false := by
    intro x hx
    exact h.prio x (by rw [hp]; exact List.mem_cons_of_mem _ hx)
  cases alive with
  | true =>
      rw [if_pos rfl, sendOne_reliable hitem.1]
      refine kept_same ⟨h.loose, h.rel, hprio⟩ id ?_
      simp [pending, hitem.2]
  | false => exact kept_exited ⟨h.loose, h.rel, hprio⟩ rfl rfl

theorem kept_runSendLoop (h : Ordered l) (alive : Bool) : Kept l (l.runSendLoop alive) := by
  rw [Link.runSendLoop]
  cases hpc : l.pc with
  | drain =>
      cases hp : l.prio with
      | nil =>
          refine kept_same ⟨h.loose, h.rel, by simp⟩ (fun hh => ⟨hh.1, by simp [hpc]⟩) ?_
          simp [pending, hpc]
      | cons item prio =>
          have hkept := kept_priority h hp alive
          rw [hpc] at hkept
          exact hkept
  | wait =>
      cases hr : l.rel with
      | nil =>
          refine kept_same ⟨h.loose, by simp, h.prio⟩ (fun hh => ⟨hh.1, by simp [hpc]⟩) ?_
          cases hc : l.closed <;> simp [pending, hpc, hr]
      | cons item rel =>
          have hitem := h.rel item (by rw [hr]; exact List.mem_cons_self)
          have hrel : ∀ x ∈ rel, x.reliable = true :=
            fun x hx => h.rel x (by rw [hr]; exact List.mem_cons_of_mem _ hx)
          cases alive with
          | true =>
              simp only [if_true]
              rw [sendOne_reliable hitem]
              refine kept_same ⟨h.loose, hrel, h.prio⟩ (fun hh => ⟨hh.1, by simp [hpc]⟩) ?_
              simp [pending, hpc, hr]
          | false => exact kept_exited ⟨h.loose, hrel, h.prio⟩ rfl rfl
  | flush =>
      cases hp : l.prio with
      | nil => exact kept_exited ⟨h.loose, h.rel, by simp⟩ rfl rfl
      | cons item prio =>
          have hkept := kept_priority h hp alive
          rw [hpc] at hkept
          exact hkept
  | exited => exact kept_same h id rfl

theorem pending_act {l' : Link (Frame α)} {a : LinkAct} {out : Option (Frame α)} (h : Ordered l)
    (hact : l.act a = some (out, l')) : Ordered l' ∧ (Healthy l' → Healthy l) ∧
      ∃ lost, pending l = out.toList.filter (fun f => usesSessionOrder f.ftype) ++ pending l' ++
        lost ∧ (Healthy l' → lost = []) := by
  cases a with
  | work alive =>
      obtain ⟨rfl, rfl⟩ := Prod.mk.inj (Option.some.inj hact)
      obtain ⟨ho, hh, hp⟩ := kept_runSendLoop h alive
      exact ⟨ho, hh, by simpa using hp⟩
  | deliver =>
      simp only [Link.act] at hact
      split at hact
      next m wire hw =>
        obtain ⟨rfl, rfl⟩ := Prod.mk.inj (Option.some.inj hact)
        refine ⟨⟨h.loose, h.rel, h.prio⟩, id, [], ?_, fun _ => rfl⟩
        rw [pending, pending, hw, List.cons_append, List.append_nil]
        exact List.filter_append [m] _
      next => simp at hact
  | deliverLoose k =>
      rw [Link.act, h.loose] at hact
      simp at hact
  | lose k =>
      rw [Link.act, h.loose] at hact
      simp at hact
  | close =>
      obtain ⟨rfl, rfl⟩ := Prod.mk.inj (Option.some.inj hact)
      refine ⟨⟨h.loose, h.rel, h.prio⟩,
        fun hh => by simp [Healthy] at hh, [], by simp [pending], fun _ => rfl⟩

theorem ordered_send (h : Ordered l) (priority : Bool) (f : Frame α)
    (hf : priority = true → usesSessionOrder f.ftype = false) :
    Ordered (l.sendItemTo priority ⟨f, true⟩) ∧
    (Healthy (l.sendItemTo priority ⟨f, true⟩) ↔ Healthy l) := by
  rw [Link.sendItemTo]
  cases hc : l.closed with
  | true => exact ⟨h, Iff.rfl⟩
  | false =>
      cases priority with
      | true =>
          refine ⟨⟨h.loose, h.rel, ?_⟩, by simp [Healthy, hc]⟩
          intro x hx
          rcases List.mem_append.mp hx with hx | hx
          · exact h.prio x hx
          · obtain rfl := List.mem_singleton.mp hx
            exact ⟨rfl, hf rfl⟩
      | false =>
          refine ⟨⟨h.loose, ?_, h.prio⟩, by simp [Healthy, hc]⟩
          intro x hx
          rcases List.mem_append.mp hx with hx | hx
          · exact h.rel x hx
          · obtain rfl := List.mem_singleton.mp hx
            rfl

theorem pending_send_other {priority : Bool} {f : Frame α} (hf : usesSessionOrder f.ftype = false) :
    pending (l.sendItemTo priority ⟨f, true⟩) = pending l := by
  rw [Link.sendItemTo]
  split
  · rfl
  · split
    · rfl
    · rw [pending, pending]
      dsimp only
      split
      · rfl
      · simp [hf]

theorem pending_send {f : Frame α} (hf : usesSessionOrder f.ftype = true) (hh : Healthy l) :
    pending (l.sendItemTo false ⟨f, true⟩) = pending l ++ [f] := by
  rw [Link.sendItemTo, if_neg (by simp [hh.1]), if_neg (by simp)]
  simp [pending, hh.2, hf]

theorem pending_send_broken {f : Frame α} (hh : ¬ Healthy l) :
    pending (l.sendItemTo false ⟨f, true⟩) = pending l := by
  rw [Link.sendItemTo]
  split
  · rfl
  next hc =>
    have hpc : l.pc = .exited := by
      by_contra hpc
      exact hh ⟨by simpa using hc, hpc⟩
    simp [pending, hpc]

end Work

section Decoder

/-- Fed in this order, from these slots, every frame is returned at once. -/
def Passes : (UInt16 → Slot α) → List (Frame α) → (UInt16 → Slot α) → Prop
  | d, [], d' => d' = d
  | d, f :: fs, d' =>
      f.dirAcceptor = false ∧ ∃ x, (d f.sessionId).feed f = ([f], x) ∧
        Passes (Function.update d f.sessionId x) fs d'

def openerSlots (d : MuxDecoder α) (sid : UInt16) : Slot α := slotAt d (sid, false)

variable {d d' : UInt16 → Slot α} {f : Frame α}

theorem Passes.snoc {fs : List (Frame α)} {x : Slot α} (h : Passes d fs d')
    (hdir : f.dirAcceptor = false) (hfeed : (d' f.sessionId).feed f = ([f], x)) :
    Passes d (fs ++ [f]) (Function.update d' f.sessionId x) := by
  induction fs generalizing d with
  | nil =>
      obtain rfl : d' = d := h
      exact ⟨hdir, x, hfeed, rfl⟩
  | cons g fs ih =>
      obtain ⟨hg, y, hy, h⟩ := h
      exact ⟨hg, y, hy, ih h⟩

theorem Passes.initial {fs gs : List (Frame α)} (h : Passes d (fs ++ gs) d') :
    ∃ e, Passes d fs e := by
  induction fs generalizing d with
  | nil => exact ⟨d, rfl⟩
  | cons f fs ih =>
      obtain ⟨hf, x, hx, h⟩ := h
      obtain ⟨e, he⟩ := ih h
      exact ⟨e, hf, x, hx, he⟩

/-- The frames under way pass, and lead to where the encoder stands. -/
def Synced (enc : MuxEncoder) (l : Link (Frame α)) (dec : MuxDecoder α) : Prop :=
  ∃ d, Passes (openerSlots dec) (pending l) d ∧
  (Healthy l → ∀ sid, d sid = expected (sidTx enc sid))

theorem synced_start (reliable : Bool) :
    Synced (MuxEncoder.new reliable) (Link.new : Link (Frame α)) MuxDecoder.new := by
  refine ⟨openerSlots MuxDecoder.new, rfl, fun _ sid => ?_⟩
  exact inSync_new reliable sid

variable {enc : MuxEncoder} {l : Link (Frame α)} {dec : MuxDecoder α}

theorem openerSlots_feedFrame {x : Slot α} (hdir : f.dirAcceptor = false)
    (hx : (openerSlots dec f.sessionId).feed f = ([f], x)) : (feedFrame (countRx dec) f).1 = [f] ∧
      openerSlots (feedFrame (countRx dec) f).2 =
        Function.update (openerSlots dec) f.sessionId x := by
  have hkey : f.key = (f.sessionId, false) := Prod.ext rfl hdir
  constructor
  · rw [(feedFrame_eq_slot (countRx dec) f).1, hkey]
    exact congrArg Prod.fst hx
  · funext sid
    by_cases hs : sid = f.sessionId
    · subst hs
      have hfed := slotAt_feedFrame (countRx dec) f
      rw [hkey] at hfed
      rw [Function.update_self, openerSlots, hfed]
      exact congrArg Prod.snd hx
    · rw [Function.update_of_ne hs]
      exact slotAt_feedFrame_ne (countRx dec) f (sid, false) (Ne.symm hs)

theorem Synced.arrive {l' : Link (Frame α)} {a : LinkAct} (h : Synced enc l dec) (ho : Ordered l)
    (hact : l.act a = some (some f, l')) (hf : usesSessionOrder f.ftype = true) :
    (feedFrame (countRx dec) f).1 = [f] ∧ Synced enc l' (feedFrame (countRx dec) f).2 := by
  obtain ⟨d, hpass, hend⟩ := h
  obtain ⟨-, hhealthy, lost, hpend, hlost⟩ := pending_act ho hact
  have hhead : (some f).toList.filter (fun f : Frame α => usesSessionOrder f.ftype) = [f] := by
    simp [hf]
  rw [hpend, hhead, List.append_assoc, List.singleton_append] at hpass
  obtain ⟨hdir, x, hx, hpass⟩ := hpass
  obtain ⟨hout, hslots⟩ := openerSlots_feedFrame hdir hx
  refine ⟨hout, ?_⟩
  by_cases hh : Healthy l'
  · rw [hlost hh, List.append_nil] at hpass
    exact ⟨d, hslots ▸ hpass, fun _ => hend (hhealthy hh)⟩
  · obtain ⟨e, he⟩ := hpass.initial
    exact ⟨e, hslots ▸ he, fun h => absurd h hh⟩

theorem Synced.other {l' : Link (Frame α)} {a : LinkAct} {out : Option (Frame α)}
    (h : Synced enc l dec) (ho : Ordered l) (hact : l.act a = some (out, l'))
    (hout : ∀ f, out = some f → usesSessionOrder f.ftype = false) : Synced enc l' dec := by
  obtain ⟨d, hpass, hend⟩ := h
  obtain ⟨-, hhealthy, lost, hpend, hlost⟩ := pending_act ho hact
  have hhead : out.toList.filter (fun f : Frame α => usesSessionOrder f.ftype) = [] := by
    cases out with
    | none => rfl
    | some f => simp [hout f rfl]
  rw [hpend, hhead, List.nil_append] at hpass
  by_cases hh : Healthy l'
  · rw [hlost hh, List.append_nil] at hpass
    exact ⟨d, hpass, fun _ => hend (hhealthy hh)⟩
  · obtain ⟨e, he⟩ := hpass.initial
    exact ⟨e, he, fun h => absurd h hh⟩

theorem Synced.send {c : Call α} (h : Synced enc l dec) (ho : Ordered l)
    (hc : usesSessionOrder c.ftype = true) (hdir : (stamp enc c).1.dirAcceptor = false)
    (hz : (stamp enc c).1.sseq = 0 → c.ftype = .open) :
    Synced (stamp enc c).2 (l.sendItemTo false ⟨(stamp enc c).1, true⟩) dec := by
  obtain ⟨d, hpass, hend⟩ := h
  have hiff := (ordered_send ho false (stamp enc c).1 (by simp)).2
  by_cases hh : Healthy l
  · have hfeed := expected_feed hc hz
    rw [← hend hh c.sessionId] at hfeed
    refine ⟨Function.update d c.sessionId (expected (sidTx (stamp enc c).2 c.sessionId)), ?_,
      fun _ sid => ?_⟩
    · rw [pending_send hc hh]
      exact hpass.snoc hdir hfeed
    · by_cases hs : sid = c.sessionId
      · rw [hs, Function.update_self]
      · rw [Function.update_of_ne hs, hend hh, sidTx_stamp,
          if_neg (by simp [Call.ofSession, Ne.symm hs])]
  · refine ⟨d, ?_, fun h => absurd (hiff.mp h) hh⟩
    rw [pending_send_broken hh]
    exact hpass

theorem Synced.send_other {c : Call α} {priority : Bool} (h : Synced enc l dec) (ho : Ordered l)
    (hc : usesSessionOrder c.ftype = false) :
    Synced (stamp enc c).2 (l.sendItemTo priority ⟨(stamp enc c).1, true⟩) dec := by
  obtain ⟨d, hpass, hend⟩ := h
  have hiff := (ordered_send ho priority (stamp enc c).1 (fun _ => hc)).2
  refine ⟨d, ?_, fun hh sid => ?_⟩
  · rw [pending_send_other hc]
    exact hpass
  · rw [hend (hiff.mp hh), sidTx_stamp, if_neg (by simp [Call.ofSession, hc])]

end Decoder

end SrtVpn.Uplink
