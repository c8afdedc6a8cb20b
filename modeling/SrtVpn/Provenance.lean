import SrtVpn.Ownership
import SrtVpn.ServerTasks

namespace SrtVpn.Provenance

open Tables Wire Encoder Decoder Dispatch Connection Endpoints Ownership ServerTasks

def Brings (P : Tagged → Prop) (f : Msg) : Prop := ∀ p, eventOf f = some (.data p) → P p

theorem eventOf_data {f : Msg} {p : Tagged} (h : eventOf f = some (.data p)) :
    (f.ftype = .data ∨ f.ftype = .datagram) ∧ f.payload = p := by
  rw [eventOf] at h
  cases htype : f.ftype <;> simp [htype] at h
  · exact ⟨Or.inl rfl, h⟩
  · exact ⟨Or.inr rfl, h⟩

/-- The frames of the client have bytes as `P` says, those of the server as `Q` says. -/
structure Carries (P Q : Tagged → Prop) (s : Sys) : Prop where
  up : ∀ f, InUp s f → Brings P f
  down : ∀ f, InDown s f → Brings Q f
  routed : ∀ q ∈ s.routed, Brings Q q.2

section Carries

variable {P Q P' Q' : Tagged → Prop} {s t : Sys} {f : Msg}

theorem carries_start (reliable : Bool) : Carries P Q (start reliable) := by
  refine ⟨?_, ?_, ?_⟩
  · rintro f (hf | hf)
    · simp [start, Link.new, Link.msgs] at hf
    · exact absurd hf (not_holds_new f)
  · rintro f (hf | hf)
    · simp [start, Link.new, Link.msgs] at hf
    · exact absurd hf (not_holds_new f)
  · simp [start]

theorem Carries.mono (h : Carries P Q s) (hP : ∀ p, P p → P' p) (hQ : ∀ p, Q p → Q' p) :
    Carries P' Q' s := by
  refine ⟨?_, ?_, ?_⟩
  · intro f hf p hp
    exact hP p (h.up f hf p hp)
  · intro f hf p hp
    exact hQ p (h.down f hf p hp)
  · intro q hq p hp
    exact hQ p (h.routed q hq p hp)

theorem brings_of_ne {enc : MuxEncoder} {c : Call Tagged} (hdata : c.ftype ≠ .data)
    (hdatagram : c.ftype ≠ .datagram) : Brings P (stamp enc c).1 := by
  intro p hp
  rcases (eventOf_data hp).1 with h | h
  · exact absurd h hdata
  · exact absurd h hdatagram

theorem brings_of_payload {enc : MuxEncoder} {c : Call Tagged} (h : P c.payload) :
    Brings P (stamp enc c).1 := by
  intro p hp
  rw [← (eventOf_data hp).2]
  exact h

theorem Carries.up_act {act : LinkAct} {m : Option Msg} {link : Link Msg} (h : Carries P Q s)
    (hact : s.up.act act = some (m, link)) : Carries P Q { s with up := link } :=
  ⟨fun g hg => h.up g (hg.imp ((mem_msgs_act hact).1 g) id), h.down, h.routed⟩

theorem Carries.down_act {act : LinkAct} {m : Option Msg} {link : Link Msg} (h : Carries P Q s)
    (hact : s.down.act act = some (m, link)) : Carries P Q { s with down := link } :=
  ⟨h.up, fun g hg => h.down g (hg.imp ((mem_msgs_act hact).1 g) id), h.routed⟩

theorem Carries.clientSend (h : Carries P Q s) (priority : Bool) {c : Call Tagged}
    (hc : Brings P (stamp s.clientEnc c).1) : Carries P Q (clientSend s priority c) := by
  refine ⟨?_, h.down, h.routed⟩
  rintro g (hg | hg)
  · rcases mem_msgs_sendItemTo hg with rfl | hg
    · exact hc
    · exact h.up g (.inl hg)
  · exact h.up g (.inr hg)

theorem Carries.serverSend (h : Carries P Q s) (priority : Bool) {c : Call Tagged}
    (hc : Brings Q (stamp s.serverEnc c).1) : Carries P Q (serverSend s priority c) := by
  refine ⟨h.up, ?_, h.routed⟩
  rintro g (hg | hg)
  · rcases mem_msgs_sendItemTo hg with rfl | hg
    · exact hc
    · exact h.down g (.inl hg)
  · exact h.down g (.inr hg)

theorem Carries.dispatchOneFrame (h : Carries P Q s) (f : Msg) :
    Carries P Q (dispatchOneFrame s f) := by
  have hd := dispatched s f
  generalize Endpoints.dispatchOneFrame s f = t at hd ⊢
  cases hd with
  | quiet reg htype => exact ⟨h.up, h.down, h.routed⟩
  | accept reg htype => exact ⟨h.up, h.down, h.routed⟩
  | reset reg htype hroute =>
      apply Carries.serverSend (s := { s with serverReg := reg, answers := _ })
        ⟨h.up, h.down, h.routed⟩
      exact brings_of_ne (by simp) (by simp)
  | refuse reg htype =>
      apply Carries.serverSend (s := { s with serverReg := reg, answers := _ })
        ⟨h.up, h.down, h.routed⟩
      exact brings_of_ne (by simp) (by simp)
  | pong reg htype =>
      apply Carries.serverSend (s := { s with serverReg := reg }) ⟨h.up, h.down, h.routed⟩
      exact brings_of_ne (by simp) (by simp)

theorem Carries.serverRecv (h : Carries P Q s) (hf : Brings P f) :
    Carries P Q (serverRecv s f) := by
  apply serverRecv_induction
  · refine ⟨?_, h.down, h.routed⟩
    rintro g (hg | hg)
    · exact h.up g (.inl hg)
    · rcases holds_feedFrame hg with rfl | hg
      · exact hf
      · exact h.up g (.inr hg)
  · exact fun u hu g _ => hu.dispatchOneFrame g

theorem Carries.clientDispatch (h : Carries P Q s) (hf : Brings Q f) :
    Carries P Q (clientDispatch s f) := by
  refine ⟨h.up, h.down, ?_⟩
  intro q hq
  rcases List.mem_append.mp hq with hq | hq
  · exact h.routed q hq
  · obtain ⟨c, -, rfl⟩ := List.mem_map.mp hq
    exact hf

theorem Carries.clientRecv (h : Carries P Q s) (hf : Brings Q f) :
    Carries P Q (clientRecv s f) := by
  apply clientRecv_induction
  · refine ⟨h.up, ?_, h.routed⟩
    rintro g (hg | hg)
    · exact h.down g (.inl hg)
    · rcases holds_feedFrame hg with rfl | hg
      · exact hf
      · exact h.down g (.inr hg)
  · intro u hu g hg
    apply hu.clientDispatch
    rcases mem_feedFrame hg with rfl | hg
    · exact hf
    · exact h.down g (.inr hg)

theorem Carries.clientAct {a : ClientAct} (h : Carries P Q s) (hact : clientAct s a = some t)
    (hdata : ∀ i payload, a = .data i payload → P (i, payload))
    (hdatagram : ∀ i x payload, a = .datagram i payload → s.instances[i]? = some x → x.udp = true →
      P (i, payload)) :
    Carries P Q t := by
  cases a with
  | allocate udp =>
      rw [Endpoints.clientAct] at hact
      split at hact <;> obtain rfl := Option.some.inj hact <;> exact ⟨h.up, h.down, h.routed⟩
  | «open» i payload =>
      obtain ⟨x, -, hact⟩ := Option.bind_eq_some_iff.mp hact
      obtain ⟨-, rfl⟩ := Option.ite_some_none_eq_some.mp hact
      have hsend : Carries P Q (Endpoints.clientSend s false ⟨.open, x.sid, 0, (i, payload)⟩) :=
        h.clientSend false (brings_of_ne (by simp) (by simp))
      exact ⟨hsend.up, hsend.down, hsend.routed⟩
  | data i payload =>
      obtain ⟨x, -, hact⟩ := Option.bind_eq_some_iff.mp hact
      obtain ⟨-, rfl⟩ := Option.ite_some_none_eq_some.mp hact
      exact h.clientSend false (brings_of_payload (hdata i payload rfl))
  | fin i =>
      obtain ⟨x, -, hact⟩ := Option.bind_eq_some_iff.mp hact
      obtain ⟨-, rfl⟩ := Option.ite_some_none_eq_some.mp hact
      exact h.clientSend false (brings_of_ne (by simp) (by simp))
  | datagram i payload =>
      obtain ⟨x, hx, hact⟩ := Option.bind_eq_some_iff.mp hact
      obtain ⟨⟨-, hudp⟩, rfl⟩ := Option.ite_some_none_eq_some.mp hact
      exact h.clientSend true (brings_of_payload (hdatagram i x payload rfl hx hudp))
  | close i =>
      obtain ⟨x, -, hact⟩ := Option.bind_eq_some_iff.mp hact
      obtain ⟨-, rfl⟩ := Option.ite_some_none_eq_some.mp hact
      have hsend : Carries P Q (Endpoints.clientSend s false ⟨.close, x.sid, 0, (i, [])⟩) :=
        h.clientSend false (brings_of_ne (by simp) (by simp))
      exact ⟨hsend.up, hsend.down, hsend.routed⟩
  | drop i =>
      obtain ⟨x, -, hact⟩ := Option.bind_eq_some_iff.mp hact
      obtain ⟨-, hact⟩ := Option.ite_none_left_eq_some.mp hact
      obtain rfl := Option.some.inj hact
      exact ⟨h.up, h.down, h.routed⟩
  | control priority ftype payload =>
      obtain ⟨hcontrol, rfl⟩ := Option.ite_some_none_eq_some.mp hact
      obtain ⟨hne, hne', -⟩ := isControl_ne hcontrol
      exact h.clientSend priority (brings_of_ne hne hne')

theorem Carries.taskAct {j : Nat} {a : TaskAct} (h : Carries P Q s) (hact : taskAct s j a = some t)
    (hsent : ∀ x payload, s.tasks[j]? = some x → a = .data payload ∨ a = .datagram payload →
      Q (x.owner, payload)) :
    Carries P Q t := by
  obtain ⟨x, hx, hact⟩ := Option.bind_eq_some_iff.mp hact
  cases a with
  | data payload =>
      obtain ⟨-, rfl⟩ := Option.ite_some_none_eq_some.mp hact
      exact h.serverSend _ (brings_of_payload (hsent x payload hx (Or.inl rfl)))
  | fin =>
      obtain ⟨-, rfl⟩ := Option.ite_some_none_eq_some.mp hact
      exact h.serverSend _ (brings_of_ne (by simp) (by simp))
  | datagram payload =>
      obtain ⟨-, rfl⟩ := Option.ite_some_none_eq_some.mp hact
      exact h.serverSend _ (brings_of_payload (hsent x payload hx (Or.inr rfl)))
  | drop session =>
      obtain ⟨-, rfl⟩ := Option.ite_some_none_eq_some.mp hact
      exact ⟨h.up, h.down, h.routed⟩
  | notify =>
      obtain ⟨-, rfl⟩ := Option.ite_some_none_eq_some.mp hact
      have hnotice : Carries P Q (Endpoints.serverSend s false ⟨.close, x.sid, 0, (x.owner, [])⟩) :=
        h.serverSend _ (brings_of_ne (by simp) (by simp))
      exact ⟨hnotice.up, hnotice.down, hnotice.routed⟩
  | cleanup =>
      obtain ⟨-, rfl⟩ := Option.ite_some_none_eq_some.mp hact
      exact ⟨h.up, h.down, h.routed⟩

end Carries

/-- The bytes in a channel of the server are for the instance its task works for, and as `P` says. A
task that has notified does not hold its channel any more. -/
structure Sorted (P : Tagged → Prop) (s : Sys) : Prop where
  housed : Housed s
  silent : ∀ j t, s.tasks[j]? = some t → holdsReceiver s.serverReg j = true → t.notified = false
  contents : ∀ (j : Nat) (t : Task) (ch : Channel Tagged) (p : Tagged), s.tasks[j]? = some t →
    s.serverReg.channels[j]? = some ch → .data p ∈ ch.queue → p.1 = t.owner ∧ P p

section Sorted

variable {P P' : Tagged → Prop} {s t u : Sys} {f : Msg} {ids : List UInt16}

theorem sorted_start (reliable : Bool) : Sorted P (start reliable) :=
  ⟨housed_start reliable, by simp [start], by simp [start]⟩

theorem Sorted.mono (h : Sorted P s) (hP : ∀ p, P p → P' p) : Sorted P' s :=
  ⟨h.housed, h.silent, fun j t ch p ht hch hp => (h.contents j t ch p ht hch hp).imp id (hP p)⟩

theorem Sorted.of_eq (h : Sorted P s) (htasks : u.tasks = s.tasks)
    (hreg : u.serverReg = s.serverReg) : Sorted P u := by
  refine ⟨h.housed.of_eq htasks hreg, ?_, ?_⟩
  · rw [htasks, hreg]
    exact h.silent
  · rw [htasks, hreg]
    exact h.contents

theorem holdsReceiver_of {reg : SessionRegistry Tagged} {j : Nat} {ch : Channel Tagged}
    (h : reg.channels[j]? = some ch) : holdsReceiver reg j = ch.receiver := by
  rw [holdsReceiver, h]
  rfl

theorem Sorted.dispatchOneFrame (h : Sorted P s) (hs : Sent ids s)
    (hf : Speaks f → Latest ids f.sessionId (owner f)) (hb : Brings P f) :
    Sorted P (dispatchOneFrame s f) := by
  have hchannel {j : Nat} {t : Task} (ht : (Endpoints.dispatchOneFrame s f).tasks[j]? = some t) :
      ∃ ch, (Endpoints.dispatchOneFrame s f).serverReg.channels[j]? = some ch := by
    have hlt := (List.getElem?_eq_some_iff.mp ht).1
    rw [(h.housed.dispatchOneFrame f).length] at hlt
    exact ⟨_, List.getElem?_eq_getElem hlt⟩
  by_cases ho : Opens s f
  · refine ⟨h.housed.dispatchOneFrame f, ?_, ?_⟩
    · intro j t ht hholds
      obtain ⟨ch, hch⟩ := hchannel ht
      rcases h.housed.opened_cases ho ht hch with ⟨ht', hch'⟩ | ⟨-, rfl, -⟩
      · apply h.silent j t ht'
        rw [holdsReceiver_of hch']
        exact (holdsReceiver_of hch).symm.trans hholds
      · rfl
    · intro j t ch p ht hch hp
      rcases h.housed.opened_cases ho ht hch with ⟨ht', hch'⟩ | ⟨-, -, rfl⟩
      · exact h.contents j t ch p ht' hch' hp
      · simp [Channel.new] at hp
  · obtain ⟨htasks, hreg⟩ := routed_dispatchOneFrame ho
    refine ⟨h.housed.dispatchOneFrame f, ?_, ?_⟩
    · intro j t ht hholds
      obtain ⟨ch', hch'⟩ := hchannel ht
      rw [holdsReceiver_of hch'] at hholds
      rw [hreg] at hch'
      rw [htasks] at ht
      apply h.silent j t ht
      rcases channel_dispatchFrame hch' with ⟨hch, -⟩ | ⟨e, ch, -, -, hch, hrecv, -⟩
      · rw [holdsReceiver_of hch]
        exact hholds
      · rw [holdsReceiver_of hch]
        exact hrecv
    · intro j t ch' p ht hch' hp
      rw [hreg] at hch'
      rw [htasks] at ht
      rcases channel_dispatchFrame hch' with ⟨hch, -⟩ | ⟨e, ch, he, hfind, hch, hrecv, rfl⟩
      · exact h.contents j t ch' p ht hch hp
      · rcases List.mem_append.mp hp with hp | hp
        · exact h.contents j t ch p ht hch hp
        · obtain rfl := List.mem_singleton.mp hp
          obtain ⟨htype, rfl⟩ := eventOf_data he
          -- the frame and the task that holds the channel both belong to the last instance on the
          -- id
          have hspeaks : Speaks f := htype.imp id Or.inl
          obtain ⟨t', ht', hsid⟩ := h.housed.entries _ _ hfind
          obtain rfl : t = t' := Option.some.inj (ht.symm.trans ht')
          have hnotified := h.silent j t ht ((holdsReceiver_of hch).trans hrecv)
          have htask := hs.tasks t (List.mem_of_getElem? ht) hnotified
          rw [hsid] at htask
          exact ⟨(hf hspeaks).unique htask, hb _ he⟩

theorem Sorted.serverRecv (h : Sorted P s) (hs : Sent ids s) (hup : ∀ g, InUp s g → Brings P g)
    (hf : Speaks f → Latest ids f.sessionId (owner f)) (hb : Brings P f) :
    Sorted P (serverRecv s f) := by
  have hrecv : Sent ids (Endpoints.serverRecv s f) ∧ Sorted P (Endpoints.serverRecv s f) := by
    apply serverRecv_induction (P := fun u => Sent ids u ∧ Sorted P u)
    · refine ⟨⟨?_, hs.tasks, hs.down⟩, h.of_eq rfl rfl⟩
      rintro g (hg | hg) hspeaks
      · exact hs.up g (.inl hg) hspeaks
      · rcases holds_feedFrame hg with rfl | hg
        · exact hf hspeaks
        · exact hs.up g (.inr hg) hspeaks
    · rintro u ⟨hsent, hu⟩ g hg
      obtain ⟨hlatest, hbrings⟩ : (Speaks g → Latest ids g.sessionId (owner g)) ∧ Brings P g := by
        rcases mem_feedFrame hg with rfl | hg
        · exact ⟨hf, hb⟩
        · exact ⟨hs.up g (.inr hg), hup g (.inr hg)⟩
      exact ⟨hsent.dispatchOneFrame hlatest, hu.dispatchOneFrame hsent hlatest hbrings⟩
  exact hrecv.2

theorem Sorted.shed (h : Sorted P s) (hsheds : Sheds s u)
    (hsilent : ∀ j t, u.tasks[j]? = some t → holdsReceiver s.serverReg j = true →
      t.notified = false) : Sorted P u := by
  refine ⟨h.housed.shed hsheds.tasks hsheds.reg, ?_, ?_⟩
  · intro j t ht hholds
    apply hsilent j t ht
    obtain ⟨ch', hch', hrecv⟩ : ∃ ch', u.serverReg.channels[j]? = some ch' ∧
        ch'.receiver = true := by
      rw [holdsReceiver] at hholds
      cases hch : u.serverReg.channels[j]? with
      | none => simp [hch] at hholds
      | some ch' =>
          rw [hch] at hholds
          exact ⟨ch', rfl, hholds⟩
    obtain ⟨ch, hch, -, hr⟩ := hsheds.reg.channels j ch' hch'
    rw [holdsReceiver_of hch]
    exact hr hrecv
  · intro j t ch' p ht hch' hp
    obtain ⟨t', ht', -, howner⟩ := hsheds.tasks.2 j t ht
    obtain ⟨ch, hch, hq, -⟩ := hsheds.reg.channels j ch' hch'
    rw [← howner]
    exact h.contents j t' ch p ht' hch (hq ▸ hp)

theorem Sorted.taskAct {j : Nat} {a : TaskAct} (h : Sorted P s) (hact : taskAct s j a = some t)
    (hlate : a = .notify → holdsReceiver s.serverReg j = false) : Sorted P t := by
  apply h.shed (sheds_taskAct hact)
  obtain ⟨x, hx, hact⟩ := Option.bind_eq_some_iff.mp hact
  have hset {y : Task} (hgone : holdsReceiver s.serverReg j = false) (k : Nat) (z : Task)
      (hz : (s.tasks.set j y)[k]? = some z) (hholds : holdsReceiver s.serverReg k = true) :
        z.notified = false := by
    rw [List.getElem?_set] at hz
    split at hz
    next hk =>
      rw [← hk, hgone] at hholds
      simp at hholds
    next => exact h.silent k z hz hholds
  cases a with
  | data payload | fin | datagram payload | drop session =>
      obtain ⟨-, rfl⟩ := Option.ite_some_none_eq_some.mp hact
      exact h.silent
  | notify =>
      obtain ⟨-, rfl⟩ := Option.ite_some_none_eq_some.mp hact
      exact hset (hlate rfl)
  | cleanup =>
      obtain ⟨⟨hnotified, -⟩, rfl⟩ := Option.ite_some_none_eq_some.mp hact
      apply hset
      by_contra hholds
      have := h.silent j x hx (by simpa using hholds)
      rw [hnotified] at this
      simp at this

end Sorted

/-- What never goes away: what an instance and a task are for, and what has been put into a
channel. -/
structure Grows (s t : Sys) : Prop where
  instances : ∀ (i : Nat) (y : Instance), s.instances[i]? = some y →
    ∃ z, t.instances[i]? = some z ∧ z.udp = y.udp
  tasks : ∀ (j : Nat) (x : Task), s.tasks[j]? = some x →
    ∃ y, t.tasks[j]? = some y ∧ y.owner = x.owner
  routed : s.routed <+: t.routed
  queue : ∀ j, queueOf s.serverReg j <+: queueOf t.serverReg j

section Grows

variable {s t u : Sys}

theorem grows_of_eq (hinst : t.instances = s.instances) (htasks : t.tasks = s.tasks)
    (hrouted : t.routed = s.routed) (hreg : t.serverReg = s.serverReg) : Grows s t := by
  refine ⟨?_, ?_, ?_, ?_⟩
  · intro i y hy
    exact ⟨y, hinst ▸ hy, rfl⟩
  · intro j x hx
    exact ⟨x, htasks ▸ hx, rfl⟩
  · exact prefix_of_eq hrouted
  · intro j
    exact prefix_of_eq (congrArg (queueOf · j) hreg)

theorem Grows.trans (h : Grows s t) (h' : Grows t u) : Grows s u := by
  refine ⟨?_, ?_, h.routed.trans h'.routed, fun j => (h.queue j).trans (h'.queue j)⟩
  · intro i y hy
    obtain ⟨z, hz, hzy⟩ := h.instances i y hy
    obtain ⟨w, hw, hwz⟩ := h'.instances i z hz
    exact ⟨w, hw, hwz.trans hzy⟩
  · intro j x hx
    obtain ⟨y, hy, hyx⟩ := h.tasks j x hx
    obtain ⟨z, hz, hzy⟩ := h'.tasks j y hy
    exact ⟨z, hz, hzy.trans hyx⟩

theorem grows_of_sheds (h : Sheds s t) (hrouted : s.routed <+: t.routed) : Grows s t := by
  refine ⟨?_, ?_, hrouted, fun j => ?_⟩
  · intro i y hy
    exact ⟨y, h.instances ▸ hy, rfl⟩
  · intro j x hx
    have hlt : j < t.tasks.length := by
      rw [h.tasks.1]
      exact (List.getElem?_eq_some_iff.mp hx).1
    obtain ⟨x', hx', -, howner⟩ := h.tasks.2 j _ (List.getElem?_eq_getElem hlt)
    obtain rfl : x = x' := Option.some.inj (hx.symm.trans hx')
    exact ⟨_, List.getElem?_eq_getElem hlt, howner.symm⟩
  · exact prefix_of_eq (h.reg.queueOf j)

theorem grows_dispatchOneFrame (s : Sys) (f : Msg) : Grows s (dispatchOneFrame s f) := by
  have hside := clientSide_dispatchOneFrame s f
  simp only [clientSide, Prod.mk.injEq] at hside
  obtain ⟨-, hinst, hrouted⟩ := hside
  refine ⟨?_, ?_, ?_, queueOf_dispatchOneFrame s f⟩
  · intro i y hy
    exact ⟨y, hinst ▸ hy, rfl⟩
  · intro j x hx
    refine ⟨x, ?_, rfl⟩
    rw [tasks_dispatchOneFrame]
    split
    · rw [List.getElem?_append_left (List.getElem?_eq_some_iff.mp hx).1]
      exact hx
    · exact hx
  · exact prefix_of_eq hrouted

theorem grows_serverRecv (s : Sys) (f : Msg) : Grows s (serverRecv s f) := by
  apply serverRecv_induction (P := Grows s) (grows_of_eq rfl rfl rfl rfl)
  exact fun u hu g _ => hu.trans (grows_dispatchOneFrame u g)

theorem routed_clientRecv (s : Sys) (f : Msg) : s.routed <+: (clientRecv s f).routed := by
  apply clientRecv_induction (P := fun u => s.routed <+: u.routed) (List.prefix_refl _)
  exact fun u hu g _ => hu.trans (List.prefix_append _ _)

theorem grows_setPhase (h : Grows s t) (i : Nat) (p : Phase) : Grows s (setPhase t i p) := by
  refine ⟨?_, h.tasks, h.routed, h.queue⟩
  intro k y hy
  obtain ⟨z, hz, hzy⟩ := h.instances k y hy
  rw [setPhase, List.getElem?_modify, hz]
  refine ⟨_, rfl, ?_⟩
  split <;> exact hzy

theorem grows_clientAct {a : ClientAct} (h : clientAct s a = some t) : Grows s t := by
  cases acted h with
  | allocated udp sid c reg halloc =>
      refine ⟨?_, fun j x hx => ⟨x, hx, rfl⟩, List.prefix_refl _, fun j => List.prefix_refl _⟩
      intro i y hy
      exact ⟨y, by rw [List.getElem?_append_left (List.getElem?_eq_some_iff.mp hy).1]; exact hy, rfl⟩
  | exhausted udp reg halloc => exact grows_of_eq rfl rfl rfl rfl
  | opened a i x payload hx hphase =>
      apply grows_setPhase
      exact grows_of_eq rfl rfl rfl rfl
  | sent a i x ftype payload hx hphase htype => exact grows_of_eq rfl rfl rfl rfl
  | cast a i x payload hx hphase => exact grows_of_eq rfl rfl rfl rfl
  | closed a i x hx hlive =>
      apply grows_setPhase
      exact grows_of_eq rfl rfl rfl rfl
  | dropped a i x hx hlive =>
      apply grows_setPhase
      exact grows_of_eq rfl rfl rfl rfl
  | controlled a priority ftype payload hcontrol => exact grows_of_eq rfl rfl rfl rfl

theorem grows_step {l : Label} (h : step s l = some t) : Grows s t := by
  cases l with
  | client a => exact grows_clientAct h
  | up act =>
      have hlink : ∀ link, Grows s { s with up := link } := fun link => grows_of_eq rfl rfl rfl rfl
      rcases up_cases h with ⟨f, link, -, rfl⟩ | ⟨link, -, rfl⟩
      · exact (hlink link).trans (grows_serverRecv _ f)
      · exact hlink link
  | task j a =>
      apply grows_of_sheds (sheds_taskAct h)
      have hside := clientSide_taskAct h
      simp only [clientSide, Prod.mk.injEq] at hside
      exact prefix_of_eq hside.2.2
  | control priority ftype payload =>
      obtain ⟨-, rfl⟩ := Option.ite_some_none_eq_some.mp h
      exact grows_of_eq rfl rfl rfl rfl
  | down act =>
      rcases down_cases h with ⟨f, link, -, rfl⟩ | ⟨link, -, rfl⟩
      · exact grows_of_sheds (sheds_clientRecv s link f)
          (routed_clientRecv { s with down := link } f)
      · exact grows_of_eq rfl rfl rfl rfl

end Grows

end SrtVpn.Provenance
