import SrtVpn.Endpoints
import SrtVpn.Runs

namespace SrtVpn.Ownership

open BigEndian (Bytes)
open Tables Wire Encoder Decoder Dispatch Connection Endpoints Runs

/-- Every frame in a channel of the client was sent on behalf of the instance that owns the
channel. -/
def Delivered (s : Sys) : Prop := ∀ p ∈ s.routed, owner p.2 = p.1

def Lands (f : Msg) : Prop := (eventOf f).isSome = true

def InUp (s : Sys) (f : Msg) : Prop := f ∈ s.up.msgs ∨ Holds s.serverDec f

def InDown (s : Sys) (f : Msg) : Prop := f ∈ s.down.msgs ∨ Holds s.clientDec f

/-- Nothing of an earlier session is left on an id: nothing the server would still answer, no task
that may still send, nothing under way to the client. -/
structure Quiet (s : Sys) (sid : UInt16) : Prop where
  up : ∀ f, InUp s f → Speaks f → f.sessionId ≠ sid
  tasks : ∀ t ∈ s.tasks, t.notified = false → t.sid ≠ sid
  down : ∀ f, InDown s f → Lands f → f.sessionId ≠ sid

/-- The client gives out an id only after all of its earlier sessions has passed. -/
def Patient (s : Sys) : Label → Prop
  | .client (.allocate _) => ∀ sid c reg, s.clientReg.allocate = (some (sid, c), reg) → Quiet s sid
  | _ => True

section Latest

variable {ids : List UInt16} {sid sid' : UInt16} {i j : Nat}

def Latest (ids : List UInt16) (sid : UInt16) (i : Nat) : Prop :=
  ids[i]? = some sid ∧ ∀ j, i < j → ids[j]? ≠ some sid

theorem Latest.unique (hi : Latest ids sid i) (hj : Latest ids sid j) : i = j := by
  rcases Nat.lt_trichotomy i j with h | h | h
  · exact absurd hj.1 (hi.2 j h)
  · exact h
  · exact absurd hi.1 (hj.2 i h)

theorem Latest.append (h : Latest ids sid i) (hne : sid ≠ sid') : Latest (ids ++ [sid']) sid i := by
  have hlt : i < ids.length := (List.getElem?_eq_some_iff.mp h.1).1
  refine ⟨by rw [List.getElem?_append_left hlt]; exact h.1, fun j hij hj => ?_⟩
  rw [List.getElem?_append] at hj
  split at hj
  · exact h.2 j hij hj
  · exact hne (List.mem_singleton.mp (List.mem_of_getElem? hj))

theorem latest_append (ids : List UInt16) (sid : UInt16) :
    Latest (ids ++ [sid]) sid ids.length := by
  refine ⟨by simp, fun j hj hmem => ?_⟩
  rw [List.getElem?_eq_none (by simp; omega)] at hmem
  simp at hmem

end Latest

def sids (s : Sys) : List UInt16 := s.instances.map Instance.sid

/-- Whatever is under way, and every task that may still send, belongs to the last instance on its
id. -/
structure Sent (ids : List UInt16) (s : Sys) : Prop where
  up : ∀ f, InUp s f → Speaks f → Latest ids f.sessionId (owner f)
  tasks : ∀ t ∈ s.tasks, t.notified = false → Latest ids t.sid t.owner
  down : ∀ f, InDown s f → Lands f → Latest ids f.sessionId (owner f)

structure Owned (s : Sys) : Prop where
  channels : s.clientReg.channels.length = s.instances.length
  registered : ∀ sid c, find s.clientReg.sessions sid = some c → Latest (sids s) sid c
  live : ∀ i x, s.instances[i]? = some x → x.phase ≠ .dropped →
    find s.clientReg.sessions x.sid = some i
  sent : Sent (sids s) s
  delivered : Delivered s

theorem not_inUp_start (reliable : Bool) (f : Msg) : ¬ InUp (start reliable) f := by
  rintro (hf | hf)
  · simp [start, Link.new, Link.msgs] at hf
  · exact not_holds_new f hf

theorem not_inDown_start (reliable : Bool) (f : Msg) : ¬ InDown (start reliable) f := by
  rintro (hf | hf)
  · simp [start, Link.new, Link.msgs] at hf
  · exact not_holds_new f hf

theorem owned_start (reliable : Bool) : Owned (start reliable) := by
  refine ⟨rfl, ?_, ?_, ⟨?_, ?_, ?_⟩, ?_⟩
  · simp [start, SessionRegistry.new]
  · simp [start]
  · intro f hf
    exact absurd hf (not_inUp_start reliable f)
  · simp [start]
  · intro f hf
    exact absurd hf (not_inDown_start reliable f)
  · simp [Delivered, start]

section Flow

variable {ids : List UInt16} {s t : Sys} {f : Msg}

theorem Sent.clientSend (h : Sent ids s) (priority : Bool) (c : Call Tagged)
    (hc : Speaks (stamp s.clientEnc c).1 → Latest ids c.sessionId c.payload.1) :
    Sent ids (clientSend s priority c) := by
  refine ⟨?_, h.tasks, h.down⟩
  rintro g (hg | hg) hspeaks
  · rcases mem_msgs_sendItemTo hg with rfl | hg
    · exact hc hspeaks
    · exact h.up g (.inl hg) hspeaks
  · exact h.up g (.inr hg) hspeaks

theorem Sent.serverSend (h : Sent ids s) (priority : Bool) (c : Call Tagged)
    (hc : Lands (stamp s.serverEnc c).1 → Latest ids c.sessionId c.payload.1) :
    Sent ids (serverSend s priority c) := by
  refine ⟨h.up, h.tasks, ?_⟩
  rintro g (hg | hg) hlands
  · rcases mem_msgs_sendItemTo hg with rfl | hg
    · exact hc hlands
    · exact h.down g (.inl hg) hlands
  · exact h.down g (.inr hg) hlands

theorem Sent.serverReg (h : Sent ids s) (reg : SessionRegistry Tagged) :
    Sent ids { s with serverReg := reg } :=
  ⟨h.up, h.tasks, h.down⟩

theorem Sent.setTask (h : Sent ids s) (j : Nat) {x : Task} (hx : x.notified = true) :
    Sent ids (setTask s j x) := by
  refine ⟨h.up, fun y hy hnotified => ?_, h.down⟩
  rcases List.mem_or_eq_of_mem_set hy with hy | rfl
  · exact h.tasks y hy hnotified
  · simp [hx] at hnotified

theorem not_lands_control {ftype : FrameType} (h : isControl ftype = true) {enc : MuxEncoder}
    {sid : UInt16} {flags : UInt8} {payload : Tagged} :
    ¬ Lands (stamp enc ⟨ftype, sid, flags, payload⟩).1 := by
  cases ftype <;> simp_all [isControl, Lands, eventOf, stamp]

def clientSide (s : Sys) : SessionRegistry Tagged × List Instance × List (Nat × Msg) :=
  (s.clientReg, s.instances, s.routed)

theorem clientSide_dispatchOneFrame (s : Sys) (f : Msg) :
    clientSide (dispatchOneFrame s f) = clientSide s := by
  have h := dispatched s f
  generalize dispatchOneFrame s f = t at h ⊢
  cases h <;> rfl

theorem clientSide_serverRecv (s : Sys) (f : Msg) : clientSide (serverRecv s f) = clientSide s := by
  apply serverRecv_induction (P := fun u => clientSide u = clientSide s) rfl
  exact fun u hu g _ => (clientSide_dispatchOneFrame u g).trans hu

theorem clientSide_taskAct {j : Nat} {a : TaskAct} (h : taskAct s j a = some t) :
    clientSide t = clientSide s := by
  obtain ⟨x, -, ⟨-, priority, c, -, -, rfl⟩ | ⟨reg, rfl⟩ | ⟨-, rfl⟩ | ⟨-, reg, rfl⟩⟩ :=
    taskAct_cases h <;> rfl

theorem Sent.dispatchOneFrame (h : Sent ids s) (hf : Speaks f → Latest ids f.sessionId (owner f)) :
    Sent ids (dispatchOneFrame s f) := by
  have hd := dispatched s f
  generalize Endpoints.dispatchOneFrame s f = t at hd ⊢
  cases hd with
  | quiet reg htype => exact h.serverReg reg
  | reset reg htype hroute =>
      have hlatest := hf (htype.elim .inl fun h => .inr (.inl h))
      exact Sent.serverSend (s := { s with serverReg := reg, answers := _ })
        ⟨h.up, h.tasks, h.down⟩ _ _ fun _ => hlatest
  | accept reg htype =>
      refine ⟨h.up, fun x hx hnotified => ?_, h.down⟩
      rcases List.mem_append.mp hx with hx | hx
      · exact h.tasks x hx hnotified
      · exact List.mem_singleton.mp hx ▸ hf (.inr (.inr htype))
  | refuse reg htype =>
      have hlatest := hf (.inr (.inr htype))
      exact Sent.serverSend (s := { s with serverReg := reg, answers := _ })
        ⟨h.up, h.tasks, h.down⟩ _ _ fun _ => hlatest
  | pong reg htype => exact (h.serverReg reg).serverSend _ _ fun hl => absurd hl (not_lands_control rfl)

theorem Sent.serverRecv (h : Sent ids s) (hf : Speaks f → Latest ids f.sessionId (owner f)) :
    Sent ids (serverRecv s f) := by
  apply serverRecv_induction
  · refine ⟨?_, h.tasks, h.down⟩
    rintro g (hg | hg) hspeaks
    · exact h.up g (.inl hg) hspeaks
    · rcases holds_feedFrame hg with rfl | hg
      · exact hf hspeaks
      · exact h.up g (.inr hg) hspeaks
  · intro u hu g hg
    apply hu.dispatchOneFrame
    rcases mem_feedFrame hg with rfl | hg
    · exact hf
    · exact h.up g (.inr hg)

theorem Sent.up_act {a : LinkAct} {m : Option Msg} {link : Link Msg} (h : Sent ids s)
    (hact : s.up.act a = some (m, link)) : Sent ids { s with up := link } :=
  ⟨fun g hg => h.up g (hg.imp ((mem_msgs_act hact).1 g) id), h.tasks, h.down⟩

theorem Sent.taskAct {j : Nat} {a : TaskAct} (h : Sent ids s) (hact : taskAct s j a = some t) :
    Sent ids t := by
  obtain ⟨x, hx, hcases⟩ := taskAct_cases hact
  have hmem : x ∈ s.tasks := List.mem_of_getElem? hx
  rcases hcases with ⟨hnotified, priority, c, hsid, howner, rfl⟩ | ⟨reg, rfl⟩ | ⟨hnotified, rfl⟩ |
      ⟨hnotified, reg, rfl⟩
  · exact h.serverSend priority c fun _ => hsid ▸ howner ▸ h.tasks x hmem hnotified
  · exact h.serverReg reg
  · exact (h.serverSend false _ fun _ => h.tasks x hmem hnotified).setTask j rfl
  · exact (h.serverReg reg).setTask j hnotified

end Flow

section Client

variable {s t : Sys} {f : Msg} {i : Nat} {x : Instance}

theorem Owned.of_clientSide (h : Owned s) (heq : clientSide t = clientSide s)
    (hsent : Sent (sids s) t) : Owned t := by
  simp only [clientSide, Prod.mk.injEq] at heq
  obtain ⟨hreg, hinst, hrouted⟩ := heq
  have hsids : sids t = sids s := by rw [sids, sids, hinst]
  refine ⟨by rw [hreg, hinst]; exact h.channels, ?_, ?_, hsids ▸ hsent, ?_⟩
  · rw [hreg, hsids]
    exact h.registered
  · rw [hreg, hinst]
    exact h.live
  · rw [Delivered, hrouted]
    exact h.delivered

theorem Owned.latest (h : Owned s) (hx : s.instances[i]? = some x) (hphase : x.phase ≠ .dropped) :
    Latest (sids s) x.sid i :=
  h.registered x.sid i (h.live i x hx hphase)

theorem Owned.clientSend (h : Owned s) (hx : s.instances[i]? = some x) (hphase : x.phase ≠ .dropped)
    (priority : Bool) (ftype : FrameType) (payload : BigEndian.Bytes) :
    Owned (clientSend s priority ⟨ftype, x.sid, 0, (i, payload)⟩) :=
  h.of_clientSide rfl (h.sent.clientSend priority _ fun _ => h.latest hx hphase)

@[simp] theorem sids_setPhase (s : Sys) (i : Nat) (p : Phase) : sids (setPhase s i p) = sids s := by
  apply List.ext_getElem?
  intro j
  simp only [sids, setPhase, List.getElem?_map, List.getElem?_modify]
  cases s.instances[j]? with
  | none => rfl
  | some x => by_cases hij : i = j <;> simp [hij]

theorem getElem?_setPhase {j : Nat} {p : Phase} {y : Instance}
    (hy : (setPhase s i p).instances[j]? = some y) :
    (i = j ∧ y.phase = p ∧ ∃ x, s.instances[j]? = some x ∧ x.sid = y.sid) ∨
    (i ≠ j ∧ s.instances[j]? = some y) := by
  simp only [setPhase, List.getElem?_modify] at hy
  obtain ⟨x, hx, rfl⟩ := Option.map_eq_some_iff.mp hy
  by_cases hij : i = j
  · simp only [hij, if_true]
    exact .inl ⟨trivial, trivial, x, hx, rfl⟩
  · simp only [hij, if_false]
    exact .inr ⟨hij, hx⟩

theorem Owned.setPhase (h : Owned s) (hx : s.instances[i]? = some x) (hphase : x.phase ≠ .dropped)
    (p : Phase) : Owned (setPhase s i p) := by
  refine ⟨?_, ?_, fun j y hy hlive => ?_, ?_, h.delivered⟩
  · simpa [Endpoints.setPhase] using h.channels
  · rw [sids_setPhase]
    exact h.registered
  · rcases getElem?_setPhase hy with ⟨rfl, -, z, hz, hsid⟩ | ⟨-, hy⟩
    · obtain rfl := Option.some.inj (hx.symm.trans hz)
      exact hsid ▸ h.live i x hx hphase
    · exact h.live j y hy hlive
  · rw [sids_setPhase]
    exact ⟨h.sent.up, h.sent.tasks, h.sent.down⟩

theorem Owned.drop (h : Owned s) (hx : s.instances[i]? = some x) (hphase : x.phase ≠ .dropped) :
    Owned (Endpoints.setPhase { s with clientReg := dropReceiver (s.clientReg.remove x.sid) i }
      i .dropped) := by
  have hmine := h.live i x hx hphase
  refine ⟨?_, ?_, fun j y hy hlive => ?_, ?_, h.delivered⟩
  · simpa [Endpoints.setPhase, dropReceiver] using h.channels
  · intro sid c hc
    rw [sids_setPhase]
    simp only [Endpoints.setPhase, dropReceiver, SessionRegistry.find_remove] at hc
    split at hc
    · simp at hc
    · exact h.registered sid c hc
  · rcases getElem?_setPhase hy with ⟨rfl, hdropped, -⟩ | ⟨hij, hy⟩
    · exact absurd hdropped hlive
    · have hother := h.live j y hy hlive
      have hne : y.sid ≠ x.sid := fun heq => hij (Option.some.inj (hmine.symm.trans (heq ▸ hother)))
      simp only [Endpoints.setPhase, dropReceiver, SessionRegistry.find_remove, if_neg hne]
      exact hother
  · rw [sids_setPhase]
    exact ⟨h.sent.up, h.sent.tasks, h.sent.down⟩

theorem Owned.allocate {sid : UInt16} {c : Nat} {reg : SessionRegistry Tagged} (h : Owned s)
    (halloc : s.clientReg.allocate = (some (sid, c), reg)) (hquiet : Quiet s sid) (udp : Bool) :
    Owned { s with clientReg := reg, instances := s.instances ++ [⟨sid, udp, .allocated⟩] } := by
  obtain ⟨hfree, hsessions, hchannels⟩ := SessionRegistry.allocate_eq_some halloc
  have hsids :
      sids { s with clientReg := reg, instances := s.instances ++ [⟨sid, udp, .allocated⟩] } =
      sids s ++ [sid] := by
    simp [sids]
  have hlength : (sids s).length = s.clientReg.channels.length := by
    rw [sids, List.length_map, h.channels]
  refine ⟨by simp [hchannels, h.channels], fun id k hk => ?_, fun j y hy hlive => ?_, ⟨?_, ?_, ?_⟩, h.delivered⟩
  · rw [hsids]
    rw [hsessions, find_insert] at hk
    split at hk
    next heq =>
      rw [heq, ← Option.some.inj hk, ← hlength]
      exact latest_append (sids s) sid
    next hne => exact (h.registered id k hk).append hne
  · rw [hsessions, find_insert]
    rw [List.getElem?_append] at hy
    split at hy
    next =>
      have hmine := h.live j y hy hlive
      have hne : y.sid ≠ sid := fun heq => by simp [← heq, hmine] at hfree
      rw [if_neg hne]
      exact hmine
    next hj =>
      have hlt := (List.getElem?_eq_some_iff.mp hy).1
      have hj' : j = s.instances.length := by
        simp only [List.length_singleton] at hlt
        omega
      obtain rfl := List.mem_singleton.mp (List.mem_of_getElem? hy)
      rw [if_pos rfl, h.channels, hj']
  · intro g hg hspeaks
    rw [hsids]
    exact (h.sent.up g hg hspeaks).append (hquiet.up g hg hspeaks)
  · intro y hy hnotified
    rw [hsids]
    exact (h.sent.tasks y hy hnotified).append (hquiet.tasks y hy hnotified)
  · intro g hg hlands
    rw [hsids]
    exact (h.sent.down g hg hlands).append (hquiet.down g hg hlands)

theorem Owned.clientAct {a : ClientAct} (h : Owned s) (hok : Patient s (.client a))
    (hact : clientAct s a = some t) : Owned t := by
  cases acted hact with
  | allocated udp sid c reg halloc => exact h.allocate halloc (hok sid c reg halloc) udp
  | exhausted udp reg halloc =>
      obtain ⟨hsessions, hchannels⟩ := SessionRegistry.allocate_eq_none halloc
      exact ⟨by rw [hchannels]; exact h.channels, by rw [hsessions]; exact h.registered,
        by rw [hsessions]; exact h.live, ⟨h.sent.up, h.sent.tasks, h.sent.down⟩, h.delivered⟩
  | opened a i x payload hx hphase =>
      have hlive : x.phase ≠ .dropped := by simp [hphase]
      exact (h.clientSend hx hlive false .open payload).setPhase hx hlive .opened
  | sent a i x ftype payload hx hphase htype =>
      exact h.clientSend hx (by simp [hphase]) false ftype payload
  | cast a i x payload hx hphase => exact h.clientSend hx (by simp [hphase]) true .datagram payload
  | closed a i x hx hlive => exact (h.clientSend hx hlive false .close []).setPhase hx hlive .closed
  | dropped a i x hx hlive => exact h.drop hx hlive
  | controlled a priority ftype payload hcontrol =>
      obtain ⟨hdata, hdatagram, hopen⟩ := isControl_ne hcontrol
      refine h.of_clientSide rfl (h.sent.clientSend priority _ fun hspeaks => ?_)
      exact absurd hspeaks (not_or.mpr ⟨hdata, not_or.mpr ⟨hdatagram, hopen⟩⟩)

end Client

section Downlink

variable {s t : Sys} {f : Msg}

theorem landing_eq_some {reg : SessionRegistry Tagged} {c : Nat} (h : landing reg f = some c) :
    ∃ e, eventOf f = some e ∧ (reg.route f.sessionId e).1 = true ∧
    find reg.sessions f.sessionId = some c := by
  obtain ⟨e, he, h⟩ := Option.bind_eq_some_iff.mp h
  split at h
  next hroute => exact ⟨e, he, hroute, h⟩
  next => simp at h

theorem Owned.clientDispatch (h : Owned s) (hf : Lands f → Latest (sids s) f.sessionId (owner f)) :
    Owned (clientDispatch s f) := by
  have hsessions : (dispatchFrame f s.clientReg).2.sessions = s.clientReg.sessions := by
    rw [dispatchFrame_registry]
    split <;> simp
  have hlength : (dispatchFrame f s.clientReg).2.channels.length = s.clientReg.channels.length := by
    rw [dispatchFrame_registry]
    split <;> simp
  refine ⟨hlength.trans h.channels, ?_, ?_, ⟨h.sent.up, h.sent.tasks, h.sent.down⟩, fun p hp => ?_⟩
  · simp only [Endpoints.clientDispatch, hsessions]
    exact h.registered
  · simp only [Endpoints.clientDispatch, hsessions]
    exact h.live
  · rcases List.mem_append.mp hp with hp | hp
    · exact h.delivered p hp
    · obtain ⟨c, hc, rfl⟩ := List.mem_map.mp hp
      obtain ⟨e, he, -, hfind⟩ := landing_eq_some (Option.mem_toList.mp hc)
      exact (hf (by simp [Lands, he])).unique (h.registered _ _ hfind)

theorem Owned.clientRecv (h : Owned s) (hf : Lands f → Latest (sids s) f.sessionId (owner f)) :
    Owned (clientRecv s f) := by
  have hrecv : sids (Endpoints.clientRecv s f) = sids s ∧ Owned (Endpoints.clientRecv s f) := by
    apply clientRecv_induction (P := fun u => sids u = sids s ∧ Owned u)
    · refine ⟨rfl, h.of_clientSide rfl ⟨h.sent.up, h.sent.tasks, ?_⟩⟩
      rintro g (hg | hg) hlands
      · exact h.sent.down g (.inl hg) hlands
      · rcases holds_feedFrame hg with rfl | hg
        · exact hf hlands
        · exact h.sent.down g (.inr hg) hlands
    · rintro u ⟨hids, hu⟩ g hg
      refine ⟨hids, hu.clientDispatch ?_⟩
      rw [hids]
      rcases mem_feedFrame hg with rfl | hg
      · exact hf
      · exact h.sent.down g (.inr hg)
  exact hrecv.2

theorem Owned.down_act {a : LinkAct} {m : Option Msg} {link : Link Msg} (h : Owned s)
    (hact : s.down.act a = some (m, link)) : Owned { s with down := link } :=
  h.of_clientSide rfl ⟨h.sent.up, h.sent.tasks,
    fun g hg => h.sent.down g (hg.imp ((mem_msgs_act hact).1 g) id)⟩

theorem Owned.step {l : Label} (h : Owned s) (hok : Patient s l) (hstep : step s l = some t) :
    Owned t := by
  cases l with
  | client a => exact h.clientAct hok hstep
  | up a =>
      rcases up_cases hstep with ⟨f, link, hact, rfl⟩ | ⟨link, hact, rfl⟩
      · refine h.of_clientSide (clientSide_serverRecv _ f) ((h.sent.up_act hact).serverRecv ?_)
        exact h.sent.up f (.inl ((mem_msgs_act hact).2 f rfl))
      · exact h.of_clientSide rfl (h.sent.up_act hact)
  | task j a => exact h.of_clientSide (clientSide_taskAct hstep) (h.sent.taskAct hstep)
  | control priority ftype payload =>
      obtain ⟨hcontrol, rfl⟩ := Option.ite_some_none_eq_some.mp hstep
      exact h.of_clientSide rfl
        (h.sent.serverSend priority _ fun hl => absurd hl (not_lands_control hcontrol))
  | down a =>
      rcases down_cases hstep with ⟨f, link, hact, rfl⟩ | ⟨link, hact, rfl⟩
      · exact (h.down_act hact).clientRecv (h.sent.down f (.inl ((mem_msgs_act hact).2 f rfl)))
      · exact h.down_act hact

end Downlink

section Record

variable {s t : Sys}

def eventsFor (routed : List (Nat × Msg)) (c : Nat) : List (SessionEvent Tagged) :=
  routed.filterMap fun p => if p.1 = c then eventOf p.2 else none

structure Recorded (s : Sys) : Prop where
  known : ∀ p ∈ s.routed, p.1 < s.clientReg.channels.length
  queue : ∀ c ch, s.clientReg.channels[c]? = some ch → ch.queue = eventsFor s.routed c

theorem eventsFor_unknown {routed : List (Nat × Msg)} {c : Nat} (h : ∀ p ∈ routed, p.1 ≠ c) :
    eventsFor routed c = [] := by
  rw [eventsFor, List.filterMap_eq_nil_iff]
  intro p hp
  rw [if_neg (h p hp)]

theorem Recorded.of_channels (h : Recorded s) (hrouted : t.routed = s.routed)
    (f : Channel Tagged → Channel Tagged) (hf : ∀ ch, (f ch).queue = ch.queue) (c : Nat)
    (hchannels : t.clientReg.channels = s.clientReg.channels.modify c f) :
    Recorded t := by
  refine ⟨by rw [hrouted, hchannels, List.length_modify]; exact h.known, fun k ch hk => ?_⟩
  rw [hchannels, List.getElem?_modify] at hk
  obtain ⟨ch', hch', rfl⟩ := Option.map_eq_some_iff.mp hk
  rw [hrouted, ← h.queue k ch' hch']
  split
  · exact hf ch'
  · rfl

theorem Recorded.of_eq (h : Recorded s) (hrouted : t.routed = s.routed)
    (hchannels : t.clientReg.channels = s.clientReg.channels) : Recorded t :=
  ⟨by rw [hrouted, hchannels]; exact h.known, by rw [hrouted, hchannels]; exact h.queue⟩

theorem Recorded.of_clientSide (h : Recorded s) (heq : clientSide t = clientSide s) : Recorded t :=
  h.of_eq (congrArg (fun p => p.2.2) heq) (congrArg (fun p => p.1.channels) heq)

theorem eventsFor_append {routed : List (Nat × Msg)} {c k : Nat} {f : Msg} {e : SessionEvent Tagged}
    (he : eventOf f = some e) :
    eventsFor (routed ++ [(c, f)]) k = eventsFor routed k ++ if c = k then [e] else [] := by
  rw [eventsFor, List.filterMap_append, ← eventsFor]
  by_cases hck : c = k <;> simp [hck, he]

theorem landing_some {f : Msg} {e : SessionEvent Tagged} (he : eventOf f = some e)
    (reg : SessionRegistry Tagged) :
    landing reg f = if (reg.route f.sessionId e).1 then find reg.sessions
      f.sessionId else none := by
  simp only [landing, he, Option.bind_eq_bind, Option.bind_some]

theorem Recorded.clientDispatch (h : Recorded s) (f : Msg) : Recorded (clientDispatch s f) := by
  cases he : eventOf f with
  | none =>
      refine h.of_eq ?_ ?_
      · simp [Endpoints.clientDispatch, landing, he]
      · simp [Endpoints.clientDispatch, dispatchFrame_registry, he]
  | some e =>
      have hreg : (Endpoints.clientDispatch s f).clientReg =
          (s.clientReg.route f.sessionId e).2 := by
        simp [Endpoints.clientDispatch, dispatchFrame_registry, he]
      have hland := landing_some he s.clientReg
      rcases s.clientReg.route_cases f.sessionId e with ⟨hroute, hchannels⟩ |
          ⟨c, ch, hfind, hch, hroute, hchannels⟩
      · refine h.of_eq ?_ (by rw [hreg, hchannels])
        rw [hroute, if_neg (by simp)] at hland
        simp [Endpoints.clientDispatch, hland]
      · have hlt := (List.getElem?_eq_some_iff.mp hch).1
        rw [hroute, if_pos rfl, hfind] at hland
        have hrouted : (Endpoints.clientDispatch s f).routed = s.routed ++ [(c, f)] := by
          simp [Endpoints.clientDispatch, hland]
        refine ⟨fun p hp => ?_, fun k ch' hk => ?_⟩
        · rw [hreg, hchannels, List.length_set]
          rw [hrouted] at hp
          rcases List.mem_append.mp hp with hp | hp
          · exact h.known p hp
          · exact List.mem_singleton.mp hp ▸ hlt
        · rw [hreg, hchannels, List.getElem?_set] at hk
          rw [hrouted, eventsFor_append he]
          by_cases hck : c = k
          · subst hck
            rw [if_pos rfl, if_pos hlt] at hk
            obtain rfl := Option.some.inj hk
            rw [if_pos rfl, h.queue c ch hch]
          · rw [if_neg hck] at hk ⊢
            rw [List.append_nil, h.queue k ch' hk]

theorem Recorded.clientAct {a : ClientAct} (h : Recorded s) (hact : clientAct s a = some t) :
    Recorded t := by
  cases acted hact with
  | allocated udp sid c reg halloc =>
      obtain ⟨-, -, hchannels⟩ := SessionRegistry.allocate_eq_some halloc
      refine ⟨fun p hp => ?_, fun k ch hk => ?_⟩
      · simp only [hchannels, List.length_append]
        exact Nat.lt_of_lt_of_le (h.known p hp) (Nat.le_add_right _ _)
      · simp only [hchannels, List.getElem?_append] at hk
        split at hk
        · exact h.queue k ch hk
        next hge =>
          have hunknown : ∀ p ∈ s.routed, p.1 ≠ k := fun p hp heq => hge (heq ▸ h.known p hp)
          rw [eventsFor_unknown hunknown]
          exact List.mem_singleton.mp (List.mem_of_getElem? hk) ▸ rfl
  | exhausted udp reg halloc => exact h.of_eq rfl (SessionRegistry.allocate_eq_none halloc).2
  | dropped a i x hx hlive =>
      have hremoved : Recorded { s with clientReg := s.clientReg.remove x.sid } := by
        simp only [SessionRegistry.remove]
        split
        next c _ => exact h.of_channels rfl Channel.dropSender (fun _ => rfl) c rfl
        next => exact h
      exact hremoved.of_channels rfl Channel.dropReceiver (fun _ => rfl) i rfl
  | _ => exact h.of_eq rfl rfl

theorem Recorded.clientRecv (h : Recorded s) (f : Msg) : Recorded (clientRecv s f) := by
  apply clientRecv_induction (h.of_eq rfl rfl)
  exact fun u hu g _ => hu.clientDispatch g

theorem Recorded.step {l : Label} (h : Recorded s) (hstep : step s l = some t) : Recorded t := by
  cases l with
  | client a => exact h.clientAct hstep
  | up a =>
      rcases up_cases hstep with ⟨f, link, -, rfl⟩ | ⟨link, -, rfl⟩
      · exact h.of_clientSide (clientSide_serverRecv _ f)
      · exact h.of_clientSide rfl
  | task j a => exact h.of_clientSide (clientSide_taskAct hstep)
  | control priority ftype payload =>
      obtain ⟨-, rfl⟩ := Option.ite_some_none_eq_some.mp hstep
      exact h.of_clientSide rfl
  | down a =>
      have hlink : ∀ link, Recorded { s with down := link } := fun link => h.of_clientSide rfl
      rcases down_cases hstep with ⟨f, link, -, rfl⟩ | ⟨link, -, rfl⟩
      · exact (hlink link).clientRecv f
      · exact hlink link

theorem recorded_throughout (reliable : Bool) (ls : List Label) :
    Throughout step Recorded (start reliable) ls := by
  refine throughout_of_step ⟨?_, ?_⟩ fun s l t h hstep => h.step hstep
  · simp [start]
  · simp [start, SessionRegistry.new]

end Record

/-- In a run that gives out no id too early, every frame reaches the instance it was sent for. -/
theorem delivered_of_patient (reliable : Bool) (ls : List Label)
    (h : EachStep step Patient (start reliable) ls) :
    Throughout step Delivered (start reliable) ls := by
  have howned : Throughout step Owned (start reliable) ls :=
    throughout_of_eachStep (owned_start reliable) (fun s l t hs hok hstep => hs.step hok hstep) h
  exact howned.mono fun s hs => hs.delivered

def silent (s : Sys) : Bool :=
  s.up.msgs.isEmpty && s.down.msgs.isEmpty && keepsNone s.serverDec && keepsNone
    s.clientDec && s.tasks.all (·.notified)

theorem quiet_of_silent {s : Sys} (h : silent s = true) (sid : UInt16) : Quiet s sid := by
  simp only [silent, Bool.and_eq_true, List.isEmpty_iff, List.all_eq_true] at h
  obtain ⟨⟨⟨⟨hup, hdown⟩, hserver⟩, hclient⟩, htasks⟩ := h
  refine ⟨fun f hf => ?_, fun t ht hopen => ?_, fun f hf => ?_⟩
  · rcases hf with hf | hf
    · rw [hup] at hf
      cases hf
    · exact absurd hf (not_holds_of_keepsNone hserver f)
  · rw [htasks t ht] at hopen
    cases hopen
  · rcases hf with hf | hf
    · rw [hdown] at hf
      cases hf
    · exact absurd hf (not_holds_of_keepsNone hclient f)

def inSilence (s : Sys) : Label → Bool
  | .client (.allocate _) => silent s
  | _ => true

theorem patient_of_inSilence {s : Sys} {l : Label} (h : inSilence s l = true) : Patient s l := by
  rw [Patient.eq_def]
  split
  · intro sid c reg _
    exact quiet_of_silent h sid
  · trivial

def serving (i k : Nat) (answer : Bytes) : List Label :=
  [.client (.allocate false), .client (.open i [0, 0, 80]), .up (.work true), .up (.work true),
    .up .deliver, .task k (.data answer), .down (.work true), .down (.work true), .down .deliver]

/-- The session is served, ends, and its id is given out again when all others have been. -/
def servingTwice : List Label :=
  serving 0 0 [7] ++ [.client (.close 0), .client (.drop 0), .up (.work true), .up (.work true),
    .up .deliver, .task 0 (.drop true), .task 0 .notify, .task 0 .cleanup, .down (.work true),
      .down (.work true), .down .deliver] ++
  (List.range' 1 254).flatMap (fun i => [.client (.allocate false), .client (.drop i)]) ++
    serving 255 1 [8]

theorem delivered_servingTwice : EachStep step Patient (start true) servingTwice ∧
    (exec step (start true) servingTwice).map
      (fun s => s.routed.map fun p => (p.1, p.2.sessionId)) =
      some [(0, 1), (255, 1)] ∧
    Throughout step Delivered (start true) servingTwice := by
  have hrun : (exec (guarded step fun s l => inSilence s l = true) (start true) servingTwice).map
      (fun s => s.routed.map fun p => (p.1, p.2.sessionId)) = some [(0, 1), (255, 1)] := by
        decide +kernel
  obtain ⟨s, hs, hrouted⟩ := Option.map_eq_some_iff.mp hrun
  obtain ⟨hsilence, hexec⟩ := eachStep_of_guarded hs
  have hserving := hsilence.mono fun s l h => patient_of_inSilence h
  exact ⟨hserving,
    by rw [hexec, Option.map_some, hrouted], delivered_of_patient true servingTwice hserving⟩

def reusing : List Label :=
  [.client (.allocate false), .client (.open 0 [0, 0, 80]), .up (.work true), .up (.work true),
    .up .deliver, .task 0 (.data [7]), .client (.close 0), .client (.drop 0)] ++
  (List.range' 1 254).flatMap (fun i => [.client (.allocate false), .client (.drop i)]) ++
  [.client (.allocate false), .down (.work true), .down (.work true), .down .deliver]

theorem data_of_earlier_session_delivered : ¬ Throughout step Delivered (start true) reusing := by
  intro h
  have hrun : (exec step (start true) reusing).map
      (fun s => s.routed.map fun p => (p.1, owner p.2)) =
      some [(255, 0)] := by decide +kernel
  obtain ⟨s, hs, hrouted⟩ := Option.map_eq_some_iff.mp hrun
  have hmem : (255, 0) ∈ s.routed.map fun p => (p.1, owner p.2) := by simp [hrouted]
  obtain ⟨p, hp, heq⟩ := List.mem_map.mp hmem
  obtain ⟨hchannel, hsender⟩ := Prod.mk.inj heq
  have howner := h reusing (List.prefix_refl _) s hs p hp
  rw [hchannel, hsender] at howner
  exact absurd howner (by decide)

end SrtVpn.Ownership
