import SrtVpn.Endpoints

namespace SrtVpn.ServerTasks

open Tables Wire Encoder Decoder Dispatch Connection Endpoints

section Channels

variable {f : Msg} {reg : SessionRegistry Tagged}

theorem length_dispatchFrame (f : Msg) (reg : SessionRegistry Tagged) :
    (dispatchFrame f reg).2.channels.length = reg.channels.length := by
  rw [dispatchFrame_registry]
  split
  · exact SessionRegistry.length_channels_route _ _ _
  · rfl

theorem channel_dispatchFrame {reg : SessionRegistry Tagged} {j : Nat} {ch' : Channel Tagged}
    (h : (dispatchFrame f reg).2.channels[j]? = some ch') :
    (reg.channels[j]? = some ch' ∧
      (find reg.sessions f.sessionId = some j → ch'.receiver = true → eventOf f = none)) ∨
      ∃ e ch, eventOf f = some e ∧ find reg.sessions f.sessionId = some j ∧
        reg.channels[j]? = some ch ∧
        ch.receiver = true ∧ ch' = { ch with queue := ch.queue ++ [e] } := by
  rw [dispatchFrame_registry] at h
  cases he : eventOf f with
  | none =>
      rw [he] at h
      exact Or.inl ⟨h, fun _ _ => rfl⟩
  | some e =>
      rw [he] at h
      rcases reg.route_cases f.sessionId e with ⟨hno, hsame⟩ | ⟨k, ch, hf, hch, hyes, hset⟩
      · simp only [hsame] at h
        refine Or.inl ⟨h, fun hf hr => ?_⟩
        simp [SessionRegistry.route, hf, h, Channel.send, hr] at hno
      · have hr : ch.receiver = true := by
          by_contra hr
          simp [SessionRegistry.route, hf, hch, Channel.send, hr] at hyes
        simp only [hset] at h
        rw [List.getElem?_set] at h
        split at h
        next hkj =>
          split at h
          next =>
            subst hkj
            exact Or.inr ⟨e, ch, rfl, hf, hch, hr, (Option.some.inj h).symm⟩
          next => simp at h
        next hkj =>
          refine Or.inl ⟨h, fun hfj _ => ?_⟩
          exact absurd (Option.some.inj (hf.symm.trans hfj)) hkj

structure Shrinks (reg reg' : SessionRegistry Tagged) : Prop where
  length : reg'.channels.length = reg.channels.length
  sessions : ∀ sid c, find reg'.sessions sid = some c → find reg.sessions sid = some c
  channels : ∀ (j : Nat) (ch' : Channel Tagged), reg'.channels[j]? = some ch' →
    ∃ ch, reg.channels[j]? = some ch ∧ ch.queue = ch'.queue ∧
    (ch'.receiver = true → ch.receiver = true)

theorem shrinks_refl (reg : SessionRegistry Tagged) : Shrinks reg reg :=
  ⟨rfl, fun _ _ h => h, fun _ ch h => ⟨ch, h, rfl, id⟩⟩

theorem Shrinks.trans {r r' r'' : SessionRegistry Tagged} (h : Shrinks r r') (h' : Shrinks r' r'') :
    Shrinks r r'' := by
  refine ⟨h'.length.trans h.length, fun sid c hf => h.sessions sid c (h'.sessions sid c hf), ?_⟩
  intro j ch'' hch
  obtain ⟨ch', hch', hq', hr'⟩ := h'.channels j ch'' hch
  obtain ⟨ch, hch, hq, hr⟩ := h.channels j ch' hch'
  exact ⟨ch, hch, hq.trans hq', fun hrecv => hr (hr' hrecv)⟩

theorem shrinks_modify (reg : SessionRegistry Tagged) (k : Nat)
    (g : Channel Tagged → Channel Tagged) (hq : ∀ ch, (g ch).queue = ch.queue)
    (hr : ∀ ch, (g ch).receiver = true → ch.receiver = true) :
    Shrinks reg { reg with channels := reg.channels.modify k g } := by
  refine ⟨List.length_modify _ _ _, fun _ _ h => h, ?_⟩
  intro j ch' hch
  rw [List.getElem?_modify] at hch
  obtain ⟨ch, hch', rfl⟩ := Option.map_eq_some_iff.mp hch
  refine ⟨ch, hch', ?_⟩
  split
  · exact ⟨(hq ch).symm, hr ch⟩
  · exact ⟨rfl, id⟩

theorem shrinks_remove (reg : SessionRegistry Tagged) (sid : UInt16) :
    Shrinks reg (reg.remove sid) := by
  refine ⟨SessionRegistry.length_channels_remove reg sid, ?_, ?_⟩
  · intro sid' c hf
    rw [SessionRegistry.find_remove] at hf
    split at hf
    · simp at hf
    · exact hf
  · rw [SessionRegistry.remove]
    split
    next c _ => exact (shrinks_modify reg c Channel.dropSender (fun _ => rfl)
      (fun _ h => h)).channels
    next => exact (shrinks_refl reg).channels

theorem shrinks_dropReceiver (reg : SessionRegistry Tagged) (j : Nat) :
    Shrinks reg (dropReceiver reg j) :=
  shrinks_modify reg j Channel.dropReceiver (fun _ => rfl)
    (fun _ h => by simp [Channel.dropReceiver] at h)

theorem prefix_of_eq {A : Type} {l l' : List A} (h : l' = l) : l <+: l' :=
  ⟨[], (List.append_nil l).trans h.symm⟩

def queueOf (reg : SessionRegistry Tagged) (j : Nat) : List (SessionEvent Tagged) :=
  (reg.channels[j]?.map Channel.queue).getD []

theorem queueOf_some {reg : SessionRegistry Tagged} {j : Nat} {ch : Channel Tagged}
    (h : reg.channels[j]? = some ch) : queueOf reg j = ch.queue := by
  rw [queueOf, h]
  rfl

theorem queueOf_none {reg : SessionRegistry Tagged} {j : Nat} (h : reg.channels[j]? = none) :
    queueOf reg j = [] := by
  rw [queueOf, h]
  rfl

theorem queueOf_register (reg : SessionRegistry Tagged) (sid : UInt16) (j : Nat) :
    queueOf reg j <+: queueOf (reg.register sid) j := by
  cases hch : reg.channels[j]? with
  | none =>
      rw [queueOf_none hch]
      exact List.nil_prefix
  | some ch =>
      have hsame : (reg.register sid).channels[j]? = some ch := by
        rw [SessionRegistry.register,
          List.getElem?_append_left (List.getElem?_eq_some_iff.mp hch).1]
        exact hch
      exact prefix_of_eq ((queueOf_some hsame).trans (queueOf_some hch).symm)

theorem queueOf_dispatchFrame (f : Msg) (reg : SessionRegistry Tagged) (j : Nat) :
    queueOf reg j <+: queueOf (dispatchFrame f reg).2 j := by
  cases hch' : (dispatchFrame f reg).2.channels[j]? with
  | none =>
      have hch : reg.channels[j]? = none :=
        List.getElem?_eq_none (length_dispatchFrame f reg ▸ List.getElem?_eq_none_iff.mp hch')
      rw [queueOf_none hch]
      exact List.nil_prefix
  | some ch' =>
      rcases channel_dispatchFrame hch' with ⟨hch, -⟩ | ⟨e, ch, -, -, hch, -, rfl⟩
      · exact prefix_of_eq ((queueOf_some hch').trans (queueOf_some hch).symm)
      · rw [queueOf_some hch, queueOf_some hch']
        exact List.prefix_append _ _

theorem queueOf_dispatchOneFrame (s : Sys) (f : Msg) (j : Nat) :
    queueOf s.serverReg j <+: queueOf (dispatchOneFrame s f).serverReg j := by
  rw [serverReg_dispatchOneFrame, regAfter_eq]
  split
  · exact queueOf_register _ _ _
  · exact queueOf_dispatchFrame _ _ _

theorem Shrinks.queueOf {reg reg' : SessionRegistry Tagged} (h : Shrinks reg reg') (j : Nat) :
    queueOf reg' j = queueOf reg j := by
  cases hch : reg'.channels[j]? with
  | none =>
      have hch' : reg.channels[j]? = none :=
        List.getElem?_eq_none (h.length ▸ List.getElem?_eq_none_iff.mp hch)
      rw [queueOf_none hch, queueOf_none hch']
  | some ch' =>
      obtain ⟨ch, hch', hq, -⟩ := h.channels j ch' hch
      rw [queueOf_some hch, queueOf_some hch', hq]

end Channels

theorem fields_dispatchOneFrame (s : Sys) (f : Msg) : (dispatchOneFrame s f).up = s.up ∧
    (dispatchOneFrame s f).clientEnc = s.clientEnc ∧
    (dispatchOneFrame s f).serverDec = s.serverDec ∧
      (dispatchOneFrame s f).instances = s.instances := by
  have h := dispatched s f
  generalize dispatchOneFrame s f = t at h ⊢
  cases h <;> exact ⟨rfl, rfl, rfl, rfl⟩

theorem serverRecv_of_feedFrame {s : Sys} {f : Msg}
    (h : (feedFrame (countRx s.serverDec) f).1 = [f]) : serverRecv s f = dispatchOneFrame { s with
      serverDec := (feedFrame (countRx s.serverDec) f).2
      arrived := if f.ftype = .open then s.arrived ++ [owner f] else s.arrived } f := by
  rw [serverRecv]
  generalize feedFrame (countRx s.serverDec) f = r at h ⊢
  obtain ⟨out, dec⟩ := r
  obtain rfl : out = [f] := h
  rfl

def SameTasks (ts us : List Task) : Prop :=
  us.length = ts.length ∧ ∀ (j : Nat) (t : Task), us[j]? = some t →
  ∃ t', ts[j]? = some t' ∧ t'.sid = t.sid ∧ t'.owner = t.owner

theorem sameTasks_refl (ts : List Task) : SameTasks ts ts := ⟨rfl, fun _ t ht => ⟨t, ht, rfl, rfl⟩⟩

theorem SameTasks.set {ts us : List Task} {j : Nat} {t t' : Task} (h : SameTasks ts us)
    (ht : us[j]? = some t) (hsid : t'.sid = t.sid) (howner : t'.owner = t.owner) :
    SameTasks ts (us.set j t') := by
  refine ⟨by rw [List.length_set]; exact h.1, fun k y hy => ?_⟩
  rw [List.getElem?_set] at hy
  split at hy
  next hk =>
    subst hk
    obtain ⟨z, hz, hzs, hzo⟩ := h.2 j t ht
    obtain ⟨-, rfl⟩ := Option.ite_some_none_eq_some.mp hy
    exact ⟨z, hz, hzs.trans hsid.symm, hzo.trans howner.symm⟩
  next => exact h.2 k y hy

/-- The client and what is under way from it are as they were, and the server has at most let go of
something. -/
structure Sheds (s u : Sys) : Prop where
  up : u.up = s.up
  clientEnc : u.clientEnc = s.clientEnc
  serverDec : u.serverDec = s.serverDec
  instances : u.instances = s.instances
  tasks : SameTasks s.tasks u.tasks
  reg : Shrinks s.serverReg u.serverReg

theorem sheds_of_tasks_eq {s u : Sys} (hup : u.up = s.up) (henc : u.clientEnc = s.clientEnc)
    (hdec : u.serverDec = s.serverDec) (hinst : u.instances = s.instances)
    (htasks : u.tasks = s.tasks) (hreg : Shrinks s.serverReg u.serverReg) : Sheds s u :=
  ⟨hup, henc, hdec, hinst, htasks ▸ sameTasks_refl _, hreg⟩

theorem sheds_setTask {s u : Sys} {j : Nat} {t t' : Task} (h : Sheds s u)
    (ht : u.tasks[j]? = some t) (hsid : t'.sid = t.sid) (howner : t'.owner = t.owner) :
    Sheds s (setTask u j t') :=
  ⟨h.up, h.clientEnc, h.serverDec, h.instances, h.tasks.set ht hsid howner, h.reg⟩

theorem sheds_serverSend (s : Sys) (priority : Bool) (c : Call Tagged) :
    Sheds s (serverSend s priority c) :=
  sheds_of_tasks_eq rfl rfl rfl rfl rfl (shrinks_refl _)

theorem sheds_taskAct {s u : Sys} {j : Nat} {a : TaskAct} (h : taskAct s j a = some u) :
    Sheds s u := by
  obtain ⟨x, hx, h⟩ := Option.bind_eq_some_iff.mp h
  cases a with
  | data payload | fin | datagram payload =>
      obtain ⟨-, rfl⟩ := Option.ite_some_none_eq_some.mp h
      exact sheds_serverSend _ _ _
  | drop session =>
      obtain ⟨-, rfl⟩ := Option.ite_some_none_eq_some.mp h
      refine sheds_of_tasks_eq rfl rfl rfl rfl rfl (Shrinks.trans ?_ (shrinks_dropReceiver _ j))
      split
      · exact shrinks_remove _ _
      · exact shrinks_refl _
  | notify =>
      obtain ⟨-, rfl⟩ := Option.ite_some_none_eq_some.mp h
      exact sheds_setTask (sheds_serverSend _ _ _) hx rfl rfl
  | cleanup =>
      obtain ⟨-, rfl⟩ := Option.ite_some_none_eq_some.mp h
      have hreg : Sheds s { s with serverReg := s.serverReg.remove x.sid } :=
        sheds_of_tasks_eq rfl rfl rfl rfl rfl (shrinks_remove _ _)
      exact sheds_setTask hreg hx rfl rfl

theorem sheds_clientRecv (s : Sys) (link : Link Msg) (f : Msg) :
    Sheds s (clientRecv { s with down := link } f) := by
  apply clientRecv_induction (P := Sheds s)
  · exact sheds_of_tasks_eq rfl rfl rfl rfl rfl (shrinks_refl _)
  · exact fun u hu g _ => ⟨hu.up, hu.clientEnc, hu.serverDec, hu.instances, hu.tasks, hu.reg⟩

/-- Every channel of the server has its task, and an id leads to a task of that id. -/
structure Housed (s : Sys) : Prop where
  length : s.tasks.length = s.serverReg.channels.length
  entries : ∀ sid c, find s.serverReg.sessions sid = some c →
    ∃ t, s.tasks[c]? = some t ∧ t.sid = sid

theorem housed_start (reliable : Bool) : Housed (Endpoints.start reliable) :=
  ⟨rfl, by simp [Endpoints.start, SessionRegistry.new]⟩

section Housed

variable {s u : Sys} {f : Msg}

theorem Housed.sid_unique (h : Housed s) {sid sid' : UInt16} {k : Nat}
    (hf : find s.serverReg.sessions sid = some k) (hf' : find s.serverReg.sessions sid' = some k) :
    sid = sid' := by
  obtain ⟨t, ht, hts⟩ := h.entries sid k hf
  obtain ⟨t', ht', hts'⟩ := h.entries sid' k hf'
  obtain rfl : t = t' := Option.some.inj (ht.symm.trans ht')
  exact hts.symm.trans hts'

theorem Housed.of_eq (h : Housed s) (htasks : u.tasks = s.tasks)
    (hreg : u.serverReg = s.serverReg) : Housed u := by
  refine ⟨?_, ?_⟩
  · rw [htasks, hreg]
    exact h.length
  · rw [htasks, hreg]
    exact h.entries

theorem Housed.shed (h : Housed s) (htasks : SameTasks s.tasks u.tasks)
    (hreg : Shrinks s.serverReg u.serverReg) : Housed u := by
  refine ⟨by rw [htasks.1, hreg.length]; exact h.length, ?_⟩
  intro sid c hf
  obtain ⟨t, ht, hts⟩ := h.entries sid c (hreg.sessions sid c hf)
  have hlt : c < u.tasks.length := by
    rw [htasks.1]
    exact (List.getElem?_eq_some_iff.mp ht).1
  obtain ⟨t', ht', hsid, -⟩ := htasks.2 c _ (List.getElem?_eq_getElem hlt)
  obtain rfl : t = t' := Option.some.inj (ht.symm.trans ht')
  exact ⟨_, List.getElem?_eq_getElem hlt, hsid.symm.trans hts⟩

theorem routed_dispatchOneFrame (hno : ¬ Opens s f) :
    (dispatchOneFrame s f).tasks = s.tasks ∧
    (dispatchOneFrame s f).serverReg = (dispatchFrame f s.serverReg).2 := by
  refine ⟨?_, ?_⟩
  · rw [tasks_dispatchOneFrame, if_neg hno]
  · rw [serverReg_dispatchOneFrame, regAfter_eq, if_neg hno]

theorem opened_dispatchOneFrame (ho : Opens s f) :
    (dispatchOneFrame s f).tasks = s.tasks ++ [⟨f.sessionId, owner f, false, false⟩] ∧
      (dispatchOneFrame s f).serverReg = s.serverReg.register f.sessionId := by
  refine ⟨?_, ?_⟩
  · rw [tasks_dispatchOneFrame, if_pos ho]
  · rw [serverReg_dispatchOneFrame, regAfter_eq, if_pos ho]

theorem find_register (reg : SessionRegistry Tagged) (sid sid' : UInt16) :
    find (reg.register sid).sessions sid' =
    if sid' = sid then some reg.channels.length else find reg.sessions sid' :=
  find_insert reg.sessions sid sid' reg.channels.length

theorem Housed.dispatchOneFrame (h : Housed s) (f : Msg) : Housed (dispatchOneFrame s f) := by
  by_cases ho : Opens s f
  · obtain ⟨htasks, hreg⟩ := opened_dispatchOneFrame ho
    refine ⟨?_, fun sid k hf => ?_⟩
    · rw [htasks, hreg, List.length_append, h.length]
      simp [SessionRegistry.register]
    · rw [hreg, find_register] at hf
      rw [htasks]
      split at hf
      next hsid =>
        obtain rfl := Option.some.inj hf
        refine ⟨⟨f.sessionId, owner f, false, false⟩, ?_, hsid.symm⟩
        rw [← h.length]
        simp
      next =>
        obtain ⟨t, ht, hts⟩ := h.entries sid k hf
        exact ⟨t, by rw [List.getElem?_append_left (List.getElem?_eq_some_iff.mp ht).1]; exact ht, hts⟩
  · obtain ⟨htasks, hreg⟩ := routed_dispatchOneFrame ho
    refine ⟨?_, ?_⟩
    · rw [htasks, hreg, length_dispatchFrame]
      exact h.length
    · rw [htasks, hreg, sessions_dispatchFrame]
      exact h.entries

theorem Housed.opened_cases (h : Housed s) (ho : Opens s f) {j : Nat} {t : Task}
    {ch : Channel Tagged} (ht : (Endpoints.dispatchOneFrame s f).tasks[j]? = some t)
    (hch : (Endpoints.dispatchOneFrame s f).serverReg.channels[j]? = some ch) :
    (s.tasks[j]? = some t ∧ s.serverReg.channels[j]? = some ch) ∨
      (j = s.serverReg.channels.length ∧ t = ⟨f.sessionId, owner f, false, false⟩ ∧
        ch = Channel.new) := by
  obtain ⟨htasks, hreg⟩ := opened_dispatchOneFrame ho
  rw [htasks, List.getElem?_append] at ht
  rw [hreg, SessionRegistry.register, List.getElem?_append, ← h.length] at hch
  split at ht
  next hlt =>
    rw [if_pos hlt] at hch
    exact Or.inl ⟨ht, hch⟩
  next hlt =>
    rw [if_neg hlt] at hch
    have hj := (List.getElem?_eq_some_iff.mp hch).1
    rw [List.length_singleton] at hj
    rw [List.mem_singleton.mp (List.mem_of_getElem? ht),
      List.mem_singleton.mp (List.mem_of_getElem? hch), ← h.length]
    exact Or.inr ⟨by omega, rfl, rfl⟩

end Housed

end SrtVpn.ServerTasks
