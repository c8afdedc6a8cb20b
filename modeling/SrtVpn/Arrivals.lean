import SrtVpn.ServerTasks
import SrtVpn.TurnTaking
import SrtVpn.Uplink

namespace SrtVpn.Arrivals

open Tables Wire Encoder Decoder Dispatch Connection Uplink Endpoints ServerTasks TurnTaking

section Tail

variable {E : Type} {healthy healthy' closed closed' : Prop} {sent evs more : List E}

/-- What has become of the events an instance has sent: others follow only after its Close, and some
are missing at the end only if the link is broken. -/
def Tail (healthy closed : Prop) (sent evs : List E) : Prop :=
  ∃ lost rest, evs ++ lost = sent ++ rest ∧ (rest ≠ [] → closed) ∧ (healthy → lost = [])

theorem Tail.cut (h : Tail healthy closed sent (evs ++ more)) (hclosed : closed → closed')
    (hh : healthy' → healthy ∧ more = []) : Tail healthy' closed' sent evs := by
  obtain ⟨lost, rest, heq, hrest, hlost⟩ := h
  refine ⟨more ++ lost, rest,
    by rw [← List.append_assoc, heq], fun hr => hclosed (hrest hr), fun hh' => ?_⟩
  obtain ⟨hhealthy, rfl⟩ := hh hh'
  rw [List.nil_append]
  exact hlost hhealthy

theorem Tail.own (h : Tail healthy closed sent evs) (hopen : ¬ closed) (hh : healthy) :
    Tail healthy' closed' (sent ++ more) (evs ++ more) := by
  obtain ⟨lost, rest, heq, hrest, hlost⟩ := h
  obtain rfl : rest = [] := by
    by_contra hr
    exact hopen (hrest hr)
  rw [hlost hh, List.append_nil, List.append_nil] at heq
  exact ⟨[], [], by rw [heq], fun hr => absurd rfl hr, fun _ => rfl⟩

theorem Tail.own_broken (h : Tail healthy closed sent evs) (hopen : ¬ closed) (hh : ¬ healthy') :
    Tail healthy' closed' (sent ++ more) evs := by
  obtain ⟨lost, rest, heq, hrest, -⟩ := h
  obtain rfl : rest = [] := by
    by_contra hr
    exact hopen (hrest hr)
  refine ⟨lost ++ more, [], ?_, fun hr => absurd rfl hr, fun h => absurd h hh⟩
  rw [← List.append_assoc, heq, List.append_nil, List.append_nil]

theorem Tail.other (h : Tail healthy closed sent evs) (hclosed : closed') (hh : healthy) :
    Tail healthy' closed' sent (evs ++ more) := by
  obtain ⟨lost, rest, heq, -, hlost⟩ := h
  rw [hlost hh, List.append_nil] at heq
  exact ⟨[], rest ++ more,
    by rw [heq, List.append_nil, List.append_assoc], fun _ => hclosed, fun _ => rfl⟩

theorem Tail.mono (h : Tail healthy closed sent evs) (hclosed : closed → closed')
    (hh : healthy' → healthy) : Tail healthy' closed' sent evs := by
  rw [← List.append_nil evs] at h
  exact h.cut hclosed fun h => ⟨hh h, rfl⟩

end Tail

def eventsOn (sid : UInt16) (fs : List Msg) : List (SessionEvent Tagged) :=
  (fs.filter fun f => f.sessionId = sid).filterMap eventOf

theorem eventsOn_append (sid : UInt16) (fs gs : List Msg) :
    eventsOn sid (fs ++ gs) = eventsOn sid fs ++ eventsOn sid gs := by
  simp [eventsOn, List.filter_append, List.filterMap_append]

theorem eventsOn_singleton (sid : UInt16) (f : Msg) :
    eventsOn sid [f] = if f.sessionId = sid then (eventOf f).toList else [] := by
  by_cases h : f.sessionId = sid
  · cases he : eventOf f <;> simp [eventsOn, h, he]
  · simp [eventsOn, h]

/-- `evs` is what has become of the frames of instance `i`, with those under way. -/
def Reaches (up : Link Msg) (log : List ClientAct) (i : Nat) (evs : List (SessionEvent Tagged)) :
    Prop :=
  Tail (Healthy up) (ClientAct.close i ∈ log) (sentEvents log i) evs

section Send

variable {s : Sys} {log : List ClientAct} {a : ClientAct} {i : Nat} {x : Instance}
  {c : Call Tagged} {p : Phase}

/-- The act sends a session frame of instance `i`. -/
structure Speaking (s : Sys) (log : List ClientAct) (a : ClientAct) (i : Nat) (x : Instance)
    (c : Call Tagged) (p : Phase) : Prop where
  live : s.instances[i]? = some x
  phase : x.phase = .allocated ∨ x.phase = .opened
  sender : sender a = some i
  sid : c.sessionId = x.sid
  flags : c.flags = 0
  owner : c.payload.1 = i
  session : usesSessionOrder c.ftype = true
  opens : c.ftype = .open ↔ x.phase = .allocated
  bound : framesOf log i + 1 < 2 ^ 24 - 1
  next : p = .opened ∨ p = .closed
  close : a = .close i → p = .closed
  event : frameEvent i a = eventOf (stamp s.clientEnc c).1

def afterSend (s : Sys) (c : Call Tagged) : Link Msg :=
  s.up.sendItemTo false ⟨(stamp s.clientEnc c).1, true⟩

theorem Speaking.pending (h : Speaking s log a i x c p) (hc : Client s.instances s.clientEnc log)
    (ho : Ordered s.up) : ∃ new, (new = [] ∨ new = [(stamp s.clientEnc c).1]) ∧
    Uplink.pending (afterSend s c) = Uplink.pending s.up ++ new ∧
      ∀ k y evs, s.instances[k]? = some y → Reaches s.up log k evs →
        Reaches (afterSend s c) (log ++ [a]) k (evs ++ eventsOn y.sid new) := by
  have hopen := hc.open_of_phase h.live h.phase
  have hiff : Healthy (afterSend s c) ↔ Healthy s.up :=
    (ordered_send ho false (stamp s.clientEnc c).1 (by simp)).2
  have hmono : ∀ k, ClientAct.close k ∈ log → ClientAct.close k ∈ log ++ [a] :=
    fun k hk => List.mem_append_left _ hk
  by_cases hh : Healthy s.up
  · refine ⟨[(stamp s.clientEnc c).1], Or.inr rfl, pending_send h.session hh, ?_⟩
    intro k y evs hy hr
    rw [eventsOn_singleton, Reaches]
    by_cases hk : k = i
    · subst hk
      obtain rfl : x = y := Option.some.inj (h.live.symm.trans hy)
      have hfs : (stamp s.clientEnc c).1.sessionId = x.sid := h.sid
      rw [if_pos hfs, ← h.event, sentEvents_snoc]
      exact hr.own hopen hh
    · rw [sentEvents_snoc_of_ne (by rw [h.sender]; simp [Ne.symm hk])]
      split
      next hsid =>
        have hsid' : y.sid = x.sid := hsid.symm.trans h.sid
        exact hr.other (hmono k (hc.closed_of_ne h.live hopen hy hsid' hk)) hh
      next =>
        rw [List.append_nil]
        exact hr.mono (hmono k) hiff.mp
  · refine ⟨[], Or.inl rfl, by rw [List.append_nil]; exact pending_send_broken hh, ?_⟩
    intro k y evs hy hr
    have hnil : eventsOn y.sid [] = [] := rfl
    rw [hnil, List.append_nil, Reaches]
    by_cases hk : k = i
    · subst hk
      rw [sentEvents_snoc]
      exact hr.own_broken hopen (fun h => hh (hiff.mp h))
    · rw [sentEvents_snoc_of_ne (by rw [h.sender]; simp [Ne.symm hk])]
      exact hr.mono (hmono k) hiff.mp

end Send

/-- What is under way to the server: session frames in order, each of an instance of its id, and
after each Open the frames of the session it opens. -/
structure Way (s : Sys) (log : List ClientAct) : Prop where
  ordered : Ordered s.up
  synced : Synced s.clientEnc s.up s.serverDec
  quiet : ∀ f ∈ s.up.msgs, usesSessionOrder f.ftype = false → eventOf f = none
  frames : ∀ f ∈ pending s.up, ∃ x, s.instances[owner f]? = some x ∧ x.sid = f.sessionId
  opens : ∀ before f after, pending s.up = before ++ f :: after → f.ftype = .open →
    Reaches s.up log (owner f) (eventsOn f.sessionId after)

/-- What the server has: tasks for instances of their ids, and in the channel of each the frames of
its instance before any others. -/
structure Serving (s : Sys) (log : List ClientAct) : Prop where
  housed : Housed s
  owners : ∀ t ∈ s.tasks, ∃ x, s.instances[t.owner]? = some x ∧ x.sid = t.sid
  live : ∀ (sid : UInt16) (c : Nat) (t : Task) (ch : Channel Tagged), find s.serverReg.sessions
    sid = some c → s.tasks[c]? = some t → s.serverReg.channels[c]? = some ch →
    ch.receiver = true → Reaches s.up log t.owner (ch.queue ++ eventsOn sid (pending s.up))
  kept : ∀ (j : Nat) (t : Task) (ch : Channel Tagged), s.tasks[j]? = some t →
    s.serverReg.channels[j]? = some ch →
    Tail False (ClientAct.close t.owner ∈ log) (sentEvents log t.owner) ch.queue

section Steps

variable {s u : Sys} {log : List ClientAct} {a : ClientAct} {i : Nat} {x : Instance}
  {c : Call Tagged} {p : Phase}

theorem way_start (reliable : Bool) : Way (Endpoints.start reliable) [] := by
  refine ⟨⟨rfl, by simp [Endpoints.start, Link.new], by simp [Endpoints.start, Link.new]⟩,
    synced_start reliable, ?_, ?_, ?_⟩
  · simp [Endpoints.start, Link.new, Link.msgs]
  · simp [Endpoints.start, Link.new, pending]
  · simp [Endpoints.start, Link.new, pending]

theorem serving_start (reliable : Bool) : Serving (Endpoints.start reliable) [] := by
  refine ⟨housed_start reliable, ?_, ?_, ?_⟩ <;> simp [Endpoints.start, SessionRegistry.new]

def Extends (s u : Sys) : Prop :=
  ∀ (k : Nat) (y : Instance), s.instances[k]? = some y →
  ∃ z, u.instances[k]? = some z ∧ z.sid = y.sid

theorem extends_setPhase {s u : Sys} (hu : u.instances = s.instances) (i : Nat) (p : Phase) :
    Extends s (setPhase u i p) := by
  intro k y hy
  rw [setPhase, hu, List.getElem?_modify, hy]
  refine ⟨_, rfl, ?_⟩
  split <;> rfl

/-- The endpoints after a session frame of the client is queued. -/
def spoken (s : Sys) (i : Nat) (c : Call Tagged) (p : Phase) : Sys :=
  setPhase { s with clientEnc := (stamp s.clientEnc c).2, up := afterSend s c } i p

theorem extends_spoken (s : Sys) (i : Nat) (c : Call Tagged) (p : Phase) :
    Extends s (spoken s i c p) := extends_setPhase rfl i p

theorem append_eq_append_cons {A : Type} {l new before after : List A} {f g : A}
    (hnew : new = [] ∨ new = [g]) (h : l ++ new = before ++ f :: after) :
    (∃ after', l = before ++ f :: after' ∧ after = after' ++ new) ∨
    new = [g] ∧ f = g ∧ after = [] := by
  rcases hnew with rfl | rfl
  · rw [List.append_nil] at h
    exact Or.inl ⟨after, h, (List.append_nil _).symm⟩
  · rcases List.eq_nil_or_concat after with rfl | ⟨after', b, rfl⟩
    · obtain ⟨-, hg⟩ := List.append_inj' h rfl
      exact Or.inr ⟨rfl, (List.singleton_inj.mp hg).symm, rfl⟩
    · rw [List.concat_eq_append, ← List.cons_append, ← List.append_assoc] at h
      obtain ⟨hl, hb⟩ := List.append_inj' h rfl
      refine Or.inl ⟨after', hl, ?_⟩
      rw [List.concat_eq_append, hb]

theorem Way.speak (hw : Way s log) (hc : Client s.instances s.clientEnc log)
    (h : Speaking s log a i x c p) : Way (spoken s i c p) (log ++ [a]) := by
  obtain ⟨new, hnew, hpend, hreach⟩ := h.pending hc hw.ordered
  have hdir : (stamp s.clientEnc c).1.dirAcceptor = false := by
    rw [Transparency.stamp_dirAcceptor _ (by rw [h.flags]; rfl)]
    exact hc.dir
  have hopened : c.ftype ≠ .open → x.phase = .opened :=
    fun ho => h.phase.resolve_left fun hal => ho (h.opens.mpr hal)
  have hz := hc.stamp_ordered h.live h.sid hopened h.bound h.session
  have howner : owner (stamp s.clientEnc c).1 = i := h.owner
  refine ⟨(ordered_send hw.ordered false _ (by simp)).1,
    hw.synced.send hw.ordered h.session hdir hz, ?_, ?_, ?_⟩
  · intro f hf hu
    rcases mem_msgs_sendItemTo hf with rfl | hf
    · rw [show usesSessionOrder (stamp s.clientEnc c).1.ftype = true from h.session] at hu
      simp at hu
    · exact hw.quiet f hf hu
  · intro f hf
    have hf' : f ∈ pending s.up ++ new := hpend ▸ hf
    rcases List.mem_append.mp hf' with hf | hf
    · obtain ⟨y, hy, hsid⟩ := hw.frames f hf
      obtain ⟨z, hz, hzs⟩ := extends_spoken s i c p _ y hy
      exact ⟨z, hz, hzs.trans hsid⟩
    · obtain ⟨z, hz, hzs⟩ := extends_spoken s i c p _ x h.live
      have hfs : f = (stamp s.clientEnc c).1 := by
        rcases hnew with rfl | rfl
        · simp at hf
        · exact List.mem_singleton.mp hf
      rw [hfs, howner]
      exact ⟨z, hz, hzs.trans h.sid.symm⟩
  · intro before f after heq ho
    have heq' : pending s.up ++ new = before ++ f :: after := hpend ▸ heq
    rcases append_eq_append_cons hnew heq' with ⟨after', hold, rfl⟩ | ⟨-, rfl, rfl⟩
    · obtain ⟨y, hy, hsid⟩ := hw.frames f (by rw [hold]; simp)
      have := hreach (owner f) y _ hy (hw.opens before f after' hold ho)
      rw [hsid, ← eventsOn_append] at this
      exact this
    · have hal := h.opens.mp ho
      have hnone : frameEvent i a = none := by
        rw [h.event, eventOf, ho]
      have hsent : sentEvents (log ++ [a]) i = [] := by
        rw [sentEvents_snoc, hnone, sentEvents_eq_nil (hc.fresh i x h.live hal)]
        rfl
      rw [howner, Reaches, hsent]
      exact ⟨[], [], rfl, fun hr => absurd rfl hr, fun _ => rfl⟩

theorem Serving.speak (hv : Serving s log) (hw : Way s log)
    (hc : Client s.instances s.clientEnc log) (h : Speaking s log a i x c p) :
    Serving (spoken s i c p) (log ++ [a]) := by
  obtain ⟨new, -, hpend, hreach⟩ := h.pending hc hw.ordered
  have hopen := hc.open_of_phase h.live h.phase
  refine ⟨hv.housed.of_eq rfl rfl, ?_, ?_, ?_⟩
  · intro t ht
    obtain ⟨y, hy, hsid⟩ := hv.owners t ht
    obtain ⟨z, hz, hzs⟩ := extends_spoken s i c p _ y hy
    exact ⟨z, hz, hzs.trans hsid⟩
  · intro sid k t ch hfind ht hch hrecv
    obtain ⟨y, hy, hsid⟩ := hv.owners t (List.mem_of_getElem? ht)
    obtain ⟨t', ht', hts⟩ := hv.housed.entries sid k hfind
    obtain rfl : t = t' := Option.some.inj (ht.symm.trans ht')
    have := hreach t.owner y _ hy (hv.live sid k t ch hfind ht hch hrecv)
    rw [hsid, hts, List.append_assoc, ← eventsOn_append, ← hpend] at this
    exact this
  · intro j t ch ht hch
    have hkept := hv.kept j t ch ht hch
    by_cases hk : t.owner = i
    · rw [hk] at hkept ⊢
      rw [sentEvents_snoc]
      exact hkept.own_broken hopen id
    · rw [sentEvents_snoc_of_ne (by rw [h.sender]; simp [Ne.symm hk])]
      exact hkept.mono (fun hcl => List.mem_append_left _ hcl) id

/-- Nothing is sent between the two records. -/
def Still (log log' : List ClientAct) : Prop :=
  ∀ k, sentEvents log' k = sentEvents log k ∧ (ClientAct.close k ∈ log → ClientAct.close k ∈ log')

theorem still_snoc (hs : sender a = none) : Still log (log ++ [a]) :=
  fun _ => ⟨sentEvents_snoc_of_ne (by simp [hs]), fun h => List.mem_append_left _ h⟩

theorem Reaches.still {up up' : Link Msg} {log' : List ClientAct} {k : Nat}
    {evs : List (SessionEvent Tagged)} (h : Reaches up log k evs) (hlog : Still log log')
    (hh : Healthy up' → Healthy up) : Reaches up' log' k evs := by
  rw [Reaches, (hlog k).1]
  exact h.mono (hlog k).2 hh

theorem Way.still (hw : Way s log) {log' : List ClientAct} (hup : u.up = s.up)
    (henc : u.clientEnc = s.clientEnc) (hdec : u.serverDec = s.serverDec) (hinst : Extends s u)
    (hlog : Still log log') : Way u log' := by
  refine ⟨hup ▸ hw.ordered, ?_, hup ▸ hw.quiet, ?_, ?_⟩
  · rw [hup, henc, hdec]
    exact hw.synced
  · intro f hf
    obtain ⟨y, hy, hsid⟩ := hw.frames f (hup ▸ hf)
    obtain ⟨z, hz, hzs⟩ := hinst _ y hy
    exact ⟨z, hz, hzs.trans hsid⟩
  · intro before f after heq ho
    rw [hup] at heq ⊢
    exact (hw.opens before f after heq ho).still hlog id

theorem Serving.still (hv : Serving s log) {log' : List ClientAct}
    (hpend : pending u.up = pending s.up) (hh : Healthy u.up → Healthy s.up) (hinst : Extends s u)
    (hlog : Still log log') (htasks : SameTasks s.tasks u.tasks)
    (hreg : Shrinks s.serverReg u.serverReg) : Serving u log' := by
  refine ⟨hv.housed.shed htasks hreg, ?_, ?_, ?_⟩
  · intro t ht
    obtain ⟨j, hj⟩ := List.mem_iff_getElem?.mp ht
    obtain ⟨t', ht', hsid, howner⟩ := htasks.2 j t hj
    obtain ⟨y, hy, hys⟩ := hv.owners t' (List.mem_of_getElem? ht')
    obtain ⟨z, hz, hzs⟩ := hinst _ y hy
    exact ⟨z, howner ▸ hz, hzs.trans (hys.trans hsid)⟩
  · intro sid c t ch hf ht hch hrecv
    obtain ⟨t', ht', -, howner⟩ := htasks.2 c t ht
    obtain ⟨ch', hch', hq, hr⟩ := hreg.channels c ch hch
    have := hv.live sid c t' ch' (hreg.sessions sid c hf) ht' hch' (hr hrecv)
    rw [howner, hq, ← hpend] at this
    exact this.still hlog hh
  · intro j t ch ht hch
    obtain ⟨t', ht', -, howner⟩ := htasks.2 j t ht
    obtain ⟨ch', hch', hq, -⟩ := hreg.channels j ch hch
    have := hv.kept j t' ch' ht' hch'
    rw [howner, hq] at this
    rw [(hlog t.owner).1]
    exact this.mono (hlog t.owner).2 id

theorem Way.control (hw : Way s log) {priority : Bool} (hs : sender a = none)
    (hu : usesSessionOrder c.ftype = false) (he : eventOf (stamp s.clientEnc c).1 = none)
    (ht : c.ftype ≠ .datagram) : Way (clientSend s priority c) (log ++ [a]) := by
  have hup : (clientSend s priority c).up =
      s.up.sendItemTo priority ⟨(stamp s.clientEnc c).1, true⟩ := by
    simp [clientSend, ht]
  obtain ⟨ho, hiff⟩ := ordered_send hw.ordered priority (stamp s.clientEnc c).1 (fun _ => hu)
  have hpend : pending (clientSend s priority c).up = pending s.up := by
    rw [hup]
    exact pending_send_other hu
  refine ⟨hup ▸ ho, ?_, ?_, ?_, ?_⟩
  · rw [hup]
    exact hw.synced.send_other hw.ordered hu
  · intro f hf hfu
    rw [hup] at hf
    rcases mem_msgs_sendItemTo hf with rfl | hf
    · exact he
    · exact hw.quiet f hf hfu
  · intro f hf
    exact hw.frames f (hpend ▸ hf)
  · intro before f after heq hfo
    refine (hw.opens before f after (hpend ▸ heq) hfo).still (still_snoc hs) ?_
    rw [hup]
    exact hiff.mp

/-- A step of the link: something arrives, or nothing does; something may be lost with the
thread. -/
structure Shifted (l l' : Link Msg) (head : List Msg) (lost : List Msg) : Prop where
  ordered : Ordered l'
  healthy : Healthy l' → Healthy l ∧ lost = []
  pending : Uplink.pending l = head ++ Uplink.pending l' ++ lost
  msgs : ∀ f ∈ l'.msgs, f ∈ l.msgs

theorem shifted {act : LinkAct} {out : Option Msg} {l l' : Link Msg} (ho : Ordered l)
    (h : l.act act = some (out, l')) :
    ∃ lost, Shifted l l' (out.toList.filter fun f => usesSessionOrder f.ftype) lost := by
  obtain ⟨ho', hh, lost, hpend, hlost⟩ := pending_act ho h
  exact ⟨lost, ho', fun hl => ⟨hh hl, hlost hl⟩, hpend, (mem_msgs_act h).1⟩

theorem Way.feed {act : LinkAct} {f : Msg} {link : Link Msg} (hw : Way s log)
    (hact : s.up.act act = some (some f, link)) :
    (feedFrame (countRx s.serverDec) f).1 = [f] ∧
    Synced s.clientEnc link (feedFrame (countRx s.serverDec) f).2 := by
  cases hu : usesSessionOrder f.ftype with
  | true => exact hw.synced.arrive hw.ordered hact hu
  | false =>
      rw [feedFrame_unordered _ hu]
      refine ⟨rfl, hw.synced.other hw.ordered hact ?_⟩
      intro g hg
      rw [← Option.some.inj hg]
      exact hu

theorem Shifted.events {l l' : Link Msg} {head lost : List Msg} (h : Shifted l l' head lost)
    (sid : UInt16) (hh : Healthy l') : Healthy l ∧ eventsOn sid lost = [] := by
  obtain ⟨hl, rfl⟩ := h.healthy hh
  exact ⟨hl, rfl⟩

theorem Way.shift {l' : Link Msg} {dec : MuxDecoder Tagged} {head lost : List Msg} (hw : Way s log)
    (h : Shifted s.up l' head lost) (hsync : Synced s.clientEnc l' dec) (hup : u.up = l')
    (henc : u.clientEnc = s.clientEnc)
    (hdec : u.serverDec = dec) (hinst : u.instances = s.instances) : Way u log := by
  subst hup hdec
  refine ⟨h.ordered, henc ▸ hsync, fun f hf => hw.quiet f (h.msgs f hf), ?_, ?_⟩
  · intro f hf
    rw [hinst]
    apply hw.frames f
    rw [h.pending]
    exact List.mem_append_left _ (List.mem_append_right _ hf)
  · intro before f after heq hfo
    have hsplit : pending s.up = (head ++ before) ++ f :: (after ++ lost) := by
      rw [h.pending, heq]
      simp
    have := hw.opens _ f _ hsplit hfo
    rw [eventsOn_append] at this
    exact this.cut id (h.events _)

theorem Serving.shift {l' : Link Msg} {lost : List Msg} (hv : Serving s log)
    (h : Shifted s.up l' [] lost) (hup : u.up = l') (hinst : u.instances = s.instances)
    (htasks : u.tasks = s.tasks) (hreg : u.serverReg = s.serverReg) : Serving u log := by
  subst hup
  refine ⟨hv.housed.of_eq htasks hreg,
    by rw [htasks, hinst]; exact hv.owners, ?_, by rw [htasks, hreg]; exact hv.kept⟩
  intro sid k t ch hf ht hch hr
  rw [hreg] at hf hch
  rw [htasks] at ht
  have hlive := hv.live sid k t ch hf ht hch hr
  rw [h.pending, List.nil_append, eventsOn_append, ← List.append_assoc] at hlive
  exact hlive.cut id (h.events _)

section Arrive

variable {w : Sys} {f : Msg} {lost : List Msg}

theorem Serving.live_arrive (hv : Serving s log) (h : Shifted s.up w.up [f] lost) {sid : UInt16}
    {k : Nat} {t : Task} {ch : Channel Tagged} (hf : find s.serverReg.sessions sid = some k)
    (ht : s.tasks[k]? = some t)
    (hch : s.serverReg.channels[k]? = some ch) (hr : ch.receiver = true) :
    Reaches w.up log t.owner (ch.queue ++ eventsOn sid [f] ++ eventsOn sid (pending w.up)) := by
  have hlive := hv.live sid k t ch hf ht hch hr
  rw [h.pending, eventsOn_append, eventsOn_append, ← List.append_assoc,
    ← List.append_assoc] at hlive
  exact hlive.cut id (h.events _)

theorem Serving.arrive_routed (hv : Serving s log) (h : Shifted s.up w.up [f] lost)
    (hinst : w.instances = s.instances) (htasks : w.tasks = s.tasks)
    (hreg : w.serverReg = s.serverReg) (hno : ¬ Opens w f) :
    Serving (dispatchOneFrame w f) log := by
  obtain ⟨htasks', hreg'⟩ := routed_dispatchOneFrame hno
  rw [htasks] at htasks'
  rw [hreg] at hreg'
  obtain ⟨hup', -, -, hinst'⟩ := fields_dispatchOneFrame w f
  refine ⟨(hv.housed.of_eq htasks hreg).dispatchOneFrame f, ?_, ?_, ?_⟩
  · rw [htasks', hinst', hinst]
    exact hv.owners
  · intro sid k t ch' hf ht hch' hr
    rw [hreg'] at hch'
    rw [hreg', sessions_dispatchFrame] at hf
    rw [htasks'] at ht
    rw [hup']
    rcases channel_dispatchFrame hch' with ⟨hch, hnone⟩ | ⟨e, ch, he, hfe, hch, hrecv, rfl⟩
    · have hlive := hv.live_arrive h hf ht hch hr
      have hnil : eventsOn sid [f] = [] := by
        rw [eventsOn_singleton]
        split
        next hsid => rw [hnone (hsid ▸ hf) hr]; rfl
        next => rfl
      rw [hnil, List.append_nil] at hlive
      exact hlive
    · have hsid : f.sessionId = sid := hv.housed.sid_unique hfe hf
      have hlive := hv.live_arrive h hf ht hch hrecv
      rw [eventsOn_singleton, if_pos hsid, he] at hlive
      exact hlive
  · intro j t ch' ht hch'
    rw [hreg'] at hch'
    rw [htasks'] at ht
    rcases channel_dispatchFrame hch' with ⟨hch, -⟩ | ⟨e, ch, he, hfe, hch, hrecv, rfl⟩
    · exact hv.kept j t ch' ht hch
    · have hlive := hv.live_arrive h hfe ht hch hrecv
      rw [eventsOn_singleton, if_pos rfl, he] at hlive
      exact hlive.cut id False.elim

theorem Serving.arrive_opened (hv : Serving s log) (hw : Way s log) (h : Shifted s.up w.up [f] lost)
    (hinst : w.instances = s.instances) (htasks : w.tasks = s.tasks)
    (hreg : w.serverReg = s.serverReg) (ho : Opens w f) : Serving (dispatchOneFrame w f) log := by
  have hhoused : Housed w := hv.housed.of_eq htasks hreg
  obtain ⟨htasks', hreg'⟩ := opened_dispatchOneFrame ho
  obtain ⟨hup', -, -, hinst'⟩ := fields_dispatchOneFrame w f
  have hnew : Reaches w.up log (owner f) (eventsOn f.sessionId (pending w.up)) := by
    have hsplit : pending s.up = [] ++ f :: (pending w.up ++ lost) := by
      rw [h.pending]
      simp
    have := hw.opens [] f _ hsplit ho.1
    rw [eventsOn_append] at this
    exact this.cut id (h.events _)
  refine ⟨hhoused.dispatchOneFrame f, ?_, ?_, ?_⟩
  · intro t ht
    rw [htasks', htasks] at ht
    rw [hinst', hinst]
    rcases List.mem_append.mp ht with ht | ht
    · exact hv.owners t ht
    · rw [List.mem_singleton.mp ht]
      apply hw.frames f
      rw [h.pending]
      simp
  · intro sid k t ch hf ht hch hr
    rw [hreg', find_register] at hf
    rw [hup']
    rcases hhoused.opened_cases ho ht hch with ⟨ht, hch⟩ | ⟨rfl, rfl, rfl⟩
    · have hlt := (List.getElem?_eq_some_iff.mp hch).1
      split at hf
      next => exact absurd (Option.some.inj hf) (Nat.ne_of_gt hlt)
      next hsid =>
        have hlive := hv.live_arrive h (hreg ▸ hf) (htasks ▸ ht) (hreg ▸ hch) hr
        rw [eventsOn_singleton, if_neg (Ne.symm hsid), List.append_nil] at hlive
        exact hlive
    · split at hf
      next hsid =>
        rw [hsid]
        exact hnew
      next =>
        obtain ⟨t', ht', -⟩ := hhoused.entries sid _ hf
        have := (List.getElem?_eq_some_iff.mp ht').1
        rw [hhoused.length] at this
        exact absurd this (Nat.lt_irrefl _)
  · intro j t ch ht hch
    rcases hhoused.opened_cases ho ht hch with ⟨ht, hch⟩ | ⟨-, rfl, rfl⟩
    · exact hv.kept j t ch (htasks ▸ ht) (hreg ▸ hch)
    · have hcut : Reaches w.up log (owner f) ([] ++ eventsOn f.sessionId (pending w.up)) := hnew
      exact hcut.cut id False.elim

theorem Serving.arrive_other (hv : Serving s log) (h : Shifted s.up w.up [] lost)
    (hinst : w.instances = s.instances) (htasks : w.tasks = s.tasks)
    (hreg : w.serverReg = s.serverReg) (hu : usesSessionOrder f.ftype = false)
    (he : eventOf f = none) : Serving (dispatchOneFrame w f) log := by
  have hno : ¬ Opens w f := by
    intro ho
    rw [ho.1] at hu
    simp [usesSessionOrder] at hu
  obtain ⟨htasks', hreg'⟩ := routed_dispatchOneFrame hno
  rw [dispatchFrame_registry, he] at hreg'
  obtain ⟨hup', -, -, hinst'⟩ := fields_dispatchOneFrame w f
  exact hv.shift h hup' (hinst'.trans hinst) (htasks'.trans htasks) (hreg'.trans hreg)

end Arrive

end Steps

end SrtVpn.Arrivals
