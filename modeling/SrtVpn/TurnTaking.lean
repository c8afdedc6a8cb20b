import SrtVpn.Endpoints
import SrtVpn.Transparency

namespace SrtVpn.TurnTaking

open BigEndian Tables Wire Encoder SeqNumbers Dispatch Endpoints

def sender : ClientAct → Option Nat
  | .open i _ => some i
  | .data i _ => some i
  | .fin i => some i
  | .close i => some i
  | _ => none

def framesOf (log : List ClientAct) (i : Nat) : Nat := log.countP fun a => sender a = some i

def dataOf (i : Nat) : ClientAct → Option Bytes
  | .data k payload => if k = i then some payload else none
  | _ => none

def sentBytes (log : List ClientAct) (i : Nat) : Bytes := (log.filterMap (dataOf i)).flatten

section Log

variable {log : List ClientAct} {a : ClientAct} {i : Nat}

/-- The event the frame of an act becomes at the server, if the act is of instance `i`. -/
def frameEvent (i : Nat) : ClientAct → Option (SessionEvent Tagged)
  | .data k payload => if k = i then some (.data (i, payload)) else none
  | .fin k => if k = i then some .fin else none
  | .close k => if k = i then some .close else none
  | _ => none

def sentEvents (log : List ClientAct) (i : Nat) : List (SessionEvent Tagged) :=
  log.filterMap (frameEvent i)

theorem frameEvent_of_ne (h : sender a ≠ some i) : frameEvent i a = none := by
  cases a <;> simp_all [sender, frameEvent]

theorem framesOf_snoc (log : List ClientAct) (a : ClientAct) (i : Nat) :
    framesOf (log ++ [a]) i = framesOf log i + if sender a = some i then 1 else 0 := by
  simp [framesOf, List.countP_append, List.countP_singleton]

theorem framesOf_snoc_of_ne (h : sender a ≠ some i) : framesOf (log ++ [a]) i = framesOf log i := by
  rw [framesOf_snoc, if_neg h, Nat.add_zero]

theorem sentEvents_snoc (log : List ClientAct) (a : ClientAct) (i : Nat) :
    sentEvents (log ++ [a]) i = sentEvents log i ++ (frameEvent i a).toList := by
  rw [sentEvents, List.filterMap_append]
  cases h : frameEvent i a <;> simp [sentEvents, h]

theorem sentEvents_snoc_of_ne (h : sender a ≠ some i) :
    sentEvents (log ++ [a]) i = sentEvents log i := by
  rw [sentEvents_snoc, frameEvent_of_ne h]
  exact List.append_nil _

theorem sentEvents_eq_nil (h : framesOf log i = 0) : sentEvents log i = [] := by
  rw [framesOf, List.countP_eq_zero] at h
  rw [sentEvents, List.filterMap_eq_nil_iff]
  intro a ha
  exact frameEvent_of_ne (by simpa using h a ha)

theorem close_mem_snoc (h : a ≠ .close i) :
    ClientAct.close i ∈ log ++ [a] ↔ ClientAct.close i ∈ log := by
  simp [Ne.symm h]

def payloadOf : SessionEvent Tagged → Option Bytes
  | .data p => some p.2
  | _ => none

theorem data_of_sentEvents {ps : List Tagged} (h : ps.map .data <+: sentEvents log i) :
    (∀ p ∈ ps, p.1 = i) ∧ (ps.map Prod.snd).flatten <+: sentBytes log i := by
  constructor
  · intro p hp
    obtain ⟨a, -, ha⟩ := List.mem_filterMap.mp (h.subset (List.mem_map_of_mem hp))
    cases a with
    | data k payload =>
        obtain ⟨-, he⟩ := Option.ite_some_none_eq_some.mp ha
        rw [← SessionEvent.data.inj he]
    | fin k => simp [frameEvent] at ha
    | close k => simp [frameEvent] at ha
    | _ => simp [frameEvent] at ha
  · have hpayload : (sentEvents log i).filterMap payloadOf = log.filterMap (dataOf i) := by
      rw [sentEvents, List.filterMap_filterMap]
      congr 1
      funext a
      cases a with
      | data k payload => by_cases hk : k = i <;> simp [frameEvent, dataOf, payloadOf, hk]
      | fin k => by_cases hk : k = i <;> simp [frameEvent, dataOf, payloadOf, hk]
      | close k => by_cases hk : k = i <;> simp [frameEvent, dataOf, payloadOf, hk]
      | _ => rfl
    have hps : (ps.map SessionEvent.data).filterMap payloadOf = ps.map Prod.snd := by
      rw [List.filterMap_map]
      exact congrFun List.filterMap_eq_map ps
    obtain ⟨rest, hrest⟩ := h.filterMap payloadOf
    rw [hps, hpayload] at hrest
    rw [sentBytes, ← hrest, List.flatten_append]
    exact List.prefix_append _ _

end Log

section Client

variable {instances : List Instance} {enc : MuxEncoder} {log : List ClientAct}
  {i : Nat} {x : Instance}

/-- The sessions of the client use their ids one after the other, and the encoder numbers the frames
of each from its Open on. -/
structure Client (instances : List Instance) (enc : MuxEncoder) (log : List ClientAct) : Prop where
  dir : enc.dirAcceptor = false
  tcp : ∀ x ∈ instances, x.udp = false
  known : ∀ i, framesOf log i ≠ 0 → i < instances.length
  fresh : ∀ i x, instances[i]? = some x → x.phase = .allocated → framesOf log i = 0
  numbered : ∀ i x, instances[i]? = some x → x.phase = .opened →
    (sidTx enc x.sid).epoch ≠ 0 ∧ (sidTx enc x.sid).seq = framesOf log i ∧ framesOf log i ≠ 0
  closed : ∀ i x, instances[i]? = some x → ClientAct.close i ∈ log →
    x.phase = .closed ∨ x.phase = .dropped
  turns : ∀ i j x y, i < j → instances[i]? = some x → instances[j]? = some y → x.sid = y.sid →
    ClientAct.close i ∈ log

theorem client_start (reliable : Bool) : Client [] (MuxEncoder.new reliable) [] := by
  refine ⟨rfl, by simp, ?_, by simp, by simp, by simp, by simp⟩
  intro i h
  exact absurd rfl h

theorem Client.open_of_phase (h : Client instances enc log) (hx : instances[i]? = some x)
    (hphase : x.phase = .allocated ∨ x.phase = .opened) : ClientAct.close i ∉ log := by
  intro hclose
  rcases h.closed i x hx hclose with hc | hc <;> rcases hphase with hp | hp <;> simp [hc] at hp

theorem Client.closed_of_ne (h : Client instances enc log) (hx : instances[i]? = some x)
    (hopen : ClientAct.close i ∉ log) {k : Nat} {y : Instance} (hy : instances[k]? = some y)
    (hsid : y.sid = x.sid) (hne : k ≠ i) : ClientAct.close k ∈ log := by
  rcases Nat.lt_or_gt_of_ne hne with hlt | hlt
  · exact h.turns k i y x hlt hy hx hsid
  · exact absurd (h.turns i k x y hlt hx hy hsid.symm) hopen

theorem getElem?_modify_phase {k : Nat} {p : Phase} {y : Instance}
    (hy : (instances.modify i fun x => { x with phase := p })[k]? = some y) :
    ∃ z, instances[k]? = some z ∧ y.sid = z.sid ∧ y.udp = z.udp ∧
    y.phase = if i = k then p else z.phase := by
  rw [List.getElem?_modify] at hy
  obtain ⟨z, hz, rfl⟩ := Option.map_eq_some_iff.mp hy
  refine ⟨z, hz, ?_⟩
  split <;> exact ⟨rfl, rfl, rfl⟩

theorem Client.tcp_modify (h : Client instances enc log) {p : Phase} :
    ∀ y ∈ instances.modify i fun x => { x with phase := p }, y.udp = false := by
  intro y hy
  obtain ⟨k, hk⟩ := List.mem_iff_getElem?.mp hy
  obtain ⟨z, hz, -, hudp, -⟩ := getElem?_modify_phase hk
  rw [hudp]
  exact h.tcp z (List.mem_of_getElem? hz)

theorem Client.turns_modify (h : Client instances enc log) {p : Phase} {k j : Nat} {y z : Instance}
    (hkj : k < j) (hy : (instances.modify i fun x => { x with phase := p })[k]? = some y)
    (hz : (instances.modify i fun x => { x with phase := p })[j]? = some z)
      (heq : y.sid = z.sid) : ClientAct.close k ∈ log := by
  obtain ⟨y', hy', hsid, -⟩ := getElem?_modify_phase hy
  obtain ⟨z', hz', hsid', -⟩ := getElem?_modify_phase hz
  exact h.turns k j y' z' hkj hy' hz' (hsid.symm.trans (heq.trans hsid'))

theorem Client.stamp_ordered (h : Client instances enc log) (hx : instances[i]? = some x)
    {c : Call Tagged} (hsid : c.sessionId = x.sid) (hopened : c.ftype ≠ .open → x.phase = .opened)
    (hbound : framesOf log i + 1 < 2 ^ 24 - 1) (hu : usesSessionOrder c.ftype = true) :
    (stamp enc c).1.sseq = 0 → c.ftype = .open := by
  intro hz
  by_contra ho
  obtain ⟨he, hseq, hne⟩ := h.numbered i x hx (hopened ho)
  rw [← hsid] at he hseq
  have hlt : (sidTx enc c.sessionId).seq < seqMask.toNat := by
    rw [hseq, toNat_seqMask]
    omega
  rw [sseq_stamp enc c hu, generation_continues c.ftype he ho hlt, hseq] at hz
  exact hne hz

theorem Client.sidTx_send (h : Client instances enc log) (hx : instances[i]? = some x)
    (hphase : x.phase = .allocated ∨ x.phase = .opened) {c : Call Tagged}
    (hsid : c.sessionId = x.sid)
    (hu : usesSessionOrder c.ftype = true) (hopen : c.ftype = .open ↔ x.phase = .allocated)
    (hbound : framesOf log i + 1 < 2 ^ 24 - 1) :
    (sidTx (stamp enc c).2 x.sid).epoch ≠ 0 ∧
    (sidTx (stamp enc c).2 x.sid).seq = framesOf log i + 1 := by
  rw [sidTx_stamp, ← hsid, if_pos (Call.ofSession_iff.mpr ⟨hu, rfl⟩)]
  refine ⟨generation_epoch_ne_zero enc c.ftype c.sessionId, ?_⟩
  by_cases ho : c.ftype = .open
  · rw [h.fresh i x hx (hopen.mp ho)]
    simp [generation, ho]
  · obtain ⟨he, hseq, -⟩ := h.numbered i x hx (hphase.resolve_left fun hal => ho (hopen.mpr hal))
    rw [← hsid] at he hseq
    rw [generation_continues c.ftype he ho (by rw [hseq, toNat_seqMask]; omega), hseq]

theorem Client.send (h : Client instances enc log) (hx : instances[i]? = some x)
    (hphase : x.phase = .allocated ∨ x.phase = .opened) {a : ClientAct} {c : Call Tagged}
    {p : Phase} (hs : sender a = some i)
    (hsid : c.sessionId = x.sid) (hu : usesSessionOrder c.ftype = true)
    (hopen : c.ftype = .open ↔ x.phase = .allocated)
    (hbound : framesOf log i + 1 < 2 ^ 24 - 1) (hp : p = .opened ∨ p = .closed)
    (hclose : a = .close i → p = .closed) :
    Client (instances.modify i fun x => { x with phase := p }) (stamp enc c).2 (log ++ [a]) := by
  have hopened := h.open_of_phase hx hphase
  have hlt : i < instances.length := (List.getElem?_eq_some_iff.mp hx).1
  refine ⟨?_, h.tcp_modify, ?_, ?_, ?_, ?_, ?_⟩
  · rw [Transparency.dirAcceptor_stamp]
    exact h.dir
  · intro k hk
    rw [List.length_modify]
    by_cases hki : k = i
    · rw [hki]
      exact hlt
    · rw [framesOf_snoc_of_ne (by rw [hs]; simp [Ne.symm hki])] at hk
      exact h.known k hk
  · intro k y hy hal
    obtain ⟨z, hz, -, -, hyp⟩ := getElem?_modify_phase hy
    rw [hal] at hyp
    by_cases hki : i = k
    · rw [if_pos hki] at hyp
      rcases hp with rfl | rfl <;> simp at hyp
    · rw [if_neg hki] at hyp
      rw [framesOf_snoc_of_ne (by rw [hs]; simp [hki])]
      exact h.fresh k z hz hyp.symm
  · intro k y hy hyo
    obtain ⟨z, hz, hsid', -, hyp⟩ := getElem?_modify_phase hy
    rw [hyo] at hyp
    rw [hsid']
    by_cases hki : i = k
    · subst hki
      obtain rfl : x = z := Option.some.inj (hx.symm.trans hz)
      rw [framesOf_snoc, if_pos hs]
      obtain ⟨he, hseq⟩ := h.sidTx_send hx hphase hsid hu hopen hbound
      exact ⟨he, hseq, Nat.succ_ne_zero _⟩
    · rw [if_neg hki] at hyp
      have hzsid : z.sid ≠ x.sid := by
        intro heq
        have hclosed := h.closed_of_ne hx hopened hz heq (Ne.symm hki)
        rcases h.closed k z hz hclosed with hc | hc <;> simp [hc] at hyp
      rw [framesOf_snoc_of_ne (by rw [hs]; simp [hki]), sidTx_stamp,
        if_neg (by simp [Call.ofSession, hsid, Ne.symm hzsid])]
      exact h.numbered k z hz hyp.symm
  · intro k y hy hmem
    obtain ⟨z, hz, -, -, hyp⟩ := getElem?_modify_phase hy
    rw [hyp]
    by_cases hki : i = k
    · subst hki
      rw [if_pos rfl]
      rcases List.mem_append.mp hmem with hmem | hmem
      · exact absurd hmem hopened
      · exact Or.inl (hclose (List.mem_singleton.mp hmem).symm)
    · rw [if_neg hki]
      have hne : a ≠ .close k := by
        rintro rfl
        exact hki (Option.some.inj hs).symm
      exact h.closed k z hz ((close_mem_snoc hne).mp hmem)
  · intro k j y z hkj hy hz heq
    exact List.mem_append_left _ (h.turns_modify hkj hy hz heq)

theorem Client.quiet (h : Client instances enc log) {a : ClientAct} (hs : sender a = none) :
    Client instances enc (log ++ [a]) := by
  have hframes : ∀ k, framesOf (log ++ [a]) k = framesOf log k :=
    fun k => framesOf_snoc_of_ne (by simp [hs])
  have hclose : ∀ k, ClientAct.close k ∈ log ++ [a] ↔ ClientAct.close k ∈ log := by
    intro k
    apply close_mem_snoc
    rintro rfl
    simp [sender] at hs
  refine ⟨h.dir, h.tcp, ?_, ?_, ?_, ?_, ?_⟩
  · intro k hk
    exact h.known k (hframes k ▸ hk)
  · intro k y hy hal
    rw [hframes]
    exact h.fresh k y hy hal
  · intro k y hy hyo
    rw [hframes]
    exact h.numbered k y hy hyo
  · intro k y hy hmem
    exact h.closed k y hy ((hclose k).mp hmem)
  · intro k j y z hkj hy hz heq
    exact (hclose k).mpr (h.turns k j y z hkj hy hz heq)

theorem Client.drop (h : Client instances enc log) (i : Nat) :
    Client (instances.modify i fun x => { x with phase := .dropped }) enc log := by
  refine ⟨h.dir, h.tcp_modify, ?_, ?_, ?_, ?_,
    fun _ _ _ _ hkj hy hz heq => h.turns_modify hkj hy hz heq⟩
  · intro k hk
    rw [List.length_modify]
    exact h.known k hk
  · intro k y hy hal
    obtain ⟨z, hz, -, -, hyp⟩ := getElem?_modify_phase hy
    rw [hal] at hyp
    split at hyp
    · simp at hyp
    · exact h.fresh k z hz hyp.symm
  · intro k y hy hyo
    obtain ⟨z, hz, hsid, -, hyp⟩ := getElem?_modify_phase hy
    rw [hyo] at hyp
    rw [hsid]
    split at hyp
    · simp at hyp
    · exact h.numbered k z hz hyp.symm
  · intro k y hy hmem
    obtain ⟨z, hz, -, -, hyp⟩ := getElem?_modify_phase hy
    rw [hyp]
    split
    · exact Or.inr rfl
    · exact h.closed k z hz hmem

theorem Client.allocate (h : Client instances enc log) {sid : UInt16}
    (hclosed : ∀ k y, instances[k]? = some y → y.sid = sid → ClientAct.close k ∈ log) :
    Client (instances ++ [⟨sid, false, .allocated⟩]) enc log := by
  have hold : ∀ k y, (instances ++ [⟨sid, false, .allocated⟩])[k]? = some y →
      instances[k]? = some y ∨ k = instances.length ∧ y = ⟨sid, false, .allocated⟩ := by
    intro k y hy
    rw [List.getElem?_append] at hy
    split at hy
    · exact Or.inl hy
    next hlt =>
      have hmem := List.getElem?_eq_some_iff.mp hy
      have hk := hmem.1
      rw [List.length_singleton] at hk
      refine Or.inr ⟨by omega, List.mem_singleton.mp (List.mem_of_getElem? hy)⟩
  refine ⟨h.dir, ?_, ?_, ?_, ?_, ?_, ?_⟩
  · intro y hy
    rcases List.mem_append.mp hy with hy | hy
    · exact h.tcp y hy
    · rw [List.mem_singleton.mp hy]
  · intro k hk
    rw [List.length_append]
    exact Nat.lt_of_lt_of_le (h.known k hk) (Nat.le_add_right _ _)
  · intro k y hy hal
    rcases hold k y hy with hy | ⟨rfl, -⟩
    · exact h.fresh k y hy hal
    · by_contra hk
      exact absurd (h.known _ hk) (Nat.lt_irrefl _)
  · intro k y hy hyo
    rcases hold k y hy with hy | ⟨-, rfl⟩
    · exact h.numbered k y hy hyo
    · simp at hyo
  · intro k y hy hmem
    rcases hold k y hy with hy | ⟨rfl, -⟩
    · exact h.closed k y hy hmem
    · exfalso
      apply Nat.lt_irrefl instances.length
      apply h.known
      rw [framesOf, ← Nat.pos_iff_ne_zero, List.countP_pos_iff]
      exact ⟨_, hmem, by simp [sender]⟩
  · intro k j y z hkj hy hz heq
    rcases hold k y hy with hy | ⟨rfl, -⟩
    · rcases hold j z hz with hz | ⟨-, rfl⟩
      · exact h.turns k j y z hkj hy hz heq
      · exact hclosed k y hy heq
    · rcases hold j z hz with hz | ⟨rfl, -⟩
      · have := (List.getElem?_eq_some_iff.mp hz).1
        omega
      · omega

theorem Client.control (h : Client instances enc log) {c : Call Tagged}
    (hc : usesSessionOrder c.ftype = false) : Client instances (stamp enc c).2 log := by
  refine ⟨?_, h.tcp, h.known, h.fresh, ?_, h.closed, h.turns⟩
  · rw [Transparency.dirAcceptor_stamp]
    exact h.dir
  · intro k y hy hyo
    rw [sidTx_stamp, if_neg (by simp [Call.ofSession, hc])]
    exact h.numbered k y hy hyo

end Client

end SrtVpn.TurnTaking
