import Mathlib.Data.List.Perm.Basic
import SrtVpn.BigEndian
import SrtVpn.Runs

namespace SrtVpn.Heartbeats

open BigEndian Runs

def encodeHeartbeat (nowMs : Int64) : Bytes := toLeBytes nowMs

def heartbeatTimestamp (payload : Bytes) : Option Int64 :=
  if payload.length ≠ 8 then none else some (fromLeBytes payload)

/-- What a party does with a Heartbeat: it takes the round-trip time, or sends the payload back. -/
inductive Reaction
  | measured (rttMs : Int64)
  | pong (payload : Bytes)

/-- The Heartbeat arm of `run_recv_inner`. -/
def clientHeartbeat (nowMs : Int64) (payload : Bytes) : Reaction :=
  match heartbeatTimestamp payload with
  | some ts =>
      let rtt := nowMs - ts
      if 0 ≤ rtt ∧ rtt < 60000 then .measured rtt else .pong payload
  | none => .pong payload

/-- The Heartbeat arm of `dispatch_one_frame`. -/
def serverHeartbeat (payload : Bytes) : Reaction := .pong payload

/-- A Heartbeat on its way. Only the payload is in the frame; the rest records which originated
heartbeat it goes back to, when by its sender's clock that was, and how often it was sent back. -/
structure Beat where
  origin : Nat
  stamp : Int64
  depth : Nat
  payload : Bytes
  deriving DecidableEq

structure Net where
  toServer : List Beat
  toClient : List Beat
  sent : List Beat
  started : Nat
  deriving DecidableEq

def Net.new : Net := ⟨[], [], [], 0⟩

/-- Both parties start heartbeats, and any frame under way may be the next to arrive, or be lost.
The clocks are read at each step and need not agree. -/
inductive Move
  | clientBeat (nowMs : Int64)
  | serverBeat (nowMs : Int64)
  | atServer (i : Nat)
  | atClient (i : Nat) (nowMs : Int64)
  | lostToServer (i : Nat)
  | lostToClient (i : Nat)

def Net.originated (s : Net) (nowMs : Int64) : Beat := ⟨s.started, nowMs, 0, encodeHeartbeat nowMs⟩

def Net.sendToServer (s : Net) (b : Beat) :
    Net := { s with toServer := s.toServer ++ [b], sent := s.sent ++ [b] }

def Net.sendToClient (s : Net) (b : Beat) :
    Net := { s with toClient := s.toClient ++ [b], sent := s.sent ++ [b] }

def Beat.echo (b : Beat) (payload : Bytes) :
    Beat := { b with depth := b.depth + 1, payload := payload }

def step (s : Net) : Move → Option Net
  | .clientBeat nowMs => some { s.sendToServer (s.originated nowMs) with started := s.started + 1 }
  | .serverBeat nowMs => some { s.sendToClient (s.originated nowMs) with started := s.started + 1 }
  | .atServer i => s.toServer[i]?.map fun b =>
      let s := { s with toServer := s.toServer.eraseIdx i }
      match serverHeartbeat b.payload with
      | .measured _ => s
      | .pong payload => s.sendToClient (b.echo payload)
  | .atClient i nowMs => s.toClient[i]?.map fun b =>
      let s := { s with toClient := s.toClient.eraseIdx i }
      match clientHeartbeat nowMs b.payload with
      | .measured _ => s
      | .pong payload => s.sendToServer (b.echo payload)
  | .lostToServer i => some { s with toServer := s.toServer.eraseIdx i }
  | .lostToClient i => some { s with toClient := s.toClient.eraseIdx i }

/-- No frame was sent back that had been sent back before, and no heartbeat became more than two
frames. -/
structure DiesOut (s : Net) : Prop where
  once : ∀ b ∈ s.sent, b.depth ≤ 1
  bounded : ∀ id, (s.sent.filter (·.origin = id)).length ≤ 2

/-- A Heartbeat reaches the client less than a minute after it was started, by the client's clock
then and the clock of whoever started it. -/
def OnTime (s : Net) : Move → Prop
  | .atClient i nowMs =>
      ∀ b, s.toClient[i]? = some b → 0 ≤ nowMs - b.stamp ∧ nowMs - b.stamp < 60000
  | _ => True

theorem clientHeartbeat_encode (nowMs ts : Int64) : clientHeartbeat nowMs (encodeHeartbeat ts) =
    if 0 ≤ nowMs - ts ∧ nowMs - ts < 60000 then .measured (nowMs - ts)
    else .pong (encodeHeartbeat ts) := by
  have hts : heartbeatTimestamp (encodeHeartbeat ts) = some ts := by
    rw [heartbeatTimestamp, encodeHeartbeat, length_toLeBytes, fromLeBytes_toLeBytes]
    rfl
  rw [clientHeartbeat, hts]

/-- Every frame carries the payload its heartbeat was started with. -/
def Stamped (s : Net) : Prop := ∀ b ∈ s.toServer ++ s.toClient, b.payload = encodeHeartbeat b.stamp

def total (s : Net) (id : Nat) : Nat :=
  (s.sent.filter (·.origin = id)).length + (s.toServer.filter (·.origin = id)).length

structure Calm (s : Net) : Prop where
  first : ∀ b ∈ s.toServer, b.depth = 0
  once : ∀ b ∈ s.sent, b.depth ≤ 1
  fresh : ∀ b ∈ s.toServer ++ s.sent, b.origin < s.started
  total_le : ∀ id, total s id ≤ 2

section Steps

variable {s s' : Net}

theorem atServer_eq {i : Nat} (h : step s (.atServer i) = some s') : ∃ b, s.toServer[i]? = some b ∧
    s' = { s with toServer := s.toServer.eraseIdx i }.sendToClient (b.echo b.payload) := by
  obtain ⟨b, hb, rfl⟩ := Option.map_eq_some_iff.mp h
  exact ⟨b, hb, rfl⟩

theorem atClient_eq (hs : Stamped s) {i : Nat} {nowMs : Int64}
    (h : step s (.atClient i nowMs) = some s') : ∃ b, s.toClient[i]? = some b ∧
      s' =
        if 0 ≤ nowMs - b.stamp ∧ nowMs - b.stamp < 60000 then
          { s with toClient := s.toClient.eraseIdx i }
        else { s with toClient := s.toClient.eraseIdx i }.sendToServer (b.echo b.payload) := by
  obtain ⟨b, hb, rfl⟩ := Option.map_eq_some_iff.mp h
  have hpayload := hs b (List.mem_append_right _ (List.mem_of_getElem? hb))
  refine ⟨b, hb, ?_⟩
  rw [hpayload, clientHeartbeat_encode]
  by_cases hfresh : 0 ≤ nowMs - b.stamp ∧ nowMs - b.stamp < 60000
  · rw [if_pos hfresh, if_pos hfresh]
  · rw [if_neg hfresh, if_neg hfresh]

theorem Stamped.of_subset (hs : Stamped s)
    (hsub : s'.toServer ++ s'.toClient ⊆ s.toServer ++ s.toClient) : Stamped s' :=
  fun b hb => hs b (hsub hb)

theorem Stamped.sendToServer {b : Beat} (hs : Stamped s)
    (hb : b.payload = encodeHeartbeat b.stamp) : Stamped (s.sendToServer b) := by
  intro c hc
  simp only [Net.sendToServer, List.mem_append, List.mem_singleton] at hc
  rcases hc with (hc | rfl) | hc
  · exact hs c (List.mem_append_left _ hc)
  · exact hb
  · exact hs c (List.mem_append_right _ hc)

theorem Stamped.sendToClient {b : Beat} (hs : Stamped s)
    (hb : b.payload = encodeHeartbeat b.stamp) : Stamped (s.sendToClient b) := by
  intro c hc
  simp only [Net.sendToClient, List.mem_append, List.mem_singleton] at hc
  rcases hc with hc | hc | rfl
  · exact hs c (List.mem_append_left _ hc)
  · exact hs c (List.mem_append_right _ hc)
  · exact hb

theorem Stamped.eraseServer (hs : Stamped s) (i : Nat) :
    Stamped { s with toServer := s.toServer.eraseIdx i } := by
  apply hs.of_subset
  exact List.append_subset.mpr
    ⟨List.Subset.trans (List.eraseIdx_subset) (List.subset_append_left _ _),
    List.subset_append_right _ _⟩

theorem Stamped.eraseClient (hs : Stamped s) (i : Nat) :
    Stamped { s with toClient := s.toClient.eraseIdx i } := by
  apply hs.of_subset
  exact List.append_subset.mpr ⟨List.subset_append_left _ _,
    List.Subset.trans (List.eraseIdx_subset) (List.subset_append_right _ _)⟩

theorem Stamped.step (hs : Stamped s) {m : Move} (h : step s m = some s') : Stamped s' := by
  cases m with
  | clientBeat nowMs =>
      obtain rfl := Option.some.inj h
      exact hs.sendToServer rfl
  | serverBeat nowMs =>
      obtain rfl := Option.some.inj h
      exact hs.sendToClient rfl
  | atServer i =>
      obtain ⟨b, hb, rfl⟩ := atServer_eq h
      exact (hs.eraseServer i).sendToClient
        (hs b (List.mem_append_left _ (List.mem_of_getElem? hb)))
  | atClient i nowMs =>
      obtain ⟨b, hb, rfl⟩ := atClient_eq hs h
      split
      · exact hs.eraseClient i
      · exact (hs.eraseClient i).sendToServer
          (hs b (List.mem_append_right _ (List.mem_of_getElem? hb)))
  | lostToServer i =>
      obtain rfl := Option.some.inj h
      exact hs.eraseServer i
  | lostToClient i =>
      obtain rfl := Option.some.inj h
      exact hs.eraseClient i

theorem length_filter_append (l : List Beat) (b : Beat) (id : Nat) :
    ((l ++ [b]).filter (·.origin = id)).length =
    (l.filter (·.origin = id)).length + if b.origin = id then 1 else 0 := by
  rw [List.filter_append, List.length_append]
  by_cases hid : b.origin = id
  · simp [hid]
  · simp [hid]

theorem length_filter_eraseIdx {l : List Beat} {i : Nat} {b : Beat} (hb : l[i]? = some b)
    (id : Nat) : ((l.eraseIdx i).filter (·.origin = id)).length + (if b.origin = id then 1 else 0) =
      (l.filter (·.origin = id)).length := by
  obtain ⟨hi, rfl⟩ := List.getElem?_eq_some_iff.mp hb
  have hperm := ((List.getElem_cons_eraseIdx_perm hi).filter (·.origin = id)).length_eq
  by_cases hid : l[i].origin = id
  · rw [List.filter_cons_of_pos (by simpa using hid)] at hperm
    rw [if_pos hid, ← hperm, List.length_cons]
  · rw [List.filter_cons_of_neg (by simpa using hid)] at hperm
    rw [if_neg hid, ← hperm, Nat.add_zero]

theorem total_sendToServer (s : Net) (b : Beat) (id : Nat) :
    total (s.sendToServer b) id = total s id + if b.origin = id then 2 else 0 := by
  simp only [total, Net.sendToServer, length_filter_append]
  split <;> omega

theorem total_sendToClient (s : Net) (b : Beat) (id : Nat) :
    total (s.sendToClient b) id = total s id + if b.origin = id then 1 else 0 := by
  simp only [total, Net.sendToClient, length_filter_append]
  omega

theorem Calm.none_yet (hc : Calm s) : total s s.started = 0 := by
  have hnone (l : List Beat) (hl : ∀ b ∈ l, b.origin < s.started) :
      (l.filter (·.origin = s.started)).length = 0 := by
    rw [List.length_eq_zero_iff, List.filter_eq_nil_iff]
    intro b hb hid
    exact Nat.ne_of_lt (hl b hb) (of_decide_eq_true hid)
  rw [total, hnone _ fun b hb => hc.fresh b (List.mem_append_right _ hb),
    hnone _ fun b hb => hc.fresh b (List.mem_append_left _ hb)]

theorem Calm.lessServer (hc : Calm s) (i : Nat) :
    Calm { s with toServer := s.toServer.eraseIdx i } := by
  have hsub : s.toServer.eraseIdx i ⊆ s.toServer := List.eraseIdx_subset
  refine ⟨fun b hb => hc.first b (hsub hb), hc.once, fun b hb => hc.fresh b ?_, fun id => ?_⟩
  · rcases List.mem_append.mp hb with hb | hb
    · exact List.mem_append_left _ (hsub hb)
    · exact List.mem_append_right _ hb
  · have hle := ((List.eraseIdx_sublist s.toServer i).filter (·.origin = id)).length_le
    have htotal := hc.total_le id
    simp only [total] at htotal ⊢
    omega

theorem Calm.sendToServer_new (hc : Calm s) (nowMs : Int64) :
    Calm { s.sendToServer (s.originated nowMs) with started := s.started + 1 } := by
  refine ⟨fun b hb => ?_, fun b hb => ?_, fun b hb => ?_, fun id => ?_⟩
  · rcases List.mem_append.mp hb with hb | hb
    · exact hc.first b hb
    · rw [List.mem_singleton.mp hb]
      rfl
  · rcases List.mem_append.mp hb with hb | hb
    · exact hc.once b hb
    · rw [List.mem_singleton.mp hb]
      exact Nat.zero_le 1
  · simp only [Net.sendToServer, List.mem_append, List.mem_singleton] at hb
    have hold (hb : b ∈ s.toServer ++ s.sent) : b.origin < s.started + 1 :=
      Nat.lt_succ_of_lt (hc.fresh b hb)
    rcases hb with (hb | rfl) | hb | rfl
    · exact hold (List.mem_append_left _ hb)
    · exact Nat.lt_succ_self s.started
    · exact hold (List.mem_append_right _ hb)
    · exact Nat.lt_succ_self s.started
  · have htotal := hc.total_le id
    have hnone := hc.none_yet
    change total (s.sendToServer (s.originated nowMs)) id ≤ 2
    rw [total_sendToServer]
    split
    next hid =>
      have hfirst : total s id = 0 := by
        rw [← hid]
        exact hnone
      omega
    next => exact htotal

theorem Calm.sendToClient_new (hc : Calm s) (nowMs : Int64) :
    Calm { s.sendToClient (s.originated nowMs) with started := s.started + 1 } := by
  refine ⟨hc.first, fun b hb => ?_, fun b hb => ?_, fun id => ?_⟩
  · rcases List.mem_append.mp hb with hb | hb
    · exact hc.once b hb
    · rw [List.mem_singleton.mp hb]
      exact Nat.zero_le 1
  · simp only [Net.sendToClient, List.mem_append, List.mem_singleton] at hb
    have hold (hb : b ∈ s.toServer ++ s.sent) : b.origin < s.started + 1 :=
      Nat.lt_succ_of_lt (hc.fresh b hb)
    rcases hb with hb | hb | rfl
    · exact hold (List.mem_append_left _ hb)
    · exact hold (List.mem_append_right _ hb)
    · exact Nat.lt_succ_self s.started
  · have htotal := hc.total_le id
    have hnone := hc.none_yet
    change total (s.sendToClient (s.originated nowMs)) id ≤ 2
    rw [total_sendToClient]
    split
    next hid =>
      have hfirst : total s id = 0 := by
        rw [← hid]
        exact hnone
      omega
    next => exact htotal

theorem Calm.answered (hc : Calm s) {i : Nat} {b : Beat} (hb : s.toServer[i]? = some b) :
    Calm ({ s with toServer := s.toServer.eraseIdx i }.sendToClient (b.echo b.payload)) := by
  have hmem := List.mem_of_getElem? hb
  have hless := hc.lessServer i
  refine ⟨hless.first, fun c hcm => ?_, fun c hcm => ?_, fun id => ?_⟩
  · rcases List.mem_append.mp hcm with hcm | hcm
    · exact hc.once c hcm
    · rw [List.mem_singleton.mp hcm]
      exact Nat.le_of_eq (congrArg Nat.succ (hc.first b hmem))
  · simp only [Net.sendToClient, List.mem_append, List.mem_singleton] at hcm
    rcases hcm with hcm | hcm | rfl
    · exact hless.fresh c (List.mem_append_left _ hcm)
    · exact hc.fresh c (List.mem_append_right _ hcm)
    · exact hc.fresh b (List.mem_append_left _ hmem)
  · have htotal := hc.total_le id
    have herase := length_filter_eraseIdx hb id
    have horigin : (b.echo b.payload).origin = b.origin := rfl
    rw [total_sendToClient, horigin]
    simp only [total] at htotal ⊢
    omega

theorem Calm.step (hc : Calm s) (hs : Stamped s) {m : Move} (hok : OnTime s m)
    (h : step s m = some s') : Calm s' := by
  cases m with
  | clientBeat nowMs =>
      obtain rfl := Option.some.inj h
      exact hc.sendToServer_new nowMs
  | serverBeat nowMs =>
      obtain rfl := Option.some.inj h
      exact hc.sendToClient_new nowMs
  | atServer i =>
      obtain ⟨b, hb, rfl⟩ := atServer_eq h
      exact hc.answered hb
  | atClient i nowMs =>
      obtain ⟨b, hb, rfl⟩ := atClient_eq hs h
      rw [if_pos (hok b hb)]
      exact ⟨hc.first, hc.once, hc.fresh, hc.total_le⟩
  | lostToServer i =>
      obtain rfl := Option.some.inj h
      exact hc.lessServer i
  | lostToClient i =>
      obtain rfl := Option.some.inj h
      exact ⟨hc.first, hc.once, hc.fresh, hc.total_le⟩

theorem Calm.diesOut (hc : Calm s) : DiesOut s := by
  refine ⟨hc.once, fun id => ?_⟩
  have htotal := hc.total_le id
  rw [total] at htotal
  omega

end Steps

theorem stamped_new : Stamped .new := by
  intro b hb
  simp [Net.new] at hb

theorem calm_new : Calm .new := by
  refine ⟨?_, ?_, ?_, fun id => Nat.zero_le 2⟩ <;>
  · intro b hb
    simp [Net.new] at hb

section Runs

variable {ms : List Move}

theorem stamped_run {s : Net} (h : exec step .new ms = some s) : Stamped s :=
  throughout_of_step stamped_new (fun _ _ _ hs hl => hs.step hl) ms (List.prefix_refl ms) s h

theorem diesOut_of_onTime (h : EachStep step OnTime .new ms) : Throughout step DiesOut .new ms := by
  have hcalm : Throughout step (fun s => Stamped s ∧ Calm s) .new ms := by
    refine throughout_of_eachStep ⟨stamped_new, calm_new⟩ (fun t l t' hP hok hl => ?_) h
    exact ⟨hP.1.step hl, hP.2.step hP.1 hok hl⟩
  exact hcalm.mono fun t ht => ht.2.diesOut

theorem echoed_again {s t : Net} {i : Nat} {nowMs : Int64} {b : Beat} (hs : Stamped s)
    (hb : s.toClient[i]? = some b) (hlate : ¬ (0 ≤ nowMs - b.stamp ∧ nowMs - b.stamp < 60000))
    (h : step s (.atClient i nowMs) = some t) :
    ∃ u, step t (.atServer s.toServer.length) = some u ∧
    (b.echo b.payload).echo b.payload ∈ u.sent := by
  obtain ⟨b', hb', rfl⟩ := atClient_eq hs h
  obtain rfl := Option.some.inj (hb.symm.trans hb')
  rw [if_neg hlate]
  have hget : (s.toServer ++ [b.echo b.payload])[s.toServer.length]? = some (b.echo b.payload) := by
    simp
  refine ⟨_, congrArg (Option.map _) hget, ?_⟩
  exact List.mem_append_right _ (List.mem_singleton.mpr rfl)

theorem onTime_of_diesOut
    (h : ∀ past, past <+: ms → ∀ j, Throughout step DiesOut .new (past ++ [.atServer j])) :
    EachStep step OnTime .new ms := by
  intro past l t t' hinit ht hl
  cases l with
  | atClient i nowMs =>
      intro b hb
      by_contra hlate
      obtain ⟨u, hu, hmem⟩ := echoed_again (stamped_run ht) hb hlate hl
      have hrun : exec step .new (past ++ [.atClient i nowMs] ++ [.atServer t.toServer.length]) =
          some u := by
        rw [exec_append_singleton, exec_append_singleton, ht, Option.bind_some, hl,
          Option.bind_some, hu]
      have hdies := h _ hinit t.toServer.length _ (List.prefix_refl _) u hrun
      have hdepth := hdies.once _ hmem
      simp only [Beat.echo] at hdepth
      omega
  | clientBeat | serverBeat | atServer | lostToServer | lostToClient => exact trivial

end Runs

/-- Echoes die out along a run, also if after any of its steps one more frame comes to the server,
exactly when every Heartbeat comes to the client on time. -/
theorem echoes_die_out_iff (ms : List Move) :
    (∀ past, past <+: ms → ∀ j, Throughout step DiesOut .new (past ++ [.atServer j])) ↔
      EachStep step OnTime .new ms := by
  refine ⟨onTime_of_diesOut, fun h past hpast j => diesOut_of_onTime ?_⟩
  intro past' l t t' hinit ht hl
  rcases concat_prefix_concat.mp hinit with ⟨-, rfl⟩ | hinit
  · exact trivial
  · exact h past' l t t' (hinit.trans hpast) ht hl

theorem echoes_die_out_in_time :
    Throughout step DiesOut .new [.clientBeat 1000, .atServer 0, .atClient 0 1040] := by
  have honTime : EachStep step OnTime .new [.clientBeat 1000, .atServer 0, .atClient 0 1040] := by
    refine eachStep_cons trivial fun t ht => eachStep_cons trivial fun u hu =>
      eachStep_cons ?_ fun v _ => ?_
    · obtain rfl := Option.some.inj ht
      obtain rfl := Option.some.inj hu
      intro b hb
      obtain rfl := Option.some.inj hb
      decide
    · intro past l t t' hinit
      simp at hinit
  intro past hpast
  have hall := (echoes_die_out_iff _).mpr honTime _ (List.prefix_refl _) 0
  exact hall past (hpast.trans (List.prefix_append _ _))

section Skew

/-- Two more frames of one heartbeat, each time round. -/
def rounds : Nat → List Move
  | 0 => [.serverBeat 1000]
  | n + 1 => rounds n ++ [.atClient 0 999] ++ [.atServer 0]

theorem rounds_go_on (n : Nat) : ∃ sent, exec step .new (rounds n) =
    some ⟨[], [⟨0, 1000, 2 * n, encodeHeartbeat 1000⟩], sent, 1⟩ ∧ sent.length = 2 * n + 1 := by
  induction n with
  | zero => exact ⟨_, rfl, rfl⟩
  | succ n ih =>
      obtain ⟨sent, hrun, hlength⟩ := ih
      have hlate : clientHeartbeat 999 (encodeHeartbeat 1000) = .pong (encodeHeartbeat 1000) := by
        rw [clientHeartbeat_encode, if_neg (by decide)]
      have hback : step ⟨[], [⟨0, 1000, 2 * n, encodeHeartbeat 1000⟩], sent, 1⟩ (.atClient 0 999) =
          some ⟨[⟨0, 1000, 2 * n + 1, encodeHeartbeat 1000⟩], [],
            sent ++ [⟨0, 1000, 2 * n + 1, encodeHeartbeat 1000⟩], 1⟩ := by
        simp only [step, List.getElem?_cons_zero, Option.map_some, hlate]
        rfl
      rw [rounds, exec_append_singleton, exec_append_singleton, hrun, Option.bind_some, hback]
      refine ⟨_, rfl, ?_⟩
      simp only [List.length_append, List.length_singleton]
      omega

end Skew

/-- One heartbeat of the server, and a client a millisecond behind: what the client sends back is
sent back again, and no number bounds the frames this heartbeat becomes. -/
theorem echo_echoed_by_server :
    (∃ s, exec step .new [.serverBeat 1000, .atClient 0 999, .atServer 0] = some s ∧ ∃ b ∈ s.sent,
      b.depth = 2) ∧
      ¬ ∃ bound, ∀ ms s, exec step .new ms = some s → s.started = 1 → s.sent.length ≤ bound := by
  constructor
  · refine ⟨_, rfl, ⟨0, 1000, 2, encodeHeartbeat 1000⟩, ?_, rfl⟩
    decide
  · rintro ⟨bound, hbound⟩
    obtain ⟨sent, hrun, hlength⟩ := rounds_go_on bound
    have hle := hbound _ _ hrun rfl
    simp only at hle
    omega

end SrtVpn.Heartbeats
