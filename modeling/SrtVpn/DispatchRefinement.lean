import SrtVpn.Admission
import SrtVpn.Endpoints

namespace SrtVpn.DispatchRefinement

open BigEndian (Bytes)
open Tables Wire Encoder Dispatch Connection Endpoints
open Admission (Visit dispatchAll)

section Mapping

variable {α β : Type} (g : α → β)

def mapEvent : SessionEvent α → SessionEvent β
  | .data payload => .data (g payload)
  | .fin => .fin
  | .close => .close

def mapChannel (c : Channel α) : Channel β := ⟨c.queue.map (mapEvent g), c.sender, c.receiver⟩

def mapRegistry (reg : SessionRegistry α) : SessionRegistry β :=
  ⟨reg.sessions, reg.nextId, reg.channels.map (mapChannel g)⟩

def mapFrame (f : Frame α) : Frame β := ⟨f.ftype, f.sessionId, f.seq, f.flags, g f.payload⟩

def mapCall (c : Call α) : Call β := ⟨c.ftype, c.sessionId, c.flags, g c.payload⟩

def mapAction : DispatchAction α → DispatchAction β
  | .routed => .routed
  | .unknownSession sid => .unknownSession sid
  | .fin sid => .fin sid
  | .closed sid => .closed sid
  | .rst sid => .rst sid
  | .open sid payload => .open sid (g payload)
  | .other => .other

variable (reg : SessionRegistry α) (sid : UInt16)

theorem mapChannel_send (c : Channel α) (e : SessionEvent α) :
    (mapChannel g c).send (mapEvent g e) = ((c.send e).1, mapChannel g (c.send e).2) := by
  cases c with
  | mk queue sender receiver =>
      cases receiver with
      | true => simp [mapChannel, Channel.send]
      | false => simp [mapChannel, Channel.send]

theorem mapRegistry_registerSpecific :
    (mapRegistry g reg).registerSpecific sid =
      ((reg.registerSpecific sid).1, mapRegistry g (reg.registerSpecific sid).2) := by
  have hsessions : (mapRegistry g reg).sessions = reg.sessions := rfl
  rw [SessionRegistry.registerSpecific, SessionRegistry.registerSpecific, hsessions]
  by_cases hzero : sid = 0
  · rw [if_pos hzero, if_pos hzero]
  · rw [if_neg hzero, if_neg hzero]
    by_cases hfound : (find reg.sessions sid).isSome = true
    · rw [if_pos hfound, if_pos hfound]
    · rw [if_neg hfound, if_neg hfound]
      simp [SessionRegistry.register, mapRegistry, mapChannel, Channel.new]

theorem mapRegistry_route (e : SessionEvent α) :
    (mapRegistry g reg).route sid (mapEvent g e) =
      ((reg.route sid e).1, mapRegistry g (reg.route sid e).2) := by
  simp only [SessionRegistry.route, mapRegistry]
  split
  next c hfind =>
    have hmodify : (reg.channels.map (mapChannel g)).modify c
        (fun ch => (ch.send (mapEvent g e)).2) =
        (reg.channels.modify c fun ch => (ch.send e).2).map (mapChannel g) := by
      apply List.ext_getElem?
      intro k
      simp only [List.getElem?_modify, List.getElem?_map]
      cases reg.channels[k]? with
      | none => rfl
      | some ch =>
          by_cases hk : c = k
          · simp [hk, mapChannel_send]
          · simp [hk]
    rw [hmodify, List.getElem?_map]
    cases reg.channels[c]? with
    | none => rfl
    | some ch => simp [mapChannel_send]
  next => rfl

theorem mapFrame_dispatchFrame (f : Frame α) : dispatchFrame (mapFrame g f) (mapRegistry g reg) =
    (mapAction g (dispatchFrame f reg).1, mapRegistry g (dispatchFrame f reg).2) := by
  have hdata := mapRegistry_route g reg f.sessionId (.data f.payload)
  have hfin := mapRegistry_route g reg f.sessionId .fin
  have hclose := mapRegistry_route g reg f.sessionId .close
  simp only [mapEvent] at hdata hfin hclose
  cases f with
  | mk ftype sessionId seq flags payload =>
      cases ftype with
      | data | datagram =>
          simp only [dispatchFrame, mapFrame, hdata]
          split <;> rfl
      | fin => simp only [dispatchFrame, mapFrame, hfin, mapAction]
      | close | rst => simp only [dispatchFrame, mapFrame, hclose, mapAction]
      | «open» | ack | nack | challenge | response | heartbeat => rfl

theorem mapCall_stamp (enc : MuxEncoder) (c : Call α) :
    stamp enc (mapCall g c) = (mapFrame g (stamp enc c).1, (stamp enc c).2) := rfl

end Mapping

/-- The one model goes where the other one does: what both keep is the same up to the marks on the
payloads, and what is queued and started on the way is the same. -/
structure Follows (s s' : Sys) (v v' : Visit) (said : List Msg) (opened : List (UInt16 × Bytes)) :
    Prop where
  registry : v'.registry = mapRegistry Prod.snd s'.serverReg
  enc : v'.enc = s'.serverEnc
  sent : v'.sent = v.sent ++ said.map fun m => (false, frameBytes (mapFrame Prod.snd m))
  down : s'.down = said.foldl (fun l m => l.sendItemTo false ⟨m, m.ftype ≠ .datagram⟩) s.down
  spawned : v'.spawned = v.spawned ++ opened
  tasks : s'.tasks.map Task.sid = s.tasks.map Task.sid ++ opened.map Prod.fst

section Following

variable {s s' s'' : Sys} {v v' v'' : Visit} {said said' : List Msg}
  {opened opened' : List (UInt16 × Bytes)}

theorem Follows.trans (h : Follows s s' v v' said opened)
    (h' : Follows s' s'' v' v'' said' opened') :
    Follows s s'' v v'' (said ++ said') (opened ++ opened') := by
  refine ⟨h'.registry, h'.enc, ?_, ?_, ?_, ?_⟩
  · rw [h'.sent, h.sent, List.append_assoc, List.map_append]
  · rw [h'.down, h.down, List.foldl_append]
  · rw [h'.spawned, h.spawned, List.append_assoc]
  · rw [h'.tasks, h.tasks, List.append_assoc, List.map_append]

theorem follows_send {u : Sys} {w : Visit} (hreg : w.registry = mapRegistry Prod.snd u.serverReg)
    (henc : w.enc = u.serverEnc) (hsent : w.sent = v.sent) (hdown : u.down = s.down)
    (hspawned : w.spawned = v.spawned) (htasks : u.tasks = s.tasks) (c : Call Tagged)
    (h : w.send (mapCall Prod.snd c) = some v') :
    Follows s (serverSend u false c) v v' [(stamp u.serverEnc c).1] [] := by
  obtain ⟨⟨msg, enc⟩, hencode, rfl⟩ := Option.map_eq_some_iff.mp h
  obtain ⟨-, heq⟩ := Option.ite_none_right_eq_some.mp hencode
  rw [henc, mapCall_stamp] at heq
  obtain ⟨rfl, rfl⟩ := Prod.mk.inj (Option.some.inj heq)
  refine ⟨hreg, rfl, ?_, ?_, ?_, ?_⟩
  · rw [List.map_singleton, ← hsent]
  · rw [List.foldl_cons, List.foldl_nil, ← hdown]
    rfl
  · rw [List.append_nil]
    exact hspawned
  · rw [List.map_nil, List.append_nil, ← htasks]
    rfl

theorem dispatchOneFrame_follows (hreg : v.registry = mapRegistry Prod.snd s.serverReg)
    (henc : v.enc = s.serverEnc) (f : Msg)
    (h : Admission.dispatchOneFrame v (mapFrame Prod.snd f) = some v') :
    ∃ said opened, Follows s (Endpoints.dispatchOneFrame s f) v v' said opened := by
  rw [Admission.dispatchOneFrame, hreg, mapFrame_dispatchFrame] at h
  rw [Endpoints.dispatchOneFrame]
  cases hboth : dispatchFrame f s.serverReg with
  | mk action reg =>
      rw [hboth] at h
      let w : Visit := { v with registry := mapRegistry Prod.snd reg, dispatched := v.dispatched ++
        [mapFrame Prod.snd f] }
      have hsame : Follows s { s with serverReg := reg } v w [] [] :=
        ⟨rfl, henc, (List.append_nil _).symm, rfl, (List.append_nil _).symm,
          (List.append_nil _).symm⟩
      cases action with
      | unknownSession sid =>
          exact ⟨_, _, follows_send (s := s) (v := v)
            (u := { s with serverReg := reg, answers := s.answers ++ [.reset (owner f)] }) (w := w)
            rfl henc rfl rfl rfl rfl ⟨.rst, sid, 0, (owner f, [])⟩ h⟩
      | «open» sid payload =>
          dsimp only [mapAction] at h ⊢
          rw [mapRegistry_registerSpecific] at h
          cases hregister : reg.registerSpecific sid with
          | mk place reg' =>
              rw [hregister] at h
              cases place with
              | some k =>
                  obtain rfl := Option.some.inj h
                  refine ⟨[], [(sid, payload.2)], rfl, henc, (List.append_nil _).symm, rfl, rfl, ?_⟩
                  exact List.map_append
              | none =>
                  exact ⟨_, _, follows_send (s := s) (v := v)
                    (u := { s with serverReg := reg', answers := s.answers ++ [.opened (owner f)] })
                    (w := { w with registry := mapRegistry Prod.snd reg' }) rfl henc rfl rfl rfl rfl
                    ⟨.close, sid, 0, (owner f, [])⟩ h⟩
      | other =>
          dsimp only [mapAction] at h ⊢
          by_cases hbeat : f.ftype = .heartbeat
          · rw [if_pos (show (mapFrame Prod.snd f).ftype = .heartbeat from hbeat)] at h
            rw [if_pos hbeat]
            exact ⟨_, _, follows_send (s := s) (v := v) (u := { s with serverReg := reg }) (w := w)
              rfl henc rfl rfl rfl rfl ⟨.heartbeat, 0, 0, f.payload⟩ h⟩
          · rw [if_neg (show (mapFrame Prod.snd f).ftype ≠ .heartbeat from hbeat)] at h
            rw [if_neg hbeat]
            obtain rfl := Option.some.inj h
            exact ⟨_, _, hsame⟩
      | routed | fin | closed | rst =>
          obtain rfl := Option.some.inj h
          exact ⟨_, _, hsame⟩

/-- Unless an assertion fails, the frames that a decoder returns are dispatched alike in both
models. -/
theorem dispatchAll_follows (frames : List Msg)
    (hreg : v.registry = mapRegistry Prod.snd s.serverReg) (henc : v.enc = s.serverEnc)
    (hpanic : (dispatchAll v (frames.map (mapFrame Prod.snd))).stage ≠ .ended .panicked) :
    ∃ said opened, Follows s (frames.foldl Endpoints.dispatchOneFrame s) v
      (dispatchAll v (frames.map (mapFrame Prod.snd))) said opened := by
  induction frames generalizing s v with
  | nil => exact ⟨[], [], hreg, henc, (List.append_nil _).symm, rfl, (List.append_nil _).symm,
      (List.append_nil _).symm⟩
  | cons f frames ih =>
      rw [List.map_cons, dispatchAll] at hpanic ⊢
      cases hone : Admission.dispatchOneFrame v (mapFrame Prod.snd f) with
      | none =>
          rw [hone] at hpanic
          exact absurd rfl hpanic
      | some v' =>
          rw [hone] at hpanic
          obtain ⟨said, opened, hfirst⟩ := dispatchOneFrame_follows hreg henc f hone
          obtain ⟨said', opened', hrest⟩ := ih hfirst.registry hfirst.enc hpanic
          exact ⟨_, _, hfirst.trans hrest⟩

end Following

end SrtVpn.DispatchRefinement
