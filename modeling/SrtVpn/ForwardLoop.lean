import Mathlib.Data.List.TakeWhile
import SrtVpn.Dispatch
import SrtVpn.Runs

namespace SrtVpn.ForwardLoop

open BigEndian Wire Dispatch Runs

inductive Exit
  | broke
  | returned (error : String)
  deriving DecidableEq, Repr

/-- Where the two forwarding loops differ. -/
structure Variant where
  idleExit : Exit
  readError : String → String
  writeError : String → String

def idleTimeoutSecs : Nat := 300

def idleDuration : Nat := idleTimeoutSecs * 10 ^ 9

structure State where
  localEof : Bool
  peerFin : Bool
  idleDeadline : Nat
  channel : Channel Bytes
  exit : Option Exit
  deriving DecidableEq

def start (now : Nat) : State := ⟨false, false, now + idleDuration, .new, none⟩

inductive Effect
  | sendFin
  | sendDataBatch (data : Bytes)
  | writeLocal (data : Bytes)
  | shutdownLocal
  deriving DecidableEq, Repr

def State.leave (s : State) (e : Exit) : State := { s with exit := some e }

def State.active (s : State) (now : Nat) : State := { s with idleDeadline := now + idleDuration }

def State.rest (s : State) (queue : List (SessionEvent Bytes)) : State :=
  { s with channel := { s.channel with queue := queue } }

def onRead (v : Variant) (s : State) (now : Nat) (result : Except String Bytes)
    (sent : Except String Unit) : List Effect × State :=
  match result with
  | .ok [] =>
      match sent with
      | .ok () =>
          let s := { s with localEof := true }
          ([.sendFin], if s.peerFin then s.leave .broke else s)
      | .error e => ([.sendFin], s.leave (.returned e))
  | .ok data =>
      match sent with
      | .ok () => ([.sendDataBatch data], s.active now)
      | .error e => ([.sendDataBatch data], s.leave (.returned e))
  | .error e => ([], s.leave (.returned (v.readError e)))

def onRecv (v : Variant) (s : State) (now : Nat) (event : Option (SessionEvent Bytes))
    (written : Except String Unit) : List Effect × State :=
  match event with
  | some (.data data) =>
      match written with
      | .ok () => ([.writeLocal data], s.active now)
      | .error e => ([.writeLocal data], s.leave (.returned (v.writeError e)))
  | some .fin =>
      let s := { s with peerFin := true }
      ([.shutdownLocal], if s.localEof then s.leave .broke else s)
  | some .close => ([], s.leave .broke)
  | none => ([], s.leave .broke)

/-- The branch of `select!` that fires, with the time and the results of its operations. -/
inductive Branch
  | idle (now : Nat)
  | read (now : Nat) (result : Except String Bytes) (sent : Except String Unit)
  | recv (now : Nat) (written : Except String Unit)

def turn (v : Variant) (s : State) (b : Branch) : Option (List Effect × State) :=
  if s.exit.isSome then none
  else match b with
    | .idle now => if s.idleDeadline ≤ now then some ([], s.leave v.idleExit) else none
    | .read now result sent => if s.localEof then none else some (onRead v s now result sent)
    | .recv now written =>
        if s.peerFin then none
        else match s.channel.queue with
          | e :: queue => some (onRecv v (s.rest queue) now (some e) written)
          | [] => if s.channel.sender then none else some (onRecv v s now none written)

/-- What happens to a loop: a turn of its own, a frame for its session that is dispatched, the end
of its registry entry. -/
inductive Label
  | turn (b : Branch)
  | dispatch (frame : Frame Bytes)
  | unregister

def State.deliver (s : State) (e : SessionEvent Bytes) : State :=
  if s.channel.sender then { s with channel := (s.channel.send e).2 } else s

def step (v : Variant) (s : State) : Label → Option State
  | .turn b => (turn v s b).map Prod.snd
  | .dispatch frame =>
      match eventOf frame with
      | some e => some (s.deliver e)
      | none => some s
  | .unregister => some { s with channel := s.channel.dropSender }

def forwardLoop : Variant where
  idleExit := .broke
  readError := fun e => "读客户端数据失败: " ++ e
  writeError := fun e => "写客户端数据失败: " ++ e

def startTcpForward (sessionId : UInt16) : Variant where
  idleExit := .returned
    ("会话 " ++ toString sessionId ++ " 空闲超时（>" ++ toString idleTimeoutSecs ++ "s）")
  readError := fun e => "读目标数据失败: " ++ e
  writeError := fun e => "写目标数据失败: " ++ e

section Notices

variable {v : Variant} {s t : State}

/-- The channel holds a Close, or has lost its sender, and the loop still runs. -/
def Notice (s : State) : Prop :=
  s.exit = none ∧ (SessionEvent.close ∈ s.channel.queue ∨ s.channel.sender = false)

def CanEnd (v : Variant) (s : State) : Prop :=
  ∃ (times : List Nat) (t : State),
    exec (step v) s (times.map fun now => .turn (.recv now (.ok ()))) = some t ∧ t.exit ≠ none

def Heeds (v : Variant) (s : State) : Prop := Notice s → s.peerFin = false ∧ CanEnd v s

def ahead (s : State) : List (SessionEvent Bytes) := s.channel.queue.takeWhile (· ≠ .close)

/-- A half-close on one side only: the peer's Fin has been taken, or stands before any Close. -/
def Deaf (s : State) : Prop := s.localEof = false ∧ (s.peerFin = true ∨ SessionEvent.fin ∈ ahead s)

/-- The step does not bring a notice to a loop that is deaf to it. -/
def Timely (s : State) : Label → Prop
  | .turn _ => True
  | .dispatch frame => eventOf frame = some .close → s.channel.sender = true → s.exit = none →
      ¬ Deaf s
  | .unregister => s.channel.sender = true → s.exit = none → ¬ Deaf s

/-- What a turn does and leaves: the loop ends without writing, goes on after reading, closes its
own half, writes the Data it takes, or takes the peer's Fin and goes on. -/
inductive Turned (s : State) : List Effect → State → Prop
  | ended (effects : List Effect) (t : State) (hquiet : ∀ d, .writeLocal d ∉ effects)
    (hexit : t.exit ≠ none) :
      Turned s effects t
  | read (data : Bytes) (now : Nat) : Turned s [.sendDataBatch data] (s.active now)
  | halfClosed (hfin : s.peerFin = false) : Turned s [.sendFin] { s with localEof := true }
  | wrote (d : Bytes) (queue : List (SessionEvent Bytes)) (t : State) (hfin : s.peerFin = false)
      (hqueue : s.channel.queue = .data d :: queue) (htaken : t.channel.queue = queue)
      (hnext : t.exit = none → ∃ now, t = (s.rest queue).active now) : Turned s [.writeLocal d] t
  | finTaken (queue : List (SessionEvent Bytes)) (hfin : s.peerFin = false)
      (heof : s.localEof = false)
      (hqueue : s.channel.queue = .fin :: queue) : Turned s [.shutdownLocal]
        { s.rest queue with peerFin := true }

theorem turn_running {b : Branch} {effects : List Effect} (h : turn v s b = some (effects, t)) :
    s.exit = none := by
  rw [turn.eq_def] at h
  split at h
  · simp at h
  next hexit => simpa using hexit

theorem onRead_turned (v : Variant) (s : State) (now : Nat) (result : Except String Bytes)
    (sent : Except String Unit) :
    Turned s (onRead v s now result sent).1 (onRead v s now result sent).2 := by
  cases result with
  | error e => exact .ended _ _ (by simp [onRead]) (by simp [onRead, State.leave])
  | ok data =>
      cases data with
      | nil =>
          cases sent with
          | error e => exact .ended _ _ (by simp [onRead]) (by simp [onRead, State.leave])
          | ok u =>
              cases hfin : s.peerFin with
              | true => exact .ended _ _ (by simp [onRead]) (by simp [onRead, State.leave, hfin])
              | false =>
                  have hnext : (onRead v s now (.ok []) (.ok u)).2 = { s with localEof := true } :=
                    if_neg (by simp [hfin])
                  rw [hnext]
                  exact .halfClosed hfin
      | cons d ds =>
          cases sent with
          | error e => exact .ended _ _ (by simp [onRead]) (by simp [onRead, State.leave])
          | ok u => exact .read (d :: ds) now

theorem onRecv_turned (v : Variant) {s : State} (now : Nat) {e : SessionEvent Bytes}
    {queue : List (SessionEvent Bytes)} (written : Except String Unit) (hfin : s.peerFin = false)
    (hqueue : s.channel.queue = e :: queue) :
    Turned s (onRecv v (s.rest queue) now (some e) written).1 (onRecv v (s.rest queue) now (some e) written).2 := by
  cases e with
  | data d =>
      cases written with
      | error e => exact .wrote d queue _ hfin hqueue rfl (by simp [onRecv, State.leave])
      | ok u => exact .wrote d queue _ hfin hqueue rfl fun _ => ⟨now, rfl⟩
  | fin =>
      cases heof : s.localEof with
      | true => exact .ended _ _ (by simp [onRecv]) (by simp [onRecv, State.leave, State.rest, heof])
      | false =>
          have hnext : (onRecv v (s.rest queue) now (some .fin) written).2 =
              { s.rest queue with peerFin := true } :=
            if_neg (by simp [State.rest, heof])
          rw [hnext]
          exact .finTaken queue hfin heof hqueue
  | close => exact .ended _ _ (by simp [onRecv]) (by simp [onRecv, State.leave])

theorem turn_turned {b : Branch} {effects : List Effect} (h : turn v s b = some (effects, t)) :
    Turned s effects t := by
  rw [turn.eq_def, if_neg (by simp [turn_running h])] at h
  cases b with
  | idle now =>
      obtain ⟨-, h⟩ := Option.ite_some_none_eq_some.mp h
      obtain ⟨rfl, rfl⟩ := Prod.mk.inj h
      exact .ended _ _ (by simp) (by simp [State.leave])
  | read now result sent =>
      obtain ⟨-, h⟩ := Option.ite_none_left_eq_some.mp h
      have hturned := onRead_turned v s now result sent
      rwa [Option.some.inj h] at hturned
  | recv now written =>
      obtain ⟨hfin, h⟩ := Option.ite_none_left_eq_some.mp h
      split at h
      next e queue hqueue =>
        have hturned := onRecv_turned v now written (by simpa using hfin) hqueue
        rwa [Option.some.inj h] at hturned
      next =>
        obtain ⟨-, h⟩ := Option.ite_none_left_eq_some.mp h
        obtain ⟨rfl, rfl⟩ := Prod.mk.inj (Option.some.inj h)
        exact .ended _ _ (by simp) (by simp [State.leave])

theorem turn_cases {b : Branch} {effects : List Effect} (h : turn v s b = some (effects, t))
    (ht : t.exit = none) : (∃ now, t = s.active now) ∨
    (s.peerFin = false ∧ t = { s with localEof := true }) ∨
    (∃ now d queue, s.channel.queue = .data d :: queue ∧
      t = (s.rest queue).active now) ∨
    (s.localEof = false ∧ ∃ queue, s.channel.queue = .fin :: queue ∧
      t = { s.rest queue with peerFin := true }) := by
  cases turn_turned h with
  | ended _ _ _ hexit => exact absurd ht hexit
  | read data now => exact .inl ⟨now, rfl⟩
  | halfClosed hfin => exact .inr (.inl ⟨hfin, rfl⟩)
  | wrote d queue _ _ hqueue _ hnext =>
      obtain ⟨now, rfl⟩ := hnext ht
      exact .inr (.inr (.inl ⟨now, d, queue, hqueue, rfl⟩))
  | finTaken queue _ heof hqueue => exact .inr (.inr (.inr ⟨heof, queue, hqueue, rfl⟩))

theorem ahead_append {queue : List (SessionEvent Bytes)} (e : SessionEvent Bytes)
    (h : SessionEvent.close ∈ queue ∨ e = .close) :
    (queue ++ [e]).takeWhile (· ≠ .close) = queue.takeWhile (· ≠ .close) := by
  rw [List.takeWhile_append]
  split
  next hall =>
    have hself :=
      (List.takeWhile_prefix (fun x : SessionEvent Bytes => decide (x ≠ .close))).eq_of_length hall
    rcases h with hmem | rfl
    · rw [← hself] at hmem
      simpa using List.mem_takeWhile_imp hmem
    · simpa using hself.symm
  next => rfl

theorem canEnd_of_step {now : Nat} (hstep : step v s (.turn (.recv now (.ok ()))) = some t)
    (ht : CanEnd v t) : CanEnd v s := by
  obtain ⟨times, u, hu, hexit⟩ := ht
  refine ⟨now :: times, u, ?_, hexit⟩
  rw [List.map_cons, exec_cons, hstep, Option.bind_some, hu]

theorem canEnd_of_exit {now : Nat} (hstep : step v s (.turn (.recv now (.ok ()))) = some t)
    (ht : t.exit ≠ none) : CanEnd v s := canEnd_of_step hstep ⟨[], t, rfl, ht⟩

section Receive

variable {now : Nat} {queue : List (SessionEvent Bytes)}

theorem recv_data {d : Bytes} (hexit : s.exit = none) (hfin : s.peerFin = false)
    (hqueue : s.channel.queue = .data d :: queue) :
    step v s (.turn (.recv now (.ok ()))) = some ((s.rest queue).active now) := by
  simp [step, turn, hexit, hfin, hqueue, onRecv, State.rest]

theorem recv_fin (hexit : s.exit = none) (hfin : s.peerFin = false)
    (hqueue : s.channel.queue = .fin :: queue) : step v s (.turn (.recv now (.ok ()))) =
      some (if s.localEof then { s.rest queue with peerFin := true }.leave .broke
        else { s.rest queue with peerFin := true }) := by
  simp [step, turn, hexit, hfin, hqueue, onRecv, State.rest]

theorem recv_close (hexit : s.exit = none) (hfin : s.peerFin = false)
    (hqueue : s.channel.queue = .close :: queue) :
    step v s (.turn (.recv now (.ok ()))) = some ((s.rest queue).leave .broke) := by
  simp [step, turn, hexit, hfin, hqueue, onRecv, State.rest]

theorem recv_none (hexit : s.exit = none) (hfin : s.peerFin = false) (hqueue : s.channel.queue = [])
    (hsender : s.channel.sender = false) :
    step v s (.turn (.recv now (.ok ()))) = some (s.leave .broke) := by
  simp [step, turn, hexit, hfin, hqueue, hsender, onRecv]

end Receive

theorem canEnd_of_notice (hfin : s.peerFin = false) (hnotice : Notice s) (hdeaf : ¬ Deaf s) :
    CanEnd v s := by
  obtain ⟨hexit, hdead⟩ := hnotice
  generalize hqueue : s.channel.queue = queue
  induction queue generalizing s with
  | nil =>
      have hsender : s.channel.sender = false := by simpa [hqueue] using hdead
      exact canEnd_of_exit (recv_none hexit hfin hqueue hsender : step v s (.turn (.recv 0 _)) = _)
        (by simp [State.leave])
  | cons e queue ih =>
      cases e with
      | data d =>
          refine canEnd_of_step (recv_data hexit hfin hqueue : step v s (.turn (.recv 0 _)) = _)
            (ih hfin ?_ hexit ?_ rfl)
          · intro hd
            apply hdeaf
            refine ⟨hd.1, hd.2.imp id fun h => ?_⟩
            rw [ahead, hqueue]
            exact List.mem_cons_of_mem _ h
          · simpa [hqueue, State.active, State.rest] using hdead
      | fin =>
          have heof : s.localEof = true := by
            by_contra heof
            exact hdeaf ⟨by simpa using heof, .inr (by simp [ahead, hqueue])⟩
          apply canEnd_of_exit (recv_fin hexit hfin hqueue : step v s (.turn (.recv 0 _)) = _)
          simp [State.leave, heof]
      | close =>
          exact canEnd_of_exit (recv_close hexit hfin hqueue : step v s (.turn (.recv 0 _)) = _)
            (by simp [State.leave])

theorem deaf_recv {now : Nat} (hexit : s.exit = none) (hdeaf : Deaf s)
    (h : step v s (.turn (.recv now (.ok ()))) = some t) : t.exit = none ∧ Deaf t := by
  obtain ⟨heof, hfin⟩ := hdeaf
  cases hpeer : s.peerFin with
  | true => simp [step, turn, hexit, hpeer] at h
  | false =>
      have hmem : SessionEvent.fin ∈ ahead s := by simpa [hpeer] using hfin
      rw [ahead] at hmem
      cases hqueue : s.channel.queue with
      | nil => simp [hqueue] at hmem
      | cons e queue =>
          cases e with
          | data d =>
              rw [recv_data hexit hpeer hqueue] at h
              obtain rfl := Option.some.inj h
              refine ⟨hexit, heof, .inr ?_⟩
              simpa [hqueue, ahead, State.rest, State.active] using hmem
          | fin =>
              rw [recv_fin hexit hpeer hqueue, if_neg (by simp [heof])] at h
              obtain rfl := Option.some.inj h
              exact ⟨hexit, heof, .inl rfl⟩
          | close => simp [hqueue] at hmem

theorem not_canEnd_of_deaf (hexit : s.exit = none) (hdeaf : Deaf s) : ¬ CanEnd v s := by
  rintro ⟨times, t, hrun, hend⟩
  induction times generalizing s with
  | nil =>
      obtain rfl := Option.some.inj hrun
      exact hend hexit
  | cons now times ih =>
      rw [List.map_cons, exec_cons, Option.bind_eq_some_iff] at hrun
      obtain ⟨u, hu, hrest⟩ := hrun
      obtain ⟨hexit', hdeaf'⟩ := deaf_recv hexit hdeaf hu
      exact ih hexit' hdeaf' hrest

/-- No notice waits in a deaf loop. -/
structure Attentive (s : State) : Prop where
  receiver : s.exit = none → s.channel.receiver = true
  fins : s.exit = none → s.localEof = true → s.peerFin = false
  notice : Notice s → ¬ Deaf s

theorem Attentive.heeds (h : Attentive s) : Heeds v s := by
  intro hnotice
  have hdeaf := h.notice hnotice
  have hfin : s.peerFin = false := by
    by_contra hfin
    cases heof : s.localEof with
    | true => exact hfin (h.fins hnotice.1 heof)
    | false => exact hdeaf ⟨heof, .inl (by simpa using hfin)⟩
  exact ⟨hfin, canEnd_of_notice hfin hnotice hdeaf⟩

theorem attentive_start (now : Nat) : Attentive (start now) := by
  refine ⟨fun _ => rfl, fun _ _ => rfl, ?_⟩
  rintro ⟨-, hclose | hsender⟩
  · simp [start, Channel.new] at hclose
  · simp [start, Channel.new] at hsender

theorem Attentive.turn {b : Branch} {effects : List Effect} (h : Attentive s)
    (hturn : turn v s b = some (effects, t)) : Attentive t := by
  have hrun := turn_running hturn
  by_cases hexit : t.exit = none
  · obtain ⟨now, rfl⟩ | ⟨hfin, rfl⟩ | ⟨now, d, queue, hqueue, rfl⟩ | ⟨heof, queue, hqueue, rfl⟩ :=
      turn_cases hturn hexit
    · exact ⟨h.receiver, h.fins, h.notice⟩
    · refine ⟨h.receiver, fun _ _ => hfin, ?_⟩
      rintro - ⟨heof, -⟩
      simp at heof
    · refine ⟨h.receiver, h.fins, ?_⟩
      rintro ⟨-, hdead⟩ ⟨heof, hfin⟩
      simp only [State.active, State.rest] at hdead
      apply h.notice ⟨hrun, by simpa [hqueue] using hdead⟩
      refine ⟨heof, hfin.imp id fun hmem => ?_⟩
      rw [ahead, hqueue]
      exact List.mem_cons_of_mem _ hmem
    · refine ⟨h.receiver, fun _ heof' => ?_, ?_⟩
      · simp [State.rest, heof] at heof'
      -- the Fin that has just been taken stood before the notice
      · rintro ⟨-, hdead⟩ -
        simp only [State.rest] at hdead
        apply h.notice ⟨hrun, by simpa [hqueue] using hdead⟩
        exact ⟨heof, .inr (by simp [ahead, hqueue])⟩
  · exact ⟨fun he => absurd he hexit, fun he => absurd he hexit, fun hn => absurd hn.1 hexit⟩

theorem deliver_of_sender {e : SessionEvent Bytes} (hreceiver : s.channel.receiver = true)
    (hsender : s.channel.sender = true) :
    s.deliver e = s.rest (s.channel.queue ++ [e]) := by
  rw [State.deliver, if_pos hsender, Channel.send, if_pos hreceiver]
  rfl

theorem Attentive.deliver {e : SessionEvent Bytes} (h : Attentive s)
    (htimely : e = .close → s.channel.sender = true → s.exit = none → ¬ Deaf s) :
    Attentive (s.deliver e) := by
  by_cases hsender : s.channel.sender = true
  · by_cases hexit : s.exit = none
    · rw [deliver_of_sender (h.receiver hexit) hsender]
      refine ⟨h.receiver, h.fins, ?_⟩
      rintro ⟨-, hdead⟩ ⟨heof, hfin⟩
      have hclose : SessionEvent.close ∈ s.channel.queue ∨ e = .close := by
        simpa [State.rest, hsender, eq_comm] using hdead
      rw [ahead, State.rest, ahead_append e hclose] at hfin
      rcases hclose with hmem | he
      · exact h.notice ⟨hexit, .inl hmem⟩ ⟨heof, hfin⟩
      · exact htimely he hsender hexit ⟨heof, hfin⟩
    · have hexit' : (s.deliver e).exit ≠ none := by
        rw [State.deliver, if_pos hsender]
        exact hexit
      exact ⟨fun he => absurd he hexit', fun he => absurd he hexit', fun hn => absurd hn.1 hexit'⟩
  · rw [State.deliver, if_neg hsender]
    exact h

theorem Attentive.step {l : Label} (h : Attentive s) (htimely : Timely s l)
    (hstep : step v s l = some t) : Attentive t := by
  cases l with
  | turn b =>
      obtain ⟨⟨effects, t'⟩, hturn, rfl⟩ := Option.map_eq_some_iff.mp hstep
      exact h.turn hturn
  | dispatch frame =>
      rw [ForwardLoop.step] at hstep
      split at hstep
      next e he =>
        obtain rfl := Option.some.inj hstep
        exact h.deliver fun hclose => htimely (hclose ▸ he)
      next =>
        obtain rfl := Option.some.inj hstep
        exact h
  | unregister =>
      obtain rfl := Option.some.inj hstep
      refine ⟨h.receiver, h.fins, ?_⟩
      rintro ⟨hexit, -⟩ hdeaf
      cases hsender : s.channel.sender with
      | true => exact htimely hsender hexit hdeaf
      | false => exact h.notice ⟨hexit, .inr hsender⟩ hdeaf

def Listening (s : State) : Prop := s.exit = none → s.channel.receiver = true

theorem timely_of_heeds {l : Label} (hlisten : Listening s)
    (hstep : ForwardLoop.step v s l = some t) (hheeds : Heeds v t) : Timely s l := by
  cases l with
  | turn b => trivial
  | dispatch frame =>
      intro hclose hsender hexit hdeaf
      simp only [ForwardLoop.step, hclose] at hstep
      obtain rfl := Option.some.inj hstep
      rw [deliver_of_sender (hlisten hexit) hsender] at hheeds
      have hdeaf' : Deaf (s.rest (s.channel.queue ++ [.close])) := by
        rw [Deaf, ahead, State.rest, ahead_append .close (.inr rfl)]
        exact hdeaf
      exact absurd (hheeds ⟨hexit, .inl (by simp [State.rest])⟩).2 (not_canEnd_of_deaf hexit hdeaf')
  | unregister =>
      intro hsender hexit hdeaf
      obtain rfl := Option.some.inj hstep
      exact absurd (hheeds ⟨hexit, .inr rfl⟩).2 (not_canEnd_of_deaf hexit hdeaf)

theorem Listening.step {l : Label} (h : Listening s) (hstep : ForwardLoop.step v s l = some t) :
    Listening t := by
  cases l with
  | turn b =>
      obtain ⟨⟨effects, t'⟩, hturn, rfl⟩ := Option.map_eq_some_iff.mp hstep
      intro hexit
      have hrun := turn_running hturn
      obtain ⟨now, rfl⟩ | ⟨-, rfl⟩ | ⟨now, d, queue, -, rfl⟩ | ⟨-, queue, -, rfl⟩ :=
        turn_cases hturn hexit <;>
        exact h hrun
  | dispatch frame =>
      rw [ForwardLoop.step] at hstep
      split at hstep
      next e _ =>
        obtain rfl := Option.some.inj hstep
        rw [State.deliver, Channel.send]
        split
        · split <;> exact h
        · exact h
      next =>
        obtain rfl := Option.some.inj hstep
        exact h
  | unregister =>
      obtain rfl := Option.some.inj hstep
      exact h

theorem heeds_iff_timely (v : Variant) (now : Nat) (ls : List Label) :
    Throughout (ForwardLoop.step v) (Heeds v) (start now) ls ↔
      EachStep (ForwardLoop.step v) Timely (start now) ls := by
  refine ⟨fun h => ?_, fun h => ?_⟩
  · have hlisten : Throughout (ForwardLoop.step v) Listening (start now) ls :=
      throughout_of_step (fun _ => rfl) fun t l t' ht hl => ht.step hl
    exact eachStep_of_throughout
      (fun t l t' hl ht ht' => timely_of_heeds ht.1 hl ht'.2) (hlisten.and h)
  · have hattentive :=
      throughout_of_eachStep (attentive_start now) (fun t l t' ht hok hl => ht.step hok hl) h
    exact hattentive.mono fun t ht => ht.heeds

end Notices

/-- Along a run of either forwarding loop no death notice is ever ignored, exactly when every notice
comes before the peer's Fin or after the end of the local stream. -/
theorem notice_heeded_iff (now : Nat) (ls : List Label) :
    (Throughout (step forwardLoop) (Heeds forwardLoop) (start now) ls ↔
      EachStep (step forwardLoop) Timely (start now) ls) ∧
    ∀ sid, Throughout (step (startTcpForward sid)) (Heeds (startTcpForward sid)) (start now) ls ↔
      EachStep (step (startTcpForward sid)) Timely (start now) ls :=
  ⟨heeds_iff_timely forwardLoop now ls, fun sid => heeds_iff_timely (startTcpForward sid) now ls⟩

def controlFrame (ftype : FrameType) : Frame Bytes := ⟨ftype, 1, 0, 0, []⟩

def lateClose : List Label :=
  [.dispatch (controlFrame .fin), .turn (.recv 0 (.ok ())), .dispatch (controlFrame .close)]

def deafState : State := ⟨false, true, idleDuration, ⟨[.close], true, true⟩, none⟩

theorem exec_lateClose (v : Variant) :
    exec (step v) (start 0) lateClose = some deafState ∧ Notice deafState ∧
    ¬ Heeds v deafState := by
  have hnotice : Notice deafState := ⟨rfl, .inl (by simp [deafState])⟩
  refine ⟨?_, hnotice, fun h => absurd (h hnotice).1 (by simp [deafState])⟩
  simp [lateClose, deafState, exec, step, turn, onRecv, State.deliver, State.rest, start, eventOf,
    controlFrame, Channel.new, Channel.send]

theorem close_after_fin_ignored :
    (exec (step forwardLoop) (start 0) lateClose = some deafState ∧ Notice deafState ∧
      ¬ Heeds forwardLoop deafState) ∧
    exec (step (startTcpForward 1)) (start 0) lateClose = some deafState ∧ Notice deafState ∧
      ¬ Heeds (startTcpForward 1) deafState :=
  ⟨exec_lateClose forwardLoop, exec_lateClose (startTcpForward 1)⟩

end SrtVpn.ForwardLoop
