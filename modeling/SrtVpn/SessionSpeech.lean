import SrtVpn.SessionTasks

namespace SrtVpn.SessionSpeech

open BigEndian Wire Encoder Session ForwardLoop PartialRuns Speech SessionTasks
open Attempts (SocketAddr)
open LocalConn (protoTcp)
open Reassembly (Reachable)
open UdpForward (Forward)
open UdpRelay (Relay)

/-- What the connection takes of some messages, and whether it is still there behind them. -/
structure Takes (closed closed' : Bool) (calls taken : List (Call Bytes)) : Prop where
  gone : closed = true → taken = [] ∧ closed' = true
  here : closed = false → taken <+: calls ∧ (closed' = false → taken = calls)

theorem takes_nil {closed closed' : Bool} (h : closed = true → closed' = true) :
    Takes closed closed' [] [] :=
  ⟨fun hc => ⟨rfl, h hc⟩, fun _ => ⟨List.prefix_rfl, fun _ => rfl⟩⟩

theorem takes_said (s : Task) (calls : List (Call Bytes)) (accepts : Nat) :
    Takes s.closed (s.said calls (calls.take (s.room accepts))).closed calls
      (calls.take (s.room accepts)) := by
  constructor
  · intro hclosed
    rw [Task.room, if_pos hclosed, Task.said, hclosed]
    exact ⟨List.take_zero, rfl⟩
  · intro hopen
    refine ⟨List.take_prefix _ _, fun hstays => ?_⟩
    rw [Task.said, hopen, Bool.false_or, decide_eq_false_iff_not, not_not] at hstays
    exact hstays

def Fresh (loop : ForwardLoop.State) : Prop := loop.localEof = false ∧ loop.exit = none

def Fits (job : Job) (closed : Bool) (loop : ForwardLoop.State) : Stage → Voice → Prop
  | .connecting _, w | .replying, w | .prepending, w => w = .talking ∧ Fresh loop
  | .binding, w => w = .talking ∧ ∃ payload, job = .handleOpen payload
  | .opening, w => w = .silent ∧ job.voice = .silent ∧ Fresh loop
  | .forwarding, w => w = (if loop.localEof then .finished else .talking) ∧ loop.exit = none
  | .relaying f, w => w = .talking ∧ (∃ payload, job = .handleOpen payload) ∧
      Reachable f.reassembler ∧ f.stage = .running
  | .associating r, w =>
      w = .talking ∧ job = .associate ∧ Reachable r.reassembler ∧ r.stage = .running
  | .shutting, w | .notifying _, w => w = .talking ∨ w = .finished
  | .done _, w => w = .closed ∨ (w = .talking ∧ closed = true)
  | .panicked, w => w ≠ .closed

structure Sound (job : Job) (datagrams : Bool) (sid : UInt16) (events : List Event)
    (outs : List (List (Call Bytes))) (s : Task) : Prop where
  spoken : outs.flatten <+: events.flatMap (asked job datagrams sid)
  whole : s.closed = false → outs.flatten = events.flatMap (asked job datagrams sid)
  said : ∃ w, Runs.exec (speak sid) job.voice (events.flatMap (asked job datagrams sid)) = some w ∧
    Fits job s.closed s.loop s.stage w
  panics : s.stage = .panicked → job.Panics events

section Steps

variable {job : Job} {datagrams : Bool} {sid : UInt16} {events : List Event}
  {outs : List (List (Call Bytes))} {s s' : Task} {e : Event} {out : List (Call Bytes)}

theorem panics_mono {events' : List Event} (h : job.Panics events) (hsub : events ⊆ events') :
    job.Panics events' := by
  cases job with
  | handleOpen payload =>
      obtain ⟨t, frame, ht, hframe, hswollen⟩ := h
      exact ⟨t, frame, hsub ht, hframe, hswollen⟩
  | forward dst dstPort reply prepend => exact h
  | associate =>
      obtain ⟨t, frame, ht, hframe, hswollen⟩ := h
      exact ⟨t, frame, hsub ht, hframe, hswollen⟩

/-- All that a step has to show. -/
structure Goes (job : Job) (datagrams : Bool) (sid : UInt16) (s : Task) (w : Voice) (e : Event)
    (out : List (Call Bytes)) (s' : Task) : Prop where
  takes : Takes s.closed s'.closed (asked job datagrams sid e) out
  speaks : ∃ w', Runs.exec (speak sid) w (asked job datagrams sid e) = some w' ∧
    Fits job s'.closed s'.loop s'.stage w'
  panics : s'.stage = .panicked → s.stage = .panicked ∨ job.Panics [e]

theorem Sound.step (h : Sound job datagrams sid events outs s)
    (hgoes : ∀ w, Fits job s.closed s.loop s.stage w → Goes job datagrams sid s w e out s') :
    Sound job datagrams sid (events ++ [e]) (outs ++ [out]) s' := by
  obtain ⟨w, hw, hfits⟩ := h.said
  have hgo := hgoes w hfits
  have hasked : (events ++ [e]).flatMap (asked job datagrams sid) =
      events.flatMap (asked job datagrams sid) ++ asked job datagrams sid e := by
    rw [List.flatMap_append, List.flatMap_singleton]
  have hsaid : (outs ++ [out]).flatten = outs.flatten ++ out := by
    rw [List.flatten_append, List.flatten_singleton]
  refine ⟨?_, fun hopen => ?_, ?_, fun hpanicked => ?_⟩
  · rw [hasked, hsaid]
    cases hclosed : s.closed with
    | true =>
        rw [(hgo.takes.gone hclosed).1, List.append_nil]
        exact h.spoken.trans (List.prefix_append _ _)
    | false =>
        rw [h.whole hclosed]
        exact (List.prefix_append_right_inj _).mpr (hgo.takes.here hclosed).1
  · have hclosed : s.closed = false := by
      by_contra hclosed
      rw [(hgo.takes.gone (by simpa using hclosed)).2] at hopen
      cases hopen
    rw [hasked, hsaid, h.whole hclosed, (hgo.takes.here hclosed).2 hopen]
  · obtain ⟨w', hw', hfits'⟩ := hgo.speaks
    refine ⟨w', ?_, hfits'⟩
    rw [hasked, Runs.exec_append, hw]
    exact hw'
  · rcases hgo.panics hpanicked with hbefore | hnow
    · exact panics_mono (h.panics hbefore) (List.subset_append_left _ _)
    · exact panics_mono hnow (List.subset_append_right _ _)

theorem goes_quiet {w : Voice} (hasked : asked job datagrams sid e = [])
    (hclosed : s.closed = true → s'.closed = true) (hfits : Fits job s'.closed s'.loop s'.stage w)
    (hpanics : s'.stage = .panicked → s.stage = .panicked ∨ job.Panics [e]) :
    Goes job datagrams sid s w e [] s' := by
  refine ⟨?_, ⟨w, ?_, hfits⟩, hpanics⟩
  · rw [hasked]
    exact takes_nil hclosed
  · rw [hasked]
    rfl

theorem fits_lost {w : Voice} (h : Fits job s.closed s.loop s.stage w) :
    Fits job true s.loop s.stage w := by
  cases hstage : s.stage with
  | done r =>
      rw [hstage] at h
      rcases h with h | ⟨h, -⟩
      · exact Or.inl h
      · exact Or.inr ⟨h, rfl⟩
  | _ =>
      rw [hstage] at h
      exact h

theorem fits_loop {w : Voice} {loop : ForwardLoop.State} (h : Fits job s.closed s.loop s.stage w)
    (heof : loop.localEof = s.loop.localEof) (hexit : loop.exit = s.loop.exit) :
    Fits job s.closed loop s.stage w := by
  have hfresh (hf : Fresh s.loop) : Fresh loop := ⟨heof.trans hf.1, hexit.trans hf.2⟩
  cases hstage : s.stage with
  | connecting target =>
      rw [hstage] at h
      exact ⟨h.1, hfresh h.2⟩
  | opening =>
      rw [hstage] at h
      exact ⟨h.1, h.2.1, hfresh h.2.2⟩
  | replying =>
      rw [hstage] at h
      exact ⟨h.1, hfresh h.2⟩
  | prepending =>
      rw [hstage] at h
      exact ⟨h.1, hfresh h.2⟩
  | forwarding =>
      rw [hstage] at h
      exact ⟨by rw [heof]; exact h.1, hexit.trans h.2⟩
  | _ =>
      rw [hstage] at h
      exact h

theorem fits_enter {closed : Bool} (hfresh : Fresh s.loop) (now : Nat) :
    Fits job closed (s.enter now).loop (s.enter now).stage .talking := by
  refine ⟨?_, hfresh.2⟩
  rw [show (s.enter now).loop.localEof = s.loop.localEof from rfl, hfresh.1]
  rfl

theorem fits_prepared {closed : Bool} (hfresh : Fresh s.loop) (now : Nat) :
    Fits job closed (s.prepared job now).loop (s.prepared job now).stage .talking := by
  rw [Task.prepared]
  split
  · exact ⟨rfl, hfresh⟩
  · exact fits_enter hfresh now

theorem fits_after {loop : ForwardLoop.State} {closed : Bool} {w : Voice}
    (hw : w = .talking ∨ w = .finished)
    (hgoes : loop.exit = none → w = if loop.localEof then .finished else .talking) :
    Fits job closed (s.after job loop).loop (s.after job loop).stage w := by
  rw [Task.after]
  simp only
  cases hexit : loop.exit with
  | none => exact ⟨hgoes hexit, hexit⟩
  | some e =>
      cases job with
      | handleOpen payload => cases e <;> exact hw
      | forward dst dstPort reply prepend => cases e <;> exact hw
      | associate => cases e <;> exact hw

theorem not_panicked_after {loop : ForwardLoop.State} : (s.after job loop).stage ≠ .panicked := by
  rw [Task.after]
  simp only
  cases loop.exit with
  | none => nofun
  | some e => cases job <;> cases e <;> nofun

theorem not_panicked_prepared {now : Nat} : (s.prepared job now).stage ≠ .panicked := by
  rw [Task.prepared]
  split <;> nofun

theorem closed_prepared {now : Nat} : (s.prepared job now).closed = s.closed := by
  rw [Task.prepared]
  split <;> rfl

theorem voice_cases {b : Bool} {w : Voice} (h : w = if b then .finished else .talking) :
    w = .talking ∨ w = .finished := by
  cases b with
  | true => exact Or.inr h
  | false => exact Or.inl h

theorem goes_read {w : Voice} {now accepts : Nat} {result : Except String Bytes}
    (hfits : Fits job s.closed s.loop .forwarding w)
    (hact : s.read job sid now accepts result = some (out, s')) :
    Goes job datagrams sid s w (.reads now accepts result) out s' := by
  obtain ⟨p, hturn, heq⟩ := Option.map_eq_some_iff.mp hact
  obtain ⟨rfl, rfl⟩ := Prod.mk.inj heq
  obtain ⟨heof, hnext⟩ := turn_read_spec hturn
  obtain ⟨hw, hexit⟩ := hfits
  rw [heof] at hw
  subst hw
  refine ⟨takes_said s _ accepts, ?_, fun hpanicked => absurd hpanicked not_panicked_after⟩
  cases result with
  | error err =>
      refine ⟨.talking, rfl, fits_after (Or.inl rfl) fun hgoes => ?_⟩
      rw [hnext] at hgoes
      cases hgoes
  | ok data =>
      cases data with
      | nil =>
          refine ⟨.finished, exec_singleton (speak_fin sid),
            fits_after (Or.inr rfl) fun hgoes => ?_⟩
          rw [hnext] at hgoes ⊢
          split at hgoes
          next hsent =>
            rw [if_pos hsent, onRead]
            simp only
            split <;> rfl
          next => cases hgoes
      | cons b data =>
          refine ⟨.talking, exec_content (content_sendDataBatch sid (b :: data)),
            fits_after (Or.inl rfl) fun hgoes => ?_⟩
          rw [hnext] at hgoes ⊢
          split at hgoes
          next hsent =>
            rw [if_pos hsent, show (onRead _ s.loop now (.ok (b :: data)) (.ok ())).2.localEof =
              s.loop.localEof from rfl, heof]
            rfl
          next => cases hgoes

theorem goes_relay {w : Voice} {f : Forward} {t : UdpForward.Turn}
    (hfits : Fits job s.closed s.loop (.relaying f) w)
    (hact : s.relay datagrams sid f t = some (out, s')) :
    Goes job datagrams sid s w (.relayed t) out s' := by
  obtain ⟨p, hturn, heq⟩ := Option.map_eq_some_iff.mp hact
  obtain ⟨rfl, rfl⟩ := Prod.mk.inj heq
  obtain ⟨rfl, hjob, hreach, hrunning⟩ := hfits
  obtain ⟨hframes, hstage⟩ := relay_spec hreach hrunning hturn
  refine ⟨?_, ⟨.talking, exec_content (content_relayCalls datagrams sid t), ?_⟩, ?_⟩
  · rw [hframes]
    exact takes_said s _ t.accepts
  · rcases hstage with ⟨hstage, hreach'⟩ | hstage | ⟨hstage, -⟩
    · simp only [hstage]
      exact ⟨rfl, hjob, hreach', hstage⟩
    · simp only [hstage]
      exact Or.inl rfl
    · simp only [hstage]
      nofun
  · intro hpanicked
    rcases hstage with ⟨hstage, -⟩ | hstage | ⟨hstage, frame, hframe, hswollen⟩
    · simp only [hstage] at hpanicked
      cases hpanicked
    · simp only [hstage] at hpanicked
      cases hpanicked
    · obtain ⟨payload, rfl⟩ := hjob
      exact Or.inr ⟨t, frame, List.mem_singleton_self _, hframe, hswollen⟩

theorem goes_associate {w : Voice} {r : Relay SocketAddr} {t : UdpRelay.Turn SocketAddr}
    (hfits : Fits job s.closed s.loop (.associating r) w)
    (hact : s.associate datagrams sid r t = some (out, s')) :
    Goes job datagrams sid s w (.associated t) out s' := by
  obtain ⟨p, hturn, heq⟩ := Option.map_eq_some_iff.mp hact
  obtain ⟨rfl, rfl⟩ := Prod.mk.inj heq
  obtain ⟨rfl, rfl, hreach, hrunning⟩ := hfits
  obtain ⟨hframes, hstage⟩ := associate_spec hreach hrunning hturn
  refine ⟨?_, ?_, ?_⟩
  · rw [hframes]
    exact takes_said s _ t.accepts
  · rcases hstage with ⟨hstage, hreach', hcontent⟩ | ⟨hstage, hclose⟩ | ⟨hstage, hnone, -⟩
    · refine ⟨.talking, exec_content hcontent, ?_⟩
      simp only [hstage]
      exact ⟨rfl, rfl, hreach', hstage⟩
    · refine ⟨.closed, ?_, ?_⟩
      · rw [show asked .associate datagrams sid (.associated t) = _ from hclose]
        exact exec_singleton (speak_close (Or.inl rfl))
      · simp only [hstage]
        exact Or.inl rfl
    · refine ⟨.talking, ?_, ?_⟩
      · rw [show asked .associate datagrams sid (.associated t) = _ from hnone]
        rfl
      · simp only [hstage]
        nofun
  · intro hpanicked
    rcases hstage with ⟨hstage, -⟩ | ⟨hstage, -⟩ | ⟨hstage, -, frame, hframe, hswollen⟩
    · simp only [hstage] at hpanicked
      cases hpanicked
    · simp only [hstage] at hpanicked
      cases hpanicked
    · exact Or.inr ⟨t, frame, List.mem_singleton_self _, hframe, hswollen⟩

theorem goes_opens {w : Voice} {now : Nat} (hfits : Fits job s.closed s.loop .opening w)
    (hact : s.sendOpen job sid now = some (out, s')) :
    Goes job datagrams sid s w (.opens now) out s' := by
  obtain ⟨rfl, hjob, hfresh⟩ := hfits
  rw [Task.sendOpen] at hact
  split at hact
  next hnone =>
    obtain ⟨rfl, rfl⟩ := Prod.mk.inj (Option.some.inj hact)
    refine goes_quiet (show asked job datagrams sid (.opens now) = [] from hnone) id
      Voice.noConfusion fun _ => ?_
    · cases job with
      | handleOpen payload => cases hjob
      | forward dst dstPort reply prepend =>
          apply Or.inr
          rw [Job.opening] at hnone
          split at hnone
          · cases hnone
          next hlong => exact Nat.lt_of_not_le hlong
      | associate => cases hnone
  next hsome =>
    have hspeaks : Runs.exec (speak sid) .silent (job.opening sid) = some .talking := by
      cases job with
      | handleOpen payload => cases hjob
      | forward dst dstPort reply prepend =>
          rw [Job.opening] at hsome ⊢
          split at hsome
          next hle =>
            rw [if_pos hle]
            exact exec_singleton (speak_open hle)
          next => exact absurd rfl hsome
      | associate => exact exec_singleton (speak_open (by decide +kernel))
    have htakes := takes_said s (job.opening sid) 1
    split at hact
    · obtain ⟨rfl, rfl⟩ := Prod.mk.inj (Option.some.inj hact)
      cases job with
      | handleOpen payload => cases hjob
      | forward dst dstPort reply prepend =>
          rw [Task.opened]
          split
          · exact ⟨htakes, ⟨.talking, hspeaks, rfl, hfresh⟩, nofun⟩
          · refine ⟨?_, ⟨.talking, hspeaks, fits_prepared (s := s.said _ _) hfresh now⟩,
              fun hpanicked => absurd hpanicked not_panicked_prepared⟩
            rw [closed_prepared]
            exact htakes
      | associate => exact ⟨htakes, ⟨.talking, hspeaks, rfl, rfl, .new, rfl⟩, nofun⟩
    next hrefused =>
      obtain ⟨rfl, rfl⟩ := Prod.mk.inj (Option.some.inj hact)
      have hclosed : (s.said (job.opening sid) ((job.opening sid).take (s.room 1))).closed =
          true := by
        rw [Task.said, decide_eq_true hrefused, Bool.or_true]
      cases job with
      | handleOpen payload => cases hjob
      | forward dst dstPort reply prepend => exact ⟨htakes, ⟨.talking, hspeaks, Or.inl rfl⟩, nofun⟩
      | associate => exact ⟨htakes, ⟨.talking, hspeaks, Or.inr ⟨rfl, hclosed⟩⟩, nofun⟩

theorem goes_prepends {w : Voice} {now accepts : Nat}
    (hfits : Fits job s.closed s.loop .prepending w)
    (hact : s.sendPrepend job sid now accepts = some (out, s')) :
    Goes job datagrams sid s w (.prepends now accepts) out s' := by
  obtain ⟨rfl, hfresh⟩ := hfits
  have hspeaks := exec_content (content_sendDataBatch sid job.prepend)
  have htakes := takes_said s (sendDataBatch sid job.prepend) accepts
  rw [Task.sendPrepend] at hact
  simp only at hact
  split at hact
  · obtain ⟨rfl, rfl⟩ := Prod.mk.inj (Option.some.inj hact)
    exact ⟨htakes, ⟨.talking, hspeaks, fits_enter hfresh now⟩, nofun⟩
  · obtain ⟨rfl, rfl⟩ := Prod.mk.inj (Option.some.inj hact)
    exact ⟨htakes, ⟨.talking, hspeaks, Or.inl rfl⟩, nofun⟩

theorem goes_notifies {w : Voice} {r : Except Bytes Unit}
    (hfits : Fits job s.closed s.loop (.notifying r) w)
    (hact : s.notifySessionClosed sid r = some (out, s')) :
    Goes job datagrams sid s w .notifies out s' := by
  obtain ⟨rfl, rfl⟩ := Prod.mk.inj (Option.some.inj hact)
  exact ⟨takes_said s _ 1, ⟨.closed, exec_singleton (speak_close hfits), Or.inl rfl⟩, nofun⟩

theorem goes_act {w : Voice} (hfits : Fits job s.closed s.loop s.stage w)
    (hact : s.act job datagrams sid e = some (out, s')) : Goes job datagrams sid s w e out s' := by
  rw [Task.act.eq_def] at hact
  split at hact
  next =>
    obtain ⟨rfl, rfl⟩ := Prod.mk.inj (Option.some.inj hact)
    exact goes_quiet rfl (fun _ => rfl) (fits_lost (s := s) hfits) Or.inl
  next frame =>
    obtain ⟨loop, hloop, heq⟩ := Option.map_eq_some_iff.mp hact
    obtain ⟨rfl, rfl⟩ := Prod.mk.inj heq
    obtain ⟨heof, hexit⟩ := step_dispatch_spec hloop
    exact goes_quiet rfl id (fits_loop (s := s) hfits heof hexit) Or.inl
  next =>
    obtain ⟨loop, hloop, heq⟩ := Option.map_eq_some_iff.mp hact
    obtain ⟨rfl, rfl⟩ := Prod.mk.inj heq
    obtain rfl := Option.some.inj hloop
    exact goes_quiet rfl id (fits_loop (s := s) hfits rfl rfl) Or.inl
  next target now r hstage =>
    rw [hstage] at hfits
    obtain ⟨rfl, hfresh⟩ := hfits
    split at hact
    all_goals obtain ⟨rfl, rfl⟩ := Prod.mk.inj (Option.some.inj hact)
    · exact goes_quiet rfl id (Or.inl rfl) nofun
    · exact goes_quiet rfl id (Or.inl rfl) nofun
    · exact goes_quiet rfl id (fits_enter hfresh now) nofun
  next now r hstage =>
    rw [hstage] at hfits
    obtain ⟨rfl, hjob⟩ := hfits
    split at hact
    all_goals obtain ⟨rfl, rfl⟩ := Prod.mk.inj (Option.some.inj hact)
    · exact goes_quiet rfl id ⟨rfl, hjob, .new, rfl⟩ nofun
    · exact goes_quiet rfl id (Or.inl rfl) nofun
  next now hstage =>
    rw [hstage] at hfits
    exact goes_opens hfits hact
  next now r hstage =>
    rw [hstage] at hfits
    obtain ⟨rfl, hfresh⟩ := hfits
    split at hact
    all_goals obtain ⟨rfl, rfl⟩ := Prod.mk.inj (Option.some.inj hact)
    · refine goes_quiet rfl (fun hclosed => closed_prepared.trans hclosed)
        (fits_prepared hfresh now) ?_
      exact fun hpanicked => absurd hpanicked not_panicked_prepared
    · exact goes_quiet rfl id (Or.inl rfl) nofun
  next now accepts hstage =>
    rw [hstage] at hfits
    exact goes_prepends hfits hact
  next now hstage =>
    rw [hstage] at hfits
    obtain ⟨p, hturn, heq⟩ := Option.map_eq_some_iff.mp hact
    obtain ⟨rfl, rfl⟩ := Prod.mk.inj heq
    refine goes_quiet rfl id (fits_after (voice_cases hfits.1) fun hgoes => ?_) fun hpanicked =>
      absurd hpanicked not_panicked_after
    exact absurd hgoes (turn_idle_spec hturn)
  next now accepts result hstage =>
    rw [hstage] at hfits
    exact goes_read hfits hact
  next now written hstage =>
    rw [hstage] at hfits
    obtain ⟨p, hturn, heq⟩ := Option.map_eq_some_iff.mp hact
    obtain ⟨rfl, rfl⟩ := Prod.mk.inj heq
    refine goes_quiet rfl id (fits_after (voice_cases hfits.1) fun _ => ?_) fun hpanicked =>
      absurd hpanicked not_panicked_after
    rw [turn_recv_spec hturn]
    exact hfits.1
  next f t hstage =>
    rw [hstage] at hfits
    exact goes_relay hfits hact
  next r t hstage =>
    rw [hstage] at hfits
    exact goes_associate hfits hact
  next r hstage =>
    rw [hstage] at hfits
    split at hact
    all_goals
      obtain ⟨rfl, rfl⟩ := Prod.mk.inj (Option.some.inj hact)
      exact goes_quiet rfl id hfits nofun
  next r hstage =>
    rw [hstage] at hfits
    exact goes_notifies hfits hact
  next => cases hact

theorem sound_new (job : Job) (datagrams : Bool) (sid : UInt16) :
    Sound job datagrams sid [] [] (.new job) := by
  refine ⟨List.prefix_rfl, fun _ => rfl, ⟨job.voice, rfl, ?_⟩, ?_⟩
  · cases job with
    | handleOpen payload =>
        rw [Task.new, Job.start]
        split
        · exact Or.inl rfl
        split
        · exact ⟨rfl, rfl, rfl⟩
        split
        · exact ⟨rfl, payload, rfl⟩
        · exact Or.inl rfl
    | forward dst dstPort reply prepend => exact ⟨rfl, rfl, rfl, rfl⟩
    | associate => exact ⟨rfl, rfl, rfl, rfl⟩
  · intro hpanicked
    cases job with
    | handleOpen payload =>
        rw [Task.new, Job.start] at hpanicked
        simp only at hpanicked
        split at hpanicked
        · cases hpanicked
        split at hpanicked
        · cases hpanicked
        split at hpanicked <;> cases hpanicked
    | forward dst dstPort reply prepend => cases hpanicked
    | associate => cases hpanicked

theorem sound_run (h : run (Task.act job datagrams sid) (.new job) events = some (outs, s)) :
    Sound job datagrams sid events outs s := by
  apply run_history (Sound job datagrams sid) _ (sound_new job datagrams sid) h
  intro past outs t e out t' hsound hact
  exact hsound.step fun w hfits => goes_act hfits hact

end Steps

theorem done_of_closed {job : Job} {s : Task} (h : Fits job s.closed s.loop s.stage .closed) :
    ∃ r, s.stage = .done r := by
  cases hstage : s.stage with
  | done r => exact ⟨r, rfl⟩
  | forwarding =>
      rw [hstage] at h
      rcases voice_cases h.1 with h | h <;> cases h
  | panicked =>
      rw [hstage] at h
      exact absurd rfl h
  | shutting =>
      rw [hstage] at h
      rcases h with h | h <;> cases h
  | notifying r =>
      rw [hstage] at h
      rcases h with h | h <;> cases h
  | _ =>
      rw [hstage] at h
      cases h.1

/-- Whatever happens to a session task, it says an Open if it opens the session, then content,
perhaps a Fin, and a Close last, and the connection takes this in its order, all of it as long as it
is there. A task that is over without a failed assertion has said one Close, behind everything else,
whatever path it took; an assertion fails only for a host that is too long or swells. -/
theorem session_speech (job : Job) (datagrams : Bool) (sid : UInt16) (events : List Event)
    (outs : List (List (Call Bytes))) (s : Task)
    (h : run (Task.act job datagrams sid) (.new job) events = some (outs, s)) :
    outs.flatten <+: events.flatMap (asked job datagrams sid) ∧
      (s.closed = false → outs.flatten = events.flatMap (asked job datagrams sid)) ∧
      (∃ w, Runs.exec (speak sid) job.voice (events.flatMap (asked job datagrams sid)) = some w ∧
        (w = .closed → ∃ r, s.stage = .done r)) ∧
      (∀ r, s.stage = .done r → s.closed = false →
        ∃ before, outs.flatten = before ++ [sendControl sid .close []] ∧ ∀ c ∈ before,
          c.ftype ≠ .close) ∧
      (s.stage = .panicked → job.Panics events) := by
  have hsound := sound_run h
  obtain ⟨w, hw, hfits⟩ := hsound.said
  refine ⟨hsound.spoken, hsound.whole, ⟨w, hw, fun hclosed => ?_⟩, fun r hdone hopen => ?_,
    hsound.panics⟩
  · subst hclosed
    exact done_of_closed hfits
  · rw [hdone] at hfits
    rcases hfits with rfl | ⟨-, hclosed⟩
    · rw [hsound.whole hopen]
      apply close_last hw
      cases job <;> exact Voice.noConfusion
    · rw [hopen] at hclosed
      cases hclosed

/-- An application that sends two bytes and ends its half; the other end does the same. -/
theorem session_speech_both :
    ∃ before, [sendOpen 7 protoTcp [0x61] 80, ⟨.data, 7, 0, [1, 2]⟩, sendControl 7 .fin [],
      sendControl 7 .close []] =
    before ++ [sendControl 7 .close []] ∧ ∀ c ∈ before, c.ftype ≠ .close :=
  (session_speech (.forward [0x61] 80 [] []) true 7
    [.opens 0, .reads 1 9 (.ok [1, 2]), .reads 2 9 (.ok []), .arrives ⟨.fin, 7, 0, 0, []⟩,
      .takes 3 (.ok ()), .notifies] _ _ rfl).2.2.2.1 (.ok ()) rfl rfl

end SrtVpn.SessionSpeech
