import SrtVpn.Admission

namespace SrtVpn.Silence

open BigEndian Wire Encoder Decoder Runs Admission
open TextFields (Hex)

variable {hmac : Bytes → Bytes → Bytes} {hex : Hex} {c : Setup} {v v' : Visit}

/-- While a client is served, the beats since it was last heard are counted, and each of them ended
a whole period; a client taken for dead was not heard for three of them. -/
structure Watched (c : Setup) (v : Visit) : Prop where
  counted : ∀ dec since deadCount, v.stage = .serving dec since deadCount →
    deadCount < heartbeatDeadAfter ∧
    (v.beats.filter (v.heard < ·)).length = deadCount ∧
    v.heard + deadCount * heartbeatDur c ≤ since ∧ since ≤ v.clock
  dead : v.stage = .ended .dead → v.heard + heartbeatDeadAfter * heartbeatDur c ≤ v.clock
  spaced : v.beats.Pairwise fun a b => a + heartbeatDur c ≤ b

structure Paced (c : Setup) (v : Visit) : Prop where
  watched : Watched c v
  none : admitted v.stage = false → v.beats = []
  past : ∀ dec since deadCount, v.stage = .serving dec since deadCount → ∀ b ∈ v.beats, b ≤ since

theorem heartbeatDur_pos (c : Setup) : 0 < heartbeatDur c := by
  rw [heartbeatDur]
  omega

theorem Paced.elsewhere (h : Paced c v)
    (hstage : ∀ dec since deadCount, v'.stage ≠ .serving dec since deadCount)
    (hdead : v'.stage ≠ .ended .dead) (hbeats : v'.beats = v.beats)
    (hnone : admitted v'.stage = false → admitted v.stage = false) :
    Paced c v' :=
  ⟨⟨fun dec since deadCount hs => absurd hs (hstage dec since deadCount), fun hs => absurd hs hdead,
    hbeats ▸ h.watched.spaced⟩, fun hout => hbeats.trans (h.none (hnone hout)),
      fun dec since deadCount hs => absurd hs (hstage dec since deadCount)⟩

theorem paced_dispatchAll {dec : MuxDecoder Bytes} (frames : List (Frame Bytes))
    (hstage : v.stage = .serving dec v.clock 0) (hheard : v.heard = v.clock)
    (hpast : ∀ b ∈ v.beats, b ≤ v.clock)
    (hspaced : v.beats.Pairwise fun a b => a + heartbeatDur c ≤ b) :
    Paced c (dispatchAll v frames) := by
  obtain ⟨halong, done, -, -, hend⟩ := dispatchAll_along v frames
  have hquiet : (v.beats.filter (v.clock < ·)).length = 0 := by
    rw [List.length_eq_zero_iff, List.filter_eq_nil_iff]
    intro b hb
    have hle := hpast b hb
    simp only [decide_eq_true_eq]
    omega
  rcases hend with ⟨hsame, -⟩ | hpanic
  · have hserving := hsame.trans hstage
    refine ⟨⟨fun dec' since deadCount hs => ?_, fun hs => ?_, halong.beats ▸ hspaced⟩,
      fun hout => ?_, fun dec' since deadCount hs => ?_⟩
    · rw [hserving] at hs
      obtain ⟨-, rfl, rfl⟩ := Stage.serving.inj hs
      rw [halong.beats, halong.heard, halong.clock, hheard]
      exact ⟨by decide, hquiet, by omega, Nat.le_refl _⟩
    · rw [hserving] at hs
      cases hs
    · rw [hserving] at hout
      cases hout
    · rw [hserving] at hs
      obtain ⟨-, rfl, -⟩ := Stage.serving.inj hs
      rw [halong.beats]
      exact hpast
  · refine ⟨⟨fun dec' since deadCount hs => ?_, fun hs => ?_, halong.beats ▸ hspaced⟩,
      fun hout => ?_, fun dec' since deadCount hs => ?_⟩
    · rw [hpanic] at hs
      cases hs
    · rw [hpanic] at hs
      cases hs
    · rw [hpanic] at hout
      cases hout
    · rw [hpanic] at hs
      cases hs

theorem paced_greet (h : Paced c v) (hstage : v.stage = .arrived) {buf : Bytes}
    (hbuf : buf.length = 16) (serverTs : Int64) (failure : Option String) :
    Paced c (greet hmac hex c v buf serverTs failure) := by
  have hout : ∀ out : Bool, out = false → admitted v.stage = false := fun _ _ => by rw [hstage]; rfl
  have hrefused (sent : List (Bool × Bytes)) (error : String) :
      Paced c { v with sent := sent, stage := .refused error } :=
    h.elsewhere (by simp) (by simp) rfl (hout _)
  rw [greet]
  cases c.streamid with
  | none => exact hrefused _ _
  | some sid =>
      simp only
      by_cases htoken : StreamToken.verifyToken hmac hex sid c.passphrase = false
      · rw [if_pos htoken]
        exact hrefused _ _
      · rw [if_neg htoken, encode_challenge hbuf]
        cases failure with
        | some e => exact hrefused _ _
        | none => exact h.elsewhere (by simp) (by simp) rfl (hout _)

theorem paced_hear (h : Paced c v) {since : Nat} {nonce : Bytes} {serverTs : Int64}
    {buffered : List (Frame Bytes)} (hstage : v.stage = .waiting since nonce serverTs buffered)
    (msg : Bytes) (now now' : Int64) :
    Paced c (hear hmac hex c v since nonce serverTs buffered msg now now') := by
  have hout : admitted v.stage = false := by rw [hstage]; rfl
  have hnone := h.none hout
  rw [hear]
  cases decodeFrame msg with
  | none => exact h.elsewhere (by simp [hstage]) (by simp [hstage]) rfl fun _ => hout
  | some f =>
      simp only
      split
      · cases Handshake.acceptResponse hmac hex now now' c.passphrase nonce serverTs f.payload with
        | error e =>
            exact h.elsewhere (by simp [Visit.refuse]) (by simp [Visit.refuse]) rfl fun _ => hout
        | ok delta => exact paced_dispatchAll buffered rfl rfl (by simp [hnone]) h.watched.spaced
      · split
        · exact h.elsewhere (by simp) (by simp) rfl fun _ => hout
        · exact h.elsewhere (by simp [hstage]) (by simp [hstage]) rfl fun _ => hout

theorem paced_beat (h : Paced c v) {dec : MuxDecoder Bytes} {since deadCount : Nat}
    (hstage : v.stage = .serving dec since deadCount) (hdue : since + heartbeatDur c ≤ v.clock)
    (nowMs : Int64) (failure : Option String) :
    Paced c (beat v dec deadCount nowMs failure) := by
  obtain ⟨hcount, hbeats, hheard, -⟩ := h.watched.counted dec since deadCount hstage
  have hpos := heartbeatDur_pos c
  have hpast : ∀ b ∈ v.beats, b + heartbeatDur c ≤ v.clock := by
    intro b hb
    have hle := h.past dec since deadCount hstage b hb
    omega
  have hspaced : (v.beats ++ [v.clock]).Pairwise fun a b => a + heartbeatDur c ≤ b :=
    List.pairwise_append.mpr ⟨h.watched.spaced, List.pairwise_singleton _ _,
      fun a ha b hb => List.mem_singleton.mp hb ▸ hpast a ha⟩
  have hsucc : (deadCount + 1) * heartbeatDur c = deadCount * heartbeatDur c + heartbeatDur c :=
    Nat.succ_mul _ _
  have hserved : ¬ admitted v.stage = false := by simp [hstage, admitted]
  rw [beat]
  split
  next hdead =>
    have hthree : heartbeatDeadAfter = deadCount + 1 := by omega
    refine ⟨⟨by simp [Visit.leave], fun _ => ?_, h.watched.spaced⟩,
      by simp [Visit.leave, admitted], by simp [Visit.leave]⟩
    simp only [Visit.leave, hthree, hsucc]
    omega
  next hlive =>
    split
    next => exact h.elsewhere (by simp) (by simp) rfl (by simp [admitted])
    next msg enc henc =>
      cases failure with
      | some e => exact ⟨⟨by simp [Visit.leave], by simp [Visit.leave], hspaced⟩,
          by simp [Visit.leave, admitted], by simp [Visit.leave]⟩
      | none =>
          refine ⟨⟨fun dec' since' deadCount' hs => ?_, by simp, hspaced⟩,
            by simp [admitted], fun dec' since' deadCount' hs b hb => ?_⟩
          · obtain ⟨-, rfl, rfl⟩ := Stage.serving.inj hs
            have hnew : v.heard < v.clock := by omega
            refine ⟨by omega, ?_, ?_, Nat.le_refl _⟩
            · simp only [List.filter_append, List.length_append, hbeats]
              simp [hnew]
            · simp only [hsucc]
              omega
          · obtain ⟨-, rfl, -⟩ := Stage.serving.inj hs
            rcases List.mem_append.mp hb with hb | hb
            · exact Nat.le_trans (Nat.le_add_right _ _) (hpast b hb)
            · exact Nat.le_of_eq (List.mem_singleton.mp hb)

theorem Paced.step {l : Label} (h : Paced c v) (hstep : step hmac hex c v l = some v') :
    Paced c v' := by
  cases l with
  | begin buf serverTs failure =>
      obtain ⟨hstage, hbuf, rfl⟩ := begin_eq hstep
      exact paced_greet h hstage hbuf serverTs failure
  | message msg now now' =>
      obtain ⟨since, nonce, serverTs, buffered, hstage, rfl⟩ := message_eq hstep
      exact paced_hear h hstage msg now now'
  | batch msgs =>
      obtain ⟨dec, since, deadCount, hstage, -, rfl⟩ := batch_eq hstep
      obtain ⟨-, -, -, hclock⟩ := h.watched.counted dec since deadCount hstage
      refine paced_dispatchAll _ rfl rfl (fun b hb => ?_) h.watched.spaced
      exact Nat.le_trans (h.past dec since deadCount hstage b hb) hclock
  | gone =>
      rcases gone_eq hstep with ⟨since, nonce, serverTs, buffered, hstage, rfl⟩ |
          ⟨dec, since, deadCount, hstage, rfl⟩
      · exact h.elsewhere (by simp [Visit.refuse]) (by simp [Visit.refuse]) rfl
          (by simp [hstage, admitted])
      · exact h.elsewhere (by simp [Visit.leave]) (by simp [Visit.leave]) rfl
          (by simp [Visit.leave, admitted])
  | timeout =>
      obtain ⟨since, nonce, serverTs, buffered, hstage, -, rfl⟩ := timeout_eq hstep
      exact h.elsewhere (by simp [Visit.refuse]) (by simp [Visit.refuse]) rfl
        (by simp [hstage, admitted])
  | tick nowMs failure =>
      obtain ⟨dec, since, deadCount, hstage, hdue, rfl⟩ := tick_eq hstep
      exact paced_beat h hstage hdue nowMs failure
  | wait ms =>
      obtain rfl := Option.some.inj hstep
      refine ⟨⟨fun dec since deadCount hs => ?_, fun hs => ?_, h.watched.spaced⟩, h.none, h.past⟩
      · obtain ⟨hcount, hbeats, hheard, hclock⟩ := h.watched.counted dec since deadCount hs
        exact ⟨hcount, hbeats, hheard, Nat.le_trans hclock (Nat.le_add_right _ _)⟩
      · exact Nat.le_trans (h.watched.dead hs) (Nat.le_add_right _ _)
  | task registry enc msgs =>
      obtain ⟨-, rfl⟩ := task_eq hstep
      exact ⟨⟨h.watched.counted, h.watched.dead, h.watched.spaced⟩, h.none, h.past⟩

theorem paced_arrive (c : Setup) : Paced c (arrive c) :=
  ⟨⟨by simp [arrive], by simp [arrive], by simp [arrive]⟩, fun _ => rfl, by simp [arrive]⟩

def quietly (c : Setup) (nowMs : Int64) : List Label := [.wait (heartbeatDur c), .tick nowMs none]

def quiet (c : Setup) (nowMs : Int64) (n : Nat) : List Label :=
  (List.replicate n (quietly c nowMs)).flatten

theorem exec_quietly {dec : MuxDecoder Bytes} {since deadCount : Nat}
    (hstage : v.stage = .serving dec since deadCount) (hclock : since ≤ v.clock) (nowMs : Int64) :
    exec (step hmac hex c) v (quietly c nowMs) =
      some (beat { v with clock := v.clock + heartbeatDur c } dec deadCount nowMs none) := by
  have hdue : since + heartbeatDur c ≤ v.clock + heartbeatDur c := Nat.add_le_add_right hclock _
  simp only [quietly, exec_cons, step, Option.bind_some, hstage, hdue, if_true]
  rfl

theorem beat_live (v : Visit) (dec : MuxDecoder Bytes) {deadCount : Nat}
    (h : deadCount + 1 < heartbeatDeadAfter) (nowMs : Int64) :
    ∃ enc sent beats, beat v dec deadCount nowMs none = { v with
      enc := enc, sent := sent, beats := beats, stage := .serving dec v.clock
        (deadCount + 1) } := by
  have hfits : (Heartbeats.encodeHeartbeat nowMs).length ≤ frameDataMax := by
    rw [Heartbeats.encodeHeartbeat, length_toLeBytes]
    decide
  rw [beat, if_neg (Nat.not_le.mpr h), encodeFrame, if_pos hfits]
  exact ⟨_, _, _, rfl⟩

/-- Three periods without anything from the client are its last, whatever part of them has
passed. -/
theorem quiet_dead (n : Nat) {dec : MuxDecoder Bytes} {since deadCount : Nat}
    (hstage : v.stage = .serving dec since deadCount) (hclock : since ≤ v.clock)
    (hn : deadCount + (n + 1) = heartbeatDeadAfter) (nowMs : Int64) :
    ∃ v', exec (step hmac hex c) v (quiet c nowMs (n + 1)) = some v' ∧ v'.stage = .ended .dead := by
  induction n generalizing v since deadCount with
  | zero =>
      rw [quiet, List.replicate_succ, List.flatten_cons, exec_append, exec_quietly hstage hclock,
        Option.bind_some, beat, if_pos (by omega)]
      exact ⟨_, rfl, rfl⟩
  | succ n ih =>
      rw [quiet, List.replicate_succ, List.flatten_cons, exec_append, exec_quietly hstage hclock,
        Option.bind_some]
      have hlive : deadCount + 1 < heartbeatDeadAfter := by omega
      obtain ⟨enc, sent, beats, hbeat⟩ :=
        beat_live { v with clock := v.clock + heartbeatDur c } dec hlive nowMs
      rw [hbeat]
      exact ih rfl (Nat.le_refl _) (by omega)

/-- A client is taken for dead when it has not been heard for three periods, and not before; up to
then it is sent a beat a period. -/
theorem silence_noticed (hmac : Bytes → Bytes → Bytes) (hex : Hex) (c : Setup) (ls : List Label) :
    Throughout (step hmac hex c) (Watched c) (arrive c) ls ∧
    ∀ v, exec (step hmac hex c) (arrive c) ls = some v → ∀ dec since deadCount,
      v.stage = .serving dec since deadCount →
      ∀ nowMs, ∃ v', exec (step hmac hex c) v (quiet c nowMs (heartbeatDeadAfter - deadCount)) =
        some v' ∧ v'.stage = .ended .dead := by
  have hall : Throughout (step hmac hex c) (Paced c) (arrive c) ls :=
    throughout_of_step (paced_arrive c) fun v l v' h hstep => h.step hstep
  refine ⟨hall.mono fun v h => h.watched, fun v hv dec since deadCount hstage nowMs => ?_⟩
  obtain ⟨hcount, -, -, hclock⟩ :=
    (hall ls List.prefix_rfl v hv).watched.counted dec since deadCount hstage
  obtain ⟨n, hn⟩ : ∃ n, heartbeatDeadAfter - deadCount = n + 1 :=
    ⟨heartbeatDeadAfter - deadCount - 1, by omega⟩
  rw [hn]
  exact quiet_dead n hstage hclock (by omega) nowMs

def missed : Stage → Option Nat
  | .serving _ _ deadCount => some deadCount
  | _ => none

def entered : List Label :=
  [.begin [0, 1, 2, 3, 4, 5, 6, 7, 8, 9, 10, 11, 12, 13, 14, 15] 1700000000 none,
    .message (frameBytes (stamp (.new true) ⟨.response, 0, 0,
      Handshake.responsePayload 1700000000 (Hex.lower.encode Handshake.sampleTag)⟩).1)
        1700000001 1700000001,
    .wait 5000, .tick 1700000006000 none]

theorem silence_noticed_entered :
    ∃ v v', exec (step sampleHmac Hex.lower withToken) (arrive withToken) entered = some v ∧
    missed v.stage = some 1 ∧
    exec (step sampleHmac Hex.lower withToken) v (quiet withToken 1700000011000 2) = some v' ∧
    v'.stage = .ended .dead := by
  have hrun : (exec (step sampleHmac Hex.lower withToken) (arrive withToken) entered).map
      (fun v => missed v.stage) =
      some (some 1) := by decide +kernel
  obtain ⟨v, hv, hmissed⟩ := Option.map_eq_some_iff.mp hrun
  cases hstage : v.stage with
  | serving dec since deadCount =>
      rw [hstage] at hmissed
      obtain rfl := Option.some.inj hmissed
      obtain ⟨v', hdead, hend⟩ :=
        (silence_noticed sampleHmac Hex.lower withToken entered).2 v hv dec since 1
          hstage 1700000011000
      exact ⟨v, v', hv, by rw [hstage]; rfl, hdead, hend⟩
  | arrived =>
      rw [hstage] at hmissed
      cases hmissed
  | waiting since nonce serverTs buffered =>
      rw [hstage] at hmissed
      cases hmissed
  | refused error =>
      rw [hstage] at hmissed
      cases hmissed
  | ended why =>
      rw [hstage] at hmissed
      cases hmissed

end SrtVpn.Silence
