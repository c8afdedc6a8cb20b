import SrtVpn.Admission
import SrtVpn.Downlink

namespace SrtVpn.HonestClient

open BigEndian Text TextFields Wire Encoder Decoder Connection Runs Handshake Admission Downlink

/-- One client's connection with both of its ends: the task of the server, the client's encoder, the
loop that receives for it with its decoder, and the two directions. -/
structure Pair where
  visit : Visit
  enc : MuxEncoder
  dec : MuxDecoder Bytes
  receiving : Bool
  up : Link Bytes
  down : Link Bytes

def start (c : Setup) : Pair := ⟨arrive c, .new true, .new, true, .new, .new⟩

/-- Everything but a Datagram is sent reliably. -/
def toItem (msg : Bytes) : SendItem Bytes := ⟨msg, (decodeFrame msg).all (·.ftype ≠ .datagram)⟩

def sendAll (l : Link Bytes) (msgs : List (Bool × Bytes)) : Link Bytes :=
  msgs.foldl (fun l (priority, msg) => l.sendItemTo priority (toItem msg)) l

/-- Without a value where the assertion of `encode_frame` fails. -/
def Pair.say (p : Pair) (priority : Bool) (call : Call Bytes) : Option Pair :=
  (encodeFrame p.enc call).map fun (msg, enc) =>
    { p with enc := enc, up := p.up.sendItemTo priority (toItem msg) }

section Source

variable (hmac : Bytes → Bytes → Bytes) (hex : Hex) (c : Setup)

/-- The arms of `run_recv_inner` in which something is sent. A failed assertion ends the loop. -/
def answerFrame (clock nowMs : Int64) (p : Pair) (f : Frame Bytes) : Pair :=
  if p.receiving = false then p
  else
    match f.ftype with
    | .challenge =>
        match handleChallenge hmac hex clock c.passphrase f.payload with
        | some payload =>
            (p.say false ⟨.response, 0, 0, payload⟩).getD { p with receiving := false }
        | none => p
    | .heartbeat =>
        match Heartbeats.clientHeartbeat nowMs f.payload with
        | .pong payload =>
            (p.say false ⟨.heartbeat, 0, 0, payload⟩).getD { p with receiving := false }
        | .measured _ => p
    | _ => p

def runRecvInner (clock nowMs : Int64) (p : Pair) (msg : Bytes) : Pair :=
  let (frames, dec) := feed p.dec msg
  frames.foldl (answerFrame hmac hex c clock nowMs) { p with dec := dec }

/-- A step of the server's task, with what it hands to the connection. -/
def serve (p : Pair) (l : Label) : Option Pair :=
  (Admission.step hmac hex c p.visit l).map fun v =>
    { p with visit := v, down := sendAll p.down (v.sent.drop p.visit.sent.length) }

inductive Event
  | server (l : Label)
  | say (priority : Bool) (call : Call Bytes)
  | up (a : LinkAct) (now now' : Int64)
  | down (a : LinkAct) (clock nowMs : Int64)
  | hangUp

def own : Label → Bool
  | .message .. | .batch _ => false
  | _ => true

/-- What arrives at the server is read by the loop that waits for it. The client's other tasks send
anything but a Response. -/
def step (p : Pair) : Event → Option Pair
  | .server l => if own l then serve hmac hex c p l else none
  | .say priority call => if call.ftype = .response then none else p.say priority call
  | .up a now now' => do
      let (out, up) ← p.up.act a
      let p : Pair := { p with up := up }
      match out, p.visit.stage with
      | none, _ => some p
      | some msg, .waiting .. => serve hmac hex c p (.message msg now now')
      | some msg, .serving .. => serve hmac hex c p (.batch [msg])
      | some _, .arrived => none
      | some _, _ => some p
  | .down a clock nowMs => do
      let (out, down) ← p.down.act a
      let p : Pair := { p with down := down }
      match out with
      | some msg => if p.receiving then some (runRecvInner hmac hex c clock nowMs p msg) else some p
      | none => some p
  | .hangUp => some { p with receiving := false }

end Source

section Messages

variable {l l' : Link Bytes}

def isKind (t : FrameType) (msg : Bytes) : Bool := (decodeFrame msg).any (·.ftype = t)

theorem decode_stamp (enc : MuxEncoder) {call : Call Bytes}
    (h : call.payload.length ≤ frameDataMax) :
    decodeFrame (frameBytes (stamp enc call).1) = some (stamp enc call).1 :=
  decodeFrame_frameBytes _ (Nat.lt_of_le_of_lt h (by decide))

theorem isKind_stamp (enc : MuxEncoder) {call : Call Bytes} (h : call.payload.length ≤ frameDataMax)
    (t : FrameType) : isKind t (frameBytes (stamp enc call).1) = decide (call.ftype = t) := by
  rw [isKind, decode_stamp enc h]
  rfl

theorem toItem_stamp (enc : MuxEncoder) {call : Call Bytes}
    (h : call.payload.length ≤ frameDataMax) :
    toItem (frameBytes (stamp enc call).1) =
      ⟨frameBytes (stamp enc call).1, call.ftype ≠ .datagram⟩ := by
  rw [toItem, decode_stamp enc h]
  rfl

theorem laned_of_none {p : Bytes → Bool} (h : ∀ m ∈ l.msgs, p m = false) : Laned p l := by
  refine ⟨fun x hx hkind => ?_, fun x hx => ?_, fun m hm => ?_⟩
  · have hnone := h x.msg (mem_msgs.mpr (.inl ⟨x, hx, rfl⟩))
    rw [hnone] at hkind
    cases hkind
  · exact h x.msg (mem_msgs.mpr (.inr (.inl ⟨x, hx, rfl⟩)))
  · exact h m (mem_msgs.mpr (.inr (.inr (.inr hm))))

theorem challenge_fits {hex : Hex} {nonce : Bytes} {serverTs : Int64}
    (h : ∃ buf : Bytes, buf.length = 16 ∧ nonce = generateNonce hex buf) :
    (challenge nonce serverTs).payload.length ≤ frameDataMax := by
  obtain ⟨buf, hbuf, rfl⟩ := h
  obtain ⟨hfits, -⟩ := Option.ite_none_right_eq_some.mp (encode_challenge hbuf serverTs)
  exact hfits

end Messages

section Welcome

variable {hmac : Bytes → Bytes → Bytes} {hex : Hex} {c : Setup} {p q : Pair} {nonce : Bytes}
  {serverTs : Int64}

def rightAnswer (hmac : Bytes → Bytes → Bytes) (hex : Hex) (c : Setup) (nonce : Bytes)
    (serverTs : Int64) : Bytes :=
  responsePayload serverTs (computeResponse hmac hex c.passphrase nonce serverTs)

def Proper (hmac : Bytes → Bytes → Bytes) (hex : Hex) (c : Setup) (nonce : Bytes) (serverTs : Int64)
    (msg : Bytes) : Prop :=
  ∀ f, decodeFrame msg = some f → f.ftype = .response →
  f.payload = rightAnswer hmac hex c nonce serverTs

theorem proper_of_other {msg : Bytes} (h : isKind .response msg = false) :
    Proper hmac hex c nonce serverTs msg := by
  intro f hf hresponse
  simp [isKind, hf, hresponse] at h

structure Before (p : Pair) : Prop where
  downs : p.down.msgs = []
  ups : ∀ m ∈ p.up.msgs, isKind .response m = false

/-- While the server waits, the Challenge or the right answer to it is on its way. -/
structure Expecting (hmac : Bytes → Bytes → Bytes) (hex : Hex) (c : Setup) (p : Pair)
    (nonce : Bytes) (serverTs : Int64) : Prop where
  drawn : ∃ buf, buf.length = 16 ∧ nonce = generateNonce hex buf
  downs : ∀ m ∈ p.down.msgs, m = challengeMsg nonce serverTs
  ups : ∀ m ∈ p.up.msgs, Proper hmac hex c nonce serverTs m
  lanedUp : Laned (isKind .response) p.up
  lanedDown : Laned (isKind .challenge) p.down
  underway : Running p.up → Running p.down → p.receiving = true →
    held (isKind .challenge) p.down ≠ [] ∨ held (isKind .response) p.up ≠ []

/-- The server gave up for another reason than what the client sent. -/
def Excused (error : String) : Prop :=
  error = "等待客户端 RESPONSE 超时或连接断开" ∨ error = "等待 RESPONSE 超时（10s）" ∨ ∃ e,
  error = "发送 CHALLENGE 失败: " ++ e

structure Hosted (hmac : Bytes → Bytes → Bytes) (hex : Hex) (c : Setup) (p : Pair) : Prop where
  guarded : Guarded hmac hex c p.visit
  arrived : p.visit.stage = .arrived → Before p
  waiting : ∀ since nonce serverTs buffered,
    p.visit.stage = .waiting since nonce serverTs buffered →
    Expecting hmac hex c p nonce serverTs
  refused : ∀ error, p.visit.stage = .refused error → Excused error ∧ ∀ m ∈ p.visit.received,
    isKind .response m = false

theorem hosted_admitted (hguarded : Guarded hmac hex c p.visit)
    (h : admitted p.visit.stage = true) : Hosted hmac hex c p := by
  refine ⟨hguarded, fun hstage => ?_, fun since nonce serverTs buffered hstage => ?_,
    fun error hstage => ?_⟩
  · rw [hstage] at h
    cases h
  · rw [hstage] at h
    cases h
  · rw [hstage] at h
    cases h

theorem Expecting.send {priority : Bool} {msg : Bytes} (h : Expecting hmac hex c p nonce serverTs)
    (hmsg : isKind .response msg = false) (enc : MuxEncoder) :
    Expecting hmac hex c { p with enc := enc, up := p.up.sendItemTo priority (toItem msg) }
      nonce serverTs := by
  refine ⟨h.drawn, h.downs, fun m hm => ?_, laned_send h.lanedUp (fun hkind => ?_), h.lanedDown,
    fun hup hdown hreceiving => ?_⟩
  · rcases mem_msgs_sendItemTo hm with rfl | hm
    · exact proper_of_other hmsg
    · exact h.ups m hm
  · rw [toItem, hmsg] at hkind
    cases hkind
  · rw [held_send_other hmsg]
    exact h.underway ((running_send _ _).mp hup) hdown hreceiving

theorem Hosted.say {priority : Bool} {call : Call Bytes} (h : Hosted hmac hex c p)
    (hcall : call.ftype ≠ .response) (hsay : p.say priority call = some q) :
    Hosted hmac hex c q := by
  obtain ⟨⟨msg, enc⟩, henc, rfl⟩ := Option.map_eq_some_iff.mp hsay
  obtain ⟨hfits, heq⟩ := Option.ite_none_right_eq_some.mp henc
  obtain ⟨rfl, -⟩ := Prod.mk.inj (Option.some.inj heq)
  have hmsg : isKind .response (frameBytes (stamp p.enc call).1) = false := by
    rw [isKind_stamp p.enc hfits]
    exact decide_eq_false hcall
  refine ⟨h.guarded, fun hstage => ?_, fun since nonce serverTs buffered hstage => ?_, h.refused⟩
  · have hbefore := h.arrived hstage
    refine ⟨hbefore.downs, fun m hm => ?_⟩
    rcases mem_msgs_sendItemTo hm with rfl | hm
    · exact hmsg
    · exact hbefore.ups m hm
  · exact (h.waiting since nonce serverTs buffered hstage).send hmsg enc

theorem handleChallenge_right (h : ∃ buf : Bytes, buf.length = 16 ∧ nonce = generateNonce hex buf)
    (clock : Int64) :
    handleChallenge hmac hex clock c.passphrase (challengePayload nonce serverTs) =
      some (rightAnswer hmac hex c nonce serverTs) := by
  obtain ⟨buf, hbuf, rfl⟩ := h
  have hne : buf ≠ [] := List.ne_nil_of_length_pos (by omega)
  rw [handleChallenge, answer_challengePayload hex hmac clock c.passphrase buf hne serverTs]
  rfl

theorem rightAnswer_fits (hlen : ∀ key text, (hmac key text).length = 32) :
    (rightAnswer hmac hex c nonce serverTs).length ≤ frameDataMax := by
  have hts := length_formatI64_le serverTs
  have hresp : (computeResponse hmac hex c.passphrase nonce serverTs).length = 64 := by
    rw [computeResponse, hex.length_encode, hlen]
  simp only [rightAnswer, responsePayload, List.length_append, hresp,
    show (ascii "timestamp=").length =
        10 by decide +kernel, show (ascii ",resp=").length = 6 by decide +kernel, frameDataMax]
  omega

theorem runRecvInner_visit (clock nowMs : Int64) (p : Pair) (msg : Bytes) :
    (runRecvInner hmac hex c clock nowMs p msg).visit = p.visit := by
  have hanswer : ∀ (p : Pair) (f : Frame Bytes),
      (answerFrame hmac hex c clock nowMs p f).visit = p.visit := by
    intro p f
    have hsay : ∀ call : Call Bytes,
        ((p.say false call).getD { p with receiving := false }).visit = p.visit := by
      intro call
      cases henc : encodeFrame p.enc call with
      | none => simp [Pair.say, henc]
      | some pair => simp [Pair.say, henc]
    rw [answerFrame]
    split
    · rfl
    · split
      · split
        · exact hsay _
        · rfl
      · split
        · exact hsay _
        · rfl
      · rfl
  have hall (frames : List (Frame Bytes)) : ∀ p : Pair,
      (frames.foldl (answerFrame hmac hex c clock nowMs) p).visit = p.visit := by
    induction frames with
    | nil => exact fun p => rfl
    | cons f frames ih => exact fun p => (ih _).trans (hanswer p f)
  exact hall _ _

theorem answerFrame_challenge {f : Frame Bytes} {payload : Bytes} {clock : Int64}
    (hf : f.ftype = .challenge) (hreceiving : p.receiving = true)
    (hanswer : handleChallenge hmac hex clock c.passphrase f.payload = some payload)
    (hfits : payload.length ≤ frameDataMax) (nowMs : Int64) :
    answerFrame hmac hex c clock nowMs p f = { p with
      enc := (stamp p.enc ⟨.response, 0, 0, payload⟩).2
      up := p.up.sendItemTo false ⟨frameBytes (stamp p.enc ⟨.response, 0, 0, payload⟩).1,
        true⟩ } := by
  have hitem :=
    toItem_stamp p.enc
      (show (⟨.response, 0, 0, payload⟩ : Call Bytes).payload.length ≤ frameDataMax from hfits)
  simp only [answerFrame, hreceiving, Bool.true_eq_false, if_false, hf, hanswer, Pair.say,
    encodeFrame, if_pos hfits, Option.map_some, Option.getD_some, hitem]
  rfl

theorem decode_challengeMsg (h : ∃ buf : Bytes, buf.length = 16 ∧ nonce = generateNonce hex buf)
    (serverTs : Int64) : ∃ f, decodeFrame (challengeMsg nonce serverTs) = some f ∧
    f.ftype = .challenge ∧ f.payload = challengePayload nonce serverTs :=
  ⟨_, decode_stamp _ (challenge_fits h), rfl, rfl⟩

theorem runRecvInner_challenge (hlen : ∀ key text, (hmac key text).length = 32)
    (h : ∃ buf : Bytes, buf.length = 16 ∧ nonce = generateNonce hex buf)
    (hreceiving : p.receiving = true) (clock nowMs : Int64) :
    ∃ msg enc dec, runRecvInner hmac hex c clock nowMs p (challengeMsg nonce serverTs) =
        { p with enc := enc, dec := dec, up := p.up.sendItemTo false ⟨msg, true⟩ } ∧
      isKind .response msg = true ∧ Proper hmac hex c nonce serverTs msg := by
  obtain ⟨f, hdecode, hkind, hpayload⟩ := decode_challengeMsg h serverTs
  have hfeed : feed p.dec (challengeMsg nonce serverTs) = ([f], countRx p.dec) := by
    rw [feed_of_decode hdecode]
    exact feedFrame_unordered _ (by rw [hkind]; rfl)
  have hcounted : ({ p with dec := countRx p.dec } : Pair).receiving = true := hreceiving
  have hanswer : handleChallenge hmac hex clock c.passphrase f.payload =
      some (rightAnswer hmac hex c nonce serverTs) := by
    rw [hpayload]
    exact handleChallenge_right h clock
  have hfits : (rightAnswer hmac hex c nonce serverTs).length ≤ frameDataMax :=
    rightAnswer_fits hlen
  generalize hcall : (⟨.response, 0, 0, rightAnswer hmac hex c nonce serverTs⟩ : Call Bytes) = call
  have hcallfits : call.payload.length ≤ frameDataMax := by
    rw [← hcall]
    exact hfits
  refine ⟨frameBytes (stamp p.enc call).1, (stamp p.enc call).2, countRx p.dec, ?_, ?_,
    fun f hf _ => ?_⟩
  · rw [runRecvInner, hfeed, ← hcall]
    exact answerFrame_challenge hkind hcounted hanswer hfits nowMs
  · rw [isKind_stamp p.enc hcallfits, ← hcall]
    rfl
  · rw [decode_stamp p.enc hcallfits] at hf
    rw [← Option.some.inj hf, ← hcall]
    rfl

theorem Expecting.answer (h : Expecting hmac hex c p nonce serverTs) {msg : Bytes}
    (hkind : isKind .response msg = true) (hmsg : Proper hmac hex c nonce serverTs msg)
    {down : Link Bytes} (hdowns : ∀ m ∈ down.msgs, m ∈ p.down.msgs)
    (hlaned : Laned (isKind .challenge) down) (enc : MuxEncoder) (dec : MuxDecoder Bytes) :
    Expecting hmac hex c { p with
      enc := enc
      dec := dec
      down := down
      up := p.up.sendItemTo false ⟨msg, true⟩ } nonce serverTs := by
  refine ⟨h.drawn, fun m hm => h.downs m (hdowns m hm), fun m hm => ?_,
    laned_send h.lanedUp fun _ => ⟨rfl, rfl⟩, hlaned, fun hup _ _ => .inr ?_⟩
  · rcases mem_msgs_sendItemTo hm with rfl | hm
    · exact hmsg
    · exact h.ups m hm
  · rw [(held_send hkind).1 ((running_send _ _).mp hup)]
    simp

variable {a : LinkAct} {out : Option Bytes} {l : Link Bytes}

theorem filter_toList_of_other {k : Bytes → Bool} (h : ∀ m, out = some m → k m = false) :
    out.toList.filter k = [] := by
  cases out with
  | none => rfl
  | some m => simp [h m rfl]

theorem Expecting.linkUp (h : Expecting hmac hex c p nonce serverTs)
    (hact : p.up.act a = some (out, l)) (hout : ∀ m, out = some m → isKind .response m = false) :
    Expecting hmac hex c { p with up := l } nonce serverTs := by
  obtain ⟨hlaned, hrunning, lost, hheld, hlost⟩ := passed_act h.lanedUp hact
  refine ⟨h.drawn, h.downs, fun m hm => h.ups m ((mem_msgs_act hact).1 m hm), hlaned, h.lanedDown,
    fun hup hdown hreceiving => ?_⟩
  rw [filter_toList_of_other hout, List.nil_append, hlost hup, List.append_nil] at hheld
  have hunder := h.underway (hrunning hup) hdown hreceiving
  rwa [hheld] at hunder

theorem Expecting.linkDown (h : Expecting hmac hex c p nonce serverTs)
    (hact : p.down.act a = some (out, l)) (hout : out = none ∨ p.receiving = false) :
    Expecting hmac hex c { p with down := l } nonce serverTs := by
  obtain ⟨hlaned, hrunning, lost, hheld, hlost⟩ := passed_act h.lanedDown hact
  refine ⟨h.drawn, fun m hm => h.downs m ((mem_msgs_act hact).1 m hm), h.ups, h.lanedUp, hlaned,
    fun hup hdown hreceiving => ?_⟩
  rcases hout with rfl | hdeaf
  · rw [Option.toList_none, List.filter_nil, List.nil_append, hlost hdown, List.append_nil] at hheld
    have hunder := h.underway hup (hrunning hdown) hreceiving
    rwa [hheld] at hunder
  · rw [hdeaf] at hreceiving
    cases hreceiving

theorem Hosted.down (hlen : ∀ key text, (hmac key text).length = 32) (h : Hosted hmac hex c p)
    {clock nowMs : Int64} (hstep : step hmac hex c p (.down a clock nowMs) = some q) :
    Hosted hmac hex c q := by
  simp only [step, Option.bind_eq_bind, Option.bind_eq_some_iff] at hstep
  obtain ⟨⟨out, l⟩, hact, hq⟩ := hstep
  have hvisit : q.visit = p.visit := by
    cases out with
    | none =>
        obtain rfl := Option.some.inj hq
        rfl
    | some msg =>
        simp only at hq
        split at hq
        · obtain rfl := Option.some.inj hq
          exact runRecvInner_visit clock nowMs _ msg
        · obtain rfl := Option.some.inj hq
          rfl
  refine ⟨hvisit ▸ h.guarded, fun hstage => ?_, fun since nonce serverTs buffered hstage => ?_,
    fun error hstage => ?_⟩
  · have hbefore := h.arrived (hvisit ▸ hstage)
    obtain ⟨hkeep, hfrom⟩ := mem_msgs_act hact
    rw [hbefore.downs] at hkeep hfrom
    cases out with
    | none =>
        obtain rfl := Option.some.inj hq
        exact ⟨List.eq_nil_iff_forall_not_mem.mpr fun m hm => List.not_mem_nil (hkeep m hm),
          hbefore.ups⟩
    | some msg => exact absurd (hfrom msg rfl) List.not_mem_nil
  · have hexpect := h.waiting since nonce serverTs buffered (hvisit ▸ hstage)
    cases out with
    | none =>
        obtain rfl := Option.some.inj hq
        exact hexpect.linkDown hact (.inl rfl)
    | some msg =>
        obtain rfl := hexpect.downs msg ((mem_msgs_act hact).2 msg rfl)
        simp only at hq
        split at hq
        next hreceiving =>
          obtain ⟨msg, enc, dec, hrun, hkind, hproper⟩ :=
            runRecvInner_challenge (p := { p with down := l }) hlen hexpect.drawn
              hreceiving clock nowMs
          rw [hrun] at hq
          obtain rfl := Option.some.inj hq
          exact hexpect.answer hkind hproper (mem_msgs_act hact).1
            (passed_act hexpect.lanedDown hact).laned enc dec
        next hreceiving =>
          obtain rfl := Option.some.inj hq
          exact hexpect.linkDown hact (.inr (by simpa using hreceiving))
  · rw [hvisit]
    exact h.refused error (hvisit ▸ hstage)

theorem accept_right {now : Int64}
    (hnear : ((now.toInt - serverTs.toInt).natAbs : Int) ≤ authTimeWindowSecs.toInt)
    (now' : Int64) :
    acceptResponse hmac hex now now' c.passphrase nonce serverTs
      (rightAnswer hmac hex c nonce serverTs) = .ok (now - serverTs) := by
  have hparse : parseResponse (rightAnswer hmac hex c nonce serverTs) =
      .ok (serverTs, computeResponse hmac hex c.passphrase nonce serverTs) :=
    parseResponse_responsePayload hex serverTs _
  have hverify : verifyResponseDual hmac hex now now' c.passphrase nonce serverTs serverTs
      (computeResponse hmac hex c.passphrase nonce serverTs) = .ok (true, now - serverTs) := by
    rw [verifyResponseDual, if_pos rfl, if_pos (abs_le_of_near hnear)]
  rw [acceptResponse, hparse]
  simp only [bind, Except.bind, hverify]
  rfl

theorem admitted_dispatchAll {v : Visit} (h : admitted v.stage = true)
    (frames : List (Frame Bytes)) : admitted (dispatchAll v frames).stage = true := by
  obtain ⟨-, done, -, -, hend⟩ := dispatchAll_along v frames
  rcases hend with ⟨hsame, -⟩ | hpanic
  · rw [hsame]
    exact h
  · rw [hpanic]
    rfl

theorem hear_proper {v : Visit} {since : Nat} {buffered : List (Frame Bytes)} {msg : Bytes}
    {now : Int64} (hstage : v.stage = .waiting since nonce serverTs buffered)
    (hmsg : Proper hmac hex c nonce serverTs msg)
    (hnear : ((now.toInt - serverTs.toInt).natAbs : Int) ≤ authTimeWindowSecs.toInt)
    (now' : Int64) :
    admitted (hear hmac hex c v since nonce serverTs buffered msg now now').stage = true ∨
      isKind .response msg = false ∧ ∃ buffered',
        (hear hmac hex c v since nonce serverTs buffered msg now now').stage =
          .waiting since nonce serverTs buffered' ∧
        (hear hmac hex c v since nonce serverTs buffered msg now now').sent = v.sent := by
  rw [hear]
  cases hdecode : decodeFrame msg with
  | none => exact .inr ⟨by simp [isKind, hdecode], buffered, hstage, rfl⟩
  | some f =>
      simp only
      by_cases hresponse : f.ftype = .response
      · rw [if_pos hresponse, hmsg f hdecode hresponse, accept_right hnear]
        exact .inl (admitted_dispatchAll rfl buffered)
      · rw [if_neg hresponse]
        have hkind : isKind .response msg = false := by simp [isKind, hdecode, hresponse]
        split
        · exact .inr ⟨hkind, _, rfl, rfl⟩
        · exact .inr ⟨hkind, buffered, hstage, rfl⟩

theorem serve_eq {l : Label} (h : serve hmac hex c p l = some q) :
    ∃ v, Admission.step hmac hex c p.visit l = some v ∧
    q = { p with visit := v, down := sendAll p.down (v.sent.drop p.visit.sent.length) } := by
  obtain ⟨v, hv, rfl⟩ := Option.map_eq_some_iff.mp h
  exact ⟨v, hv, rfl⟩

theorem Hosted.hear (h : Hosted hmac hex c p) {msg : Bytes} {now now' : Int64}
    (hact : p.up.act a = some (some msg, l))
    (hnear : ∀ since nonce serverTs buffered,
      p.visit.stage = .waiting since nonce serverTs buffered →
      ((now.toInt - serverTs.toInt).natAbs : Int) ≤ authTimeWindowSecs.toInt)
    (hserve : serve hmac hex c { p with up := l } (.message msg now now') = some q) : Hosted
      hmac hex c q := by
  obtain ⟨v, hv, rfl⟩ := serve_eq hserve
  have hguarded : Guarded hmac hex c v := h.guarded.step hv
  obtain ⟨since, nonce, serverTs, buffered, hstage, rfl⟩ := message_eq hv
  have hexpect := h.waiting since nonce serverTs buffered hstage
  have hproper := hexpect.ups msg ((mem_msgs_act hact).2 msg rfl)
  rcases hear_proper hstage hproper (hnear since nonce serverTs buffered hstage) now' with hin |
      ⟨hkind, buffered', hwait, hsent⟩
  · exact hosted_admitted hguarded hin
  · have hnext := hexpect.linkUp hact fun m hm => Option.some.inj hm ▸ hkind
    refine ⟨hguarded, fun hs => ?_, fun since' nonce' serverTs' buffered'' hs => ?_,
      fun error hs => ?_⟩
    · rw [hwait] at hs
      cases hs
    · rw [hwait] at hs
      obtain ⟨-, rfl, rfl, -⟩ := Stage.waiting.inj hs
      simp only [hsent, List.drop_length]
      exact ⟨hnext.drawn, hnext.downs, hnext.ups, hnext.lanedUp, hnext.lanedDown, hnext.underway⟩
    · rw [hwait] at hs
      cases hs

theorem Hosted.up (h : Hosted hmac hex c p) {now now' : Int64}
    (hnear : ∀ since nonce serverTs buffered,
      p.visit.stage = .waiting since nonce serverTs buffered →
      ((now.toInt - serverTs.toInt).natAbs : Int) ≤ authTimeWindowSecs.toInt)
    (hstep : step hmac hex c p (.up a now now') = some q) : Hosted hmac hex c q := by
  simp only [step, Option.bind_eq_bind, Option.bind_eq_some_iff] at hstep
  obtain ⟨⟨out, l⟩, hact, hq⟩ := hstep
  have hguarded : Guarded hmac hex c ({ p with up := l } : Pair).visit := h.guarded
  cases out with
  | none =>
      obtain rfl := Option.some.inj hq
      refine ⟨h.guarded, fun hstage => ?_, fun since nonce serverTs buffered hstage => ?_,
        h.refused⟩
      · have hbefore := h.arrived hstage
        exact ⟨hbefore.downs, fun m hm => hbefore.ups m ((mem_msgs_act hact).1 m hm)⟩
      · exact (h.waiting since nonce serverTs buffered hstage).linkUp hact fun m hm => by cases hm
  | some msg =>
      cases hstage : p.visit.stage with
      | arrived =>
          rw [hstage] at hq
          cases hq
      | waiting since nonce serverTs buffered =>
          rw [hstage] at hq
          exact h.hear hact hnear hq
      | refused error =>
          rw [hstage] at hq
          obtain rfl := Option.some.inj hq
          refine ⟨h.guarded, fun hs => ?_, fun since nonce serverTs buffered hs => ?_, h.refused⟩
          · rw [hstage] at hs
            cases hs
          · rw [hstage] at hs
            cases hs
      | serving dec since deadCount =>
          rw [hstage] at hq
          obtain ⟨v, hv, rfl⟩ := serve_eq hq
          obtain ⟨dec', since', deadCount', -, -, rfl⟩ := batch_eq hv
          exact hosted_admitted (h.guarded.step hv) (admitted_dispatchAll rfl _)
      | ended why =>
          rw [hstage] at hq
          obtain rfl := Option.some.inj hq
          exact hosted_admitted hguarded (by rw [hstage]; rfl)

theorem admitted_beat (v : Visit) (dec : MuxDecoder Bytes) (deadCount : Nat) (nowMs : Int64)
    (failure : Option String) : admitted (beat v dec deadCount nowMs failure).stage = true := by
  rw [beat]
  split
  · rfl
  · split
    · rfl
    · cases failure with
      | none => rfl
      | some e => rfl

theorem unanswered {since : Nat} {buffered : List (Frame Bytes)} (h : Guarded hmac hex c p.visit)
    (hstage : p.visit.stage = .waiting since nonce serverTs buffered) :
    ∀ m ∈ p.visit.received, isKind .response m = false := by
  rw [Guarded, hstage] at h
  intro m hm
  rw [isKind]
  cases hdecode : decodeFrame m with
  | none => rfl
  | some f => exact decide_eq_false (h.first f (List.mem_filterMap.mpr ⟨m, hm, hdecode⟩))

theorem hosted_refused {v : Visit} {error : String} (hguarded : Guarded hmac hex c v)
    (hstage : v.stage = .refused error) (hexcused : Excused error)
    (hreceived : ∀ m ∈ v.received, isKind .response m = false) (down : Link Bytes) :
    Hosted hmac hex c { p with visit := v, down := down } := by
  refine ⟨hguarded, fun hs => ?_, fun since nonce serverTs buffered hs => ?_, fun e hs => ?_⟩
  · rw [hstage] at hs
    cases hs
  · rw [hstage] at hs
    cases hs
  · rw [hstage] at hs
    obtain rfl := Stage.refused.inj hs
    exact ⟨hexcused, hreceived⟩

theorem Before.challenged (h : Before p) {buf : Bytes} (hbuf : buf.length = 16) (serverTs : Int64)
    (visit : Visit) : Expecting hmac hex c { p with
      visit := visit
      down := p.down.sendItemTo false (toItem (challengeMsg (generateNonce hex buf) serverTs)) }
        (generateNonce hex buf) serverTs := by
  have hdrawn : ∃ buf' : Bytes, buf'.length = 16 ∧ generateNonce hex buf = generateNonce hex buf' :=
    ⟨buf, hbuf, rfl⟩
  have hkind : isKind .challenge (challengeMsg (generateNonce hex buf) serverTs) = true :=
    isKind_stamp _ (challenge_fits hdrawn) _
  have hitem : toItem (challengeMsg (generateNonce hex buf) serverTs) =
      ⟨challengeMsg (generateNonce hex buf) serverTs, true⟩ :=
    toItem_stamp _ (challenge_fits hdrawn)
  have hempty : ∀ m ∈ p.down.msgs, isKind .challenge m = false := by simp [h.downs]
  rw [hitem]
  refine ⟨hdrawn, fun m hm => ?_, fun m hm => proper_of_other (h.ups m hm), laned_of_none h.ups,
    laned_send (laned_of_none hempty) fun _ => ⟨rfl, rfl⟩, fun _ hdown _ => .inl ?_⟩
  · rcases mem_msgs_sendItemTo hm with rfl | hm
    · rfl
    · rw [h.downs] at hm
      cases hm
  · rw [(held_send hkind).1 ((running_send _ _).mp hdown)]
    simp

theorem greet_sent (htoken : Token hmac hex c) (v : Visit) {buf : Bytes} (hbuf : buf.length = 16)
    (serverTs : Int64) : greet hmac hex c v buf serverTs none = { v with
      sent := v.sent ++ [(false, challengeMsg (generateNonce hex buf) serverTs)]
      stage := .waiting v.clock (generateNonce hex buf) serverTs [] } := by
  obtain ⟨sid, hsid, hverify⟩ := htoken
  rw [greet, hsid]
  simp only [hverify, Bool.true_eq_false, if_false, encode_challenge hbuf]

theorem greet_unsent (htoken : Token hmac hex c) (v : Visit) {buf : Bytes} (hbuf : buf.length = 16)
    (serverTs : Int64) (e : String) : greet hmac hex c v buf serverTs (some e) = Visit.refuse
      { v with sent := v.sent ++ [(false, challengeMsg (generateNonce hex buf) serverTs)] }
        ("发送 CHALLENGE 失败: " ++ e) := by
  obtain ⟨sid, hsid, hverify⟩ := htoken
  rw [greet, hsid]
  simp only [hverify, Bool.true_eq_false, if_false, encode_challenge hbuf]

theorem Hosted.begin (htoken : Token hmac hex c) {buf : Bytes} {serverTs : Int64}
    {failure : Option String} (h : Hosted hmac hex c p)
    (hserve : serve hmac hex c p (.begin buf serverTs failure) = some q) : Hosted hmac hex c q := by
  obtain ⟨v, hv, rfl⟩ := serve_eq hserve
  have hguarded : Guarded hmac hex c v := h.guarded.step hv
  obtain ⟨hstage, hbuf, hgreet⟩ := begin_eq hv
  have hfresh := h.guarded
  rw [Guarded, hstage] at hfresh
  obtain ⟨-, hsent, hreceived⟩ := hfresh
  cases failure with
  | some e =>
      rw [greet_unsent htoken p.visit hbuf serverTs e] at hgreet
      subst hgreet
      exact hosted_refused hguarded rfl (.inr (.inr ⟨e, rfl⟩)) (by simp [Visit.refuse, hreceived]) _
  | none =>
      rw [greet_sent htoken p.visit hbuf serverTs] at hgreet
      subst hgreet
      refine ⟨hguarded, fun hs => ?_, fun since nonce' serverTs' buffered hs => ?_,
        fun error hs => ?_⟩
      · cases hs
      · obtain ⟨-, rfl, rfl, -⟩ := Stage.waiting.inj hs
        simp only [List.drop_left, sendAll, List.foldl_cons, List.foldl_nil]
        exact (h.arrived hstage).challenged hbuf serverTs _
      · cases hs

theorem Hosted.server (htoken : Token hmac hex c) {l : Label} (h : Hosted hmac hex c p)
    (hown : own l = true) (hserve : serve hmac hex c p l = some q) : Hosted hmac hex c q := by
  obtain ⟨v, hv, heq⟩ := serve_eq hserve
  have hguarded : Guarded hmac hex c v := h.guarded.step hv
  cases l with
  | message msg now now' => cases hown
  | batch msgs => cases hown
  | begin buf serverTs failure => exact h.begin htoken hserve
  | gone =>
      subst heq
      rcases gone_eq hv with ⟨since, nonce, serverTs, buffered, hstage, rfl⟩ |
          ⟨dec, since, deadCount, hstage, rfl⟩
      · exact hosted_refused hguarded rfl (.inl rfl) (unanswered h.guarded hstage) _
      · exact hosted_admitted hguarded rfl
  | timeout =>
      subst heq
      obtain ⟨since, nonce, serverTs, buffered, hstage, -, rfl⟩ := timeout_eq hv
      exact hosted_refused hguarded rfl (.inr (.inl rfl)) (unanswered h.guarded hstage) _
  | tick nowMs failure =>
      subst heq
      obtain ⟨dec, since, deadCount, -, -, rfl⟩ := tick_eq hv
      exact hosted_admitted hguarded (admitted_beat _ dec deadCount nowMs failure)
  | wait ms =>
      subst heq
      obtain rfl := Option.some.inj hv
      simp only [List.drop_length]
      refine ⟨hguarded, fun hs => ?_, fun since nonce serverTs buffered hs => ?_, h.refused⟩
      · have hbefore := h.arrived hs
        exact ⟨hbefore.downs, hbefore.ups⟩
      · have hexpect := h.waiting since nonce serverTs buffered hs
        exact ⟨hexpect.drawn, hexpect.downs, hexpect.ups, hexpect.lanedUp, hexpect.lanedDown,
          hexpect.underway⟩
  | task registry enc msgs =>
      subst heq
      obtain ⟨hspawned, rfl⟩ := task_eq hv
      exact hosted_admitted hguarded (h.guarded.admitted_of_spawned hspawned)

def asked : Stage → Option Int64
  | .waiting _ _ serverTs _ => some serverTs
  | _ => none

/-- What is read while the server waits is read within the window of the Challenge. -/
def InTime (p : Pair) : Event → Prop
  | .up _ now _ => ∀ serverTs ∈ asked p.visit.stage,
    ((now.toInt - serverTs.toInt).natAbs : Int) ≤ authTimeWindowSecs.toInt
  | _ => True

instance (p : Pair) : (e : Event) → Decidable (InTime p e)
  | .up _ now _ => @Option.decidableForallMem Int64
      (fun serverTs => ((now.toInt - serverTs.toInt).natAbs : Int) ≤ authTimeWindowSecs.toInt)
        (fun _ => inferInstance) (asked p.visit.stage)
  | .server _ => isTrue trivial
  | .say _ _ => isTrue trivial
  | .down _ _ _ => isTrue trivial
  | .hangUp => isTrue trivial

theorem Hosted.step (hlen : ∀ key text, (hmac key text).length = 32) (htoken : Token hmac hex c)
    {e : Event} (h : Hosted hmac hex c p) (hok : InTime p e)
    (hstep : step hmac hex c p e = some q) : Hosted hmac hex c q := by
  cases e with
  | server l =>
      obtain ⟨hown, hserve⟩ := Option.ite_none_right_eq_some.mp hstep
      exact h.server htoken hown hserve
  | say priority call =>
      obtain ⟨hcall, hsay⟩ := Option.ite_none_left_eq_some.mp hstep
      exact h.say hcall hsay
  | up a now now' =>
      refine h.up (fun since nonce serverTs buffered hstage => hok serverTs ?_) hstep
      rw [hstage]
      rfl
  | down a clock nowMs => exact h.down hlen hstep
  | hangUp =>
      obtain rfl := Option.some.inj hstep
      refine ⟨h.guarded, fun hs => ?_, fun since nonce serverTs buffered hs => ?_, h.refused⟩
      · have hbefore := h.arrived hs
        exact ⟨hbefore.downs, hbefore.ups⟩
      · have hexpect := h.waiting since nonce serverTs buffered hs
        exact ⟨hexpect.drawn, hexpect.downs, hexpect.ups, hexpect.lanedUp, hexpect.lanedDown,
          fun _ _ hr => by cases hr⟩

theorem hosted_start (hmac : Bytes → Bytes → Bytes) (hex : Hex) (c : Setup) :
    Hosted hmac hex c (start c) := by
  refine ⟨guarded_arrive hmac hex c, fun _ => ⟨rfl, fun m hm => by cases hm⟩,
    fun since nonce serverTs buffered hs => ?_, fun error hs => ?_⟩
  · cases hs
  · cases hs

/-- The server refuses the client only for its own trouble; the client's answer lets it in; and up
to then the Challenge or the answer is on its way, as long as both directions run and the client
listens. -/
structure Welcomed (p : Pair) : Prop where
  unrefused : ∀ error, p.visit.stage = .refused error → Excused error
  answered : ∀ m ∈ p.visit.received, isKind .response m = true → admitted p.visit.stage = true
  underway : ∀ serverTs ∈ asked p.visit.stage, Running p.up → Running p.down → p.receiving = true →
    held (isKind .challenge) p.down ≠ [] ∨ held (isKind .response) p.up ≠ []

theorem Hosted.welcomed (h : Hosted hmac hex c p) : Welcomed p := by
  refine ⟨fun error hs => (h.refused error hs).1, fun m hm hkind => ?_, fun serverTs hasked => ?_⟩
  · have hguarded := h.guarded
    cases hstage : p.visit.stage with
    | arrived =>
        rw [Guarded, hstage] at hguarded
        rw [hguarded.2.2] at hm
        cases hm
    | waiting since nonce serverTs buffered =>
        rw [unanswered h.guarded hstage m hm] at hkind
        cases hkind
    | refused error =>
        rw [(h.refused error hstage).2 m hm] at hkind
        cases hkind
    | serving dec since deadCount => rfl
    | ended why => rfl
  · cases hstage : p.visit.stage with
    | waiting since nonce serverTs' buffered =>
        exact (h.waiting since nonce serverTs' buffered hstage).underway
    | arrived =>
        rw [hstage] at hasked
        cases hasked
    | refused error =>
        rw [hstage] at hasked
        cases hasked
    | serving dec since deadCount =>
        rw [hstage] at hasked
        cases hasked
    | ended why =>
        rw [hstage] at hasked
        cases hasked

/-- A client that knows the passphrase is let in, whatever else it sends meanwhile and however what
is sent is delayed within the window. -/
theorem honest_client_admitted (hmac : Bytes → Bytes → Bytes) (hex : Hex)
    (hlen : ∀ key text, (hmac key text).length = 32) (c : Setup)
    (htoken : Token hmac hex c) (es : List Event)
    (hok : EachStep (step hmac hex c) InTime (start c) es) :
    Throughout (step hmac hex c) Welcomed (start c) es := by
  have hall : Throughout (step hmac hex c) (Hosted hmac hex c) (start c) es :=
    throughout_of_eachStep (hosted_start hmac hex c)
      (fun p e q h hok hstep => h.step hlen htoken hok hstep) hok
  exact hall.mono fun p h => h.welcomed

theorem length_sampleHmac (key text : Bytes) : (sampleHmac key text).length = 32 := by
  rw [sampleHmac]
  split
  · rfl
  · rfl

def greeted : List Event :=
  [.say false ⟨.open, 1, 0, [0, 1, 97, 0, 80]⟩,
    .server (.begin [0, 1, 2, 3, 4, 5, 6, 7, 8, 9, 10, 11, 12, 13, 14, 15] 1700000000 none),
    .down (.work true) 0 0, .down (.work true) 0 0, .down .deliver 1700100000 0] ++
  List.replicate 4 (.up (.work true) 1700000000 1700000000) ++
  [.up .deliver 1700000001 1700000001, .up .deliver 1700000002 1700000002]

theorem honest_client_admitted_greeted :
    EachStep (step sampleHmac Hex.lower withToken) InTime (start withToken) greeted ∧
    (exec (step sampleHmac Hex.lower withToken) (start withToken) greeted).map
      (fun p => (admitted p.visit.stage, p.visit.spawned)) =
      some (true, [(1, [0, 1, 97, 0, 80])]) ∧
    Throughout (step sampleHmac Hex.lower withToken) Welcomed (start withToken) greeted := by
  have hok : EachStep (step sampleHmac Hex.lower withToken) InTime (start withToken) greeted := by
    decide +kernel
  have htoken : Token sampleHmac Hex.lower withToken := ⟨_, rfl, by decide +kernel⟩
  exact ⟨hok, by decide +kernel,
    honest_client_admitted sampleHmac Hex.lower length_sampleHmac withToken htoken greeted hok⟩

end Welcome

end SrtVpn.HonestClient
