import SrtVpn.AuthGate
import SrtVpn.Speech

namespace SrtVpn.FrontEnd

open BigEndian Tables Text Wire Encoder Session Dispatch Programs LocalConn HttpProxy Socks5 Speech

section Views

variable {α τ : Type} {view : Conn → τ}

/-- What reading from the local connection and writing to it does not change. -/
def Remote (view : Conn → τ) : Prop :=
  ∀ (c : Conn) (input : Bytes) (sizes : List Nat) (writeErrors : List
    (Option String)) (written : Bytes),
    view { c with input := input, sizes := sizes, writeErrors := writeErrors, written := written } =
      view c

theorem Remote.fail (text : String) : Keeps view (fail text : Handler α) := fun _ => rfl

theorem Remote.readExact (h : Remote view) (context : String) (n : Nat) :
    Keeps view (readExact context n) := by
  intro c
  rw [LocalConn.readExact, exec_of]
  split
  · exact h c _ _ _ _
  · exact h c _ _ _ _

theorem Remote.readByte (h : Remote view) (context : String) : Keeps view (readByte context) :=
  (h.readExact context 1).bind fun _ => .pure _

theorem Remote.read (h : Remote view) (context : String) (n : Nat) :
    Keeps view (read context n) := by
  intro c
  simp only [LocalConn.read, exec_of]
  split
  · split
    · rfl
    · rfl
  · exact h c _ _ _ _

theorem Remote.writeAll (h : Remote view) (context : String) (bytes : Bytes) :
    Keeps view (writeAll context bytes) := by
  intro c
  rw [LocalConn.writeAll, exec_of]
  split
  · exact h c _ _ _ _
  · exact h c _ _ _ _

theorem Remote.negotiate (h : Remote view) (cfg : Socks5Config) : Keeps view (negotiate cfg) := by
  refine (h.readByte _).bind fun n => (h.readExact _ _).bind fun methods => ?_
  split
  · exact Remote.fail _
  · exact (h.writeAll _ _).bind fun _ => .pure _

theorem Remote.authenticate (h : Remote view) (verify : Bytes → Bytes → Except String Bool)
    (cfg : Socks5Config) : Keeps view (authenticate verify cfg) := by
  refine (h.readByte _).bind fun version => (h.readByte _).bind fun ulen => .ite (Remote.fail _) ?_
  refine (h.readExact _ _).bind fun username => (h.readByte _).bind fun plen =>
    (h.readExact _ _).bind fun password => .ite (h.writeAll _ _) ?_
  exact (h.writeAll _ _).bind fun _ => Remote.fail _

theorem Remote.readHeader (h : Remote view) (fuel : Nat) (header : Bytes) :
    Keeps view (readHeader fuel header) := by
  induction fuel generalizing header with
  | zero => exact Remote.fail _
  | succ fuel ih =>
      refine (h.read _ _).bind fun bytes =>
        .ite (Remote.fail _) (.ite (.pure _) (.ite (Remote.fail _) (ih _)))

theorem Remote.readAddress (h : Remote view) (atyp : UInt8) : Keeps view (readAddress atyp) := by
  rw [Socks5.readAddress]
  refine .ite ((h.readExact _ _).bind fun _ => .pure _)
    (.ite ?_ (.ite ((h.readExact _ _).bind fun _ => .pure _) (Remote.fail _)))
  exact (h.readByte _).bind fun dlen => (h.readExact _ _).bind fun _ => .pure _

end Views

section Sending

variable {c d e : Conn} {said more : List (Call Bytes)}

/-- Every send to the tunnel succeeds. -/
def Sends (c : Conn) : Prop := ∀ e ∈ c.sendErrors, e = none

/-- From `c` to `d` these frames went to the tunnel, and nothing else changed there. -/
structure Adds (c : Conn) (said : List (Call Bytes)) (d : Conn) : Prop where
  tunnel : d.tunnel = { c.tunnel with sent := c.tunnel.sent ++ said }
  sends : Sends c → Sends d

def seen (c : Conn) : Tunnel × List (Option String) := (c.tunnel, c.sendErrors)

theorem remote_seen : Remote seen := fun _ _ _ _ _ => rfl

theorem Adds.of_seen (h : seen d = seen c) : Adds c [] d := by
  obtain ⟨htunnel, herrors⟩ := Prod.mk.inj h
  constructor
  · rw [htunnel, List.append_nil]
  · intro hc x hx
    exact hc x (herrors ▸ hx)

theorem Adds.trans (h : Adds c said d) (h' : Adds d more e) : Adds c (said ++ more) e := by
  constructor
  · rw [h'.tunnel, h.tunnel, List.append_assoc]
  · intro hc
    exact h'.sends (h.sends hc)

theorem sendCall_error {context : String} {call : Call Bytes} {stop : Stop}
    (h : exec (sendCall context call) c = (.error stop, d)) :
    Adds c [] d ∧ (Sends c → stop = .panic) ∧
    (stop = .panic → frameDataMax < call.payload.length) := by
  rw [sendCall, exec_of] at h
  split at h
  next hlong =>
    obtain ⟨hstop, rfl⟩ := Prod.mk.inj h
    exact ⟨.of_seen rfl, fun _ => (Except.error.inj hstop).symm, fun _ => hlong⟩
  next =>
    split at h
    next text errors herrors =>
      obtain ⟨hstop, rfl⟩ := Prod.mk.inj h
      obtain rfl := Except.error.inj hstop
      have hfails : ¬ Sends c := by
        intro hc
        cases hc (some text) (herrors ▸ List.mem_cons_self)
      exact ⟨⟨by rw [List.append_nil], fun hc => absurd hc hfails⟩, fun hc => absurd hc hfails,
        fun hp => by cases hp⟩
    next => cases (Prod.mk.inj h).1

theorem sendCall_ok {context : String} {call : Call Bytes}
    (h : exec (sendCall context call) c = (.ok (), d)) :
    Adds c [call] d ∧ call.payload.length ≤ frameDataMax := by
  rw [sendCall, exec_of] at h
  split at h
  next => cases (Prod.mk.inj h).1
  next hfits =>
    split at h
    next => cases (Prod.mk.inj h).1
    next =>
      obtain ⟨-, rfl⟩ := Prod.mk.inj h
      exact ⟨⟨rfl, fun hc x hx => hc x (List.mem_of_mem_tail hx)⟩, Nat.le_of_not_lt hfits⟩

theorem sendBatch_adds {calls : List (Call Bytes)} {r : Except Stop Unit}
    (hfits : ∀ call ∈ calls, call.payload.length ≤ frameDataMax)
    (h : exec (sendBatch calls) c = (r, d)) :
    ∃ done, done <+: calls ∧ Adds c done d ∧ r ≠ .error .panic := by
  induction calls generalizing c with
  | nil =>
      obtain ⟨rfl, rfl⟩ := Prod.mk.inj h
      exact ⟨[], List.prefix_rfl, .of_seen rfl, by simp⟩
  | cons call calls ih =>
      change exec (sendCall "发送数据帧失败: " call >>= fun _ => sendBatch calls) c = (r, d) at h
      rw [exec_bind] at h
      split at h
      next u c₁ hcall =>
        obtain ⟨done, hdone, hadds, hr⟩ := ih (fun x hx => hfits x (List.mem_cons_of_mem _ hx)) h
        exact ⟨call :: done, (List.prefix_cons_inj call).mpr hdone,
          (sendCall_ok hcall).1.trans hadds, hr⟩
      next stop c₁ hcall =>
        obtain ⟨rfl, rfl⟩ := Prod.mk.inj h
        obtain ⟨hadds, -, hlong⟩ := sendCall_error hcall
        refine ⟨[], List.nil_prefix, hadds, ?_⟩
        intro hpanic
        have := hfits call List.mem_cons_self
        have := hlong (Except.error.inj hpanic)
        omega

end Sending

section Forwarding

variable {c d : Conn} {sid : UInt16} {r : Except Stop Stage}

theorem keeps_writeReply (reply : Bytes) : Keeps seen (writeReply reply) :=
  .ite (remote_seen.writeAll _ _) (.pure _)

theorem writeReply_ne_panic (reply : Bytes) (c : Conn) :
    (exec (writeReply reply) c).1 ≠ .error .panic := by
  rw [writeReply]
  split
  · rw [writeAll, exec_of]
    split <;> simp
  · simp

theorem content_adds {prepend reply : Bytes}
    (h : exec (writeReply reply >>= fun _ => sendPrepend sid prepend >>= fun _ =>
      pure (.forwarding sid)) c = (r, d)) :
    ∃ said, (∀ call ∈ said, Content sid call) ∧ Adds c said d ∧ r ≠ .error .panic ∧ ∀ stage,
      r = .ok stage → stage = .forwarding sid := by
  have hwrite := keeps_writeReply reply c
  have hwritten := writeReply_ne_panic reply c
  have hcontent := content_sendDataBatch sid prepend
  rw [exec_bind] at h
  split at h
  next u c₁ hreply =>
    rw [hreply] at hwrite
    have hsend : ∃ said, said <+: sendDataBatch sid prepend ∧
        Adds c₁ said (exec (sendPrepend sid prepend) c₁).2 ∧
        (exec (sendPrepend sid prepend) c₁).1 ≠ .error .panic := by
      rw [sendPrepend]
      split
      · exact sendBatch_adds (fun call hcall => (hcontent call hcall).2.2.2.2) rfl
      · exact ⟨[], List.nil_prefix, .of_seen rfl, by simp⟩
    obtain ⟨said, hstart, hadds, hsent⟩ := hsend
    have hall := (Adds.of_seen hwrite).trans hadds
    refine ⟨said, fun call hcall => hcontent call (hstart.subset hcall), ?_⟩
    rw [exec_bind] at h
    split at h
    next v c₂ hprepend =>
      obtain ⟨rfl, rfl⟩ := Prod.mk.inj h
      rw [hprepend] at hall
      exact ⟨hall, by simp, fun stage hstage => (Except.ok.inj hstage).symm⟩
    next stop c₂ hprepend =>
      obtain ⟨rfl, rfl⟩ := Prod.mk.inj h
      rw [hprepend] at hall hsent
      exact ⟨hall, fun hpanic => hsent (congrArg Except.error (Except.error.inj hpanic)), by simp⟩
  next stop c₁ hreply =>
    obtain ⟨rfl, rfl⟩ := Prod.mk.inj h
    rw [hreply] at hwrite hwritten
    exact ⟨[], List.forall_mem_nil _, .of_seen hwrite,
      fun hpanic => hwritten (congrArg Except.error (Except.error.inj hpanic)), by simp⟩

theorem openForward_adds {dst reply prepend : Bytes} {port : UInt16}
    (h : exec (openForward sid dst port reply prepend) c = (r, d)) :
    ∃ said, Adds c said d ∧
      (said = [] ∧ (∃ stop, r = .error stop ∧ (Sends c → stop = .panic)) ∨
        Runs.exec (speak sid) .silent said = some .talking ∧ r ≠ .error .panic ∧ ∀ stage,
          r = .ok stage → stage = .forwarding sid) := by
  change exec (sendCall "发送控制帧失败: " (sendOpen sid protoTcp dst port) >>= fun _ =>
      writeReply reply >>= fun _ =>
    sendPrepend sid prepend >>= fun _ => pure (.forwarding sid)) c = (r, d) at h
  rw [exec_bind] at h
  split at h
  next u c₁ hopen =>
    obtain ⟨hadds, hfits⟩ := sendCall_ok hopen
    obtain ⟨said, hcontent, hmore, hr⟩ := content_adds h
    refine ⟨_, hadds.trans hmore, Or.inr ⟨?_, hr⟩⟩
    rw [List.singleton_append, Runs.exec_cons, speak_open hfits]
    exact exec_content hcontent
  next stop c₁ hopen =>
    obtain ⟨rfl, rfl⟩ := Prod.mk.inj h
    obtain ⟨hadds, hpanic, -⟩ := sendCall_error hopen
    exact ⟨[], hadds, Or.inl ⟨rfl, stop, rfl, hpanic⟩⟩

end Forwarding

section Accounts

variable {α : Type} {c d : Conn} {sid : UInt16} {r : Except Stop Stage}

/-- How the tunnel stands when a local connection is done, or has come to its loop. -/
inductive Accounted (c d : Conn) : Except Stop Stage → Prop
  /-- Nobody hears of the connection. -/
  | refused (stop : Stop) (entries : ∀ s,
    find d.tunnel.registry.sessions s = find c.tunnel.registry.sessions s)
      (allocated : d.tunnel.allocated = c.tunnel.allocated) (sent : d.tunnel.sent = c.tunnel.sent) :
        Accounted c d (.error stop)
  /-- The session it took is free again, and the peer is told, unless it has not heard of the
  session. -/
  | failed (stop : Stop) (sid : UInt16) (said : List (Call Bytes))
    (free : find c.tunnel.registry.sessions sid = none)
      (entries : ∀ s, find d.tunnel.registry.sessions s = find c.tunnel.registry.sessions s)
      (allocated : d.tunnel.allocated = c.tunnel.allocated ++ [sid])
        (sent : d.tunnel.sent = c.tunnel.sent ++ said)
      (speaks : said = [sendControl sid .close []] ∨ (Runs.exec (speak sid) .silent said).isSome)
      (told : Sends c → said = [] ∧ stop = .panic ∨
        Runs.exec (speak sid) .silent said = some .closed) : Accounted c d (.error stop)
  /-- The session is its own, and what it said there its Open and content. -/
  | running (stage : Stage) (sid : UInt16) (said : List (Call Bytes))
    (free : find c.tunnel.registry.sessions sid = none)
      (entries : ∀ s, find d.tunnel.registry.sessions s =
        if s = sid then some c.tunnel.registry.channels.length else find
          c.tunnel.registry.sessions s)
      (allocated : d.tunnel.allocated = c.tunnel.allocated ++ [sid])
        (sent : d.tunnel.sent = c.tunnel.sent ++ said)
      (speaks : Runs.exec (speak sid) .silent said = some .talking)
      (own : stage = .forwarding sid ∨ stage = .relaying sid) : Accounted c d (.ok stage)

/-- However it goes, the tunnel is left in order. -/
def Settles (m : Handler Stage) : Prop := ∀ c, Accounted c (exec m c).2 (exec m c).1

theorem Accounted.of_seen {c₁ : Conn} (h : seen c₁ = seen c) (hd : Accounted c₁ d r) :
    Accounted c d r := by
  obtain ⟨htunnel, herrors⟩ := Prod.mk.inj h
  have hsends : Sends c → Sends c₁ := fun hc x hx => hc x (herrors ▸ hx)
  cases hd with
  | refused stop entries allocated sent =>
      rw [htunnel] at entries allocated sent
      exact .refused stop entries allocated sent
  | failed stop sid said free entries allocated sent speaks told =>
      rw [htunnel] at free entries allocated sent
      exact .failed stop sid said free entries allocated sent speaks (fun hc => told (hsends hc))
  | running stage sid said free entries allocated sent speaks own =>
      rw [htunnel] at free entries allocated sent
      exact .running stage sid said free entries allocated sent speaks own

theorem Settles.after {m : Handler α} {f : α → Handler Stage} (hm : Keeps seen m)
    (hf : ∀ a, Settles (f a)) : Settles (m >>= f) := by
  intro c
  have hkept := hm c
  rw [exec_bind]
  split
  next a c₁ hexec =>
    rw [hexec] at hkept
    exact (hf a c₁).of_seen hkept
  next stop c₁ hexec =>
    rw [hexec] at hkept
    have htunnel : c₁.tunnel = c.tunnel := congrArg Prod.fst hkept
    exact .refused stop (fun s => by rw [htunnel]) (by rw [htunnel]) (by rw [htunnel])

theorem Settles.ite {p : Prop} [Decidable p] {m n : Handler Stage} (hm : Settles m)
    (hn : Settles n) : Settles (if p then m else n) := by
  split
  · exact hm
  · exact hn

theorem settles_fail (text : String) : Settles (fail text) :=
  fun _ => .refused _ (fun _ => rfl) rfl rfl

/-- A session just allocated, its entry as yet the only trace of it. -/
structure Taken (c : Conn) (sid : UInt16) (c₁ : Conn) : Prop where
  free : find c.tunnel.registry.sessions sid = none
  entries : ∀ s, find c₁.tunnel.registry.sessions s =
    if s = sid then some c.tunnel.registry.channels.length else find c.tunnel.registry.sessions s
  allocated : c₁.tunnel.allocated = c.tunnel.allocated ++ [sid]
  sent : c₁.tunnel.sent = c.tunnel.sent
  sends : Sends c → Sends c₁

theorem Taken.failed {c₁ : Conn} {said : List (Call Bytes)} (h : Taken c sid c₁)
    (hadds : Adds c₁ said d) (hspeaks : said = [sendControl sid .close []] ∨
      (Runs.exec (speak sid) .silent said).isSome) (stop : Stop)
    (htold : Sends c₁ → said = [] ∧ stop = .panic ∨
      Runs.exec (speak sid) .silent said = some .closed) :
    Accounted c (dropSession sid d) (.error stop) := by
  refine .failed stop sid said h.free ?_ ?_ ?_ hspeaks (fun hc => htold (h.sends hc))
  · intro s
    rw [dropSession, SessionRegistry.find_remove, hadds.tunnel]
    split
    next heq => rw [heq, h.free]
    next hne => exact (h.entries s).trans (if_neg hne)
  · rw [dropSession, hadds.tunnel]
    exact h.allocated
  · rw [dropSession, hadds.tunnel]
    exact congrArg (· ++ said) h.sent

theorem Taken.running {c₁ : Conn} {said : List (Call Bytes)} (h : Taken c sid c₁)
    (hadds : Adds c₁ said d) (hspeaks : Runs.exec (speak sid) .silent said = some .talking)
    {stage : Stage} (hown : stage = .forwarding sid ∨ stage = .relaying sid) :
    Accounted c d (.ok stage) := by
  refine .running stage sid said h.free ?_ ?_ ?_ hspeaks hown
  · intro s
    rw [hadds.tunnel]
    exact h.entries s
  · rw [hadds.tunnel]
    exact h.allocated
  · rw [hadds.tunnel]
    exact congrArg (· ++ said) h.sent

theorem settles_allocate {text : String} {f : UInt16 → Handler Stage}
    (hf : ∀ sid c c₁, Taken c sid c₁ → Accounted c (exec (f sid) c₁).2 (exec (f sid) c₁).1) :
    Settles (do
      match ← allocate with
      | none => fail text
      | some sid => f sid) := by
  intro c
  cases halloc : c.tunnel.registry.allocate with
  | mk taken reg =>
      cases taken with
      | none =>
          have hexec : exec allocate c =
              (.ok none, { c with tunnel := { c.tunnel with registry := reg } }) := by
            rw [allocate, exec_of, halloc]
          obtain ⟨hsessions, -⟩ := SessionRegistry.allocate_eq_none halloc
          rw [exec_bind_ok hexec]
          exact .refused _ (fun s => congrArg (find · s) hsessions) rfl rfl
      | some p =>
          obtain ⟨sid, ch⟩ := p
          have hexec : exec allocate c = (.ok (some sid), { c with
              tunnel := { c.tunnel with registry := reg, allocated := c.tunnel.allocated ++
                [sid] } }) := by
            rw [allocate, exec_of, halloc]
          obtain ⟨hfree, hsessions, -⟩ := SessionRegistry.allocate_eq_some halloc
          rw [exec_bind_ok hexec]
          refine hf sid c _ ⟨hfree, fun s => ?_, rfl, rfl, id⟩
          exact (congrArg (find · s) hsessions).trans (find_insert _ _ _ _)

theorem closing_accounted {dst reply prepend : Bytes} {port : UInt16} {c₁ : Conn}
    (h : Taken c sid c₁) :
    Accounted c (exec (closing sid (openForward sid dst port reply prepend)) c₁).2
      (exec (closing sid (openForward sid dst port reply prepend)) c₁).1 := by
  rw [closing, exec_of]
  split
  next stage d hexec =>
    obtain ⟨said, hadds, ⟨rfl, stop, hstop, -⟩ | ⟨hspeaks, -, hstage⟩⟩ := openForward_adds hexec
    · cases hstop
    · exact h.running hadds hspeaks (Or.inl (hstage stage rfl))
  next d hexec =>
    obtain ⟨said, hadds, ⟨rfl, -⟩ | ⟨-, hpanic, -⟩⟩ := openForward_adds hexec
    · exact h.failed hadds (Or.inr rfl) .panic (fun _ => Or.inl ⟨rfl, rfl⟩)
    · exact absurd rfl hpanic
  next stop d hstop hexec =>
    obtain ⟨said, hadds, hsaid⟩ := openForward_adds hexec
    -- the Close is short enough for a frame, so only a failing send keeps it back
    cases hclose : exec (sendControlFrame (sendControl sid .close [])) d with
    | mk q e =>
        cases q with
        | ok u =>
            have hall := hadds.trans (sendCall_ok hclose).1
            rcases hsaid with ⟨rfl, last, hlast, hpanic⟩ | ⟨hspeaks, -⟩
            · obtain rfl := Except.error.inj hlast
              exact h.failed hall (Or.inl rfl) stop (fun hs => absurd (hpanic hs) (hstop · ))
            · have hclosed : Runs.exec (speak sid) .silent (said ++ [sendControl sid .close []]) =
                  some .closed := by
                rw [Runs.exec_append_singleton, hspeaks]
                exact speak_close (Or.inl rfl)
              exact h.failed hall (Or.inr (by rw [hclosed]; rfl)) stop (fun _ => Or.inr hclosed)
        | error last =>
            obtain ⟨hmore, hlast, hlong⟩ := sendCall_error hclose
            have hunsent : ¬ Sends c₁ := by
              intro hs
              have := hlong (hlast (hadds.sends hs))
              simp [sendControl] at this
            refine h.failed (hadds.trans hmore) (Or.inr ?_) stop (fun hs => absurd hs hunsent)
            rw [List.append_nil]
            rcases hsaid with ⟨rfl, -⟩ | ⟨hspeaks, -⟩
            · rfl
            · rw [hspeaks]
              rfl

theorem settles_startForwardWithReply (dst : Bytes) (port : UInt16) (reply prepend : Bytes) :
    Settles (startForwardWithReply dst port reply prepend) :=
  settles_allocate fun _ _ _ h => closing_accounted h

theorem openRelay_accounted {c₁ : Conn} (h : Taken c sid c₁) :
    Accounted c (exec (openRelay sid) c₁).2 (exec (openRelay sid) c₁).1 := by
  have hfits : (openPayload 1 (ascii "0.0.0.0") 0).length ≤ frameDataMax := by
    decide +kernel
  rw [openRelay, exec_of]
  split
  next d hexec =>
    exact h.running (sendCall_ok hexec).1 (exec_singleton (speak_open hfits)) (Or.inr rfl)
  next stop d hexec =>
    obtain ⟨hadds, hpanic, hlong⟩ := sendCall_error hexec
    exact h.failed hadds (Or.inr rfl) stop (fun hs => Or.inl ⟨rfl, hpanic hs⟩)

theorem settles_startUdpAssociate : Settles startUdpAssociate := by
  have hbind : Keeps seen bindRelay := by
    intro c
    rw [bindRelay, exec_of]
    split <;> rfl
  exact .after hbind fun address => .after (remote_seen.writeAll _ _) fun _ =>
    settles_allocate fun _ _ _ h => openRelay_accounted h

theorem settles_command : Settles command := by
  refine .after (remote_seen.readExact _ _) fun hdr => .ite (settles_fail _) ?_
  refine .after (remote_seen.readAddress _) fun dst =>
    .after (remote_seen.readExact _ _) fun port => ?_
  refine .ite (settles_startForwardWithReply _ _ _ _)
    (.ite settles_startUdpAssociate (.ite ?_ (settles_fail _)))
  exact .after (remote_seen.writeAll _ _) fun _ => settles_fail _

theorem settles_request (header : Bytes) : Settles (request header) := by
  rw [request]
  split
  · exact .ite (settles_startForwardWithReply _ _ _ _) (settles_startForwardWithReply _ _ _ _)
  · exact fun _ => .refused _ (fun _ => rfl) rfl rfl

end Accounts

/-- Whatever a local connection sends, and whatever fails on its way, the session it may have taken
is free again when it is done, and the peer is told. -/
theorem connection_accounted (verify : Bytes → Bytes → Except String Bool) (cfg : Socks5Config)
    (c : Conn) :
    Accounted c (exec (handleConnection verify cfg) c).2
      (exec (handleConnection verify cfg) c).1 := by
  have hsettles : Settles (handleConnection verify cfg) := by
    refine .after (remote_seen.readByte _) fun first => .ite ?_ (.ite (settles_fail _) ?_)
    · intro d
      rw [handleHttpProxy, exec_of]
      exact Settles.after (remote_seen.readHeader _ _) settles_request d
    · refine .after (remote_seen.negotiate cfg) fun method => ?_
      split
      · exact .after (remote_seen.authenticate verify cfg) fun _ => settles_command
      · exact settles_command
  exact hsettles c

end SrtVpn.FrontEnd
