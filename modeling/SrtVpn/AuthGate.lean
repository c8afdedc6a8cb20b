import SrtVpn.Socks5

namespace SrtVpn.AuthGate

open BigEndian Utf8 Text Wire Encoder Session Dispatch Programs LocalConn HttpProxy Socks5

variable {c t : Conn} {verify : Bytes → Bytes → Except String Bool} {cfg : Socks5Config}

def Opens (tun : Tunnel) : Prop := tun.allocated ≠ [] ∨ ∃ call ∈ tun.sent, call.ftype = .open

def Conn.accepted (c : Conn) :
    Conn := { c with written := [], tunnel := ⟨c.tunnel.registry, [], []⟩ }

/-- The input starts with a handshake that offers user/password and an exchange that passes the
check. -/
def Authenticated (verify : Bytes → Bytes → Except String Bool) (cfg : Socks5Config)
    (input : Bytes) : Prop :=
  ∃ methods username password rest : Bytes, input =
      socks5Version :: UInt8.ofNat methods.length :: methods ++
        (0x01 :: UInt8.ofNat username.length :: username ++
          (UInt8.ofNat password.length :: password ++ rest)) ∧
    methods.length < 256 ∧ username.length < 256 ∧ password.length < 256 ∧
    methodUserPass ∈ methods ∧
    validateCredential verify (fromUtf8Lossy username) (fromUtf8Lossy password) cfg = true

/-- How many bytes `i` reads of a header have brought. -/
def boundary : List Nat → Nat → Nat
  | _, 0 => 0
  | sizes, i + 1 => min 4096 (max 1 (sizes.headD 4096)) + boundary sizes.tail i

/-- With read `i` the header is complete for the first time, and it was not too long before. -/
def Arrives (header input : Bytes) (sizes : List Nat) (i : Nat) : Prop :=
  boundary sizes i < input.length ∧
  complete (header ++ input.take (boundary sizes (i + 1))) = true ∧
    ∀ j < i, complete (header ++ input.take (boundary sizes (j + 1))) = false ∧
      (header ++ input.take (boundary sizes (j + 1))).length ≤ headerMax

/-- An HTTP request: its first letter, a complete header, a request line of three words, and a
session to be had. -/
def Bypass (c : Conn) : Prop :=
  ∃ first rest i, c.input = first :: rest ∧ isHttpStart first = true ∧
    Arrives [first] rest c.sizes i ∧ 3 ≤ (splitWhitespace
      (requestLine (fromUtf8Lossy ([first] ++ rest.take (boundary c.sizes (i + 1)))))).length ∧
    c.tunnel.registry.allocate.1.isSome = true

section Keeps

variable {α : Type}

theorem keeps_fail (text : String) : Keeps Conn.tunnel (fail text : Handler α) := fun _ => rfl

theorem keeps_readExact (context : String) (n : Nat) : Keeps Conn.tunnel (readExact context n) := by
  intro c
  rw [readExact, exec_of]
  split <;> rfl

theorem keeps_readByte (context : String) : Keeps Conn.tunnel (readByte context) :=
  (keeps_readExact context 1).bind fun _ => .pure _

theorem keeps_read (context : String) (n : Nat) : Keeps Conn.tunnel (read context n) := by
  intro c
  simp only [LocalConn.read, exec_of]
  split
  · split <;> rfl
  · rfl

theorem keeps_writeAll (context : String) (bytes : Bytes) :
    Keeps Conn.tunnel (writeAll context bytes) := by
  intro c
  rw [writeAll, exec_of]
  split <;> rfl

theorem keeps_negotiate (cfg : Socks5Config) : Keeps Conn.tunnel (negotiate cfg) := by
  refine (keeps_readByte _).bind fun n => (keeps_readExact _ _).bind fun methods => ?_
  split
  · exact keeps_fail _
  · exact (keeps_writeAll _ _).bind fun _ => .pure _

theorem keeps_authenticate (verify : Bytes → Bytes → Except String Bool) (cfg : Socks5Config) :
    Keeps Conn.tunnel (authenticate verify cfg) := by
  refine (keeps_readByte _).bind fun version => (keeps_readByte _).bind fun ulen =>
    .ite (keeps_fail _) ?_
  refine (keeps_readExact _ _).bind fun username => (keeps_readByte _).bind fun plen =>
    (keeps_readExact _ _).bind fun password => .ite (keeps_writeAll _ _) ?_
  exact (keeps_writeAll _ _).bind fun _ => keeps_fail _

theorem keeps_readHeader (fuel : Nat) (header : Bytes) :
    Keeps Conn.tunnel (readHeader fuel header) := by
  induction fuel generalizing header with
  | zero => exact keeps_fail _
  | succ fuel ih =>
      refine (keeps_read _ _).bind fun bytes =>
        .ite (keeps_fail _) (.ite (.pure _) (.ite (keeps_fail _) (ih _)))

end Keeps

section Reading

theorem readExact_ok {context : String} {n : Nat} {bs : Bytes}
    (h : exec (readExact context n) c = (.ok bs, t)) :
    c.input = bs ++ t.input ∧ bs.length = n ∧ t.sizes = c.sizes := by
  rw [readExact, exec_of] at h
  split at h
  · simp at h
  next hlen =>
    obtain ⟨hbs, rfl⟩ := Prod.mk.inj h
    obtain rfl := Except.ok.inj hbs
    refine ⟨(List.take_append_drop n c.input).symm, ?_, rfl⟩
    rw [List.length_take, Nat.min_eq_left (Nat.not_lt.mp hlen)]

theorem readByte_ok {context : String} {b : UInt8} (h : exec (readByte context) c = (.ok b, t)) :
    c.input = b :: t.input ∧ t.sizes = c.sizes := by
  obtain ⟨bs, u, hread, hpure⟩ := exec_bind_eq_ok h
  obtain ⟨hinput, hlen, hsizes⟩ := readExact_ok hread
  obtain ⟨hb, rfl⟩ := Prod.mk.inj hpure
  obtain rfl := Except.ok.inj hb
  obtain ⟨x, rfl⟩ := List.length_eq_one_iff.mp hlen
  exact ⟨hinput, hsizes⟩

theorem readByte_cons {b : UInt8} {rest : Bytes} (context : String) (h : c.input = b :: rest) :
    exec (readByte context) c = (.ok b, { c with input := rest }) := by
  have hread : exec (readExact context 1) c = (.ok [b], { c with input := rest }) := by
    rw [readExact, exec_of, h, if_neg (by simp)]
    rfl
  rw [readByte, exec_bind_ok hread]
  rfl

theorem writeAll_ok {context : String} {bytes : Bytes}
    (h : exec (writeAll context bytes) c = (.ok (), t)) : t.input = c.input := by
  rw [writeAll, exec_of] at h
  split at h
  · simp at h
  · obtain ⟨-, rfl⟩ := Prod.mk.inj h
    rfl

theorem selectMethod_auth {methods : List UInt8} {m : UInt8}
    (h : selectMethod true methods none = some m) :
    m = methodUserPass ∧ methodUserPass ∈ methods := by
  induction methods with
  | nil => simp [selectMethod] at h
  | cons x xs ih =>
      rw [selectMethod] at h
      split at h
      next hx => exact ⟨(Option.some.inj h).symm, by simp [hx.1]⟩
      next =>
        obtain ⟨hm, hmem⟩ := ih (by simpa using h)
        exact ⟨hm, List.mem_cons_of_mem _ hmem⟩

theorem ofNat_toNat_length {b : UInt8} {bs : Bytes} (h : bs.length = b.toNat) :
    UInt8.ofNat bs.length = b := by
  rw [h, UInt8.ofNat_toNat]

theorem negotiate_ok {m : UInt8} (h : exec (negotiate cfg) c = (.ok m, t)) :
    ∃ methods : Bytes, c.input = UInt8.ofNat methods.length :: methods ++ t.input ∧
      methods.length < 256 ∧ selectMethod cfg.hasAuth methods none = some m := by
  obtain ⟨n, u, hn, h⟩ := exec_bind_eq_ok h
  obtain ⟨methods, w, hmethods, h⟩ := exec_bind_eq_ok h
  obtain ⟨hinput, hlen, -⟩ := readExact_ok hmethods
  split at h
  · simp [fail] at h
  next m' hselect =>
    obtain ⟨_, x, hwrite, hpure⟩ := exec_bind_eq_ok h
    obtain ⟨hm, rfl⟩ := Prod.mk.inj hpure
    obtain rfl := Except.ok.inj hm
    refine ⟨methods, ?_, hlen ▸ n.toNat_lt, hselect⟩
    rw [(readByte_ok hn).1, hinput, writeAll_ok hwrite, ofNat_toNat_length hlen, List.cons_append]

theorem authenticate_ok (h : exec (authenticate verify cfg) c = (.ok (), t)) :
    ∃ username password : Bytes, c.input =
        0x01 :: UInt8.ofNat username.length :: username ++
          (UInt8.ofNat password.length :: password ++ t.input) ∧
      username.length < 256 ∧ password.length < 256 ∧
      validateCredential verify (fromUtf8Lossy username) (fromUtf8Lossy password) cfg = true := by
  obtain ⟨version, u, hversion, h⟩ := exec_bind_eq_ok h
  obtain ⟨ulen, w, hulen, h⟩ := exec_bind_eq_ok h
  split at h
  · simp [fail] at h
  next hv =>
    obtain ⟨username, x, husername, h⟩ := exec_bind_eq_ok h
    obtain ⟨plen, y, hplen, h⟩ := exec_bind_eq_ok h
    obtain ⟨password, z, hpassword, h⟩ := exec_bind_eq_ok h
    obtain ⟨huser, hulength, -⟩ := readExact_ok husername
    obtain ⟨hpass, hplength, -⟩ := readExact_ok hpassword
    split at h
    next hvalid =>
      refine ⟨username, password, ?_, hulength ▸ ulen.toNat_lt, hplength ▸ plen.toNat_lt, hvalid⟩
      rw [(readByte_ok hversion).1, (readByte_ok hulen).1, huser, (readByte_ok hplen).1, hpass,
        writeAll_ok h, ofNat_toNat_length hulength, ofNat_toNat_length hplength, not_not.mp hv]
      simp
    next =>
      obtain ⟨-, x', -, hfail⟩ := exec_bind_eq_ok h
      simp [fail] at hfail

end Reading

section Header

variable {header input : Bytes} {sizes : List Nat}

theorem arrives_zero : Arrives header input sizes 0 ↔
    0 < input.length ∧ complete (header ++ input.take (boundary sizes 1)) = true := by
  simp [Arrives, boundary]

theorem take_boundary (header input : Bytes) (sizes : List Nat) (i : Nat) :
    header ++ input.take (boundary sizes (i + 1)) =
      (header ++ input.take (boundary sizes 1)) ++
        (input.drop (boundary sizes 1)).take (boundary sizes.tail i) := by
  simp only [boundary, Nat.add_zero]
  rw [List.append_assoc, ← List.take_add]

theorem arrives_succ (i : Nat) : Arrives header input sizes (i + 1) ↔
    complete (header ++ input.take (boundary sizes 1)) = false ∧
    (header ++ input.take (boundary sizes 1)).length ≤ headerMax ∧
    Arrives (header ++ input.take (boundary sizes 1)) (input.drop (boundary sizes 1))
      sizes.tail i := by
  have hlt : boundary sizes (i + 1) < input.length ↔
      boundary sizes.tail i < (input.drop (boundary sizes 1)).length := by
    simp only [boundary, Nat.add_zero, List.length_drop]
    omega
  rw [Arrives, Arrives, hlt, take_boundary header input sizes (i + 1)]
  constructor
  · rintro ⟨hbound, hdone, hbefore⟩
    refine ⟨(hbefore 0 (by omega)).1, (hbefore 0 (by omega)).2, hbound, hdone, fun j hj => ?_⟩
    rw [← take_boundary]
    exact hbefore (j + 1) (by omega)
  · rintro ⟨hfirst, hlen, hbound, hdone, hbefore⟩
    refine ⟨hbound, hdone, fun j hj => ?_⟩
    cases j with
    | zero => exact ⟨hfirst, hlen⟩
    | succ j =>
        rw [take_boundary]
        exact hbefore j (by omega)

theorem read_nothing {c : Conn} (hempty : c.input = []) :
    (exec (LocalConn.read "读 HTTP 请求头失败: " 4096) c).1 = .ok [] ∨
      ∃ e, (exec (LocalConn.read "读 HTTP 请求头失败: " 4096) c).1 = .error e := by
  simp only [LocalConn.read, exec_of, hempty, if_true]
  cases c.readError with
  | none => exact .inl rfl
  | some e => exact .inr ⟨_, rfl⟩

theorem read_first {c : Conn} (hne : c.input ≠ []) :
    exec (LocalConn.read "读 HTTP 请求头失败: " 4096) c = (.ok (c.input.take (boundary c.sizes 1)),
      { c with input := c.input.drop (boundary c.sizes 1), sizes := c.sizes.tail }) ∧
      0 < boundary c.sizes 1 := by
  have hgrain : c.grain 4096 = boundary c.sizes 1 := by simp [Conn.grain, boundary]
  constructor
  · simp only [LocalConn.read, exec_of, hne, if_false, hgrain]
  · rw [← hgrain, Conn.grain]
    omega

theorem readHeader_ok_iff (fuel : Nat) (header : Bytes) (c : Conn) (hfuel : c.input.length < fuel)
    (h : Bytes) : (exec (readHeader fuel header) c).1 = .ok h ↔
      ∃ i, Arrives header c.input c.sizes i ∧
      h = header ++ c.input.take (boundary c.sizes (i + 1)) := by
  induction fuel generalizing header c with
  | zero => omega
  | succ fuel ih =>
      rw [readHeader, exec_bind]
      by_cases hempty : c.input = []
      · -- nothing to read: the end of the stream or an error, and no read can complete the header
        have hread := read_nothing hempty
        have hnone : ¬ ∃ i, Arrives header c.input c.sizes i ∧
            h = header ++ c.input.take (boundary c.sizes (i + 1)) := by
          rintro ⟨i, hi, -⟩
          simpa [hempty] using hi.1
        refine iff_of_false ?_ hnone
        generalize exec (LocalConn.read "读 HTTP 请求头失败: " 4096) c = r at hread
        obtain ⟨r, d⟩ := r
        obtain rfl | ⟨e, rfl⟩ := hread
        · simp [fail]
        · simp
      · have hpos : 0 < c.input.length := List.length_pos_iff.mpr hempty
        obtain ⟨hread, hone⟩ := read_first hempty
        have hsome : c.input.take (boundary c.sizes 1) ≠ [] := by
          simp only [ne_eq, List.take_eq_nil_iff, hempty, or_false]
          omega
        rw [hread]
        simp only [hsome, if_false]
        split
        next hdone =>
          -- complete at once
          refine ⟨fun hh => ⟨0, arrives_zero.mpr ⟨hpos, hdone⟩, ?_⟩, ?_⟩
          · simpa using hh.symm
          · rintro ⟨i, hi, rfl⟩
            cases i with
            | zero => rfl
            | succ i => simp [((arrives_succ i).mp hi).1] at hdone
        next hdone =>
          split
          next hlong =>
            apply iff_of_false (by simp [fail])
            rintro ⟨i, hi, -⟩
            cases i with
            | zero => exact hdone (arrives_zero.mp hi).2
            | succ i =>
                have hle := ((arrives_succ i).mp hi).2.1
                omega
          next hlong =>
            rw [ih _ _ (by simp only [List.length_drop]; omega)]
            constructor
            · rintro ⟨i, hi, rfl⟩
              refine ⟨i + 1, (arrives_succ i).mpr ⟨by simpa using hdone, by omega, hi⟩, ?_⟩
              rw [take_boundary header c.input c.sizes (i + 1)]
            · rintro ⟨i, hi, rfl⟩
              cases i with
              | zero => exact absurd (arrives_zero.mp hi).2 hdone
              | succ i =>
                  refine ⟨i, ((arrives_succ i).mp hi).2.2, ?_⟩
                  rw [take_boundary header c.input c.sizes (i + 1)]

end Header

section Allocation

theorem not_opens_accepted (c : Conn) : ¬ Opens (Conn.accepted c).tunnel := by
  rintro (h | ⟨call, hmem, -⟩)
  · exact h rfl
  · simp [Conn.accepted] at hmem

theorem isSome_of_opens {α : Type} {f : Option UInt16 → Handler α}
    (hnone : Keeps Conn.tunnel (f none)) (hc : ¬ Opens c.tunnel)
    (h : Opens (exec (allocate >>= f) c).2.tunnel) :
    c.tunnel.registry.allocate.1.isSome = true := by
  cases hr : c.tunnel.registry.allocate with
  | mk r reg =>
      cases r with
      | some p => rfl
      | none =>
          have halloc : exec allocate c =
              (.ok none, { c with tunnel := { c.tunnel with registry := reg } }) := by
            simp only [allocate, exec_of, hr]
          rw [exec_bind_ok halloc, hnone] at h
          exact absurd h hc

theorem keeps_allocated_sendCall (context : String) (call : Call Bytes) :
    Keeps (fun c => c.tunnel.allocated) (sendCall context call) := by
  intro c
  simp only [sendCall, exec_of]
  split
  · rfl
  · split <;> rfl

theorem keeps_allocated_sendBatch (calls : List (Call Bytes)) :
    Keeps (fun c => c.tunnel.allocated) (sendBatch calls) := by
  induction calls with
  | nil => exact .pure _
  | cons call calls ih => exact (keeps_allocated_sendCall _ call).bind fun _ => ih

theorem keeps_allocated_openForward (sid : UInt16) (dst : Bytes) (port : UInt16)
    (reply prepend : Bytes) :
    Keeps (fun c => c.tunnel.allocated) (openForward sid dst port reply prepend) := by
  have hwrite (context : String) (bytes : Bytes) :
      Keeps (fun c => c.tunnel.allocated) (writeAll context bytes) :=
    fun c => congrArg Tunnel.allocated (keeps_writeAll context bytes c)
  refine (keeps_allocated_sendCall _ _).bind fun _ => .bind ?_ fun _ => .bind ?_ fun _ => .pure _
  · exact .ite (hwrite _ _) (.pure _)
  · exact .ite (keeps_allocated_sendBatch _) (.pure _)

theorem keeps_allocated_closing {m : Handler Stage} (sid : UInt16)
    (hm : Keeps (fun c => c.tunnel.allocated) m) :
    Keeps (fun c => c.tunnel.allocated) (closing sid m) := by
  intro c
  have hc := hm c
  simp only [closing, exec_of]
  split
  next stage d hexec => rwa [hexec] at hc
  next d hexec => rwa [hexec] at hc
  next e d _ hexec =>
    rw [hexec] at hc
    exact (keeps_allocated_sendCall _ _ d).trans hc

theorem opens_startForwardWithReply (dst : Bytes) (port : UInt16) (reply prepend : Bytes)
    (h : c.tunnel.registry.allocate.1.isSome = true) :
    Opens (exec (startForwardWithReply dst port reply prepend) c).2.tunnel := by
  cases hr : c.tunnel.registry.allocate with
  | mk r reg =>
      cases r with
      | none => simp [hr] at h
      | some p =>
          have halloc : exec allocate c = (.ok (some p.1), { c with
              tunnel := { c.tunnel with registry := reg, allocated := c.tunnel.allocated ++
                [p.1] } }) := by
            simp only [allocate, exec_of, hr]
          have hkeeps :=
            keeps_allocated_closing p.1 (keeps_allocated_openForward p.1 dst port reply prepend)
            { c with tunnel := { c.tunnel with registry := reg, allocated := c.tunnel.allocated ++
              [p.1] } }
          rw [startForwardWithReply, exec_bind_ok halloc]
          apply Or.inl
          intro hnil
          simpa using hkeeps.symm.trans hnil

end Allocation

section Gate

theorem opens_request_iff (header : Bytes) (hc : ¬ Opens c.tunnel) :
    Opens (exec (request header) c).2.tunnel ↔
      3 ≤ (splitWhitespace (requestLine (fromUtf8Lossy header))).length ∧
        c.tunnel.registry.allocate.1.isSome = true := by
  have hforward (dst : Bytes) (port : UInt16) (reply prepend : Bytes) :
      Opens (exec (startForwardWithReply dst port reply prepend) c).2.tunnel ↔
        c.tunnel.registry.allocate.1.isSome = true :=
    ⟨fun h => isSome_of_opens (keeps_fail _) hc h,
      opens_startForwardWithReply dst port reply prepend⟩
  rw [request]
  split
  next method target word rest hwords =>
    simp only [hwords, List.length_cons]
    have hthree : 3 ≤ rest.length + 1 + 1 + 1 := by omega
    split <;> simp only [hforward, hthree, true_and]
  next hwords =>
    apply iff_of_false hc
    rintro ⟨hthree, -⟩
    match hsplit : splitWhitespace (requestLine (fromUtf8Lossy header)) with
    | [] => simp [hsplit] at hthree
    | [_] => simp [hsplit] at hthree
    | [_, _] => simp [hsplit] at hthree
    | method :: target :: word :: rest => exact hwords method target word rest hsplit

theorem opens_http_iff (first : UInt8) (hc : ¬ Opens c.tunnel) :
    Opens (exec (handleHttpProxy first) c).2.tunnel ↔
      ∃ i, Arrives [first] c.input c.sizes i ∧
        3 ≤ (splitWhitespace (requestLine (fromUtf8Lossy
          ([first] ++ c.input.take (boundary c.sizes (i + 1)))))).length ∧
        c.tunnel.registry.allocate.1.isSome = true := by
  have hspec := readHeader_ok_iff (c.input.length + 1) [first] c (by omega)
  have hkeeps := keeps_readHeader (c.input.length + 1) [first]
  rw [handleHttpProxy, exec_of]
  constructor
  · intro h
    obtain ⟨header, t, hread, htunnel, hopens⟩ := hkeeps.passes hc h
    obtain ⟨i, hi, rfl⟩ := (hspec header).mp (by rw [hread])
    rw [opens_request_iff _ (htunnel ▸ hc), htunnel] at hopens
    exact ⟨i, hi, hopens⟩
  · rintro ⟨i, hi, hwords, hsome⟩
    have hok := (hspec _).mpr ⟨i, hi, rfl⟩
    have htunnel := hkeeps c
    cases hread : exec (readHeader (c.input.length + 1) [first]) c with
    | mk r t =>
        rw [hread] at hok htunnel
        obtain rfl := hok
        have ht : t.tunnel = c.tunnel := htunnel
        rw [exec_bind_ok hread, opens_request_iff _ (ht ▸ hc), ht]
        exact ⟨hwords, hsome⟩

theorem isHttpStart_ne {first : UInt8} (h : isHttpStart first = true) : first ≠ socks5Version := by
  rintro rfl
  revert h
  decide

theorem authenticated_of_opens (hauth : cfg.hasAuth = true) (hc : ¬ Opens c.tunnel)
    (h : Opens (exec (negotiate cfg >>= fun method => do
      if method = methodUserPass then authenticate verify cfg
      command) c).2.tunnel) :
    Authenticated verify cfg (socks5Version :: c.input) := by
  obtain ⟨method, t, hneg, htunnel, hopens⟩ := (keeps_negotiate cfg).passes hc h
  obtain ⟨methods, hinput, hlen, hselect⟩ := negotiate_ok hneg
  rw [hauth] at hselect
  obtain ⟨rfl, hmem⟩ := selectMethod_auth hselect
  obtain ⟨_, u, hexchange, -, -⟩ := (keeps_authenticate verify cfg).passes (htunnel ▸ hc) hopens
  obtain ⟨username, password, hrest, hulen, hplen, hvalid⟩ := authenticate_ok hexchange
  exact ⟨methods, username, password, u.input,
    by rw [hinput, hrest]; rfl, hlen, hulen, hplen, hmem, hvalid⟩

end Gate

/-- With credentials configured, a connection allocates a session or sends an Open only after a
user/password exchange that passed the check, unless it is an HTTP request: that path asks for no
credentials at all. -/
theorem auth_gates_sessions_iff (verify : Bytes → Bytes → Except String Bool) (cfg : Socks5Config)
    (hauth : cfg.hasAuth = true) (c : Conn) :
    (Opens (exec (handleConnection verify cfg) (Conn.accepted c)).2.tunnel →
      Authenticated verify cfg c.input) ↔
      ¬ Bypass c := by
  have hc := not_opens_accepted c
  constructor
  · rintro hgate ⟨first, rest, i, hinput, hstart, harrives, hwords, hsome⟩
    have hne := isHttpStart_ne hstart
    have hread := readByte_cons (c := Conn.accepted c) "读协议首字节失败: " hinput
    have hopens : Opens (exec (handleConnection verify cfg) (Conn.accepted c)).2.tunnel := by
      rw [handleConnection, exec_bind_ok hread, afterFirst, if_pos ⟨hne, hstart⟩]
      exact (opens_http_iff (c := { Conn.accepted c with input := rest }) first hc).mpr
        ⟨i, harrives, hwords, hsome⟩
    obtain ⟨methods, username, password, rest', hauthd, -⟩ := hgate hopens
    rw [hinput] at hauthd
    exact hne (List.cons.inj hauthd).1
  · intro hbypass hopens
    obtain ⟨first, t, hread, htunnel, hopens⟩ := (keeps_readByte _).passes hc hopens
    obtain ⟨hinput, hsizes⟩ := readByte_ok hread
    have hinput : c.input = first :: t.input := hinput
    have hsizes : t.sizes = c.sizes := hsizes
    have ht : ¬ Opens t.tunnel := htunnel ▸ hc
    rw [afterFirst] at hopens
    split at hopens
    next hhttp =>
      obtain ⟨i, harrives, hwords, hsome⟩ := (opens_http_iff first ht).mp hopens
      rw [htunnel] at hsome
      rw [hsizes] at harrives hwords
      exact absurd ⟨first, t.input, i, hinput, hhttp.2, harrives, hwords, hsome⟩ hbypass
    next =>
      split at hopens
      · exact absurd hopens ht
      next hfirst =>
        rw [hinput, not_not.mp hfirst]
        exact authenticated_of_opens hauth ht hopens

def clean (input : Bytes) : Conn :=
  ⟨input, [], none, [], [], .ok (), .ok ([0, 0, 0, 0], 0), [], ⟨.new, [], []⟩⟩

def oneUser : Socks5Config := ⟨some [117], some [112], []⟩

def refuse (_ _ : Bytes) : Except String Bool := .ok false

def socksRequest : Bytes := [5, 1, 2, 1, 1, 117, 1, 112, 5, 1, 0, 1, 10, 0, 0, 1, 0, 80]

theorem auth_gates_socks_connect :
    Opens (exec (handleConnection refuse oneUser) (Conn.accepted (clean socksRequest))).2.tunnel ∧
      Authenticated refuse oneUser socksRequest := by
  have hopens : Opens
      (exec (handleConnection refuse oneUser) (Conn.accepted (clean socksRequest))).2.tunnel :=
    .inl (by decide +kernel)
  refine ⟨hopens,
    (auth_gates_sessions_iff refuse oneUser (by decide) (clean socksRequest)).mpr ?_ hopens⟩
  rintro ⟨first, rest, i, hinput, hstart, -⟩
  obtain ⟨rfl, -⟩ := List.cons.inj hinput
  exact absurd hstart (by decide)

def connectRequest : Bytes := ascii "CONNECT a:1 HTTP/1.1\r\n\r\n"

theorem http_connect_skips_auth :
    oneUser.hasAuth = true ∧
    (exec (handleConnection refuse oneUser)
      (Conn.accepted (clean connectRequest))).2.tunnel.allocated = [1] ∧
    (exec (handleConnection refuse oneUser) (Conn.accepted (clean connectRequest))).2.tunnel.sent =
      [sendOpen 1 protoTcp [97] 1] ∧
    ¬ Authenticated refuse oneUser connectRequest := by
  refine ⟨by decide, by decide +kernel, by decide +kernel, ?_⟩
  rintro ⟨methods, username, password, rest, hinput, -⟩
  exact absurd (List.cons.inj hinput).1 (by decide)

end SrtVpn.AuthGate
