import SrtVpn.AuthGate
import SrtVpn.OpenTargets
import SrtVpn.TextPrefixes

namespace SrtVpn.Segments

open BigEndian Utf8 Utf8Chars Text TextParts TextPrefixes Wire Encoder Chunks Session Dispatch
  Programs LocalConn HttpProxy

def Asks (header method target : Bytes) : Prop :=
  ∃ version more, splitWhitespace (requestLine (fromUtf8Lossy header)) =
    method :: target :: version :: more

section Words

variable {a method target method' target' : Bytes}

theorem words_of_split {before after : List Bytes} {c : Bytes} {version : Bytes} {more : List Bytes}
    (hc : isWhitespace c = true) (hlen : (wordsLoop before []).length = 2)
    (h : wordsLoop (before ++ c :: after) [] = method :: target :: version :: more) :
    wordsLoop before [] = [method, target] := by
  rw [wordsLoop_append hc] at h
  have htake := congrArg (List.take 2) h
  rw [List.take_append_of_le_length (Nat.le_of_eq hlen.symm),
    List.take_of_length_le (Nat.le_of_eq hlen)] at htake
  exact htake

theorem chars_requestLine {kept more : List Bytes} (hall : ∀ c ∈ kept ++ more, IsChar c)
    (hnone : position [0x0D, 0x0A] kept.flatten = none) :
    (∃ between, chars (requestLine (kept ++ more).flatten) = kept ++ between ∧ ∃ rest,
      more = between ++ rest) ∨
      ∃ before rest, kept = before ++ [[0x0D]] ∧ more = [0x0A] :: rest ∧
        chars (requestLine (kept ++ more).flatten) = before := by
  rw [requestLine]
  cases hp : position [0x0D, 0x0A] (kept ++ more).flatten with
  | none =>
      refine Or.inl ⟨more, ?_, [], by simp⟩
      rw [Option.getD_none, List.take_length, chars_flatten hall]
  | some p =>
      obtain ⟨before, after, hsplit, htake⟩ := chars_upTo (by decide) (by decide) hall hp
      have hbefore : ∀ c ∈ before, IsChar c :=
        fun c hc => hall c (by rw [hsplit]; exact List.mem_append_left _ hc)
      rw [Option.getD_some, htake, chars_flatten hbefore]
      rcases pair_behind hnone hsplit with ⟨between, rfl, hmore⟩ | ⟨hkept, hmore⟩
      · exact Or.inl ⟨between, rfl, _, hmore⟩
      · exact Or.inr ⟨before, after, hkept, hmore, rfl⟩

theorem isChar_of_last {last : List Bytes} (h : last = [] ∨ last = [replacement]) :
    ∀ c ∈ last, IsChar c := by
  rcases h with rfl | rfl
  · simp
  · intro c hc
    rw [List.mem_singleton.mp hc]
    exact isChar_replacement

theorem requestLine_append {kept : List Bytes} {p : Nat}
    (hp : position [0x0D, 0x0A] kept.flatten = some p) (cs : List Bytes) :
    requestLine (kept ++ cs).flatten = kept.flatten.take p := by
  have hle : p ≤ kept.flatten.length := Nat.le_of_add_right_le (position_le hp)
  rw [requestLine, List.flatten_append, position_append hp, Option.getD_some,
    List.take_append_of_le_length hle]

theorem chars_requestLine_last {kept last : List Bytes} (hall : ∀ c ∈ kept ++ last, IsChar c)
    (hnone : position [0x0D, 0x0A] kept.flatten = none) (hlast : last = [] ∨ last = [replacement]) :
    ∃ between, chars (requestLine (kept ++ last).flatten) = kept ++ between ∧
    between.length ≤ 1 := by
  obtain ⟨between, hline, rest, hbetween⟩ : ∃ between,
      chars (requestLine (kept ++ last).flatten) = kept ++ between ∧
      ∃ rest, last = between ++ rest := by
    rcases chars_requestLine hall hnone with h | ⟨before, rest, -, hrest, -⟩
    · exact h
    · rcases hlast with rfl | rfl
      · cases hrest
      · exact absurd (List.cons.inj hrest).1 (by decide)
  have hlen := congrArg List.length hbetween
  rw [List.length_append] at hlen
  refine ⟨between, hline, ?_⟩
  rcases hlast with rfl | rfl
  · rw [List.length_nil] at hlen
    omega
  · rw [List.length_singleton] at hlen
    omega

theorem asks_append (b : Bytes) (h : Asks a method target) (h' : Asks (a ++ b) method' target') :
    method' = method ∧ target' = target := by
  obtain ⟨version, words, hwords⟩ := h
  obtain ⟨version', words', hwords'⟩ := h'
  obtain ⟨kept, last, more, hkept, hmore, hlast, ha, hb⟩ := decode_append a b
  rw [ha, splitWhitespace] at hwords
  rw [hb, splitWhitespace] at hwords'
  have hchars : ∀ cs : List Bytes, (∀ c ∈ cs, IsChar c) → ∀ c ∈ kept ++ cs, IsChar c :=
    fun cs hcs c hc => (List.mem_append.mp hc).elim (hkept c) (hcs c)
  cases hp : position [0x0D, 0x0A] kept.flatten with
  | some p =>
      -- the line ends before anything is cut off
      rw [requestLine_append hp] at hwords hwords'
      obtain ⟨rfl, hrest⟩ := List.cons.inj (hwords'.symm.trans hwords)
      exact ⟨rfl, (List.cons.inj hrest).1⟩
  | none =>
      -- the first two words end in front of the last white space that both texts have
      obtain ⟨between, hline, hshort⟩ :=
        chars_requestLine_last (hchars last (isChar_of_last hlast)) hp hlast
      rw [hline] at hwords
      obtain ⟨before, c, after, hsplit, hc, hlen⟩ := words_split hshort (by decide : 1 ≤ 2)
        (show 2 + 1 ≤ (wordsLoop (kept ++ between) []).length by rw [hwords]; simp)
      have hfirst : wordsLoop before [] = [method, target] := by
        rw [hsplit, List.append_assoc, List.cons_append] at hwords
        exact words_of_split hc hlen hwords
      have hsecond : wordsLoop before [] = [method', target'] := by
        rcases chars_requestLine (hchars more hmore) hp with ⟨behind, hline', -⟩ |
            ⟨upTo, rest', hcr, -, hline'⟩
        · rw [hline', hsplit, List.append_assoc, List.cons_append] at hwords'
          exact words_of_split hc hlen hwords'
        · rw [hline'] at hwords'
          rcases List.eq_nil_or_concat after with rfl | ⟨after, x, rfl⟩
          · obtain ⟨rfl, -⟩ := List.append_inj' (hsplit.symm.trans hcr) rfl
            rw [hwords'] at hlen
            simp at hlen
          · rw [hsplit, List.concat_eq_append, ← List.cons_append, ← List.append_assoc] at hcr
            obtain ⟨rfl, -⟩ := List.append_inj' hcr rfl
            exact words_of_split hc hlen hwords'
      rw [hfirst] at hsecond
      obtain ⟨rfl, hrest⟩ := List.cons.inj hsecond
      exact ⟨rfl, (List.cons.inj hrest).1.symm⟩

end Words

section Header

variable {stream header h : Bytes} {m b : Nat} {c t : Conn}

/-- So many bytes can have been read when the header is found to be complete: the last read found it
incomplete. -/
def Stop (stream : Bytes) (m : Nat) : Prop :=
  m ≤ stream.length ∧ complete (stream.take m) = true ∧
    ∃ b, 0 < b ∧ b < m ∧ m ≤ b + 4096 ∧ b ≤ headerMax ∧ complete (stream.take b) = false

theorem complete_append (a b : Bytes) (h : complete a = true) : complete (a ++ b) = true := by
  rw [complete, Bool.or_eq_true, Option.isSome_iff_exists, Option.isSome_iff_exists] at h ⊢
  rcases h with ⟨p, hp⟩ | ⟨p, hp⟩
  · exact Or.inl ⟨p, position_append hp b⟩
  · exact Or.inr ⟨p, position_append hp b⟩

theorem incomplete_take {n : Nat} (hn : n ≤ b) (h : complete (stream.take b) = false) :
    complete (stream.take n) = false := by
  cases hdone : complete (stream.take n) with
  | false => rfl
  | true =>
      obtain ⟨k, rfl⟩ := Nat.exists_eq_add_of_le hn
      rw [List.take_add, complete_append _ _ hdone] at h
      cases h

theorem read_ok {context : String} {n : Nat} {bytes : Bytes}
    (h : exec (LocalConn.read context n) c = (.ok bytes, t)) :
    bytes ++ t.input = c.input ∧ bytes.length ≤ n := by
  simp only [LocalConn.read, exec_of] at h
  split at h
  next hempty =>
    split at h
    · obtain ⟨hbytes, rfl⟩ := Prod.mk.inj h
      obtain rfl := Except.ok.inj hbytes
      exact ⟨rfl, Nat.zero_le n⟩
    · cases h
  next =>
    obtain ⟨hbytes, rfl⟩ := Prod.mk.inj h
    obtain rfl := Except.ok.inj hbytes
    refine ⟨List.take_append_drop _ _, ?_⟩
    rw [List.length_take, Conn.grain]
    omega

theorem readHeader_stop (fuel : Nat) (hne : header ≠ []) (hmax : header.length ≤ headerMax)
    (hopen : complete header = false) (hread : exec (readHeader fuel header) c = (.ok h, t)) :
    Stop (header ++ c.input) h.length ∧ h ++ t.input = header ++ c.input := by
  induction fuel generalizing header c with
  | zero => cases hread
  | succ fuel ih =>
      rw [readHeader] at hread
      obtain ⟨bytes, u, hbytes, hread⟩ := exec_bind_eq_ok hread
      obtain ⟨hinput, hlen⟩ := read_ok hbytes
      have hstream : header ++ c.input = (header ++ bytes) ++ u.input := by
        rw [← hinput, List.append_assoc]
      split at hread
      · cases hread
      next hsome =>
        split at hread
        next hdone =>
          obtain ⟨hh, rfl⟩ := Prod.mk.inj hread
          obtain rfl := Except.ok.inj hh
          have hpos := List.length_pos_iff.mpr hne
          have hpos' := List.length_pos_iff.mpr hsome
          refine ⟨⟨?_, ?_, header.length, hpos, ?_, ?_, hmax, ?_⟩, hstream.symm⟩
          · rw [hstream]
            exact (List.prefix_append (header ++ bytes) u.input).length_le
          · rw [hstream, List.take_left]
            exact hdone
          · rw [List.length_append]
            omega
          · rw [List.length_append]
            omega
          · rw [List.take_left]
            exact hopen
        next hopen' =>
          split at hread
          · cases hread
          next hroom =>
            rw [hstream]
            exact ih (List.append_ne_nil_of_left_ne_nil hne bytes) (Nat.not_lt.mp hroom)
              ((Bool.not_eq_true _).mp hopen') hread

theorem read_next {n size : Nat} (hpos : 0 < size) (hle : size ≤ 4096)
    (hroom : n + size ≤ stream.length) (hinput : c.input = stream.drop n)
    (hsize : c.sizes.headD 4096 = size) :
    exec (LocalConn.read "读 HTTP 请求头失败: " 4096) c = (.ok ((stream.drop n).take size),
      { c with input := stream.drop (n + size), sizes := c.sizes.tail }) ∧
      (stream.drop n).take size ≠ [] := by
  have hgrain : c.grain 4096 = size := by
    rw [Conn.grain, hsize]
    omega
  have hsome : stream.drop n ≠ [] := by
    rw [← List.length_pos_iff, List.length_drop]
    omega
  constructor
  · simp only [LocalConn.read, exec_of, hinput, hsome, if_false, hgrain, List.drop_drop]
  · rw [← List.length_pos_iff, List.length_take, List.length_drop]
    omega

theorem readHeader_cut (hm : m ≤ stream.length) (hdone : complete (stream.take m) = true)
    (hb : b < m) (hlast : m ≤ b + 4096) (hmax : b ≤ headerMax)
    (hopen : complete (stream.take b) = false) (k n fuel : Nat) (hk : n + k = b)
    (hinput : c.input = stream.drop n) (hsizes : c.sizes = List.replicate k 1 ++ [m - b])
    (hfuel : stream.length < fuel + n) :
    exec (readHeader fuel (stream.take n)) c =
      (.ok (stream.take m), { c with input := stream.drop m, sizes := [] }) := by
  induction k generalizing n fuel c with
  | zero =>
      obtain ⟨fuel, rfl⟩ : ∃ f, fuel = f + 1 := ⟨fuel - 1, by omega⟩
      obtain rfl : n = b := hk
      obtain ⟨hread, hsome⟩ :=
        read_next (show 0 < m - n by omega) (by omega) (by omega) hinput (by rw [hsizes]; rfl)
      have hjoin : stream.take n ++ (stream.drop n).take (m - n) = stream.take m := by
        rw [← List.take_add, Nat.add_sub_cancel' (Nat.le_of_lt hb)]
      rw [readHeader, exec_bind_ok hread, if_neg hsome, hjoin, if_pos hdone,
        Nat.add_sub_cancel' (Nat.le_of_lt hb), hsizes]
      rfl
  | succ k ih =>
      obtain ⟨fuel, rfl⟩ : ∃ f, fuel = f + 1 := ⟨fuel - 1, by omega⟩
      obtain ⟨hread, hsome⟩ :=
        read_next Nat.one_pos (by decide) (by omega) hinput (by rw [hsizes]; rfl)
      have hjoin : stream.take n ++ (stream.drop n).take 1 = stream.take (n + 1) :=
        List.take_add.symm
      have hopen' : ¬ complete (stream.take (n + 1)) = true := by
        rw [incomplete_take (by omega) hopen]
        decide
      have hroom : ¬ headerMax < (stream.take (n + 1)).length := by
        rw [List.length_take]
        omega
      rw [readHeader, exec_bind_ok hread, if_neg hsome, hjoin, if_neg hopen', if_neg hroom]
      exact ih (n + 1) fuel (by omega) rfl (by rw [hsizes]; rfl) (by omega)

end Header

section Forward

variable {c t : Conn} {sid : UInt16} {dst reply prepend : Bytes} {port : UInt16} {stage : Stage}

theorem sendCall_ok {context : String} {call : Call Bytes}
    (h : exec (sendCall context call) c = (.ok (), t)) :
    t.tunnel.sent = c.tunnel.sent ++ [call] ∧ t.input = c.input ∧
    call.payload.length ≤ frameDataMax := by
  simp only [sendCall, exec_of] at h
  split at h
  · cases h
  next hlen =>
    split at h
    · cases h
    · obtain ⟨-, rfl⟩ := Prod.mk.inj h
      exact ⟨rfl, rfl, Nat.not_lt.mp hlen⟩

theorem sendBatch_ok (calls : List (Call Bytes)) (h : exec (sendBatch calls) c = (.ok (), t)) :
    t.tunnel.sent = c.tunnel.sent ++ calls ∧ t.input = c.input := by
  induction calls generalizing c with
  | nil =>
      obtain ⟨-, rfl⟩ := Prod.mk.inj h
      exact ⟨(List.append_nil _).symm, rfl⟩
  | cons call calls ih =>
      obtain ⟨⟨⟩, u, hcall, hrest⟩ := exec_bind_eq_ok h
      obtain ⟨hsent, hinput, -⟩ := sendCall_ok hcall
      obtain ⟨hsent', hinput'⟩ := ih hrest
      exact ⟨by rw [hsent', hsent, List.append_assoc]; rfl, hinput'.trans hinput⟩

theorem writeReply_ok (h : exec (writeReply reply) c = (.ok (), t)) :
    t.tunnel = c.tunnel ∧ t.input = c.input := by
  rw [writeReply] at h
  split at h
  · have htunnel := AuthGate.keeps_writeAll "写 CONNECT 响应失败: " reply c
    rw [h] at htunnel
    exact ⟨htunnel, AuthGate.writeAll_ok h⟩
  · obtain ⟨-, rfl⟩ := Prod.mk.inj h
    exact ⟨rfl, rfl⟩

theorem sendPrepend_ok (h : exec (sendPrepend sid prepend) c = (.ok (), t)) :
    t.tunnel.sent = c.tunnel.sent ++ sendDataBatch sid prepend ∧ t.input = c.input := by
  rw [sendPrepend] at h
  split at h
  · exact sendBatch_ok _ h
  next hnil =>
    obtain ⟨-, rfl⟩ := Prod.mk.inj h
    obtain rfl := not_not.mp hnil
    exact ⟨(List.append_nil _).symm, rfl⟩

theorem openForward_ok (h : exec (openForward sid dst port reply prepend) c = (.ok stage, t)) :
    stage = .forwarding sid ∧
    t.tunnel.sent = c.tunnel.sent ++ sendOpen sid protoTcp dst port :: sendDataBatch sid prepend ∧
      t.input = c.input ∧ (openPayload protoTcp dst port).length ≤ frameDataMax := by
  obtain ⟨⟨⟩, u, hopen, h⟩ := exec_bind_eq_ok h
  obtain ⟨⟨⟩, v, hreply, h⟩ := exec_bind_eq_ok h
  obtain ⟨⟨⟩, w, hprepend, h⟩ := exec_bind_eq_ok h
  obtain ⟨hstage, rfl⟩ := Prod.mk.inj h
  obtain ⟨hsent, hinput, hlen⟩ := sendCall_ok hopen
  obtain ⟨htunnel, hinput'⟩ := writeReply_ok hreply
  obtain ⟨hsent', hinput''⟩ := sendPrepend_ok hprepend
  refine ⟨(Except.ok.inj hstage).symm, ?_, hinput''.trans (hinput'.trans hinput), hlen⟩
  rw [hsent', htunnel, hsent, List.append_assoc]
  rfl

theorem startForwardWithReply_ok
    (h : exec (startForwardWithReply dst port reply prepend) c = (.ok stage, t)) :
    ∃ sid, stage = .forwarding sid ∧
      t.tunnel.sent = c.tunnel.sent ++ sendOpen sid protoTcp dst port :: sendDataBatch sid prepend ∧
      t.input = c.input ∧ (openPayload protoTcp dst port).length ≤ frameDataMax := by
  obtain ⟨sid, u, halloc, h⟩ := exec_bind_eq_ok h
  cases sid with
  | none => cases h
  | some sid =>
      have hkept : u.tunnel.sent = c.tunnel.sent ∧ u.input = c.input := by
        simp only [allocate, exec_of] at halloc
        split at halloc <;> obtain ⟨-, rfl⟩ := Prod.mk.inj halloc <;> exact ⟨rfl, rfl⟩
      simp only [closing, exec_of] at h
      split at h
      next stage' v hforward =>
        obtain ⟨hstage, rfl⟩ := Prod.mk.inj h
        obtain rfl := Except.ok.inj hstage
        obtain ⟨hto, hsent, hinput, hlen⟩ := openForward_ok hforward
        exact ⟨sid, hto, by rw [hsent, hkept.1], hinput.trans hkept.2, hlen⟩
      · cases h
      · cases h

def prependOf (method header : Bytes) : Bytes :=
  if isConnect method then header.drop (headerEnd header) else header

/-- The header asks for a target, and an Open can carry it. -/
structure Forwards (header method target : Bytes) : Prop where
  asks : Asks header method target
  fits : (destination method target (fromUtf8Lossy header)).1.length + 4 ≤ frameDataMax

theorem request_ok {header : Bytes} (h : exec (request header) c = (.ok stage, t)) :
    ∃ method target sid, Forwards header method target ∧ stage = .forwarding sid ∧
      t.input = c.input ∧ t.tunnel.sent = c.tunnel.sent ++
        sendOpen sid protoTcp (destination method target (fromUtf8Lossy header)).1
          (destination method target (fromUtf8Lossy header)).2 ::
            sendDataBatch sid (prependOf method header) := by
  rw [request] at h
  split at h
  next method target version more hwords =>
    have hforward : ∃ reply,
        exec (startForwardWithReply (destination method target (fromUtf8Lossy header)).1
        (destination method target (fromUtf8Lossy header)).2 reply (prependOf method header)) c =
          (.ok stage, t) := by
      rw [prependOf]
      by_cases hconnect : isConnect method = true
      · rw [if_pos hconnect]
        simp only [hconnect, if_true] at h
        exact ⟨_, h⟩
      · rw [if_neg hconnect]
        simp only [hconnect] at h
        exact ⟨_, h⟩
    obtain ⟨reply, hforward⟩ := hforward
    obtain ⟨sid, hstage, hsent, hinput, hlen⟩ := startForwardWithReply_ok hforward
    rw [OpenTargets.length_openPayload] at hlen
    exact ⟨method, target, sid, ⟨⟨version, more, hwords⟩, hlen⟩, hstage, hinput, hsent⟩
  · cases h

structure Willing (c : Conn) : Prop where
  sends : c.sendErrors = []
  writes : c.writeErrors = []

theorem sendCall_willing (context : String) {call : Call Bytes}
    (hlen : call.payload.length ≤ frameDataMax) (hc : Willing c) :
    ∃ t, exec (sendCall context call) c = (.ok (), t) ∧ Willing t := by
  have hexec : exec (sendCall context call) c = (.ok (), { c with
      sendErrors := [], tunnel := { c.tunnel with sent := c.tunnel.sent ++ [call] } }) := by
    simp only [sendCall, exec_of, hc.sends]
    rw [if_neg (Nat.not_lt.mpr hlen)]
    rfl
  exact ⟨_, hexec, rfl, hc.writes⟩

theorem sendBatch_willing (calls : List (Call Bytes))
    (hlen : ∀ call ∈ calls, call.payload.length ≤ frameDataMax) (hc : Willing c) :
    ∃ t, exec (sendBatch calls) c = (.ok (), t) ∧ Willing t := by
  induction calls generalizing c with
  | nil => exact ⟨c, rfl, hc⟩
  | cons call calls ih =>
      obtain ⟨hcall, hcalls⟩ := List.forall_mem_cons.mp hlen
      obtain ⟨u, hexec, hu⟩ := sendCall_willing "发送数据帧失败: " hcall hc
      obtain ⟨t, hexec', ht⟩ := ih hcalls hu
      refine ⟨t, ?_, ht⟩
      change exec (sendCall "发送数据帧失败: " call >>= fun _ => sendBatch calls) c = _
      rw [exec_bind_ok hexec, hexec']

theorem writeReply_willing (reply : Bytes) (hc : Willing c) :
    ∃ t, exec (writeReply reply) c = (.ok (), t) ∧ Willing t := by
  rw [writeReply]
  split
  · refine ⟨{ c with writeErrors := [], written := c.written ++ reply }, ?_, hc.sends, rfl⟩
    simp only [writeAll, exec_of, hc.writes]
    rfl
  · exact ⟨c, rfl, hc⟩

theorem sendPrepend_willing (sid : UInt16) (prepend : Bytes) (hc : Willing c) :
    ∃ t, exec (sendPrepend sid prepend) c = (.ok (), t) ∧ Willing t := by
  rw [sendPrepend]
  split
  · refine sendBatch_willing _ (fun call hcall => ?_) hc
    simp only [sendDataBatch, chunks, List.mem_map] at hcall
    obtain ⟨chunk, ⟨i, -, rfl⟩, rfl⟩ := hcall
    exact List.length_take_le _ _
  · exact ⟨c, rfl, hc⟩

theorem startForwardWithReply_willing (reply prepend : Bytes) (port : UInt16)
    (hlen : (openPayload protoTcp dst port).length ≤ frameDataMax) (hc : Willing c)
    (halloc : c.tunnel.registry.allocate.1.isSome = true) :
    ∃ stage t, exec (startForwardWithReply dst port reply prepend) c = (.ok stage, t) := by
  obtain ⟨sid, u, hsid, hu⟩ : ∃ sid u, exec allocate c = (.ok (some sid), u) ∧ Willing u := by
    cases hr : c.tunnel.registry.allocate with
    | mk r reg =>
        cases r with
        | none => simp [hr] at halloc
        | some p =>
            refine ⟨p.1,
              { c with tunnel := { c.tunnel with registry := reg, allocated := c.tunnel.allocated ++
                [p.1] } }, ?_,
              hc.sends, hc.writes⟩
            simp only [allocate, exec_of, hr]
  obtain ⟨v, hopen, hv⟩ :=
    sendCall_willing "发送控制帧失败: "
      (show (sendOpen sid protoTcp dst port).payload.length ≤ _ from hlen) hu
  obtain ⟨w, hreply, hw⟩ := writeReply_willing reply hv
  obtain ⟨t, hprepend, -⟩ := sendPrepend_willing sid prepend hw
  have hforward : exec (openForward sid dst port reply prepend) u = (.ok (.forwarding sid), t) := by
    rw [openForward, sendControlFrame, exec_bind_ok hopen, exec_bind_ok hreply,
      exec_bind_ok hprepend]
    rfl
  refine ⟨.forwarding sid, t, ?_⟩
  rw [startForwardWithReply, exec_bind_ok hsid]
  simp only [closing, exec_of, hforward]

theorem request_willing {header method target : Bytes} (h : Forwards header method target)
    (hc : Willing c) (halloc : c.tunnel.registry.allocate.1.isSome = true) :
    ∃ stage t, exec (request header) c = (.ok stage, t) := by
  obtain ⟨⟨version, more, hwords⟩, hfits⟩ := h
  have hforward := fun reply prepend => startForwardWithReply_willing reply prepend
    (destination method target (fromUtf8Lossy header)).2
      (by rw [OpenTargets.length_openPayload]; exact hfits) hc halloc
  simp only [request, hwords]
  split
  · exact hforward _ _
  · exact hforward _ _

end Forward

section Stops

variable {stream a b : Bytes} {m₁ m₂ : Nat} {method target method' target' : Bytes}

theorem take_of_le (h : m₁ ≤ m₂) :
    stream.take m₂ = stream.take m₁ ++ (stream.drop m₁).take (m₂ - m₁) := by
  rw [← List.take_add, Nat.add_sub_cancel' h]

theorem asks_take (h₁ : Asks (stream.take m₁) method target)
    (h₂ : Asks (stream.take m₂) method' target') : method' = method ∧ target' = target := by
  rcases Nat.le_total m₁ m₂ with hle | hle
  · rw [take_of_le hle] at h₂
    exact asks_append _ h₁ h₂
  · rw [take_of_le hle] at h₁
    obtain ⟨hmethod, htarget⟩ := asks_append _ h₂ h₁
    exact ⟨hmethod.symm, htarget.symm⟩

theorem headerEnd_le (a : Bytes) : headerEnd a ≤ a.length := by
  rw [headerEnd]
  split
  next p hp => exact position_le hp
  next =>
    split
    next p hp => exact position_le hp
    next => exact Nat.le_refl _

/-- The header end moves when more is read only if a CRLFCRLF comes to light. -/
theorem headerEnd_append_iff (h : complete a = true) :
    headerEnd (a ++ b) = headerEnd a ↔
    (position crlfcrlf (a ++ b)).isSome = (position crlfcrlf a).isSome := by
  cases ha : position crlfcrlf a with
  | some p =>
      rw [headerEnd, headerEnd, ha, position_append ha b]
      exact iff_of_true rfl rfl
  | none =>
      have hle := headerEnd_le a
      obtain ⟨q, hq⟩ : ∃ q, position lflf a = some q := by
        rw [complete, ha] at h
        exact Option.isSome_iff_exists.mp h
      cases hb : position crlfcrlf (a ++ b) with
      | none =>
          rw [headerEnd, headerEnd, ha, hb, hq, position_append hq b]
          exact iff_of_true rfl rfl
      | some p =>
          refine iff_of_false (fun heq => ?_) (by simp)
          -- then the CRLFCRLF would have been there before
          have hend : headerEnd (a ++ b) = p + 4 := by rw [headerEnd, hb]
          rw [← heq, hend] at hle
          have hpre := position_eq hb
          rw [List.drop_append_of_le_length (by omega)] at hpre
          have hinside : crlfcrlf <+: a.drop p := by
            apply List.prefix_of_prefix_length_le hpre (List.prefix_append _ _)
            rw [List.length_drop]
            exact Nat.le_sub_of_add_le' hle
          have hsome := position_isSome (hinside.isInfix.trans (List.drop_suffix p a).isInfix)
          rw [ha] at hsome
          cases hsome

theorem headerEnd_take_iff (h₁ : complete (stream.take m₁) = true)
    (h₂ : complete (stream.take m₂) = true) :
    headerEnd (stream.take m₁) = headerEnd (stream.take m₂) ↔
      (position crlfcrlf (stream.take m₁)).isSome =
        (position crlfcrlf (stream.take m₂)).isSome := by
  rcases Nat.le_total m₁ m₂ with hle | hle
  · rw [take_of_le hle, eq_comm, headerEnd_append_iff h₁, eq_comm]
  · rw [take_of_le hle, headerEnd_append_iff h₂]

theorem prepended_take (hstop : Stop stream m₁) :
    prependOf method (stream.take m₁) ++ stream.drop m₁ =
    if isConnect method then stream.drop (headerEnd (stream.take m₁)) else stream := by
  obtain ⟨hm, hdone, -⟩ := hstop
  have hle := headerEnd_le (stream.take m₁)
  rw [prependOf]
  split
  · rw [← List.drop_append_of_le_length hle, List.take_append_drop]
  · exact List.take_append_drop m₁ stream

end Stops

section Streams

variable {first : UInt8} {c : Conn} {host bytes : Bytes} {port : UInt16} {m : Nat}
  {method target : Bytes}

/-- The request is forwarded to this host and port, and these are the bytes for the tunnel: those
that are sent before the forwarding begins, and all that is still to be read. -/
def Proxied (first : UInt8) (c : Conn) (host : Bytes) (port : UInt16) (bytes : Bytes) : Prop :=
  ∃ sid t prepend, exec (handleHttpProxy first) c = (.ok (.forwarding sid), t) ∧
    t.tunnel.sent = c.tunnel.sent ++ sendOpen sid protoTcp host port :: sendDataBatch sid prepend ∧
    bytes = prepend ++ t.input

theorem openPayload_inj {proto : UInt8} {host' : Bytes} {port' : UInt16}
    (h : openPayload proto host port = openPayload proto host' port') :
    host = host' ∧ port = port' := by
  have hbody := (List.cons.inj (List.cons.inj h).2).2
  obtain ⟨hhost, hport⟩ := List.append_inj' hbody (by rw [length_toBytes, length_toBytes])
  refine ⟨hhost, UInt16.toNat_inj.mp ?_⟩
  have hvalue : ∀ p : UInt16, ofBytes (toBytes 2 p.toNat) = p.toNat :=
    fun p => ofBytes_toBytes 2 (show p.toNat < 256 ^ 2 from p.toNat_lt)
  rw [← hvalue port, hport, hvalue port']

theorem sendDataBatch_inj {sid : UInt16} {a b : Bytes}
    (h : sendDataBatch sid a = sendDataBatch sid b) : a = b := by
  have hpayloads : ∀ data : Bytes, (sendDataBatch sid data).flatMap Call.payload = data := by
    intro data
    rw [sendDataBatch, List.flatMap_map]
    simpa [List.flatMap_id'] using flatten_chunks (by decide : 0 < frameDataMax) data
  rw [← hpayloads a, h, hpayloads b]

theorem incomplete_first (first : UInt8) : complete [first] = false := by
  simp [complete, position, crlfcrlf, lflf, List.isPrefixOf]

theorem proxied_spec (h : Proxied first c host port bytes) :
    ∃ m method target, Stop (first :: c.input) m ∧
    Forwards ((first :: c.input).take m) method target ∧
    (host, port) = destination method target (fromUtf8Lossy ((first :: c.input).take m)) ∧
    bytes = prependOf method ((first :: c.input).take m) ++ (first :: c.input).drop m := by
  obtain ⟨sid, t, prepend, hexec, hsent, rfl⟩ := h
  rw [handleHttpProxy, exec_of] at hexec
  obtain ⟨header, u, hread, hrequest⟩ := exec_bind_eq_ok hexec
  have htunnel := AuthGate.keeps_readHeader (c.input.length + 1) [first] c
  have hmax : [first].length ≤ headerMax := (by decide : 1 ≤ headerMax)
  obtain ⟨hstop, hwhole⟩ :=
    readHeader_stop _ (List.cons_ne_nil first []) hmax (incomplete_first first) hread
  rw [hread] at htunnel
  obtain ⟨method, target, sid', hforwards, hstage, hinput, hsent'⟩ := request_ok hrequest
  obtain rfl := Stage.forwarding.inj hstage
  have hu : u.tunnel = c.tunnel := htunnel
  rw [hsent', hu, List.append_cancel_left_eq] at hsent
  obtain ⟨hcall, hbatch⟩ := List.cons.inj hsent
  obtain ⟨rfl, rfl⟩ := openPayload_inj (congrArg Call.payload hcall)
  obtain rfl := sendDataBatch_inj hbatch
  have htake : (first :: c.input).take header.length = header := by
    rw [← List.singleton_append, ← hwhole, List.take_left]
  have hdrop : (first :: c.input).drop header.length = u.input := by
    rw [← List.singleton_append, ← hwhole, List.drop_left]
  refine ⟨header.length, method, target, hstop, ?_⟩
  rw [htake, hdrop, hinput]
  exact ⟨hforwards, rfl, rfl⟩

theorem proxied_of_stop {input : Bytes} (hstop : Stop (first :: input) m)
    (h : Forwards ((first :: input).take m) method target) :
    ∃ c : Conn, c.input = input ∧ Proxied first c
      (destination method target (fromUtf8Lossy ((first :: input).take m))).1
      (destination method target (fromUtf8Lossy ((first :: input).take m))).2
      (prependOf method ((first :: input).take m) ++ (first :: input).drop m) := by
  obtain ⟨hm, hdone, b, hpos, hb, hlast, hmax, hopen⟩ := hstop
  let c : Conn := { AuthGate.clean input with sizes := List.replicate (b - 1) 1 ++ [m - b] }
  have hread : exec (readHeader (input.length + 1) [first]) c = (.ok ((first :: input).take m),
      { c with input := (first :: input).drop m, sizes := [] }) :=
    readHeader_cut hm hdone hb hlast hmax hopen (b - 1) 1 (input.length + 1)
      (Nat.add_sub_cancel' hpos) rfl rfl (Nat.lt_succ_self _)
  have halloc : (SessionRegistry.new : SessionRegistry Bytes).allocate.1.isSome = true := by decide
  obtain ⟨stage, t, hrequest⟩ :=
    request_willing (c := { c with input := (first :: input).drop m, sizes := [] }) h ⟨rfl, rfl⟩
    halloc
  obtain ⟨method', target', sid, hforwards, rfl, hinput, hsent⟩ := request_ok hrequest
  obtain ⟨rfl, rfl⟩ := asks_take h.asks hforwards.asks
  refine ⟨c, rfl, sid, t, _, ?_, hsent, by rw [hinput]⟩
  rw [handleHttpProxy, exec_of]
  exact (exec_bind_ok hread).trans hrequest

/-- The target is named by a Host line only. -/
def Relative (method target : Bytes) : Prop :=
  isConnect method = false ∧ stripPrefix (ascii "http://") target = none ∧
  stripPrefix (ascii "https://") target = none

/-- However many bytes may have been read when the header is found complete: behind a CONNECT either
all these parts of the stream have a CRLFCRLF or none has, and where the target is relative the Host
lines in all of them name the same host and port. -/
def Settled (stream : Bytes) : Prop :=
  ∀ m₁ m₂ method target, Stop stream m₁ → Stop stream m₂ →
    Forwards (stream.take m₁) method target → Forwards (stream.take m₂) method target →
    (isConnect method = true →
      (position crlfcrlf (stream.take m₁)).isSome = (position crlfcrlf (stream.take m₂)).isSome) ∧
    (Relative method target → splitHostPort (hostHeader (fromUtf8Lossy (stream.take m₁))) 80 =
      splitHostPort (hostHeader (fromUtf8Lossy (stream.take m₂))) 80)

theorem destination_relative (h : Relative method target) (text : Bytes) :
    destination method target text = splitHostPort (hostHeader text) 80 := by
  obtain ⟨hconnect, hhttp, hhttps⟩ := h
  rw [destination, hconnect, hhttp, hhttps]
  rfl

theorem destination_absolute (h : ¬ Relative method target) (text text' : Bytes) :
    destination method target text = destination method target text' := by
  rw [destination, destination]
  split
  · rfl
  next hconnect =>
    split
    · rfl
    next hhttp =>
      split
      · rfl
      next hhttps => exact absurd ⟨(Bool.not_eq_true _).mp hconnect, hhttp, hhttps⟩ h

end Streams

/-- Whether a request is proxied the same way however its bytes are cut into reads. -/
theorem segmentation_independent_iff (first : UInt8) (input : Bytes) :
    (∀ c₁ c₂ host₁ host₂ port₁ port₂ bytes₁ bytes₂, c₁.input = input → c₂.input = input →
      Proxied first c₁ host₁ port₁ bytes₁ → Proxied first c₂ host₂ port₂ bytes₂ →
      host₁ = host₂ ∧ port₁ = port₂ ∧ bytes₁ = bytes₂) ↔ Settled (first :: input) := by
  constructor
  · intro h m₁ m₂ method target hstop₁ hstop₂ hforwards₁ hforwards₂
    obtain ⟨c₁, hinput₁, hproxied₁⟩ := proxied_of_stop hstop₁ hforwards₁
    obtain ⟨c₂, hinput₂, hproxied₂⟩ := proxied_of_stop hstop₂ hforwards₂
    obtain ⟨hhost, hport, hbytes⟩ := h c₁ c₂ _ _ _ _ _ _ hinput₁ hinput₂ hproxied₁ hproxied₂
    constructor
    · intro hconnect
      rw [prepended_take hstop₁, prepended_take hstop₂, if_pos hconnect, if_pos hconnect] at hbytes
      rw [← headerEnd_take_iff hstop₁.2.1 hstop₂.2.1]
      have hlen := congrArg List.length hbytes
      have hle₁ := headerEnd_le ((first :: input).take m₁)
      have hle₂ := headerEnd_le ((first :: input).take m₂)
      rw [List.length_take] at hle₁ hle₂
      rw [List.length_drop, List.length_drop] at hlen
      omega
    · intro hrelative
      rw [← destination_relative hrelative, ← destination_relative hrelative]
      exact Prod.ext hhost hport
  · intro h c₁ c₂ host₁ host₂ port₁ port₂ bytes₁ bytes₂ hinput₁ hinput₂ hproxied₁ hproxied₂
    obtain ⟨m₁, method, target, hstop₁, hforwards₁, hdest₁, rfl⟩ := proxied_spec hproxied₁
    obtain ⟨m₂, method', target', hstop₂, hforwards₂, hdest₂, rfl⟩ := proxied_spec hproxied₂
    rw [hinput₁] at hstop₁ hforwards₁ hdest₁ ⊢
    rw [hinput₂] at hstop₂ hforwards₂ hdest₂ ⊢
    obtain ⟨rfl, rfl⟩ := asks_take hforwards₁.asks hforwards₂.asks
    obtain ⟨hends, hhosts⟩ := h m₁ m₂ method' target' hstop₁ hstop₂ hforwards₁ hforwards₂
    have hdest : (host₁, port₁) = (host₂, port₂) := by
      rw [hdest₁, hdest₂]
      by_cases hrelative : Relative method' target'
      · rw [destination_relative hrelative, destination_relative hrelative]
        exact hhosts hrelative
      · exact destination_absolute hrelative _ _
    refine ⟨(Prod.mk.inj hdest).1, (Prod.mk.inj hdest).2, ?_⟩
    rw [prepended_take hstop₁, prepended_take hstop₂]
    split
    next hconnect => rw [(headerEnd_take_iff hstop₁.2.1 hstop₂.2.1).mpr (hends hconnect)]
    next => rfl

section WellFormed

variable {stream text : Bytes} {p m : Nat}

def hasHostLine (text : Bytes) : Bool :=
  ((lines text).find? fun l => (ascii "host:").isPrefixOf (l.map lower)).isSome

theorem hostHeader_append (init more : Bytes) (h : hasHostLine (init ++ [0x0A]) = true) :
    hostHeader ((init ++ [0x0A]) ++ more) = hostHeader (init ++ [0x0A]) := by
  have hlines : lines ((init ++ [0x0A]) ++ more) = lines (init ++ [0x0A]) ++ lines more := by
    rw [lines, List.append_assoc, List.singleton_append, linesLoop_append]
    rfl
  rw [hasHostLine] at h
  rw [hostHeader, hlines, List.find?_append, hostHeader]
  cases hfound : (lines (init ++ [0x0A])).find? fun l =>
    (ascii "host:").isPrefixOf (l.map lower) with
  | none =>
      rw [hfound] at h
      cases h
  | some l => rfl

theorem le_of_stop (hp : position crlfcrlf stream = some p)
    (hlf : position lflf (stream.take (p + 4)) = none) (hstop : Stop stream m) : p + 4 ≤ m := by
  obtain ⟨hm, hdone, -⟩ := hstop
  by_contra hlt
  rw [complete, Bool.or_eq_true, Option.isSome_iff_exists, Option.isSome_iff_exists] at hdone
  rcases hdone with ⟨q, hq⟩ | ⟨q, hq⟩
  · have hsame := position_append hq (stream.drop m)
    rw [List.take_append_drop, hp] at hsame
    obtain rfl := Option.some.inj hsame
    have hle := position_le hq
    have hfour : crlfcrlf.length = 4 := rfl
    rw [List.length_take] at hle
    omega
  · rw [take_of_le (Nat.le_of_not_le hlt), position_append hq] at hlf
    cases hlf

/-- A header that ends in CRLFCRLF and has a Host line is proxied the same way however it is cut. -/
theorem settled_of_hostLine (hp : position crlfcrlf stream = some p)
    (hlf : position lflf (stream.take (p + 4)) = none)
    (hhost : hasHostLine (fromUtf8Lossy (stream.take (p + 4))) = true) : Settled stream := by
  obtain ⟨rest, hrest⟩ := position_eq hp
  have hheader : stream.take (p + 4) = (stream.take p ++ [0x0D, 0x0A, 0x0D]) ++ [0x0A] := by
    rw [List.take_add, ← hrest]
    simp [crlfcrlf]
  have hascii : ∀ x, (stream.take (p + 4)).getLast? = some x → x < 0x80 := by
    intro x hx
    rw [hheader, List.getLast?_concat] at hx
    obtain rfl := Option.some.inj hx
    decide
  have hend : fromUtf8Lossy (stream.take (p + 4)) =
      fromUtf8Lossy (stream.take p ++ [0x0D, 0x0A, 0x0D]) ++ [0x0A] := by
    rw [hheader, fromUtf8Lossy_append _ (fun x hx => ?_)]
    · rfl
    · have hlast : (stream.take p ++ [0x0D, 0x0A, 0x0D]).getLast? = some 0x0D := by simp
      rw [hlast] at hx
      obtain rfl := Option.some.inj hx
      decide
  have htext : ∀ m, Stop stream m → hostHeader (fromUtf8Lossy (stream.take m)) =
      hostHeader (fromUtf8Lossy (stream.take (p + 4))) ∧
      (position crlfcrlf (stream.take m)).isSome = true := by
    intro m hstop
    have hle := le_of_stop hp hlf hstop
    constructor
    · rw [take_of_le hle, fromUtf8Lossy_append _ hascii]
      rw [hend] at hhost ⊢
      exact hostHeader_append _ _ hhost
    · apply position_isSome
      have hinfix : crlfcrlf <:+: stream.take (p + 4) := by
        refine ⟨stream.take p, [], ?_⟩
        rw [hheader, List.append_nil, List.append_assoc]
        rfl
      rw [take_of_le hle]
      exact hinfix.trans (List.prefix_append _ _).isInfix
  intro m₁ m₂ method target hstop₁ hstop₂ _ _
  obtain ⟨hhost₁, hsome₁⟩ := htext m₁ hstop₁
  obtain ⟨hhost₂, hsome₂⟩ := htext m₂ hstop₂
  exact ⟨fun _ => by rw [hsome₁, hsome₂], fun _ => by rw [hhost₁, hhost₂]⟩

end WellFormed

def pipelined : Bytes := ascii "ONNECT a:1 HTTP/1.0\n\nGET / HTTP/1.0\r\n\r\n"

/-- Read together with the CONNECT, the request that follows counts as a part of its header and is
lost. -/
theorem pipelined_request_lost :
    ¬ ∀ c₁ c₂ host₁ host₂ port₁ port₂ bytes₁ bytes₂, c₁.input = pipelined → c₂.input = pipelined →
    Proxied 0x43 c₁ host₁ port₁ bytes₁ → Proxied 0x43 c₂ host₂ port₂ bytes₂ →
      host₁ = host₂ ∧ port₁ = port₂ ∧ bytes₁ = bytes₂ := by
  intro h
  have halone : Stop (0x43 :: pipelined) 22 :=
    ⟨by decide +kernel, by decide +kernel, 21, by decide +kernel⟩
  have htogether : Stop (0x43 :: pipelined) 40 :=
    ⟨by decide +kernel, by decide +kernel, 21, by decide +kernel⟩
  have hasks : ∀ m, m = 22 ∨ m = 40 →
      Forwards ((0x43 :: pipelined).take m) (ascii "CONNECT") (ascii "a:1") := by
    rintro m (rfl | rfl)
    · exact ⟨⟨ascii "HTTP/1.0", [], by decide +kernel⟩, by decide +kernel⟩
    · exact ⟨⟨ascii "HTTP/1.0", [ascii "GET", ascii "/", ascii "HTTP/1.0"], by decide +kernel⟩,
        by decide +kernel⟩
  obtain ⟨c₁, hinput₁, h₁⟩ := proxied_of_stop halone (hasks 22 (Or.inl rfl))
  obtain ⟨c₂, hinput₂, h₂⟩ := proxied_of_stop htogether (hasks 40 (Or.inr rfl))
  have hbytes := (h c₁ c₂ _ _ _ _ _ _ hinput₁ hinput₂ h₁ h₂).2.2
  exact absurd hbytes (by decide +kernel)

end SrtVpn.Segments
